import Xlpod.ServerCalls

/-!
# Tool dispatch

`execute_tool_use` turns one `tool_use` block into a `tool_result` block: the
tool must exist, the session must hold its scope, and a mutating tool needs a
trust window or the user's consent. Errors become results the model can read.
-/
namespace Xlpod.ToolDispatch
open Xlpod.ApiErrors Xlpod.Auth Xlpod.AiTypes Xlpod.BundlePayload Xlpod.JsonText
open Xlpod.SessionStores Xlpod.ServerState Xlpod.ServerCalls

structure DispatchCtx where
  session : Session
  planOnly : Bool

def Session.fsRootsForDispatch (s : Session) : List PathBuf := s.fsRoots

def errorPayload (err : ApiError) : PyJson :=
  .obj [(lit "error", str err.debug),
    (lit "hint", str "tool execution failed; see launcher audit log for details")]

def emptyArray : PyJson := .arr []

def FileContent.toValue (c : FileContent) : PyJson :=
  .obj [(lit "content", .str c.content), (lit "encoding", str c.encoding), (lit "path", str c.path),
    (lit "size", .int c.size)]

def runFsRead (ctx : DispatchCtx) (input : PyJson) : Handler PyJson := do
  let path ← okOr .badRequest ((field input "path").bind asStr)
  let result ← readUnderRoots path (Session.fsRootsForDispatch ctx.session)
  return FileContent.toValue (fileContent result)

def inputStr (input : PyJson) (key : String) : String := ((field input key).bind asStr).getD ""

def runExcel (name : String) (input : PyJson) : Handler PyJson := do
  if name = "excel_workbooks" then
    let resp ← excelCall "excel_workbooks" (.obj [])
    return (field resp "workbooks").getD emptyArray
  else if name = "excel_range_read" then
    let resp ← excelCall "excel_range_read" (.obj [(lit "range", str (inputStr input "range")),
      (lit "sheet", str (inputStr input "sheet")), (lit "workbook", str (inputStr input "workbook"))])
    return .obj [(lit "address", (field resp "address").getD (str "")),
      (lit "values", (field resp "values").getD emptyArray)]
  else throw .aiToolDenied

def runPython (input : PyJson) : Handler PyJson := do
  let code ← okOr .badRequest ((field input "code").bind asStr)
  return ExecResult.toValue (← workerExec code)

def consentOrigin (ctx : DispatchCtx) : String :=
  "ai://" ++ ctx.session.provider ++ "/" ++ uuidText ctx.session.id

/-- The gate in front of a tool: how it was approved. -/
def approve (ctx : DispatchCtx) (spec : ToolSpec) (name : String) : Handler ApprovedVia := do
  if !spec.mutates then return .auto
  if ctx.planOnly then throw .aiPlanOnlyViolation
  if ← covers ctx.session.id name then return .trustWindow
  let ok ← requestConsent
    { origin := consentOrigin ctx, scopes := [spec.requiredScope], fsRoots := [] }
  if !ok then throw .aiConsentDenied
  return .dialog

def runTool (ctx : DispatchCtx) (scope : Scope) (name : String) (input : PyJson) : Handler PyJson :=
  match scope with
  | .fsRead => runFsRead ctx input
  | .excelCom => runExcel name input
  | .aiExecPython => runPython input
  | _ => throw .aiToolDenied

def runOne (ctx : DispatchCtx) (name : String) (input : PyJson) :
    Handler (PyJson × ApprovedVia) := do
  let spec ← okOr .aiToolDenied (findTool name)
  if !ctx.session.grantedScopes.contains spec.requiredScope then throw .aiToolDenied
  let approvedVia ← approve ctx spec name
  dispatched ctx.session.id name
  let value ← runTool ctx spec.requiredScope name input
  return (value, approvedVia)

def toolResult (toolUseId : String) : Except ApiError (PyJson × ApprovedVia) → ContentBlock
  | .ok (value, approvedVia) => .toolResult toolUseId true value (some approvedVia)
  | .error err => .toolResult toolUseId false (errorPayload err) none

def executeToolUse (ctx : DispatchCtx) (toolUseId name : String) (input : PyJson) :
    Server ContentBlock := do
  return toolResult toolUseId (← (runOne ctx name input).run)

/-- The results of a turn's tool uses, in order. -/
def executeToolUses (ctx : DispatchCtx) :
    List (String × String × PyJson) → Server (List ContentBlock)
  | [] => return []
  | (toolUseId, name, input) :: rest => do
      let result ← executeToolUse ctx toolUseId name input
      return result :: (← executeToolUses ctx rest)

end Xlpod.ToolDispatch
