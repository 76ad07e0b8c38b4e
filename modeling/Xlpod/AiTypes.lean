import Xlpod.Auth
import Xlpod.CostLedger
import Xlpod.BundlePayload

/-!
# Messages, tools and provider turns

The wire types of the AI bridge and the static tool registry. A Rust string is
a `String`; inside a JSON value it is a list of code points, and the two
conversions are inverse on scalar text. The fields of a `serde_json` object are
written in the order of their keys, which is how its map keeps them.
-/
namespace Xlpod.AiTypes
open Xlpod.JsonText Xlpod.Auth Xlpod.CostLedger Xlpod.BundlePayload

/-- The string a JSON text without surrogates stands for. -/
def rustString (s : Text) : String := String.ofList (s.map fun c => Char.ofNat c.val)

def asStr : PyJson → Option String
  | .str s => some (rustString s)
  | _ => none

def asBool : PyJson → Option Bool
  | .bool b => some b
  | _ => none

def field (v : PyJson) (key : String) : Option PyJson := v.get? (lit key)

def str (s : String) : PyJson := .str (lit s)

def optionJson : Option String → PyJson
  | some s => str s
  | none => .null

theorem rustString_lit (s : String) : rustString (lit s) = s := by
  have hchars : (lit s).map (fun c => Char.ofNat c.val) = s.toList := by
    rw [lit, List.map_map]
    apply List.map_id''
    intro c
    rw [Function.comp_apply, codePoint_char_val, Char.ofNat_toNat]
  rw [rustString, hchars, String.ofList_toList]

theorem lit_rustString {text : Text} (h : Scalar text) : lit (rustString text) = text := by
  have hchars : (rustString text).toList = text.map fun c => Char.ofNat c.val := by
    rw [rustString, String.toList_ofList]
  rw [lit, hchars, List.map_map]
  conv_rhs => rw [← List.map_id text]
  apply List.map_congr_left
  intro c hc
  obtain ⟨hhigh, hlow⟩ := h c hc
  have hvalid : c.val.isValidChar := by
    have hbound := c.isLt
    simp only [isHigh, isLow, Bool.and_eq_false_iff, decide_eq_false_iff_not] at hhigh hlow
    unfold Nat.isValidChar
    omega
  rw [Function.comp_apply, Char.ofNat, dif_pos hvalid, id_eq]
  exact codePoint_self c

@[simp] theorem asStr_str (s : String) : asStr (str s) = some s :=
  congrArg some (rustString_lit s)

inductive ApprovedVia
  | auto
  | dialog
  | trustWindow
deriving DecidableEq

inductive ContentBlock
  | text (text : String)
  | toolUse (id name : String) (input : PyJson)
  | toolResult (toolUseId : String) (ok : Bool) (output : PyJson)
      (approvedVia : Option ApprovedVia)

inductive Role
  | system
  | user
  | assistant
  | tool
deriving DecidableEq

structure ChatMessage where
  role : Role
  tsMs : Option ℕ
  content : List ContentBlock

inductive StopReason
  | endTurn
  | maxTokens
  | toolUseRoundLimit
deriving DecidableEq

structure ChatRequest (Id : Type) where
  sessionId : Id
  messages : List ChatMessage
  maxTokens : Option ℕ
  planOnly : Bool

structure ChatResponse (Id : Type) where
  sessionId : Id
  message : ChatMessage
  stopReason : StopReason
  usage : Usage

/-- The `ToolUse` blocks of a message, in order. -/
def toolUsesOf (content : List ContentBlock) : List (String × String × PyJson) :=
  content.filterMap fun b =>
    match b with
    | .toolUse id name input => some (id, name, input)
    | _ => none

/-- Without the texts, which no caller reads. -/
inductive ProviderError
  | unconfigured
  | upstream
  | decode

structure ProviderTurn where
  message : ChatMessage
  stopReason : StopReason
  usage : Usage

/-! ## The tool registry -/

structure ToolSpec where
  name : String
  description : String
  inputSchema : PyJson
  xlpodRoute : String
  requiredScope : Scope
  mutates : Bool

def stringProperty : PyJson := .obj [(lit "type", str "string")]

def objectSchema (required : List String) (properties : List (String × PyJson)) : PyJson :=
  .obj [(lit "properties", .obj (properties.map fun p => (lit p.1, p.2))),
    (lit "required", .arr (required.map str)), (lit "type", str "object")]

def builtinTools : List ToolSpec :=
  [{ name := "fs_read"
     description := "Read a file under one of the token's approved fs roots. " ++
       "The path is canonicalized server-side; paths outside the " ++
       "approved set are rejected. Returns base64 content."
     inputSchema := objectSchema ["path"] [("path", .obj
       [(lit "description",
          str "Absolute or relative path; must lie under an approved fs root."),
        (lit "type", str "string")])]
     xlpodRoute := "GET /fs/read"
     requiredScope := .fsRead
     mutates := false },
   { name := "excel_workbooks"
     description := "List workbooks open in the user's running Excel instance."
     inputSchema := .obj [(lit "properties", .obj []), (lit "type", str "object")]
     xlpodRoute := "GET /excel/workbooks"
     requiredScope := .excelCom
     mutates := false },
   { name := "excel_range_read"
     description := "Read a range from a workbook in the user's running Excel " ++
       "instance. Returns a 2-D array of cell values."
     inputSchema := objectSchema ["workbook", "sheet", "range"]
       [("range", stringProperty), ("sheet", stringProperty), ("workbook", stringProperty)]
     xlpodRoute := "POST /excel/range/read"
     requiredScope := .excelCom
     mutates := false },
   { name := "run_python"
     description := "Execute a Python snippet inside the launcher's worker. " ++
       "The worker is shared across calls in this session; " ++
       "setting `_result` returns its repr() in the response. " ++
       "Stdout and stderr are captured."
     inputSchema := objectSchema ["code"] [("code", stringProperty)]
     xlpodRoute := "POST /run/python"
     requiredScope := .aiExecPython
     mutates := true }]

def findTool (name : String) : Option ToolSpec := builtinTools.find? fun t => t.name = name

theorem findTool_some {name : String} {spec : ToolSpec} (h : findTool name = some spec) :
    spec ∈ builtinTools ∧ spec.name = name :=
  ⟨List.mem_of_find?_eq_some h, by simpa using List.find?_some h⟩

end Xlpod.AiTypes
