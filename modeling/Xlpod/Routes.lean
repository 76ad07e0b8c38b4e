import Xlpod.ChatRoute
import Mathlib.Data.List.Destutter
import Mathlib.Data.List.Sort

/-!
# The routes

Every handler of `routes.rs` other than the chat, each over the input its
extractors made of the request. A path-taking handler canonicalizes first and
checks the token's roots; one that changes what the user must approve asks for
consent before it does anything.
-/
namespace Xlpod.Routes
open Xlpod.ApiErrors Xlpod.Auth Xlpod.AiTypes Xlpod.AnthropicWire Xlpod.BundlePayload
open Xlpod.JsonText Xlpod.SessionStores Xlpod.ServerState Xlpod.ServerCalls Xlpod.ToolDispatch
open Xlpod.ChatRoute

/-! ## Inputs -/

structure HandshakeRequest where
  requestedScopes : List Scope
  fsRoots : List String

structure RangeReadRequest where
  workbook : String
  sheet : String
  range : String

structure BundleWriteRequest where
  path : String
  payload : PyJson

structure OpenSessionRequest where
  provider : Option String
  model : Option String

structure SetKeyRequest where
  provider : String
  key : String

structure OpenTrustWindowRequest where
  sessionId : String
  tools : List String
  durationSecs : ℕ

/-! ## Handshake -/

def wantsFs (scopes : List Scope) : Bool := scopes.any fun s => s = .fsRead || s = .fsWrite

def grantedRoots (body : HandshakeRequest) : Handler (List PathBuf) := do
  if !wantsFs body.requestedScopes then return []
  let canon ← canonicalizeRoots body.fsRoots
  if canon.isEmpty then throw .badRequest
  return canon

def handshake (origin : Option String) (body : HandshakeRequest) : Handler ResponseBody := do
  if body.requestedScopes.any Scope.isReserved then throw .reservedScope
  let roots ← grantedRoots body
  if !body.requestedScopes.isEmpty then
    let approved ← requestConsent
      { origin := origin.getD "", scopes := body.requestedScopes, fsRoots := roots }
    if !approved then throw .consentDenied
  let token ← issue body.requestedScopes roots
  return .handshake token body.requestedScopes (roots.map PathBuf.text) tokenTtlSecs

/-! ## Files, Python and Excel -/

def fsRead (token : TokenRecord) (path : String) : Handler ResponseBody := do
  let result ← readUnderRoots path token.fsRoots
  return .file (fileContent result)

def runPythonRoute (code : String) : Handler ResponseBody := do
  return .exec (← workerExec code)

def excelWorkbooks : Handler ResponseBody := do
  let resp ← excelCall "excel_workbooks" (.obj [])
  return .workbooks ((field resp "workbooks").getD emptyArray)

def excelRangeRead (body : RangeReadRequest) : Handler ResponseBody := do
  let resp ← excelCall "excel_range_read" (.obj [(lit "range", str body.range),
    (lit "sheet", str body.sheet), (lit "workbook", str body.workbook)])
  return .range ((field resp "address").getD (str "")) ((field resp "values").getD emptyArray)

/-! ## Bundles -/

def ensurePathUnderRoots (requested : String) (token : TokenRecord) : Handler PathBuf := do
  let canon ← okOr .pathNotFound (← canonicalize requested)
  if !underRoots token.fsRoots canon then throw .forbiddenPath
  return canon

def mapWorkerBundleError (errorCode : String) : ApiError :=
  if errorCode = "bundle_not_found" then .bundleNotFound
  else if errorCode = "bundle_too_large" then .bundleTooLarge
  else if errorCode = "bundle_corrupt" then .bundleCorrupt
  else if errorCode = "bundle_schema_mismatch" then .bundleSchemaMismatch
  else if errorCode = "path_not_found" then .pathNotFound
  else .internal

/-- The worker's structured failure, if it is one. -/
def checkBundleOk (resp : PyJson) : Handler Unit := do
  if !((field resp "ok").bind asBool).getD false then
    throw (mapWorkerBundleError (((field resp "error_code").bind asStr).getD ""))

def bundleReadRoute (token : TokenRecord) (path : String) : Handler ResponseBody := do
  let canonical ← ensurePathUnderRoots path token
  let resp ← workerCall "bundle_read" (.obj [(lit "path", str canonical.text)])
  checkBundleOk resp
  return .bundle ((field resp "payload").getD (.obj []))

def bundleWriteRoute (token : TokenRecord) (body : BundleWriteRequest) : Handler ResponseBody := do
  let canonical ← ensurePathUnderRoots body.path token
  let approved ← requestConsent
    { origin := "bundle-write://" ++ canonical.text, scopes := [.bundleWrite], fsRoots := [] }
  if !approved then throw .consentDenied
  let resp ← workerCall "bundle_write"
    (.obj [(lit "path", str canonical.text), (lit "payload", body.payload)])
  checkBundleOk resp
  return .ok

/-! ## The AI bridge -/

/-- The user's scopes that some tool requires, sorted by name and deduplicated. -/
def grantedScopes (userScopes : List Scope) : List Scope :=
  (((builtinTools.map ToolSpec.requiredScope).filter userScopes.contains).insertionSort
    fun a b => a.debug ≤ b.debug).destutter (· ≠ ·)

example : grantedScopes [.fsRead, .excelCom, .runPython] = [.excelCom, .fsRead] := by
  decide +kernel

def aiOpenSession (token : TokenRecord) (body : OpenSessionRequest) : Handler ResponseBody := do
  let provider := body.provider.getD "anthropic"
  let model := body.model.getD defaultModel
  let granted := grantedScopes token.scopes
  let session ← openSession provider model "internal" granted token.fsRoots
  return .session (uuidText session.id) provider model granted session.openedMs

def aiListProviders : Handler ResponseBody := do
  let key ← keychainRead "anthropic_api_key"
  return .providers [("anthropic", (key.map Option.isSome).getD false)]

def aiSetProviderKey (body : SetKeyRequest) : Handler ResponseBody := do
  if body.provider ≠ "anthropic" then throw .badRequest
  let approved ← requestConsent
    { origin := "ai-key://" ++ body.provider, scopes := [], fsRoots := [] }
  if !approved then throw .consentDenied
  if !(← keychainWrite (body.provider ++ "_api_key") body.key) then throw .internal
  return .ok

def aiDeleteProviderKey (provider : String) : Handler ResponseBody := do
  let approved ← requestConsent
    { origin := "ai-key-delete://" ++ provider, scopes := [], fsRoots := [] }
  if !approved then throw .consentDenied
  if !(← keychainDelete (provider ++ "_api_key")) then throw .internal
  return .ok

def aiSessionHistory (parseUuid : String → Option Uuid) (id : String) : Handler ResponseBody := do
  let uuid ← okOr .badRequest (parseUuid id)
  let session ← orThrow (getSession uuid)
  return .history (uuidText session.id) session.messages

def aiCostToday : Handler ResponseBody := do
  return .cost (← costRollup)

def trustOrigin (body : OpenTrustWindowRequest) : String :=
  "ai-trust://" ++ String.intercalate "," body.tools ++ "?" ++ toString body.durationSecs ++ "s"

def aiOpenTrustWindow (parseUuid : String → Option Uuid) (body : OpenTrustWindowRequest) :
    Handler ResponseBody := do
  let sessionId ← okOr .badRequest (parseUuid body.sessionId)
  let _ ← orThrow (getSession sessionId)
  let approved ← requestConsent { origin := trustOrigin body, scopes := [], fsRoots := [] }
  if !approved then throw .aiConsentDenied
  let win ← openWindow sessionId body.tools body.durationSecs
  return .window win

end Xlpod.Routes
