import Xlpod.LogLines
import Xlpod.Server

/-!
# The client library

`AsyncClient` turns a method call into one request and the response into a
dictionary or an exception. Its only state is the token of its last handshake.
The exception of an error response is picked by the `code` of the body and
carries its code, message and hint; a body that is not the launcher's JSON gives
the base class.
-/
namespace Xlpod.PythonClient
open Xlpod.AiTypes Xlpod.ApiErrors Xlpod.Auth Xlpod.BundlePayload Xlpod.ByteEncodings Xlpod.JsonText
open Xlpod.LogLines Xlpod.Server Xlpod.ServerState

/-! ## Exceptions -/

inductive ErrorClass
  | xlpodError
  | launcherUnreachable
  | originNotAllowed
  | hostNotAllowed
  | unauthorized
  | scopeDenied
  | consentDenied
  | rateLimited
  | reservedScope
  | badRequest
  | forbiddenPath
  | pathTooLarge
  | notAFile
  | pathNotFound
  | workerSpawnFailed
  | workerTimeout
  | workerCrashed
  | excelNotAvailable
  | excelNotRunning
  | excelFailed
  | aiProviderUnconfigured
  | aiProviderUpstream
  | aiToolDenied
  | aiConsentDenied
  | aiPlanOnlyViolation
  | aiSessionNotFound
deriving DecidableEq

def codeMap : List (String × ErrorClass) :=
  [("origin_not_allowed", .originNotAllowed), ("host_not_allowed", .hostNotAllowed),
    ("unauthorized", .unauthorized), ("scope_denied", .scopeDenied),
    ("consent_denied", .consentDenied), ("rate_limited", .rateLimited),
    ("reserved_scope", .reservedScope), ("bad_request", .badRequest),
    ("forbidden_path", .forbiddenPath), ("path_too_large", .pathTooLarge),
    ("not_a_file", .notAFile), ("path_not_found", .pathNotFound),
    ("worker_spawn_failed", .workerSpawnFailed), ("worker_timeout", .workerTimeout),
    ("worker_crashed", .workerCrashed), ("excel_not_available", .excelNotAvailable),
    ("excel_not_running", .excelNotRunning), ("excel_failed", .excelFailed),
    ("ai_provider_unconfigured", .aiProviderUnconfigured),
    ("ai_provider_upstream", .aiProviderUpstream), ("ai_tool_denied", .aiToolDenied),
    ("ai_consent_denied", .aiConsentDenied), ("ai_plan_only_violation", .aiPlanOnlyViolation),
    ("ai_session_not_found", .aiSessionNotFound)]

/-- An exception; the body it comes from may hold any value as its message. -/
structure XlpodError where
  cls : ErrorClass
  message : PyJson
  code : Option String
  hint : Option String

def classOf (code : String) : ErrorClass := (codeMap.lookup code).getD .xlpodError

theorem mem_codeMap {code : String} (h : classOf code ≠ .xlpodError) :
    (code, classOf code) ∈ codeMap := by
  unfold classOf at *
  cases hlookup : codeMap.lookup code with
  | none =>
      rw [hlookup] at h
      exact absurd rfl h
  | some cls =>
      obtain ⟨l₁, l₂, hmap, -⟩ := List.lookup_eq_some_iff.mp hlookup
      rw [hmap]
      simp

/-- A class of its own tells which error it was. -/
theorem classOf_injective {a b : ApiError} (hb : classOf b.body.code ≠ .xlpodError)
    (h : classOf a.body.code = classOf b.body.code) : a = b := by
  have hclasses : (codeMap.map Prod.snd).Nodup := by decide
  have ha := mem_codeMap (h ▸ hb)
  exact ApiError.code_injective a b
    (congrArg Prod.fst (List.inj_on_of_nodup_map hclasses ha (mem_codeMap hb) h))

def fromErrorBody (body : PyJson) : XlpodError :=
  let code := (field body "code").bind asStr
  { cls := (code.map classOf).getD .xlpodError
    message := (field body "message").getD (str "request failed")
    code := code
    hint := (field body "hint").bind asStr }

/-! ## Requests -/

def defaultBaseUrl : String := "https://127.0.0.1:7421"

def defaultOrigin : String := "https://addin.xlwings.org"

structure Call where
  method : String
  path : String
  query : List (String × String)
  jsonBody : Option PyJson
  auth : Bool

/-- The methods of the client, with their arguments. -/
inductive Api
  | health
  | handshake (scopes : List String) (fsRoots : Option (List String))
  | version
  | runPython (code : String)
  | listWorkbooks
  | readRange (workbook sheet range : String)
  | openSession (provider : String) (model : Option String)
  | chat (sessionId : String) (messages : List PyJson) (maxTokens : Option ℤ) (planOnly : Bool)
  | getSessionHistory (sessionId : String)
  | listProviders
  | setProviderKey (provider key : String)
  | deleteProviderKey (provider : String)
  | getCostToday
  | openTrustWindow (sessionId : String) (tools : List String) (durationSecs : ℤ)
  | readFile (path : String)

def strings (items : List String) : PyJson := .arr (items.map str)

def getCall (path : String) (query : List (String × String)) (auth : Bool) : Call :=
  ⟨"GET", path, query, none, auth⟩

def postCall (path : String) (fields : List (Text × PyJson)) (auth : Bool) : Call :=
  ⟨"POST", path, [], some (.obj fields), auth⟩

def Api.call : Api → Call
  | .health => getCall "/health" [] false
  | .handshake scopes fsRoots => postCall "/auth/handshake"
      ((lit "requested_scopes", strings scopes) ::
        (fsRoots.map fun roots => (lit "fs_roots", strings roots)).toList) false
  | .version => getCall "/launcher/version" [] true
  | .runPython code => postCall "/run/python" [(lit "code", str code)] true
  | .listWorkbooks => getCall "/excel/workbooks" [] true
  | .readRange workbook sheet range => postCall "/excel/range/read"
      [(lit "workbook", str workbook), (lit "sheet", str sheet), (lit "range", str range)] true
  | .openSession provider model => postCall "/ai/session"
      ((lit "provider", str provider) :: (model.map fun m => (lit "model", str m)).toList) true
  | .chat sessionId messages maxTokens planOnly => postCall "/ai/chat"
      ([(lit "session_id", str sessionId), (lit "messages", .arr messages),
        (lit "plan_only", .bool planOnly)] ++
        (maxTokens.map fun n => (lit "max_tokens", .int n)).toList) true
  | .getSessionHistory sessionId => getCall ("/ai/session/" ++ sessionId ++ "/history") [] true
  | .listProviders => getCall "/ai/providers" [] true
  | .setProviderKey provider key => postCall "/ai/providers/key"
      [(lit "provider", str provider), (lit "key", str key)] true
  | .deleteProviderKey provider =>
      ⟨"DELETE", "/ai/providers/key", [("provider", provider)], none, true⟩
  | .getCostToday => getCall "/ai/cost/today" [] true
  | .openTrustWindow sessionId tools durationSecs => postCall "/ai/consent/window"
      [(lit "session_id", str sessionId), (lit "tools", strings tools),
        (lit "duration_secs", .int durationSecs)] true
  | .readFile path => getCall "/fs/read" [("path", path)] true

structure AsyncClient where
  baseUrl : String
  origin : String
  token : Option String

def rstripSlash (s : String) : String :=
  String.ofList (s.toList.reverse.dropWhile (· = '/')).reverse

def AsyncClient.new (baseUrl origin : String) : AsyncClient := ⟨rstripSlash baseUrl, origin, none⟩

/-- One byte as `quote_plus` writes it. -/
def quoteByte (b : UInt8) : List Char :=
  let c := Char.ofNat b.toNat
  if c.isAlphanum || ['_', '.', '-', '~'].contains c then [c]
  else if c = ' ' then ['+']
  else ['%', (Nat.digitChar (b.toNat / 16)).toUpper, (Nat.digitChar (b.toNat % 16)).toUpper]

def quotePlus (s : String) : String := String.ofList ((encodeUtf8 s.toList).flatMap quoteByte)

def urlencode (query : List (String × String)) : String :=
  "&".intercalate (query.map fun (key, value) => quotePlus key ++ "=" ++ quotePlus value)

/-- The URL a call is sent to. -/
def AsyncClient.url (c : AsyncClient) (call : Call) : String :=
  c.baseUrl ++ call.path ++ if call.query.isEmpty then "" else "?" ++ urlencode call.query

example : (AsyncClient.new "https://h/" "o").url (Api.readFile "C:\\a b~é").call =
    "https://h/fs/read?path=C%3A%5Ca+b~%C3%A9" := by decide

structure HttpRequest where
  method : String
  url : List Char
  query : List (String × String)
  headers : List (String × String)
  jsonBody : Option PyJson

def noToken : XlpodError := ⟨.unauthorized, str "no token; call handshake() first", none, none⟩

/-- `_request` up to the transport. -/
def AsyncClient.prepare (c : AsyncClient) (call : Call) : Except XlpodError HttpRequest := do
  let headers := [("X-XLPod-Proto", "1"), ("Origin", c.origin)]
  let authorization ←
    if call.auth then
      match c.token with
      | none => throw noToken
      | some token => pure [("Authorization", "Bearer " ++ token)]
    else pure []
  return { method := call.method, url := c.baseUrl.toList ++ call.path.toList, query := call.query,
           headers := headers ++ authorization, jsonBody := call.jsonBody }

/-! ## Responses -/

structure TransportResponse where
  statusCode : ℕ
  body : Bytes

/-- `none` when the body does not decode. -/
def TransportResponse.json (r : TransportResponse) : Option PyJson :=
  if r.body.isEmpty then some .null else readRecord r.body

inductive Outcome
  | data (value : PyJson)
  | raised (e : XlpodError)
  /-- An exception that is not of this library. -/
  | escaped

def httpStatus (statusCode : ℕ) : XlpodError :=
  ⟨.xlpodError, str ("HTTP " ++ toString statusCode), none, none⟩

def unexpectedShape (path : String) : XlpodError :=
  ⟨.xlpodError, str ("unexpected response shape from " ++ path), none, none⟩

/-- `_request` from the transport on. -/
def received (L : Stdlib) (path : String) (r : TransportResponse) : Outcome :=
  if 400 ≤ r.statusCode then
    match orElse L (r.json.getD (.obj [])) (.obj []) with
    | .obj fields => .raised (fromErrorBody (.obj fields))
    | _ => .raised (httpStatus r.statusCode)
  else
    match r.json with
    | some (.obj fields) => .data (.obj fields)
    | some _ => .raised (unexpectedShape path)
    | none => .escaped

structure Handshake where
  token : String
  grantedScopes : List PyJson
  grantedFsRoots : List PyJson
  expiresIn : ℤ

def asItems : PyJson → Option (List PyJson)
  | .arr items => some items
  | _ => none

def asInt : PyJson → Option ℤ
  | .int n => some n
  | _ => none

/-- The dictionary as `handshake` reads it. -/
def Handshake.of (data : PyJson) : Option Handshake := do
  let token ← (field data "token").bind asStr
  let grantedScopes ← asItems ((field data "granted_scopes").getD (.arr []))
  let grantedFsRoots ← asItems ((field data "granted_fs_roots").getD (.arr []))
  let expiresIn ← asInt ((field data "expires_in").getD (.int 0))
  return ⟨token, grantedScopes, grantedFsRoots, expiresIn⟩

/-- The handshake that a call and its outcome are. -/
def handshakeIn : Api → Outcome → Option Handshake
  | .handshake _ _, .data value => Handshake.of value
  | _, _ => none

/-- Only a handshake that succeeds changes the client. -/
def AsyncClient.after (c : AsyncClient) (api : Api) (outcome : Outcome) : AsyncClient :=
  match handshakeIn api outcome with
  | some h => { c with token := some h.token }
  | none => c

/-! ## The launcher's side of the wire -/

/-- The host of a URL, which the transport sends as the `Host` header. -/
def authority (url : List Char) : String :=
  String.ofList ((url.drop "https://".length).takeWhile (· ≠ '/'))

/-- The path of a URL that has no query yet. -/
def urlPath (url : List Char) : String :=
  String.ofList (((url.drop "https://".length).dropWhile (· ≠ '/')).takeWhile fun c =>
    c ≠ '?' && c ≠ '#')

/-- The request that arrives; the extractors find what they find. -/
def arriving (http : HttpRequest) (input : (r : Route) → Except ℕ r.Input) : Request where
  method := http.method
  path := urlPath http.url
  host := some (authority http.url)
  origin := http.headers.lookup "Origin"
  authorization := http.headers.lookup "Authorization"
  input := input

def wireScope : Scope → String
  | .fsRead => "fs:read"
  | .fsWrite => "fs:write"
  | .runPython => "run:python"
  | .excelCom => "excel:com"
  | .aiProviderCall => "ai:provider:call"
  | .aiCodegenWrite => "ai:codegen:write"
  | .aiExecPython => "ai:exec:python"
  | .bundleRead => "bundle:read"
  | .bundleWrite => "bundle:write"

def errorJson (b : ApiError.ErrorBody) : PyJson :=
  .obj ([(lit "code", str b.code), (lit "message", str b.message)] ++
    (b.hint.map fun hint => (lit "hint", str hint)).toList)

def handshakeJson (token : String) (scopes : List Scope) (fsRoots : List String) (expiresIn : ℕ) :
    PyJson :=
  .obj [(lit "token", str token), (lit "granted_scopes", strings (scopes.map wireScope)),
    (lit "granted_fs_roots", strings fsRoots), (lit "expires_in", .int expiresIn)]

/-- The bytes a body is sent as: exactly these for an error and a handshake, a
plain text for the framework's own answers. -/
def sendsAs (body : ResponseBody) (bytes : Bytes) : Bool :=
  match body with
  | .error e => bytes = recordLine (errorJson e.body)
  | .handshake token scopes fsRoots expiresIn =>
      bytes = recordLine (handshakeJson token scopes fsRoots expiresIn)
  | .rejection => bytes.isEmpty || (readRecord bytes).isNone
  | _ => true

/-! ## Across the wire -/

section
variable {L : Stdlib} {path : String} {statusCode : ℕ} {bytes : Bytes}

theorem json_recordLine {v : PyJson} (h : v.Readable pythonReader Scalar) :
    TransportResponse.json ⟨statusCode, recordLine v⟩ = some v := by
  have hread := readRecord_recordLine h
  rw [TransportResponse.json, if_neg, hread]
  intro hempty
  have hline : recordLine v = [] := List.isEmpty_iff.mp hempty
  have hnone : readRecord [] = none := by decide
  rw [hline] at hread
  rw [hnone] at hread
  cases hread

theorem errorJson_readable (b : ApiError.ErrorBody) :
    (errorJson b).Readable pythonReader Scalar := by
  rw [errorJson]
  cases b.hint with
  | none =>
      exact .cons_field (lit_scalar _) (by simp) (str_readable _) <|
        .cons_field (lit_scalar _) (by simp) (str_readable _) .empty
  | some hint =>
      exact .cons_field (lit_scalar _) (by simp) (str_readable _) <|
        .cons_field (lit_scalar _) (by simp) (str_readable _) <|
        .cons_field (lit_scalar _) (by simp) (str_readable _) .empty

theorem strings_readable (items : List String) : (strings items).Readable pythonReader Scalar := by
  refine .items fun v hv => ?_
  obtain ⟨s, -, rfl⟩ := List.mem_map.mp hv
  exact str_readable s

theorem handshakeJson_readable (token : String) (scopes : List Scope) (fsRoots : List String)
    (expiresIn : ℕ) :
    (handshakeJson token scopes fsRoots expiresIn).Readable pythonReader Scalar :=
  .cons_field (lit_scalar _) (by simp) (str_readable _) <|
  .cons_field (lit_scalar _) (by simp) (strings_readable _) <|
  .cons_field (lit_scalar _) (by simp) (strings_readable _) <|
  .cons_field (lit_scalar _) (by simp) (int_readable _) .empty

/-- The exception for a body of the launcher. -/
def errorOf (b : ApiError.ErrorBody) : XlpodError :=
  ⟨classOf b.code, str b.message, some b.code, b.hint⟩

theorem fromErrorBody_errorJson (b : ApiError.ErrorBody) :
    fromErrorBody (errorJson b) = errorOf b := by
  obtain ⟨code, message, hint⟩ := b
  cases hint <;> simp [fromErrorBody, errorJson, errorOf, field_cons, field_empty]

theorem received_error (b : ApiError.ErrorBody) (h : 400 ≤ statusCode) :
    received L path ⟨statusCode, recordLine (errorJson b)⟩ = .raised (errorOf b) := by
  rw [received, if_pos h, json_recordLine (errorJson_readable b), Option.getD_some,
    ← fromErrorBody_errorJson]
  rfl

theorem handshake_of (token : String) (scopes : List Scope) (fsRoots : List String)
    (expiresIn : ℕ) :
    Handshake.of (handshakeJson token scopes fsRoots expiresIn) =
      some ⟨token, scopes.map fun s => str (wireScope s), fsRoots.map str, expiresIn⟩ := by
  simp [Handshake.of, handshakeJson, field_cons, strings, asItems, asInt, Function.comp_def]

theorem received_data {r : TransportResponse} {value : PyJson}
    (h : received L path r = .data value) :
    r.json = some value ∧ ∃ fields, value = .obj fields := by
  unfold received at h
  split at h
  · split at h <;> cases h
  · split at h <;> cases h
    next fields hjson => exact ⟨hjson, fields, rfl⟩

theorem handshake_of_error (b : ApiError.ErrorBody) : Handshake.of (errorJson b) = none := by
  obtain ⟨code, message, hint⟩ := b
  cases hint <;> simp [Handshake.of, errorJson, field_cons, field_empty]

/-- A plain text is an error without a code. -/
theorem received_rejection (h : sendsAs .rejection bytes = true) (hstatus : 400 ≤ statusCode) :
    received L path ⟨statusCode, bytes⟩ =
      .raised ⟨.xlpodError, str "request failed", none, none⟩ := by
  rw [received, if_pos hstatus, TransportResponse.json]
  rw [sendsAs, Bool.or_eq_true, Option.isNone_iff_eq_none] at h
  cases hempty : bytes.isEmpty with
  | true => rfl
  | false =>
      have hnone : readRecord bytes = none := h.resolve_left (by rw [hempty]; exact Bool.false_ne_true)
      simp only [hnone]
      rfl

end

end Xlpod.PythonClient
