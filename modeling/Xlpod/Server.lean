import Xlpod.Library.Interleaving
import Xlpod.Routes

/-!
# The server

The middleware stack and the router, and with them the system whose tasks are
requests. A request is its method, path and headers together with what the
extractors of each route would make of it. `audit_wrap` is outermost: it runs
the rest of the stack, and only then writes the entry.
-/
namespace Xlpod.Server
open Xlpod.ApiErrors Xlpod.Auth Xlpod.AiTypes Xlpod.BundlePayload Xlpod.ByteEncodings
open Xlpod.SessionStores Xlpod.ServerState Xlpod.ServerCalls Xlpod.ChatRoute Xlpod.Routes
open Xlpod.Interleaving

/-! ## Requests -/

inductive Route
  | health
  | handshake
  | launcherVersion
  | ws
  | fsRead
  | runPython
  | excelWorkbooks
  | excelRangeRead
  | bundleRead
  | bundleWrite
  | aiChat
  | aiSession
  | aiSessionHistory
  | aiProviders
  | aiSetKey
  | aiDeleteKey
  | aiTools
  | aiCostToday
  | aiConsentWindow
deriving DecidableEq

def Route.Input : Route → Type
  | .handshake => HandshakeRequest
  | .fsRead => String
  | .runPython => String
  | .excelRangeRead => RangeReadRequest
  | .bundleRead => String
  | .bundleWrite => BundleWriteRequest
  | .aiChat => ChatRequest Uuid
  | .aiSession => OpenSessionRequest
  | .aiSessionHistory => String
  | .aiSetKey => SetKeyRequest
  | .aiDeleteKey => String
  | .aiConsentWindow => OpenTrustWindowRequest
  | _ => Unit

/-- An extractor that fails answers with this status. -/
structure Request where
  method : String
  path : String
  host : Option String
  origin : Option String
  authorization : Option String
  input : (r : Route) → Except ℕ r.Input

/-- How the launcher was set up and what it found when it started. -/
structure Deployment where
  allowedHosts : List String
  providers : ProviderRegistry
  parseUuid : String → Option Uuid
  startNow : ℕ
  keychain : String → Option String
  ledgerFile : Bytes
  dailyCapMicros : UInt64
  auditFile : Bytes

def allowedHosts : List String := ["127.0.0.1:7421", "[::1]:7421"]

def allowedOrigins : List String := ["https://addin.xlwings.org"]

/-- The registry `serve` builds. -/
def servedProviders : ProviderRegistry := fun name =>
  if name = "anthropic" then some (.anthropic AnthropicWire.anthropicMessagesUrl) else none

/-! ## Handlers -/

def toResponse (success : ℕ) : Except ApiError ResponseBody → Response
  | .ok body => ⟨success, none, body⟩
  | .error e => ⟨e.status, none, .error e⟩

def errorResponse (e : ApiError) : Response := toResponse 200 (.error e)

def Route.successStatus : Route → ℕ
  | .ws => 101
  | _ => 200

def handler (d : Deployment) (origin : Option String) (token : Option TokenRecord) :
    (r : Route) → r.Input → Handler ResponseBody
  | .health, _ => return .health
  | .handshake, body => Routes.handshake origin body
  | .launcherVersion, _ => return .version
  | .ws, _ => do
      let _ ← okOr .internal token
      return .upgrade
  | .fsRead, path => do Routes.fsRead (← okOr .internal token) path
  | .runPython, code => runPythonRoute code
  | .excelWorkbooks, _ => Routes.excelWorkbooks
  | .excelRangeRead, body => Routes.excelRangeRead body
  | .bundleRead, path => do bundleReadRoute (← okOr .internal token) path
  | .bundleWrite, body => do bundleWriteRoute (← okOr .internal token) body
  | .aiChat, body => ChatRoute.aiChat d.providers body
  | .aiSession, body => do aiOpenSession (← okOr .internal token) body
  | .aiSessionHistory, id => Routes.aiSessionHistory d.parseUuid id
  | .aiProviders, _ => aiListProviders
  | .aiSetKey, body => aiSetProviderKey body
  | .aiDeleteKey, provider => aiDeleteProviderKey provider
  | .aiTools, _ => return .tools builtinTools
  | .aiCostToday, _ => Routes.aiCostToday
  | .aiConsentWindow, body => aiOpenTrustWindow d.parseUuid body

def handle (d : Deployment) (request : Request) (r : Route) (token : Option TokenRecord) :
    Server Response :=
  match request.input r with
  | .error status => return ⟨status, none, .rejection⟩
  | .ok input => do
      return toResponse r.successStatus (← (handler d request.origin token r input).run)

/-! ## Middleware -/

def hostGuard (d : Deployment) (request : Request) (next : Server Response) : Server Response :=
  match request.host with
  | none => return errorResponse .hostNotAllowed
  | some host =>
      if d.allowedHosts.contains host then next else return errorResponse .hostNotAllowed

def originGuard (request : Request) (next : Server Response) : Server Response :=
  match request.origin with
  | none => return errorResponse .originNotAllowed
  | some origin =>
      if allowedOrigins.contains origin then next else return errorResponse .originNotAllowed

def bearerToken (request : Request) : Option String :=
  match request.authorization with
  | none => none
  | some auth =>
      if "Bearer ".toList.isPrefixOf auth.toList ∧ "Bearer ".length < auth.length then
        some (String.ofList (auth.toList.drop "Bearer ".length))
      else none

def bearerGuard (request : Request) (next : TokenRecord → Server Response) : Server Response := do
  let some token := bearerToken request | return errorResponse .unauthorized
  match ← lookup token with
  | .error e => return errorResponse e
  | .ok record =>
      let now ← instant
      match ← limiterCheck (idOf token) now with
      | .error e => return errorResponse e
      | .ok () =>
          let response ← next record
          return { response with tokenId := some (idOf token) }

def requireScope (need : Option Scope) (record : TokenRecord) (next : Server Response) :
    Server Response :=
  match need with
  | none => next
  | some scope =>
      if record.scopes.contains scope then next else return errorResponse .scopeDenied

/-! ## The router -/

/-- The guards in front of a group of routes. -/
inductive Access
  | publicOpen
  | publicOrigin
  | bearer (need : Option Scope)
deriving DecidableEq

def Route.access : Route → Access
  | .health => .publicOpen
  | .handshake => .publicOrigin
  | .launcherVersion | .ws => .bearer none
  | .fsRead => .bearer (some .fsRead)
  | .runPython => .bearer (some .runPython)
  | .excelWorkbooks | .excelRangeRead => .bearer (some .excelCom)
  | .bundleRead => .bearer (some .bundleRead)
  | .bundleWrite => .bearer (some .bundleWrite)
  | _ => .bearer (some .aiProviderCall)

def Route.method : Route → String
  | .handshake | .runPython | .excelRangeRead | .bundleRead | .bundleWrite | .aiChat | .aiSession
  | .aiSetKey | .aiConsentWindow => "POST"
  | .aiDeleteKey => "DELETE"
  | _ => "GET"

/-- `/ai/session/:id/history`: one segment between the two ends, which may be empty. -/
def isHistoryPath (path : String) : Bool :=
  let start := "/ai/session/".toList
  let stop := "/history".toList
  let cs := path.toList
  let id := (cs.drop start.length).take (cs.length - start.length - stop.length)
  start.isPrefixOf cs && stop.isSuffixOf cs && start.length + stop.length ≤ cs.length &&
    !id.contains '/'

def Route.serves (path : String) : Route → Bool
  | .health => path = "/health"
  | .handshake => path = "/auth/handshake"
  | .launcherVersion => path = "/launcher/version"
  | .ws => path = "/ws"
  | .fsRead => path = "/fs/read"
  | .runPython => path = "/run/python"
  | .excelWorkbooks => path = "/excel/workbooks"
  | .excelRangeRead => path = "/excel/range/read"
  | .bundleRead => path = "/bundle/read"
  | .bundleWrite => path = "/bundle/write"
  | .aiChat => path = "/ai/chat"
  | .aiSession => path = "/ai/session"
  | .aiSessionHistory => isHistoryPath path
  | .aiProviders => path = "/ai/providers"
  | .aiSetKey | .aiDeleteKey => path = "/ai/providers/key"
  | .aiTools => path = "/ai/tools"
  | .aiCostToday => path = "/ai/cost/today"
  | .aiConsentWindow => path = "/ai/consent/window"

def routes : List Route :=
  [.health, .handshake, .launcherVersion, .ws, .fsRead, .runPython, .excelWorkbooks,
    .excelRangeRead, .bundleRead, .bundleWrite, .aiChat, .aiSession, .aiSessionHistory,
    .aiProviders, .aiSetKey, .aiDeleteKey, .aiTools, .aiCostToday, .aiConsentWindow]

/-- `get` also answers `HEAD`. -/
def Route.accepts (method : String) (r : Route) : Bool :=
  method = r.method || (method = "HEAD" && r.method = "GET")

inductive Match
  | notFound
  | notAllowed (access : Access)
  | found (r : Route)
deriving DecidableEq

def route (method path : String) : Match :=
  match routes.filter (Route.serves path) with
  | [] => .notFound
  | r :: rest =>
      match (r :: rest).find? (Route.accepts method) with
      | some r => .found r
      | none => .notAllowed r.access

/-- What the handler of `r` gets, when the router picks it and the extractors succeed. -/
def inputFor (request : Request) (r : Route) : Option r.Input :=
  if route request.method request.path = .found r then (request.input r).toOption else none

def guarded (d : Deployment) (request : Request) (access : Access)
    (next : Option TokenRecord → Server Response) : Server Response :=
  match access with
  | .publicOpen => next none
  | .publicOrigin => hostGuard d request (originGuard request (next none))
  | .bearer need =>
      hostGuard d request (originGuard request (bearerGuard request fun record =>
        requireScope need record (next (some record))))

/-- What `audit_wrap` wraps. -/
def innerService (d : Deployment) (request : Request) : Server Response :=
  match route request.method request.path with
  | .notFound => return ⟨404, none, .rejection⟩
  | .notAllowed access => guarded d request access fun _ => return ⟨405, none, .rejection⟩
  | .found r => guarded d request r.access (handle d request r)

def auditEntry (request : Request) (response : Response) (tsMs latencyMs : ℕ) : AuditEntry where
  tsMs := tsMs
  actor := "user"
  tokenId := response.tokenId
  method := request.method
  path := request.path
  status := response.status
  origin := request.origin
  host := request.host
  latencyMs := latencyMs

/-- `AuditLog::write`; a failed write is ignored. -/
def writeAudit (entry : AuditEntry) : Server Unit := do
  auditLock
  let _ ← auditWrite entry
  auditFlush

def auditWrap (request : Request) (next : Server Response) : Server Unit := do
  let start ← instant
  let response ← next
  respond response
  let finish ← instant
  let now ← instant
  writeAudit (auditEntry request response (nowMs now) ((finish - start) / nanosPerMilli))

/-- The launcher right after `serve`: empty stores, the keychain and the files
as they were. -/
def Deployment.launched (d : Deployment) : AppState where
  now := d.startNow
  tokens := fun _ => none
  limiter := fun _ => []
  sessions := fun _ => none
  windows := []
  keychain := d.keychain
  ledger := CostLedger.openLedger d.ledgerFile d.dailyCapMicros
  audit := d.auditFile

abbrev server (d : Deployment) : System api where
  State := AppState
  Request := Request
  Environment := Environment
  Elapse := ℕ
  start := d.launched
  serve := fun request => auditWrap request (innerService d request)
  awaits := Op.awaits
  exec := exec
  elapse := fun s nanos => { s with now := s.now + nanos }

/-! ## A first launch -/

/-- Nothing stored yet, and no ids that parse. -/
def firstLaunch : Deployment where
  allowedHosts := allowedHosts
  providers := servedProviders
  parseUuid := fun _ => none
  startNow := 0
  keychain := fun _ => none
  ledgerFile := []
  dailyCapMicros := 5000000
  auditFile := []

/-- A request of the add-in, with a body that only its own route extracts. -/
def addinRequest (r : Route) (path : String) (token : Option String) (input : r.Input) :
    Request where
  method := r.method
  path := path
  host := some "127.0.0.1:7421"
  origin := some "https://addin.xlwings.org"
  authorization := token.map ("Bearer " ++ ·)
  input := fun r' => if h : r = r' then .ok (h ▸ input) else .error 422

/-- With a provider key, and one session id that parses. -/
def keyedLaunch : Deployment :=
  { firstLaunch with
    keychain := fun _ => some "key"
    parseUuid := fun text => if text = uuidText 1 then some 1 else none }

section
variable {d : Deployment}

def calls (i n : ℕ) (env : Environment) : List (Label (server d)) := List.replicate n (.call i env)

/-- A handshake the user approves. -/
def handshakeRun (i : ℕ) (token : String) (scopes : List Scope) : List (Label (server d)) :=
  .arrive i (addinRequest .handshake "/auth/handshake" none ⟨scopes, []⟩) ::
    calls i 9 { token := token, approved := true }

def sessionRun (i : ℕ) (token : String) (id : Uuid) (model : Option String) :
    List (Label (server d)) :=
  .arrive i (addinRequest .aiSession "/ai/session" (some token) ⟨none, model⟩) ::
    calls i 11 { uuid := id }

/-- The first calls of a chat on the session `id`. -/
def chatRun (i : ℕ) (token : String) (id : Uuid) (n : ℕ) (env : Environment) :
    List (Label (server d)) :=
  .arrive i (addinRequest .aiChat "/ai/chat" (some token)
    ⟨id, [⟨.user, none, [.text "hi"]⟩], none, false⟩) :: calls i n env

/-- The upstream asks for one tool. -/
def asksFor (name : String) (input : PyJson) : Environment where
  status := some 200
  json := some ⟨[.toolUse "u1" name input], some "tool_use", none⟩

end

end Xlpod.Server
