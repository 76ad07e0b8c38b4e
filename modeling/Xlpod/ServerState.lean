import Xlpod.AnthropicWire
import Xlpod.Library.Programs
import Xlpod.SessionStores

/-!
# The shared state and its operations

What the handlers and the middleware share, and the calls they make on it. One
operation is one critical section of the source: the body of a store method
under its lock, one read of the clock, one system call, or one await of an
outside party (the user, the upstream, the worker, a file). What the outside
answers is chosen by the environment; a token or id it draws is fresh.

Two operations do nothing but leave a mark in a trace: `dispatched` where a tool
starts to run and `respond` where the inner service returns.

An awaiting operation is one at which the future may be suspended and dropped.
A panic never replies: the task can only be dropped there, as unwinding does.
-/
namespace Xlpod.ServerState
open Xlpod.ApiErrors Xlpod.Auth Xlpod.AiTypes Xlpod.AnthropicWire Xlpod.BundlePayload
open Xlpod.JsonText Xlpod.ByteEncodings Xlpod.CostLedger Xlpod.Programs Xlpod.SessionStores

structure ConsentRequest where
  origin : String
  scopes : List Scope
  fsRoots : List PathBuf

structure AuditEntry where
  tsMs : ℕ
  actor : String
  tokenId : Option String
  method : String
  path : String
  status : ℕ
  origin : Option String
  host : Option String
  latencyMs : ℕ
deriving DecidableEq

/-- A missing token id is left out, other missing fields are `null`. -/
def auditJson (e : AuditEntry) : PyJson :=
  .obj ((lit "ts_ms", .int e.tsMs) :: (lit "actor", str e.actor) ::
    ((e.tokenId.map fun id => (lit "token_id", str id)).toList ++
      [(lit "method", str e.method), (lit "path", str e.path), (lit "status", .int e.status),
        (lit "origin", optionJson e.origin), (lit "host", optionJson e.host),
        (lit "latency_ms", .int e.latencyMs)]))

/-- `serde_json::to_vec` and the line end. -/
def auditLine (e : AuditEntry) : Bytes := encodeUtf8 (render rustWriter (auditJson e) ++ ['\n'])

/-- What a write leaves of a line, all of it unless it was torn. -/
def leftOf (torn : Option ℕ) (line : Bytes) : Bytes :=
  match torn with
  | none => line
  | some kept => line.take kept

structure Metadata where
  isFile : Bool
  len : ℕ

/-- What `read_line` gave, with the line parsed as JSON. -/
inductive ReadOutcome
  | eof
  | failed
  | timeout
  | line (parsed : Option PyJson)

structure ExecResult where
  ok : Bool
  stdout : String
  stderr : String
  result : Option String
  error : Option String

structure FileContent where
  path : String
  size : ℕ
  encoding : String
  content : Text

/-- Bodies of responses, one shape for each route. -/
inductive ResponseBody
  | error (e : ApiError)
  | rejection
  | health
  | version
  | upgrade
  | handshake (token : String) (grantedScopes : List Scope) (grantedFsRoots : List String)
      (expiresIn : ℕ)
  | file (content : FileContent)
  | exec (result : ExecResult)
  | workbooks (workbooks : PyJson)
  | range (address values : PyJson)
  | bundle (payload : PyJson)
  | ok
  | session (sessionId provider model : String) (grantedScopes : List Scope) (openedMs : ℕ)
  | chat (response : ChatResponse Uuid)
  | providers (providers : List (String × Bool))
  | tools (tools : List ToolSpec)
  | history (sessionId : String) (messages : List ChatMessage)
  | cost (rollup : CostRollup)
  | window (window : TrustWindow)

structure Response where
  status : ℕ
  tokenId : Option String
  body : ResponseBody

/-! ## Operations -/

inductive Op
  | instant
  | lookup (token : String)
  | limiterCheck (key : String) (now : ℕ)
  | issue (scopes : List Scope) (fsRoots : List PathBuf)
  | consent (request : ConsentRequest)
  | canonicalize (path : String)
  | isDir (path : PathBuf)
  | metadata (path : PathBuf)
  | readFile (path : PathBuf)
  | workerLock
  | workerWrite (method : String) (params : PyJson)
  | workerFlush
  | workerRead
  | workerReap
  | openSession (provider model internalBearer : String) (grantedScopes : List Scope)
      (fsRoots : List PathBuf)
  | getSession (id : Uuid)
  | appendMessages (id : Uuid) (author : Author) (messages : List ChatMessage)
  | openWindow (sessionId : Uuid) (tools : List String) (durationSecs : ℕ)
  | covers (sessionId : Uuid) (tool : String)
  | dispatched (sessionId : Uuid) (tool : String)
  | keychainRead (name : String)
  | keychainWrite (name value : String)
  | keychainDelete (name : String)
  | httpSend (post : HttpPost)
  | httpText
  | httpJson
  | externalChat (provider : String) (history : List ChatMessage) (tools : List ToolSpec)
      (maxTokens : Option ℕ)
  | overBudget
  | ledgerLock
  | ledgerWrite (call : Call)
  | ledgerFlush
  | ledgerAdd (call : Call)
  | rollup
  | respond (response : Response)
  | auditLock
  | auditWrite (entry : AuditEntry)
  | auditFlush
  | panicked

@[reducible] def Op.Reply : Op → Type
  | .instant => ℕ
  | .lookup _ => Except ApiError TokenRecord
  | .limiterCheck _ _ => Except ApiError Unit
  | .issue _ _ => String
  | .consent _ => Bool
  | .canonicalize _ => Option PathBuf
  | .isDir _ => Bool
  | .metadata _ => Option Metadata
  | .readFile _ => Option Bytes
  | .workerLock => Bool
  | .workerWrite _ _ => Bool
  | .workerFlush => Bool
  | .workerRead => ReadOutcome
  | .workerReap => Unit
  | .openSession .. => Session
  | .getSession _ => Except ApiError Session
  | .appendMessages .. => Except ApiError Unit
  | .openWindow .. => TrustWindow
  | .covers _ _ => Bool
  | .dispatched _ _ => Unit
  | .keychainRead _ => Option (Option String)
  | .keychainWrite _ _ => Bool
  | .keychainDelete _ => Bool
  | .httpSend _ => Option ℕ
  | .httpText => List Char
  | .httpJson => Option WireResponse
  | .externalChat .. => Except ProviderError ProviderTurn
  | .overBudget => Bool
  | .ledgerLock => Unit
  | .ledgerWrite _ => ℕ
  | .ledgerFlush => Unit
  | .ledgerAdd _ => Unit
  | .rollup => CostRollup
  | .respond _ => Unit
  | .auditLock => Unit
  | .auditWrite _ => Option ℕ
  | .auditFlush => Unit
  | .panicked => Empty

def Op.awaits : Op → Bool
  | .consent _ => true
  | .workerLock => true
  | .workerWrite _ _ => true
  | .workerFlush => true
  | .workerRead => true
  | .workerReap => true
  | .httpSend _ => true
  | .httpText => true
  | .httpJson => true
  | .externalChat .. => true
  | .ledgerLock => true
  | .ledgerWrite _ => true
  | .ledgerFlush => true
  | .auditLock => true
  | .auditWrite _ => true
  | .auditFlush => true
  | .panicked => true
  | _ => false

abbrev api : Interface where
  Op := Op
  Reply := Op.Reply

/-! ## State -/

structure AppState where
  now : ℕ
  tokens : TokenStore
  limiter : RateLimiter
  sessions : SessionStore
  windows : TrustWindowStore
  keychain : String → Option String
  ledger : Ledger
  audit : Bytes

/-- Everything the outside may decide at one operation. The keychain takes a value
or not; so much of a ledger line is kept, and an audit line is torn after so many
bytes. -/
structure Environment where
  token : String := ""
  uuid : Uuid := 0
  approved : Bool := false
  canonical : Option PathBuf := none
  isDir : Bool := false
  metadata : Option Metadata := none
  bytes : Option Bytes := none
  piped : Bool := false
  read : ReadOutcome := .eof
  keychainWorks : Bool := true
  keychainTakes : String → Bool := fun _ => true
  status : Option ℕ := none
  text : List Char := []
  json : Option WireResponse := none
  turn : Except ProviderError ProviderTurn := .error .unconfigured
  kept : ℕ := 0
  torn : Option ℕ := none

/-- One operation. A drawn token or id that is already in use is not enabled,
and neither is a panic. -/
def exec (s : AppState) (env : Environment) : (op : Op) → Option (op.Reply × AppState)
  | .instant => some (s.now, s)
  | .lookup token => some (s.tokens.lookup s.now token, s)
  | .limiterCheck key now =>
      let (r, limiter) := s.limiter.check key now
      some (r, { s with limiter := limiter })
  | .issue scopes fsRoots =>
      match s.tokens env.token with
      | some _ => none
      | none => some (env.token, { s with
          tokens := Function.update s.tokens env.token (some (newRecord s.now scopes fsRoots)) })
  | .consent _ => some (env.approved, s)
  | .canonicalize _ => some (env.canonical, s)
  | .isDir _ => some (env.isDir, s)
  | .metadata _ => some (env.metadata, s)
  | .readFile _ => some (env.bytes, s)
  | .workerLock => some (env.piped, s)
  | .workerWrite _ _ => some (env.piped, s)
  | .workerFlush => some (env.piped, s)
  | .workerRead => some (env.read, s)
  | .workerReap => some ((), s)
  | .openSession provider model internalBearer grantedScopes fsRoots =>
      match s.sessions env.uuid with
      | some _ => none
      | none =>
          let session := newSession env.uuid s.now provider model internalBearer grantedScopes fsRoots
          some (session, { s with sessions := s.sessions.insert session })
  | .getSession id => some (s.sessions.get id, s)
  | .appendMessages id author messages =>
      let (r, sessions) := s.sessions.appendMessages id author messages
      some (r, { s with sessions := sessions })
  | .openWindow sessionId tools durationSecs =>
      if s.windows.any (·.id = env.uuid) then none
      else
        let window := newWindow env.uuid s.now sessionId tools durationSecs
        some (window, { s with windows := window :: s.windows })
  | .covers sessionId tool => some (s.windows.covers s.now sessionId tool, s)
  | .dispatched _ _ => some ((), s)
  | .keychainRead name =>
      some (if env.keychainWorks then some (s.keychain name) else none, s)
  | .keychainWrite name value =>
      if env.keychainTakes value then
        some (true, { s with keychain := Function.update s.keychain name (some value) })
      else some (false, s)
  | .keychainDelete name =>
      if env.keychainWorks then
        some (true, { s with keychain := Function.update s.keychain name none })
      else some (false, s)
  | .httpSend post => some (if post.legal then env.status else none, s)
  | .httpText => some (env.text, s)
  | .httpJson => some (env.json, s)
  | .externalChat .. => some (env.turn, s)
  | .overBudget => some (CostLedger.overBudget s.ledger, s)
  | .ledgerLock => some ((), s)
  | .ledgerWrite call =>
      some (env.kept, { s with ledger := appendLine s.ledger { call with kept := env.kept } })
  | .ledgerFlush => some ((), s)
  | .ledgerAdd call => some ((), { s with ledger := addRow s.ledger call })
  | .rollup => some (CostLedger.rollup s.ledger (nowMs s.now), s)
  | .respond _ => some ((), s)
  | .auditLock => some ((), s)
  | .auditWrite entry =>
      some (env.torn, { s with audit := s.audit ++ leftOf env.torn (auditLine entry) })
  | .auditFlush => some ((), s)
  | .panicked => none

/-- It writes the session store. -/
def Op.stores : Op → Bool
  | .openSession .. | .appendMessages .. => true
  | _ => false

/-- What an operation does to the sessions. -/
inductive Stored (store : SessionStore) : (op : Op) → op.Reply → SessionStore → Prop
  | opened {provider model internalBearer : String} {grantedScopes : List Scope}
      {fsRoots : List PathBuf} {session : Session} : store session.id = none →
      session.transcript = [] →
      Stored store (.openSession provider model internalBearer grantedScopes fsRoots) session
        (store.insert session)
  | appended {id : Uuid} {author : Author} {messages : List ChatMessage} {session : Session} :
      store id = some session →
      Stored store (.appendMessages id author messages) (.ok ()) (Function.update store id
        (some { session with transcript := session.transcript ++ messages.map (⟨author, ·⟩) }))
  | rejected {id : Uuid} {author : Author} {messages : List ChatMessage} {e : ApiError} :
      store id = none → Stored store (.appendMessages id author messages) (.error e) store
  | kept {op : Op} {r : op.Reply} : op.stores = false → Stored store op r store

theorem stored_of_exec {s s' : AppState} {env : Environment} {op : Op} {r : op.Reply}
    (h : exec s env op = some (r, s')) : Stored s.sessions op r s'.sessions := by
  cases op with
  | openSession provider model internalBearer grantedScopes fsRoots =>
      simp only [exec] at h
      split at h
      · cases h
      · next hfresh =>
          cases h
          exact .opened hfresh rfl
  | appendMessages id author messages =>
      simp only [exec, Option.some.injEq, Prod.mk.injEq] at h
      obtain ⟨rfl, rfl⟩ := h
      cases hs : s.sessions id with
      | none =>
          simp only [SessionStore.appendMessages, hs]
          exact .rejected hs
      | some session =>
          rw [SessionStore.appendMessages_some hs]
          exact .appended hs
  | issue | openWindow | keychainWrite | keychainDelete =>
      simp only [exec] at h
      split at h <;> cases h <;> exact .kept rfl
  | panicked => cases h
  | _ =>
      cases h
      exact .kept rfl

/-! ## The calls as programs -/

abbrev Server := Program api

abbrev Handler := ExceptT ApiError Server

abbrev instant : Server ℕ := .call .instant .done

abbrev lookup (token : String) : Server (Except ApiError TokenRecord) := .call (.lookup token) .done

abbrev limiterCheck (key : String) (now : ℕ) : Server (Except ApiError Unit) :=
  .call (.limiterCheck key now) .done

abbrev issue (scopes : List Scope) (fsRoots : List PathBuf) : Server String :=
  .call (.issue scopes fsRoots) .done

abbrev requestConsent (request : ConsentRequest) : Server Bool := .call (.consent request) .done

abbrev canonicalize (path : String) : Server (Option PathBuf) := .call (.canonicalize path) .done

abbrev isDir (path : PathBuf) : Server Bool := .call (.isDir path) .done

abbrev fileMetadata (path : PathBuf) : Server (Option Metadata) := .call (.metadata path) .done

abbrev readFile (path : PathBuf) : Server (Option Bytes) := .call (.readFile path) .done

abbrev workerLock : Server Bool := .call .workerLock .done

abbrev workerWrite (method : String) (params : PyJson) : Server Bool :=
  .call (.workerWrite method params) .done

abbrev workerFlush : Server Bool := .call .workerFlush .done

abbrev workerRead : Server ReadOutcome := .call .workerRead .done

abbrev workerReap : Server Unit := .call .workerReap .done

abbrev openSession (provider model internalBearer : String) (grantedScopes : List Scope)
    (fsRoots : List PathBuf) : Server Session :=
  .call (.openSession provider model internalBearer grantedScopes fsRoots) .done

abbrev getSession (id : Uuid) : Server (Except ApiError Session) := .call (.getSession id) .done

abbrev appendMessages (id : Uuid) (author : Author) (messages : List ChatMessage) :
    Server (Except ApiError Unit) :=
  .call (.appendMessages id author messages) .done

abbrev openWindow (sessionId : Uuid) (tools : List String) (durationSecs : ℕ) : Server TrustWindow :=
  .call (.openWindow sessionId tools durationSecs) .done

abbrev covers (sessionId : Uuid) (tool : String) : Server Bool :=
  .call (.covers sessionId tool) .done

abbrev dispatched (sessionId : Uuid) (tool : String) : Server Unit :=
  .call (.dispatched sessionId tool) .done

abbrev keychainRead (name : String) : Server (Option (Option String)) :=
  .call (.keychainRead name) .done

abbrev keychainWrite (name value : String) : Server Bool := .call (.keychainWrite name value) .done

abbrev keychainDelete (name : String) : Server Bool := .call (.keychainDelete name) .done

abbrev httpSend (post : HttpPost) : Server (Option ℕ) := .call (.httpSend post) .done

abbrev httpText : Server (List Char) := .call .httpText .done

abbrev httpJson : Server (Option WireResponse) := .call .httpJson .done

abbrev externalChat (provider : String) (history : List ChatMessage) (tools : List ToolSpec)
    (maxTokens : Option ℕ) : Server (Except ProviderError ProviderTurn) :=
  .call (.externalChat provider history tools maxTokens) .done

abbrev overBudget : Server Bool := .call .overBudget .done

abbrev ledgerLock : Server Unit := .call .ledgerLock .done

abbrev ledgerWrite (call : Call) : Server ℕ := .call (.ledgerWrite call) .done

abbrev ledgerFlush : Server Unit := .call .ledgerFlush .done

abbrev ledgerAdd (call : Call) : Server Unit := .call (.ledgerAdd call) .done

abbrev costRollup : Server CostRollup := .call .rollup .done

abbrev respond (response : Response) : Server Unit := .call (.respond response) .done

abbrev auditLock : Server Unit := .call .auditLock .done

abbrev auditWrite (entry : AuditEntry) : Server (Option ℕ) := .call (.auditWrite entry) .done

abbrev auditFlush : Server Unit := .call .auditFlush .done

def panicked {α : Type} : Server α := .call .panicked Empty.elim

end Xlpod.ServerState
