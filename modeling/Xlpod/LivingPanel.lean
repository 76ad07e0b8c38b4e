import Xlpod.BundleRoundTrip
import Xlpod.BundleShapes
import Xlpod.ChatTranscript

/-!
# The living workbook's panel

The panel of `lite_panel.py` in front of the launcher and the worker. It keeps a
list of messages of its own: what the workbook held when it was opened, and for
each text it sends the user's message and the one message it is answered. The
list goes into the workbook when it is saved. To the launcher it only ever
sends the user's message; the list the provider gets is the transcript of the
session, which starts empty at every opening.

A saved list comes back when the workbook is opened again, but for the order of
keys: a value on its way through the launcher becomes a `serde_json` value, whose
objects are kept in the order of their keys. The launcher's other clients and
the other programs on the workbook may act between any two actions of the panel;
nobody else appends to its session.
-/
namespace Xlpod.LivingPanel
open Xlpod.JsonText Xlpod.ByteEncodings Xlpod.ApiErrors Xlpod.Auth Xlpod.AiTypes Xlpod.BundlePayload
open Xlpod.BundleFile Xlpod.BundleRoundTrip Xlpod.BundleShapes Xlpod.GuardedRuns Xlpod.Programs
open Xlpod.SoloRuns Xlpod.SessionStores Xlpod.ServerState Xlpod.ChatRoute Xlpod.Routes Xlpod.Server
open Xlpod.ChatTranscript
open Xlpod.WorkerLoop (FileError buildPayload bundleRead fileAfterWrite getKeyOr pyList)

/-! ## Values through the launcher -/

/-- `BTreeMap::insert`. -/
def insertKey (key : Text) (v : PyJson) : List (Text × PyJson) → List (Text × PyJson)
  | [] => [(key, v)]
  | (key', v') :: rest =>
      if key = key' then (key, v) :: rest
      else if key < key' then (key, v) :: (key', v') :: rest
      else (key', v') :: insertKey key v rest

mutual
/-- A JSON value as `serde_json` reads and writes it. -/
def serdeValue : PyJson → PyJson
  | .arr items => .arr (serdeItems items)
  | .obj fields => .obj (serdeFields [] fields)
  | v => v
def serdeItems : List PyJson → List PyJson
  | [] => []
  | v :: vs => serdeValue v :: serdeItems vs
def serdeFields (map : List (Text × PyJson)) : List (Text × PyJson) → List (Text × PyJson)
  | [] => map
  | (key, v) :: fs => serdeFields (insertKey key (serdeValue v) map) fs
end

/-! ## Messages on the wire -/

def roleText : Role → String
  | .system => "system"
  | .user => "user"
  | .assistant => "assistant"
  | .tool => "tool"

def approvedViaText : ApprovedVia → String
  | .auto => "auto"
  | .dialog => "dialog"
  | .trustWindow => "trust_window"

def blockJson : ContentBlock → PyJson
  | .text text => .obj [(lit "type", str "text"), (lit "text", str text)]
  | .toolUse id name input => .obj [(lit "type", str "tool_use"), (lit "id", str id),
      (lit "name", str name), (lit "input", input)]
  | .toolResult toolUseId ok output approvedVia => .obj ([(lit "type", str "tool_result"),
      (lit "tool_use_id", str toolUseId), (lit "ok", .bool ok), (lit "output", output)] ++
      (approvedVia.map fun via => (lit "approved_via", str (approvedViaText via))).toList)

def messageJson (m : ChatMessage) : PyJson :=
  .obj ((lit "role", str (roleText m.role)) ::
    ((m.tsMs.map fun n : ℕ => (lit "ts_ms", Json.int n)).toList ++
      [(lit "content", .arr (m.content.map blockJson))]))

/-- `user_msg`. -/
def userMsg (text : Text) : PyJson :=
  .obj [(lit "role", str "user"),
    (lit "content", .arr [.obj [(lit "type", str "text"), (lit "text", .str text)]])]

/-- What the launcher's extractor makes of `user_msg`; it rejects a lone surrogate. -/
def heard (text : Text) : Option ChatMessage :=
  if text.all fun c => !isHigh c && !isLow c then some ⟨.user, none, [.text (rustString text)]⟩
  else none

/-! ## The panel -/

structure AISession where
  sessionId : Uuid
  provider : String
  model : String

structure Panel where
  workbookPath : Option String
  session : Option AISession
  history : List PyJson

/-- `LivingWorkbookPanel(client)`. -/
def newPanel : Panel := ⟨none, none, []⟩

/-- What the panel did with its sessions, as far as the launcher knew of it. -/
inductive Event
  /-- A session was opened; the panel now shows these messages. -/
  | opened (history : List PyJson)
  /-- A text the provider was never asked about. -/
  | refused
  /-- A text, the panel's messages before it, the list of the first turn and the
  provider's answer to it. -/
  | sent (history : List PyJson) (text : Text) (passed : List ChatMessage) (turn : ProviderTurn)

structure World where
  panel : Panel
  launcher : AppState
  files : String → Except FileError Workbook
  /-- Newest first. -/
  events : List Event

/-- Messages the launcher has and messages the panel has are the same JSON values. -/
def Same (messages : List ChatMessage) (history : List PyJson) : Prop :=
  messages.map (fun m => serdeValue (messageJson m)) = history.map serdeValue

/-- `sessions[-1]`; `none` when Python raises. -/
def lastItem : PyJson → Option PyJson
  | .arr items => items.getLast?
  | .str s => s.getLast?.map fun c => .str [c]
  | _ => none

/-- The messages `_restore_bundle` takes over; `none` when it leaves the history
as it is, for want of a session or by an exception. -/
def restoredMessages (L : Stdlib) (payload : PyJson) : Option (List PyJson) := do
  let ai ← (getKey payload "ai_history").toOption
  let sessions ← (getKey (orElse L ai (.obj [])) "sessions").toOption
  if truthy L sessions then
    let last ← lastItem sessions
    let messages ← (getKeyOr last "messages" (.arr [])).toOption
    (pyList messages).toOption
  else none

/-- What `save` writes. -/
def savedPayload (createdMs : ℤ) (session : AISession) (history : List PyJson) : PyJson :=
  .obj [(lit "metadata", .obj [(lit "created_ms", .int createdMs),
      (lit "schema_version", .int 1)]),
    (lit "ai_history", .obj [(lit "sessions", .arr [.obj [
      (lit "session_id", str (uuidText session.sessionId)), (lit "provider", str session.provider),
      (lit "model", str session.model), (lit "messages", .arr history)]])]),
    (lit "python_modules", .arr [])]

/-! ## Actions -/

/-- What happens to the panel and around it. An action that raises before it
changes anything is no step; where a request may fail, `worker` is `none` or
`reached` is `false` when it does. -/
inductive Action
  /-- The host shows the panel anew. -/
  | start
  | onOpen (workbookPath current : Option String) (token : TokenRecord) (after : ℕ)
      (drawn : Uuid) (worker : Option WorkerLoop.World)
  /-- The handshake or the session is refused. -/
  | onOpenFails (workbookPath current : Option String)
  | send (text : Text) (reached : Bool) (answers : List Answer)
  | save (createdMs : ℤ) (worker : Option WorkerLoop.World)
  | newSession (token : TokenRecord) (after : ℕ) (drawn : Uuid)
  /-- Other clients of the launcher. -/
  | others (launcher : AppState)
  /-- Another program changes a workbook. -/
  | edit (path : String) (file : Except FileError Workbook)

/-- `workbook_path or _current_workbook_path()`. -/
def chosenPath (workbookPath current : Option String) : Option String :=
  match workbookPath with
  | some path => if path = "" then current else some path
  | none => current

/-- `open_session` of the client, with no arguments. -/
def openedSession (launcher : AppState) (token : TokenRecord) (after : ℕ) (drawn : Uuid) :
    Option (AISession × AppState) :=
  match perform answer (aiOpenSession token ⟨some "anthropic", none⟩).run launcher
      [(after, { uuid := drawn })] with
  | some (.ok (.session _ provider model _ _), launcher', _) =>
      some (⟨drawn, provider, model⟩, launcher')
  | _ => none

/-- The chat request of a text. -/
def requestFor (session : AISession) (m : ChatMessage) : ChatRequest Uuid :=
  ⟨session.sessionId, [m], none, false⟩

/-- What becomes of a text: the provider is never asked, or its first turn gets a
list, answers, and the chat ends with a message. -/
inductive Outcome
  | refused (launcher : AppState)
  | answered (passed : List ChatMessage) (turn : ProviderTurn) (message : ChatMessage)
      (launcher : AppState)

/-- `chat` of the client; the request reaches the route unless a guard, the
extractor or the connection fails. -/
def ask (session : AISession) (text : Text) (reached : Bool) (answers : List Answer)
    (launcher : AppState) : Option Outcome :=
  match if reached then heard text else none with
  | none => some (.refused launcher)
  | some m => do
      let body := requestFor session m
      match ← perform answer (openChat servedProviders body).run launcher answers with
      | (.error _, launcher, _) => return .refused launcher
      | (.ok o, launcher, rest) =>
          match perform answer (providerTurn o.provider o.history none).run launcher rest,
              perform answer (o.turns body).run launcher rest with
          | some (.ok turn, _, _), some (.ok chat, launcher, _) =>
              return .answered o.history turn chat.finalMessage launcher
          | _, _ => none

section
variable (L : Stdlib) (describe : BundleError → Text)

/-- The payload in the answer of `/bundle/read`; an error is an exception of the client. -/
def payloadRead (worker : WorkerLoop.World) : Option PyJson := do
  let reply ← bundleRead L describe worker
  match reply.lookup (lit "payload") with
  | some (.value v) => some (serdeValue v)
  | _ => none

def restoreBundle (files : String → Except FileError Workbook) (path : Option String)
    (worker : Option WorkerLoop.World) (history : List PyJson) : List PyJson :=
  match path, worker with
  | some path, some worker =>
      if path = "" then history
      else
        let payload := payloadRead L describe { worker with file := files path }
        (payload.bind (restoredMessages L)).getD history
  | _, _ => history

def onOpen (w : World) (workbookPath current : Option String) (token : TokenRecord) (after : ℕ)
    (drawn : Uuid) (worker : Option WorkerLoop.World) : Option World := do
  let path := chosenPath workbookPath current
  let (session, launcher) ← openedSession w.launcher token after drawn
  let history := restoreBundle L describe w.files path worker w.panel.history
  return { w with
    panel := ⟨path, some session, history⟩
    launcher := launcher
    events := .opened history :: w.events }

def send (w : World) (text : Text) (reached : Bool) (answers : List Answer) : Option World := do
  let session ← w.panel.session
  let history := w.panel.history ++ [userMsg text]
  match ← ask session text reached answers w.launcher with
  | .refused launcher => return { w with
      panel := { w.panel with history := history }
      launcher := launcher
      events := .refused :: w.events }
  | .answered passed turn message launcher => return { w with
      panel := { w.panel with history := history ++ [messageJson message] }
      launcher := launcher
      events := .sent w.panel.history text passed turn :: w.events }

def save (w : World) (createdMs : ℤ) (worker : Option WorkerLoop.World) : Option World :=
  match w.panel.workbookPath, w.panel.session, worker with
  | some path, some session, some worker =>
      let payload := savedPayload createdMs session w.panel.history
      let file := fileAfterWrite L { worker with file := w.files path } (serdeValue payload)
      some { w with files := Function.update w.files path file }
  | _, _, _ => some w

def newSession (w : World) (token : TokenRecord) (after : ℕ) (drawn : Uuid) : Option World := do
  let (session, launcher) ← openedSession w.launcher token after drawn
  return { w with
    panel := { w.panel with session := some session, history := [] }
    launcher := launcher
    events := .opened [] :: w.events }

def next (w : World) : Action → Option World
  | .start => some { w with panel := newPanel }
  | .onOpen workbookPath current token after drawn worker =>
      onOpen L describe w workbookPath current token after drawn worker
  | .onOpenFails workbookPath current =>
      some { w with panel := { w.panel with workbookPath := chosenPath workbookPath current } }
  | .send text reached answers => send w text reached answers
  | .save createdMs worker => save L w createdMs worker
  | .newSession token after drawn => newSession w token after drawn
  | .others launcher => some { w with launcher := launcher }
  | .edit path file => some { w with files := Function.update w.files path file }

/-- A panel on a running launcher. -/
def machine (launcher : AppState) (files : String → Except FileError Workbook) :
    Machine World Action where
  start := ⟨newPanel, launcher, files, []⟩
  next := next L describe

/-- Other clients leave the panel's session alone. -/
def apart (w : World) : Action → Prop
  | .others launcher => ∀ session, w.panel.session = some session →
      launcher.sessions session.sessionId = w.launcher.sessions session.sessionId
  | _ => True

end

/-! ## A saved list comes back -/

section
variable {L : Stdlib} {describe : BundleError → Text} {createdMs : ℤ} {session : AISession}
  {history : List PyJson} {book out : Workbook} {worker : WorkerLoop.World}

/-- The session of `savedPayload` as the launcher passes it on. -/
def savedSession (session : AISession) (history : List PyJson) : PyJson :=
  .obj [(lit "messages", .arr (serdeItems history)), (lit "model", str session.model),
    (lit "provider", str session.provider), (lit "session_id", str (uuidText session.sessionId))]

/-- The payload the worker makes of a save. -/
def savedBundle (createdMs : ℤ) (session : AISession) (history : List PyJson) : Payload :=
  mapped createdMs [savedSession session history] []

theorem buildPayload_saved : buildPayload L (serdeValue (savedPayload createdMs session history)) =
    .ok (savedBundle createdMs session history) := by
  have hcreated : toInt L (orElse L (.int createdMs) (.int 0)) = .ok createdMs :=
    toInt_orElse_int L createdMs
  exact mapped_buildPayload rfl ⟨rfl, rfl, hcreated⟩ rfl rfl

theorem fromDict_mapped (sessions modules : List PyJson) :
    fromDict L (document L (mapped createdMs sessions modules) []) =
      .ok (mapped createdMs sessions modules) := by
  have hcreated := toInt_orElse_int L createdMs
  have hlist (items : List PyJson) : orElse L (.arr items) (.arr []) = .arr items := by
    cases items <;> rfl
  change fromObject L (document L (mapped createdMs sessions modules) []) = _
  simp only [fromObject, document_schema, document_metadata, document_pyodide, document_aiHistory,
    document_pythonModules]
  change (do
    let sessions ← asList "ai_history.sessions is not an array"
      (orElse L (.arr sessions) (.arr []))
    let modules ← asList "python_modules is not an array" (orElse L (.arr modules) (.arr []))
    let createdMs ← toInt L (orElse L (.int createdMs) (.int 0))
    pure (mapped createdMs sessions modules)) = _
  rw [hlist, hlist, hcreated]
  rfl

theorem toDict_mapped (createdMs : ℤ) (sessions modules : List PyJson) :
    toDict L (mapped createdMs sessions modules) =
      .ok (document L (mapped createdMs sessions modules) []) := rfl

theorem payloadRead_saved (hbundle : JsonValues (savedBundle createdMs session history))
    (hplain : ∀ s ∈ texts (savedBundle createdMs session history), ¬ lit "]]>" <:+: s)
    (hwrite : BundleWriter.write L book (savedBundle createdMs session history) = .ok out) :
    payloadRead L describe (World.holding worker out) =
      some (serdeValue (document L (savedBundle createdMs session history) [])) := by
  obtain ⟨data, raw, hdata, -, -, hread, -⟩ :=
    (readsBack_iff hbundle le_rfl hwrite).mpr ⟨hplain, rfl, rfl⟩
  obtain rfl := Except.ok.inj ((toDict_mapped _ _ _).symm.trans hdata)
  have hpayload : BundleReader.read L out = .ok (savedBundle createdMs session history) := by
    rw [BundleReader.read, hread]
    exact fromDict_mapped [savedSession session history] []
  have hreply : bundleRead L describe (World.holding worker out) =
      some [(lit "ok", .value (.bool true)),
        (lit "payload", .value (document L (savedBundle createdMs session history) []))] := by
    simp only [bundleRead, World.holding, hpayload]
    rfl
  rw [payloadRead, hreply]
  rfl

theorem restoredMessages_saved :
    restoredMessages L (serdeValue (document L (savedBundle createdMs session history) [])) =
      some (serdeItems (serdeItems history)) := rfl

/-- What a panel saved is what the next one shows, for every list the workbook
can hold. -/
theorem restored_of_saved {later : WorkerLoop.World}
    (hbundle : JsonValues (savedBundle createdMs session history))
    (hplain : ∀ s ∈ texts (savedBundle createdMs session history), ¬ lit "]]>" <:+: s)
    (hwrite : BundleWriter.write L book (savedBundle createdMs session history) = .ok out) :
    fileAfterWrite L (World.holding worker book)
        (serdeValue (savedPayload createdMs session history)) = .ok out ∧
      (payloadRead L describe (World.holding later out)).bind (restoredMessages L) =
        some (serdeItems (serdeItems history)) := by
  refine ⟨fileAfterWrite_ok buildPayload_saved hwrite, ?_⟩
  rw [payloadRead_saved hbundle hplain hwrite]
  exact restoredMessages_saved

end

end Xlpod.LivingPanel
