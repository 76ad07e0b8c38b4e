import Xlpod.LivingPanel

/-!
# The panel and the launcher in step

The panel's list and the transcript of its session, as the events since the
opening made them. A text that is turned down stays in the panel's list alone,
and the messages of the tools are in the transcript alone, so the two lists are
compared from their ends, by the roles of the last messages. They agree exactly
when nothing was restored at the opening and every text since was answered by the
first turn.
-/
namespace Xlpod.PanelInStep
open Xlpod.JsonText Xlpod.ByteEncodings Xlpod.ApiErrors Xlpod.Auth Xlpod.AiTypes Xlpod.BundlePayload
open Xlpod.BundleFile Xlpod.GuardedRuns Xlpod.Programs Xlpod.SoloRuns Xlpod.SessionStores
open Xlpod.ServerState Xlpod.ChatRoute Xlpod.Routes Xlpod.Server Xlpod.ChatTranscript
open Xlpod.BundleArchive Xlpod.BundleShapes Xlpod.LivingPanel
open Xlpod.WorkerLoop (FileError fileAfterWrite)

/-! ## In step -/

/-- Since the session was opened with nothing restored, every text was answered
by the first turn. -/
def InStep : List Event → Prop
  | [] => True
  | .opened history :: _ => history = []
  | .refused :: _ => False
  | .sent _ _ _ turn :: events => toolUsesOf turn.message.content = [] ∧ InStep events

/-! ## The roles of messages -/

/-- The launcher understands the user's message as the panel keeps it. -/
theorem messageJson_heard {text : Text} {m : ChatMessage} (h : heard text = some m) :
    messageJson m = userMsg text := by
  unfold heard at h
  split at h
  · next hall =>
      cases h
      have hscalar : Scalar text := fun c hc => by simpa using List.all_eq_true.mp hall c hc
      have htext : str (rustString text) = .str text := congrArg Json.str (lit_rustString hscalar)
      simp only [messageJson, userMsg, roleText, List.map_cons, List.map_nil, blockJson, htext,
        Option.map_none, Option.toList_none, List.nil_append]
  · cases h

theorem role_messageJson (m : ChatMessage) :
    (serdeValue (messageJson m)).get? (lit "role") = some (str (roleText m.role)) := by
  obtain ⟨role, tsMs, content⟩ := m
  cases tsMs <;> rfl

theorem roleText_inj {r r' : Role} (h : str (roleText r) = str (roleText r')) : r = r' := by
  have htext : roleText r = roleText r' := lit_inj.mp (Json.str.inj h)
  revert htext
  cases r <;> cases r' <;> simp [roleText]

theorem role_eq {m m' : ChatMessage}
    (h : serdeValue (messageJson m) = serdeValue (messageJson m')) : m.role = m'.role := by
  have hrole := role_messageJson m
  rw [h, role_messageJson m'] at hrole
  exact (roleText_inj (Option.some.inj hrole)).symm

theorem role_user {m : ChatMessage} {text : Text}
    (h : serdeValue (messageJson m) = serdeValue (userMsg text)) : m.role = .user := by
  have hrole := role_messageJson m
  have huser : (serdeValue (userMsg text)).get? (lit "role") = some (str (roleText .user)) := rfl
  rw [h, huser] at hrole
  exact (roleText_inj (Option.some.inj hrole)).symm

/-! ## Both lists from their ends -/

section
variable {messages : List ChatMessage} {history : List PyJson} {events : List Event}
  {m : ChatMessage}

theorem same_nil : Same [] history ↔ history = [] := by
  simp [Same, eq_comm]

theorem same_concat {v : PyJson} : Same (messages ++ [m]) (history ++ [v]) ↔
    Same messages history ∧ serdeValue (messageJson m) = serdeValue v := by
  simp [Same, List.map_append]

/-- The panel's list and the transcript, as the events since the opening made them. -/
inductive Since : List Event → List PyJson → List ChatMessage → Prop
  | opened {events : List Event} {history : List PyJson} :
      Since (.opened history :: events) history []
  | refused {events : List Event} {history : List PyJson} {messages : List ChatMessage}
      {text : Text} : Since events history messages →
      Since (.refused :: events) (history ++ [userMsg text]) messages
  | sent {events : List Event} {history : List PyJson} {messages appended : List ChatMessage}
      {text : Text} {m final : ChatMessage} {turn : ProviderTurn} : Since events history messages →
      heard text = some m →
      Answered ⟨.assistant, none, []⟩ maxTurns (turn.message :: appended) final →
      Since (.sent history text (messages ++ [m]) turn :: events)
        (history ++ [userMsg text] ++ [messageJson final])
        (messages ++ [m] ++ turn.message :: appended)

theorem Since.last (h : Since events history messages) :
    messages = [] ∨ ∃ before m, messages = before ++ [m] ∧ m.role ≠ .user := by
  induction h with
  | opened => exact .inl rfl
  | refused _ ih => exact ih
  | @sent _ _ messages appended _ m _ turn _ _ hanswered _ =>
      cases hanswered.last with
      | inl hnil => cases hnil
      | inr hlast =>
          obtain ⟨before, m', hends, hrole⟩ := hlast
          refine .inr ⟨messages ++ [m] ++ before, m', ?_, hrole⟩
          rw [hends, List.append_assoc _ before]

theorem Since.same_iff (h : Since events history messages) :
    Same messages history ↔ InStep events := by
  induction h with
  | opened => exact same_nil
  | @refused _ history messages text h ih =>
      refine ⟨fun hsame => ?_, False.elim⟩
      cases h.last with
      | inl hnil =>
          subst hnil
          exact absurd (same_nil.mp hsame) (by simp)
      | inr hlast =>
          obtain ⟨before, m, rfl, hrole⟩ := hlast
          exact hrole (role_user (same_concat.mp hsame).2)
  | @sent _ history messages appended text m final turn _ hheard hanswered ih =>
      change _ ↔ toolUsesOf turn.message.content = [] ∧ InStep _
      rw [← ih]
      have hm : serdeValue (messageJson m) = serdeValue (userMsg text) := by
        rw [messageJson_heard hheard]
      cases hanswered with
      | final hrole huses =>
          rw [same_concat, same_concat]
          simp only [hm, huses, and_true, true_and]
      | @tools n _ _ results appended hrole huses hrest =>
          refine ⟨fun hsame => ?_, fun h => absurd h.1 huses⟩
          obtain ⟨before, t, ht, hends⟩ := hrest.after_tool (t := ⟨.tool, none, results⟩) rfl
          exfalso
          cases hends with
          | inl hends =>
              have hall : messages ++ [m] ++ turn.message :: ⟨.tool, none, results⟩ :: appended =
                  (messages ++ [m] ++ turn.message :: before) ++ [t] ++ [final] := by
                rw [hends]
                simp
              rw [hall, same_concat, same_concat] at hsame
              have huser := role_user hsame.1.2
              rw [ht] at huser
              cases huser
          | inr hends =>
              obtain ⟨hends, rfl⟩ := hends
              have hall : messages ++ [m] ++ turn.message :: ⟨.tool, none, results⟩ :: appended =
                  (messages ++ [m] ++ turn.message :: before) ++ [t] := by
                rw [hends]
                simp
              rw [hall, same_concat] at hsame
              have hrole' := role_eq hsame.2
              rw [ht] at hrole'
              cases hrole'

end

/-! ## Runs -/

/-- The session of the panel is there, with the transcript the events made. -/
def Attached (sessions : SessionStore) (id : Uuid) (history : List PyJson) (events : List Event) :
    Prop :=
  ∃ x, sessions id = some x ∧ x.id = id ∧ x.provider = "anthropic" ∧
    Since events history x.messages

/-- Every text was passed on with the panel's messages exactly when it was in step. -/
def Faithful : List Event → Prop
  | [] => True
  | .sent history text passed _ :: events =>
      (Same passed (history ++ [userMsg text]) ↔ InStep events) ∧ Faithful events
  | _ :: events => Faithful events

theorem Faithful.sent {events : List Event} (h : Faithful events) {later : List Event}
    {history : List PyJson} {text : Text} {passed : List ChatMessage} {turn : ProviderTurn}
    {earlier : List Event} (he : events = later ++ .sent history text passed turn :: earlier) :
    Same passed (history ++ [userMsg text]) ↔ InStep earlier := by
  subst he
  induction later with
  | nil => exact h.1
  | cons e later ih =>
      cases e with
      | sent => exact ih h.2
      | opened => exact ih h
      | refused => exact ih h

structure Synced (w : World) : Prop where
  attached : ∀ session, w.panel.session = some session →
    Attached w.launcher.sessions session.sessionId w.panel.history w.events
  faithful : Faithful w.events

theorem openedSession_ok {launcher launcher' : AppState} {token : TokenRecord} {after : ℕ}
    {drawn : Uuid} {session : AISession}
    (h : openedSession launcher token after drawn = some (session, launcher')) :
    session.sessionId = drawn ∧ ∃ x, launcher'.sessions drawn = some x ∧ x.id = drawn ∧
      x.provider = "anthropic" ∧ x.messages = [] := by
  unfold openedSession at h
  split at h
  · next hrun =>
      cases h
      refine ⟨rfl, ?_⟩
      obtain ⟨r, hr, hrest⟩ := Option.bind_eq_some_iff.mp hrun
      simp only [answer, exec] at hr
      split at hr
      · cases hr
      · cases hr
        cases hrest
        exact ⟨_, Function.update_self _ _ _, rfl, rfl, rfl⟩
  · cases h

/-- `ask` as a relation: the text does not get to the chat, the chat is refused
before its first turn, or it goes through. -/
inductive Asks (session : AISession) (text : Text) (answers : List Answer) (launcher : AppState) :
    Outcome → Prop
  | turnedAway : Asks session text answers launcher (.refused launcher)
  | refused {m : ChatMessage} {launcher' : AppState} {rest : List Answer} {e : ApiError} :
      perform answer (openChat servedProviders (requestFor session m)).run launcher answers =
        some (.error e, launcher', rest) →
      Asks session text answers launcher (.refused launcher')
  | answered {m : ChatMessage} {o : Opened} {s s' s'' : AppState} {rest rest' rest'' : List Answer}
      {turn : ProviderTurn} {chat : Chat} : heard text = some m →
      perform answer (openChat servedProviders (requestFor session m)).run launcher answers =
        some (.ok o, s, rest) →
      perform answer (providerTurn o.provider o.history none).run s rest =
        some (.ok turn, s', rest') →
      perform answer (o.turns (requestFor session m)).run s rest = some (.ok chat, s'', rest'') →
      Asks session text answers launcher (.answered o.history turn chat.finalMessage s'')

section
variable {session : AISession} {text : Text} {answers : List Answer}
  {launcher launcher' : AppState} {outcome : Outcome}

theorem asks_of_ask {reached : Bool} (h : ask session text reached answers launcher = some outcome) :
    Asks session text answers launcher outcome := by
  unfold ask at h
  split at h
  · obtain rfl := Option.some.inj h
    exact .turnedAway
  · next m hm =>
      have hheard : heard text = some m := by
        cases reached with
        | true => rwa [if_pos rfl] at hm
        | false =>
            rw [if_neg Bool.false_ne_true] at hm
            cases hm
      obtain ⟨r, hopen, h⟩ := Option.bind_eq_some_iff.mp h
      split at h
      · obtain rfl := Option.some.inj h
        exact .refused hopen
      · split at h
        · next hturn hchat =>
            obtain rfl := Option.some.inj h
            exact .answered hheard hopen hturn hchat
        · cases h

/-- An answered text is a run of `ai_chat` on it, and its message is the answer's. -/
theorem Asks.chat {passed : List ChatMessage} {turn : ProviderTurn} {message : ChatMessage}
    (h : Asks session text answers launcher (.answered passed turn message launcher')) :
    ∃ (m : ChatMessage) (o : Opened) (chat : Chat) (rest : List Answer),
      heard text = some m ∧ o.history = passed ∧ chat.finalMessage = message ∧
      perform answer (aiChat servedProviders (requestFor session m)).run launcher answers =
        some (.ok (o.response chat), launcher', rest) := by
  cases h with
  | @answered m o s s' s'' rest rest' rest'' turn chat hheard hopen hturn hchat =>
      exact ⟨m, o, chat, rest'', hheard, rfl, rfl, aiChat_answered hopen hchat⟩

end

/-- A chat that goes through, from the session it finds. -/
theorem answered_follow (body : ChatRequest Uuid) {id : Uuid} {o : Opened} {x : Session}
    {launcher s launcher' : AppState} {rest rest' rest'' : List Answer} {turn : ProviderTurn}
    {chat : Chat} {apiUrl : String} (hid : o.session.id = id)
    (hprovider : o.provider = .anthropic apiUrl) (hx : launcher.sessions id = some x)
    (hturn : perform answer (providerTurn o.provider o.history body.maxTokens).run launcher rest =
      some (.ok turn, s, rest'))
    (hchat : perform answer (o.turns body).run launcher rest = some (.ok chat, launcher', rest'')) :
    ∃ x' appended, launcher'.sessions id = some x' ∧ Grew x x' (turn.message :: appended) ∧
      Answered ⟨.assistant, none, []⟩ maxTurns (turn.message :: appended) chat.finalMessage := by
  rw [hprovider] at hturn
  have hasked : Meets (follow id) (providerTurn (.anthropic apiUrl) o.history body.maxTokens).run
      (launcher.sessions id) (OnResult
        (fun found' turn => found' = launcher.sessions id ∧ turn.message.role = .assistant)
        fun found' _ => found' = launcher.sessions id) :=
    providerTurn_follow apiUrl o.history body.maxTokens (launcher.sessions id)
  obtain ⟨hsame, hrole⟩ := (follow_describes id).perform hasked hturn
  obtain ⟨k, hturns, hk⟩ : ∃ rest, chatTurns (.anthropic apiUrl) o.session body 8
      (startChat o.history) = (providerTurn (.anthropic apiUrl) o.history body.maxTokens >>= rest) ∧
      ∀ turn, turn.message.role = .assistant → Meets (follow id) (rest turn).run (some x)
        (OnResult (TurnsEnd x (startChat o.history).finalMessage 8 [turn.message])
          fun _ _ => True) :=
    turn_follow hid fun c x => chatTurns_follow hid
  have hloop : o.turns body =
      (providerTurn (.anthropic apiUrl) o.history body.maxTokens >>= k) := by
    rw [Opened.turns, hprovider]
    exact hturns
  rw [hloop, perform_exceptBind, hturn] at hchat
  have hk := hk turn hrole
  rw [← hx, ← hsame] at hk
  exact (follow_describes id).perform hk hchat

/-- The session after a text, and what was passed on. -/
def After (id : Uuid) (text : Text) (history : List PyJson) (events : List Event) :
    Outcome → Prop
  | .refused launcher =>
      Attached launcher.sessions id (history ++ [userMsg text]) (.refused :: events)
  | .answered passed turn message launcher =>
      Attached launcher.sessions id (history ++ [userMsg text] ++ [messageJson message])
        (.sent history text passed turn :: events) ∧
      (Same passed (history ++ [userMsg text]) ↔ InStep events)

theorem Asks.attached {session : AISession} {text : Text} {launcher : AppState}
    {answers : List Answer} {outcome : Outcome} {history : List PyJson} {events : List Event}
    (ha : Attached launcher.sessions session.sessionId history events)
    (h : Asks session text answers launcher outcome) :
    After session.sessionId text history events outcome := by
  obtain ⟨x, hx, hid, hprovider, hsince⟩ := ha
  have hopened (m : ChatMessage) : Meets (follow session.sessionId)
      (openChat servedProviders (requestFor session m)).run (launcher.sessions session.sessionId)
      (OnResult (fun found o => o.session = x ∧ servedProviders x.provider = some o.provider ∧
        o.history = x.messages ++ [m] ∧ found = some (Session.extended x .client [m]))
        fun found _ => found = some x) := by
    rw [hx]
    exact openChat_follow rfl hid
  cases h with
  | turnedAway => exact ⟨x, hx, hid, hprovider, hsince.refused⟩
  | @refused m launcher' _ _ hopen =>
      have hkept := (follow_describes session.sessionId).perform (hopened m) hopen
      exact ⟨x, hkept, hid, hprovider, hsince.refused⟩
  | @answered m o s s' s'' _ _ _ turn chat hheard hopen hturn hchat =>
      have hthrough := (follow_describes session.sessionId).perform (hopened m) hopen
      obtain ⟨rfl, hserved, hhistory, hstored⟩ := hthrough
      have hanthropic : o.provider = .anthropic AnthropicWire.anthropicMessagesUrl := by
        rw [hprovider] at hserved
        exact (Option.some.inj hserved).symm
      obtain ⟨x', appended, hx', hgrew, hanswered⟩ :=
        answered_follow (requestFor session m) hid hanthropic hstored hturn hchat
      have hlater := (grew_extended o.session .client [m]).trans hgrew
      constructor
      · refine ⟨x', hx', hlater.id.trans hid, hlater.provider.trans hprovider, ?_⟩
        rw [hlater.messages, hhistory, ← List.append_assoc]
        exact .sent hsince hheard hanswered
      · rw [hhistory, same_concat, hsince.same_iff, messageJson_heard hheard]
        exact and_iff_left rfl

theorem Attached.of_opened {sessions : SessionStore} {id : Uuid} {history : List PyJson}
    {events : List Event} (h : ∃ x, sessions id = some x ∧ x.id = id ∧
      x.provider = "anthropic" ∧ x.messages = []) :
    Attached sessions id history (.opened history :: events) := by
  obtain ⟨x, hx, hid, hprovider, hempty⟩ := h
  refine ⟨x, hx, hid, hprovider, ?_⟩
  rw [hempty]
  exact .opened

section
variable {L : Stdlib} {describe : BundleError → Text} {launcher : AppState}
  {files : String → Except FileError Workbook} {w w' : World}

theorem next_synced {a : Action} (hw : Synced w) (hg : apart w a)
    (h : next L describe w a = some w') : Synced w' := by
  cases a with
  | start =>
      cases h
      exact ⟨nofun, hw.faithful⟩
  | onOpen workbookPath current token after drawn worker =>
      obtain ⟨⟨session, launcher⟩, hopened, h⟩ := Option.bind_eq_some_iff.mp h
      cases h
      obtain ⟨rfl, hnew⟩ := openedSession_ok hopened
      refine ⟨fun session' hsession' => ?_, hw.faithful⟩
      cases hsession'
      exact .of_opened hnew
  | onOpenFails workbookPath current =>
      cases h
      exact ⟨hw.attached, hw.faithful⟩
  | send text reached answers =>
      obtain ⟨session, hsession, h⟩ := Option.bind_eq_some_iff.mp h
      obtain ⟨outcome, hask, h⟩ := Option.bind_eq_some_iff.mp h
      have hafter := (asks_of_ask hask).attached (hw.attached session hsession)
      cases outcome with
      | refused launcher =>
          obtain rfl := Option.some.inj h
          refine ⟨fun session' hsession' => ?_, hw.faithful⟩
          cases hsession.symm.trans hsession'
          exact hafter
      | answered passed turn message launcher =>
          obtain rfl := Option.some.inj h
          refine ⟨fun session' hsession' => ?_, hafter.2, hw.faithful⟩
          cases hsession.symm.trans hsession'
          exact hafter.1
  | save createdMs worker =>
      change save L w createdMs worker = some w' at h
      unfold save at h
      split at h
      · cases h
        exact ⟨hw.attached, hw.faithful⟩
      · cases h
        exact hw
  | newSession token after drawn =>
      obtain ⟨⟨session, launcher⟩, hopened, h⟩ := Option.bind_eq_some_iff.mp h
      cases h
      obtain ⟨rfl, hnew⟩ := openedSession_ok hopened
      refine ⟨fun session' hsession' => ?_, hw.faithful⟩
      cases hsession'
      exact .of_opened hnew
  | others launcher =>
      cases h
      refine ⟨fun session hsession => ?_, hw.faithful⟩
      obtain ⟨x, hx, hrest⟩ := hw.attached session hsession
      exact ⟨x, (hg session hsession).trans hx, hrest⟩
  | edit path file =>
      cases h
      exact ⟨hw.attached, hw.faithful⟩

theorem reachable_synced (h : Reachable (machine L describe launcher files) apart w) : Synced w :=
  h.invariant ⟨nofun, trivial⟩ fun _ _ _ _ hw hg hn => next_synced hw hg hn

/-- In every run, a text is passed on after the panel's messages exactly when
the panel and the launcher were in step. -/
theorem passed_iff_inStep (h : Reachable (machine L describe launcher files) apart w)
    {later earlier : List Event} {history : List PyJson} {text : Text}
    {passed : List ChatMessage} {turn : ProviderTurn}
    (he : w.events = later ++ .sent history text passed turn :: earlier) :
    Same passed (history ++ [userMsg text]) ↔ InStep earlier :=
  (reachable_synced h).faithful.sent he

end

/-! ## Two short runs -/

/-- The upstream answers with a greeting. -/
def greetings : List Answer :=
  List.replicate 13 (0, { status := some 200, json := some ⟨[.text "Hi"], some "end_turn", none⟩ })

def userToken : TokenRecord := newRecord 0 [.aiProviderCall] []

def noFiles : String → Except FileError Workbook := fun _ => .error (.notFound [])

/-- The guard, computed. -/
def aloneHere (_ : World) : Action → Bool
  | .others _ => false
  | _ => true

theorem apart_of_aloneHere (w : World) (a : Action) (h : aloneHere w a = true) : apart w a := by
  cases a with
  | others launcher => cases h
  | _ => trivial

/-- A first text, on a session that was opened with nothing to show. -/
def firstText : List Action :=
  [.onOpen none none userToken 0 1 none, .send (lit "hello") true greetings]

def sentFirst (w : World) : Bool :=
  match w.events with
  | [.sent _ _ _ _, .opened []] => true
  | _ => false

theorem passed_inStep_firstText : ∃ w history text passed turn,
    Reachable (machine plainStdlib (fun _ => []) keyedLaunch.launched noFiles) apart w ∧
      w.events = [.sent history text passed turn, .opened []] ∧
      (Same passed (history ++ [userMsg text]) ↔ InStep [.opened []]) := by
  obtain ⟨w, hw, ht⟩ := replay_reaches
    (machine plainStdlib (fun _ => []) keyedLaunch.launched noFiles) apart aloneHere firstText
    sentFirst apart_of_aloneHere (by decide +kernel)
  unfold sentFirst at ht
  split at ht
  · next history text passed turn he =>
      have hlast : w.events = [] ++ .sent history text passed turn :: [.opened []] := he
      exact ⟨w, history, text, passed, turn, hw, he, passed_iff_inStep hw hlast⟩
  · cases ht

/-- One exchange, as a panel shows it and saves it. -/
def shown : List PyJson := [userMsg (lit "hello"), messageJson ⟨.assistant, none, [.text "Hi"]⟩]

def shownIn : AISession := ⟨1, "anthropic", AnthropicWire.defaultModel⟩

/-- A message of text as it comes back, with its keys in order. -/
def restored (role text : String) : PyJson :=
  .obj [(lit "content", .arr [.obj [(lit "text", str text), (lit "type", str "text")]]),
    (lit "role", str role)]

theorem serdeItems_shown :
    serdeItems shown = [restored "user" "hello", restored "assistant" "Hi"] := rfl

theorem shown_values : JsonValues (savedBundle 42 shownIn shown) := by
  simp only [JsonValues, savedBundle, mapped, savedSession, serdeItems_shown, restored,
    List.forall_mem_cons, Json.UniqueKeys, Json.itemKeys, Json.fieldKeys, Json.strings,
    Json.itemStrings, Json.fieldStrings, str]
  simp [lit_scalar]

theorem shown_saved : ∃ out, fileAfterWrite plainStdlib (World.holding idleWorld minimalWorkbook)
      (serdeValue (savedPayload 42 shownIn shown)) = .ok out ∧
    (payloadRead plainStdlib (fun _ => []) (World.holding idleWorld out)).bind
      (restoredMessages plainStdlib) = some (serdeItems (serdeItems shown)) := by
  obtain ⟨out, hout⟩ := write_minimal (toDict_mapped 42 [savedSession shownIn shown] [])
    (by decide +kernel)
  exact ⟨out, restored_of_saved shown_values (by decide +kernel) hout⟩

/-- The list of the first turn after another opening. -/
def nextText : Option (List ChatMessage) := do
  let (session, launcher) ← openedSession keyedLaunch.launched userToken 0 2
  match ← ask session (lit "again") true greetings launcher with
  | .answered passed _ _ _ => return passed
  | .refused _ => none

theorem nextText_alone : ∃ session launcher launcher' passed turn message,
    openedSession keyedLaunch.launched userToken 0 2 = some (session, launcher) ∧
      ask session (lit "again") true greetings launcher =
        some (.answered passed turn message launcher') ∧ passed.length = 1 := by
  have hlength : nextText.map List.length = some 1 := by decide +kernel
  obtain ⟨passed, hnext, hlength⟩ := Option.map_eq_some_iff.mp hlength
  unfold nextText at hnext
  obtain ⟨⟨session, launcher⟩, hopened, hnext⟩ := Option.bind_eq_some_iff.mp hnext
  obtain ⟨outcome, hasked, hnext⟩ := Option.bind_eq_some_iff.mp hnext
  cases outcome with
  | refused => cases hnext
  | answered passed' turn message launcher' =>
      obtain rfl := Option.some.inj hnext
      exact ⟨session, launcher, launcher', passed', turn, message, hopened, hasked, hlength⟩

/-- A launcher in front of which a workbook lies everywhere. -/
def reopening (book : Workbook) : Machine World Action :=
  machine plainStdlib (fun _ => []) keyedLaunch.launched fun _ => .ok book

/-- The panel shows the two messages the workbook was saved with, and the
provider gets the new one alone. -/
theorem restored_not_passed : ∃ out,
    fileAfterWrite plainStdlib (World.holding idleWorld minimalWorkbook)
      (serdeValue (savedPayload 42 shownIn shown)) = .ok out ∧
    ∃ w history text passed turn earlier, Reachable (reopening out) apart w ∧
      w.events = .sent history text passed turn :: earlier ∧ history.length = 2 ∧
      ¬ Same passed (history ++ [userMsg text]) := by
  obtain ⟨out, hout, hread⟩ := shown_saved
  obtain ⟨session, launcher, launcher', passed, turn, message, hopened, hasked, hlength⟩ :=
    nextText_alone
  refine ⟨out, hout, ?_⟩
  have hrestore : restoreBundle plainStdlib (fun _ => []) (fun _ => .ok out) (some "book.xlsx")
      (some idleWorld) [] = serdeItems (serdeItems shown) := by
    change (Option.bind _ _).getD [] = _
    exact congrArg (Option.getD · []) hread
  generalize hhistory : serdeItems (serdeItems shown) = history at hrestore
  have htwo : history.length = 2 := by
    rw [← hhistory]
    rfl
  have hopen : (reopening out).next (reopening out).start
      (.onOpen (some "book.xlsx") none userToken 0 2 (some idleWorld)) =
        some ⟨⟨some "book.xlsx", some session, history⟩, launcher, fun _ => .ok out,
          [.opened history]⟩ := by
    rw [← hrestore]
    simp only [reopening, machine, next, onOpen, hopened]
    rfl
  have hsend : (reopening out).next ⟨⟨some "book.xlsx", some session, history⟩, launcher,
      fun _ => .ok out, [.opened history]⟩ (.send (lit "again") true greetings) =
        some ⟨⟨some "book.xlsx", some session, history ++ [userMsg (lit "again")] ++
          [messageJson message]⟩, launcher', fun _ => .ok out,
          [.sent history (lit "again") passed turn, .opened history]⟩ := by
    change send _ _ _ _ = _
    simp only [send, Option.bind_eq_bind, Option.bind_some, hasked]
    rfl
  have hopened : Reachable (reopening out) apart _ := Reachable.start.next (by trivial) hopen
  have hsent : Reachable (reopening out) apart _ := hopened.next (by trivial) hsend
  refine ⟨_, history, lit "again", passed, turn, [.opened history], hsent, rfl, htwo,
    fun hsame => ?_⟩
  have hlengths := congrArg List.length hsame
  simp [hlength, htwo] at hlengths

end Xlpod.PanelInStep
