import Xlpod.Footprints
import Xlpod.Library.SoloRuns

/-!
# What a chat passes on and leaves behind

`ai_chat` up to its first turn, and the turns. The list of the first turn is the
transcript of the session with the new messages at its end. The turns append the
provider's messages, each but the last followed by the results of its tools; the
message that is answered to the client is the last one, or an empty one when the
turns run out.
-/
namespace Xlpod.ChatTranscript
open Xlpod.ApiErrors Xlpod.Auth Xlpod.AiTypes Xlpod.AnthropicWire Xlpod.Programs Xlpod.SoloRuns
open Xlpod.SessionStores Xlpod.ServerState Xlpod.ServerCalls Xlpod.ToolDispatch Xlpod.ChatRoute
open Xlpod.Footprints

/-! ## The two parts of a chat -/

/-- What `ai_chat` has when it starts its loop. -/
structure Opened where
  session : Session
  provider : Provider
  history : List ChatMessage

def openChat (providers : ProviderRegistry) (body : ChatRequest Uuid) : Handler Opened := do
  if ← overBudget then throw .aiBudgetExceeded
  let session ← orThrow (getSession body.sessionId)
  let provider ← okOr .aiProviderUnconfigured (providers session.provider)
  orThrow (appendMessages session.id .client body.messages)
  let current ← orThrow (getSession session.id)
  return ⟨session, provider, current.messages⟩

/-- The loop of `ai_chat`. -/
def Opened.turns (o : Opened) (body : ChatRequest Uuid) : Handler Chat :=
  chatTurns o.provider o.session body maxTurns (startChat o.history)

def Opened.response (o : Opened) (chat : Chat) : ResponseBody :=
  .chat ⟨o.session.id, chat.finalMessage, chat.finalStop, chat.finalUsage⟩

/-- One call with the time that passes before it. -/
abbrev Answer := ℕ × Environment

def answer (s : AppState) (a : Answer) (op : Op) : Option (op.Reply × AppState) :=
  exec { s with now := s.now + a.1 } a.2 op

section
variable {s s' s'' : AppState} {answers rest rest' : List Answer} {o : Opened}
  {providers : ProviderRegistry} {body : ChatRequest Uuid}

theorem aiChat_eq (providers : ProviderRegistry) (body : ChatRequest Uuid) :
    aiChat providers body = (do
      let o ← openChat providers body
      let chat ← o.turns body
      return o.response chat) := by
  unfold aiChat openChat
  simp only [bind_assoc]
  congr
  funext exceeded
  cases exceeded with
  | true => rfl
  | false =>
      simp only [bind_assoc, pure_bind, Bool.false_eq_true, if_false]
      rfl

/-- A chat that got to its first turn and through all of them. -/
theorem aiChat_answered {chat : Chat}
    (ho : perform answer (openChat providers body).run s answers = some (.ok o, s', rest))
    (hc : perform answer (o.turns body).run s' rest = some (.ok chat, s'', rest')) :
    perform answer (aiChat providers body).run s answers =
      some (.ok (o.response chat), s'', rest') := by
  rw [aiChat_eq, perform_exceptBind, ho]
  change perform answer (o.turns body >>= _).run s' rest = _
  rw [perform_exceptBind, hc]
  rfl

end

/-! ## One session -/

def Session.extended (x : Session) (author : Author) (messages : List ChatMessage) : Session :=
  { x with transcript := x.transcript ++ messages.map (⟨author, ·⟩) }

@[simp] theorem messages_extended (x : Session) (author : Author) (messages : List ChatMessage) :
    (Session.extended x author messages).messages = x.messages ++ messages := by
  simp [Session.extended, Session.messages, Function.comp_def]

/-- What a reply says about the session stored under `id`. -/
def Told (id : Uuid) (found : Option Session) : (op : Op) → op.Reply → Prop
  | .getSession id', .ok session => id' = id → found = some session
  | .getSession id', .error _ => id' = id → found = none
  | .appendMessages id' _ _, .error _ => id' = id → found = none
  | _, _ => True

/-- The session stored under `id` after a call. -/
def grown (id : Uuid) (found : Option Session) : (op : Op) → op.Reply → Option Session
  | .openSession .., session => if session.id = id then some session else found
  | .appendMessages id' author messages, .ok _ =>
      if id' = id then found.map (Session.extended · author messages) else found
  | _, _ => found

def follow (id : Uuid) : Contract api (Option Session) where
  pre _ _ := True
  fact := Told id
  next := grown id

theorem grown_stored {store store' : SessionStore} {op : Op} {r : op.Reply}
    (h : Stored store op r store') (id : Uuid) : grown id (store id) op r = store' id := by
  cases h with
  | @opened _ _ _ _ _ session _ _ =>
      change (if session.id = id then _ else _) = Function.update store session.id (some session) id
      by_cases hid : session.id = id
      · rw [if_pos hid, ← hid, Function.update_self]
      · rw [if_neg hid, Function.update_of_ne (Ne.symm hid)]
  | @appended id' author messages session hsession =>
      change (if id' = id then _ else _) = _
      by_cases hid : id' = id
      · rw [if_pos hid, ← hid, hsession, Function.update_self]
        rfl
      · rw [if_neg hid, Function.update_of_ne (Ne.symm hid)]
  | rejected => rfl
  | kept hop => cases op <;> first | rfl | cases hop

theorem told_exec {s s' : AppState} {env : Environment} {op : Op} {r : op.Reply}
    (h : exec s env op = some (r, s')) (id : Uuid) : Told id (s.sessions id) op r := by
  cases op with
  | getSession id' =>
      simp only [exec, Option.some.injEq, Prod.mk.injEq] at h
      obtain ⟨rfl, -⟩ := h
      unfold SessionStore.get
      cases hs : s.sessions id' with
      | none =>
          intro hid
          rw [← hid, hs]
      | some session =>
          intro hid
          rw [← hid, hs]
  | appendMessages id' author messages =>
      simp only [exec, Option.some.injEq, Prod.mk.injEq] at h
      obtain ⟨rfl, -⟩ := h
      unfold SessionStore.appendMessages
      cases hs : s.sessions id' with
      | none =>
          intro hid
          rw [← hid, hs]
      | some session => trivial
  | _ => trivial

theorem follow_describes (id : Uuid) :
    Describes (follow id) (fun s : AppState => s.sessions id) answer :=
  fun _ _ _ _ _ h => ⟨told_exec h id, grown_stored (stored_of_exec h) id⟩

/-! ## Up to the first turn -/

section
variable {id : Uuid} {x : Session} {providers : ProviderRegistry} {body : ChatRequest Uuid}

theorem openChat_follow (hid : body.sessionId = id) (hx : x.id = id) :
    Meets (follow id) (openChat providers body).run (some x) (OnResult
      (fun found o => o.session = x ∧ providers x.provider = some o.provider ∧
        o.history = x.messages ++ body.messages ∧
        found = some (Session.extended x .client body.messages))
      fun found _ => found = some x) := by
  refine ⟨trivial, fun exceeded _ => ?_⟩
  cases exceeded with
  | true => rfl
  | false =>
      refine ⟨trivial, fun r hr => ?_⟩
      cases r with
      | error e => exact absurd (hr hid) (Option.some_ne_none x)
      | ok session =>
          obtain rfl : x = session := Option.some.inj (hr hid)
          change Meets (follow id) (ExceptT.run (okOr _ (providers x.provider) >>= _)) (some x) _
          simp only [meets_exceptBind]
          refine meets_okOr.mpr ⟨fun provider hprovider => ?_, fun _ => rfl⟩
          refine ⟨trivial, fun r hr => ?_⟩
          cases r with
          | error e => exact absurd (hr hx) (Option.some_ne_none x)
          | ok _ =>
              have hgrown : (follow id).next (some x) (.appendMessages x.id .client body.messages)
                  (.ok ()) = some (Session.extended x .client body.messages) := if_pos hx
              rw [hgrown]
              refine ⟨trivial, fun r hr => ?_⟩
              cases r with
              | error e => exact absurd (hr hx) (Option.some_ne_none _)
              | ok current =>
                  obtain rfl := Option.some.inj (hr hx)
                  exact ⟨rfl, hprovider, messages_extended x .client body.messages, rfl⟩

end

/-! ## The turns -/

/-- What up to `n` turns append, and the message they end with; `pending` stands
for it when they run out. -/
inductive Answered (pending : ChatMessage) : ℕ → List ChatMessage → ChatMessage → Prop
  | spent : Answered pending 0 [] pending
  | final {n : ℕ} {m : ChatMessage} : m.role = .assistant → toolUsesOf m.content = [] →
      Answered pending (n + 1) [m] m
  | tools {n : ℕ} {m final : ChatMessage} {results : List ContentBlock}
      {appended : List ChatMessage} : m.role = .assistant → toolUsesOf m.content ≠ [] →
      Answered pending n appended final →
      Answered pending (n + 1) (m :: ⟨.tool, none, results⟩ :: appended) final

section
variable {pending final : ChatMessage} {n : ℕ} {appended : List ChatMessage}

theorem Answered.last (h : Answered pending n appended final) :
    appended = [] ∨ ∃ before m, appended = before ++ [m] ∧ m.role ≠ .user := by
  induction h with
  | spent => exact .inl rfl
  | @final n m hrole _ => exact .inr ⟨[], m, rfl, by simp [hrole]⟩
  | @tools n m final results appended hrole _ _ ih =>
      right
      cases ih with
      | inl hnil =>
          subst hnil
          exact ⟨[m], ⟨.tool, none, results⟩, rfl, by simp⟩
      | inr hlast =>
          obtain ⟨before, m', rfl, hrole'⟩ := hlast
          exact ⟨m :: ⟨.tool, none, results⟩ :: before, m', rfl, hrole'⟩

/-- After the results of tools come the last two messages, or nothing is answered. -/
theorem Answered.after_tool (h : Answered pending n appended final) {t : ChatMessage}
    (ht : t.role = .tool) : ∃ before t', t'.role = .tool ∧
      (t :: appended = before ++ [t', final] ∨
        t :: appended = before ++ [t'] ∧ final = pending) := by
  induction h generalizing t with
  | spent => exact ⟨[], t, ht, .inr ⟨rfl, rfl⟩⟩
  | final => exact ⟨[], t, ht, .inl rfl⟩
  | @tools n m final results appended _ _ _ ih =>
      obtain ⟨before, t', ht', hends⟩ := ih (t := ⟨.tool, none, results⟩) rfl
      refine ⟨t :: m :: before, t', ht', ?_⟩
      cases hends with
      | inl hends =>
          left
          rw [hends]
          rfl
      | inr hends =>
          right
          rw [hends.1]
          exact ⟨rfl, hends.2⟩

end

/-- The same session with more messages. -/
structure Grew (x x' : Session) (appended : List ChatMessage) : Prop where
  id : x'.id = x.id
  provider : x'.provider = x.provider
  messages : x'.messages = x.messages ++ appended

theorem grew_extended (x : Session) (author : Author) (messages : List ChatMessage) :
    Grew x (Session.extended x author messages) messages :=
  ⟨rfl, rfl, messages_extended x author messages⟩

theorem Grew.trans {x x' x'' : Session} {appended appended' : List ChatMessage}
    (h : Grew x x' appended) (h' : Grew x' x'' appended') :
    Grew x x'' (appended ++ appended') := by
  refine ⟨h'.id.trans h.id, h'.provider.trans h.provider, ?_⟩
  rw [h'.messages, h.messages, List.append_assoc]

/-- Up to `n` turns on the session `x`, of which these messages were the first. -/
def TurnsEnd (x : Session) (pending : ChatMessage) (n : ℕ) (first : List ChatMessage)
    (found : Option Session) (chat : Chat) : Prop :=
  ∃ x' appended, found = some x' ∧ Grew x x' (first ++ appended) ∧
    Answered pending n (first ++ appended) chat.finalMessage

section
variable {id : Uuid} {apiUrl : String} {session : Session} {body : ChatRequest Uuid} {x : Session}
  {n : ℕ} {c : Chat}

/-- The calls of the live provider change nothing the contract tracks, but for a
message that was decoded. -/
structure Overhears {G : Type} (C : Contract api G) : Prop where
  pre : ∀ g op, C.pre g op
  key : ∀ g name r, C.next g (.keychainRead name) r = g
  send : ∀ g post r, C.next g (.httpSend post) r = g
  text : ∀ g r, C.next g .httpText r = g
  json : ∀ g, C.next g .httpJson none = g

theorem anthropicChat_overheard {G : Type} {C : Contract api G} (hC : Overhears C)
    (p : AnthropicProvider) (history : List ChatMessage) (tools : List ToolSpec)
    (maxTokens : Option ℕ) (g : G) :
    Meets C (anthropicChat p history tools maxTokens).run g
      (OnResult (fun g' turn => ∃ parsed : WireResponse, turn = parsed.intoInternal ∧
        g' = C.next g .httpJson (some parsed)) fun g' _ => g' = g) := by
  refine ⟨hC.pre _ _, fun key _ => ?_⟩
  rw [hC.key]
  cases key with
  | none => rfl
  | some stored =>
      cases stored with
      | none => rfl
      | some key =>
          refine ⟨hC.pre _ _, fun status _ => ?_⟩
          rw [hC.send]
          cases status with
          | none => rfl
          | some status =>
              apply meets_exceptIte.mpr
              constructor
              · intro _
                unfold upstreamFailure
                apply meets_exceptBind.mpr
                apply meets_lift.mpr
                refine ⟨hC.pre _ _, fun text _ => ?_⟩
                rw [hC.text]
                simp only [meets_done, onResult_ok]
                split
                · exact ⟨hC.pre _ _, fun r => Empty.elim r⟩
                · rfl
              · intro _
                refine ⟨hC.pre _ _, fun parsed _ => ?_⟩
                cases parsed with
                | none => exact hC.json g
                | some parsed => exact ⟨parsed, rfl, rfl⟩

theorem follow_overhears : Overhears (follow id) :=
  ⟨fun _ _ => trivial, fun _ _ _ => rfl, fun _ _ _ => rfl, fun _ _ => rfl, fun _ => rfl⟩

/-- The live provider answers in the role of the assistant. -/
theorem providerTurn_follow (apiUrl : String) (history : List ChatMessage) (maxTokens : Option ℕ)
    (found : Option Session) :
    Meets (follow id) (providerTurn (.anthropic apiUrl) history maxTokens).run found
      (OnResult (fun found' turn => found' = found ∧ turn.message.role = .assistant)
        fun found' _ => found' = found) := by
  apply meets_exceptBind.mpr
  apply meets_lift.mpr
  refine (anthropicChat_overheard follow_overhears _ history builtinTools maxTokens found).mono
    fun found' r h => ?_
  cases r with
  | error e => exact h
  | ok turn =>
      obtain ⟨parsed, rfl, hfound⟩ := h
      exact ⟨hfound, rfl⟩

theorem append_follow (hid : session.id = id) (author : Author) (messages : List ChatMessage) :
    Meets (follow id) (appendMessages session.id author messages) (some x)
      (OnResult (fun found _ => found = some (Session.extended x author messages))
        fun _ _ => True) := by
  refine ⟨trivial, fun r _ => ?_⟩
  cases r with
  | error e => trivial
  | ok _ => exact if_pos hid

/-- One turn, when the turns after it end as they should. -/
theorem turn_follow (hid : session.id = id)
    (ih : ∀ (c : Chat) (x : Session), Meets (follow id)
      (chatTurns (.anthropic apiUrl) session body n c).run (some x)
        (OnResult (TurnsEnd x c.finalMessage n []) fun _ _ => True)) :
    ∃ rest, chatTurns (.anthropic apiUrl) session body (n + 1) c =
        (providerTurn (.anthropic apiUrl) c.history body.maxTokens >>= rest) ∧
      ∀ turn, turn.message.role = .assistant → Meets (follow id) (rest turn).run (some x)
        (OnResult (TurnsEnd x c.finalMessage (n + 1) [turn.message]) fun _ _ => True) := by
  refine ⟨_, by rw [chatTurns], fun turn hrole => ?_⟩
  simp only [meets_exceptBind]
  refine (append_follow hid .provider [turn.message]).mono fun found r h => ?_
  cases r with
  | error e => trivial
  | ok _ =>
      obtain rfl : found = _ := h
      have hgrew := grew_extended x .provider [turn.message]
      generalize Session.extended x .provider [turn.message] = x₁ at hgrew ⊢
      have hquiet : Ignores (follow id) costOps := by
        intro found op ho
        refine ⟨trivial, fun r => ?_⟩
        cases op <;> first | exact ho.elim | rfl
      have htools : Ignores (follow id) dispatchOps := by
        intro found op ho
        refine ⟨trivial, fun r => ?_⟩
        cases op <;> first | exact ho.elim | rfl
      apply meets_lift.mpr
      refine (hquiet.meets (recordCost_uses _ _ _)).mono fun found _ h => ?_
      subst h
      apply meets_exceptIte.mpr
      refine ⟨fun hend => ?_, fun hgo => ?_⟩
      · have huses : toolUsesOf turn.message.content = [] := List.isEmpty_iff.mp hend
        exact ⟨x₁, [], rfl, hgrew, .final hrole huses⟩
      · have huses : toolUsesOf turn.message.content ≠ [] := by simpa using hgo
        simp only [meets_exceptBind]
        apply meets_lift.mpr
        refine (htools.meets (executeToolUses_uses _ _)).mono fun found results h => ?_
        subst h
        refine (append_follow hid .dispatch [⟨.tool, none, results⟩]).mono fun found r h => ?_
        cases r with
        | error e => trivial
        | ok _ =>
            obtain rfl : found = _ := h
            refine (ih _ _).mono fun found r h => ?_
            cases r with
            | error e => trivial
            | ok chat =>
                obtain ⟨x', appended, hfound, hgrew', hanswered⟩ := h
                have hall := (hgrew.trans (grew_extended x₁ .dispatch
                  [⟨.tool, none, results⟩])).trans hgrew'
                exact ⟨x', ⟨.tool, none, results⟩ :: appended, hfound, hall,
                  .tools hrole huses hanswered⟩

theorem chatTurns_follow (hid : session.id = id) :
    Meets (follow id) (chatTurns (.anthropic apiUrl) session body n c).run (some x)
      (OnResult (TurnsEnd x c.finalMessage n []) fun _ _ => True) := by
  induction n generalizing c x with
  | zero => exact ⟨x, [], rfl, ⟨rfl, rfl, (List.append_nil _).symm⟩, .spent⟩
  | succ n ih =>
      obtain ⟨rest, hturns, hrest⟩ := turn_follow (c := c) (x := x) hid fun c x => ih
      rw [hturns]
      apply meets_exceptBind.mpr
      refine (providerTurn_follow apiUrl c.history body.maxTokens (some x)).mono fun found r h => ?_
      cases r with
      | error e => trivial
      | ok turn =>
          obtain ⟨rfl, hrole⟩ := h
          refine (hrest turn hrole).mono fun found r h => ?_
          cases r with
          | error e => trivial
          | ok chat =>
              obtain ⟨x', appended, hfound, hgrew, hanswered⟩ := h
              exact ⟨x', turn.message :: appended, hfound, hgrew, hanswered⟩

end

end Xlpod.ChatTranscript
