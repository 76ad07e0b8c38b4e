import Xlpod.Library.Pairing
import Xlpod.Serving

/-!
# Pairing of transcripts

A chat appends the provider's message and, after running the tools, its answer,
with every await of the charge and the tools in between. The transcript stays
paired exactly as long as nobody else appends to it in between, and the chat is
not dropped there.
-/
namespace Xlpod.TranscriptPairing
open Xlpod.ApiErrors Xlpod.Auth Xlpod.AiTypes Xlpod.BundlePayload Xlpod.GuardedRuns Xlpod.Pairing
open Xlpod.Programs Xlpod.Interleaving Xlpod.SessionStores Xlpod.ServerState Xlpod.ServerCalls
open Xlpod.ToolDispatch Xlpod.ChatRoute Xlpod.Server Xlpod.Footprints Xlpod.Serving

/-! ## Transcripts -/

/-- The ids of the `tool_use` blocks, in order. -/
def idsOf (m : ChatMessage) : List String := (toolUsesOf m.content).map Prod.fst

def resultId : ContentBlock → Option String
  | .toolResult toolUseId _ _ _ => some toolUseId
  | _ => none

/-- What a message of the provider leaves to be answered. -/
def asks (entry : Entry) : Option (List String) :=
  if entry.author = .provider ∧ idsOf entry.message ≠ [] then some (idsOf entry.message) else none

/-- A tool message with one result for each id, in the same order. -/
def answers (ids : List String) (entry : Entry) : Prop :=
  entry.message.role = .tool ∧ entry.message.content.map resultId = ids.map some

/-- The session and the ids a chat has yet to answer. -/
def note (pending : Option (Uuid × List String)) : (op : Op) → op.Reply →
    Option (Uuid × List String)
  | .appendMessages id .provider [m], .ok _ => if idsOf m = [] then none else some (id, idsOf m)
  | .appendMessages _ .dispatch _, .ok _ => none
  | _, _ => pending

section
variable {d : Deployment}

def pendingOf (i : ℕ) (events : List (Event (server d))) : Option (Uuid × List String) :=
  track note none i events

/-- A chat that names the session is in progress. -/
def ChatOn (w : World (server d)) (id : Uuid) : Prop :=
  ∃ i request op body, w.about i = some (request, op) ∧ inputFor request .aiChat = some body ∧
    body.sessionId = id

def WellPaired (w : World (server d)) : Prop :=
  ∀ id session, w.shared.sessions id = some session → ¬ ChatOn w id →
    Paired asks answers session.transcript

/-- While a chat has yet to answer on a session, nobody else appends to it and
the chat is not dropped. -/
def exclusive (w : World (server d)) : Label (server d) → Prop
  | .call i _ => ∀ request id author messages,
      w.about i = some (request, .appendMessages id author messages) → messages ≠ [] →
        ∀ j ids, j ≠ i → pendingOf j w.events ≠ some (id, ids)
  | .drop i => pendingOf i w.events = none
  | _ => True

end

/-! ## The protocol -/

/-- How a chat on `id` appends. -/
def Polite (id : Uuid) (pending : Option (Uuid × List String)) : Op → Prop
  | .appendMessages id' .client _ => id' = id ∧ pending = none
  | .appendMessages id' .provider messages => id' = id ∧ pending = none ∧ ∃ m, messages = [m]
  | .appendMessages id' .dispatch messages => id' = id ∧ ∃ ids results,
      pending = some (id, ids) ∧ messages = [⟨.tool, none, results⟩] ∧
        results.map resultId = ids.map some
  | _ => True

def Silent : Op → Prop
  | .appendMessages .. => False
  | _ => True

/-- A session is stored under its id, and is there while a chat has yet to answer. -/
def Truthful (pending : Option (Uuid × List String)) : (op : Op) → op.Reply → Prop
  | .getSession id, .ok session => session.id = id
  | .appendMessages id _ _, .error _ => ∀ ids, pending ≠ some (id, ids)
  | _, _ => True

def conduct (request : Request) : Contract api (Option (Uuid × List String)) where
  pre pending op :=
    match inputFor request .aiChat with
    | some body => Polite body.sessionId pending op
    | none => Silent op
  fact := Truthful
  next := note

def protocol (d : Deployment) : Protocol (server d) (Option (Uuid × List String)) where
  contract := conduct
  start _ := none
  post _ pending := pending = none

section
variable {request : Request} {session : Session} {body : ChatRequest Uuid}

theorem note_silent {pending : Option (Uuid × List String)} {op : Op} (ho : Silent op)
    (r : op.Reply) : note pending op r = pending := by
  cases op <;> first | exact ho.elim | rfl

theorem ignores_silent : Ignores (conduct request) Silent := by
  intro pending op ho
  refine ⟨?_, fun r => note_silent ho r⟩
  unfold conduct
  cases inputFor request .aiChat with
  | none => exact ho
  | some body => cases op <;> first | exact ho.elim | trivial

theorem pre_of_polite (hinput : inputFor request .aiChat = some body)
    {pending : Option (Uuid × List String)} {op : Op} (h : Polite body.sessionId pending op) :
    (conduct request).pre pending op := by
  unfold conduct
  rw [hinput]
  exact h

/-- Only a chat appends. -/
theorem chat_of_pre {pending : Option (Uuid × List String)} {id : Uuid} {author : Author}
    {messages : List ChatMessage}
    (h : (conduct request).pre pending (.appendMessages id author messages)) :
    ∃ body, inputFor request .aiChat = some body ∧
      Polite body.sessionId pending (.appendMessages id author messages) := by
  unfold conduct at h
  cases hinput : inputFor request .aiChat with
  | none =>
      rw [hinput] at h
      exact h.elim
  | some body =>
      rw [hinput] at h
      exact ⟨body, rfl, h⟩

/-- Every tool use gets its own result, whatever becomes of it. -/
theorem executeToolUses_conduct (ctx : DispatchCtx) (toolUses : List (String × String × PyJson))
    (pending : Option (Uuid × List String)) :
    Meets (conduct request) (executeToolUses ctx toolUses) pending fun pending' results =>
      pending' = pending ∧ results.map resultId = toolUses.map fun use => some use.1 := by
  have hquiet : Ignores (conduct request) dispatchOps :=
    ignores_silent.mono fun op ho => by cases op <;> first | exact ho.elim | trivial
  induction toolUses with
  | nil => exact ⟨rfl, rfl⟩
  | cons use rest ih =>
      apply meets_bind.mpr
      apply meets_bind.mpr
      refine (hquiet.meets (runOne_uses ctx use.2.1 use.2.2)).mono fun pending' r hsame => ?_
      subst hsame
      apply meets_bind.mpr
      refine ih.mono fun pending'' results hrest => ⟨hrest.1, ?_⟩
      have hid : resultId (toolResult use.1 r) = some use.1 := by
        cases r <;> rfl
      rw [List.map_cons, List.map_cons, hid, hrest.2]

/-- Nothing pending but between the provider's message and its answer. -/
def outline (hinput : inputFor request .aiChat = some body) (hid : session.id = body.sessionId)
    (provider : Provider) : Outline (conduct request) provider session body where
  ready pending := pending = none
  asked pending _ := pending = none
  stored pending turn := pending =
    if idsOf turn.message = [] then none else some (session.id, idsOf turn.message)
  charged pending turn := pending =
    if idsOf turn.message = [] then none else some (session.id, idsOf turn.message)
  answered pending turn results := pending = some (session.id, idsOf turn.message) ∧
    results.map resultId = (idsOf turn.message).map some
  ended pending := pending = none
  ended_of_ready _ h := h
  ask := by
    intro pending history hnone
    have hquiet : Ignores (conduct request) providerOps :=
      ignores_silent.mono fun op ho => by cases op <;> first | exact ho.elim | trivial
    refine (hquiet.meets (providerTurn_uses provider history _)).mono fun pending' r hsame => ?_
    rw [hnone] at hsame
    cases r <;> exact hsame
  store := by
    intro pending turn hnone
    subst hnone
    refine ⟨pre_of_polite hinput ⟨hid, rfl, turn.message, rfl⟩, fun r _ => ?_⟩
    cases r <;> rfl
  charge := by
    intro pending turn hstored
    have hquiet : Ignores (conduct request) costOps :=
      ignores_silent.mono fun op ho => by cases op <;> first | exact ho.elim | trivial
    refine (hquiet.meets (recordCost_uses _ _ _)).mono fun pending' _ hsame => ?_
    rw [hsame]
    exact hstored
  finish := by
    intro pending turn hcharged huses
    rw [hcharged, if_pos]
    rw [idsOf, huses]
    rfl
  answer := by
    intro pending turn hcharged huses
    have hids : idsOf turn.message ≠ [] := by simpa [idsOf] using huses
    rw [if_neg hids] at hcharged
    refine (executeToolUses_conduct _ _ pending).mono fun pending' results h => ?_
    rw [h.1, h.2, hcharged, idsOf, List.map_map]
    exact ⟨rfl, rfl⟩
  reply := by
    intro pending turn results hanswered
    obtain ⟨rfl, hresults⟩ := hanswered
    refine ⟨pre_of_polite hinput ⟨hid, idsOf turn.message, results, by rw [hid], rfl, hresults⟩,
      fun r hr => ?_⟩
    cases r with
    | error e => exact absurd rfl (hr (idsOf turn.message))
    | ok _ => rfl

theorem aiChat_conduct (hinput : inputFor request .aiChat = some body)
    (providers : ProviderRegistry) :
    Meets (conduct request) (aiChat providers body).run none fun pending _ => pending = none := by
  apply aiChat_meets fun pending => pending = none
  · exact ignores_silent.mono fun op ho => by subst ho; trivial
  · rfl
  · refine ⟨pre_of_polite hinput trivial, fun r hr => ?_⟩
    cases r with
    | error e => rfl
    | ok session =>
        change session.id = body.sessionId at hr
        refine ⟨rfl, fun provider _ => ⟨pre_of_polite hinput ⟨hr, rfl⟩, fun r _ => ?_⟩⟩
        cases r with
        | error e => rfl
        | ok _ =>
            refine ⟨pre_of_polite hinput trivial, fun r _ => ?_⟩
            cases r with
            | error e => rfl
            | ok current => exact ⟨outline hinput hr provider, rfl, rfl⟩

end

theorem serve_silent (d : Deployment) {request : Request}
    (hinput : inputFor request .aiChat = none) :
    Uses (I := api) Silent ((server d).serve request) := by
  have hplain (op : Op) (ho : plainOps op) : Silent op := by
    cases op <;> first | exact ho.elim | trivial
  have hinner : Uses (I := api) Silent (innerService d request) := by
    apply innerService_uses_of fun op ho => hplain op (frontOps_plain op ho)
    intro r input token hr
    by_cases hchat : r = .aiChat
    · subst hchat
      rw [hinput] at hr
      cases hr
    · by_cases hwindow : r = .aiConsentWindow
      · subst hwindow
        refine (aiOpenTrustWindow_uses d.parseUuid input).mono fun op ho => ?_
        cases op <;> first | exact ho.elim | trivial
      · exact (handler_plain d request.origin token r input hchat hwindow).mono hplain
  refine uses_call.mpr ⟨trivial, fun start => hinner.bind fun response => ?_⟩
  unfold writeAudit Uses
  simp [Silent]

theorem serve_conduct (d : Deployment) (request : Request) :
    Meets (conduct request) ((server d).serve request) none fun pending _ => pending = none := by
  cases hinput : inputFor request .aiChat with
  | none => exact ignores_silent.meets (serve_silent d hinput)
  | some body =>
      refine serve_bearer_meets (r := .aiChat) rfl hinput
        (ignores_silent.mono fun op ho => by cases op <;> first | exact ho.elim | trivial) rfl ?_
      intro token
      refine ⟨pre_of_polite hinput trivial, fun reply _ => ⟨rfl, fun record _ => ?_⟩⟩
      exact aiChat_conduct hinput d.providers

/-! ## The stores -/

section
variable {d : Deployment} {guard : World (server d) → Label (server d) → Prop}
  {w : World (server d)}

def Keyed (store : SessionStore) : Prop := ∀ id session, store id = some session → session.id = id

theorem Keyed.stored {store store' : SessionStore} (h : Keyed store) {op : Op} {r : op.Reply}
    (hs : Stored store op r store') : Keyed store' := by
  cases hs with
  | @opened _ _ _ _ _ session _ _ =>
      intro id found hfound
      by_cases hid : id = session.id
      · subst hid
        simp only [SessionStore.insert, Function.update_self, Option.some.injEq] at hfound
        rw [← hfound]
      · rw [SessionStore.insert, Function.update_of_ne hid] at hfound
        exact h id found hfound
  | @appended id author messages session hsession =>
      intro id' found hfound
      by_cases hid : id' = id
      · subst hid
        rw [Function.update_self, Option.some.injEq] at hfound
        rw [← hfound]
        exact h id' session hsession
      · rw [Function.update_of_ne hid] at hfound
        exact h id' found hfound
  | rejected => exact h
  | kept => exact h

theorem reachable_keyed (h : Reachable (machine (server d)) guard w) : Keyed w.shared.sessions := by
  refine h.invariant (P := fun w => Keyed w.shared.sessions) (fun id session hs => by cases hs)
    fun w a v _ hw _ hn => ?_
  cases step_of_next hn with
  | call _ hexec => exact hw.stored (stored_of_exec hexec)
  | _ => exact hw

/-- Sessions are never removed. -/
theorem stored_isSome {store store' : SessionStore} {op : Op} {r : op.Reply}
    (hs : Stored store op r store') {id : Uuid} (h : (store id).isSome) : (store' id).isSome := by
  cases hs with
  | @opened _ _ _ _ _ session _ _ =>
      by_cases hid : id = session.id
      · simp [SessionStore.insert, hid]
      · simpa [SessionStore.insert, Function.update_of_ne hid] using h
  | @appended id' author messages session hsession =>
      by_cases hid : id = id'
      · simp [hid]
      · simpa [Function.update_of_ne hid] using h
  | rejected => exact h
  | kept => exact h

theorem rejected_none {store store' : SessionStore} {id : Uuid} {author : Author}
    {messages : List ChatMessage} {e : ApiError}
    (hs : Stored store (.appendMessages id author messages) (.error e) store') : store id = none := by
  cases hs with
  | rejected h => exact h
  | kept hop => cases hop

/-- Something new is pending only after a successful append of the provider's message. -/
theorem note_stored {pending : Option (Uuid × List String)} {store store' : SessionStore} {op : Op}
    {r : op.Reply} (hs : Stored store op r store') {id : Uuid} {ids : List String}
    (h : note pending op r = some (id, ids)) : pending = some (id, ids) ∨
      (store' id).isSome ∧ ∃ m, op = .appendMessages id .provider [m] := by
  cases hs with
  | opened => exact .inl h
  | @appended id' author messages session hsession =>
      unfold note at h
      split at h
      · next hop _ =>
          cases hop
          split at h
          · cases h
          · cases h
            exact .inr ⟨by simp, _, rfl⟩
      · cases h
      · exact .inl h
  | rejected =>
      unfold note at h
      split at h
      · next hop hr =>
          cases hop
          cases hr
      · next hop hr =>
          cases hop
          cases hr
      · exact .inl h
  | kept hop => cases op <;> first | exact .inl h | cases hop

theorem pendingOf_call (w : World (server d)) (i : ℕ) (request : Request) (op : Op) (r : op.Reply) :
    (pendingOf · (⟨i, request, op, r, w.shared⟩ :: w.events)) =
      Function.update (pendingOf · w.events) i (note (pendingOf i w.events) op r) := by
  funext j
  by_cases hj : j = i
  · subst hj
    rw [Function.update_self]
    exact if_pos rfl
  · rw [Function.update_of_ne hj]
    exact if_neg (Ne.symm hj)

theorem pending_session (h : Reachable (machine (server d)) guard w) {i : ℕ} {id : Uuid}
    {ids : List String} (hp : pendingOf i w.events = some (id, ids)) :
    (w.shared.sessions id).isSome := by
  revert i id ids
  refine h.invariant (P := fun w => ∀ {i id ids}, pendingOf i w.events = some (id, ids) →
    (w.shared.sessions id).isSome) (fun hp => by cases hp) fun w a v _ hw _ hn => ?_
  cases step_of_next hn with
  | @call i env request op rest r s hi hexec =>
      intro j id ids hp
      have hstored := stored_of_exec hexec
      have hnew := congrFun (pendingOf_call w i request op r) j
      change pendingOf j _ = _ at hp
      rw [hnew] at hp
      by_cases hj : j = i
      · subst hj
        rw [Function.update_self] at hp
        rcases note_stored hstored hp with hold | ⟨hsome, -⟩
        · exact stored_isSome hstored (hw hold)
        · exact hsome
      · rw [Function.update_of_ne hj] at hp
        exact stored_isSome hstored (hw hp)
  | _ => exact hw

theorem sound (guard : World (server d) → Label (server d) → Prop) :
    Sound (protocol d) guard := by
  intro w i env request op rest r s hreach _ hi hexec
  cases op with
  | getSession id =>
      cases r with
      | error e => trivial
      | ok session =>
          simp only [exec, Option.some.injEq, Prod.mk.injEq] at hexec
          exact reachable_keyed hreach id session (SessionStore.get_ok.mp hexec.1)
  | appendMessages id author messages =>
      cases r with
      | ok _ => trivial
      | error e =>
          intro ids hp
          have hsome := pending_session hreach hp
          have hexec' : exec w.shared env (.appendMessages id author messages) = _ := hexec
          have hnone := rejected_none (stored_of_exec hexec')
          rw [hnone] at hsome
          cases hsome
  | _ => trivial

end

/-! ## The invariant -/

/-- A transcript waits for at most one chat, which has its last message to
answer; every other transcript is paired. -/
structure Orderly (pending : ℕ → Option (Uuid × List String)) (store : SessionStore) : Prop where
  held : ∀ i id ids session, pending i = some (id, ids) → store id = some session →
    OpenEnd asks answers ids session.transcript
  one : ∀ i j id ids ids', pending i = some (id, ids) → pending j = some (id, ids') → i = j
  rest : ∀ id session, store id = some session → (∀ i ids, pending i ≠ some (id, ids)) →
    Paired asks answers session.transcript

section
variable {pending : ℕ → Option (Uuid × List String)} {store : SessionStore} {session : Session}
  {i : ℕ} {id : Uuid}

theorem update_cases {id' : Uuid} {new found : Session}
    (h : Function.update store id (some new) id' = some found) :
    (id' = id ∧ new = found) ∨ (id' ≠ id ∧ store id' = some found) := by
  by_cases hid : id' = id
  · subst hid
    rw [Function.update_self, Option.some.injEq] at h
    exact .inl ⟨rfl, h⟩
  · rw [Function.update_of_ne hid] at h
    exact .inr ⟨hid, h⟩

theorem Orderly.opened (h : Orderly pending store) (hfree : ∀ i ids, pending i ≠ some (session.id, ids))
    (hempty : session.transcript = []) : Orderly pending (store.insert session) := by
  refine ⟨fun i id ids found hp hs => ?_, h.one, fun id found hs hnone => ?_⟩
  · rcases update_cases hs with ⟨rfl, -⟩ | ⟨-, hs⟩
    · exact absurd hp (hfree i ids)
    · exact h.held i id ids found hp hs
  · rcases update_cases hs with ⟨-, rfl⟩ | ⟨-, hs⟩
    · rw [hempty]
      exact paired_nil
    · exact h.rest id found hs hnone

/-- Entries that ask nothing, appended while nothing is pending there. -/
theorem Orderly.appended (h : Orderly pending store) (hs : store id = some session)
    {entries : List Entry} (hplain : ∀ e ∈ entries, asks e = none)
    (hfree : entries ≠ [] → ∀ i ids, pending i ≠ some (id, ids)) :
    Orderly pending (Function.update store id
      (some { session with transcript := session.transcript ++ entries })) := by
  by_cases hnil : entries = []
  · subst hnil
    have hsame : Function.update store id
        (some { session with transcript := session.transcript ++ [] }) = store := by
      rw [List.append_nil, ← hs, Function.update_eq_self]
    rw [hsame]
    exact h
  · refine ⟨fun i id' ids found hp hfound => ?_, h.one, fun id' found hfound hnone => ?_⟩
    · rcases update_cases hfound with ⟨rfl, -⟩ | ⟨-, hfound⟩
      · exact absurd hp (hfree hnil i ids)
      · exact h.held i id' ids found hp hfound
    · rcases update_cases hfound with ⟨rfl, rfl⟩ | ⟨-, hfound⟩
      · exact (h.rest id' session hs hnone).append (paired_of_plain hplain)
      · exact h.rest id' found hfound hnone

/-- The provider's tool uses now wait for the chat that stored them. -/
theorem Orderly.asked (h : Orderly pending store) (hs : store id = some session)
    (hfree : ∀ j ids, pending j ≠ some (id, ids)) {entry : Entry} {ids : List String}
    (hi : pending i = none) (hasks : asks entry = some ids) :
    Orderly (Function.update pending i (some (id, ids))) (Function.update store id
      (some { session with transcript := session.transcript ++ [entry] })) := by
  have hother {j : ℕ} {id' : Uuid} {ids' : List String}
      (hp : Function.update pending i (some (id, ids)) j = some (id', ids')) :
      (j = i ∧ id' = id ∧ ids' = ids) ∨ (j ≠ i ∧ id' ≠ id ∧ pending j = some (id', ids')) := by
    by_cases hj : j = i
    · subst hj
      rw [Function.update_self, Option.some.injEq, Prod.mk.injEq] at hp
      exact .inl ⟨rfl, hp.1.symm, hp.2.symm⟩
    · rw [Function.update_of_ne hj] at hp
      refine .inr ⟨hj, ?_, hp⟩
      rintro rfl
      exact hfree j ids' hp
  refine ⟨fun j id' ids' found hp hfound => ?_, fun j k id' ids₁ ids₂ hj hk => ?_,
    fun id' found hfound hnone => ?_⟩
  · rcases hother hp with ⟨-, rfl, rfl⟩ | ⟨-, hne, hp⟩
    · rcases update_cases hfound with ⟨-, rfl⟩ | ⟨hne, -⟩
      · exact (h.rest id' session hs hfree).open_end hasks
      · exact absurd rfl hne
    · rcases update_cases hfound with ⟨rfl, -⟩ | ⟨-, hfound⟩
      · exact absurd rfl hne
      · exact h.held j id' ids' found hp hfound
  · rcases hother hj with ⟨rfl, rfl, -⟩ | ⟨hji, hne, hj⟩
    · rcases hother hk with ⟨rfl, -, -⟩ | ⟨-, hne, -⟩
      · rfl
      · exact absurd rfl hne
    · rcases hother hk with ⟨-, rfl, -⟩ | ⟨-, -, hk⟩
      · exact absurd rfl hne
      · exact h.one j k id' ids₁ ids₂ hj hk
  · rcases update_cases hfound with ⟨rfl, -⟩ | ⟨-, hfound⟩
    · exact absurd (Function.update_self i (some (id', ids)) pending) (hnone i ids)
    · refine h.rest id' found hfound fun j ids' hp => ?_
      by_cases hj : j = i
      · subst hj
        rw [hi] at hp
        cases hp
      · refine hnone j ids' ?_
        rw [Function.update_of_ne hj]
        exact hp

/-- The chat that has the last message to answer answers it. -/
theorem Orderly.answered (h : Orderly pending store) (hs : store id = some session)
    {ids : List String} (hi : pending i = some (id, ids)) {entry : Entry}
    (hplain : asks entry = none) (hanswers : answers ids entry) :
    Orderly (Function.update pending i none) (Function.update store id
      (some { session with transcript := session.transcript ++ [entry] })) := by
  have hother {j : ℕ} {id' : Uuid} {ids' : List String}
      (hp : Function.update pending i none j = some (id', ids')) :
      j ≠ i ∧ id' ≠ id ∧ pending j = some (id', ids') := by
    by_cases hj : j = i
    · subst hj
      rw [Function.update_self] at hp
      cases hp
    · rw [Function.update_of_ne hj] at hp
      refine ⟨hj, ?_, hp⟩
      rintro rfl
      exact hj (h.one j i id' ids' ids hp hi)
  refine ⟨fun j id' ids' found hp hfound => ?_, fun j k id' ids₁ ids₂ hj hk => ?_,
    fun id' found hfound hnone => ?_⟩
  · obtain ⟨-, hne, hp⟩ := hother hp
    rcases update_cases hfound with ⟨rfl, -⟩ | ⟨-, hfound⟩
    · exact absurd rfl hne
    · exact h.held j id' ids' found hp hfound
  · exact h.one j k id' ids₁ ids₂ (hother hj).2.2 (hother hk).2.2
  · rcases update_cases hfound with ⟨rfl, rfl⟩ | ⟨hid, hfound⟩
    · exact (h.held i id' ids session hi hs).close hanswers hplain
    · refine h.rest id' found hfound fun j ids' hp => ?_
      by_cases hj : j = i
      · subst hj
        rw [hi, Option.some.injEq, Prod.mk.injEq] at hp
        exact hid hp.1.symm
      · refine hnone j ids' ?_
        rw [Function.update_of_ne hj]
        exact hp

/-- One operation of the task `i`. -/
theorem Orderly.stored {request : Request} (h : Orderly pending store) {store' : SessionStore}
    {op : Op} {r : op.Reply} (hs : Stored store op r store')
    (hpre : (conduct request).pre (pending i) op)
    (hthere : ∀ j id ids, pending j = some (id, ids) → (store id).isSome)
    (halone : ∀ id author messages, op = .appendMessages id author messages → messages ≠ [] →
      ∀ j ids, j ≠ i → pending j ≠ some (id, ids)) :
    Orderly (Function.update pending i (note (pending i) op r)) store' := by
  have hkeep (hnote : note (pending i) op r = pending i) :
      Function.update pending i (note (pending i) op r) = pending := by
    rw [hnote, Function.update_eq_self]
  cases hs with
  | @opened _ _ _ _ _ session hfresh hempty =>
      rw [hkeep rfl]
      refine h.opened (fun j ids hp => ?_) hempty
      have hsome := hthere j session.id ids hp
      rw [hfresh] at hsome
      cases hsome
  | rejected hnone =>
      rw [hkeep (by unfold note; split <;> trivial)]
      exact h
  | kept hop =>
      rw [hkeep (by cases op <;> first | rfl | cases hop)]
      exact h
  | @appended id author messages session hsession =>
      obtain ⟨body, -, hpolite⟩ := chat_of_pre hpre
      have hfree (hi : pending i = none) (hne : messages ≠ []) (j : ℕ) (ids : List String) :
          pending j ≠ some (id, ids) := by
        by_cases hj : j = i
        · rw [hj, hi]
          simp
        · exact halone id author messages rfl hne j ids hj
      cases author with
      | client =>
          rw [hkeep rfl]
          refine h.appended hsession (fun e he => ?_) fun hne => hfree hpolite.2 ?_
          · obtain ⟨m, -, rfl⟩ := List.mem_map.mp he
            exact if_neg (by simp)
          · simpa using hne
      | provider =>
          obtain ⟨-, hi, m, rfl⟩ := hpolite
          by_cases hids : idsOf m = []
          · rw [hkeep (by rw [hi]; exact if_pos hids)]
            refine h.appended hsession (fun e he => ?_) fun _ => hfree hi (by simp)
            rw [List.mem_singleton.mp he]
            exact if_neg (by simp [hids])
          · have hnote : note (pending i) (.appendMessages id .provider [m]) (.ok ()) =
                some (id, idsOf m) := if_neg hids
            rw [hnote]
            exact h.asked hsession (hfree hi (by simp)) hi (if_pos ⟨rfl, hids⟩)
      | dispatch =>
          obtain ⟨rfl, ids, results, hi, rfl, hresults⟩ := hpolite
          exact h.answered hsession hi (if_neg (by simp)) ⟨rfl, hresults⟩

end

/-! ## Runs -/

section
variable {d : Deployment} {w : World (server d)}

theorem orderly (h : Reachable (machine (server d)) exclusive w) :
    Orderly (pendingOf · w.events) w.shared.sessions := by
  refine h.invariant (P := fun w => Orderly (pendingOf · w.events) w.shared.sessions) ?_
    fun w a v hr hw hg hn => ?_
  · constructor
    · intro i id ids session hp _
      cases hp
    · intro i j id ids ids' hp _
      cases hp
    · intro id session hs _
      cases hs
  · cases step_of_next hn with
    | @call i env request op rest r s hi hexec =>
        have hpre := (follows (serve_conduct d) (sound exclusive) hr i request _ hi).1
        have hnext := hw.stored (stored_of_exec hexec) hpre
          (fun j id ids hp => pending_session hr hp) fun id author messages hop hne => ?_
        · rw [← pendingOf_call] at hnext
          exact hnext
        · subst hop
          exact hg request id author messages (World.about_of_call hi) hne
    | _ => exact hw

/-- A dropped chat had nothing left to answer. -/
theorem pending_dropped (h : Reachable (machine (server d)) exclusive w) {i : ℕ}
    {request : Request} (hi : w.tasks i = some ⟨request, none⟩) : pendingOf i w.events = none := by
  revert i request
  refine h.invariant (P := fun w => ∀ {i request}, w.tasks i = some ⟨request, none⟩ →
    pendingOf i w.events = none) (fun hi => by cases hi) fun w a v _ hw hg hn => ?_
  intro j request hj
  cases step_of_next hn with
  | @arrive i request' hi =>
      by_cases hji : j = i
      · subst hji
        rw [setTask_self] at hj
        cases hj
      · exact hw (setTask_other w _ hji ▸ hj)
  | @call i env request' op rest r s hi hexec =>
      have hji : j ≠ i := by
        rintro rfl
        change (w.setTask _ _).tasks _ = _ at hj
        rw [setTask_self] at hj
        cases hj
      change (w.setTask _ _).tasks _ = _ at hj
      rw [setTask_other w _ hji] at hj
      exact (track_other (Ne.symm hji)).trans (hw hj)
  | @drop i request' op rest hi ha =>
      by_cases hji : j = i
      · subst hji
        exact hg
      · exact hw (setTask_other w _ hji ▸ hj)
  | elapse => exact hw hj

/-- Only a chat on the session has something to answer there. -/
theorem pending_chat {guard : World (server d) → Label (server d) → Prop}
    (h : Reachable (machine (server d)) guard w) {i : ℕ} {id : Uuid} {ids : List String}
    (hp : pendingOf i w.events = some (id, ids)) : ∃ request body, requestOf w i = some request ∧
      inputFor request .aiChat = some body ∧ body.sessionId = id := by
  revert i id ids
  refine h.invariant (P := fun w => ∀ {i id ids}, pendingOf i w.events = some (id, ids) →
    ∃ request body, requestOf w i = some request ∧ inputFor request .aiChat = some body ∧
      body.sessionId = id) (fun hp => by cases hp) fun w a v hr hw _ hn => ?_
  have hstep := step_of_next hn
  intro j id ids hp
  have hold (hp : pendingOf j w.events = some (id, ids)) : ∃ request body,
      requestOf v j = some request ∧ inputFor request .aiChat = some body ∧
        body.sessionId = id := by
    obtain ⟨request, body, hrequest, hbody⟩ := hw hp
    exact ⟨request, body, hstep.request hrequest, hbody⟩
  cases hstep with
  | @call i env request op rest r s hi hexec =>
      have hnew := congrFun (pendingOf_call w i request op r) j
      change pendingOf j _ = _ at hp
      rw [hnew] at hp
      by_cases hj : j = i
      · subst hj
        rw [Function.update_self] at hp
        rcases note_stored (stored_of_exec hexec) hp with hp | ⟨-, m, rfl⟩
        · exact hold hp
        · have hpre := (follows (serve_conduct d) (sound guard) hr j request _ hi).1
          obtain ⟨body, hbody, hid, -⟩ := chat_of_pre hpre
          have hrequest : requestOf w j = some request := by
            rw [requestOf, hi]
            rfl
          have hcall : Step w (.call j env) _ := .call hi hexec
          exact ⟨request, body, hcall.request hrequest, hbody, hid.symm⟩
      · rw [Function.update_of_ne hj] at hp
        exact hold hp
  | _ => exact hold hp

theorem wellPaired_of_exclusive (d : Deployment) (w : World (server d))
    (h : Reachable (machine (server d)) exclusive w) : WellPaired w := by
  intro id session hs hoff
  refine (orderly h).rest id session hs fun i ids hp => hoff ?_
  obtain ⟨request, body, hrequest, hbody, hid⟩ := pending_chat h hp
  obtain ⟨⟨_, rest⟩, hi, rfl⟩ := Option.map_eq_some_iff.mp hrequest
  change pendingOf i w.events = _ at hp
  cases rest with
  | none =>
      rw [pending_dropped h hi] at hp
      cases hp
  | some p =>
      cases p with
      | done _ =>
          have hpost : pendingOf i w.events = none :=
            follows (serve_conduct d) (sound exclusive) h i _ _ hi
          rw [hpost] at hp
          cases hp
      | call op rest => exact ⟨i, _, op, body, World.about_of_call hi, hbody, hid⟩

end

/-! ## Two chats -/

section
variable {d : Deployment}

/-- The guard, computed. -/
def alone (w : World (server d)) : Label (server d) → Bool
  | .call i _ =>
      match w.about i with
      | some (_, .appendMessages _ _ (_ :: _)) =>
          w.events.all fun e => e.task == i || (pendingOf e.task w.events).isNone
      | _ => true
  | .drop i => (pendingOf i w.events).isNone
  | _ => true

theorem exclusive_of_alone (w : World (server d)) (a : Label (server d)) (h : alone w a = true) :
    exclusive w a := by
  cases a with
  | call i env =>
      intro request id author messages habout hne j ids hj hp
      obtain ⟨e, he, rfl⟩ : ∃ e ∈ w.events, e.task = j := by
        by_contra hnone
        have hfresh : pendingOf j w.events = none :=
          track_fresh fun e he hj => hnone ⟨e, he, hj⟩
        rw [hfresh] at hp
        cases hp
      cases messages with
      | nil => exact hne rfl
      | cons m messages =>
          simp only [alone, habout] at h
          have hnone := List.all_eq_true.mp h e he
          simp [hj, hp] at hnone
  | drop i => simpa [alone, exclusive] using h
  | _ => trivial

/-- No request below `n` is in progress, and the transcript of session 1 has
this many entries. -/
def quiet (n size : ℕ) (w : World (server d)) : Bool :=
  ((List.range n).all fun i => (w.about i).isNone) &&
    (w.shared.sessions 1).any fun session => session.transcript.length == size

end

/-- A chat whose one tool use is answered before the upstream fails. -/
def answeredChat : List (Label (server keyedLaunch)) :=
  handshakeRun 0 "a" [.aiProviderCall, .excelCom] ++ sessionRun 1 "a" 1 none ++
    chatRun 2 "a" 1 20 (asksFor "excel_workbooks" (.obj [])) ++ calls 2 8 {}

theorem wellPaired_answeredChat : ∃ w, Reachable (machine (server keyedLaunch)) exclusive w ∧
    quiet 3 3 w = true ∧ WellPaired w := by
  obtain ⟨w, hw, ht⟩ := replay_reaches (machine (server keyedLaunch)) exclusive alone answeredChat
    (quiet 3 3) exclusive_of_alone (by decide +kernel)
  exact ⟨w, hw, ht, wellPaired_of_exclusive keyedLaunch w hw⟩

/-- A chat dropped while the user is asked about its tool. -/
def droppedChat : List (Label (server keyedLaunch)) :=
  handshakeRun 0 "a" [.aiProviderCall, .aiExecPython] ++ sessionRun 1 "a" 1 none ++
    chatRun 2 "a" 1 18 (asksFor "run_python" (.obj [])) ++ [.drop 2]

/-- What it leaves behind. -/
def asked (w : World (server keyedLaunch)) : Bool :=
  quiet 3 2 w && (w.shared.sessions 1).any fun session =>
    match session.transcript with
    | [_, entry] => (asks entry).isSome
    | _ => false

theorem not_wellPaired_of_asked {w : World (server keyedLaunch)}
    (habove : ∀ i, 3 ≤ i → w.tasks i = none) (h : asked w = true) : ¬ WellPaired w := by
  intro hpaired
  obtain ⟨hquiet, hasked⟩ := Bool.and_eq_true_iff.mp h
  obtain ⟨hbelow, -⟩ := Bool.and_eq_true_iff.mp hquiet
  have hoff : ¬ ChatOn w 1 := by
    rintro ⟨i, request, op, body, habout, -⟩
    by_cases hi : i < 3
    · have hnone := List.all_eq_true.mp hbelow i (List.mem_range.mpr hi)
      rw [habout] at hnone
      cases hnone
    · rw [World.about, habove i (by omega)] at habout
      cases habout
  obtain ⟨session, hs, hlast⟩ := (Option.any_eq_true _ _).mp hasked
  have hentries := hpaired 1 session hs hoff
  split at hlast
  · next first entry htranscript =>
      obtain ⟨ids, hids⟩ := Option.isSome_iff_exists.mp hlast
      obtain ⟨t, rest, hnil, -⟩ := hentries [first] entry [] ids htranscript hids
      cases hnil
  · cases hlast

theorem not_wellPaired_droppedChat :
    ∃ w, Reachable (machine (server keyedLaunch)) anyStep w ∧ ¬ WellPaired w := by
  obtain ⟨w, hw, ht⟩ := replay_reaches (machine (server keyedLaunch))
    (fun w a => arrivesBelow 3 w a = true) (arrivesBelow 3) droppedChat asked (fun _ _ h => h)
    (by decide +kernel)
  exact ⟨w, hw.unguarded, not_wellPaired_of_asked (fun i hi => tasks_above hw hi) ht⟩

end Xlpod.TranscriptPairing
