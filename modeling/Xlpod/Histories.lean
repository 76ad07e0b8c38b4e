import Xlpod.Provenance

/-!
# What a history answer recalls

A session is opened empty, and from then on its transcript is every block that
an append was answered `ok` for, in the order of the appends. A history answer
is the transcript at one instant of the request's own life: nothing is lost,
repeated or changed, and two answers never disagree on what they both contain.
-/
namespace Xlpod.Histories
open Xlpod.ApiErrors Xlpod.Auth Xlpod.AiTypes Xlpod.GuardedRuns Xlpod.Programs Xlpod.Interleaving
open Xlpod.SessionStores Xlpod.ServerState Xlpod.ServerCalls Xlpod.Routes Xlpod.Server
open Xlpod.Footprints Xlpod.Serving Xlpod.Provenance

/-! ## Appended blocks -/

/-- The block this call added to the session. -/
def block (id : Uuid) : (op : Op) → op.Reply → List ChatMessage
  | .appendMessages id' _ messages, .ok _ => if id' = id then messages else []
  | _, _ => []

section
variable {d : Deployment}

/-- All blocks of the session, the oldest first. -/
def appended (id : Uuid) : List (Event (server d)) → List ChatMessage
  | [] => []
  | e :: es => appended id es ++ block id e.op e.reply

theorem appended_append (id : Uuid) (later earlier : List (Event (server d))) :
    appended id (later ++ earlier) = appended id earlier ++ appended id later := by
  induction later with
  | nil => simp [appended]
  | cons e es ih => rw [List.cons_append, appended, ih, List.append_assoc, appended]

/-- The request asks for the history of this session. -/
def AsksHistory (d : Deployment) (request : Request) (id : Uuid) : Prop :=
  ∃ text, inputFor request .aiSessionHistory = some text ∧ d.parseUuid text = some id

/-- The answer is the transcript at the request's own read. -/
def Recalls (id : Uuid) (e : Event (server d)) (before : List (Event (server d)))
    (messages : List ChatMessage) : Prop :=
  ∃ between l earlier, before = between ++ l :: earlier ∧ l.task = e.task ∧
    l.op = .getSession id ∧ messages = appended id earlier

/-- The history answers of a run, each with the calls before it. -/
def Answers (w : World (server d)) (id : Uuid) (e : Event (server d))
    (before : List (Event (server d))) (messages : List ChatMessage) : Prop :=
  ∃ after response text, w.events = after ++ e :: before ∧ AsksHistory d e.request id ∧
    e.op = .respond response ∧ response.body = .history text messages

structure Linearized (w : World (server d)) : Prop where
  recalls : ∀ id e before messages, Answers w id e before messages → Recalls id e before messages
  agree : ∀ id e before messages e' before' messages', Answers w id e before messages →
    Answers w id e' before' messages' → messages <+: messages' ∨ messages' <+: messages
  later : ∀ id e before messages e' before' messages', Answers w id e before messages →
    Answers w id e' before' messages' → (∃ between, before' = between ++ e :: before ∧
      ∀ l ∈ before, l.task ≠ e'.task) → messages <+: messages'

end

/-! ## The protocol -/

/-- The session a request last found, and the id it asked for. -/
abbrev Found := Option (Uuid × Session)

def note (found : Found) : (op : Op) → op.Reply → Found
  | .getSession id, .ok session => some (id, session)
  | _, _ => found

def conduct (d : Deployment) (request : Request) : Contract api Found where
  pre found op :=
    match op with
    | .respond response => ∀ id text messages, AsksHistory d request id →
        response.body = .history text messages →
          ∃ session, found = some (id, session) ∧ messages = session.messages
    | _ => True
  fact _ _ _ := True
  next := note

def protocol (d : Deployment) : Protocol (server d) Found where
  contract := conduct d
  start _ := none
  post _ _ := True

theorem sound (d : Deployment) (guard : World (server d) → Label (server d) → Prop) :
    Sound (protocol d) guard :=
  fun _ _ _ _ _ _ _ _ _ _ _ _ => trivial

section
variable {d : Deployment} {request : Request} {found : Found}

theorem ignores_edge : Ignores (conduct d request) quietOps := by
  intro found op ho
  cases op <;> first | exact ho.elim | exact ⟨trivial, fun _ => rfl⟩

/-- A history in the answer is that of the session the handler found. -/
theorem aiSessionHistory_conduct {text : String} {id : Uuid} (hid : d.parseUuid text = some id) :
    Meets (conduct d request) (Routes.aiSessionHistory d.parseUuid text).run found
      fun found' x => ∀ shown messages, bodyOf x = .history shown messages →
        ∃ session, found' = some (id, session) ∧ messages = session.messages := by
  simp only [Routes.aiSessionHistory, hid, okOr]
  refine ⟨trivial, fun r _ => ?_⟩
  cases r with
  | error e =>
      intro shown messages hbody
      cases hbody
  | ok session =>
      intro shown messages hbody
      cases hbody
      exact ⟨session, rfl, rfl⟩

theorem serve_conduct (d : Deployment) (request : Request) :
    Meets (conduct d request) ((server d).serve request) none fun _ _ => True := by
  by_cases hasks : ∃ id, AsksHistory d request id
  · obtain ⟨id, text, hinput, hid⟩ := hasks
    apply serve_meets_of (R := fun _ => True) (P := fun body => ∀ shown messages,
      body ≠ .history shown messages) (Q := fun found body => ∀ shown messages,
        body = .history shown messages →
          ∃ session, found = some (id, session) ∧ messages = session.messages)
    · constructor <;> intros <;> simp
    · exact ignores_edge
    · intro found response hbody
      refine ⟨?_, fun _ => trivial⟩
      rintro id' shown messages ⟨text', hinput', hid'⟩ hshown
      rw [hinput, Option.some.injEq] at hinput'
      rw [← hinput', hid, Option.some.injEq] at hid'
      rw [← hid']
      exact hbody shown messages hshown
    · exact fun body hnot shown messages hbody => absurd hbody (hnot shown messages)
    · intro token _
      exact ⟨trivial, fun reply _ body hnot shown messages hbody => absurd hbody (hnot shown messages)⟩
    · intro r input hinput' haccess
      cases route_unique hinput hinput'
      exact absurd rfl (haccess (some .aiProviderCall))
    · intro r need input token record hinput' _ _ _ _
      cases route_unique hinput hinput'
      rw [hinput, Option.some.injEq] at hinput'
      subst hinput'
      exact aiSessionHistory_conduct hid
  · refine meets_free (fun found op => ?_) _ _
    cases op with
    | respond response => exact fun id text messages hid => absurd ⟨id, hid⟩ hasks
    | _ => trivial

end

/-! ## Transcripts -/

/-- The stored transcript is what was appended, and nothing was before the session. -/
def Kept (events : List ChatMessage) : Option Session → Prop
  | none => events = []
  | some session => session.messages = events

theorem kept_stored {store store' : SessionStore} {op : Op} {r : op.Reply}
    (h : Stored store op r store') {id : Uuid} {messages : List ChatMessage}
    (hk : Kept messages (store id)) : Kept (messages ++ block id op r) (store' id) := by
  have hsame {block : List ChatMessage} {x : Option Session} (hb : block = [])
      (hx : Kept messages x) : Kept (messages ++ block) x := by
    rw [hb, List.append_nil]
    exact hx
  cases h with
  | @opened _ _ _ _ _ new hfresh hempty =>
      refine hsame rfl ?_
      by_cases hid : id = new.id
      · subst hid
        rw [hfresh] at hk
        rw [SessionStore.insert, Function.update_self, Kept, Session.messages, hempty]
        exact hk.symm
      · rw [SessionStore.insert, Function.update_of_ne hid]
        exact hk
  | @appended id' author added session hold =>
      by_cases hid : id = id'
      · subst hid
        rw [hold] at hk
        have hblock : block id (.appendMessages id author added) (.ok ()) = added := if_pos rfl
        rw [Function.update_self, hblock, ← (hk : session.messages = messages)]
        simp [Kept, Session.messages, Function.comp_def]
      · rw [Function.update_of_ne hid]
        exact hsame (if_neg (Ne.symm hid)) hk
  | rejected _ => exact hsame rfl hk
  | kept hquiet =>
      refine hsame ?_ hk
      cases op with
      | appendMessages => cases hquiet
      | _ => rfl

section
variable {d : Deployment} {guard : World (server d) → Label (server d) → Prop}
  {w : World (server d)} {id : Uuid} {e e' : Event (server d)}
  {before before' : List (Event (server d))} {messages messages' : List ChatMessage}

theorem kept_of_reachable (h : Reachable (machine (server d)) guard w) (id : Uuid) :
    Kept (appended id w.events) (w.shared.sessions id) := by
  refine h.invariant
    (P := fun w : World (server d) => Kept (appended id w.events) (w.shared.sessions id)) ?_
      fun w a v _ hw _ hn => ?_
  · rfl
  cases step_of_next hn with
  | call hi hexec => exact kept_stored (stored_of_exec hexec) hw
  | _ => exact hw

theorem recalls_of_answers (h : Reachable (machine (server d)) guard w)
    (ha : Answers w id e before messages) : Recalls id e before messages := by
  obtain ⟨after, response, text, he, hasks, hop, hbody⟩ := ha
  obtain ⟨v, env, rest, s, hv, rfl, -⟩ := reachable_event h he
  have hpre : (conduct d e.request).pre (track note none e.task v.events) e.op :=
    obeyed (serve_conduct d) (sound d guard) h after e v.events he
  rw [hop] at hpre
  obtain ⟨session, hfound, hmessages⟩ := hpre id text messages hasks hbody
  obtain ⟨between, l, earlier, hsplit, htask, hold, hnew⟩ :=
    track_origin (P := fun found => found = some (id, session)) (by simp) hfound
  obtain ⟨u, env', rest', s', hu, rfl, hshared, -, -, hexec⟩ := reachable_event hv hsplit
  obtain ⟨task, request, op, reply, shared⟩ := l
  cases op with
  | getSession id' =>
      simp only [exec, Option.some.injEq, Prod.mk.injEq] at hexec
      cases reply with
      | error error => exact absurd hnew hold
      | ok found =>
          cases hnew
          have hstored := SessionStore.get_ok.mp hexec.1
          have hkept := kept_of_reachable hu id
          rw [hshared, hstored] at hkept
          exact ⟨between, _, u.events, hsplit, htask, rfl, hmessages.trans hkept⟩
  | _ => exact absurd hnew hold

/-- What was recalled at a read is a prefix of what is recalled at a later one. -/
theorem prefix_appended (id : Uuid) {between earlier : List (Event (server d))} :
    appended id earlier <+: appended id (between ++ earlier) := by
  rw [appended_append]
  exact List.prefix_append _ _

theorem recalls_suffix (he : ∃ after, w.events = after ++ e :: before)
    (hr : Recalls id e before messages) :
    ∃ earlier, earlier <:+ w.events ∧ messages = appended id earlier := by
  obtain ⟨after, he⟩ := he
  obtain ⟨between, l, earlier, rfl, -, -, hmessages⟩ := hr
  exact ⟨earlier, ⟨after ++ e :: between ++ [l], by simp [he]⟩, hmessages⟩

/-- A call that is not among the first ones comes after them. -/
theorem read_after {l : Event (server d)} {between b' earlier : List (Event (server d))}
    (h : between ++ e :: before = b' ++ l :: earlier) (hne : l ≠ e) (hnot : l ∉ before) :
    ∃ c, earlier = c ++ e :: before := by
  rcases List.append_eq_append_iff.mp h with ⟨c, -, hc⟩ | ⟨c, -, hc⟩
  · cases c with
    | nil =>
        rw [List.nil_append, List.cons.injEq] at hc
        exact absurd hc.1.symm hne
    | cons x c =>
        rw [List.cons_append, List.cons.injEq] at hc
        exact absurd (by simp [hc.2]) hnot
  · cases c with
    | nil =>
        rw [List.nil_append, List.cons.injEq] at hc
        exact absurd hc.1 hne
    | cons x c =>
        rw [List.cons_append, List.cons.injEq] at hc
        exact ⟨c, hc.2⟩

theorem linearized_of_reachable (h : Reachable (machine (server d)) guard w) : Linearized w := by
  constructor
  · exact fun _ _ _ _ ha => recalls_of_answers h ha
  · intro id e before messages e' before' messages' ha ha'
    obtain ⟨s, hs, rfl⟩ := recalls_suffix ⟨_, ha.choose_spec.choose_spec.choose_spec.1⟩
      (recalls_of_answers h ha)
    obtain ⟨s', hs', rfl⟩ := recalls_suffix ⟨_, ha'.choose_spec.choose_spec.choose_spec.1⟩
      (recalls_of_answers h ha')
    rcases List.suffix_or_suffix_of_suffix hs hs' with ⟨t, rfl⟩ | ⟨t, rfl⟩
    · exact .inl (prefix_appended id)
    · exact .inr (prefix_appended id)
  · rintro id e before messages e' before' messages' ha ha' ⟨between, rfl, hfresh⟩
    have hop : ∃ response, e.op = .respond response := by
      obtain ⟨-, response, -, -, -, hop, -⟩ := ha
      exact ⟨response, hop⟩
    obtain ⟨response, hop⟩ := hop
    obtain ⟨b, l, earlier, rfl, -, -, rfl⟩ := recalls_of_answers h ha
    obtain ⟨b', l', earlier', hsplit, htask, hread, rfl⟩ := recalls_of_answers h ha'
    obtain ⟨c, rfl⟩ := read_after hsplit (fun heq => by rw [heq, hop] at hread; cases hread)
      fun hmem => hfresh l' hmem htask
    have hlater : c ++ e :: (b ++ l :: earlier) = (c ++ e :: (b ++ [l])) ++ earlier := by simp
    rw [hlater]
    exact prefix_appended id

end

theorem histories_linearized (d : Deployment) (w : World (server d))
    (h : Reachable (machine (server d)) anyStep w) : Linearized w :=
  linearized_of_reachable h

/-! ## One message -/

/-- A chat whose provider has not answered yet, and then the history of its session. -/
def askedOnce : List (Label (server keyedLaunch)) :=
  handshakeRun 0 "a" [.aiProviderCall] ++ sessionRun 1 "a" 1 none ++ chatRun 2 "a" 1 7 {} ++
    .arrive 3 (addinRequest .aiSessionHistory ("/ai/session/" ++ uuidText 1 ++ "/history") (some "a")
      (uuidText 1)) :: calls 3 6 {}

/-- The last call answers with a history of one message. -/
def oneRecalled (w : World (server keyedLaunch)) : Bool :=
  match w.events with
  | [] => false
  | e :: _ =>
      match inputFor e.request .aiSessionHistory, e.op with
      | some text, .respond ⟨_, _, .history _ messages⟩ =>
          keyedLaunch.parseUuid text = some 1 && messages.length == 1
      | _, _ => false

theorem answers_of_oneRecalled {w : World (server keyedLaunch)} (h : oneRecalled w = true) :
    ∃ e before m, Answers w 1 e before [m] := by
  unfold oneRecalled at h
  split at h
  · cases h
  · next e before hevents =>
      split at h
      · next text status tokenId shown messages hinput hop =>
          rw [Bool.and_eq_true, decide_eq_true_eq, beq_iff_eq] at h
          obtain ⟨m, rfl⟩ := List.length_eq_one_iff.mp h.2
          exact ⟨e, before, m, [], _, shown, hevents, ⟨text, hinput, h.1⟩, hop, rfl⟩
      · cases h

theorem linearized_askedOnce : ∃ w e before m,
    Reachable (machine (server keyedLaunch)) anyStep w ∧ Answers w 1 e before [m] ∧
      Linearized w := by
  obtain ⟨w, hw, ht⟩ := replay_reaches (machine (server keyedLaunch)) anyStep unchecked askedOnce
    oneRecalled (fun _ _ _ => trivial) (by decide +kernel)
  obtain ⟨e, before, m, ha⟩ := answers_of_oneRecalled ht
  exact ⟨w, e, before, m, hw, ha, histories_linearized keyedLaunch w hw⟩

end Xlpod.Histories
