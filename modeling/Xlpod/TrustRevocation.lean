import Xlpod.ToolGates

/-!
# Trust windows and their revocation

Nothing revokes a trust window: after a chat on its session has failed
upstream, or after the token that opened the session has expired, it lives on
until it runs out. So the promise holds exactly while no such moment meets a
session that is exposed, by a live window or by an approved one that is about
to open.
-/
namespace Xlpod.TrustRevocation
open Xlpod.ApiErrors Xlpod.Auth Xlpod.AiTypes Xlpod.BundlePayload Xlpod.GuardedRuns Xlpod.Programs
open Xlpod.Interleaving Xlpod.SessionStores Xlpod.ServerState Xlpod.ServerCalls Xlpod.ToolDispatch
open Xlpod.ChatRoute Xlpod.Routes Xlpod.Server Xlpod.Footprints Xlpod.Serving Xlpod.Provenance
open SessionEscalation (recordOf)
open OwnConsent (answer)
open ToolGates (LastWord fetched progressOf)

/-! ## What happened on a session -/

/-- The answer says that the provider failed. -/
def isUpstream : Op → Bool
  | .respond ⟨_, _, .error .aiProviderUpstream⟩ => true
  | _ => false

/-- The session and whether the user has agreed to a window for it. -/
def note (seen : Option (Uuid × Bool)) : (op : Op) → op.Reply → Option (Uuid × Bool)
  | .getSession id, .ok _ => some (id, false)
  | .consent _, true => seen.map fun s => (s.1, true)
  | .openWindow .., _ => none
  | _, _ => seen

section
variable {d : Deployment}

/-- The session of a chat that ends in an upstream failure here. -/
def failedOn (e : Event (server d)) : Option Uuid :=
  if isUpstream e.op then (inputFor e.request .aiChat).map ChatRequest.sessionId else none

/-- The session for which the user approves a new window here. -/
def approvedFor (e : Event (server d)) : Option Uuid :=
  if (answer e.op e.reply).any (·.2) then
    (inputFor e.request .aiConsentWindow).bind fun body =>
      d.parseUuid (OpenTrustWindowRequest.sessionId body)
  else none

/-- The user has approved a window for `id` after every upstream failure on it,
and after the expiry of the token that opened it if that is past. -/
structure Fresh (events : List (Event (server d))) (now : ℕ) (id : Uuid) : Prop where
  failure : ∀ after f before, events = after ++ f :: before → failedOn f = some id →
    ∃ a ∈ after, approvedFor a = some id
  expiry : ∀ after o before first record, events = after ++ o :: before →
    openedBy o = some first → first.id = id → recordOf o.task before = some record →
      record.expires ≤ now → ∃ a ∈ events, approvedFor a = some id ∧ record.expires ≤ a.before.now

def Covered (s : AppState) (id : Uuid) : Prop := ∃ tool, s.windows.covers s.now id tool = true

/-- A session is covered only by windows approved since the last reason to
revoke them, and a mutating tool runs on it only after a dialog of its own or
under such a window. -/
structure Revoked (w : World (server d)) : Prop where
  windows : ∀ id, Covered w.shared id → Fresh w.events w.shared.now id
  tools : Throughout (fun e before => ∀ id tool, e.op = Op.dispatched id tool →
    ∀ spec ∈ builtinTools, spec.name = tool → spec.mutates = true →
      ∃ c earlier, LastWord e.task before c earlier ∧
        ((∃ ask, answer c.op c.reply = some (ask, true)) ∨
          c.op = Op.covers id tool ∧ Fresh earlier c.before.now id)) w.events

def bookedOf (i : ℕ) (events : List (Event (server d))) : Option (Uuid × Bool) :=
  track note none i events

/-- A request has the user's yes to a window for `id` and has yet to open it. -/
def Awaited (w : World (server d)) (id : Uuid) : Prop :=
  ∃ i request, requestOf w i = some request ∧ (inputFor request .aiConsentWindow).isSome ∧
    bookedOf i w.events = some (id, true)

def Exposed (w : World (server d)) (id : Uuid) : Prop := Covered w.shared id ∨ Awaited w id

/-- No chat fails upstream on an exposed session, and no time passes in which
the token that opened an exposed session expires and that leaves it exposed. -/
def timely (w : World (server d)) : Label (server d) → Prop
  | .call i _ => ∀ request op body, w.about i = some (request, op) → isUpstream op = true →
      inputFor request .aiChat = some body → ¬ Exposed w body.sessionId
  | .elapse nanos => ∀ after o before first record, w.events = after ++ o :: before →
      openedBy o = some first → recordOf o.task before = some record →
        w.shared.now < record.expires → record.expires ≤ w.shared.now + nanos →
          ¬ Exposed { w with shared := (server d).elapse w.shared nanos } first.id
  | _ => True

end

/-! ## The protocol -/

/-- A window request asks for a session it has found, and opens what was approved. -/
def Booking (d : Deployment) (body : OpenTrustWindowRequest) (seen : Option (Uuid × Bool)) :
    Op → Prop
  | .consent _ => ∃ id, d.parseUuid body.sessionId = some id ∧ seen = some (id, false)
  | .openWindow id _ _ => seen = some (id, true)
  | _ => True

def Closed : Op → Prop
  | .openWindow .. => False
  | _ => True

def conduct (d : Deployment) (request : Request) : Contract api (Option (Uuid × Bool)) where
  pre seen op :=
    match inputFor request .aiConsentWindow with
    | some body => Booking d body seen op
    | none => Closed op
  fact _ _ _ := True
  next := note

def protocol (d : Deployment) : Protocol (server d) (Option (Uuid × Bool)) where
  contract := conduct d
  start _ := none
  post _ _ := True

def freeOps : Op → Prop
  | .getSession _ | .consent _ | .openWindow .. => False
  | _ => True

section
variable {d : Deployment} {request : Request} {seen : Option (Uuid × Bool)}

theorem ignores_free : Ignores (conduct d request) freeOps := by
  intro seen op ho
  constructor
  · unfold conduct
    cases inputFor request .aiConsentWindow <;> cases op <;> first | exact ho.elim | trivial
  · intro r
    cases op <;> first | exact ho.elim | rfl

theorem booking_of {op : Op} {body : OpenTrustWindowRequest}
    (hinput : inputFor request .aiConsentWindow = some body) :
    (conduct d request).pre seen op ↔ Booking d body seen op := by
  unfold conduct
  rw [hinput]

theorem closed_of {op : Op} (hinput : inputFor request .aiConsentWindow = none) :
    (conduct d request).pre seen op ↔ Closed op := by
  unfold conduct
  rw [hinput]

theorem aiOpenTrustWindow_conduct {body : OpenTrustWindowRequest}
    (hinput : inputFor request .aiConsentWindow = some body) :
    Meets (conduct d request) (aiOpenTrustWindow d.parseUuid body).run none fun _ _ => True := by
  unfold aiOpenTrustWindow
  simp only [meets_exceptIte, meets_exceptBind, meets_throw, meets_lift, meets_okOr, meets_orThrow,
    onResult_error]
  refine ⟨fun id hid => ⟨(booking_of hinput).mpr trivial, fun found _ => ?_⟩, fun _ => trivial⟩
  cases found with
  | error e => trivial
  | ok session =>
      refine ⟨(booking_of hinput).mpr ⟨id, hid, rfl⟩, fun approved _ => ?_⟩
      cases approved with
      | false => exact ⟨fun _ => trivial, fun h => absurd rfl h⟩
      | true =>
          exact ⟨fun _ => trivial, fun _ => ⟨(booking_of hinput).mpr rfl, fun window _ => trivial⟩⟩

end

theorem serve_conduct (d : Deployment) (request : Request) :
    Meets (conduct d request) ((server d).serve request) none fun _ _ => True := by
  apply serve_meets
  · exact ignores_free.mono fun op ho => by cases op <;> first | exact ho.elim | trivial
  · trivial
  · intro r input token hr
    by_cases hwindow : r = .aiConsentWindow
    · subst hwindow
      exact aiOpenTrustWindow_conduct hr
    · have hinput : inputFor request .aiConsentWindow = none := inputFor_ne hr (Ne.symm hwindow)
      refine (handler_uses d request.origin token r input).meets (K := fun _ => True) trivial
        (fun seen op _ ho => ?_) fun _ _ _ _ _ => trivial
      apply (closed_of hinput).mpr
      cases r with
      | aiConsentWindow => exact absurd rfl hwindow
      | _ => cases op <;> first | exact ho.elim | trivial

theorem sound (d : Deployment) (guard : World (server d) → Label (server d) → Prop) :
    Sound (protocol d) guard :=
  fun _ _ _ _ _ _ _ _ _ _ _ _ => trivial

/-! ## Runs -/

section
variable {d : Deployment} {guard : World (server d) → Label (server d) → Prop}
  {w : World (server d)} {events : List (Event (server d))} {now : ℕ} {id : Uuid}

/-- A call that neither fails on the session nor opens it changes nothing. -/
theorem Fresh.cons (h : Fresh events now id) {e : Event (server d)} (hfail : failedOn e ≠ some id)
    (hopen : ∀ first, openedBy e = some first → first.id ≠ id) : Fresh (e :: events) now id := by
  constructor
  · intro after f before he hf
    cases after with
    | nil =>
        rw [List.nil_append, List.cons.injEq] at he
        obtain ⟨rfl, -⟩ := he
        exact absurd hf hfail
    | cons e' after =>
        rw [List.cons_append, List.cons.injEq] at he
        obtain ⟨a, ha, happroved⟩ := h.failure after f before he.2 hf
        exact ⟨a, List.mem_cons_of_mem _ ha, happroved⟩
  · intro after o before first record he ho hid hrecord hexpired
    cases after with
    | nil =>
        rw [List.nil_append, List.cons.injEq] at he
        obtain ⟨rfl, -⟩ := he
        exact absurd hid (hopen first ho)
    | cons e' after =>
        rw [List.cons_append, List.cons.injEq] at he
        obtain ⟨a, ha, happroved, htime⟩ := h.expiry after o before first record he.2 ho hid hrecord
          hexpired
        exact ⟨a, List.mem_cons_of_mem _ ha, happroved, htime⟩

/-- An approval now answers for everything before it. -/
theorem fresh_of_approval {e : Event (server d)} (happroved : approvedFor e = some id)
    (hnow : e.before.now = now) (hfail : failedOn e ≠ some id) :
    Fresh (e :: events) now id := by
  constructor
  · intro after f before he hf
    cases after with
    | nil =>
        rw [List.nil_append, List.cons.injEq] at he
        obtain ⟨rfl, -⟩ := he
        exact absurd hf hfail
    | cons e' after =>
        rw [List.cons_append, List.cons.injEq] at he
        obtain ⟨rfl, -⟩ := he
        exact ⟨e, List.mem_cons_self, happroved⟩
  · intro after o before first record _ _ _ _ hexpired
    exact ⟨e, List.mem_cons_self, happroved, hnow ▸ hexpired⟩

/-! ### Exposed sessions exist -/

theorem getSession_stored {s s' : AppState} (env : Environment) {r : Except ApiError Session}
    (h : exec s env (.getSession id) = some (r, s')) {session : Session} (hr : r = .ok session) :
    s.sessions id = some session := by
  simp only [exec, Option.some.injEq, Prod.mk.injEq] at h
  exact SessionStore.get_ok.mp (h.1.trans hr)

theorem note_booked {seen : Option (Uuid × Bool)} {op : Op} {r : op.Reply} {agreed : Bool}
    (h : note seen op r = some (id, agreed)) : (∃ agreed, seen = some (id, agreed)) ∨
      op = .getSession id ∧ ∃ session, fetched op r = some session := by
  cases op with
  | getSession id' =>
      cases r with
      | error e => exact .inl ⟨agreed, h⟩
      | ok session =>
          cases h
          exact .inr ⟨rfl, session, rfl⟩
  | consent request =>
      cases r with
      | false => exact .inl ⟨agreed, h⟩
      | true =>
          obtain ⟨⟨id', agreed'⟩, hseen, heq⟩ := Option.map_eq_some_iff.mp h
          cases heq
          exact .inl ⟨agreed', hseen⟩
  | openWindow => cases h
  | _ => exact .inl ⟨agreed, h⟩

theorem booked_stored (h : Reachable (machine (server d)) guard w) {i : ℕ} {agreed : Bool}
    (hb : bookedOf i w.events = some (id, agreed)) :
    ∃ session, w.shared.sessions id = some session := by
  revert agreed
  refine h.invariant (P := fun w => ∀ {agreed}, bookedOf i w.events = some (id, agreed) →
    ∃ session, w.shared.sessions id = some session) (fun hb => by cases hb) fun w a v _ hw _ hn => ?_
  intro agreed hb
  cases step_of_next hn with
  | @call j env request op rest r s hj hexec =>
      have hkeep (hold : ∃ session, w.shared.sessions id = some session) :
          ∃ session, s.sessions id = some session := by
        obtain ⟨session, hsession⟩ := hold
        obtain ⟨current, hcurrent, -⟩ := stored_keep (stored_of_exec hexec) hsession
        exact ⟨current, hcurrent⟩
      by_cases hji : j = i
      · subst hji
        have hself : bookedOf j (⟨j, request, op, r, w.shared⟩ :: w.events) =
            note (bookedOf j w.events) op r := track_self rfl
        rcases note_booked (hself ▸ hb) with ⟨agreed', hold⟩ | ⟨rfl, session, hr⟩
        · exact hkeep (hw hold)
        · cases r with
          | error e => cases hr
          | ok session' => exact hkeep ⟨session', getSession_stored env hexec rfl⟩
      · have hother : bookedOf i (⟨j, request, op, r, w.shared⟩ :: w.events) =
            bookedOf i w.events := track_other hji
        exact hkeep (hw (hother ▸ hb))
  | _ => exact hw hb

/-- A window is opened by a request that was waiting to. -/
theorem openWindow_awaited (h : Reachable (machine (server d)) guard w) {i : ℕ} {request : Request}
    {tools : List String} {durationSecs : ℕ} {rest : TrustWindow → Program api Unit}
    (hi : w.tasks i = some ⟨request, some (.call (.openWindow id tools durationSecs) rest)⟩) :
    Awaited w id := by
  have hpre : (conduct d request).pre (bookedOf i w.events) (.openWindow id tools durationSecs) :=
    (follows (serve_conduct d) (sound d guard) h i request _ hi).1
  have hrequest : requestOf w i = some request := by
    rw [requestOf, hi]
    rfl
  cases hinput : inputFor request .aiConsentWindow with
  | none => exact ((closed_of hinput).mp hpre).elim
  | some body =>
      have hbooked := (booking_of hinput).mp hpre
      exact ⟨i, request, hrequest, Option.isSome_of_eq_some hinput, hbooked⟩

theorem exec_covered {s s' : AppState} {env : Environment} {op : Op} {r : op.Reply}
    (h : exec s env op = some (r, s')) (hc : Covered s' id) :
    Covered s id ∨ ∃ tools durationSecs, op = .openWindow id tools durationSecs := by
  obtain ⟨tool, htool⟩ := hc
  obtain ⟨window, hwindow, rfl, hlive, hmem⟩ := TrustWindowStore.covers_iff.mp htool
  rw [exec_now h] at hlive
  rcases (exec_windows h).mp hwindow with hold | hnew
  · exact .inl ⟨tool, TrustWindowStore.covers_iff.mpr ⟨window, hold, rfl, hlive, hmem⟩⟩
  · obtain ⟨tools, durationSecs, hop, -⟩ := granted_window h hnew
    exact .inr ⟨tools, durationSecs, hop⟩

theorem covered_stored (h : Reachable (machine (server d)) guard w) {window : TrustWindow}
    (hc : window ∈ w.shared.windows) :
    ∃ session, w.shared.sessions window.sessionId = some session := by
  revert hc
  refine h.invariant (P := fun w => window ∈ w.shared.windows →
    ∃ session, w.shared.sessions window.sessionId = some session)
    (fun hc => by cases hc) fun w a v hr hw _ hn => ?_
  intro hc
  cases step_of_next hn with
  | @call i env request op rest r s hi hexec =>
      have hold : ∃ session, w.shared.sessions window.sessionId = some session := by
        rcases (exec_windows hexec).mp hc with hold | hnew
        · exact hw hold
        · obtain ⟨tools, durationSecs, rfl, -⟩ := granted_window hexec hnew
          obtain ⟨i, _, -, -, hbooked⟩ := openWindow_awaited hr hi
          exact booked_stored hr hbooked
      obtain ⟨session, hsession⟩ := hold
      obtain ⟨current, hcurrent, -⟩ := stored_keep (stored_of_exec hexec) hsession
      exact ⟨current, hcurrent⟩
  | _ => exact hw hc

theorem exposed_stored (h : Reachable (machine (server d)) guard w) (he : Exposed w id) :
    ∃ session, w.shared.sessions id = some session := by
  rcases he with ⟨tool, htool⟩ | ⟨i, request, -, -, hbooked⟩
  · obtain ⟨window, hwindow, rfl, -⟩ := TrustWindowStore.covers_iff.mp htool
    exact covered_stored h hwindow
  · exact booked_stored h hbooked

/-! ### The invariant -/

/-- Whoever is exposed has been approved since the last reason to revoke. -/
def Guarded (w : World (server d)) : Prop := ∀ id, Exposed w id → Fresh w.events w.shared.now id

theorem failed_call {e : Event (server d)} (hf : failedOn e = some id) :
    isUpstream e.op = true ∧ ∃ body, inputFor e.request .aiChat = some body ∧ body.sessionId = id := by
  unfold failedOn at hf
  split at hf
  · next hup =>
      obtain ⟨body, hbody, hid⟩ := Option.map_eq_some_iff.mp hf
      exact ⟨hup, body, hbody, hid⟩
  · cases hf

theorem approved_of {e : Event (server d)} (hyes : (answer e.op e.reply).any (·.2) = true)
    {body : OpenTrustWindowRequest} (hbody : inputFor e.request .aiConsentWindow = some body)
    (hid : d.parseUuid body.sessionId = some id) : approvedFor e = some id := by
  rw [approvedFor, if_pos hyes, hbody]
  exact hid

/-- What is exposed after a call was so before, or has just been approved. -/
theorem exposed_call (h : Reachable (machine (server d)) guard w) {i : ℕ} {env : Environment}
    {request : Request} {op : Op} {rest : op.Reply → Program api Unit} {r : op.Reply} {s : AppState}
    (hi : w.tasks i = some ⟨request, some (.call op rest)⟩)
    (hexec : exec w.shared env op = some (r, s)) {v : World (server d)} (hshared : v.shared = s)
    (hevents : v.events = ⟨i, request, op, r, w.shared⟩ :: w.events)
    (hrequests : ∀ j, requestOf v j = requestOf w j) (he : Exposed v id) :
    Exposed w id ∨ approvedFor (d := d) ⟨i, request, op, r, w.shared⟩ = some id := by
  rcases he with hcovered | ⟨j, request', hrequest, hwindow, hbooked⟩
  · rw [hshared] at hcovered
    rcases exec_covered hexec hcovered with hold | ⟨tools, durationSecs, rfl⟩
    · exact .inl (.inl hold)
    · exact .inl (.inr (openWindow_awaited h hi))
  · rw [hrequests] at hrequest
    rw [hevents] at hbooked
    by_cases hij : i = j
    · subst hij
      have hself : bookedOf i (⟨i, request, op, r, w.shared⟩ :: w.events) =
          note (bookedOf i w.events) op r := track_self rfl
      rw [hself] at hbooked
      have hsame : request' = request := by
        rw [requestOf, hi] at hrequest
        cases hrequest
        rfl
      subst hsame
      obtain ⟨body, hbody⟩ := Option.isSome_iff_exists.mp hwindow
      have hpre : (conduct d request').pre (bookedOf i w.events) op :=
        (follows (serve_conduct d) (sound d guard) h i request' _ hi).1
      cases op with
      | consent ask =>
          cases r with
          | false => exact .inl (.inr ⟨i, request', hrequest, hwindow, hbooked⟩)
          | true =>
              obtain ⟨id', hid', hseen⟩ := (booking_of hbody).mp hpre
              rw [hseen] at hbooked
              cases hbooked
              exact .inr (approved_of rfl hbody hid')
      | getSession id' =>
          cases r with
          | error e => exact .inl (.inr ⟨i, request', hrequest, hwindow, hbooked⟩)
          | ok session => cases hbooked
      | openWindow => cases hbooked
      | _ => exact .inl (.inr ⟨i, request', hrequest, hwindow, hbooked⟩)
    · have hother : bookedOf j (⟨i, request, op, r, w.shared⟩ :: w.events) = bookedOf j w.events :=
        track_other hij
      rw [hother] at hbooked
      exact .inl (.inr ⟨j, request', hrequest, hwindow, hbooked⟩)

theorem guarded (h : Reachable (machine (server d)) timely w) : Guarded w := by
  refine h.invariant (P := Guarded) (fun id he => ?_) fun w a v hr hw hg hn => ?_
  · rcases he with ⟨tool, htool⟩ | ⟨i, request, hrequest, -⟩
    · cases htool
    · cases hrequest
  · intro id he
    cases step_of_next hn with
    | @call i env request op rest r s hi hexec =>
        have hcases := exposed_call hr hi hexec rfl rfl (fun j => requestOf_update hi rfl j) he
        have hnow : s.now = w.shared.now := exec_now hexec
        change Fresh (⟨i, request, op, r, w.shared⟩ :: w.events) s.now id
        rw [hnow]
        have hfail : failedOn (d := d) ⟨i, request, op, r, w.shared⟩ ≠ some id := by
          intro hf
          obtain ⟨hup, body, hbody, rfl⟩ := failed_call hf
          rcases hcases with hold | happroved
          · exact hg request op body (World.about_of_call hi) hup hbody hold
          · cases op <;> first | cases hup | cases happroved
        rcases hcases with hold | happroved
        · apply (hw id hold).cons hfail
          intro first hopened hid
          obtain ⟨session, hsession⟩ := exposed_stored hr hold
          have hnone := opened_fresh hexec hopened
          rw [hid, hsession] at hnone
          cases hnone
        · exact fresh_of_approval happroved rfl hfail
    | @arrive i request hi =>
        refine hw id ?_
        rcases he with hcovered | ⟨j, request', hrequest, hwindow, hbooked⟩
        · exact .inl hcovered
        · by_cases hj : j = i
          · subst hj
            have hnone : bookedOf j w.events = none := by
              refine track_fresh fun e he heq => ?_
              have hrecorded := reachable_recorded hr e he
              rw [heq, requestOf, hi] at hrecorded
              cases hrecorded
            change bookedOf j w.events = _ at hbooked
            rw [hnone] at hbooked
            cases hbooked
          · rw [requestOf, setTask_other w _ hj] at hrequest
            exact .inr ⟨j, request', hrequest, hwindow, hbooked⟩
    | @drop i request op rest hi ha =>
        refine hw id ?_
        rcases he with hcovered | ⟨j, request', hrequest, hwindow, hbooked⟩
        · exact .inl hcovered
        · rw [requestOf_update hi rfl j] at hrequest
          exact .inr ⟨j, request', hrequest, hwindow, hbooked⟩
    | @elapse nanos =>
        have hold : Exposed w id := by
          rcases he with ⟨tool, htool⟩ | hawaited
          · obtain ⟨window, hwindow, rfl, hlive, hmem⟩ := TrustWindowStore.covers_iff.mp htool
            have hearlier := TrustWindow.live_anti (Nat.le_add_right _ _) hlive
            exact .inl ⟨tool, TrustWindowStore.covers_iff.mpr ⟨window, hwindow, rfl, hearlier, hmem⟩⟩
          · exact .inr hawaited
        have hfresh := hw id hold
        refine ⟨hfresh.failure, fun after o before first record heq ho hid hrecord hexpired => ?_⟩
        rcases Nat.lt_or_ge w.shared.now record.expires with hlater | hpast
        · have hclosed := hg after o before first record heq ho hrecord hlater hexpired
          rw [hid] at hclosed
          exact absurd he hclosed
        · exact hfresh.expiry after o before first record heq ho hid hrecord hpast

/-! ### The tools -/

theorem toolNames_nodup : (builtinTools.map ToolSpec.name).Nodup := by decide

theorem tool_of_name {spec spec' : ToolSpec} (h : spec ∈ builtinTools) (h' : spec' ∈ builtinTools)
    (hname : spec.name = spec'.name) : spec = spec' :=
  List.inj_on_of_nodup_map toolNames_nodup h h' hname

theorem revoked_of_timely (d : Deployment) (w : World (server d))
    (h : Reachable (machine (server d)) timely w) : Revoked w := by
  constructor
  · intro id hc
    exact guarded h id (.inl hc)
  · intro after e before he id tool hop spec hspec hname hmutates
    obtain ⟨v, env, rest, s, hv, rfl, -⟩ := reachable_event h he
    obtain ⟨body, spec', first, session, -, hspec', hname', rfl, -, -, -, hopens⟩ :=
      ToolGates.started h he hop
    have hsame := tool_of_name hspec' hspec (hname'.trans hname.symm)
    subst hsame
    cases hgate : (progressOf e.task v.events).gate with
    | shut =>
        rw [hgate] at hopens
        rw [show spec'.mutates = false from hopens] at hmutates
        cases hmutates
    | user ask =>
        obtain ⟨c, earlier, hlast, hverdict⟩ := ToolGates.last_word (by simp) hgate
        exact ⟨c, earlier, hlast, .inl ⟨ask, ToolGates.verdict_user hverdict⟩⟩
    | window id tool' =>
        rw [hgate] at hopens
        obtain ⟨-, -, rfl, rfl⟩ := hopens
        obtain ⟨c, earlier, hlast, hverdict⟩ := ToolGates.last_word (by simp) hgate
        obtain ⟨between, hsplit, hquiet⟩ := hlast
        obtain ⟨u, env', rest', s', hu, rfl, hshared, -, -, hexec⟩ := reachable_event hv hsplit
        obtain ⟨hcop, hcovers⟩ := ToolGates.verdict_window hexec hverdict
        rw [hname'] at hcop
        have hcovered : Covered u.shared first.id := ⟨spec'.name, hshared ▸ hcovers⟩
        have hfresh := guarded hu first.id (.inl hcovered)
        rw [hshared] at hfresh
        exact ⟨c, u.events, ⟨between, hsplit, hquiet⟩, .inr ⟨hcop, hfresh⟩⟩

end

/-! ## A chat fails while the window is open -/

section
variable {d : Deployment} {w : World (server d)} {id : Uuid}

/-- No window of the session is live, and no request is about to open one. -/
def closed (w : World (server d)) (id : Uuid) : Bool :=
  (w.shared.windows.all fun window => window.sessionId != id || !window.live w.shared.now) &&
    w.events.all fun e => bookedOf e.task w.events != some (id, true)

theorem not_exposed_of_closed (h : closed w id = true) : ¬ Exposed w id := by
  obtain ⟨hwindows, hbookings⟩ := Bool.and_eq_true_iff.mp h
  rintro (⟨tool, htool⟩ | ⟨i, request, -, -, hbooked⟩)
  · obtain ⟨window, hwindow, rfl, hlive, -⟩ := TrustWindowStore.covers_iff.mp htool
    have hclosed := List.all_eq_true.mp hwindows window hwindow
    simp [hlive] at hclosed
  · obtain ⟨after, e, before, he, rfl, -⟩ :=
      track_origin (P := fun seen => seen = some (id, true)) (by simp) hbooked
    have hfree := List.all_eq_true.mp hbookings e (by simp [he])
    simp [hbooked] at hfree

/-- No token that opened a session expires between the two times. -/
def outlasts (now later : ℕ) : List (Event (server d)) → Bool
  | [] => true
  | o :: before => outlasts now later before && ((openedBy o).isNone ||
      (recordOf o.task before).all fun record =>
        !(decide (now < record.expires) && decide (record.expires ≤ later)))

theorem outlasts_spec {now later : ℕ} {after before events : List (Event (server d))}
    {o : Event (server d)} (h : outlasts now later events = true)
    (he : events = after ++ o :: before) {first : Session} {record : TokenRecord}
    (ho : openedBy o = some first) (hrecord : recordOf o.task before = some record)
    (hlive : now < record.expires) : later < record.expires := by
  induction after generalizing events with
  | nil =>
      subst he
      have htest := (Bool.and_eq_true_iff.mp h).2
      simpa [ho, hrecord, hlive] using htest
  | cons e after ih =>
      subst he
      exact ih (Bool.and_eq_true_iff.mp h).1 rfl

/-- The guard, computed, where no time passes in which a token expires. -/
def prompt (w : World (server d)) : Label (server d) → Bool
  | .call i _ =>
      match w.about i with
      | some (request, op) => !isUpstream op ||
          (inputFor request .aiChat).all fun body => closed w (ChatRequest.sessionId body)
      | none => true
  | .elapse nanos => outlasts w.shared.now (w.shared.now + nanos) w.events
  | _ => true

theorem timely_of_prompt (w : World (server d)) (a : Label (server d)) (h : prompt w a = true) :
    timely w a := by
  cases a with
  | call i env =>
      intro request op body habout hup hbody
      apply not_exposed_of_closed
      simp only [prompt, habout, hup, hbody, Bool.not_true, Bool.false_or] at h
      exact h
  | elapse nanos =>
      intro after o before first record he ho hrecord hlive hexpired
      have hlater := outlasts_spec h he ho hrecord hlive
      omega
  | _ => trivial

/-- A chat on session 1 has failed upstream since the user's last yes. -/
def failing : List (Event (server d)) → Bool
  | [] => false
  | e :: before => approvedFor e != some 1 && (failedOn e == some 1 || failing before)

theorem not_fresh_of_failing {events : List (Event (server d))} (h : failing events = true) (now : ℕ) :
    ¬ Fresh events now 1 := by
  intro hfresh
  have hsplit : ∃ after f before, events = after ++ f :: before ∧ failedOn f = some 1 ∧
      ∀ a ∈ after, approvedFor a ≠ some 1 := by
    clear hfresh
    induction events with
    | nil => cases h
    | cons e es ih =>
        simp only [failing, Bool.and_eq_true, Bool.or_eq_true, bne_iff_ne, beq_iff_eq] at h
        rcases h.2 with hfailed | hrest
        · exact ⟨[], e, es, rfl, hfailed, by simp⟩
        · obtain ⟨after, f, before, rfl, hf, hafter⟩ := ih hrest
          refine ⟨e :: after, f, before, rfl, hf, fun a ha => ?_⟩
          rcases List.mem_cons.mp ha with rfl | ha
          · exact h.1
          · exact hafter a ha
  obtain ⟨after, f, before, he, hf, hafter⟩ := hsplit
  obtain ⟨a, ha, happroved⟩ := hfresh.failure after f before he hf
  exact hafter a ha happroved

end

/-- The window has run out when a chat fails. -/
def lateFailure : List (Label (server keyedLaunch)) :=
  ToolGates.promptWindow ++ [.elapse (20 * nanosPerSec)] ++ chatRun 4 "a" 1 16 {}

theorem revoked_lateFailure : ∃ w, Reachable (machine (server keyedLaunch)) timely w ∧
    failing w.events = true ∧ Revoked w := by
  obtain ⟨w, hw, ht⟩ := replay_reaches (machine (server keyedLaunch)) timely prompt lateFailure
    (fun w => failing w.events) timely_of_prompt (by decide +kernel)
  exact ⟨w, hw, ht, revoked_of_timely keyedLaunch w hw⟩

/-- The window outlives a failed chat. -/
def earlyFailure : List (Label (server keyedLaunch)) :=
  ToolGates.approvedWindow ++ calls 2 7 { uuid := 7 } ++ chatRun 3 "a" 1 16 {}

theorem not_revoked_earlyFailure :
    ∃ w, Reachable (machine (server keyedLaunch)) anyStep w ∧ ¬ Revoked w := by
  obtain ⟨w, hw, ht⟩ := replay_reaches (machine (server keyedLaunch)) anyStep unchecked earlyFailure
    (fun w => w.shared.windows.covers w.shared.now 1 "run_python" && failing w.events)
    (fun _ _ _ => trivial) (by decide +kernel)
  obtain ⟨hcovers, hfailing⟩ := Bool.and_eq_true_iff.mp ht
  refine ⟨w, hw, fun hrevoked => ?_⟩
  exact not_fresh_of_failing hfailing _ (hrevoked.windows 1 ⟨"run_python", hcovers⟩)

end Xlpod.TrustRevocation
