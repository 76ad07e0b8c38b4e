import Xlpod.OwnConsent
import Xlpod.SessionEscalation

/-!
# Where tokens, sessions and windows come from

Nothing is in a store that no call put there: a token was issued to a
handshake, a session opened for an authenticated token with that token's
scopes and roots, a window opened by a request that named it. Issued records
never change and are never removed, and the clock only advances.
-/
namespace Xlpod.Provenance
open Xlpod.ApiErrors Xlpod.Auth Xlpod.AiTypes Xlpod.BundlePayload Xlpod.GuardedRuns Xlpod.Programs
open Xlpod.Interleaving Xlpod.SessionStores Xlpod.ServerState Xlpod.ServerCalls Xlpod.ToolDispatch
open Xlpod.ChatRoute Xlpod.Routes Xlpod.Server Xlpod.Footprints Xlpod.Serving

/-! ## What a call creates -/

/-- The token it issued at this time, with its record. -/
def issued (now : ℕ) : (op : Op) → op.Reply → Option (String × TokenRecord)
  | .issue scopes fsRoots, token => some (token, newRecord now scopes fsRoots)
  | _, _ => none

/-- The token it found valid, with its record. -/
def found : (op : Op) → op.Reply → Option (String × TokenRecord)
  | .lookup token, .ok record => some (token, record)
  | _, _ => none

def opened : (op : Op) → op.Reply → Option Session
  | .openSession .., session => some session
  | _, _ => none

def granted : (op : Op) → op.Reply → Option TrustWindow
  | .openWindow .., window => some window
  | _, _ => none

section
variable {s s' : AppState} {env : Environment} {op : Op} {r : op.Reply}

theorem exec_tokens (h : exec s env op = some (r, s')) {token : String} {record : TokenRecord} :
    s'.tokens token = some record ↔
      s.tokens token = some record ∨ issued s.now op r = some (token, record) := by
  cases op with
  | issue scopes fsRoots =>
      simp only [exec] at h
      split at h
      · cases h
      · next hfresh =>
          cases h
          by_cases htoken : token = env.token
          · subst htoken
            simp [issued, hfresh]
          · simp [issued, Function.update_of_ne htoken, Ne.symm htoken]
  | openSession | openWindow | keychainWrite | keychainDelete =>
      simp only [exec] at h
      split at h <;> cases h <;> simp [issued]
  | panicked => cases h
  | _ =>
      cases h
      simp [issued]

theorem exec_windows (h : exec s env op = some (r, s')) {window : TrustWindow} :
    window ∈ s'.windows ↔ window ∈ s.windows ∨ granted op r = some window := by
  cases op with
  | openWindow sessionId tools durationSecs =>
      simp only [exec] at h
      split at h
      · cases h
      · cases h
        rw [List.mem_cons, or_comm, granted, Option.some.injEq, eq_comm]
  | issue | openSession | keychainWrite | keychainDelete =>
      simp only [exec] at h
      split at h <;> cases h <;> simp [granted]
  | panicked => cases h
  | _ =>
      cases h
      simp [granted]

theorem exec_now (h : exec s env op = some (r, s')) : s'.now = s.now := by
  cases op with
  | issue | openSession | openWindow | keychainWrite | keychainDelete =>
      simp only [exec] at h
      split at h <;> cases h <;> rfl
  | panicked => cases h
  | _ =>
      cases h
      rfl

theorem found_token (h : exec s env op = some (r, s')) {token : String} {record : TokenRecord}
    (hf : found op r = some (token, record)) :
    s.tokens token = some record ∧ s.now < record.expires := by
  cases op with
  | lookup token' =>
      cases r with
      | error e => cases hf
      | ok record' =>
          cases hf
          simp only [exec, Option.some.injEq, Prod.mk.injEq] at h
          exact lookup_ok h.1
  | _ => cases hf

theorem issued_record (h : exec s env op = some (r, s')) {token : String} {record : TokenRecord}
    (hi : issued s.now op r = some (token, record)) : ∃ scopes fsRoots,
      op = .issue scopes fsRoots ∧ record = newRecord s.now scopes fsRoots := by
  cases op with
  | issue scopes fsRoots =>
      cases hi
      exact ⟨scopes, fsRoots, rfl, rfl⟩
  | _ => cases hi

theorem found_lookup {token : String} {record : TokenRecord}
    (hf : found op r = some (token, record)) : op = .lookup token := by
  cases op with
  | lookup token' =>
      cases r with
      | error e => cases hf
      | ok record' =>
          cases hf
          rfl
  | _ => cases hf

theorem opened_session (h : exec s env op = some (r, s')) {session : Session}
    (ho : opened op r = some session) : ∃ provider model internalBearer,
      op = .openSession provider model internalBearer session.grantedScopes session.fsRoots := by
  cases op with
  | openSession provider model internalBearer scopes fsRoots =>
      simp only [exec] at h
      split at h
      · cases h
      · cases h
        cases ho
        exact ⟨provider, model, internalBearer, rfl⟩
  | _ => cases ho

/-- A session's identifier is new when it is opened. -/
theorem opened_fresh (h : exec s env op = some (r, s')) {session : Session}
    (ho : opened op r = some session) : s.sessions session.id = none := by
  cases op with
  | openSession provider model internalBearer scopes fsRoots =>
      simp only [exec] at h
      split at h
      · cases h
      · next hfresh =>
          cases h
          cases ho
          exact hfresh
  | _ => cases ho

/-- A granted window starts to live when it is opened. -/
theorem granted_window (h : exec s env op = some (r, s')) {window : TrustWindow}
    (hw : granted op r = some window) : ∃ tools durationSecs,
      op = .openWindow window.sessionId tools durationSecs ∧
        window = newWindow window.id s.now window.sessionId tools durationSecs := by
  cases op with
  | openWindow sessionId tools durationSecs =>
      simp only [exec] at h
      split at h
      · cases h
      · cases h
        cases hw
        exact ⟨tools, durationSecs, rfl, rfl⟩
  | _ => cases hw

/-- What a session keeps from the moment it is opened. -/
def SameSession (first session : Session) : Prop :=
  first.id = session.id ∧ first.provider = session.provider ∧ first.model = session.model ∧
    first.grantedScopes = session.grantedScopes ∧ first.fsRoots = session.fsRoots

theorem stored_sessions {store store' : SessionStore} (h : Stored store op r store') {id : Uuid}
    {session : Session} (hs : store' id = some session) :
    (∃ old, store id = some old ∧ SameSession old session) ∨
      id = session.id ∧ opened op r = some session := by
  cases h with
  | @opened _ _ _ _ _ new _ _ =>
      by_cases hid : id = new.id
      · subst hid
        rw [SessionStore.insert, Function.update_self, Option.some.injEq] at hs
        subst hs
        exact .inr ⟨rfl, rfl⟩
      · rw [SessionStore.insert, Function.update_of_ne hid] at hs
        exact .inl ⟨session, hs, rfl, rfl, rfl, rfl, rfl⟩
  | @appended id' _ _ old hold =>
      by_cases hid : id = id'
      · subst hid
        rw [Function.update_self, Option.some.injEq] at hs
        subst hs
        exact .inl ⟨old, hold, rfl, rfl, rfl, rfl, rfl⟩
      · rw [Function.update_of_ne hid] at hs
        exact .inl ⟨session, hs, rfl, rfl, rfl, rfl, rfl⟩
  | rejected => exact .inl ⟨session, hs, rfl, rfl, rfl, rfl, rfl⟩
  | kept => exact .inl ⟨session, hs, rfl, rfl, rfl, rfl, rfl⟩

/-- Sessions stay. -/
theorem stored_keep {store store' : SessionStore} (h : Stored store op r store') {id : Uuid}
    {session : Session} (hs : store id = some session) :
    ∃ current, store' id = some current ∧ SameSession session current := by
  cases h with
  | @opened _ _ _ _ _ new hfresh _ =>
      have hid : id ≠ new.id := by
        rintro rfl
        rw [hfresh] at hs
        cases hs
      refine ⟨session, ?_, rfl, rfl, rfl, rfl, rfl⟩
      rw [SessionStore.insert, Function.update_of_ne hid]
      exact hs
  | @appended id' _ _ old hold =>
      by_cases hid : id = id'
      · subst hid
        rw [hold, Option.some.injEq] at hs
        subst hs
        exact ⟨_, Function.update_self .., rfl, rfl, rfl, rfl, rfl⟩
      · refine ⟨session, ?_, rfl, rfl, rfl, rfl, rfl⟩
        rw [Function.update_of_ne hid]
        exact hs
  | rejected => exact ⟨session, hs, rfl, rfl, rfl, rfl, rfl⟩
  | kept => exact ⟨session, hs, rfl, rfl, rfl, rfl, rfl⟩

theorem SameSession.trans {a b c : Session} (h : SameSession a b) (k : SameSession b c) :
    SameSession a c := by
  obtain ⟨h₁, h₂, h₃, h₄, h₅⟩ := h
  obtain ⟨k₁, k₂, k₃, k₄, k₅⟩ := k
  exact ⟨h₁.trans k₁, h₂.trans k₂, h₃.trans k₃, h₄.trans k₄, h₅.trans k₅⟩

/-- A session's scopes are among those of its token. -/
theorem mem_of_grantedScopes {scope : Scope} {scopes : List Scope}
    (h : scope ∈ grantedScopes scopes) : scope ∈ scopes := by
  have hsorted := (List.destutter_sublist _ _).subset h
  have hfiltered := (List.mem_insertionSort _).mp hsorted
  exact List.contains_iff_mem.mp (List.mem_filter.mp hfiltered).2

/-- A live window has been open for less than its duration. -/
theorem newWindow_live {id sessionId : Uuid} {opened now durationSecs : ℕ} {tools : List String}
    (h : (newWindow id opened sessionId tools durationSecs).live now = true) :
    now < opened + min durationSecs maxDurationSecs * nanosPerSec := by
  have hlive : now / nanosPerMilli < opened / nanosPerMilli + min durationSecs maxDurationSecs * 1000 :=
    of_decide_eq_true h
  have hmilli : 0 < nanosPerMilli := by decide
  have hnow := (Nat.div_lt_iff_lt_mul hmilli).mp hlive
  have hopened := Nat.div_mul_le_self opened nanosPerMilli
  simp only [nanosPerMilli, nanosPerSec] at *
  omega

end

/-! ## Runs -/

section
variable {d : Deployment} {guard : World (server d) → Label (server d) → Prop}
  {w : World (server d)}

def issuedBy (e : Event (server d)) : Option (String × TokenRecord) :=
  issued e.before.now e.op e.reply

def foundBy (e : Event (server d)) : Option (String × TokenRecord) := found e.op e.reply

def openedBy (e : Event (server d)) : Option Session := opened e.op e.reply

def grantedBy (e : Event (server d)) : Option TrustWindow := granted e.op e.reply

theorem token_issued (h : Reachable (machine (server d)) guard w) (token : String)
    (record : TokenRecord) : w.shared.tokens token = some record ↔
      ∃ e ∈ w.events, issuedBy e = some (token, record) := by
  refine h.invariant (P := fun w => w.shared.tokens token = some record ↔
    ∃ e ∈ w.events, issuedBy e = some (token, record)) ?_ fun w a v _ hw _ hn => ?_
  · constructor
    · intro ht
      cases ht
    · rintro ⟨e, he, -⟩
      cases he
  · cases step_of_next hn with
    | @call i env request op rest r s hi hexec =>
        rw [exec_tokens hexec, hw, or_comm, List.exists_mem_cons_iff]
        rfl
    | _ => exact hw

theorem window_granted (h : Reachable (machine (server d)) guard w) (window : TrustWindow) :
    window ∈ w.shared.windows ↔ ∃ e ∈ w.events, grantedBy e = some window := by
  refine h.invariant (P := fun w => window ∈ w.shared.windows ↔
    ∃ e ∈ w.events, grantedBy e = some window) ?_ fun w a v _ hw _ hn => ?_
  · constructor
    · intro ht
      cases ht
    · rintro ⟨e, he, -⟩
      cases he
  · cases step_of_next hn with
    | @call i env request op rest r s hi hexec =>
        rw [exec_windows hexec, hw, or_comm, List.exists_mem_cons_iff]
        rfl
    | _ => exact hw

theorem session_opened (h : Reachable (machine (server d)) guard w) {id : Uuid} {session : Session}
    (hs : w.shared.sessions id = some session) :
    id = session.id ∧ ∃ e ∈ w.events, ∃ first, openedBy e = some first ∧ SameSession first session := by
  revert session
  refine h.invariant (P := fun w => ∀ {session}, w.shared.sessions id = some session →
    id = session.id ∧ ∃ e ∈ w.events, ∃ first, openedBy e = some first ∧ SameSession first session)
    (fun hs => by cases hs) fun w a v _ hw _ hn => ?_
  intro session hs
  cases step_of_next hn with
  | @call i env request op rest r s hi hexec =>
      rcases stored_sessions (stored_of_exec hexec) hs with ⟨old, hold, hsame⟩ | ⟨hid, hopened⟩
      · obtain ⟨hid, e, he, first, hfirst, hfirstSame⟩ := hw hold
        exact ⟨hid.trans hsame.1, e, List.mem_cons_of_mem _ he, first, hfirst, hfirstSame.trans hsame⟩
      · refine ⟨hid, _, List.mem_cons_self, session, hopened, rfl, rfl, rfl, rfl, rfl⟩
  | _ => exact hw hs

/-- What held when a call was made came from the calls before it. -/
theorem window_before (h : Reachable (machine (server d)) guard w)
    {after before : List (Event (server d))} {e : Event (server d)}
    (he : w.events = after ++ e :: before) {window : TrustWindow} (hw : window ∈ e.before.windows) :
    ∃ o ∈ before, grantedBy o = some window := by
  obtain ⟨v, env, rest, s, hr, hevents, hshared, -⟩ := reachable_event h he
  rw [← hevents]
  exact (window_granted hr window).mp (hshared ▸ hw)

end

/-! ## Credentials -/

open SessionEscalation (note recordOf)

/-- One lookup of the request's own token; tokens are for handshakes, and a
session gets what its token has. -/
def Entitled (request : Request) (seen : Option TokenRecord) : Op → Prop
  | .lookup token => seen = none ∧ bearerToken request = some token
  | .issue _ _ => (inputFor request .handshake).isSome
  | .openSession _ _ _ scopes fsRoots => ∃ record, seen = some record ∧
      scopes = grantedScopes record.scopes ∧ fsRoots = record.fsRoots
  | _ => True

def conduct (request : Request) : Contract api (Option TokenRecord) where
  pre := Entitled request
  fact _ _ _ := True
  next := note

def protocol (d : Deployment) : Protocol (server d) (Option TokenRecord) where
  contract := conduct
  start _ := none
  post _ _ := True

/-- Nothing that needs a credential or tells one. -/
def freeOps : Op → Prop
  | .lookup _ | .issue _ _ | .openSession .. => False
  | _ => True

section
variable {d : Deployment} {request : Request} {seen : Option TokenRecord}

theorem ignores_free : Ignores (conduct request) freeOps := by
  intro seen op ho
  cases op <;> first | exact ho.elim | exact ⟨trivial, fun _ => rfl⟩

theorem aiOpenSession_conduct (record : TokenRecord) (body : OpenSessionRequest) :
    Meets (conduct request) (aiOpenSession record body).run (some record) fun _ _ => True := by
  refine ⟨⟨record, rfl, rfl, rfl⟩, fun session _ => ?_⟩
  trivial

theorem handler_conduct {r : Route} {input : r.Input} {token : Option TokenRecord}
    (hinput : inputFor request r = some input)
    (htoken : ∀ record, token = some record → seen = some record) :
    Meets (conduct request) (handler d request.origin token r input).run seen fun _ _ => True := by
  by_cases hsession : r = .aiSession
  · subst hsession
    cases token with
    | none => exact trivial
    | some record =>
        rw [htoken record rfl]
        exact aiOpenSession_conduct record input
  · have huses := handler_uses d request.origin token r input
    refine huses.meets (K := fun _ => True) trivial (fun seen op _ ho => ?_) fun _ _ _ _ _ => trivial
    cases op with
    | lookup => cases r <;> exact ho.elim
    | issue =>
        cases r with
        | handshake => exact Option.isSome_of_eq_some hinput
        | _ => exact ho.elim
    | openSession =>
        cases r with
        | aiSession => exact absurd rfl hsession
        | _ => exact ho.elim
    | _ => trivial

end

theorem serve_conduct (d : Deployment) (request : Request) :
    Meets (conduct request) ((server d).serve request) none fun _ _ => True := by
  have hquiet : Ignores (conduct request) quietOps :=
    ignores_free.mono fun op ho => by cases op <;> first | exact ho.elim | trivial
  apply serve_meets_of (Q := fun _ _ => True) refuses_any hquiet
  · exact fun _ _ _ => ⟨trivial, fun _ => trivial⟩
  · exact fun _ _ => trivial
  · exact fun token htoken => ⟨⟨rfl, htoken⟩, fun _ _ _ _ => trivial⟩
  · intro r input hinput _
    exact handler_conduct hinput fun record h => by cases h
  · intro r need input token record hinput _ _ _ _
    apply handler_conduct hinput
    intro record' h
    cases h
    rfl

theorem sound (d : Deployment) (guard : World (server d) → Label (server d) → Prop) :
    Sound (protocol d) guard :=
  fun _ _ _ _ _ _ _ _ _ _ _ _ => trivial

section
variable {d : Deployment} {guard : World (server d) → Label (server d) → Prop}
  {w : World (server d)} {i : ℕ}

theorem note_found {op : Op} {r : op.Reply} {seen : Option TokenRecord} {record : TokenRecord}
    (hold : seen ≠ some record) (h : note seen op r = some record) :
    ∃ token, found op r = some (token, record) := by
  cases op with
  | lookup token =>
      cases r with
      | error e => exact absurd h hold
      | ok record' =>
          cases h
          exact ⟨token, rfl⟩
  | _ => exact absurd h hold

/-- The record of an authenticated request is that of its own token, which was
issued and had not expired. -/
theorem record_found (h : Reachable (machine (server d)) guard w) {record : TokenRecord}
    (hr : recordOf i w.events = some record) : ∃ token, ∃ e ∈ w.events, e.task = i ∧
      foundBy e = some (token, record) ∧ bearerToken e.request = some token ∧
        e.before.now < record.expires ∧ w.shared.tokens token = some record := by
  obtain ⟨after, e, before, he, hi, hold, hnew⟩ :=
    track_origin (P := fun seen => seen = some record) (by simp) hr
  obtain ⟨token, hfound⟩ := note_found hold hnew
  obtain ⟨v, env, rest, s, hv, hevents, hshared, hcall, hguard, hexec⟩ := reachable_event h he
  obtain ⟨htoken, hlive⟩ := found_token hexec hfound
  have hmem : e ∈ w.events := by simp [he]
  have hpre : Entitled e.request (recordOf e.task before) e.op :=
    obeyed (serve_conduct d) (sound d guard) h after e before he
  rw [found_lookup hfound] at hpre
  refine ⟨token, e, hmem, hi, hfound, hpre.2, hlive, ?_⟩
  obtain ⟨o, ho, hissued⟩ := (token_issued hv token record).mp (hshared ▸ htoken)
  refine (token_issued h token record).mpr ⟨o, ?_, hissued⟩
  rw [hevents] at ho
  simp [he, ho]

/-- Only handshakes issue tokens. -/
theorem issued_handshake (h : Reachable (machine (server d)) guard w) {o : Event (server d)}
    (ho : o ∈ w.events) {token : String} {record : TokenRecord}
    (hissued : issuedBy o = some (token, record)) : (inputFor o.request .handshake).isSome ∧
      ∃ scopes fsRoots, record = newRecord o.before.now scopes fsRoots := by
  obtain ⟨after, before, he⟩ := List.append_of_mem ho
  obtain ⟨v, env, rest, s, -, -, -, -, -, hexec⟩ := reachable_event h he
  obtain ⟨scopes, fsRoots, hop, hnew⟩ := issued_record hexec hissued
  have hentitled : Entitled o.request (recordOf o.task before) o.op :=
    obeyed (serve_conduct d) (sound d guard) h after o before he
  rw [hop] at hentitled
  exact ⟨hentitled, scopes, fsRoots, hnew⟩

/-- A session has the scopes and roots of the token it was opened with. -/
theorem session_token (h : Reachable (machine (server d)) guard w) {id : Uuid} {session : Session}
    (hs : w.shared.sessions id = some session) : ∃ after o before first record,
      w.events = after ++ o :: before ∧ openedBy o = some first ∧ SameSession first session ∧
        id = session.id ∧ recordOf o.task before = some record ∧
          session.grantedScopes = grantedScopes record.scopes ∧ session.fsRoots = record.fsRoots := by
  obtain ⟨hid, o, ho, first, hopened, hsame⟩ := session_opened h hs
  obtain ⟨after, before, he⟩ := List.append_of_mem ho
  obtain ⟨v, env, rest, s, hv, hevents, hshared, hcall, hguard, hexec⟩ := reachable_event h he
  have hpre : Entitled o.request (recordOf o.task before) o.op :=
    obeyed (serve_conduct d) (sound d guard) h after o before he
  obtain ⟨provider, model, internalBearer, hop⟩ := opened_session hexec hopened
  rw [hop] at hpre
  obtain ⟨record, hrecord, hscopes, hroots⟩ := hpre
  refine ⟨after, o, before, first, record, he, hopened, hsame, hid, hrecord, ?_, ?_⟩
  · rw [← hsame.2.2.2.1, hscopes]
  · rw [← hsame.2.2.2.2, hroots]

end

end Xlpod.Provenance
