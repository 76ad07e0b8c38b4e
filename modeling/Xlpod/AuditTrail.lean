import Xlpod.Footprints

/-!
# Audit completeness

`audit_wrap` writes the one entry of a request after the inner service has
returned, with nothing to run it if the future is gone by then. So a request is
accounted for exactly as long as it is not dropped, by a disconnect or a panic,
between its first effect and its entry, and the file takes the line.

The entries are told apart by the task that wrote them; the log is all of them
in order.
-/
namespace Xlpod.AuditTrail
open Xlpod.ApiErrors Xlpod.Auth Xlpod.AiTypes Xlpod.ByteEncodings Xlpod.GuardedRuns
open Xlpod.Programs Xlpod.Interleaving Xlpod.SessionStores Xlpod.ServerState Xlpod.Server
open Xlpod.Footprints

/-- What a request leaves behind: a token, a worker call, a keychain, session,
window or ledger change, or a response. -/
def effect : (op : Op) → op.Reply → Bool
  | .issue _ _, _ => true
  | .workerWrite _ _, sent => sent
  | .keychainWrite _ _, done => done
  | .keychainDelete _, done => done
  | .openSession .., _ => true
  | .appendMessages .., .ok _ => true
  | .openWindow .., _ => true
  | .ledgerWrite _, _ => true
  | .ledgerAdd _, _ => true
  | .respond _, _ => true
  | _, _ => false

/-- The entry a call put into the file. -/
def written : (op : Op) → op.Reply → Option AuditEntry
  | .auditWrite entry, none => some entry
  | _, _ => none

/-- The lines of whole entries. -/
def auditBytes (entries : List AuditEntry) : Bytes := entries.flatMap auditLine

def Describes (entry : AuditEntry) (request : Request) : Prop :=
  entry.method = request.method ∧ entry.path = request.path ∧ entry.origin = request.origin

section
variable {d : Deployment}

def entriesOf (i : ℕ) (events : List (Event (server d))) : List AuditEntry :=
  events.filterMap fun e => if e.task = i then written e.op e.reply else none

def Caused (i : ℕ) (events : List (Event (server d))) : Prop :=
  ∃ e ∈ events, e.task = i ∧ effect e.op e.reply = true

/-- The entries that were written whole, oldest first. -/
def entriesWritten (events : List (Event (server d))) : List AuditEntry :=
  (events.filterMap fun e => written e.op e.reply).reverse

/-- The file has gained the entries of all requests, in order, and nothing else. -/
def Logged (w : World (server d)) : Prop :=
  w.shared.audit = d.auditFile ++ auditBytes (entriesWritten w.events)

/-- A request that caused an effect has exactly one entry once it is over. -/
structure Complete (w : World (server d)) : Prop where
  log : Logged w
  entry : ∀ i request, requestOf w i = some request → w.about i = none → Caused i w.events →
    ∃ entry, entriesOf i w.events = [entry] ∧ Describes entry request

/-- The write of the request's entry has been made. -/
def Entered (i : ℕ) (events : List (Event (server d))) : Prop :=
  ∃ e ∈ events, e.task = i ∧ ∃ entry, e.op = .auditWrite entry

/-- A request is dropped only before its first effect or after its entry, and
the audit file takes every line. -/
def audited (w : World (server d)) : Label (server d) → Prop
  | .drop i => Caused i w.events → Entered i w.events
  | .call i env => ∀ request entry, w.about i = some (request, .auditWrite entry) →
      env.torn = none
  | _ => True

end

/-! ## The protocol -/

inductive Phase
  | running
  | responded
  | written

def conduct (request : Request) : Contract api Phase where
  pre phase op :=
    match op with
    | .respond _ => phase = .running
    | .auditWrite entry => phase = .responded ∧ Describes entry request
    | _ => True
  fact _ _ _ := True
  next phase op _ :=
    match op with
    | .respond _ => .responded
    | .auditWrite _ => .written
    | _ => phase

def protocol (d : Deployment) : Protocol (server d) Phase where
  contract := conduct
  start _ := .running
  post _ phase := phase = .written

theorem serve_conduct (d : Deployment) (request : Request) :
    Meets (conduct request) ((server d).serve request) .running fun phase _ => phase = .written := by
  have hinner : Meets (conduct request) (innerService d request) .running fun phase _ =>
      phase = .running := by
    refine (innerService_uses d request).meets (K := (· = Phase.running)) rfl (fun g op hg ho => ?_)
      fun g op r hg ho => ?_
    · cases op <;> first | exact ho.elim | trivial
    · cases op <;> first | exact ho.elim | exact hg
  refine meets_bind.mpr ⟨trivial, fun start _ => meets_bind.mpr (hinner.mono ?_)⟩
  rintro phase response rfl
  refine meets_bind.mpr ⟨rfl, fun _ _ => meets_bind.mpr ⟨trivial, fun finish _ => ?_⟩⟩
  refine meets_bind.mpr ⟨trivial, fun now _ => meets_bind.mpr ⟨trivial, fun _ _ => ?_⟩⟩
  exact meets_bind.mpr ⟨⟨rfl, rfl, rfl, rfl⟩, fun _ _ => ⟨trivial, fun _ _ => rfl⟩⟩

theorem sound (d : Deployment) (guard : World (server d) → Label (server d) → Prop) :
    Sound (protocol d) guard :=
  fun _ _ _ _ _ _ _ _ _ _ _ _ => trivial

/-! ## Entries of a task -/

def attempted : Op → Option AuditEntry
  | .auditWrite entry => some entry
  | _ => none

section
variable {d : Deployment} {request : Request} {i : ℕ} {events : List (Event (server d))}

def attemptsOf (i : ℕ) (events : List (Event (server d))) : List AuditEntry :=
  events.filterMap fun e => if e.task = i then attempted e.op else none

/-- One attempt in the last phase, none before. -/
def Accounts (request : Request) (entries : List AuditEntry) : Phase → Prop
  | .written => ∃ entry, entries = [entry] ∧ Describes entry request
  | _ => entries = []

theorem accounts_next {phase : Phase} {entries : List AuditEntry} {op : Op} (reply : op.Reply)
    (hpre : (conduct request).pre phase op) (h : Accounts request entries phase) :
    Accounts request ((attempted op).toList ++ entries) ((conduct request).next phase op reply) := by
  cases op with
  | respond response =>
      change phase = .running at hpre
      subst hpre
      exact h
  | auditWrite entry =>
      obtain ⟨rfl, hdesc⟩ := hpre
      exact ⟨entry, congrArg (entry :: ·) h, hdesc⟩
  | _ => exact h

theorem attempts_accounted
    (hobey : ∀ after e before, events = after ++ e :: before → e.task = i →
      (conduct request).pre ((protocol d).ghost request i before) e.op) :
    Accounts request (attemptsOf i events) ((protocol d).ghost request i events) := by
  induction events with
  | nil => rfl
  | cons e es ih =>
      have hes := ih fun after e' before he => hobey (e :: after) e' before (by simp [he])
      by_cases hi : e.task = i
      · rw [Protocol.ghost, track_self hi]
        have hcons : attemptsOf i (e :: es) = (attempted e.op).toList ++ attemptsOf i es := by
          rw [attemptsOf, List.filterMap_cons, if_pos hi]
          cases attempted e.op <;> rfl
        rw [hcons]
        exact accounts_next e.reply (hobey [] e es rfl hi) hes
      · rw [Protocol.ghost, track_other hi, attemptsOf, List.filterMap_cons, if_neg hi]
        exact hes

/-- Every attempt succeeded. -/
def AllTaken (events : List (Event (server d))) : Prop :=
  ∀ e ∈ events, written e.op e.reply = attempted e.op

theorem entries_eq_attempts (h : AllTaken events) : entriesOf i events = attemptsOf i events := by
  refine List.filterMap_congr fun e he => ?_
  rw [h e he]

theorem attempts_of_entered (h : Entered i events) : attemptsOf i events ≠ [] := by
  obtain ⟨e, he, hi, entry, hop⟩ := h
  have hmem : entry ∈ attemptsOf i events := by
    refine List.mem_filterMap.mpr ⟨e, he, ?_⟩
    rw [if_pos hi, hop]
    rfl
  exact List.ne_nil_of_mem hmem

end

/-! ## Steps -/

section
variable {d : Deployment} {w : World (server d)}

/-- The bytes a call leaves in the audit file. -/
def auditLeft : (op : Op) → op.Reply → Bytes
  | .auditWrite entry, torn => leftOf torn (auditLine entry)
  | _, _ => []

theorem exec_audit {s s' : AppState} {env : Environment} {op : Op} {r : op.Reply}
    (h : exec s env op = some (r, s')) : s'.audit = s.audit ++ auditLeft op r := by
  cases op with
  | auditWrite entry =>
      cases h
      rfl
  | issue | openSession | openWindow | keychainWrite | keychainDelete =>
      simp only [exec] at h
      split at h <;> cases h <;> exact (List.append_nil _).symm
  | panicked => cases h
  | _ =>
      cases h
      exact (List.append_nil _).symm

theorem exec_taken {s s' : AppState} {env : Environment} {op : Op} {r : op.Reply}
    (h : exec s env op = some (r, s')) (hw : ∀ entry, op = .auditWrite entry → env.torn = none) :
    written op r = attempted op := by
  cases op with
  | auditWrite entry =>
      simp only [exec, hw entry rfl, Option.some.injEq, Prod.mk.injEq] at h
      rw [← h.1]
      rfl
  | _ => rfl

theorem auditLeft_taken {op : Op} {r : op.Reply} (h : written op r = attempted op) :
    auditLeft op r = auditBytes (written op r).toList := by
  cases op with
  | auditWrite entry =>
      cases r with
      | none => exact (List.append_nil _).symm
      | some kept => cases h
  | _ => rfl

theorem allTaken (h : Reachable (machine (server d)) audited w) : AllTaken w.events := by
  refine h.invariant (P := fun w => AllTaken w.events) (fun e he => by cases he)
    fun w a v _ hw hg hn => ?_
  cases step_of_next hn with
  | @call i env request op rest r s hi he =>
      intro e hmem
      rcases List.mem_cons.mp hmem with rfl | hmem
      · refine exec_taken he fun entry hop => ?_
        subst hop
        exact hg request entry (World.about_of_call hi)
      · exact hw e hmem
  | _ => exact hw

/-- A file that takes every line holds them all. -/
theorem logged (h : Reachable (machine (server d)) audited w) : Logged w := by
  rw [Logged, part_appended (f := AppState.audit) exec_audit (fun _ _ => rfl) h, entriesWritten,
    ← List.filterMap_reverse, auditBytes, List.filterMap_eq_flatMap_toList, List.flatMap_assoc]
  congr 1
  exact List.flatMap_congr fun e he => auditLeft_taken (allTaken h e (List.mem_reverse.mp he))

/-- Every dropped request that caused an effect had entered its line. -/
def DroppedEntered (w : World (server d)) : Prop :=
  ∀ i request, w.tasks i = some ⟨request, none⟩ → Caused i w.events → Entered i w.events

theorem droppedEntered (h : Reachable (machine (server d)) audited w) : DroppedEntered w := by
  refine h.invariant nofun fun w a v _ hw hg hn => ?_
  intro i request hi hc
  cases step_of_next hn with
  | @arrive j request' hj =>
      by_cases hij : i = j
      · subst hij
        rw [setTask_self] at hi
        cases hi
      · exact hw i request (setTask_other w _ hij ▸ hi) hc
  | @call j env request' op rest r s hj he =>
      have hij : i ≠ j := by
        rintro rfl
        change (w.setTask _ _).tasks _ = _ at hi
        rw [setTask_self] at hi
        cases hi
      have hold : Caused i w.events := by
        obtain ⟨e, hmem, htask, heff⟩ := hc
        rcases List.mem_cons.mp hmem with rfl | hmem
        · exact absurd htask.symm hij
        · exact ⟨e, hmem, htask, heff⟩
      obtain ⟨e, hmem, hent⟩ := hw i request ((setTask_other w _ hij).symm.trans hi) hold
      exact ⟨e, List.mem_cons_of_mem _ hmem, hent⟩
  | @drop j request' op rest hj ha =>
      by_cases hij : i = j
      · subst hij
        exact hg hc
      · exact hw i request (setTask_other w _ hij ▸ hi) hc
  | elapse => exact hw i request hi hc

section
variable {guard : World (server d) → Label (server d) → Prop} {i : ℕ} {request : Request}

/-- A task responds once and then writes, as its own request has it. -/
theorem calls_of_reachable (h : Reachable (machine (server d)) guard w)
    (hi : requestOf w i = some request) {after before : List (Event (server d))}
    {e : Event (server d)} (he : w.events = after ++ e :: before) (htask : e.task = i) :
    (conduct request).pre ((protocol d).ghost request i before) e.op := by
  have hobey : (conduct e.request).pre ((protocol d).ghost e.request e.task before) e.op :=
    obeyed (serve_conduct d) (sound d guard) h after e before he
  have hreq := reachable_recorded h e (by simp [he])
  rw [htask, hi, Option.some.injEq] at hreq
  rw [htask, ← hreq] at hobey
  exact hobey

theorem attempts_of_reachable (h : Reachable (machine (server d)) guard w)
    (hi : requestOf w i = some request) :
    Accounts request (attemptsOf i w.events) ((protocol d).ghost request i w.events) :=
  attempts_accounted fun _ _ _ he htask => calls_of_reachable h hi he htask

end

end

/-! ## Completeness -/

theorem complete_of_audited (d : Deployment) (w : World (server d))
    (h : Reachable (machine (server d)) audited w) : Complete w := by
  refine ⟨logged h, fun i request hreq hover hcaused => ?_⟩
  have hacc := attempts_of_reachable h hreq
  rw [entries_eq_attempts (allTaken h)]
  obtain ⟨⟨request', rest⟩, hi, rfl⟩ := Option.map_eq_some_iff.mp hreq
  match rest, hi with
  | none, hi =>
      have hne := attempts_of_entered (droppedEntered h i _ hi hcaused)
      cases hghost : (protocol d).ghost request' i w.events with
      | written =>
          rw [hghost] at hacc
          exact hacc
      | _ =>
          rw [hghost] at hacc
          exact absurd hacc hne
  | some (.done _), hi =>
      have hpost : (protocol d).ghost request' i w.events = .written :=
        follows (serve_conduct d) (sound d audited) h i request' _ hi
      rw [hpost] at hacc
      exact hacc
  | some (.call op rest), hi =>
      rw [World.about_of_call hi] at hover
      cases hover

/-- No disconnects, and every write succeeds. -/
def undisturbed (_ : World (server d)) : Label (server d) → Bool
  | .drop _ => false
  | .call _ env => env.torn.isNone
  | _ => true

theorem audited_of_undisturbed (w : World (server d)) (a : Label (server d))
    (h : undisturbed w a = true) : audited w a := by
  cases a with
  | drop i => cases h
  | call i env => exact fun _ _ _ => Option.isNone_iff_eq_none.mp h
  | _ => trivial

/-- The health check runs to its end and has its entry. -/
theorem complete_health : ∃ w, Reachable (machine (server firstLaunch)) audited w ∧
    ((entriesOf 0 w.events).length == 1) = true ∧ Complete w := by
  obtain ⟨w, hw, ht⟩ := replay_reaches (machine (server firstLaunch)) audited undisturbed
    (.arrive 0 (addinRequest .health "/health" none ()) :: calls 0 7 {})
    (fun w => (entriesOf 0 w.events).length == 1) audited_of_undisturbed (by decide +kernel)
  exact ⟨w, hw, ht, complete_of_audited firstLaunch w hw⟩

/-! ## A handshake that leaves no line -/

/-- Dropped, with an effect and without an entry. -/
def unaccounted {d : Deployment} (i : ℕ) (w : World (server d)) : Bool :=
  (match w.tasks i with
    | some ⟨_, none⟩ => true
    | _ => false) &&
  (entriesOf i w.events).isEmpty && w.events.any fun e => e.task = i && effect e.op e.reply

theorem not_complete_of_unaccounted {d : Deployment} {i : ℕ} {w : World (server d)}
    (h : unaccounted i w = true) : ¬ Complete w := by
  intro hc
  simp only [unaccounted, Bool.and_eq_true, List.isEmpty_iff, List.any_eq_true,
    decide_eq_true_eq] at h
  obtain ⟨⟨hdropped, hnone⟩, e, he, hi, heff⟩ := h
  split at hdropped
  · next request hreq =>
      have hover : w.about i = none := by rw [World.about, hreq]
      obtain ⟨entry, hone, -⟩ := hc.entry i request (by rw [requestOf, hreq]; rfl) hover
        ⟨e, he, hi, heff⟩
      rw [hnone] at hone
      cases hone
  · cases hdropped

/-- The client disconnects while the entry waits for the file. -/
def lostHandshake : List (Label (server firstLaunch)) :=
  .arrive 0 (addinRequest .handshake "/auth/handshake" none ⟨[], []⟩) :: calls 0 5 {} ++ [.drop 0]

theorem not_complete_lostHandshake :
    ∃ w, Reachable (machine (server firstLaunch)) anyStep w ∧ ¬ Complete w := by
  obtain ⟨w, hw, ht⟩ := replay_reaches (machine (server firstLaunch)) anyStep unchecked
    lostHandshake (unaccounted 0) (fun _ _ _ => trivial) (by decide +kernel)
  exact ⟨w, hw, not_complete_of_unaccounted ht⟩

end Xlpod.AuditTrail
