import Xlpod.Library.JsonContent
import Xlpod.WorkerFraming
import Xlpod.WorkerPipe

/-!
# Request ids on the worker

A request is known by the process it was sent to and the id it carries. The
text of a request determines its id, an answer the launcher can parse has the
id of its question, and no two calls are given the same id on one process,
because the counter lives in the slot and only grows.
-/
namespace Xlpod.WorkerIds
open Xlpod.JsonText Xlpod.BundlePayload Xlpod.GuardedRuns Xlpod.WorkerPipe
open Xlpod.WorkerLoop (requestJson)
open Xlpod.WorkerFraming (requestJson_readable)

/-! ## Questions -/

theorem rustEscape_no_newline (c : CodePoint) : '\n' ∉ rustEscape c := by
  have hc : '\n' ∉ escapeAlphabet := by decide
  unfold rustEscape
  split_ifs with h1 h2 h3 h4 h5 h6 h7 h8
  · exact not_mem_shortEscape hc (by decide)
  · exact not_mem_shortEscape hc (by decide)
  · exact not_mem_shortEscape hc (by decide)
  · exact not_mem_shortEscape hc (by decide)
  · exact not_mem_shortEscape hc (by decide)
  · exact not_mem_shortEscape hc (by decide)
  · exact not_mem_shortEscape hc (by decide)
  · exact not_mem_unicodeEscape hc _
  · intro h
    have hn : 10 = (Char.ofNat c.val).toNat := congrArg Char.toNat (List.mem_singleton.mp h)
    by_cases hv : c.val.isValidChar
    · rw [Char.ofNat, dif_pos hv] at hn
      exact h3 hn.symm
    · rw [Char.ofNat, dif_neg hv] at hn
      exact absurd hn (by decide)

theorem text_no_newline (c : Call) (id : ℕ) : '\n' ∉ c.text id :=
  not_mem_render (by decide) (by decide) (by decide)
    (fun _ hc => (List.mem_flatMap.mp hc).elim fun d hd => rustEscape_no_newline d hd.2) _

/-- The worker hears the id under which the request was sent. -/
theorem parse_text (c : Call) (id : ℕ) :
    ∃ m, parse pythonReader (c.text id) = some m ∧ idOf m = some (id : ℤ) :=
  ⟨_, parse_render rust_python (requestJson_readable (lit_scalar _) c.params.readable), rfl⟩

theorem text_injective {c d : Call} {id id' : ℕ} (h : d.text id' = c.text id) : id' = id := by
  obtain ⟨m, hm, hid⟩ := parse_text c id
  obtain ⟨m', hm', hid'⟩ := parse_text d id'
  rw [h, hm, Option.some.injEq] at hm'
  rw [← hm', hid, Option.some.injEq] at hid'
  exact_mod_cast hid'.symm

/-- An answer the launcher can parse has the id of the request. -/
theorem idOf_answer {c : Call} {id : ℕ} {text : List Char} {v : PyJson}
    (he : echoes (c.text id) text = true) (hv : parseLine text = some v) :
    idOf v = some (id : ℤ) := by
  obtain ⟨m, hm, hid⟩ := parse_text c id
  rw [← hid]
  simpa [echoes, hv, hm] using he

/-! ## Ids are given out once -/

def tagOf (s : State) (i : ℕ) : Option (ℕ × ℕ) := (s.calls i).bind (·.stage.tag)

structure Numbered (s : State) : Prop where
  spawned : ∀ i pid id, tagOf s i = some (pid, id) → pid < s.nextPid
  slot : ∀ w, s.slot = some w → w.proc.pid < s.nextPid ∧
    ∀ i id, tagOf s i = some (w.proc.pid, id) → id < w.nextId
  distinct : ∀ i j t, tagOf s i = some t → tagOf s j = some t → i = j

def SameSlot (slot slot' : Option WorkerInner) : Prop :=
  ∀ w', slot' = some w' → ∃ w, slot = some w ∧ w'.proc.pid = w.proc.pid ∧ w'.nextId = w.nextId

theorem sameSlot_refl (slot : Option WorkerInner) : SameSlot slot slot :=
  fun w' h => ⟨w', h, rfl, rfl⟩

theorem sameSlot_none (slot : Option WorkerInner) : SameSlot slot none := nofun

theorem sameSlot_proc {slot : Option WorkerInner} {w : WorkerInner} {p : Proc}
    (h : slot = some w) (hp : p.pid = w.proc.pid) : SameSlot slot (some { w with proc := p }) := by
  rintro w' hw'
  cases hw'
  exact ⟨w, h, hp, rfl⟩

/-- A step that gives out no id. -/
structure SameIds (s u : State) : Prop where
  tags : ∀ j, tagOf u j = tagOf s j
  pids : u.nextPid = s.nextPid
  slot : SameSlot s.slot u.slot

theorem Numbered.same {s u : State} (h : Numbered s) (hu : SameIds s u) : Numbered u := by
  refine ⟨fun i pid id hi => ?_, fun w' hw' => ?_, fun i j t hi hj => ?_⟩
  · rw [hu.pids]
    exact h.spawned i pid id (hu.tags i ▸ hi)
  · obtain ⟨w, hw, hp, hn⟩ := hu.slot w' hw'
    rw [hu.pids, hp, hn]
    exact ⟨(h.slot w hw).1, fun i id hi => (h.slot w hw).2 i id (hu.tags i ▸ hi)⟩
  · exact h.distinct i j t (hu.tags i ▸ hi) (hu.tags j ▸ hj)

theorem tags_update {s : State} {i : ℕ} {c : Call} {calls : ℕ → Option Call} {stage : Stage}
    (hc : s.calls i = some c) (hcalls : calls = (s.setStage i c stage).calls)
    (ht : stage.tag = c.stage.tag) (j : ℕ) : (calls j).bind (·.stage.tag) = tagOf s j := by
  subst hcalls
  by_cases hj : j = i
  · subst hj
    simp [tagOf, State.setStage, hc, ht]
  · simp [tagOf, State.setStage, Function.update_of_ne hj]

/-- A call that takes the mutex assigns the next id of the worker it found or
spawned. -/
inductive Begins (s : State) (i : ℕ) (c : Call) : State → Prop
  | reuse {w : WorkerInner} : c.stage = .queued → s.holder = none → s.slot = some w →
      Begins s i c (s.begin i c w)
  | spawn : c.stage = .queued → s.holder = none → s.slot = none →
      Begins s i c ({ s with nextPid := s.nextPid + 1 }.begin i c (freshProc s.nextPid))

theorem Called.ids {s u : State} {i : ℕ} {c : Call} {a : Label} (hc : s.calls i = some c)
    (h : Called s i c a u) : SameIds s u ∨ Begins s i c u := by
  cases h with
  | reuse hst hh hw => exact .inr (.reuse hst hh hw)
  | spawn hst hh hw => exact .inr (.spawn hst hh hw)
  | notSpawned hst =>
      exact .inl ⟨tags_update hc rfl (by rw [hst]; rfl), rfl, sameSlot_refl _⟩
  | part hst hw => exact .inl ⟨tags_update hc rfl (by rw [hst]; rfl), rfl, sameSlot_proc hw rfl⟩
  | whole hst hw => exact .inl ⟨tags_update hc rfl (by rw [hst]; rfl), rfl, sameSlot_proc hw rfl⟩
  | writeError hst => exact .inl ⟨tags_update hc rfl (by rw [hst]; rfl), rfl, sameSlot_none _⟩
  | flush hst => exact .inl ⟨tags_update hc rfl (by rw [hst]; rfl), rfl, sameSlot_refl _⟩
  | flushError hst => exact .inl ⟨tags_update hc rfl (by rw [hst]; rfl), rfl, sameSlot_none _⟩
  | readSome hst hw =>
      exact .inl ⟨tags_update hc rfl (by rw [hst]; rfl), rfl, sameSlot_proc hw rfl⟩
  | readLine hst hw =>
      exact .inl ⟨tags_update hc rfl (by rw [hst]; rfl), rfl, sameSlot_proc hw rfl⟩
  | readNothing hst => exact .inl ⟨tags_update hc rfl (by rw [hst]; rfl), rfl, sameSlot_none _⟩
  | readRest hst hw =>
      exact .inl ⟨tags_update hc rfl (by rw [hst]; rfl), rfl, sameSlot_proc hw rfl⟩
  | readError hst => exact .inl ⟨tags_update hc rfl (by rw [hst]; rfl), rfl, sameSlot_none _⟩
  | timeout hst => exact .inl ⟨tags_update hc rfl (by rw [hst]; rfl), rfl, sameSlot_none _⟩
  | reaped hst => exact .inl ⟨tags_update hc rfl (by rw [hst]; rfl), rfl, sameSlot_refl _⟩
  | dropQueued hst => exact .inl ⟨tags_update hc rfl (by rw [hst]; rfl), rfl, sameSlot_refl _⟩
  | dropHolding => exact .inl ⟨tags_update hc rfl rfl, rfl, sameSlot_refl _⟩

theorem Worked.ids {s u : State} {w : WorkerInner} {a : Label} (hw : s.slot = some w)
    (h : Worked s w a u) : SameIds s u := by
  cases h with
  | take => exact ⟨fun _ => rfl, rfl, sameSlot_proc hw rfl⟩
  | answer => exact ⟨fun _ => rfl, rfl, sameSlot_proc hw rfl⟩
  | dieIdle => exact ⟨fun _ => rfl, rfl, sameSlot_proc hw rfl⟩
  | dieWorking => exact ⟨fun _ => rfl, rfl, sameSlot_proc hw rfl⟩

theorem arrive_ids {s : State} {i : ℕ} (hi : s.calls i = none) (method : String)
    (params : Value) :
    SameIds s { s with calls := Function.update s.calls i (some ⟨method, params, .queued⟩) } := by
  refine ⟨fun j => ?_, rfl, sameSlot_refl _⟩
  by_cases hj : j = i
  · subst hj
    simp [tagOf, hi, Stage.tag]
  · simp [tagOf, Function.update_of_ne hj]

/-- The step function by who moves: a new call, a call under way, or the worker. -/
theorem next_cases {s u : State} {a : Label} (h : next s a = some u) :
    (∃ i method params, s.calls i = none ∧
      u = { s with calls := Function.update s.calls i (some ⟨method, params, .queued⟩) }) ∨
    (∃ i c, a.caller = some i ∧ s.calls i = some c ∧ Called s i c a u) ∨
    (∃ w, s.slot = some w ∧ w.proc.alive = true ∧ Worked s w a u) := by
  unfold next at h
  split at h
  · split at h <;> cases h
    next hi => exact .inl ⟨_, _, _, hi, rfl⟩
  · split at h
    · next hi =>
        obtain ⟨c, hc, hu⟩ := Option.bind_eq_some_iff.mp h
        exact .inr (.inl ⟨_, c, hi, hc, called_of_callStep hu⟩)
    · split at h
      · split at h
        · next hw ha => exact .inr (.inr ⟨_, hw, ha, worked_of_procStep h⟩)
        · cases h
      · cases h

theorem tagOf_begin {s : State} {i : ℕ} {c : Call} {w : WorkerInner} (j : ℕ) :
    tagOf (s.begin i c w) j = if j = i then some (w.proc.pid, w.nextId) else tagOf s j := by
  by_cases hj : j = i
  · subst hj
    simp [tagOf, State.begin, State.setStage, Stage.tag]
  · simp [tagOf, State.begin, State.setStage, hj]

/-- A fresh id of a known process keeps the numbering. -/
theorem Numbered.begin {s : State} (h : Numbered s) {i : ℕ} {c : Call} {w : WorkerInner}
    (hpid : w.proc.pid < s.nextPid)
    (hid : ∀ j id, tagOf s j = some (w.proc.pid, id) → id < w.nextId) :
    Numbered (s.begin i c w) := by
  refine ⟨fun j pid id hj => ?_, ?_, fun j k t hj hk => ?_⟩
  · rw [tagOf_begin] at hj
    split_ifs at hj with hji
    · cases hj
      exact hpid
    · exact h.spawned j pid id hj
  · rintro w' hw'
    cases hw'
    refine ⟨hpid, fun j id hj => ?_⟩
    rw [tagOf_begin] at hj
    split_ifs at hj with hji
    · cases hj
      exact Nat.lt_succ_self _
    · exact Nat.lt_succ_of_lt (hid j id hj)
  · rw [tagOf_begin] at hj hk
    split_ifs at hj hk with hji hki hki
    · rw [hji, hki]
    · cases hj
      exact absurd (hid k _ hk) (lt_irrefl _)
    · cases hk
      exact absurd (hid j _ hj) (lt_irrefl _)
    · exact h.distinct j k t hj hk

theorem Numbered.begins {s u : State} (h : Numbered s) {i : ℕ} {c : Call}
    (hu : Begins s i c u) : Numbered u := by
  cases hu with
  | reuse _ _ hw => exact h.begin (h.slot _ hw).1 (h.slot _ hw).2
  | spawn _ _ hw =>
      have hs : Numbered { s with nextPid := s.nextPid + 1 } :=
        ⟨fun j pid id hj => Nat.lt_succ_of_lt (h.spawned j pid id hj),
          fun w hw' => absurd (hw.symm.trans hw') nofun, h.distinct⟩
      exact hs.begin (Nat.lt_succ_self _) fun j id hj =>
        absurd (h.spawned j _ id hj) (lt_irrefl _)

theorem Numbered.next {s u : State} (h : Numbered s) {a : Label}
    (hu : WorkerPipe.next s a = some u) : Numbered u := by
  rcases next_cases hu with ⟨i, method, params, hi, rfl⟩ | ⟨i, c, -, hc, hu⟩ | ⟨w, hw, -, hu⟩
  · exact h.same (arrive_ids hi method params)
  · rcases Called.ids hc hu with hu | hu
    · exact h.same hu
    · exact h.begins hu
  · exact h.same (Worked.ids hw hu)

theorem reachable_numbered {guard : State → Label → Prop} {s : State}
    (h : Reachable worker guard s) : Numbered s :=
  h.invariant ⟨nofun, nofun, nofun⟩ fun _ _ _ _ hs _ hn => hs.next hn

end Xlpod.WorkerIds
