import Mathlib.Logic.Basic
import Mathlib.Tactic.TypeStar

/-!
# Guarded runs of a labelled machine

A machine is an executable step function: a label fixes every choice of the
environment, and `next` answers the unique successor or `none` when the label
is not enabled. A guard is a predicate on the state before a step and its
label. Runs all of whose steps meet a guard are closed under composition and
under weakening the guard, and an invariant is carried by them as soon as each
guarded step preserves it.

Invariants may use that the state before the step is itself reached, so facts
established earlier about the same runs need not be carried again.
-/
namespace Xlpod.GuardedRuns

structure Machine (S A : Type*) where
  start : S
  next : S → A → Option S

variable {S A : Type*}

/-- Runs grow at the end, the order in which invariants are carried. -/
inductive Run (M : Machine S A) (guard : S → A → Prop) : S → S → Prop
  | done (s : S) : Run M guard s s
  | step {s u v : S} {a : A} : Run M guard s u → guard u a →
      M.next u a = some v → Run M guard s v

def Reachable (M : Machine S A) (guard : S → A → Prop) (s : S) : Prop :=
  Run M guard M.start s

/-- The guard that admits every label. -/
def anyStep : S → A → Prop := fun _ _ => True

variable {M : Machine S A} {guard strong : S → A → Prop}

theorem Run.single {s u : S} {a : A} (hg : guard s a) (h : M.next s a = some u) :
    Run M guard s u :=
  .step (.done s) hg h

theorem Run.trans {s u v : S} (h : Run M guard s u) (k : Run M guard u v) :
    Run M guard s v := by
  induction k with
  | done => exact h
  | step _ hg hn ih => exact .step ih hg hn

theorem Run.weaken (hw : ∀ s a, strong s a → guard s a) {s u : S}
    (h : Run M strong s u) : Run M guard s u := by
  induction h with
  | done => exact .done s
  | step _ hg hn ih => exact .step ih (hw _ _ hg) hn

theorem Run.unguarded {s u : S} (h : Run M guard s u) : Run M anyStep s u :=
  h.weaken fun _ _ _ => trivial

theorem Reachable.start : Reachable M guard M.start := .done _

theorem Reachable.run {s u : S} (h : Reachable M guard s) (k : Run M guard s u) :
    Reachable M guard u :=
  Run.trans h k

theorem Reachable.next {s u : S} {a : A} (h : Reachable M guard s) (hg : guard s a)
    (hn : M.next s a = some u) : Reachable M guard u :=
  Run.step h hg hn

/-- The run rule: a property of one state is carried along a run whose steps
preserve it. -/
theorem Run.carry {P : S → Prop} {s u : S} (h : Run M guard s u) (hs : P s)
    (step : ∀ u a v, P u → guard u a → M.next u a = some v → P v) : P u := by
  induction h with
  | done => exact hs
  | step _ hg hn ih => exact step _ _ _ ih hg hn

/-- The invariant rule. The step obligation may use that the state before the
step is reachable under the same guard. -/
theorem Reachable.invariant {P : S → Prop} (start : P M.start)
    (step : ∀ u a v, Reachable M guard u → P u → guard u a → M.next u a = some v → P v)
    {s : S} (h : Reachable M guard s) : P s := by
  induction h with
  | done => exact start
  | step hr hg hn ih => exact step _ _ _ hr ih hg hn

/-- Executing a list of labels; `none` as soon as one of them fails the check or
is not enabled. -/
def replay (M : Machine S A) (check : S → A → Bool) : S → List A → Option S
  | s, [] => some s
  | s, a :: as => if check s a then (M.next s a).bind fun u => replay M check u as else none

theorem replay_run {check : S → A → Bool} (hc : ∀ s a, check s a = true → guard s a) {s u : S}
    {as : List A} (h : replay M check s as = some u) : Run M guard s u := by
  induction as generalizing s with
  | nil =>
      simp only [replay, Option.some.injEq] at h
      exact h ▸ .done s
  | cons a as ih =>
      simp only [replay, Option.ite_none_right_eq_some, Option.bind_eq_some_iff] at h
      obtain ⟨ha, w, hw, hu⟩ := h
      have hfirst : Run M guard s w := .single (hc s a ha) hw
      exact hfirst.trans (ih hu)

/-- An executed script whose last state passes a test reaches such a state. -/
theorem replay_reaches (M : Machine S A) (guard : S → A → Prop) (check : S → A → Bool)
    (as : List A) (test : S → Bool) (hc : ∀ s a, check s a = true → guard s a)
    (h : ((replay M check M.start as).map test) = some true) :
    ∃ s, Reachable M guard s ∧ test s = true := by
  obtain ⟨s, hs, ht⟩ := Option.map_eq_some_iff.mp h
  exact ⟨s, replay_run hc hs, ht⟩

/-- The check that lets every label through. -/
def unchecked : S → A → Bool := fun _ _ => true

/-- A script of labels that the guard admits in any state. -/
theorem replay_admitted {s u : S} {as : List A} (hg : ∀ a ∈ as, ∀ s, guard s a)
    (h : replay M unchecked s as = some u) : Run M guard s u := by
  induction as generalizing s with
  | nil =>
      simp only [replay, Option.some.injEq] at h
      exact h ▸ .done s
  | cons a as ih =>
      obtain ⟨ha, has⟩ := List.forall_mem_cons.mp hg
      simp only [replay, unchecked, if_true, Option.bind_eq_some_iff] at h
      obtain ⟨w, hw, hu⟩ := h
      exact (Run.single (ha s) hw).trans (ih has hu)

end Xlpod.GuardedRuns
