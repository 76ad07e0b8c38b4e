import Mathlib.Logic.Basic
import Mathlib.Tactic.TypeStar

/-!
# Questions and answers in a list

Some entries of a list open an obligation, and the next entry has to close it.
A list is paired when every obligation is closed at once, and open at its end
when only its last entry is still waiting.
-/
namespace Xlpod.Pairing

variable {α β : Type*} (opens : α → Option β) (closes : β → α → Prop)

def Paired (l : List α) : Prop :=
  ∀ before e after b, l = before ++ e :: after → opens e = some b →
    ∃ t rest, after = t :: rest ∧ closes b t

def OpenEnd (b : β) (l : List α) : Prop :=
  ∃ before e, l = before ++ [e] ∧ Paired opens closes before ∧ opens e = some b

variable {opens closes} {l new : List α} {e t : α} {b : β}

theorem paired_nil : Paired opens closes [] := by
  intro before e after b h
  simp at h

theorem paired_cons : Paired opens closes (e :: l) ↔
    (∀ b, opens e = some b → ∃ t rest, l = t :: rest ∧ closes b t) ∧ Paired opens closes l := by
  constructor
  · intro h
    constructor
    · intro b hb
      exact h [] e l b rfl hb
    · intro before e' after b hl hb
      exact h (e :: before) e' after b (by rw [hl]; rfl) hb
  · intro h before e' after b hl hb
    cases before with
    | nil =>
        rw [List.nil_append, List.cons.injEq] at hl
        obtain ⟨rfl, rfl⟩ := hl
        exact h.1 b hb
    | cons x before =>
        rw [List.cons_append, List.cons.injEq] at hl
        exact h.2 before e' after b hl.2 hb

/-- Paired lists can be joined. -/
theorem Paired.append (h : Paired opens closes l) (hnew : Paired opens closes new) :
    Paired opens closes (l ++ new) := by
  induction l with
  | nil => exact hnew
  | cons e l ih =>
      obtain ⟨hhead, htail⟩ := paired_cons.mp h
      apply paired_cons.mpr
      refine ⟨fun b hb => ?_, ih htail⟩
      obtain ⟨t, rest, rfl, ht⟩ := hhead b hb
      exact ⟨t, rest ++ new, rfl, ht⟩

theorem paired_of_plain (h : ∀ e ∈ l, opens e = none) : Paired opens closes l := by
  intro before e after b hl hb
  have hnone := h e (by simp [hl])
  rw [hnone] at hb
  cases hb

theorem Paired.open_end (h : Paired opens closes l) (he : opens e = some b) :
    OpenEnd opens closes b (l ++ [e]) :=
  ⟨l, e, rfl, h, he⟩

theorem OpenEnd.close (h : OpenEnd opens closes b l) (ht : closes b t) (hplain : opens t = none) :
    Paired opens closes (l ++ [t]) := by
  obtain ⟨before, e, rfl, hbefore, he⟩ := h
  have hpair : Paired opens closes [e, t] := by
    apply paired_cons.mpr
    constructor
    · intro b' hb'
      rw [he, Option.some.injEq] at hb'
      subst hb'
      exact ⟨t, [], rfl, ht⟩
    · exact paired_of_plain fun x hx => by rw [List.mem_singleton.mp hx, hplain]
  rw [List.append_assoc]
  exact hbefore.append hpair

end Xlpod.Pairing
