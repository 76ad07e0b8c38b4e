import Xlpod.Library.Programs

/-!
# Two programs side by side

A coupling says which call of one program may stand beside which call of
another, and how the replies of the two are then related. Coupled programs make
coupled calls for as long as their replies are related, and end in related
results. A program that makes only calls coupled with themselves by equality is
coupled with itself.
-/
namespace Xlpod.TwinPrograms
open Xlpod.Programs

abbrev Coupling (I : Interface) :=
  (op op' : I.Op) → (I.Reply op → I.Reply op' → Prop) → Prop

variable {I : Interface} {K : Coupling I} {α β γ δ ε : Type}

inductive Coupled (K : Coupling I) (R : α → β → Prop) : Program I α → Program I β → Prop
  | done {a : α} {b : β} : R a b → Coupled K R (.done a) (.done b)
  | call {op op' : I.Op} {Q : I.Reply op → I.Reply op' → Prop}
      {rest : I.Reply op → Program I α} {rest' : I.Reply op' → Program I β} : K op op' Q →
      (∀ r r', Q r r' → Coupled K R (rest r) (rest' r')) →
      Coupled K R (.call op rest) (.call op' rest')

theorem coupled_pure {R : α → β → Prop} {a : α} {b : β} (h : R a b) :
    Coupled K R (pure a : Program I α) (pure b) :=
  .done h

theorem Coupled.mono {R R' : α → β → Prop} {p : Program I α} {q : Program I β}
    (h : Coupled K R p q) (hR : ∀ a b, R a b → R' a b) : Coupled K R' p q := by
  induction h with
  | done hab => exact .done (hR _ _ hab)
  | call hop _ ih => exact .call hop ih

theorem Coupled.bind {R : α → β → Prop} {R' : γ → δ → Prop} {p : Program I α} {q : Program I β}
    {f : α → Program I γ} {g : β → Program I δ} (h : Coupled K R p q)
    (hf : ∀ a b, R a b → Coupled K R' (f a) (g b)) : Coupled K R' (p >>= f) (q >>= g) := by
  induction h with
  | done hab => exact hf _ _ hab
  | call hop _ ih => exact .call hop ih

/-- The same result goes on in both programs. -/
theorem Coupled.bindSame {R : γ → δ → Prop} {p q : Program I α} {f : α → Program I γ}
    {g : α → Program I δ} (h : Coupled K Eq p q) (hf : ∀ a, Coupled K R (f a) (g a)) :
    Coupled K R (p >>= f) (q >>= g) := by
  apply h.bind
  intro a b hab
  subst hab
  exact hf a

theorem Coupled.exceptBindSame {R : Except ε γ → Except ε δ → Prop}
    {x y : ExceptT ε (Program I) α} {f : α → ExceptT ε (Program I) γ}
    {g : α → ExceptT ε (Program I) δ} (h : Coupled K Eq x.run y.run)
    (hf : ∀ a, Coupled K R (f a).run (g a).run) (hR : ∀ e, R (.error e) (.error e)) :
    Coupled K R (x >>= f).run (y >>= g).run := by
  apply h.bindSame
  intro r
  cases r with
  | ok a => exact hf a
  | error e => exact .done (hR e)

theorem Coupled.lift {p q : Program I α} (h : Coupled K Eq p q) :
    Coupled K Eq (liftM p : ExceptT ε (Program I) α).run (liftM q : ExceptT ε (Program I) α).run :=
  h.bindSame fun _ => .done rfl

theorem Coupled.ite {R : α → β → Prop} {c : Prop} [Decidable c] {p p' : Program I α}
    {q q' : Program I β} (hp : c → Coupled K R p q) (hp' : ¬c → Coupled K R p' q') :
    Coupled K R (if c then p else p') (if c then q else q') := by
  by_cases h : c
  · rw [if_pos h, if_pos h]
    exact hp h
  · rw [if_neg h, if_neg h]
    exact hp' h

theorem Coupled.exceptIte {R : Except ε α → Except ε β → Prop} {c : Prop} [Decidable c]
    {x x' : ExceptT ε (Program I) α} {y y' : ExceptT ε (Program I) β}
    (h : c → Coupled K R x.run y.run) (h' : ¬c → Coupled K R x'.run y'.run) :
    Coupled K R (if c then x else x').run (if c then y else y').run :=
  Coupled.ite h h'

/-- Calls that stand beside themselves with the same reply. -/
def Selfsame (K : Coupling I) (allowed : I.Op → Prop) : Prop :=
  ∀ op, allowed op → K op op Eq

theorem Selfsame.coupled {allowed : I.Op → Prop} (hK : Selfsame K allowed) {p : Program I α}
    (h : Uses allowed p) : Coupled K Eq p p := by
  induction p with
  | done a => exact .done rfl
  | call op rest ih =>
      obtain ⟨hop, hrest⟩ := uses_call.mp h
      refine .call (hK op hop) fun r r' hr => ?_
      subst hr
      exact ih r (hrest r)

theorem Selfsame.call {allowed : I.Op → Prop} (hK : Selfsame K allowed) (op : I.Op)
    (hop : allowed op) {R : α → β → Prop} {f : I.Reply op → Program I α}
    {g : I.Reply op → Program I β} (hf : ∀ r, Coupled K R (f r) (g r)) :
    Coupled K R (.call op f) (.call op g) := by
  refine .call (hK op hop) fun r r' hr => ?_
  subst hr
  exact hf r

end Xlpod.TwinPrograms
