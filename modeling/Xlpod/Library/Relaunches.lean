import Mathlib.Logic.Relation
import Xlpod.Library.GuardedRuns
import Xlpod.Library.Programs

/-!
# A program that is killed and started again

A program works on a state that outlives it. The outside answers its calls, may
kill it between any two of them, and starts it again on the state it has left.
When every start keeps its calls within a relation that keeps an invariant, the
invariant holds at any time, any two states of a run are related, and every
launch that comes to its end has what a launch promises. A part of a run in which
the outside keeps to some of its choices is a run with that outside.
-/
namespace Xlpod.Relaunches
open Xlpod.GuardedRuns Xlpod.Programs

variable {I : Interface} {S E α β ε : Type}

/-! ## One launch -/

/-- Each call changes the state within `R`, and the result is as promised. -/
def Keeps (exec : S → E → (op : I.Op) → Option (I.Reply op × S)) (R : S → S → Prop) :
    Program I α → S → (α → S → Prop) → Prop
  | .done a, s, post => post a s
  | .call op rest, s, post => ∀ e r s', exec s e op = some (r, s') →
      R s s' ∧ Keeps exec R (rest r) s' post

section
variable {exec : S → E → (op : I.Op) → Option (I.Reply op × S)} {R : S → S → Prop} {s : S}

theorem keeps_pure {a : α} {post : α → S → Prop} :
    Keeps exec R (pure a : Program I α) s post ↔ post a s := Iff.rfl

theorem keeps_call {op : I.Op} {rest : I.Reply op → Program I α} {post : α → S → Prop} :
    Keeps exec R (.call op rest) s post ↔ ∀ e r s', exec s e op = some (r, s') →
      R s s' ∧ Keeps exec R (rest r) s' post := Iff.rfl

theorem keeps_bind {p : Program I α} {f : α → Program I β} {post : β → S → Prop} :
    Keeps exec R (p >>= f) s post ↔ Keeps exec R p s fun a s' => Keeps exec R (f a) s' post := by
  induction p generalizing s with
  | done a => rfl
  | call op rest ih =>
      change (∀ e r s', _ → _ ∧ Keeps exec R (rest r >>= f) _ _) ↔ _
      simp only [ih]
      rfl

theorem Keeps.mono {p : Program I α} {post post' : α → S → Prop} (h : Keeps exec R p s post)
    (hpost : ∀ a s, post a s → post' a s) : Keeps exec R p s post' := by
  induction p generalizing s with
  | done a => exact hpost a s h
  | call op rest ih =>
      intro e r s' he
      obtain ⟨hR, hrest⟩ := h e r s' he
      exact ⟨hR, ih r hrest⟩

/-- After the first part of a sequence that may fail. -/
def OnEnd (ok : α → S → Prop) (error : ε → S → Prop) : Except ε α → S → Prop
  | .ok a => ok a
  | .error e => error e

theorem keeps_exceptBind {x : ExceptT ε (Program I) α} {f : α → ExceptT ε (Program I) β}
    {post : Except ε β → S → Prop} :
    Keeps exec R (x >>= f).run s post ↔ Keeps exec R x.run s
      (OnEnd (fun a s' => Keeps exec R (f a).run s' post) fun e s' => post (.error e) s') := by
  change Keeps exec R (x.run >>= ExceptT.bindCont f) s post ↔ _
  rw [keeps_bind]
  constructor <;> intro h <;> refine h.mono fun r s' hr => ?_ <;> cases r <;> exact hr

/-- A sequence that may fail at any of its calls, and whose result is as promised
when it does not. -/
def Achieves (exec : S → E → (op : I.Op) → Option (I.Reply op × S)) (R : S → S → Prop)
    (x : ExceptT ε (Program I) α) (s : S) (P : α → S → Prop) : Prop :=
  Keeps exec R x.run s (OnEnd P fun _ _ => True)

theorem achieves_pure {a : α} {P : α → S → Prop} (h : P a s) :
    Achieves exec R (pure a : ExceptT ε (Program I) α) s P := h

theorem achieves_throw {e : ε} {P : α → S → Prop} :
    Achieves exec R (throw e : ExceptT ε (Program I) α) s P := trivial

theorem achieves_call {op : I.Op} {P : I.Reply op → S → Prop}
    (h : ∀ e r s', exec s e op = some (r, s') → R s s' ∧ P r s') :
    Achieves exec R (liftM (Program.call op .done) : ExceptT ε (Program I) (I.Reply op)) s P := h

theorem Achieves.bind {x : ExceptT ε (Program I) α} {f : α → ExceptT ε (Program I) β}
    {P : α → S → Prop} {Q : β → S → Prop} (hx : Achieves exec R x s P)
    (hf : ∀ a s', P a s' → Achieves exec R (f a) s' Q) : Achieves exec R (x >>= f) s Q := by
  refine keeps_exceptBind.mpr (hx.mono fun r s' hr => ?_)
  cases r with
  | ok a => exact hf a s' hr
  | error e => trivial

end

/-! ## Many launches -/

structure Boot (I : Interface) (S α : Type) where
  state : S
  running : Option (Program I α)
  /-- The results of the launches that came to their end, with the state then. -/
  ended : List (α × S)

inductive Label (E : Type)
  | launch
  | call (e : E)
  | finish
  | kill

section
variable (exec : S → E → (op : I.Op) → Option (I.Reply op × S)) (p : Program I α)

def next (b : Boot I S α) : Label E → Option (Boot I S α)
  | .launch =>
      match b.running with
      | none => some { b with running := some p }
      | some _ => none
  | .call e =>
      match b.running with
      | some (.call op rest) => (exec b.state e op).map fun r =>
          { b with state := r.2, running := some (rest r.1) }
      | _ => none
  | .finish =>
      match b.running with
      | some (.done a) => some { b with running := none, ended := (a, b.state) :: b.ended }
      | _ => none
  | .kill =>
      match b.running with
      | some _ => some { b with running := none }
      | none => none

def machine (start : S) : Machine (Boot I S α) (Label E) where
  start := ⟨start, none, []⟩
  next := next exec p

/-- The outside, kept to the choices that are allowed. -/
def limited (allow : S → E → I.Op → Bool) : S → E → (op : I.Op) → Option (I.Reply op × S) :=
  fun s e op => if allow s e op then exec s e op else none

/-- The step makes an allowed choice. -/
def Heeds (allow : S → E → I.Op → Bool) (b : Boot I S α) : Label E → Prop
  | .call e => ∀ op rest, b.running = some (.call op rest) → allow b.state e op = true
  | _ => True

/-- The step function as a relation. -/
inductive Moved (b : Boot I S α) : Boot I S α → Prop
  | launch : b.running = none → Moved b { b with running := some p }
  | call {op : I.Op} {rest : I.Reply op → Program I α} {e : E} {r : I.Reply op} {s : S} :
      b.running = some (.call op rest) → exec b.state e op = some (r, s) →
      Moved b { b with state := s, running := some (rest r) }
  | finish {a : α} : b.running = some (.done a) →
      Moved b { b with running := none, ended := (a, b.state) :: b.ended }
  | kill : Moved b { b with running := none }

end

section
variable {exec : S → E → (op : I.Op) → Option (I.Reply op × S)} {p : Program I α} {start : S}
  {b b' : Boot I S α}

theorem moved_of_next {a : Label E} (h : (machine exec p start).next b a = some b') :
    Moved exec p b b' := by
  cases a with
  | launch =>
      simp only [machine, next] at h
      split at h <;> cases h
      next hnone => exact .launch hnone
  | call e =>
      simp only [machine, next] at h
      split at h
      · next hrunning =>
          obtain ⟨⟨r, s⟩, hr, rfl⟩ := Option.map_eq_some_iff.mp h
          exact .call hrunning hr
      · cases h
  | finish =>
      simp only [machine, next] at h
      split at h <;> cases h
      next hrunning => exact .finish hrunning
  | kill =>
      simp only [machine, next] at h
      split at h <;> cases h
      exact .kill

variable {inv : S → Prop} {R : S → S → Prop} {post : α → S → Prop}

/-- The invariant holds, what is running keeps to the relation, and what has
ended is as promised. -/
structure Sound (exec : S → E → (op : I.Op) → Option (I.Reply op × S)) (inv : S → Prop)
    (R : S → S → Prop) (post : α → S → Prop) (b : Boot I S α) : Prop where
  state : inv b.state
  running : ∀ q, b.running = some q → Keeps exec R q b.state post
  ended : ∀ r ∈ b.ended, post r.1 r.2

/-- One step, with what it does to the state. -/
theorem Sound.step (hb : Sound exec inv R post b) (hR : ∀ s s', inv s → R s s' → inv s')
    (hp : ∀ s, inv s → Keeps exec R p s post) (h : Moved exec p b b') :
    Sound exec inv R post b' ∧ (b'.state = b.state ∨ R b.state b'.state) := by
  cases h with
  | launch _ =>
      refine ⟨⟨hb.state, fun q hq => ?_, hb.ended⟩, .inl rfl⟩
      cases hq
      exact hp _ hb.state
  | @call op rest e r s hrunning he =>
      obtain ⟨hstep, hrest⟩ := hb.running _ hrunning e r s he
      refine ⟨⟨hR _ _ hb.state hstep, fun q hq => ?_, hb.ended⟩, .inr hstep⟩
      cases hq
      exact hrest
  | finish hrunning =>
      refine ⟨⟨hb.state, fun q hq => (by cases hq), fun r hr => ?_⟩, .inl rfl⟩
      rcases List.mem_cons.mp hr with rfl | hr
      · exact hb.running _ hrunning
      · exact hb.ended r hr
  | kill => exact ⟨⟨hb.state, fun q hq => (by cases hq), hb.ended⟩, .inl rfl⟩

theorem sound_of_reachable (hstart : inv start) (hR : ∀ s s', inv s → R s s' → inv s')
    (hp : ∀ s, inv s → Keeps exec R p s post)
    (h : Reachable (machine exec p start) anyStep b) : Sound exec inv R post b :=
  h.invariant ⟨hstart, fun q hq => (by cases hq), fun r hr => (List.not_mem_nil hr).elim⟩
    fun _ _ _ _ hb _ hn => (hb.step hR hp (moved_of_next hn)).1

/-- From a sound state on, all states are sound and related to it, and so is the end
of every launch that ends later. -/
theorem related_of_run (hb : Sound exec inv R post b) (hR : ∀ s s', inv s → R s s' → inv s')
    (hp : ∀ s, inv s → Keeps exec R p s post)
    (k : Run (machine exec p start) anyStep b b') : Sound exec inv R post b' ∧
      Relation.ReflTransGen R b.state b'.state ∧
        ∀ r ∈ b'.ended, r ∈ b.ended ∨ Relation.ReflTransGen R b.state r.2 := by
  refine k.carry (P := fun u => Sound exec inv R post u ∧ Relation.ReflTransGen R b.state u.state ∧
    ∀ r ∈ u.ended, r ∈ b.ended ∨ Relation.ReflTransGen R b.state r.2)
    ⟨hb, .refl, fun r hr => .inl hr⟩ ?_
  rintro u a v ⟨hu, hrelated, hended⟩ - hn
  have hmoved := moved_of_next hn
  obtain ⟨hv, hmove⟩ := hu.step hR hp hmoved
  refine ⟨hv, ?_, ?_⟩
  · rcases hmove with hsame | hstep
    · rw [hsame]
      exact hrelated
    · exact hrelated.tail hstep
  · cases hmoved with
    | finish _ =>
        intro r hr
        rcases List.mem_cons.mp hr with rfl | hr
        · exact .inr hrelated
        · exact hended r hr
    | _ => exact hended

theorem limited_some {allow : S → E → I.Op → Bool} {s : S} {e : E} {op : I.Op}
    {r : I.Reply op × S} (h : limited exec allow s e op = some r) :
    allow s e op = true ∧ exec s e op = some r := by
  unfold limited at h
  split at h
  · next hallow => exact ⟨hallow, h⟩
  · cases h

/-- A run of allowed choices is a run with the limited outside. -/
theorem run_limited {allow : S → E → I.Op → Bool}
    (k : Run (machine exec p start) (Heeds allow) b b') :
    Run (machine (limited exec allow) p start) anyStep b b' := by
  induction k with
  | done => exact .done _
  | @step u v a _ hg hn ih =>
      have hsame : next (limited exec allow) p u a = next exec p u a := by
        cases a with
        | call e =>
            cases hrunning : u.running with
            | none => simp only [next, hrunning]
            | some q =>
                cases q with
                | done a => simp only [next, hrunning]
                | call op rest => simp only [next, hrunning, limited, hg op rest hrunning, if_true]
        | _ => rfl
      exact .step ih trivial (hsame.trans hn)

end

end Xlpod.Relaunches
