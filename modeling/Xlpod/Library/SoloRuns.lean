import Xlpod.Library.Programs

/-!
# A program alone

The calls of one program, each answered in turn from a list of what the outside
decides. A run of a sequence is the run of its first part and then, on what is
left of the list, of the second. A program that meets a contract does so when it
runs alone, as long as what the contract assumes of the replies and its local
state are read off the real state.
-/
namespace Xlpod.SoloRuns
open Xlpod.Programs

variable {I : Interface} {S E G α β γ ε : Type}

/-! ## Sequences -/

theorem bind_done (p : Program I α) : p >>= pure = p := by
  induction p with
  | done a => rfl
  | call op rest ih => exact congrArg (Program.call op) (funext ih)

theorem bind_bind (p : Program I α) (f : α → Program I β) (g : β → Program I γ) :
    p >>= f >>= g = p >>= fun a => f a >>= g := by
  induction p with
  | done a => rfl
  | call op rest ih => exact congrArg (Program.call op) (funext ih)

instance : LawfulMonad (Program I) := LawfulMonad.mk' _ bind_done (fun _ _ => rfl) bind_bind

/-! ## Runs -/

/-- The result, the state after it, and the answers not used. -/
def perform (exec : S → E → (op : I.Op) → Option (I.Reply op × S)) :
    Program I α → S → List E → Option (α × S × List E)
  | .done a, s, es => some (a, s, es)
  | .call _ _, _, [] => none
  | .call op rest, s, e :: es => (exec s e op).bind fun r => perform exec (rest r.1) r.2 es

variable {exec : S → E → (op : I.Op) → Option (I.Reply op × S)}

@[simp] theorem perform_pure (a : α) (s : S) (es : List E) :
    perform exec (pure a : Program I α) s es = some (a, s, es) := rfl

theorem perform_bind (p : Program I α) (f : α → Program I β) (s : S) (es : List E) :
    perform exec (p >>= f) s es =
      (perform exec p s es).bind fun r => perform exec (f r.1) r.2.1 r.2.2 := by
  induction p generalizing s es with
  | done a => rfl
  | call op rest ih =>
      cases es with
      | nil => rfl
      | cons e es =>
          change (exec s e op).bind (fun r => perform exec (rest r.1 >>= f) r.2 es) = _
          rw [perform, Option.bind_assoc]
          congr
          funext r
          exact ih r.1 r.2 es

/-- What follows the first part of a sequence that may fail. -/
def afterwards (exec : S → E → (op : I.Op) → Option (I.Reply op × S))
    (f : α → ExceptT ε (Program I) β) :
    Except ε α × S × List E → Option (Except ε β × S × List E)
  | (.ok a, s, es) => perform exec (f a).run s es
  | (.error e, s, es) => some (.error e, s, es)

theorem perform_exceptBind (x : ExceptT ε (Program I) α) (f : α → ExceptT ε (Program I) β) (s : S)
    (es : List E) :
    perform exec (x >>= f).run s es = (perform exec x.run s es).bind (afterwards exec f) := by
  change perform exec (x.run >>= ExceptT.bindCont f) s es = _
  rw [perform_bind]
  congr
  funext r
  obtain ⟨result, s', es'⟩ := r
  cases result <;> rfl

/-- A run that got past its first call. -/
theorem perform_call {op : I.Op} {k : I.Reply op → Program I α} {s : S} {es : List E}
    {out : α × S × List E} (h : perform exec (.call op k) s es = some out) :
    ∃ e es' r s', es = e :: es' ∧ exec s e op = some (r, s') ∧
      perform exec (k r) s' es' = some out := by
  cases es with
  | nil => cases h
  | cons e es' =>
      obtain ⟨r, hr, hout⟩ := Option.bind_eq_some_iff.mp h
      exact ⟨e, es', r.1, r.2, rfl, hr, hout⟩

/-- A sequence that did not fail. -/
theorem perform_exceptBind_ok {x : ExceptT ε (Program I) α} {f : α → ExceptT ε (Program I) β}
    {s s' : S} {es rest : List E} {b : β}
    (h : perform exec (x >>= f).run s es = some (.ok b, s', rest)) :
    ∃ a u es', perform exec x.run s es = some (.ok a, u, es') ∧
      perform exec (f a).run u es' = some (.ok b, s', rest) := by
  rw [perform_exceptBind] at h
  obtain ⟨out, hout, hafter⟩ := Option.bind_eq_some_iff.mp h
  obtain ⟨result, u, es'⟩ := out
  cases result with
  | error e => cases hafter
  | ok a => exact ⟨a, u, es', hout, hafter⟩

/-- The contract speaks of the state the program runs on. -/
def Describes (C : Contract I G) (view : S → G)
    (exec : S → E → (op : I.Op) → Option (I.Reply op × S)) : Prop :=
  ∀ s e op r s', exec s e op = some (r, s') →
    C.fact (view s) op r ∧ C.next (view s) op r = view s'

theorem Describes.perform {C : Contract I G} {view : S → G} (hC : Describes C view exec)
    {p : Program I α} {s s' : S} {es rest : List E} {a : α} {post : G → α → Prop}
    (h : Meets C p (view s) post) (hp : perform exec p s es = some (a, s', rest)) :
    post (view s') a := by
  induction p generalizing s es with
  | done b =>
      cases hp
      exact h
  | call op k ih =>
      cases es with
      | nil => cases hp
      | cons e es =>
          obtain ⟨r, hr, hp⟩ := Option.bind_eq_some_iff.mp hp
          obtain ⟨hfact, hnext⟩ := hC s e op r.1 r.2 hr
          have hk := h.2 r.1 hfact
          rw [hnext] at hk
          exact ih r.1 hk hp

end Xlpod.SoloRuns
