import Mathlib.Logic.Basic
import Mathlib.Tactic.TypeStar

/-!
# Programs over an interface

A program is a tree of calls on an interface; each call continues with the
reply it gets. A contract keeps a local state along the calls: it says what the
program promises before a call, what it may assume of the reply, and how the
local state moves. `Meets` is the weakest precondition of a program under a
contract, computed by recursion over the tree.
-/
namespace Xlpod.Programs

structure Interface where
  Op : Type
  Reply : Op → Type

inductive Program (I : Interface) (α : Type)
  | done (a : α)
  | call (op : I.Op) (rest : I.Reply op → Program I α)

variable {I : Interface} {G α β ε : Type}

def Program.bind (p : Program I α) (f : α → Program I β) : Program I β :=
  match p with
  | .done a => f a
  | .call op rest => .call op fun r => (rest r).bind f

instance : Monad (Program I) where
  pure := .done
  bind := Program.bind

/-! ## Contracts -/

structure Contract (I : Interface) (G : Type) where
  pre : G → I.Op → Prop
  fact : G → (op : I.Op) → I.Reply op → Prop
  next : G → (op : I.Op) → I.Reply op → G

def Meets (C : Contract I G) : Program I α → G → (G → α → Prop) → Prop
  | .done a, g, post => post g a
  | .call op rest, g, post => C.pre g op ∧
      ∀ r, C.fact g op r → Meets C (rest r) (C.next g op r) post

section
variable {C : Contract I G} {g : G}

@[simp] theorem meets_pure {a : α} {post : G → α → Prop} :
    Meets C (pure a : Program I α) g post ↔ post g a := Iff.rfl

@[simp] theorem meets_done {a : α} {post : G → α → Prop} :
    Meets C (.done a : Program I α) g post ↔ post g a := Iff.rfl

@[simp] theorem meets_call {op : I.Op} {rest : I.Reply op → Program I α} {post : G → α → Prop} :
    Meets C (.call op rest) g post ↔ C.pre g op ∧
      ∀ r, C.fact g op r → Meets C (rest r) (C.next g op r) post := Iff.rfl

@[simp] theorem meets_bind {p : Program I α} {f : α → Program I β} {post : G → β → Prop} :
    Meets C (p >>= f) g post ↔ Meets C p g fun g a => Meets C (f a) g post := by
  induction p generalizing g with
  | done a => rfl
  | call op rest ih =>
      change (_ ∧ ∀ r, _ → Meets C (rest r >>= f) _ _) ↔ _
      simp only [ih]
      rfl

theorem Meets.mono {p : Program I α} {post post' : G → α → Prop} (h : Meets C p g post)
    (hp : ∀ g a, post g a → post' g a) : Meets C p g post' := by
  induction p generalizing g with
  | done a => exact hp g a h
  | call op rest ih => exact ⟨h.1, fun r hr => ih r (h.2 r hr)⟩

theorem meets_map {p : Program I α} {f : α → β} {post : G → β → Prop} :
    Meets C (f <$> p) g post ↔ Meets C p g fun g a => post g (f a) :=
  meets_bind (f := fun a => pure (f a))

theorem meets_ite {c : Prop} [Decidable c] {p q : Program I α} {post : G → α → Prop} :
    Meets C (if c then p else q) g post ↔
      (c → Meets C p g post) ∧ (¬c → Meets C q g post) := by
  split <;> simp_all

/-! ### Programs that may fail

These rules fire before `simp` can take the transformer apart. -/

/-- The postcondition of the part before a `?`. -/
def OnResult (ok : G → α → Prop) (error : G → ε → Prop) (g : G) : Except ε α → Prop
  | .ok a => ok g a
  | .error e => error g e

@[simp] theorem onResult_ok {ok : G → α → Prop} {error : G → ε → Prop} {a : α} :
    OnResult ok error g (.ok a) ↔ ok g a := Iff.rfl

@[simp] theorem onResult_error {ok : G → α → Prop} {error : G → ε → Prop} {e : ε} :
    OnResult ok error g (.error e) ↔ error g e := Iff.rfl

@[simp ↓] theorem meets_exceptPure {a : α} {post : G → Except ε α → Prop} :
    Meets C (pure a : ExceptT ε (Program I) α).run g post ↔ post g (.ok a) := Iff.rfl

@[simp ↓] theorem meets_throw {e : ε} {post : G → Except ε α → Prop} :
    Meets C (throw e : ExceptT ε (Program I) α).run g post ↔ post g (.error e) := Iff.rfl

@[simp ↓] theorem meets_exceptBind {x : ExceptT ε (Program I) α} {f : α → ExceptT ε (Program I) β}
    {post : G → Except ε β → Prop} :
    Meets C (x >>= f).run g post ↔ Meets C x.run g
      (OnResult (fun g a => Meets C (f a).run g post) fun g e => post g (.error e)) := by
  change Meets C (x.run >>= ExceptT.bindCont f) g post ↔ _
  rw [meets_bind]
  constructor <;> intro h <;> refine h.mono fun g r hr => ?_ <;> cases r <;> exact hr

@[simp ↓] theorem meets_lift {p : Program I α} {post : G → Except ε α → Prop} :
    Meets C (liftM p : ExceptT ε (Program I) α).run g post ↔
      Meets C p g fun g a => post g (.ok a) :=
  meets_map

@[simp ↓] theorem meets_exceptIte {c : Prop} [Decidable c] {x y : ExceptT ε (Program I) α}
    {post : G → Except ε α → Prop} : Meets C (if c then x else y).run g post ↔
      (c → Meets C x.run g post) ∧ (¬c → Meets C y.run g post) :=
  meets_ite

end

/-! ## Footprints -/

/-- The contract that allows certain calls and assumes nothing. -/
def footprint (allowed : I.Op → Prop) : Contract I Unit where
  pre _ op := allowed op
  fact _ _ _ := True
  next _ _ _ := ()

@[simp] theorem footprint_pre {allowed : I.Op → Prop} {u : Unit} {op : I.Op} :
    (footprint allowed).pre u op ↔ allowed op := Iff.rfl

@[simp] theorem footprint_fact {allowed : I.Op → Prop} {u : Unit} {op : I.Op} {r : I.Reply op} :
    (footprint allowed).fact u op r ↔ True := Iff.rfl

@[simp] theorem footprint_next {allowed : I.Op → Prop} {u : Unit} {op : I.Op} {r : I.Reply op} :
    (footprint allowed).next u op r = () := rfl

/-- Every call the program can make is allowed. -/
def Uses (allowed : I.Op → Prop) (p : Program I α) : Prop :=
  Meets (footprint allowed) p () fun _ _ => True

section
variable {allowed allowed' : I.Op → Prop}

theorem uses_pure (a : α) : Uses allowed (pure a : Program I α) := trivial

theorem uses_call {op : I.Op} {rest : I.Reply op → Program I α} :
    Uses allowed (.call op rest) ↔ allowed op ∧ ∀ r, Uses allowed (rest r) :=
  ⟨fun h => ⟨h.1, fun r => h.2 r trivial⟩, fun h => ⟨h.1, fun r _ => h.2 r⟩⟩

theorem Uses.bind {p : Program I α} {f : α → Program I β} (hp : Uses allowed p)
    (hf : ∀ a, Uses allowed (f a)) : Uses allowed (p >>= f) :=
  meets_bind.mpr (hp.mono fun _ a _ => hf a)

theorem Uses.bindExcept {x : ExceptT ε (Program I) α} {f : α → ExceptT ε (Program I) β}
    (hx : Uses allowed x.run) (hf : ∀ a, Uses allowed (f a).run) : Uses allowed (x >>= f).run := by
  refine meets_exceptBind.mpr (hx.mono fun _ r _ => ?_)
  cases r with
  | ok a => exact hf a
  | error e => trivial

theorem Uses.exceptIte {c : Prop} [Decidable c] {x y : ExceptT ε (Program I) α}
    (hx : c → Uses allowed x.run) (hy : ¬c → Uses allowed y.run) :
    Uses allowed (if c then x else y).run :=
  meets_exceptIte.mpr ⟨hx, hy⟩

theorem Uses.lift {p : Program I α} (hp : Uses allowed p) :
    Uses allowed (liftM p : ExceptT ε (Program I) α).run :=
  meets_lift.mpr (hp.mono fun _ _ _ => trivial)

/-- A program whose calls keep a predicate on the local state meets the contract. -/
theorem Uses.meets {C : Contract I G} {p : Program I α} {g : G} {K : G → Prop}
    (hp : Uses allowed p) (hK : K g) (hpre : ∀ g op, K g → allowed op → C.pre g op)
    (hnext : ∀ g op r, K g → allowed op → K (C.next g op r)) :
    Meets C p g fun g _ => K g := by
  induction p generalizing g with
  | done a => exact hK
  | call op rest ih =>
      exact ⟨hpre g op hK hp.1, fun r _ => ih r (hp.2 r trivial) (hnext g op r hK hp.1)⟩

/-- What another contract tells of the result holds here too, when that contract
assumes no more of the replies. -/
theorem Uses.meets_telling {H : Type} {C : Contract I G} {D : Contract I H} {p : Program I α} {g : G}
    {h : H} {K : G → Prop} {post : α → Prop} (hp : Uses allowed p)
    (hD : Meets D p h fun _ a => post a) (hK : K g) (hpre : ∀ g op, K g → allowed op → C.pre g op)
    (hnext : ∀ g op r, K g → allowed op → K (C.next g op r))
    (hfact : ∀ g h op r, C.fact g op r → D.fact h op r) :
    Meets C p g fun g a => K g ∧ post a := by
  induction p generalizing g h with
  | done a => exact ⟨hK, hD⟩
  | call op rest ih =>
      refine ⟨hpre g op hK hp.1, fun r hr => ?_⟩
      exact ih r (hp.2 r trivial) (hD.2 r (hfact g h op r hr)) (hnext g op r hK hp.1)

/-- The contract allows these calls and its local state does not move at them. -/
def Ignores (C : Contract I G) (quiet : I.Op → Prop) : Prop :=
  ∀ g op, quiet op → C.pre g op ∧ ∀ r, C.next g op r = g

theorem Ignores.meets {C : Contract I G} {p : Program I α} {g : G} (hC : Ignores C allowed)
    (hp : Uses allowed p) : Meets C p g fun g' _ => g' = g := by
  apply hp.meets (K := fun g' => g' = g) rfl
  · intro g' op _ ho
    exact (hC g' op ho).1
  · intro g' op r hg ho
    rw [(hC g' op ho).2 r, hg]

theorem Ignores.step {C : Contract I G} (hC : Ignores C allowed) (op : I.Op) (ho : allowed op)
    {f : I.Reply op → Program I β} {g : G} {post : G → β → Prop}
    (hf : ∀ r, Meets C (f r) g post) : Meets C (Program.call op .done >>= f) g post := by
  obtain ⟨hpre, hnext⟩ := hC g op ho
  refine ⟨hpre, fun r _ => ?_⟩
  rw [hnext r]
  exact hf r

theorem Ignores.mono {C : Contract I G} (hC : Ignores C allowed)
    (h : ∀ op, allowed' op → allowed op) : Ignores C allowed' :=
  fun g op ho => hC g op (h op ho)

/-- A contract without obligations is met. -/
theorem meets_free {C : Contract I G} (hC : ∀ g op, C.pre g op) (p : Program I α) (g : G) :
    Meets C p g fun _ _ => True := by
  induction p generalizing g with
  | done a => trivial
  | call op rest ih => exact ⟨hC g op, fun r _ => ih r (C.next g op r)⟩

theorem Uses.mono {p : Program I α} (hp : Uses allowed p) (h : ∀ op, allowed op → allowed' op) :
    Uses allowed' p :=
  hp.meets (K := fun _ => True) trivial (fun _ op _ ha => h op ha) fun _ _ _ _ _ => trivial

end

end Xlpod.Programs
