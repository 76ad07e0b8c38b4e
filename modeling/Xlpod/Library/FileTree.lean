import Mathlib.Data.List.Basic
import Mathlib.Data.Nat.Notation
import Mathlib.Logic.Basic

/-!
# Trees of files and the paths through them

A tree has files, directories and symbolic links. A path is taken step by step
from a position: a name enters a child or follows a link, and two dots go back.
What a path resolves to is the position of a node that is no link, it is
unique, and it resolves to itself. A position that extends another is a node of
the subtree there.
-/
namespace Xlpod.FileTree

variable {N B : Type}

inductive Step (N : Type)
  | here
  | up
  | name (n : N)

structure Path (N : Type) where
  absolute : Bool
  steps : List (Step N)

/-- The path down these names from the root. -/
def Path.down (names : List N) : Path N := ⟨true, names.map .name⟩

inductive Node (N B : Type)
  | file (content : B)
  | dir (entries : List (N × Node N B))
  | link (target : Path N)

variable [BEq N]

def Node.child : Node N B → N → Option (Node N B)
  | .dir entries, n => entries.lookup n
  | _, _ => none

def Node.isLink : Node N B → Bool
  | .link _ => true
  | _ => false

def Node.isDir : Node N B → Bool
  | .dir _ => true
  | _ => false

def walk (t : Node N B) : List N → Option (Node N B)
  | [] => some t
  | n :: ns => (t.child n).bind fun c => walk c ns

/-- The position of a node that is no link. -/
def Solid (root : Node N B) (q : List N) : Prop :=
  ∃ node, walk root q = some node ∧ node.isLink = false

def IsDir (root : Node N B) (q : List N) : Prop := ∃ entries, walk root q = some (.dir entries)

/-- The steps lead from the position `q` to the position `p`. -/
inductive Resolves (root : Node N B) : List N → List (Step N) → List N → Prop
  | done {q : List N} : Solid root q → Resolves root q [] q
  | here {q p : List N} {rest : List (Step N)} : IsDir root q → Resolves root q rest p →
      Resolves root q (.here :: rest) p
  | up {q p : List N} {rest : List (Step N)} : IsDir root q → Resolves root q.dropLast rest p →
      Resolves root q (.up :: rest) p
  | enter {q p : List N} {n : N} {rest : List (Step N)} : Solid root (q ++ [n]) →
      Resolves root (q ++ [n]) rest p → Resolves root q (.name n :: rest) p
  | follow {q p : List N} {n : N} {rest : List (Step N)} {target : Path N} :
      walk root (q ++ [n]) = some (.link target) →
      Resolves root (if target.absolute then [] else q) (target.steps ++ rest) p →
      Resolves root q (.name n :: rest) p

/-- The position `p` is that of a node of the subtree at `r`. -/
def InSubtree (root : Node N B) (r p : List N) : Prop :=
  ∃ top rest, walk root r = some top ∧ p = r ++ rest ∧ (walk top rest).isSome

variable {root : Node N B} {p q r : List N} {steps : List (Step N)}

theorem walk_append (t : Node N B) (q r : List N) :
    walk t (q ++ r) = (walk t q).bind fun c => walk c r := by
  induction q generalizing t with
  | nil => rfl
  | cons n ns ih =>
      rw [List.cons_append, walk, walk, Option.bind_assoc]
      congr 1
      funext c
      exact ih c

/-- Only directories have nodes below them. -/
theorem dir_of_walk_append {n : N} (h : (walk root (q ++ n :: r)).isSome) : IsDir root q := by
  rw [walk_append] at h
  cases hq : walk root q with
  | none =>
      rw [hq] at h
      cases h
  | some node =>
      rw [hq] at h
      cases node with
      | dir entries => exact ⟨entries, hq⟩
      | file content => cases h
      | link target => cases h

theorem IsDir.solid (h : IsDir root q) : Solid root q := by
  obtain ⟨entries, hq⟩ := h
  exact ⟨.dir entries, hq, rfl⟩

theorem Resolves.solid (h : Resolves root q steps p) : Solid root p := by
  induction h with
  | done hq => exact hq
  | here _ _ ih => exact ih
  | up _ _ ih => exact ih
  | enter _ _ ih => exact ih
  | follow _ _ ih => exact ih

theorem not_link_of_solid {target : Path N} (h : Solid root q) :
    walk root q ≠ some (.link target) := by
  obtain ⟨node, hq, hnode⟩ := h
  rw [hq]
  intro hlink
  cases hlink
  cases hnode

theorem Resolves.unique (h : Resolves root q steps p) {p' : List N}
    (h' : Resolves root q steps p') : p = p' := by
  induction h with
  | done _ =>
      cases h' with
      | done _ => rfl
  | here _ _ ih =>
      cases h' with
      | here _ h' => exact ih h'
  | up _ _ ih =>
      cases h' with
      | up _ h' => exact ih h'
  | enter hsolid _ ih =>
      cases h' with
      | enter _ h' => exact ih h'
      | follow hlink _ => exact absurd hlink (not_link_of_solid hsolid)
  | follow hlink _ ih =>
      cases h' with
      | enter hsolid _ => exact absurd hlink (not_link_of_solid hsolid)
      | follow hlink' h' =>
          rw [hlink] at hlink'
          cases hlink'
          exact ih h'

/-- From a position, the names below it lead straight down. -/
theorem resolves_down (h : Solid root (q ++ p)) :
    Resolves root q (p.map .name) (q ++ p) := by
  induction p generalizing q with
  | nil =>
      rw [List.append_nil] at h ⊢
      exact .done h
  | cons n ns ih =>
      have hstep : q ++ n :: ns = (q ++ [n]) ++ ns := by simp
      have hbelow : Solid root (q ++ [n]) := by
        cases ns with
        | nil => exact h
        | cons m ms =>
            obtain ⟨node, hnode, -⟩ := h
            apply IsDir.solid
            apply dir_of_walk_append (n := m) (r := ms)
            rw [← hstep, hnode]
            rfl
      rw [hstep] at h ⊢
      exact .enter hbelow (ih h)

/-- What a path resolves to resolves to itself. -/
theorem resolves_self (h : Solid root p) : Resolves root [] (p.map .name) p :=
  resolves_down (q := []) h

theorem eq_of_resolves_self (h : Solid root p) (hp : Resolves root [] (p.map .name) q) : q = p :=
  hp.unique (resolves_self h)

/-- An extension of a position is a node of its subtree. -/
theorem inSubtree_of_prefix (hr : r <+: p) (hp : Solid root p) : InSubtree root r p := by
  obtain ⟨rest, rfl⟩ := hr
  obtain ⟨node, hnode, -⟩ := hp
  rw [walk_append] at hnode
  obtain ⟨top, htop, hrest⟩ := Option.bind_eq_some_iff.mp hnode
  exact ⟨top, rest, htop, rfl, Option.isSome_of_eq_some hrest⟩

theorem InSubtree.isPrefix (h : InSubtree root r p) : r <+: p := by
  obtain ⟨top, rest, -, rfl, -⟩ := h
  exact ⟨rest, rfl⟩

/-! ## Resolution, computed -/

/-- Some of what paths resolve to: `fuel` bounds the number of steps and links. -/
def resolve (root : Node N B) : ℕ → List N → List (Step N) → Option (List N)
  | 0, _, _ => none
  | _ + 1, q, [] => if (walk root q).any fun node => !node.isLink then some q else none
  | fuel + 1, q, .here :: rest =>
      if (walk root q).any Node.isDir then resolve root fuel q rest else none
  | fuel + 1, q, .up :: rest =>
      if (walk root q).any Node.isDir then resolve root fuel q.dropLast rest else none
  | fuel + 1, q, .name n :: rest =>
      match walk root (q ++ [n]) with
      | none => none
      | some (.link target) =>
          resolve root fuel (if target.absolute then [] else q) (target.steps ++ rest)
      | some _ => resolve root fuel (q ++ [n]) rest

theorem solid_iff : Solid root q ↔ ((walk root q).any fun node => !node.isLink) = true := by
  simp [Solid, Option.any_eq_true]

theorem isDir_iff : IsDir root q ↔ (walk root q).any Node.isDir = true := by
  rw [IsDir, Option.any_eq_true]
  constructor
  · rintro ⟨entries, hq⟩
    exact ⟨.dir entries, hq, rfl⟩
  · rintro ⟨node, hq, hnode⟩
    cases node with
    | dir entries => exact ⟨entries, hq⟩
    | file content => cases hnode
    | link target => cases hnode

theorem resolve_sound {fuel : ℕ} (h : resolve root fuel q steps = some p) :
    Resolves root q steps p := by
  induction fuel generalizing q steps with
  | zero => cases h
  | succ fuel ih =>
      cases steps with
      | nil =>
          rw [resolve, Option.ite_none_right_eq_some] at h
          obtain ⟨hsolid, heq⟩ := h
          cases heq
          exact .done (solid_iff.mpr hsolid)
      | cons step rest =>
          cases step with
          | here =>
              rw [resolve, Option.ite_none_right_eq_some] at h
              exact .here (isDir_iff.mpr h.1) (ih h.2)
          | up =>
              rw [resolve, Option.ite_none_right_eq_some] at h
              exact .up (isDir_iff.mpr h.1) (ih h.2)
          | name n =>
              rw [resolve] at h
              split at h
              · cases h
              · next target hlink => exact .follow hlink (ih h)
              · next node hlink hnode =>
                  refine .enter ⟨node, hnode, ?_⟩ (ih h)
                  cases node with
                  | link target => exact (hlink target rfl).elim
                  | _ => rfl

end Xlpod.FileTree
