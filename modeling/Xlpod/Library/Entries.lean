import Mathlib.Data.List.Basic
import Mathlib.Tactic.TypeStar

/-!
# Named entries with the last one found

A sequence of named entries in which a name may repeat and a lookup returns the
last entry of the name. Relabelling gives every entry the new content of its
name, so it changes what each name shows and nothing about the names.
-/
namespace Xlpod.Entries

variable {Name Data : Type*}

def names (entries : List (Name × Data)) : List Name := entries.map Prod.fst

def relabel (content : Name → Data) (entries : List (Name × Data)) : List (Name × Data) :=
  entries.map fun e => (e.1, content e.1)

@[simp] theorem names_append (xs ys : List (Name × Data)) :
    names (xs ++ ys) = names xs ++ names ys := by
  simp [names]

@[simp] theorem names_relabel (content : Name → Data) (entries : List (Name × Data)) :
    names (relabel content entries) = names entries := by
  simp [names, relabel]

theorem relabel_append (content : Name → Data) (xs ys : List (Name × Data)) :
    relabel content (xs ++ ys) = relabel content xs ++ relabel content ys := by
  simp [relabel]

/-- Relabelling depends on the content of the names that occur. -/
theorem relabel_congr {content content' : Name → Data} {entries : List (Name × Data)}
    (h : ∀ name ∈ names entries, content name = content' name) :
    relabel content entries = relabel content' entries := by
  apply List.map_congr_left
  intro e he
  have hname : e.1 ∈ names entries := List.mem_map_of_mem he
  rw [h e.1 hname]

theorem relabel_relabel (content content' : Name → Data) (entries : List (Name × Data)) :
    relabel content' (relabel content entries) = relabel content' entries := by
  simp [relabel]

section Lookup
variable [DecidableEq Name]

def lastOf (entries : List (Name × Data)) (name : Name) : Option Data :=
  entries.reverse.lookup name

theorem lastOf_append (xs ys : List (Name × Data)) (name : Name) :
    lastOf (xs ++ ys) name = (lastOf ys name).or (lastOf xs name) := by
  rw [lastOf, List.reverse_append, List.lookup_append]
  rfl

theorem lastOf_single (name other : Name) (data : Data) :
    lastOf [(other, data)] name = if name = other then some data else none := by
  by_cases h : name = other
  · simp [lastOf, h]
  · simp [lastOf, List.lookup_cons, beq_false_of_ne h, h]

theorem lastOf_eq_none {entries : List (Name × Data)} {name : Name} :
    lastOf entries name = none ↔ name ∉ names entries := by
  rw [lastOf, List.lookup_eq_none_iff]
  constructor
  · intro h hmem
    obtain ⟨e, he, hname⟩ := List.mem_map.mp hmem
    have hne := h e (List.mem_reverse.mpr he)
    simp [hname] at hne
  · intro h e he
    have hmem : e.1 ∈ names entries := List.mem_map_of_mem (List.mem_reverse.mp he)
    simp only [bne_iff_ne, ne_eq]
    intro hname
    exact h (hname ▸ hmem)

theorem lastOf_some_of_mem {entries : List (Name × Data)} {name : Name}
    (h : name ∈ names entries) : ∃ data, lastOf entries name = some data := by
  have hne : lastOf entries name ≠ none := fun hn => lastOf_eq_none.mp hn h
  exact Option.ne_none_iff_exists'.mp hne

theorem lastOf_relabel (content : Name → Data) (entries : List (Name × Data)) (name : Name) :
    lastOf (relabel content entries) name =
      if name ∈ names entries then some (content name) else none := by
  induction entries with
  | nil => rfl
  | cons e entries ih =>
      have hsplit : relabel content (e :: entries) =
          [(e.1, content e.1)] ++ relabel content entries := rfl
      have hnames : names (e :: entries) = e.1 :: names entries := rfl
      rw [hsplit, lastOf_append, ih, lastOf_single, hnames]
      by_cases hmem : name ∈ names entries
      · simp [hmem]
      · by_cases hhead : name = e.1
        · subst hhead
          simp [hmem]
        · simp [hmem, hhead]

end Lookup

end Xlpod.Entries
