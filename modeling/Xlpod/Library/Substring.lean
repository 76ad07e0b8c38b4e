import Mathlib.Data.List.Infix
import Mathlib.Tactic.TypeStar

/-!
# Searching for a fixed word in a text

`find` is the index of the first occurrence, as the `find` method of byte and
character strings computes it. The lemmas locate an occurrence: a character
outside the word separates the text, a last character of the word cannot be
supplied by a text that lacks it, and escaping each character of a text keeps
exactly the occurrences whose characters are escaped to themselves.
-/
namespace Xlpod.Substring

variable {α β : Type*}

/-- Index of the first occurrence of `word`. -/
def find [DecidableEq α] (word : List α) : List α → Option ℕ
  | [] => if word = [] then some 0 else none
  | c :: cs => if word.isPrefixOf (c :: cs) then some 0 else (find word cs).map (· + 1)

theorem infix_separated {word a b : List α} {c : α} (hc : c ∉ word) (hne : word ≠ []) :
    word <:+: a ++ c :: b ↔ word <:+: a ∨ word <:+: b := by
  have hcons : word <:+: c :: b ↔ word <:+: b := by
    rw [List.infix_cons_iff, or_iff_right]
    intro h
    obtain ⟨d, ds, rfl⟩ := List.exists_cons_of_ne_nil hne
    rw [List.cons_prefix_cons] at h
    exact hc (by simp [h.1])
  -- An occurrence across the boundary would contain the separator.
  have hcross : ¬ ∃ l₁ l₂, l₁ ≠ [] ∧ l₂ ≠ [] ∧ word = l₁ ++ l₂ ∧ l₁ <:+ a ∧ l₂ <+: c :: b := by
    rintro ⟨l₁, l₂, -, h₂, rfl, -, hp⟩
    obtain ⟨d, ds, rfl⟩ := List.exists_cons_of_ne_nil h₂
    rw [List.cons_prefix_cons] at hp
    exact hc (by simp [hp.1])
  rw [List.infix_append_iff_ne_nil, hcons, or_iff_left hcross]

theorem infix_cons_foreign {word b : List α} {c : α} (hc : c ∉ word) (hne : word ≠ []) :
    word <:+: c :: b ↔ word <:+: b := by
  have h := infix_separated (a := []) (b := b) hc hne
  simpa [hne] using h

theorem infix_append_foreign {word gap b : List α} (hg : ∀ c ∈ gap, c ∉ word) (hne : word ≠ []) :
    word <:+: gap ++ b ↔ word <:+: b := by
  induction gap with
  | nil => rfl
  | cons c gap ih =>
      rw [List.cons_append, infix_cons_foreign (hg c (by simp)) hne,
        ih fun d hd => hg d (by simp [hd])]

theorem infix_concat_foreign {word a : List α} {z c : α} (hz : z ≠ c) :
    word ++ [z] <:+: a ++ [c] ↔ word ++ [z] <:+: a := by
  refine ⟨?_, fun h => h.trans (List.prefix_append a [c]).isInfix⟩
  rw [List.infix_concat_iff]
  rintro (⟨s, hs⟩ | h)
  · rw [← List.append_assoc] at hs
    exact absurd (List.append_inj_right' hs rfl) (by simpa using hz)
  · exact h

theorem not_infix_of_last (word : List α) {a : List α} {z : α} (hz : z ∉ a) :
    ¬ word ++ [z] <:+: a :=
  fun h => hz (h.subset (by simp))

section Escaping
variable {esc : β → List α} {code : α → β}

/-- Each character of `word` is its own escape, and occurs in no other one. -/
structure Plain (esc : β → List α) (code : α → β) (word : List α) : Prop where
  self : ∀ n ∈ word, esc (code n) = [n]
  only : ∀ n ∈ word, ∀ c, n ∈ esc c → c = code n
  nonempty : ∀ c, esc c ≠ []

theorem Plain.tail {n : α} {word : List α} (h : Plain esc code (n :: word)) :
    Plain esc code word :=
  ⟨fun m hm => h.self m (by simp [hm]), fun m hm => h.only m (by simp [hm]), h.nonempty⟩

theorem prefix_flatMap {word : List α} (h : Plain esc code word) (s : List β) :
    word <+: s.flatMap esc ↔ word.map code <+: s := by
  induction word generalizing s with
  | nil => simp
  | cons n word ih =>
      cases s with
      | nil => simp
      | cons c s =>
          rw [List.flatMap_cons, List.map_cons, List.cons_prefix_cons, ← ih h.tail]
          constructor
          · intro hp
            obtain ⟨d, ds, hd⟩ := List.exists_cons_of_ne_nil (h.nonempty c)
            rw [hd, List.cons_append, List.cons_prefix_cons] at hp
            have hc : c = code n := h.only n (by simp) c (by simp [hd, hp.1])
            have hn := h.self n (by simp)
            rw [← hc, hd] at hn
            simp only [List.cons.injEq] at hn
            refine ⟨hc.symm, ?_⟩
            simpa [hn.2] using hp.2
          · rintro ⟨rfl, hp⟩
            rw [h.self n (by simp), List.singleton_append, List.cons_prefix_cons]
            exact ⟨rfl, hp⟩

/-- An escaped text contains a plain word exactly where the text does. -/
theorem infix_flatMap {word : List α} (h : Plain esc code word) (hne : word ≠ []) (s : List β) :
    word <:+: s.flatMap esc ↔ word.map code <:+: s := by
  induction s with
  | nil => simp
  | cons c s ih =>
      rw [List.infix_cons_iff, ← ih, ← prefix_flatMap h]
      by_cases hc : ∃ n ∈ word, c = code n
      · obtain ⟨n, hn, rfl⟩ := hc
        rw [List.flatMap_cons, h.self n hn, List.singleton_append, List.infix_cons_iff]
      · have hg : ∀ d ∈ esc c, d ∉ word := fun d hd hw => hc ⟨d, hw, h.only d hw c hd⟩
        rw [List.flatMap_cons, infix_append_foreign hg hne]
        refine ⟨.inr, fun hp => hp.elim (fun hp => ?_) id⟩
        obtain ⟨d, ds, hd⟩ := List.exists_cons_of_ne_nil (h.nonempty c)
        obtain ⟨m, word, rfl⟩ := List.exists_cons_of_ne_nil hne
        rw [hd, List.cons_append, List.cons_prefix_cons] at hp
        exact absurd (by simp [hp.1]) (hg d (by simp [hd]))

end Escaping

section Find
variable [DecidableEq α]

/-- The first occurrence is the given one when none ends before it does. -/
theorem find_first {word a b : List α} (hne : word ≠ [])
    (h : ¬ word <:+: a ++ word.dropLast) : find word (a ++ (word ++ b)) = some a.length := by
  induction a with
  | nil =>
      obtain ⟨d, ds, rfl⟩ := List.exists_cons_of_ne_nil hne
      have hp : (d :: ds).isPrefixOf (d :: ds ++ b) = true := by
        rw [List.isPrefixOf_iff_prefix]
        exact List.prefix_append _ _
      rw [List.nil_append, List.cons_append, find, ← List.cons_append, if_pos hp]
      rfl
  | cons c a ih =>
      have hn : ¬ word.isPrefixOf (c :: a ++ (word ++ b)) = true := by
        rw [List.isPrefixOf_iff_prefix]
        intro hp
        refine h (List.IsPrefix.isInfix ?_)
        refine List.prefix_of_prefix_length_le hp ?_ (by simp; omega)
        refine ⟨[word.getLast hne] ++ b, ?_⟩
        rw [List.append_assoc, ← List.append_assoc word.dropLast, List.dropLast_append_getLast]
      rw [List.cons_append] at hn ⊢
      rw [find, if_neg hn, ih fun hi => h (hi.trans (List.suffix_cons c _).isInfix)]
      rfl

/-- An occurrence inside the front part is found inside it. -/
theorem find_front {word a : List α} (b : List α) (hne : word ≠ []) (h : word <:+: a) :
    ∃ i, find word (a ++ b) = some i ∧ i + word.length ≤ a.length := by
  induction a with
  | nil => exact absurd (List.infix_nil.mp h) hne
  | cons c a ih =>
      rw [List.cons_append, find]
      split_ifs with hp
      · refine ⟨0, rfl, ?_⟩
        have := h.length_le
        omega
      · rcases List.infix_cons_iff.mp h with hq | hq
        · exact absurd (List.isPrefixOf_iff_prefix.mpr (hq.trans (List.prefix_append _ b))) hp
        · obtain ⟨i, hi, hl⟩ := ih hq
          exact ⟨i + 1, by simp [hi], by simp; omega⟩

end Find

end Xlpod.Substring
