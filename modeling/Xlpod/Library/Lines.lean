import Mathlib.Data.List.Basic

/-!
# Lines

A text as lines that each end with a separator. What follows the last separator
is not a line yet. A text cut anywhere keeps its first lines, and a line that
was written only in part costs at most the whole line after it.
-/
namespace Xlpod.Lines

variable {α : Type*}

/-- Each line with its separator. -/
def unlines (sep : α) (ls : List (List α)) : List α := ls.flatMap (· ++ [sep])

theorem unlines_append {sep : α} (ls ls' : List (List α)) :
    unlines sep (ls ++ ls') = unlines sep ls ++ unlines sep ls' :=
  List.flatMap_append

/-! ## Torn writes -/

section
variable {β : Type*} {sep : α} {line : β → List α} {a : β × ℕ} {as : List (β × ℕ)}

/-- The text that appending a record left: its line, as far as it was kept. -/
def put (sep : α) (line : β → List α) (a : β × ℕ) : List α := (line a.1 ++ [sep]).take a.2

def whole (line : β → List α) (a : β × ℕ) : Bool := (line a.1).length < a.2

def appended (sep : α) (line : β → List α) (as : List (β × ℕ)) : List α := as.flatMap (put sep line)

/-- The whole records that do not follow a torn one. -/
def intact (line : β → List α) : Bool → List (β × ℕ) → List β
  | _, [] => []
  | fresh, a :: as =>
      if whole line a then (if fresh then [a.1] else []) ++ intact line true as
      else intact line (fresh && a.2 = 0) as

theorem put_whole (h : whole line a = true) : put sep line a = line a.1 ++ [sep] := by
  have hlen : (line a.1).length < a.2 := of_decide_eq_true h
  rw [put, List.take_of_length_le]
  rw [List.length_append, List.length_singleton]
  exact hlen

theorem put_torn (h : ¬ whole line a = true) : put sep line a = (line a.1).take a.2 := by
  have hlen : ¬ (line a.1).length < a.2 := fun hlt => h (decide_eq_true hlt)
  rw [put, List.take_append_of_le_length (Nat.le_of_not_lt hlen)]

theorem appended_filterMap {γ : Type*} (f : γ → Option (β × ℕ)) (xs : List γ) :
    appended sep line (xs.filterMap f) = xs.flatMap fun x => appended sep line (f x).toList := by
  rw [appended, List.filterMap_eq_flatMap_toList, List.flatMap_assoc]
  rfl

theorem appended_whole (h : ∀ a ∈ as, whole line a = true) :
    appended sep line as = unlines sep (as.map fun a => line a.1) := by
  rw [unlines, List.flatMap_map]
  exact List.flatMap_congr fun a ha => put_whole (h a ha)

end

/-! ## Reading -/

variable [DecidableEq α] {sep : α} {ls : List (List α)} {tail p text : List α}

/-- The lines that are ended. -/
def ended (sep : α) (text : List α) : List (List α) := (text.splitOn sep).dropLast

theorem splitOn_unlines (h : ∀ l ∈ ls, sep ∉ l) (tail : List α) :
    (unlines sep ls ++ tail).splitOn sep = ls ++ tail.splitOn sep := by
  induction ls with
  | nil => rfl
  | cons l ls ih =>
      have htext : unlines sep (l :: ls) ++ tail = l ++ sep :: (unlines sep ls ++ tail) := by
        simp [unlines]
      rw [htext, List.splitOn_append_cons_self_of_not_mem (h l (by simp)),
        ih fun l' hl' => h l' (by simp [hl']), List.cons_append]

theorem ended_unlines_append (h : ∀ l ∈ ls, sep ∉ l) (tail : List α) :
    ended sep (unlines sep ls ++ tail) = ls ++ ended sep tail := by
  rw [ended, splitOn_unlines h, List.dropLast_append_of_ne_nil (List.splitOn_ne_nil sep tail), ended]

theorem ended_of_not_mem (h : sep ∉ tail) : ended sep tail = [] := by
  rw [ended, List.splitOn_eq_singleton h]
  rfl

theorem ended_unlines (h : ∀ l ∈ ls, sep ∉ l) : ended sep (unlines sep ls) = ls := by
  have hnil : ended sep ([] : List α) = [] := ended_of_not_mem (by simp)
  have hended := ended_unlines_append h ([] : List α)
  rw [hnil, List.append_nil, List.append_nil] at hended
  exact hended

/-- Every text is lines and the rest. -/
theorem exists_lines (sep : α) (text : List α) :
    ∃ ls tail, text = unlines sep ls ++ tail ∧ (∀ l ∈ ls, sep ∉ l) ∧ sep ∉ tail := by
  induction text with
  | nil => exact ⟨[], [], rfl, by simp, by simp⟩
  | cons c cs ih =>
      obtain ⟨ls, tail, rfl, hls, htail⟩ := ih
      by_cases hc : c = sep
      · subst hc
        exact ⟨[] :: ls, tail, rfl, by simpa using hls, htail⟩
      · cases ls with
        | nil => exact ⟨[], c :: tail, rfl, by simp, by simp [Ne.symm hc, htail]⟩
        | cons l ls =>
            obtain ⟨hl, hrest⟩ := List.forall_mem_cons.mp hls
            refine ⟨(c :: l) :: ls, tail, rfl, List.forall_mem_cons.mpr ⟨?_, hrest⟩, htail⟩
            simp [Ne.symm hc, hl]

theorem prefix_ended (h : p <+: text) : ended sep p <+: ended sep text := by
  obtain ⟨rest, rfl⟩ := h
  obtain ⟨ls, tail, rfl, hls, htail⟩ := exists_lines sep p
  rw [List.append_assoc, ended_unlines_append hls, ended_unlines_append hls, ended_of_not_mem htail,
    List.append_nil]
  exact List.prefix_append _ _

section
variable {β : Type*} {line : β → List α} {as : List (β × ℕ)}

theorem intact_sublist (h : ∀ a ∈ as, sep ∉ line a.1) {fresh : Bool} (htail : sep ∉ tail)
    (hfresh : fresh = true → tail = []) :
    ((intact line fresh as).map line).Sublist (ended sep (tail ++ appended sep line as)) := by
  induction as generalizing fresh tail with
  | nil => exact List.nil_sublist _
  | cons a as ih =>
      obtain ⟨ha, has⟩ := List.forall_mem_cons.mp h
      have hsplit : appended sep line (a :: as) = put sep line a ++ appended sep line as := rfl
      by_cases hwhole : whole line a = true
      · have hline : sep ∉ tail ++ line a.1 := by simp [htail, ha]
        have hrest : ((intact line true as).map line).Sublist
            (ended sep ([] ++ appended sep line as)) := ih has (by simp) fun _ => rfl
        have htext : tail ++ appended sep line (a :: as) =
            unlines sep [tail ++ line a.1] ++ appended sep line as := by
          rw [hsplit, put_whole hwhole]
          simp [unlines]
        rw [htext, ended_unlines_append (by simpa using hline), intact, if_pos hwhole, List.map_append]
        refine List.Sublist.append ?_ hrest
        cases fresh with
        | false => exact List.nil_sublist _
        | true => simp [hfresh rfl]
      · rw [hsplit, put_torn hwhole, ← List.append_assoc, intact, if_neg hwhole]
        refine ih has ?_ fun hf => ?_
        · simpa [htail] using fun hmem => ha (List.mem_of_mem_take hmem)
        · simp only [Bool.and_eq_true, decide_eq_true_eq] at hf
          simp [hfresh hf.1, hf.2]

/-- Nothing follows the last separator. -/
def complete (sep : α) (text : List α) : Bool := text.getLast?.all (· = sep)

theorem tail_of_complete (htail : sep ∉ tail) (h : complete sep (unlines sep ls ++ tail) = true) :
    tail = [] := by
  rcases List.eq_nil_or_concat tail with rfl | ⟨front, c, rfl⟩
  · rfl
  · simp only [complete, List.concat_eq_append, ← List.append_assoc, List.getLast?_append,
      List.getLast?_singleton, Option.some_or, Option.all_some, decide_eq_true_eq] at h
    exact absurd (show sep ∈ front.concat c by simp [h]) htail

/-- A text gains at least the intact records. -/
theorem ended_appended (h : ∀ a ∈ as, sep ∉ line a.1) (text : List α) :
    (ended sep text ++ (intact line (complete sep text) as).map line).Sublist
      (ended sep (text ++ appended sep line as)) := by
  obtain ⟨ls, tail, rfl, hls, htail⟩ := exists_lines sep text
  rw [List.append_assoc, ended_unlines_append hls, ended_unlines_append hls,
    ended_of_not_mem htail, List.append_nil]
  exact (List.Sublist.refl ls).append (intact_sublist h htail (tail_of_complete htail))

theorem ended_appended_whole (h : ∀ a ∈ as, sep ∉ line a.1) (hwhole : ∀ a ∈ as, whole line a = true)
    (htext : complete sep text = true) :
    ended sep (text ++ appended sep line as) = ended sep text ++ as.map fun a => line a.1 := by
  have hnew : ∀ l ∈ as.map fun a => line a.1, sep ∉ l := fun l hl => by
    obtain ⟨a, ha, rfl⟩ := List.mem_map.mp hl
    exact h a ha
  obtain ⟨ls, tail, rfl, hls, htail⟩ := exists_lines sep text
  rw [tail_of_complete htail htext, List.append_nil, appended_whole hwhole,
    ended_unlines_append hls, ended_unlines hls, ended_unlines hnew]

end

end Xlpod.Lines
