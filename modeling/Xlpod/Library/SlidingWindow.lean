import Mathlib.Data.List.TakeWhile
import Mathlib.Order.Lattice
import Mathlib.Order.Monotone.Defs

/-!
# Sliding windows

A bucket of readings loses its expired front at every check and takes the new
reading while it holds fewer than a limit. The cutoff of a reading is where its
window begins. As long as readings come in order, the bucket is sorted and
pruning it is filtering it. In any order the bucket is the latest part of what
was taken; then a bound on what was taken holds as far as nothing that counts
was lost before.
-/
namespace Xlpod.SlidingWindow

variable {α : Type} [LinearOrder α] {cutoff : α → α} {bucket : List α} {now later : α}

/-- The readings left once the expired front is dropped. -/
def live (cutoff : α → α) (bucket : List α) (now : α) : List α :=
  bucket.dropWhile (· < cutoff now)

theorem live_suffix (cutoff : α → α) (bucket : List α) (now : α) :
    live cutoff bucket now <:+ bucket :=
  List.dropWhile_suffix _

/-- Nothing has expired. -/
theorem live_eq_self (h : ∀ t ∈ bucket, cutoff now ≤ t) : live cutoff bucket now = bucket := by
  cases bucket with
  | nil => rfl
  | cons t bucket =>
      exact List.dropWhile_cons_of_neg (by simpa using h t (List.mem_cons_self ..))

/-- Everything has expired. -/
theorem live_eq_nil (h : ∀ t ∈ bucket, t < cutoff now) : live cutoff bucket now = [] := by
  rw [live, List.dropWhile_eq_nil_iff]
  intro t ht
  exact decide_eq_true (h t ht)

/-- Pruning a sorted bucket keeps just the readings of the window. -/
theorem live_sorted (h : bucket.Pairwise (· ≤ ·)) (now : α) :
    live cutoff bucket now = bucket.filter (cutoff now ≤ ·) := by
  induction bucket with
  | nil => rfl
  | cons t bucket ih =>
      obtain ⟨hhead, htail⟩ := List.pairwise_cons.mp h
      rw [live, List.dropWhile_cons]
      by_cases ht : t < cutoff now
      · rw [if_pos (by simpa using ht), List.filter_cons_of_neg (by simpa using ht)]
        exact ih htail
      · have hall : ∀ u ∈ t :: bucket, cutoff now ≤ u := by
          intro u hu
          rcases List.mem_cons.mp hu with rfl | hu
          · exact not_lt.mp ht
          · exact (not_lt.mp ht).trans (hhead u hu)
        rw [if_neg (by simpa using ht), List.filter_eq_self.mpr (by simpa using hall)]

/-- Having pruned before makes no difference later. -/
theorem live_live (hcut : Monotone cutoff) (h : now ≤ later) (bucket : List α) :
    live cutoff (live cutoff bucket now) later = live cutoff bucket later := by
  induction bucket with
  | nil => rfl
  | cons t bucket ih =>
      by_cases ht : t < cutoff now
      · have hlater : t < cutoff later := ht.trans_le (hcut h)
        have hpruned : live cutoff (t :: bucket) now = live cutoff bucket now :=
          List.dropWhile_cons_of_pos (by simpa using ht)
        rw [hpruned, ih]
        exact (List.dropWhile_cons_of_pos (by simpa using hlater)).symm
      · have hkept : live cutoff (t :: bucket) now = t :: bucket :=
          List.dropWhile_cons_of_neg (by simpa using ht)
        rw [hkept]

theorem live_append (bucket taken : List α) (now : α) :
    live cutoff (bucket ++ taken) now =
      if (live cutoff bucket now).isEmpty then live cutoff taken now
      else live cutoff bucket now ++ taken :=
  List.dropWhile_append

theorem live_live_append (hcut : Monotone cutoff) (h : now ≤ later) (bucket taken : List α) :
    live cutoff (live cutoff bucket now ++ taken) later = live cutoff (bucket ++ taken) later := by
  rw [live_append, live_live hcut h, ← live_append]

/-- Of the readings that count only what is live can be in the bucket. -/
theorem count_bucket {counts : α → Bool} (hpast : ∀ t, t < cutoff now → counts t = false) :
    bucket.countP counts ≤ (live cutoff bucket now).length := by
  have hsplit := List.takeWhile_append_dropWhile (p := fun t => decide (t < cutoff now))
    (l := bucket)
  have hnone : (bucket.takeWhile fun t => decide (t < cutoff now)).countP counts = 0 := by
    rw [List.countP_eq_zero]
    intro t ht hcounts
    have hlt : t < cutoff now := by simpa using List.mem_takeWhile_imp ht
    rw [hpast t hlt] at hcounts
    cases hcounts
  calc bucket.countP counts
      = (live cutoff bucket now).countP counts := by
        rw [← hsplit, List.countP_append, hnone, Nat.zero_add, hsplit]
        rfl
    _ ≤ (live cutoff bucket now).length := List.countP_le_length

/-- A reading that finds room keeps the count within the limit, when nothing that
counts has been lost. -/
theorem count_taken {limit : ℕ} {counts : α → Bool} {lost : List α}
    (hroom : (live cutoff bucket now).length < limit)
    (hpast : ∀ t, t < cutoff now → counts t = false) (hlost : ∀ t ∈ lost, counts t = false) :
    (lost ++ bucket ++ [now]).countP counts ≤ limit := by
  have hbucket : bucket.countP counts ≤ (live cutoff bucket now).length := count_bucket hpast
  have hnone : lost.countP counts = 0 := by
    rw [List.countP_eq_zero]
    intro t ht hcounts
    rw [hlost t ht] at hcounts
    cases hcounts
  have hnow : [now].countP counts ≤ 1 := List.countP_le_length
  rw [List.countP_append, List.countP_append, hnone]
  omega

end Xlpod.SlidingWindow
