import Xlpod.Auth
import Xlpod.Library.SlidingWindow
import Mathlib.Data.List.Induction
import Mathlib.Logic.Function.Basic

/-!
# The limiter as a sliding window

Checks that complete one after the other bring nondecreasing readings of the
clock. The bucket of a key then holds the readings of its accepted checks, all
those that can still matter, and a check is accepted exactly when fewer than the
limit of them lie in the second before it. What is rejected or asked under
another key leaves no trace that a later check could see.
-/
namespace Xlpod.RateWindow
open Xlpod.ApiErrors Xlpod.Auth Xlpod.SlidingWindow

/-- The beginning of the window that ends at a reading. -/
def cutoff (now : ℕ) : ℕ := now - window

theorem cutoff_mono : Monotone cutoff := fun _ _ h => Nat.sub_le_sub_right h window

theorem cutoff_le_iff {now t : ℕ} : cutoff now ≤ t ↔ now ≤ t + window := Nat.sub_le_iff_le_add

theorem dropWhile_eq {cut : ℕ → ℕ} {now edge : ℕ} (bucket : List ℕ) (h : cut now = edge) :
    bucket.dropWhile (· < edge) = live cut bucket now := by
  subst h
  rfl

def hasRoom (l : RateLimiter) (key : String) (now : ℕ) : Bool :=
  (live cutoff (l key) now).length < rateLimitPerSec

theorem check_eq (l : RateLimiter) (key : String) (now : ℕ) :
    l.check key now =
      if hasRoom l key now then
        (.ok (), Function.update l key (live cutoff (l key) now ++ [now]))
      else (.error .rateLimited, Function.update l key (live cutoff (l key) now)) := by
  have hupdate (bucket : List ℕ) :
      (fun k => if k = key then bucket else l k) = Function.update l key bucket := by
    funext k
    rw [Function.update_apply]
  have hlive : (l key).dropWhile (· < now - window) = live cutoff (l key) now :=
    dropWhile_eq _ rfl
  rw [RateLimiter.check, hlive, hupdate, hupdate]
  by_cases h : rateLimitPerSec ≤ (live cutoff (l key) now).length
  · have hroom : hasRoom l key now = false := by simpa [hasRoom] using h
    rw [if_pos h, hroom]
    rfl
  · have hroom : hasRoom l key now = true := by simpa [hasRoom] using h
    rw [if_neg h, if_pos hroom]

theorem check_ok_iff {l : RateLimiter} {key : String} {now : ℕ} :
    (l.check key now).1 = .ok () ↔ hasRoom l key now = true := by
  rw [check_eq]
  cases hasRoom l key now <;> simp

/-! ## Sequences of checks -/

/-- A completed call of `check`. -/
structure Check where
  key : String
  now : ℕ

def after (l : RateLimiter) (c : Check) : RateLimiter := (l.check c.key c.now).2

def afterAll (l : RateLimiter) (cs : List Check) : RateLimiter := cs.foldl after l

def newLimiter : RateLimiter := fun _ => []

/-- What a check is told after the others. -/
def answer (cs : List Check) (c : Check) : Except ApiError Unit :=
  ((afterAll newLimiter cs).check c.key c.now).1

def acceptedFrom (l : RateLimiter) : List Check → List Check
  | [] => []
  | c :: cs =>
      if hasRoom l c.key c.now then c :: acceptedFrom (after l c) cs
      else acceptedFrom (after l c) cs

def accepted (cs : List Check) : List Check := acceptedFrom newLimiter cs

/-- The accepted checks of the same key in the second up to a check. -/
def recent (cs : List Check) (c : Check) : List Check :=
  (accepted cs).filter fun e => e.key = c.key ∧ c.now ≤ e.now + window ∧ e.now ≤ c.now

example : answer [⟨"a", 0⟩, ⟨"b", 5⟩] ⟨"a", 7⟩ = .ok () := rfl

theorem afterAll_concat (l : RateLimiter) (cs : List Check) (c : Check) :
    afterAll l (cs ++ [c]) = after (afterAll l cs) c := by
  rw [afterAll, List.foldl_append]
  rfl

theorem acceptedFrom_concat (l : RateLimiter) (cs : List Check) (c : Check) :
    acceptedFrom l (cs ++ [c]) =
      acceptedFrom l cs ++ if hasRoom (afterAll l cs) c.key c.now then [c] else [] := by
  induction cs generalizing l with
  | nil =>
      cases h : hasRoom l c.key c.now <;> simp [acceptedFrom, afterAll, h]
  | cons d cs ih =>
      have hafter : afterAll l (d :: cs) = afterAll (after l d) cs := rfl
      rw [List.cons_append, acceptedFrom, acceptedFrom, hafter, ih]
      split <;> rfl

theorem mem_accepted {cs : List Check} {c : Check} (h : c ∈ accepted cs) : c ∈ cs := by
  revert h
  rw [accepted]
  generalize newLimiter = l
  induction cs generalizing l with
  | nil => exact id
  | cons d cs ih =>
      intro h
      rw [acceptedFrom] at h
      split at h
      · rcases List.mem_cons.mp h with rfl | h
        · exact List.mem_cons_self ..
        · exact List.mem_cons_of_mem _ (ih _ h)
      · exact List.mem_cons_of_mem _ (ih _ h)

/-! ## The bucket -/

theorem after_other {l : RateLimiter} {c : Check} {key : String} (h : key ≠ c.key) :
    after l c key = l key := by
  rw [after, check_eq]
  split <;> exact Function.update_of_ne h ..

theorem after_self (l : RateLimiter) (c : Check) :
    after l c c.key =
      live cutoff (l c.key) c.now ++ if hasRoom l c.key c.now then [c.now] else [] := by
  rw [after, check_eq]
  cases hasRoom l c.key c.now <;> simp

/-- The readings of the accepted checks of a key. -/
def readings (key : String) (cs : List Check) : List ℕ :=
  ((accepted cs).filter (·.key = key)).map Check.now

theorem readings_concat (key : String) (cs : List Check) (c : Check) :
    readings key (cs ++ [c]) = readings key cs ++
      if c.key = key ∧ hasRoom (afterAll newLimiter cs) c.key c.now = true then [c.now]
      else [] := by
  rw [readings, accepted, acceptedFrom_concat, List.filter_append, List.map_append]
  congr 1
  by_cases hkey : c.key = key <;> cases hasRoom (afterAll newLimiter cs) c.key c.now <;> simp [hkey]

theorem mem_readings {key : String} {cs : List Check} {t : ℕ} (h : t ∈ readings key cs) :
    ∃ c ∈ cs, c.now = t := by
  obtain ⟨c, hc, rfl⟩ := List.mem_map.mp h
  exact ⟨c, mem_accepted (List.mem_filter.mp hc).1, rfl⟩

theorem readings_sorted {cs : List Check} (h : cs.Pairwise (·.now ≤ ·.now)) (key : String) :
    (readings key cs).Pairwise (· ≤ ·) := by
  induction cs using List.reverseRecOn with
  | nil => exact .nil
  | append_singleton cs c ih =>
      rw [List.pairwise_append] at h
      rw [readings_concat]
      split
      · rw [List.pairwise_append]
        refine ⟨ih h.1, List.pairwise_singleton .., fun t ht u hu => ?_⟩
        obtain ⟨d, hd, rfl⟩ := mem_readings ht
        rw [List.mem_singleton.mp hu]
        exact h.2.2 d hd c (List.mem_singleton_self c)
      · rw [List.append_nil]
        exact ih h.1

/-- What the bucket of a key holds is, at every later reading, what all accepted
checks of the key amount to. -/
theorem live_bucket {cs : List Check} (h : cs.Pairwise (·.now ≤ ·.now)) (key : String) {now : ℕ}
    (hnow : ∀ c ∈ cs, c.now ≤ now) :
    live cutoff (afterAll newLimiter cs key) now = live cutoff (readings key cs) now := by
  induction cs using List.reverseRecOn generalizing now with
  | nil => rfl
  | append_singleton cs c ih =>
      rw [List.pairwise_append] at h
      have hbefore (d : Check) (hd : d ∈ cs) : d.now ≤ c.now :=
        h.2.2 d hd c (List.mem_singleton_self c)
      have hlater : c.now ≤ now := hnow c (by simp)
      rw [afterAll_concat, readings_concat]
      by_cases hkey : c.key = key
      · subst hkey
        rw [after_self, ih h.1 hbefore, live_live_append cutoff_mono hlater]
        simp
      · rw [after_other (Ne.symm hkey), if_neg fun hc => hkey hc.1, List.append_nil]
        exact ih h.1 fun d hd => hnow d (by simp [hd])

theorem live_length {cs : List Check} {c : Check} (h : (cs ++ [c]).Pairwise (·.now ≤ ·.now)) :
    (live cutoff (afterAll newLimiter cs c.key) c.now).length = (recent cs c).length := by
  rw [List.pairwise_append] at h
  have hbefore (d : Check) (hd : d ∈ cs) : d.now ≤ c.now :=
    h.2.2 d hd c (List.mem_singleton_self c)
  rw [live_bucket h.1 c.key hbefore, live_sorted (readings_sorted h.1 c.key), readings,
    List.filter_map, List.length_map, List.filter_filter, recent]
  refine congrArg List.length (List.filter_congr fun e he => ?_)
  have hle := hbefore e (mem_accepted he)
  rw [Function.comp_apply, decide_eq_decide.mpr cutoff_le_iff, Bool.and_comm, ← Bool.decide_and]
  simp only [hle, and_true]

/-! ## Checks without influence -/

/-- Two limiters that no check of the key can tell apart from a reading on. -/
def SameFrom (key : String) (now : ℕ) (l l' : RateLimiter) : Prop :=
  ∀ later, now ≤ later → live cutoff (l key) later = live cutoff (l' key) later

theorem SameFrom.after {key : String} {now : ℕ} {l l' : RateLimiter} (h : SameFrom key now l l')
    {c : Check} (hc : now ≤ c.now) : SameFrom key c.now (after l c) (after l' c) := by
  intro later hlater
  by_cases hkey : key = c.key
  · subst hkey
    have hsame := h c.now hc
    have hroom : hasRoom l c.key c.now = hasRoom l' c.key c.now := by
      rw [hasRoom, hasRoom, hsame]
    rw [after_self, after_self, hsame, hroom]
  · rw [after_other hkey, after_other hkey]
    exact h later (hc.trans hlater)

theorem SameFrom.afterAll {key : String} {now : ℕ} {l l' : RateLimiter} (h : SameFrom key now l l')
    {cs : List Check} (hsorted : cs.Pairwise (·.now ≤ ·.now)) (hcs : ∀ c ∈ cs, now ≤ c.now) :
    ∀ later, (∀ c ∈ cs, c.now ≤ later) → now ≤ later →
      live cutoff (afterAll l cs key) later = live cutoff (afterAll l' cs key) later := by
  induction cs generalizing now l l' with
  | nil => exact fun later _ hlater => h later hlater
  | cons c cs ih =>
      obtain ⟨hhead, htail⟩ := List.pairwise_cons.mp hsorted
      intro later hall hlater
      exact ih (h.after (hcs c (by simp))) htail hhead later (fun d hd => hall d (by simp [hd]))
        (hall c (by simp))

/-- A check that is rejected, or of another key, is not seen later. -/
theorem sameFrom_skipped {l : RateLimiter} {c : Check} {key : String}
    (h : c.key ≠ key ∨ hasRoom l c.key c.now = false) : SameFrom key c.now (after l c) l := by
  intro later hlater
  by_cases hkey : key = c.key
  · subst hkey
    have hfull : hasRoom l c.key c.now = false := h.resolve_left fun hne => hne rfl
    rw [after_self, hfull, live_live_append cutoff_mono hlater]
    simp
  · rw [after_other hkey]

/-- In every sequence of checks at nondecreasing readings, each is accepted
exactly when fewer than the limit of the accepted checks of its key lie in the
second up to it, and leaving out a check that was rejected or had another key
changes no later answer. -/
theorem answer_exact {cs : List Check} {c : Check} (h : (cs ++ [c]).Pairwise (·.now ≤ ·.now)) :
    (answer cs c = .ok () ↔ (recent cs c).length < rateLimitPerSec) ∧
      ∀ p d q, cs = p ++ d :: q → d.key ≠ c.key ∨ answer p d ≠ .ok () →
        answer (p ++ q) c = answer cs c := by
  constructor
  · rw [answer, check_ok_iff, hasRoom, live_length h, decide_eq_true_eq]
  · rintro p d q rfl hskipped
    rw [List.append_assoc, List.pairwise_append, List.cons_append, List.pairwise_cons,
      List.pairwise_append] at h
    obtain ⟨-, ⟨hd, hq, -, hqc⟩, -⟩ := h
    have hfrom : SameFrom c.key d.now (afterAll newLimiter (p ++ [d])) (afterAll newLimiter p) := by
      rw [afterAll_concat]
      apply sameFrom_skipped
      refine hskipped.imp_right fun hne => ?_
      rw [answer, Ne, check_ok_iff] at hne
      exact Bool.eq_false_iff.mpr hne
    have hall (e : Check) (he : e ∈ q) : e.now ≤ c.now := hqc e he c (List.mem_singleton_self c)
    have hsame := hfrom.afterAll hq (fun e he => hd e (by simp [he])) c.now hall (hd c (by simp))
    have hsplit (l : RateLimiter) (cs ds : List Check) :
        afterAll l (cs ++ ds) = afterAll (afterAll l cs) ds := List.foldl_append
    have hroom : hasRoom (afterAll newLimiter (p ++ q)) c.key c.now =
        hasRoom (afterAll newLimiter (p ++ d :: q)) c.key c.now := by
      rw [List.append_cons, hsplit, hsplit _ (p ++ [d]), hasRoom, hasRoom, hsame]
    rw [answer, answer, check_eq, check_eq, hroom]
    split <;> rfl

/-- A second check right after the first one. -/
theorem answer_exact_second : answer [⟨"a", 0⟩] ⟨"a", 7⟩ = .ok () ∧
    (answer [⟨"a", 0⟩] ⟨"a", 7⟩ = .ok () ↔ (recent [⟨"a", 0⟩] ⟨"a", 7⟩).length < rateLimitPerSec) ∧
      ∀ p d q, [⟨"a", 0⟩] = p ++ d :: q → d.key ≠ "a" ∨ answer p d ≠ .ok () →
        answer (p ++ q) ⟨"a", 7⟩ = answer [⟨"a", 0⟩] ⟨"a", 7⟩ :=
  ⟨rfl, answer_exact (by simp)⟩

end Xlpod.RateWindow
