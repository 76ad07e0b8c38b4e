import Xlpod.CostLedger
import Mathlib.Data.List.Dedup
import Mathlib.Data.Multiset.Basic
import Mathlib.Data.List.Perm.Basic

/-!
# What the rollup counts

`rowOf` says what a row is for: the records of one provider and model, their
amounts added up and capped at the largest 64-bit value. The in-memory map
refines it for every sequence of records. From the refinement follow the exact
conditions under which the rollup of a time is that day's, and under which a
reopened ledger answers as before.
-/
namespace Xlpod.CostRollup
open Xlpod.CostLedger Xlpod.ByteEncodings

/-! ## The abstract rows -/

def saturated (n : ℕ) : UInt64 := UInt64.ofNat (min n u64Max)

def total (amount : Call → UInt64) (calls : List Call) : ℕ :=
  (calls.map fun c => (amount c).toNat).sum

def ofKey (key : Key) (calls : List Call) : List Call := calls.filter fun c => c.key = key

/-- The row of a provider and model, dated by its first record. -/
def rowOf (calls : List Call) (key : Key) : Option CostEntry :=
  (ofKey key calls).head?.map fun first =>
    { tsMs := first.nowMs
      provider := key.1
      model := key.2
      inputTokens := saturated (total (fun c => c.usage.inputTokens) (ofKey key calls))
      outputTokens := saturated (total (fun c => c.usage.outputTokens) (ofKey key calls))
      usdMicros := saturated (total Call.usdMicros (ofKey key calls)) }

def rowsOf (calls : List Call) : List CostEntry :=
  (calls.map Call.key).dedup.filterMap (rowOf calls)

/-- The rollup of a set of records, reported at a time. -/
def rollupOf (calls : List Call) (nowMs : ℕ) : CostRollup where
  date := formatTodayUtc nowMs
  totalUsdMicros := sumMicros (rowsOf calls)
  byModel := (rowsOf calls : List CostEntry)

theorem saturated_toNat (n : ℕ) : (saturated n).toNat = min n u64Max := by
  rw [saturated, UInt64.toNat_ofNat']
  exact Nat.mod_eq_of_lt (Nat.lt_of_le_of_lt (Nat.min_le_right _ _) (by decide))

theorem saturatingAdd_saturated (n : ℕ) (a : UInt64) :
    saturatingAdd (saturated n) a = saturated (n + a.toNat) := by
  rw [saturatingAdd, saturated_toNat, saturated]
  congr 1
  omega

/-! ## The map refines the rows -/

theorem lookup_cons_ne {k k' : Key} (h : k ≠ k') (row : CostEntry) (rows : List (Key × CostEntry)) :
    ((k', row) :: rows).lookup k = rows.lookup k := by
  rw [List.lookup_cons, beq_false_of_ne h]

theorem lookup_updateRow (key k : Key) (fresh : CostEntry) (update : CostEntry → CostEntry)
    (rows : List (Key × CostEntry)) :
    (updateRow key fresh update rows).lookup k =
      if k = key then some (update ((rows.lookup key).getD fresh)) else rows.lookup k := by
  induction rows with
  | nil =>
      by_cases h : k = key
      · simp [updateRow, h]
      · rw [updateRow, lookup_cons_ne h, if_neg h]
  | cons row rows ih =>
      obtain ⟨k', row⟩ := row
      rw [updateRow]
      by_cases hk : k' = key
      · subst hk
        by_cases h : k = k'
        · simp [h]
        · rw [if_pos rfl, lookup_cons_ne h, if_neg h, lookup_cons_ne h]
      · rw [if_neg hk, lookup_cons_ne (Ne.symm hk)]
        by_cases h : k = k'
        · subst h
          simp [hk]
        · rw [lookup_cons_ne h, ih, lookup_cons_ne h]

theorem keys_updateRow (key : Key) (fresh : CostEntry) (update : CostEntry → CostEntry)
    (rows : List (Key × CostEntry)) :
    (updateRow key fresh update rows).map Prod.fst =
      if key ∈ rows.map Prod.fst then rows.map Prod.fst else rows.map Prod.fst ++ [key] := by
  induction rows with
  | nil => simp [updateRow]
  | cons row rows ih =>
      obtain ⟨k', row⟩ := row
      rw [updateRow]
      by_cases hk : k' = key
      · simp [hk]
      · have hne : ¬ key = k' := fun h => hk h.symm
        rw [if_neg hk, List.map_cons, ih]
        by_cases hm : key ∈ rows.map Prod.fst
        · simp [hm, hne]
        · simp [hm, hne]

variable (file : Bytes) (cap : UInt64) (calls : List Call)

theorem recordAll_concat (l : Ledger) (c : Call) :
    recordAll l (calls ++ [c]) = (record (recordAll l calls) c).1 := by
  simp [recordAll]

theorem record_today (l : Ledger) (c : Call) :
    (record l c).1.today = updateRow c.key c.emptyRow c.addTo l.today := rfl

theorem recordAll_cap (l : Ledger) : (recordAll l calls).dailyCapMicros = l.dailyCapMicros := by
  induction calls using List.reverseRecOn with
  | nil => rfl
  | append_singleton calls c ih => rw [recordAll_concat, ← ih]; rfl

/-- The step of the refinement: one more record of a key. -/
theorem rowOf_concat (c : Call) (key : Key) :
    rowOf (calls ++ [c]) key =
      if key = c.key then some (c.addTo ((rowOf calls key).getD c.emptyRow))
      else rowOf calls key := by
  by_cases h : key = c.key
  · subst h
    have hof : ofKey c.key (calls ++ [c]) = ofKey c.key calls ++ [c] := by
      simp [ofKey]
    have htotal (amount : Call → UInt64) :
        total amount (ofKey c.key calls ++ [c]) =
          total amount (ofKey c.key calls) + (amount c).toNat := by
      simp [total]
    rw [if_pos rfl, rowOf, hof, rowOf]
    simp only [htotal, ← saturatingAdd_saturated]
    cases hk : ofKey c.key calls with
    | nil => simp [total, Call.addTo, Call.emptyRow, Call.key, saturated]
    | cons first rest => simp [Call.addTo, Call.key]
  · have hof : ofKey key (calls ++ [c]) = ofKey key calls := by
      simp [ofKey, Ne.symm h]
    rw [if_neg h, rowOf, hof, rowOf]

/-- Every row of the map is the abstract row of its key. -/
theorem recordAll_lookup (key : Key) :
    (recordAll (openLedger file cap) calls).today.lookup key = rowOf calls key := by
  induction calls using List.reverseRecOn generalizing key with
  | nil => rfl
  | append_singleton calls c ih =>
      rw [recordAll_concat, record_today, rowOf_concat, lookup_updateRow, ih, ih]
      by_cases h : key = c.key
      · subst h
        rfl
      · rw [if_neg h, if_neg h]

theorem recordAll_keys :
    ((recordAll (openLedger file cap) calls).today.map Prod.fst).Nodup ∧
      ∀ key, key ∈ (recordAll (openLedger file cap) calls).today.map Prod.fst ↔
        key ∈ calls.map Call.key := by
  induction calls using List.reverseRecOn with
  | nil => simp [recordAll, openLedger]
  | append_singleton calls c ih =>
      obtain ⟨hnodup, hmem⟩ := ih
      rw [recordAll_concat, record_today, keys_updateRow]
      split_ifs with h
      · refine ⟨hnodup, fun key => ?_⟩
        rw [hmem, List.map_append, List.mem_append]
        have := (hmem c.key).mp h
        simp only [List.map_cons, List.map_nil, List.mem_singleton]
        exact ⟨.inl, fun hk => hk.elim id fun hk => hk ▸ this⟩
      · refine ⟨?_, fun key => ?_⟩
        · rw [List.nodup_append]
          refine ⟨hnodup, by simp, fun a ha b hb => ?_⟩
          rw [List.mem_singleton] at hb
          rintro rfl
          exact h (hb ▸ ha)
        · simp [hmem]

theorem values_eq_filterMap {rows : List (Key × CostEntry)} (h : (rows.map Prod.fst).Nodup) :
    rows.map Prod.snd = (rows.map Prod.fst).filterMap fun k => rows.lookup k := by
  induction rows with
  | nil => rfl
  | cons row rows ih =>
      obtain ⟨k, row⟩ := row
      rw [List.map_cons, List.nodup_cons] at h
      have htail : ((rows.map Prod.fst).filterMap fun k' => List.lookup k' ((k, row) :: rows)) =
          (rows.map Prod.fst).filterMap fun k' => rows.lookup k' := by
        refine List.filterMap_congr fun k' hk' => lookup_cons_ne ?_ row rows
        rintro rfl
        exact h.1 hk'
      rw [List.map_cons, List.map_cons, List.filterMap_cons, htail, ← ih h.2]
      simp

theorem recordAll_values :
    ((recordAll (openLedger file cap) calls).today.map Prod.snd).Perm (rowsOf calls) := by
  obtain ⟨hnodup, hmem⟩ := recordAll_keys file cap calls
  rw [values_eq_filterMap hnodup, rowsOf]
  simp only [recordAll_lookup]
  refine List.Perm.filterMap _ ?_
  rw [List.perm_ext_iff_of_nodup hnodup (List.nodup_dedup _)]
  intro key
  rw [hmem, List.mem_dedup]

theorem sumMicros_perm {a b : List CostEntry} (h : a.Perm b) : sumMicros a = sumMicros b := by
  refine (h.map CostEntry.usdMicros).foldl_eq' (fun x _ y _ z => ?_) 0
  rw [UInt64.add_assoc, UInt64.add_comm x y, ← UInt64.add_assoc]

/-- The rollup reports the abstract rows of every record since the ledger was opened. -/
theorem recordAll_rollup (nowMs : ℕ) :
    rollup (recordAll (openLedger file cap) calls) nowMs = rollupOf calls nowMs := by
  have hperm := recordAll_values file cap calls
  simp only [rollup, rollupOf, sumMicros_perm hperm, CostRollup.mk.injEq, true_and]
  exact Multiset.coe_eq_coe.mpr hperm

theorem recordAll_totalMicros :
    todayTotalMicros (recordAll (openLedger file cap) calls) = sumMicros (rowsOf calls) :=
  sumMicros_perm (recordAll_values file cap calls)

theorem recordAll_overBudget :
    overBudget (recordAll (openLedger file cap) calls) =
      (decide (0 < cap) && decide (cap ≤ sumMicros (rowsOf calls))) := by
  rw [overBudget, recordAll_totalMicros, recordAll_cap]
  rfl

/-! ## One day's records -/

def onDay (nowMs : ℕ) (calls : List Call) : List Call :=
  calls.filter fun c => dayOf c.nowMs = dayOf nowMs

/-- The three answers at a time count the records of that day and no others. -/
structure Daily (l : Ledger) (calls : List Call) (nowMs : ℕ) : Prop where
  rollup : rollup l nowMs = rollupOf (onDay nowMs calls) nowMs
  total : todayTotalMicros l = (rollupOf (onDay nowMs calls) nowMs).totalUsdMicros
  budget : overBudget l = (decide (0 < l.dailyCapMicros) &&
    decide (l.dailyCapMicros ≤ (rollupOf (onDay nowMs calls) nowMs).totalUsdMicros))

variable {calls}

theorem mem_rowsOf {e : CostEntry} (h : e ∈ rowsOf calls) :
    ∃ c ∈ calls, e.tsMs = c.nowMs := by
  obtain ⟨key, -, hrow⟩ := List.mem_filterMap.mp h
  obtain ⟨first, hfirst, rfl⟩ := Option.map_eq_some_iff.mp hrow
  exact ⟨first, (List.mem_filter.mp (List.mem_of_head? hfirst)).1, rfl⟩

/-- The row of a record's key is dated no later than the record. -/
theorem row_before (hsorted : calls.Pairwise fun a b => a.nowMs ≤ b.nowMs) {c : Call}
    (hc : c ∈ calls) : ∃ e ∈ rowsOf calls, e.tsMs ≤ c.nowMs := by
  have hof : c ∈ ofKey c.key calls := List.mem_filter.mpr ⟨hc, by simp⟩
  have hkeysorted : (ofKey c.key calls).Pairwise fun a b => a.nowMs ≤ b.nowMs := hsorted.filter _
  cases hk : ofKey c.key calls with
  | nil => rw [hk] at hof; exact absurd hof (List.not_mem_nil)
  | cons first rest =>
      rw [hk] at hof hkeysorted
      have hrow : rowOf calls c.key ≠ none := by simp [rowOf, hk]
      obtain ⟨e, he⟩ := Option.ne_none_iff_exists'.mp hrow
      refine ⟨e, List.mem_filterMap.mpr ⟨c.key, ?_, he⟩, ?_⟩
      · exact List.mem_dedup.mpr (List.mem_map.mpr ⟨c, hc, rfl⟩)
      · have hts : e.tsMs = first.nowMs := by
          rw [rowOf, hk] at he
          simp only [List.head?_cons, Option.map_some, Option.some.injEq] at he
          rw [← he]
        rw [hts]
        rcases List.mem_cons.mp hof with rfl | hrest
        · exact le_rfl
        · exact (List.pairwise_cons.mp hkeysorted).1 c hrest

theorem dayOf_mono {a b : ℕ} (h : a ≤ b) : dayOf a ≤ dayOf b := Nat.div_le_div_right h

/-- For every run of records at nondecreasing times and every later time, the
ledger's answers are the day's exactly when every record was made on that day. -/
theorem daily_iff {nowMs : ℕ} (hsorted : calls.Pairwise fun a b => a.nowMs ≤ b.nowMs)
    (hlater : ∀ c ∈ calls, c.nowMs ≤ nowMs) :
    Daily (recordAll (openLedger file cap) calls) calls nowMs ↔
      ∀ c ∈ calls, dayOf c.nowMs = dayOf nowMs := by
  constructor
  · intro h c hc
    have hrows : (rowsOf calls : Multiset CostEntry) = rowsOf (onDay nowMs calls) := by
      have hr := h.rollup
      rw [recordAll_rollup] at hr
      exact congrArg CostLedger.CostRollup.byModel hr
    obtain ⟨e, he, hle⟩ := row_before hsorted hc
    -- The row of an earlier day survives in the map but not among the day's rows.
    have hday : e ∈ rowsOf (onDay nowMs calls) :=
      (Multiset.coe_eq_coe.mp hrows).mem_iff.mp he
    obtain ⟨d, hd, hts⟩ := mem_rowsOf hday
    have hdd : dayOf d.nowMs = dayOf nowMs := by simpa using (List.mem_filter.mp hd).2
    have h1 := dayOf_mono hle
    have h2 := dayOf_mono (hlater c hc)
    rw [hts, hdd] at h1
    exact le_antisymm h2 h1
  · intro h
    have hall : onDay nowMs calls = calls := by
      rw [onDay, List.filter_eq_self]
      intro c hc
      simp [h c hc]
    refine ⟨?_, ?_, ?_⟩
    · rw [recordAll_rollup, hall]
    · rw [recordAll_totalMicros, hall, rollupOf]
    · rw [recordAll_overBudget, hall, recordAll_cap]
      rfl

/-- A call that spends fifteen dollars of input tokens at the given time. -/
def opusCall (nowMs : ℕ) : Call where
  provider := "anthropic"
  model := "claude-opus-4-6"
  usage := ⟨1000000, 0, none⟩
  nowMs := nowMs
  kept := 0

theorem daily_sameDay :
    Daily (recordAll (openLedger [] 5000000) [opusCall 5, opusCall 7]) [opusCall 5, opusCall 7] 9 :=
  (daily_iff [] 5000000 (by decide) (by decide)).mpr (by decide)

/-- Yesterday's spend still blocks today. -/
theorem not_daily_yesterday :
    [opusCall 0].Pairwise (fun a b => a.nowMs ≤ b.nowMs) ∧
      (∀ c ∈ [opusCall 0], c.nowMs ≤ 86400000) ∧
      onDay 86400000 [opusCall 0] = [] ∧
      overBudget (recordAll (openLedger [] 5000000) [opusCall 0]) = true ∧
      ¬ Daily (recordAll (openLedger [] 5000000) [opusCall 0]) [opusCall 0] 86400000 := by
  have hover : overBudget (recordAll (openLedger [] 5000000) [opusCall 0]) = true := by decide
  refine ⟨by decide, by decide, rfl, hover, fun h => ?_⟩
  have hb := h.budget
  rw [hover] at hb
  exact absurd hb (by decide)

/-! ## After a restart -/

/-- Ending the process and opening the same file again gives the same answers. -/
def SurvivesRestart (l : Ledger) (nowMs : ℕ) : Prop :=
  rollup (openLedger l.file l.dailyCapMicros) nowMs = rollup l nowMs ∧
    overBudget (openLedger l.file l.dailyCapMicros) = overBudget l

variable (calls)

/-- The lines a process appended, all of them when each was kept in full. -/
theorem recordAll_file (hkept : ∀ c ∈ calls, (entryLine c.entry).length ≤ c.kept) :
    (recordAll (openLedger file cap) calls).file =
      file ++ calls.flatMap fun c => entryLine c.entry := by
  induction calls using List.reverseRecOn with
  | nil => simp [recordAll, openLedger]
  | append_singleton calls c ih =>
      have hfile : (recordAll (openLedger file cap) (calls ++ [c])).file =
          (recordAll (openLedger file cap) calls).file ++ (entryLine c.entry).take c.kept := by
        rw [recordAll_concat]
        rfl
      rw [hfile, ih fun d hd => hkept d (by simp [hd]), List.take_of_length_le (hkept c (by simp)),
        List.flatMap_append, List.append_assoc]
      simp

/-- For every file, cap and sequence of records, whether or not their lines
reached the file and whatever the day, reopening answers as before exactly when
nothing had been recorded. -/
theorem survivesRestart_iff (nowMs : ℕ) :
    SurvivesRestart (recordAll (openLedger file cap) calls) nowMs ↔ calls = [] := by
  constructor
  · rintro ⟨hroll, -⟩
    have hrows : (rowsOf calls : Multiset CostEntry) = rowsOf [] := by
      have h := congrArg CostLedger.CostRollup.byModel hroll
      rw [recordAll_rollup] at h
      exact h.symm
    by_contra hne
    obtain ⟨c, rest, rfl⟩ := List.exists_cons_of_ne_nil hne
    have hkey : c.key ∈ (recordAll (openLedger file cap) (c :: rest)).today.map Prod.fst :=
      ((recordAll_keys file cap _).2 c.key).mpr (by simp)
    have hlen := (recordAll_values file cap (c :: rest)).length_eq
    have hempty : rowsOf (c :: rest) = [] := (Multiset.coe_eq_coe.mp hrows).eq_nil
    rw [hempty, List.length_map, List.length_nil, List.length_eq_zero_iff] at hlen
    rw [hlen] at hkey
    exact List.not_mem_nil hkey
  · rintro rfl
    exact ⟨rfl, rfl⟩

/-- A recorded call whose line is in the file is forgotten, and with it the cap. -/
theorem not_survivesRestart_opus :
    let call : Call := { opusCall 5 with kept := (entryLine (opusCall 5).entry).length }
    (recordAll (openLedger [] 5000000) [call]).file = entryLine call.entry ∧
      overBudget (recordAll (openLedger [] 5000000) [call]) = true ∧
      overBudget (openLedger (recordAll (openLedger [] 5000000) [call]).file 5000000) = false ∧
      ¬ SurvivesRestart (recordAll (openLedger [] 5000000) [call]) 9 := by
  intro call
  have hover : overBudget (recordAll (openLedger [] 5000000) [call]) = true := by decide
  have hfile := recordAll_file [] 5000000 [call] fun c hc => by
    rw [List.mem_singleton.mp hc]
    exact le_rfl
  refine ⟨by simpa using hfile, hover, rfl, fun h => ?_⟩
  have hb := h.2
  rw [hover] at hb
  exact absurd hb (by decide)

end Xlpod.CostRollup
