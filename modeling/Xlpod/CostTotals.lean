import Xlpod.CostRollup
import Mathlib.Algebra.BigOperators.Group.Finset.Basic
import Mathlib.Algebra.Order.BigOperators.Group.Finset

/-!
# Totals of the ledger

A row is capped, the sum over the rows is not: a release build wraps it and a
build with overflow checks panics. So the totals are those of the rows as long
as these add up to at most the largest 64-bit value.

Every price is a whole number of micro-USD per token. The cost of a turn is then
linear in its tokens, and it makes no difference how many turns they are
spread over.
-/
namespace Xlpod.CostTotals
open Xlpod.CostLedger Xlpod.CostRollup Xlpod.ByteEncodings
open scoped BigOperators

/-! ## Sums over rows -/

def rowSum (rows : List CostEntry) : ℕ := (rows.map fun e => e.usdMicros.toNat).sum

/-- The sum as a build with overflow checks computes it; `none` is a panic. -/
def checkedSum (rows : List CostEntry) : Option UInt64 :=
  (rows.map CostEntry.usdMicros).foldlM
    (fun a b => if a.toNat + b.toNat ≤ u64Max then some (a + b) else none) 0

theorem foldl_toNat (amounts : List UInt64) (a : UInt64) :
    (amounts.foldl (· + ·) a).toNat = (a.toNat + (amounts.map UInt64.toNat).sum) % 2 ^ 64 := by
  induction amounts generalizing a with
  | nil => simp
  | cons b amounts ih =>
      rw [List.foldl_cons, ih, List.map_cons, List.sum_cons, UInt64.toNat_add]
      omega

theorem sumMicros_toNat (rows : List CostEntry) :
    (sumMicros rows).toNat = rowSum rows % 2 ^ 64 := by
  have h := foldl_toNat (rows.map CostEntry.usdMicros) 0
  rw [List.map_map] at h
  simpa [sumMicros, rowSum, Function.comp_def] using h

theorem foldlM_ne_none (amounts : List UInt64) (a : UInt64) :
    amounts.foldlM (fun a b => if a.toNat + b.toNat ≤ u64Max then some (a + b) else none) a ≠ none ↔
      a.toNat + (amounts.map UInt64.toNat).sum ≤ u64Max := by
  induction amounts generalizing a with
  | nil =>
      have := a.toNat_lt
      simp [u64Max]
      omega
  | cons b amounts ih =>
      rw [List.foldlM_cons, List.map_cons, List.sum_cons]
      by_cases h : a.toNat + b.toNat ≤ u64Max
      · have hadd : (a + b).toNat = a.toNat + b.toNat := by
          rw [UInt64.toNat_add]
          exact Nat.mod_eq_of_lt (Nat.lt_of_le_of_lt h (by decide))
        rw [if_pos h]
        change amounts.foldlM _ (a + b) ≠ none ↔ _
        rw [ih, hadd, Nat.add_assoc]
      · rw [if_neg h]
        simp
        omega

theorem checkedSum_ne_none (rows : List CostEntry) :
    checkedSum rows ≠ none ↔ rowSum rows ≤ u64Max := by
  have h := foldlM_ne_none (rows.map CostEntry.usdMicros) 0
  rw [List.map_map] at h
  simpa [checkedSum, rowSum, Function.comp_def] using h

/-! ## Sums over calls -/

/-- The cost of the calls of a provider and model, capped as their row is. -/
def spentOn (key : Key) (calls : List Call) : ℕ :=
  min (total Call.usdMicros (ofKey key calls)) u64Max

def keysOf (calls : List Call) : Finset Key := (calls.map Call.key).toFinset

def spent (calls : List Call) : ℕ := ∑ key ∈ keysOf calls, spentOn key calls

section
variable (file : Bytes) (cap : UInt64) {calls : List Call} {key : Key}

theorem ofKey_absent (h : key ∉ keysOf calls) : ofKey key calls = [] := by
  rw [ofKey, List.filter_eq_nil_iff]
  intro c hc hkey
  exact h (List.mem_toFinset.mpr (List.mem_map.mpr ⟨c, hc, by simpa using hkey⟩))

theorem spentOn_absent (h : key ∉ keysOf calls) : spentOn key calls = 0 := by
  rw [spentOn, ofKey_absent h]
  rfl

theorem rowOf_spentOn (h : key ∈ calls.map Call.key) :
    (rowOf calls key).map (fun e => e.usdMicros.toNat) = some (spentOn key calls) := by
  obtain ⟨c, hc, hkey⟩ := List.mem_map.mp h
  have hof : c ∈ ofKey key calls := List.mem_filter.mpr ⟨hc, by simpa using hkey⟩
  rw [rowOf, spentOn]
  cases hk : ofKey key calls with
  | nil =>
      rw [hk] at hof
      cases hof
  | cons first rest =>
      rw [List.head?_cons, Option.map_some, Option.map_some, saturated_toNat]

/-- The rows of the ledger add up to what was spent. -/
theorem rowSum_recordAll (calls : List Call) :
    rowSum ((recordAll (openLedger file cap) calls).today.map Prod.snd) = spent calls := by
  have hperm := (recordAll_values file cap calls).map fun e => e.usdMicros.toNat
  have hrows : (rowsOf calls).map (fun e => e.usdMicros.toNat) =
      (calls.map Call.key).dedup.map fun key => spentOn key calls := by
    have hrow (key : Key) (hkey : key ∈ (calls.map Call.key).dedup) :=
      rowOf_spentOn (List.mem_dedup.mp hkey)
    rw [rowsOf, List.map_filterMap, List.filterMap_congr hrow]
    exact congrFun List.filterMap_eq_map _
  have hkeys : keysOf calls = (calls.map Call.key).dedup.toFinset := by
    ext key
    simp [keysOf]
  rw [rowSum, hperm.sum_eq, hrows, spent, hkeys, List.sum_toFinset _ (List.nodup_dedup _)]

theorem spent_mono (p q : List Call) : spent p ≤ spent (p ++ q) := by
  have hkeys : keysOf p ⊆ keysOf (p ++ q) := by
    intro key hkey
    rw [keysOf, List.mem_toFinset] at *
    simp only [List.map_append, List.mem_append]
    exact .inl hkey
  have hkey (key : Key) : spentOn key p ≤ spentOn key (p ++ q) := by
    rw [spentOn, spentOn, ofKey, ofKey, List.filter_append, total, total, List.map_append,
      List.sum_append]
    omega
  calc spent p ≤ ∑ key ∈ keysOf p, spentOn key (p ++ q) := Finset.sum_le_sum fun key _ => hkey key
    _ ≤ spent (p ++ q) := Finset.sum_le_sum_of_subset hkeys

end

/-! ## The budget -/

/-- The totals are those of the rows, capped, and computing them does not panic. -/
structure TotalsHold (l : Ledger) : Prop where
  total : (todayTotalMicros l).toNat = min (rowSum (l.today.map Prod.snd)) u64Max
  rollup : ∀ nowMs, (rollup l nowMs).totalUsdMicros.toNat =
    min (rowSum (l.today.map Prod.snd)) u64Max
  checked : checkedSum (l.today.map Prod.snd) ≠ none

theorem totalsHold_iff {l : Ledger} :
    TotalsHold l ↔ rowSum (l.today.map Prod.snd) ≤ u64Max := by
  constructor
  · intro h
    exact (checkedSum_ne_none _).mp h.checked
  · intro h
    have hsum : (sumMicros (l.today.map Prod.snd)).toNat =
        min (rowSum (l.today.map Prod.snd)) u64Max := by
      rw [sumMicros_toNat, Nat.min_eq_left h]
      exact Nat.mod_eq_of_lt (Nat.lt_of_le_of_lt h (by decide))
    exact ⟨hsum, fun _ => hsum, (checkedSum_ne_none _).mpr h⟩

/-- At every point of a sequence of records the totals hold, and once over budget
the ledger stays so. -/
structure Budgeted (file : Bytes) (cap : UInt64) (calls : List Call) : Prop where
  totals : ∀ p, p <+: calls → TotalsHold (recordAll (openLedger file cap) p)
  stays : ∀ p q, p ++ q <+: calls → overBudget (recordAll (openLedger file cap) p) = true →
    overBudget (recordAll (openLedger file cap) (p ++ q)) = true

theorem todayTotal_toNat (file : Bytes) (cap : UInt64) (calls : List Call) :
    (todayTotalMicros (recordAll (openLedger file cap) calls)).toNat = spent calls % 2 ^ 64 := by
  rw [todayTotalMicros, sumMicros_toNat, rowSum_recordAll]

theorem overBudget_iff {file : Bytes} {cap : UInt64} {calls : List Call}
    (h : spent calls ≤ u64Max) : overBudget (recordAll (openLedger file cap) calls) = true ↔
      0 < cap.toNat ∧ cap.toNat ≤ spent calls := by
  have htotal : (todayTotalMicros (recordAll (openLedger file cap) calls)).toNat = spent calls := by
    rw [todayTotal_toNat]
    exact Nat.mod_eq_of_lt (Nat.lt_of_le_of_lt h (by decide))
  rw [overBudget, recordAll_cap, Bool.and_eq_true, decide_eq_true_eq, decide_eq_true_eq,
    UInt64.lt_iff_toNat_lt, UInt64.le_iff_toNat_le, htotal]
  rfl

/-- For every sequence of records, the totals never wrap or panic exactly when the
costs, capped for each provider and model, add up to a 64-bit value. -/
theorem budgeted_iff (file : Bytes) (cap : UInt64) (calls : List Call) :
    Budgeted file cap calls ↔ spent calls ≤ u64Max := by
  constructor
  · intro h
    rw [← rowSum_recordAll file cap]
    exact totalsHold_iff.mp (h.totals calls List.prefix_rfl)
  · intro h
    have hspent {p : List Call} (hp : p <+: calls) : spent p ≤ u64Max := by
      obtain ⟨q, rfl⟩ := hp
      exact (spent_mono p q).trans h
    refine ⟨fun p hp => ?_, fun p q hpq hover => ?_⟩
    · rw [totalsHold_iff, rowSum_recordAll]
      exact hspent hp
    · rw [overBudget_iff (hspent ((List.prefix_append p q).trans hpq))] at hover
      rw [overBudget_iff (hspent hpq)]
      exact ⟨hover.1, hover.2.trans (spent_mono p q)⟩

/-! ## A budget that opens again -/

def fullCall : Call where
  provider := "anthropic"
  model := "claude-opus-4-6"
  usage := ⟨18446744073709551615, 18446744073709551615, none⟩
  nowMs := 5
  kept := 0

def smallCall : Call where
  provider := "anthropic"
  model := "claude-sonnet-4-5"
  usage := ⟨1, 0, none⟩
  nowMs := 5
  kept := 0

def flood (n : ℕ) : List Call := smallCall :: List.replicate n fullCall

theorem spent_flood {n : ℕ} (hn : n ≠ 0) :
    spent (flood n) = 3 + min (n * 36893488147418) u64Max := by
  have hne : smallCall.key ≠ fullCall.key := by decide
  have hkeys : keysOf (flood n) = {smallCall.key, fullCall.key} := by
    ext key
    simp [keysOf, flood, hn]
  have hsmall : spentOn smallCall.key (flood n) = 3 := by
    have hof : ofKey smallCall.key (flood n) = [smallCall] := by
      simp [ofKey, flood, Ne.symm hne]
    rw [spentOn, hof]
    decide
  have hfull : spentOn fullCall.key (flood n) = min (n * 36893488147418) u64Max := by
    have hof : ofKey fullCall.key (flood n) = List.replicate n fullCall := by
      simp [ofKey, flood, hne]
    have hcost : fullCall.usdMicros.toNat = 36893488147418 := by decide
    rw [spentOn, hof, total, List.map_replicate, hcost, List.sum_replicate_nat]
  rw [spent, hkeys, Finset.sum_pair hne, hsmall, hfull]

/-- The call that fills the row of one model wraps the total. -/
theorem reopens {n : ℕ} (hn : n ≠ 0) (hfits : n * 36893488147418 + 3 ≤ u64Max)
    (hfull : u64Max ≤ (n + 1) * 36893488147418) (hcap : 5000000 ≤ n * 36893488147418) :
    overBudget (recordAll (openLedger [] 5000000) (flood n)) = true ∧
      overBudget (recordAll (openLedger [] 5000000) (flood (n + 1))) = false ∧
        ¬ Budgeted [] 5000000 (flood (n + 1)) := by
  have hspent : spent (flood n) = 3 + n * 36893488147418 := by
    rw [spent_flood hn, Nat.min_eq_left ((Nat.le_add_right _ 3).trans hfits)]
  have hbefore : overBudget (recordAll (openLedger [] 5000000) (flood n)) = true := by
    rw [overBudget_iff (hspent.trans_le (Nat.add_comm .. ▸ hfits)), hspent]
    exact ⟨by decide, hcap.trans (Nat.le_add_left ..)⟩
  have hafter : overBudget (recordAll (openLedger [] 5000000) (flood (n + 1))) = false := by
    have htotal :
        (todayTotalMicros (recordAll (openLedger [] 5000000) (flood (n + 1)))).toNat = 2 := by
      rw [todayTotal_toNat, spent_flood n.succ_ne_zero, Nat.min_eq_right hfull]
      decide
    rw [overBudget, recordAll_cap, Bool.and_eq_false_iff]
    refine .inr (decide_eq_false ?_)
    rw [UInt64.le_iff_toNat_le, htotal]
    decide
  refine ⟨hbefore, hafter, fun h => ?_⟩
  have hsplit : flood n ++ [fullCall] = flood (n + 1) :=
    congrArg (smallCall :: ·) List.replicate_succ'.symm
  have hstays := h.stays (flood n) [fullCall] (by rw [hsplit]) hbefore
  rw [hsplit, hafter] at hstays
  cases hstays

/-- Half a million records of one day spend the budget, and one more opens it again. -/
theorem reopened_opus : overBudget (recordAll (openLedger [] 5000000) (flood 500000)) = true ∧
    overBudget (recordAll (openLedger [] 5000000) (flood (500000 + 1))) = false ∧
      ¬ Budgeted [] 5000000 (flood (500000 + 1)) :=
  reopens (by decide) (by decide) (by decide) (by decide)

/-! ## Turns -/

/-- Micro-USD per token. -/
def inputRate (provider model : String) : ℕ :=
  (priceFor provider model).inputMicrosPerMtok.toNat / 1000000

def outputRate (provider model : String) : ℕ :=
  (priceFor provider model).outputMicrosPerMtok.toNat / 1000000

theorem price_whole (provider model : String) :
    let p := priceFor provider model
    p.inputMicrosPerMtok.toNat = inputRate provider model * 1000000 ∧
      p.outputMicrosPerMtok.toNat = outputRate provider model * 1000000 := by
  unfold inputRate outputRate priceFor
  split
  · split
    · decide
    · split <;> decide
  · decide

theorem saturatingMul_toNat {a b : UInt64} (h : a.toNat * b.toNat < 2 ^ 64) :
    (saturatingMul a b).toNat = a.toNat * b.toNat := by
  change (saturated (a.toNat * b.toNat)).toNat = _
  rw [saturated_toNat]
  exact Nat.min_eq_left (Nat.le_sub_one_of_lt h)

/-- The cost of a turn is linear in its tokens. -/
theorem costFor_toNat {provider model : String} {usage : Usage}
    (hin : usage.inputTokens.toNat * (priceFor provider model).inputMicrosPerMtok.toNat < 2 ^ 64)
    (hout :
      usage.outputTokens.toNat * (priceFor provider model).outputMicrosPerMtok.toNat < 2 ^ 64) :
    (costFor provider model usage).toNat = usage.inputTokens.toNat * inputRate provider model +
      usage.outputTokens.toNat * outputRate provider model := by
  obtain ⟨hinput, houtput⟩ := price_whole provider model
  have hdivide (n rate : ℕ) : n * (rate * 1000000) / 1000000 = n * rate := by
    rw [← Nat.mul_assoc, Nat.mul_div_cancel _ (by decide)]
  change (saturated (_ + _)).toNat = _
  rw [saturated_toNat, UInt64.toNat_div, UInt64.toNat_div, saturatingMul_toNat hin,
    saturatingMul_toNat hout, hinput, houtput]
  rw [hinput, ← Nat.mul_assoc] at hin
  rw [houtput, ← Nat.mul_assoc] at hout
  change min (_ / 1000000 + _ / 1000000) u64Max = _
  rw [hdivide, hdivide, u64Max]
  omega

def inputTokens (key : Key) (calls : List Call) : ℕ :=
  total (fun c => c.usage.inputTokens) (ofKey key calls)

def outputTokens (key : Key) (calls : List Call) : ℕ :=
  total (fun c => c.usage.outputTokens) (ofKey key calls)

/-- No sum and no product of the turns of a provider and model leaves 64 bits. -/
structure Fits (key : Key) (calls : List Call) : Prop where
  input : inputTokens key calls < 2 ^ 64
  output : outputTokens key calls < 2 ^ 64
  inputProduct :
    inputTokens key calls * (priceFor key.1 key.2).inputMicrosPerMtok.toNat < 2 ^ 64
  outputProduct :
    outputTokens key calls * (priceFor key.1 key.2).outputMicrosPerMtok.toNat < 2 ^ 64

/-- The same tokens were used with a provider and model. -/
def SameTokens (key : Key) (calls calls' : List Call) : Prop :=
  inputTokens key calls' = inputTokens key calls ∧ outputTokens key calls' = outputTokens key calls

/-- The order of the turns makes no difference. -/
theorem sameTokens_of_perm {calls calls' : List Call} (h : calls.Perm calls') (key : Key) :
    SameTokens key calls calls' := by
  have hof := h.symm.filter fun c => decide (c.key = key)
  exact ⟨(hof.map _).sum_eq, (hof.map _).sum_eq⟩

def linearCost (key : Key) (input output : ℕ) : ℕ :=
  input * inputRate key.1 key.2 + output * outputRate key.1 key.2

theorem linearCost_le {key : Key} {input output : ℕ}
    (hin : input * (priceFor key.1 key.2).inputMicrosPerMtok.toNat < 2 ^ 64)
    (hout : output * (priceFor key.1 key.2).outputMicrosPerMtok.toNat < 2 ^ 64) :
    linearCost key input output ≤ u64Max := by
  obtain ⟨hinput, houtput⟩ := price_whole key.1 key.2
  rw [hinput, ← Nat.mul_assoc] at hin
  rw [houtput, ← Nat.mul_assoc] at hout
  rw [linearCost, u64Max]
  omega

/-- The rounded costs of single turns add up without loss. -/
theorem total_usdMicros {key : Key} {cs : List Call} (hkey : ∀ c ∈ cs, c.key = key)
    (hin : total (fun c => c.usage.inputTokens) cs *
      (priceFor key.1 key.2).inputMicrosPerMtok.toNat < 2 ^ 64)
    (hout : total (fun c => c.usage.outputTokens) cs *
      (priceFor key.1 key.2).outputMicrosPerMtok.toNat < 2 ^ 64) :
    total Call.usdMicros cs = linearCost key (total (fun c => c.usage.inputTokens) cs)
      (total (fun c => c.usage.outputTokens) cs) := by
  have hcons (amount : Call → UInt64) (c : Call) (cs : List Call) :
      total amount (c :: cs) = (amount c).toNat + total amount cs := rfl
  induction cs with
  | nil => simp [total, linearCost]
  | cons c cs ih =>
      rw [hcons, Nat.add_mul] at hin hout
      have hrest := ih (fun d hd => hkey d (by simp [hd])) (by omega) (by omega)
      have hfirst : c.usdMicros.toNat =
          linearCost key c.usage.inputTokens.toNat c.usage.outputTokens.toNat := by
        have hc : key = (c.provider, c.model) := (hkey c (by simp)).symm
        subst hc
        exact costFor_toNat ((Nat.le_add_right ..).trans_lt hin)
          ((Nat.le_add_right ..).trans_lt hout)
      rw [hcons, hcons, hcons, hrest, hfirst, linearCost, linearCost, linearCost, Nat.add_mul,
        Nat.add_mul]
      omega

theorem ofKey_key {key : Key} {calls : List Call} : ∀ c ∈ ofKey key calls, c.key = key := by
  intro c hc
  simpa using (List.mem_filter.mp hc).2

theorem Fits.total {key : Key} {calls : List Call} (h : Fits key calls) :
    total Call.usdMicros (ofKey key calls) =
      linearCost key (inputTokens key calls) (outputTokens key calls) :=
  total_usdMicros ofKey_key h.inputProduct h.outputProduct

theorem Fits.spentOn {key : Key} {calls : List Call} (h : Fits key calls) :
    spentOn key calls = linearCost key (inputTokens key calls) (outputTokens key calls) := by
  rw [CostTotals.spentOn, h.total]
  exact Nat.min_eq_left (linearCost_le h.inputProduct h.outputProduct)

theorem Fits.same {key : Key} {calls calls' : List Call} (h : Fits key calls)
    (hsame : SameTokens key calls calls') : Fits key calls' := by
  obtain ⟨hin, hout⟩ := hsame
  exact ⟨hin ▸ h.input, hout ▸ h.output, hin ▸ h.inputProduct, hout ▸ h.outputProduct⟩

theorem saturated_of_lt {n : ℕ} (h : n < 2 ^ 64) : (saturated n).toNat = n := by
  rw [saturated_toNat]
  exact Nat.min_eq_left (Nat.le_sub_one_of_lt h)

/-- The row a provider and model should have: the tokens of all its turns, and
what these cost at once. -/
structure RowOfTokens (key : Key) (calls : List Call) (row : CostEntry) : Prop where
  inputTokens : row.inputTokens.toNat = inputTokens key calls
  outputTokens : row.outputTokens.toNat = outputTokens key calls
  usdMicros : row.usdMicros = costFor key.1 key.2 ⟨row.inputTokens, row.outputTokens, none⟩

theorem Fits.row {key : Key} {calls : List Call} (h : Fits key calls) {row : CostEntry}
    (hrow : rowOf calls key = some row) : RowOfTokens key calls row := by
  obtain ⟨first, -, rfl⟩ := Option.map_eq_some_iff.mp hrow
  have hin := saturated_of_lt h.input
  have hout := saturated_of_lt h.output
  refine ⟨hin, hout, UInt64.toNat_inj.mp ?_⟩
  change (saturated (CostRollup.total Call.usdMicros (ofKey key calls))).toNat =
    (costFor key.1 key.2 ⟨saturated (inputTokens key calls), saturated (outputTokens key calls),
      none⟩).toNat
  rw [costFor_toNat (by rw [hin]; exact h.inputProduct) (by rw [hout]; exact h.outputProduct),
    saturated_toNat, h.total, hin, hout]
  exact Nat.min_eq_left (linearCost_le h.inputProduct h.outputProduct)

/-- The amount in the row of a provider and model, zero without one. -/
def usdOn (l : Ledger) (key : Key) : ℕ :=
  ((l.today.lookup key).map fun row => row.usdMicros.toNat).getD 0

theorem usdOn_recordAll (file : Bytes) (cap : UInt64) (calls : List Call) (key : Key) :
    usdOn (recordAll (openLedger file cap) calls) key = spentOn key calls := by
  rw [usdOn, recordAll_lookup]
  by_cases h : key ∈ keysOf calls
  · rw [rowOf_spentOn (List.mem_toFinset.mp h)]
    rfl
  · rw [spentOn_absent h, rowOf, ofKey_absent h]
    rfl

theorem spent_eq_sum {calls : List Call} {keys : Finset Key} (h : keysOf calls ⊆ keys) :
    spent calls = ∑ key ∈ keys, spentOn key calls :=
  Finset.sum_subset h fun _ _ habsent => spentOn_absent habsent

/-- For every sequence of records whose sums and products for a provider and model
stay within 64 bits, the provider and model have a row as soon as one call names
them, with the tokens of all their calls and the cost of these at once. Any other
sequence with the same tokens gives the same amount, however they are split and
ordered, and so does the day when this is so for all rows. -/
theorem undrifted (file : Bytes) (cap : UInt64) {key : Key} {calls : List Call}
    (h : Fits key calls) :
    (key ∈ calls.map Call.key → ∃ row,
      (recordAll (openLedger file cap) calls).today.lookup key = some row ∧
        RowOfTokens key calls row) ∧
    (∀ calls', SameTokens key calls calls' →
      usdOn (recordAll (openLedger file cap) calls') key =
        usdOn (recordAll (openLedger file cap) calls) key) ∧
    ∀ calls', (∀ key, Fits key calls ∧ SameTokens key calls calls') →
      todayTotalMicros (recordAll (openLedger file cap) calls') =
        todayTotalMicros (recordAll (openLedger file cap) calls) := by
  have hsame {key : Key} {calls' : List Call} (h : Fits key calls)
      (hs : SameTokens key calls calls') : spentOn key calls' = spentOn key calls := by
    rw [(h.same hs).spentOn, h.spentOn, hs.1, hs.2]
  refine ⟨fun hmem => ?_, fun calls' hs => ?_, fun calls' hall => ?_⟩
  · obtain ⟨row, hrow, -⟩ := Option.map_eq_some_iff.mp (rowOf_spentOn hmem)
    exact ⟨row, by rw [recordAll_lookup, hrow], h.row hrow⟩
  · rw [usdOn_recordAll, usdOn_recordAll, hsame h hs]
  · let keys := keysOf calls' ∪ keysOf calls
    have hleft := spent_eq_sum (Finset.subset_union_left : keysOf calls' ⊆ keys)
    have hright := spent_eq_sum (Finset.subset_union_right : keysOf calls ⊆ keys)
    apply UInt64.toNat_inj.mp
    rw [todayTotal_toNat, todayTotal_toNat, hleft, hright]
    congr 1
    exact Finset.sum_congr rfl fun key _ => hsame (hall key).1 (hall key).2

/-- Two turns of a model with a price: their row holds the tokens of both. -/
theorem undrifted_opus :
    let key : Key := ("anthropic", "claude-opus-4-6")
    let calls := [opusCall 5, { opusCall 7 with usage := ⟨7, 3, none⟩ }]
    (∃ row, (recordAll (openLedger [] 0) calls).today.lookup key = some row ∧
      row.inputTokens.toNat = 1000007 ∧ row.outputTokens.toNat = 3 ∧
        row.usdMicros = costFor key.1 key.2 ⟨row.inputTokens, row.outputTokens, none⟩) ∧
    (∀ calls', SameTokens key calls calls' → usdOn (recordAll (openLedger [] 0) calls') key =
      usdOn (recordAll (openLedger [] 0) calls) key) ∧
    ∀ calls', (∀ key, Fits key calls ∧ SameTokens key calls calls') →
      todayTotalMicros (recordAll (openLedger [] 0) calls') =
        todayTotalMicros (recordAll (openLedger [] 0) calls) := by
  have hfits : Fits ("anthropic", "claude-opus-4-6")
      [opusCall 5, { opusCall 7 with usage := ⟨7, 3, none⟩ }] :=
    ⟨by decide, by decide, by decide, by decide⟩
  obtain ⟨hrow, hrest⟩ := undrifted [] 0 hfits
  obtain ⟨row, hlookup, htokens⟩ := hrow (by decide)
  exact ⟨⟨row, hlookup, htokens.inputTokens, htokens.outputTokens, htokens.usdMicros⟩, hrest⟩

end Xlpod.CostTotals
