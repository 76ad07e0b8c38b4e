import Xlpod.ByteEncodings
import Mathlib.Data.Multiset.Basic

/-!
# The cost ledger

`record` appends one JSON line to the ledger file and adds the entry to an
in-memory row for its provider and model. Amounts are 64-bit micro-USD with
saturating arithmetic per row; the total over rows is the wrapping sum of
release builds. The hash map is an association list with unique keys, and the
rollup, whose order the source leaves open, is a multiset.

File errors are ignored by the source, so a call carries the number of bytes
of its line that reached the file.
-/
namespace Xlpod.CostLedger
open Xlpod.JsonText Xlpod.ByteEncodings

structure Usage where
  inputTokens : UInt64
  outputTokens : UInt64
  cachedInputTokens : Option UInt64
deriving DecidableEq

/-- Micro-USD per million tokens. -/
structure PriceTable where
  inputMicrosPerMtok : UInt64
  outputMicrosPerMtok : UInt64

def u64Max : ℕ := 2 ^ 64 - 1

def saturatingAdd (a b : UInt64) : UInt64 := UInt64.ofNat (min (a.toNat + b.toNat) u64Max)

def saturatingMul (a b : UInt64) : UInt64 := UInt64.ofNat (min (a.toNat * b.toNat) u64Max)

def startsWith (model word : String) : Bool := word.toList.isPrefixOf model.toList

def priceFor (provider model : String) : PriceTable :=
  if provider = "anthropic" then
    if startsWith model "claude-opus-4" then ⟨15000000, 75000000⟩
    else if startsWith model "claude-sonnet-4" then ⟨3000000, 15000000⟩
    else ⟨3000000, 15000000⟩
  else ⟨0, 0⟩

def costFor (provider model : String) (usage : Usage) : UInt64 :=
  let p := priceFor provider model
  let inputMicros := saturatingMul usage.inputTokens p.inputMicrosPerMtok / 1000000
  let outputMicros := saturatingMul usage.outputTokens p.outputMicrosPerMtok / 1000000
  saturatingAdd inputMicros outputMicros

structure CostEntry where
  tsMs : ℕ
  provider : String
  model : String
  inputTokens : UInt64
  outputTokens : UInt64
  usdMicros : UInt64
deriving DecidableEq

/-! ## Dates -/

def dayOf (nowMs : ℕ) : ℕ := nowMs / 86400000

/-- Year, month and day of a day counted from the Unix epoch. -/
def civilDate (day : ℕ) : ℕ × ℕ × ℕ :=
  let z := day + 719468
  let doe := z % 146097
  let yoe := (doe - doe / 1460 + doe / 36524 - doe / 146096) / 365
  let doy := doe - (365 * yoe + yoe / 4 - yoe / 100)
  let mp := (5 * doy + 2) / 153
  let month := if mp < 10 then mp + 3 else mp - 9
  let year := yoe + z / 146097 * 400
  (if month ≤ 2 then year + 1 else year, month, doy - (153 * mp + 2) / 5 + 1)

def padded (width n : ℕ) : List Char :=
  List.replicate (width - (Nat.toDigits 10 n).length) '0' ++ Nat.toDigits 10 n

def formatTodayUtc (nowMs : ℕ) : String :=
  let (year, month, day) := civilDate (dayOf nowMs)
  String.ofList (padded 4 year ++ '-' :: (padded 2 month ++ '-' :: padded 2 day))

example : formatTodayUtc 1709210096000 = "2024-02-29" := by decide

/-! ## The ledger -/

abbrev Key := String × String

structure Ledger where
  file : Bytes
  today : List (Key × CostEntry)
  dailyCapMicros : UInt64

/-- One call of `record`: its arguments, the clock, and how much of its line
the file kept. -/
structure Call where
  provider : String
  model : String
  usage : Usage
  nowMs : ℕ
  kept : ℕ

def Call.key (c : Call) : Key := (c.provider, c.model)

def Call.usdMicros (c : Call) : UInt64 := costFor c.provider c.model c.usage

def Call.entry (c : Call) : CostEntry where
  tsMs := c.nowMs
  provider := c.provider
  model := c.model
  inputTokens := c.usage.inputTokens
  outputTokens := c.usage.outputTokens
  usdMicros := c.usdMicros

def entryJson (e : CostEntry) : Json Text :=
  .obj [(lit "ts_ms", .int e.tsMs), (lit "provider", .str (lit e.provider)),
    (lit "model", .str (lit e.model)), (lit "input_tokens", .int e.inputTokens.toNat),
    (lit "output_tokens", .int e.outputTokens.toNat),
    (lit "usd_micros", .int e.usdMicros.toNat)]

def entryLine (e : CostEntry) : Bytes := encodeUtf8 (render rustWriter (entryJson e) ++ ['\n'])

/-- `CostLedger::open`: the file is created when missing and opened for append. -/
def openLedger (file : Bytes) (dailyCapMicros : UInt64) : Ledger where
  file := file
  today := []
  dailyCapMicros := dailyCapMicros

/-- `entry(key).or_insert_with(fresh)` followed by the row's update. -/
def updateRow (key : Key) (fresh : CostEntry) (update : CostEntry → CostEntry) :
    List (Key × CostEntry) → List (Key × CostEntry)
  | [] => [(key, update fresh)]
  | (k, row) :: rest =>
      if k = key then (k, update row) :: rest else (k, row) :: updateRow key fresh update rest

def Call.emptyRow (c : Call) : CostEntry where
  tsMs := c.nowMs
  provider := c.provider
  model := c.model
  inputTokens := 0
  outputTokens := 0
  usdMicros := 0

def Call.addTo (c : Call) (row : CostEntry) : CostEntry :=
  { row with
    inputTokens := saturatingAdd row.inputTokens c.usage.inputTokens
    outputTokens := saturatingAdd row.outputTokens c.usage.outputTokens
    usdMicros := saturatingAdd row.usdMicros c.usdMicros }

/-- The part of `record` before the in-memory update. -/
def appendLine (l : Ledger) (c : Call) : Ledger :=
  { l with file := l.file ++ (entryLine c.entry).take c.kept }

def addRow (l : Ledger) (c : Call) : Ledger :=
  { l with today := updateRow c.key c.emptyRow c.addTo l.today }

def record (l : Ledger) (c : Call) : Ledger × UInt64 := (addRow (appendLine l c) c, c.usdMicros)

def recordAll (l : Ledger) (calls : List Call) : Ledger := calls.foldl (fun l c => (record l c).1) l

def sumMicros (rows : List CostEntry) : UInt64 := (rows.map CostEntry.usdMicros).foldl (· + ·) 0

def todayTotalMicros (l : Ledger) : UInt64 := sumMicros (l.today.map Prod.snd)

def overBudget (l : Ledger) : Bool :=
  0 < l.dailyCapMicros && l.dailyCapMicros ≤ todayTotalMicros l

structure CostRollup where
  date : String
  totalUsdMicros : UInt64
  byModel : Multiset CostEntry
deriving DecidableEq

def rollup (l : Ledger) (nowMs : ℕ) : CostRollup where
  date := formatTodayUtc nowMs
  totalUsdMicros := sumMicros (l.today.map Prod.snd)
  byModel := (l.today.map Prod.snd : List CostEntry)

end Xlpod.CostLedger
