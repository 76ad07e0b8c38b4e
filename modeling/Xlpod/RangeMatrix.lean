import Xlpod.WorkerLoop
import Xlpod.Routes
import Xlpod.JsonStrings
import Mathlib.Data.List.OfFn

/-!
# A range from Excel to the client

A block of cells leaves Excel in the shape its library gives it: both libraries
return a single cell bare, xlwings flattens a row or a column, COM keeps a tuple
of rows. Each backend turns its shape into a list of rows, the worker writes
them as JSON, the launcher copies them into its response and the client reads
them back. A flat list no longer tells a row from a column, and the xlwings
backend takes it for a row.

On the way through the launcher a number goes through `serde_json`, which keeps
integers of 64 bits, makes a float of any longer one, and does not always find
the float that a literal stands for.
-/
namespace Xlpod.RangeMatrix
open Xlpod.JsonText Xlpod.BundlePayload Xlpod.WorkerLoop Xlpod.ServerState Xlpod.ServerCalls
open Xlpod.Programs Xlpod.ApiErrors
open Xlpod.AiTypes (field)

/-! ## Blocks of cells -/

def isScalar : PyJson → Bool
  | .arr _ | .obj _ => false
  | _ => true

/-- The value of a cell, as JSON carries it. -/
structure CellValue where
  value : PyJson
  scalar : isScalar value = true
  readable : value.Readable rustReader Scalar

structure Block where
  height : ℕ
  width : ℕ
  height_pos : 0 < height
  width_pos : 0 < width
  cell : Fin height → Fin width → CellValue

/-- Row `i` holds the cells `(i, j)` in order. -/
def Block.values (b : Block) : List (List PyJson) :=
  List.ofFn fun i => List.ofFn fun j => (b.cell i j).value

def Block.cells (b : Block) : List (List Cell) := b.values.map (List.map Cell.json)

def Block.first (b : Block) : Cell := .json (b.cell ⟨0, b.height_pos⟩ ⟨0, b.width_pos⟩).value

/-- What each library returns for a block. -/
def vendorValue : Backend → Block → RangeValue
  | .xlwings, b =>
      if b.height = 1 ∧ b.width = 1 then .single b.first
      else if b.height = 1 ∨ b.width = 1 then .line b.cells.flatten
      else .rows b.cells
  | .pywin32, b =>
      if b.height = 1 ∧ b.width = 1 then .single b.first else .rows b.cells

/-! ## Numbers in the launcher -/

/-- How `serde_json` makes a float of a literal with a fraction or an exponent and
of a long integer, `none` out of range. A float stands as the literal that Python
writes for it. -/
structure Floats where
  ofReal : Lexeme → Option Lexeme
  ofLong : ℤ → Option Lexeme

mutual
/-- A document with its numbers as `serde_json` reads them. -/
def numbersRead (F : Floats) : PyJson → Option PyJson
  | .int n => if -2 ^ 63 ≤ n ∧ n < 2 ^ 64 then some (.int n) else (F.ofLong n).map .real
  | .real l => (F.ofReal l).map .real
  | .arr items => (itemsRead F items).map .arr
  | .obj fields => (fieldsRead F fields).map .obj
  | v => some v
def itemsRead (F : Floats) : List PyJson → Option (List PyJson)
  | [] => some []
  | v :: vs => do return (← numbersRead F v) :: (← itemsRead F vs)
def fieldsRead (F : Floats) : List (Text × PyJson) → Option (List (Text × PyJson))
  | [] => some []
  | (k, v) :: fs => do return (k, ← numbersRead F v) :: (← fieldsRead F fs)
end

/-- A longer integer comes back as a float, if at all. -/
theorem numbersRead_int_iff (F : Floats) (n : ℤ) :
    numbersRead F (.int n) = some (.int n) ↔ -2 ^ 63 ≤ n ∧ n < 2 ^ 64 := by
  rw [numbersRead]
  split_ifs with h
  · exact iff_of_true rfl h
  · refine iff_of_false (fun hc => ?_) h
    obtain ⟨l, -, hl⟩ := Option.map_eq_some_iff.mp hc
    cases hl

structure RangeData where
  address : Text
  values : List (List PyJson)

/-- `str(v)`, with the representation of other values left to `shown`. -/
def pyStr (shown : PyJson → Text) : PyJson → Text
  | .str s => s
  | v => shown v

def normalizeRow : PyJson → List PyJson
  | .arr items => items
  | v => [v]

/-- `AsyncClient.read_range` on the decoded response. -/
def readRange (L : Stdlib) (shown : PyJson → Text) (data : PyJson) :
    Except BundleError RangeData := do
  let rawValues ← pyList (orElse L (← getKey data "values") (.arr []))
  let address ← getKeyOr data "address" (.str [])
  pure ⟨pyStr shown address, rawValues.map normalizeRow⟩

/-! ## The way of an answer -/

/-- A worker whose Excel answers through the given backend. -/
def World.reading (w : World) (backend : Backend) (address : Text) (b : Block) : World :=
  { w with backend := .ok backend, range := .ok (address, vendorValue backend b) }

/-- The worker is there and answers with `resp`. -/
def answering (resp : PyJson) : Contract api Unit where
  pre _ _ := True
  fact
    | _, .workerLock, r => r = true
    | _, .workerWrite _ _, r => r = true
    | _, .workerFlush, r => r = true
    | _, .workerRead, r => r = .line (some resp)
    | _, _, _ => True
  next _ _ _ := ()

/-- The body of the route's response. -/
def rangeJson (address values : PyJson) : PyJson :=
  .obj [(lit "address", address), (lit "values", values)]

/-- The client makes the matrix of the route's response. -/
def Delivered (L : Stdlib) (shown : PyJson → Text) (address : Text) (b : Block)
    (result : Except ApiError ResponseBody) : Prop :=
  ∃ shownAddress values, result = .ok (.range shownAddress values) ∧
    ∃ data, parse pythonReader (render rustWriter (rangeJson shownAddress values)) = some data ∧
      readRange L shown data = .ok ⟨address, b.values⟩

/-- A worker without Excel, files or a client. -/
def idle : World where
  jsonError := []
  shownMethod := []
  snippet := { captured := some ([], []), ended := .finished none }
  backend := .error ([], [])
  books := .error []
  range := .error []
  clientMissing := some []
  file := .error (.other [])

end Xlpod.RangeMatrix
