import Xlpod.BundleFile

/-!
# The Python worker's loop

The loop reads one line, dispatches on its method and writes one JSON line.
What the work of a request does is the environment's: how a snippet ends, what
the Excel backend returns, what lies at a bundle path. The model keeps where
each of these runs. A snippet's body prints into captured streams, but the
rendering of its result, of its exit code and of its traceback runs after the
redirection has ended, so text printed there goes to the response stream, as does
what the body itself writes past the redirection. Standard input stays the pipe
of the requests: what a snippet reads there is missing from the lines that
follow. An exception outside the try blocks leaves the loop.

Cell values are JSON values or objects of another Python type, which
`json.dumps` refuses. Standard input is decoded by a codec the launcher does
not choose.
-/
namespace Xlpod.WorkerLoop
open Xlpod.JsonText Xlpod.ByteEncodings Xlpod.BundlePayload Xlpod.BundleFile

/-! ## What the environment answers -/

/-- `repr`, `format` or a traceback of an object of the snippet: what its own
methods print meanwhile, and the text unless they raise. -/
structure Rendering where
  printed : List Char
  text : Option Text

inductive SnippetEnd
  /-- The body finished; the rendering is of `_result` unless that is `None`. -/
  | finished (result : Option Rendering)
  | exited (code : Rendering)
  | raised (trace : Rendering)

structure SnippetRun where
  /-- The two captured streams, unless the snippet closed one. -/
  captured : Option (Text × Text)
  ended : SnippetEnd
  /-- What the body and whatever it leaves to run (children, threads, finalizers)
  write to `sys.__stdout__` or descriptor 1. -/
  written : List Char := []
  /-- The bytes it takes from standard input. -/
  taken : ℕ := 0
  /-- It closes standard input, as `exit()` and `quit()` do before they raise. -/
  closesInput : Bool := false
  /-- It closes the response stream. -/
  closesOutput : Bool := false

inductive Cell
  | json (v : PyJson)
  | foreign (typeName : String)

/-- A range as the two libraries return it. -/
inductive RangeValue
  | single (c : Cell)
  | line (cells : List Cell)
  | rows (rows : List (List Cell))

inductive Backend
  | xlwings
  | pywin32

structure BookInfo where
  name : Cell
  path : Cell
  fullName : Cell

inductive FileError
  | notFound (message : Text)
  | other (message : Text)

structure World where
  jsonError : Text
  shownMethod : Text
  snippet : SnippetRun
  backend : Except (Text × Text) Backend
  books : Except Text (List BookInfo)
  range : Except Text (Text × RangeValue)
  clientMissing : Option Text
  file : Except FileError Workbook

/-! ## Replies -/

inductive Field
  | value (v : PyJson)
  | table (rows : List (List (Text × Cell)))
  | grid (rows : List (List Cell))

abbrev Reply := List (Text × Field)

def Cell.dumps : Cell → Option PyJson
  | .json v => some v
  | .foreign _ => none

def dumpsRecord (row : List (Text × Cell)) : Option PyJson :=
  (row.mapM fun e : Text × Cell => e.2.dumps.map fun v => (e.1, v)).map Json.obj

def dumpsRow (row : List Cell) : Option PyJson := (row.mapM Cell.dumps).map Json.arr

def Field.dumps : Field → Option PyJson
  | .value v => some v
  | .table rows => (rows.mapM dumpsRecord).map Json.arr
  | .grid rows => (rows.mapM dumpsRow).map Json.arr

/-- The value `json.dumps` writes, `none` when it raises. -/
def dumps (reply : Reply) : Option PyJson :=
  (reply.mapM fun f : Text × Field => f.2.dumps.map fun v => (f.1, v)).map Json.obj

def str (s : String) : Field := .value (.str (lit s))

def failureReply (code : String) (message : Text) : Reply :=
  [(lit "ok", .value (.bool false)), (lit "error_code", str code),
    (lit "message", .value (.str message))]

/-! ## The methods -/

def SnippetEnd.rendering : SnippetEnd → Option Rendering
  | .finished result => result
  | .exited code => some code
  | .raised trace => some trace

def optionalText : Option Text → PyJson
  | none => .null
  | some s => .str s

/-- `_exec` once the rendering has given its text. -/
def execReply (out err : Text) (ended : SnippetEnd) (rendered : Option Text) : Reply :=
  let error := match ended with
    | .finished _ => none
    | .exited _ => rendered.map (lit "SystemExit: " ++ ·)
    | .raised _ => rendered
  let result := match ended with
    | .finished _ => rendered
    | _ => none
  [(lit "ok", .value (.bool error.isNone)), (lit "stdout", .value (.str out)),
    (lit "stderr", .value (.str err)), (lit "result", .value (optionalText result)),
    (lit "error", .value (optionalText error))]

/-- Text printed to the response stream, the reply unless an exception leaves the
function, the bytes taken from standard input, and which streams are closed. -/
structure Work where
  printed : List Char
  reply : Option Reply
  taken : ℕ
  inputClosed : Bool
  outputClosed : Bool

def exec (s : SnippetRun) : Work :=
  match s.ended.rendering with
  | none =>
      ⟨s.written, s.captured.map fun c => execReply c.1 c.2 s.ended none, s.taken,
        s.closesInput, s.closesOutput⟩
  | some r =>
      ⟨s.written ++ r.printed,
        s.captured.bind fun c => r.text.map fun t => execReply c.1 c.2 s.ended (some t), s.taken,
        s.closesInput, s.closesOutput⟩

def excelWorkbooks (w : World) : Reply :=
  match w.backend with
  | .error (code, message) =>
      [(lit "ok", .value (.bool false)), (lit "error_code", .value (.str code)),
        (lit "message", .value (.str message))]
  | .ok _ =>
      match w.books with
      | .error message => failureReply "excel_failed" message
      | .ok books =>
          [(lit "ok", .value (.bool true)), (lit "workbooks", .table (books.map fun b =>
            [(lit "name", b.name), (lit "path", b.path), (lit "full_name", b.fullName)]))]

/-- xlwings gives one list for a row or a column, COM gives tuples whose items
may be scalars. -/
def normalizeRange : Backend → RangeValue → List (List Cell)
  | _, .single c => [[c]]
  | .xlwings, .line cells => [cells]
  | .pywin32, .line cells => cells.map fun c => [c]
  | _, .rows rows => rows

def excelRangeRead (w : World) : Reply :=
  match w.backend with
  | .error (code, message) =>
      [(lit "ok", .value (.bool false)), (lit "error_code", .value (.str code)),
        (lit "message", .value (.str message))]
  | .ok backend =>
      match w.range with
      | .error message => failureReply "excel_failed" message
      | .ok (address, values) =>
          [(lit "ok", .value (.bool true)), (lit "address", .value (.str address)),
            (lit "values", .grid (normalizeRange backend values))]

section Bundle
variable (L : Stdlib) (describe : BundleError → Text)

/-- `e.code` of `_bundle_read`'s handlers. -/
def bundleErrorCode : BundleError → String
  | .notFound => "bundle_not_found"
  | .unknownSchema _ => "bundle_schema_mismatch"
  | .newerSchema _ => "bundle_schema_mismatch"
  | .tooLarge _ => "bundle_too_large"
  | .corrupt _ => "bundle_corrupt"
  | .python _ => "bundle_corrupt"

def fileFailure : FileError → Reply
  | .notFound message => failureReply "path_not_found" message
  | .other message => failureReply "bundle_corrupt" message

/-- `to_dict` runs after the try block: its exception leaves the function. -/
def bundleRead (w : World) : Option Reply :=
  match w.clientMissing with
  | some message => some (failureReply "bundle_corrupt" (lit "client package missing: " ++ message))
  | none =>
      match w.file with
      | .error e => some (fileFailure e)
      | .ok book =>
          match BundleReader.read L book with
          | .error e => some (failureReply (bundleErrorCode e) (describe e))
          | .ok payload =>
              match toDict L payload with
              | .error _ => none
              | .ok data => some [(lit "ok", .value (.bool true)), (lit "payload", .value data)]

/-- `list(v)`. -/
def pyList : PyJson → Except BundleError (List PyJson)
  | .arr items => pure items
  | .str s => pure (s.map fun c => .str [c])
  | .obj fields => pure (fields.map fun f => .str f.1)
  | _ => throw (.python .typeError)

/-- `v.get(key, default)`. -/
def getKeyOr (v : PyJson) (key : String) (default : PyJson) : Except BundleError PyJson :=
  match v with
  | .obj fields => pure ((fields.lookup (lit key)).getD default)
  | _ => throw (.python .attributeError)

def hasSchema (v : PyJson) : Bool :=
  match v with
  | .obj fields => truthy L ((fields.lookup (lit "schema")).getD .null)
  | _ => false

def buildPayload (data : PyJson) : Except BundleError Payload :=
  if hasSchema L data then fromDict L data
  else do
    let root := orElse L data (.obj [])
    let md := orElse L (← getKey root "metadata") (.obj [])
    let ai := orElse L (← getKey root "ai_history") (.obj [])
    let createdMs ← toInt L (orElse L (← getKeyOr md "created_ms" (.int 0)) (.int 0))
    let sessions ← pyList (← getKeyOr ai "sessions" (.arr []))
    let modules ← pyList (← getKeyOr root "python_modules" (.arr []))
    pure {
      schemaVersion := bundleSchemaVersion
      createdMs := createdMs
      workbookFingerprint := .null
      launcherMinVersion := .null
      pyodideSnapshot := none
      pyodideEncoding := .null
      aiSessions := .arr sessions
      pythonModules := .arr modules }

def bundleWrite (w : World) (data : PyJson) : Reply :=
  match w.clientMissing with
  | some message => failureReply "bundle_corrupt" (lit "client package missing: " ++ message)
  | none =>
      match buildPayload L data with
      | .error e => failureReply "bundle_corrupt" (describe e)
      | .ok payload =>
          match w.file with
          | .error e => fileFailure e
          | .ok book =>
              match BundleWriter.write L book payload with
              | .error (.tooLarge n) => failureReply "bundle_too_large" (describe (.tooLarge n))
              | .error e => failureReply "bundle_corrupt" (describe e)
              | .ok _ => [(lit "ok", .value (.bool true))]

/-- What lies at the path once `_bundle_write` has returned. -/
def fileAfterWrite (w : World) (data : PyJson) : Except FileError Workbook :=
  match w.clientMissing with
  | some _ => w.file
  | none =>
      match buildPayload L data with
      | .error _ => w.file
      | .ok payload =>
          match w.file with
          | .error e => .error e
          | .ok book =>
              match BundleWriter.write L book payload with
              | .error _ => .ok book
              | .ok out => .ok out

/-! ## The loop -/

/-- What the launcher sends: a number, a method name and parameters. -/
structure Request where
  id : ℕ
  method : Text
  params : PyJson

def requestJson (r : Request) : PyJson :=
  .obj [(lit "id", .int r.id), (lit "method", .str r.method), (lit "params", r.params)]

def requestLine (r : Request) : List Char := render rustWriter (requestJson r) ++ ['\n']

def requestBytes (r : Request) : Bytes := encodeUtf8 (requestLine r)

structure Input where
  request : Request
  world : World

/-- A decoded and parsed request line, `msg` of the loop. -/
structure Message where
  id : PyJson
  method : PyJson
  params : PyJson

def Message.of (fields : List (Text × PyJson)) : Message where
  id := (fields.lookup (lit "id")).getD .null
  method := (fields.lookup (lit "method")).getD .null
  params := orElse L ((fields.lookup (lit "params")).getD .null) (.obj [])

def isMethod (m : Message) (name : String) : Bool :=
  match m.method with
  | .str s => s == lit name
  | _ => false

/-- `payload["id"] = rid`. -/
def Work.withId (w : Work) (m : Message) : Work :=
  { w with reply := w.reply.map (· ++ [(lit "id", .value m.id)]) }

def silent (reply : Option Reply) : Work := ⟨[], reply, 0, false, false⟩

def quiet (reply : Reply) : Work := silent (some reply)

/-- A method that reads its parameters with `params.get`. -/
def withParams (m : Message) (f : PyJson → Work) : Work :=
  match m.params with
  | .obj _ => f m.params
  | _ => silent none

def work (w : World) (m : Message) : Work :=
  if isMethod m "ping" then quiet [(lit "id", .value m.id), (lit "ok", .value (.bool true))]
  else if isMethod m "exec" then (withParams m fun _ => exec w.snippet).withId m
  else if isMethod m "excel_workbooks" then (quiet (excelWorkbooks w)).withId m
  else if isMethod m "excel_range_read" then
    (withParams m fun _ => quiet (excelRangeRead w)).withId m
  else if isMethod m "bundle_read" then
    (withParams m fun _ => silent (bundleRead L describe w)).withId m
  else if isMethod m "bundle_write" then
    (withParams m fun params => match getKeyOr params "payload" (.obj []) with
      | .ok data => quiet (bundleWrite L describe w data)
      | .error _ => silent none).withId m
  else if isMethod m "shutdown" then
    quiet [(lit "id", .value m.id), (lit "ok", .value (.bool true))]
  else quiet [(lit "id", .value m.id), (lit "ok", .value (.bool false)),
    (lit "error", .value (.str (lit "unknown method: " ++
      match m.method with
      | .str s => s
      | _ => w.shownMethod)))]

variable (codec : Bytes → Option (List Char))

/-- What the loop makes of a line: nothing when decoding raises, else the
parsed value unless it is not JSON. -/
def heard (r : Request) : Option (Option PyJson) :=
  (codec (requestBytes r)).map (parse pythonReader)

/-- The same of a line whose first bytes a snippet has taken. -/
def heardAfter (skip : ℕ) (r : Request) : Option (Option PyJson) :=
  (codec ((requestBytes r).drop skip)).map (parse pythonReader)

/-- One round of the loop: text on the response stream before the reply, the
value sent unless an exception leaves the loop, whether the loop returns, the
bytes taken of the lines that follow, and whether standard input is closed. -/
structure Turn where
  printed : List Char
  sent : Option PyJson
  returns : Bool
  taken : ℕ
  inputClosed : Bool

def turn (skip : ℕ) (i : Input) : Turn :=
  match heardAfter codec skip i.request with
  | none => ⟨[], none, false, 0, false⟩
  | some none =>
      ⟨[], dumps [(lit "id", .value .null), (lit "ok", .value (.bool false)),
        (lit "error", .value (.str (lit "bad json: " ++ i.world.jsonError)))], false, 0, false⟩
  | some (some (.obj fields)) =>
      let m := Message.of L fields
      let w := work L describe i.world m
      -- Writing to a closed stream raises, as `json.dumps` may.
      ⟨w.printed, if w.outputClosed then none else w.reply.bind dumps, isMethod m "shutdown",
        w.taken, w.inputClosed⟩
  | some (some _) => ⟨[], none, false, 0, false⟩

/-- `_send`. -/
def sendLine (v : PyJson) : List Char := render pythonWriter v ++ ['\n']

end Bundle

end Xlpod.WorkerLoop
