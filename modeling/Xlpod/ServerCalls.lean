import Xlpod.ServerState

/-!
# Files and the worker, as the handlers call them

`read_under_roots` and `canonicalize_roots` over the file operations, and the
calls on the shared worker: lock and spawn, write, flush, read, and the reaping
of a killed child, each an await. Which process answers is the business of the
worker's own model; here its answer is the environment's.
-/
namespace Xlpod.ServerCalls
open Xlpod.ApiErrors Xlpod.Auth Xlpod.AiTypes Xlpod.BundlePayload Xlpod.ByteEncodings
open Xlpod.JsonText Xlpod.ServerState

/-- `ok_or`. -/
def okOr {α : Type} (e : ApiError) : Option α → Handler α
  | some a => pure a
  | none => throw e

/-- `?` on a store's answer. -/
def orThrow {α : Type} (x : Server (Except ApiError α)) : Handler α := ExceptT.mk x

section
open Xlpod.Programs
variable {G α : Type} {C : Contract api G} {g : G} {post : G → Except ApiError α → Prop}

@[simp ↓] theorem meets_okOr {e : ApiError} {x : Option α} : Meets C (okOr e x).run g post ↔
    (∀ a, x = some a → post g (.ok a)) ∧ (x = none → post g (.error e)) := by
  cases x <;> simp [okOr]

@[simp ↓] theorem meets_orThrow {x : Server (Except ApiError α)} :
    Meets C (orThrow x).run g post ↔ Meets C x g post := Iff.rfl

end

/-! ## Files -/

def fsReadMaxBytes : ℕ := 10 * 1024 * 1024

structure ReadOk where
  canonical : PathBuf
  bytes : Bytes

def underRoots (roots : List PathBuf) (canonical : PathBuf) : Bool :=
  roots.any fun root => canonical.startsWith root

def readUnderRoots (requested : String) (roots : List PathBuf) : Handler ReadOk := do
  if roots.isEmpty then throw .forbiddenPath
  let canonical ← okOr .pathNotFound (← canonicalize requested)
  if !underRoots roots canonical then throw .forbiddenPath
  let metadata ← okOr .pathNotFound (← fileMetadata canonical)
  if !metadata.isFile then throw .notAFile
  if fsReadMaxBytes < metadata.len then throw .pathTooLarge
  let bytes ← okOr .pathNotFound (← readFile canonical)
  return ⟨canonical, bytes⟩

def canonicalizeRoots : List String → Server (List PathBuf)
  | [] => return []
  | raw :: rest => do
      let some p ← canonicalize raw | canonicalizeRoots rest
      let directory ← isDir p
      let roots ← canonicalizeRoots rest
      return if directory then p :: roots else roots

def fileContent (result : ReadOk) : FileContent where
  path := result.canonical.text
  size := result.bytes.length
  encoding := "base64"
  content := b64encode result.bytes

/-! ## The worker -/

/-- The match on what was read. A worker that overran its time is reaped. -/
def readReply : ReadOutcome → Handler PyJson
  | .eof => throw .workerCrashed
  | .failed => throw .workerCrashed
  | .timeout => do
      workerReap
      throw .workerTimeout
  | .line parsed => okOr .internal parsed

/-- `PythonWorker::call`. -/
def workerCall (method : String) (params : PyJson) : Handler PyJson := do
  if !(← workerLock) then throw .workerSpawnFailed
  if !(← workerWrite method params) then throw .workerCrashed
  if !(← workerFlush) then throw .workerCrashed
  readReply (← workerRead)

def execFieldNames : List String := ["ok", "stdout", "stderr", "result", "error"]

/-- The fields of `ExecResult`, by name or by position. -/
def execFields : PyJson → Option (List (Option PyJson))
  | .obj fields => some (execFieldNames.map fun name => fields.lookup (lit name))
  | .arr items =>
      if items.length ≤ execFieldNames.length then
        some (items.map some ++ List.replicate (execFieldNames.length - items.length) none)
      else none
  | _ => none

/-- A field with a default; a value of another type is an error. -/
def fieldOr {α : Type} (default : α) (decode : PyJson → Option α) : Option PyJson → Option α
  | none => some default
  | some v => decode v

def optional (v : PyJson) : Option (Option String) :=
  match v with
  | .null => some none
  | v => (asStr v).map some

def ExecResult.fromValue (v : PyJson) : Option ExecResult :=
  match execFields v with
  | some [ok, stdout, stderr, result, error] => do
      let ok ← fieldOr false asBool ok
      let stdout ← fieldOr "" asStr stdout
      let stderr ← fieldOr "" asStr stderr
      let result ← fieldOr none optional result
      let error ← fieldOr none optional error
      return ⟨ok, stdout, stderr, result, error⟩
  | _ => none

def ExecResult.toValue (r : ExecResult) : PyJson :=
  .obj [(lit "error", optionJson r.error), (lit "ok", .bool r.ok), (lit "result", optionJson r.result),
    (lit "stderr", str r.stderr), (lit "stdout", str r.stdout)]

/-- `PythonWorker::exec`. -/
def workerExec (code : String) : Handler ExecResult := do
  let value ← workerCall "exec" (.obj [(lit "code", str code)])
  okOr .internal (ExecResult.fromValue value)

/-- `PythonWorker::excel_call`. -/
def excelCall (method : String) (params : PyJson) : Handler PyJson := do
  let resp ← workerCall method params
  if (((field resp "ok").bind asBool).map (!·)).getD false then
    let code := ((field resp "error_code").bind asStr).getD ""
    if code = "excel_not_available" then throw .excelNotAvailable
    if code = "excel_not_running" then throw .excelNotRunning
    throw .excelFailed
  return resp

end Xlpod.ServerCalls
