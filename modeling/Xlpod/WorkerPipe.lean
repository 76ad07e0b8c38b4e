import Xlpod.ApiErrors
import Xlpod.Library.GuardedRuns
import Xlpod.WorkerLoop

/-!
# Calls on the shared Python worker

`PythonWorker::call` as a machine. Any number of callers share one slot behind
a mutex; the slot holds the child process with its two pipes and the next
request id. A call moves from one await point to the next, and each await is a
place where its future may be dropped: the mutex is then released and whatever
was already written to the pipe stays there. Bytes taken out of the pipe by a
dropped `read_line` are lost with its buffer.

The worker is the process at the other end. It takes one complete line at a
time and answers it with one line; when the line was a request it echoes the
request's id. It may die at any moment, in the middle of an answer too. What it
wrote for which line is recorded for the statements only.
-/
namespace Xlpod.WorkerPipe
open Xlpod.JsonText Xlpod.BundlePayload Xlpod.ApiErrors Xlpod.GuardedRuns
open Xlpod.WorkerLoop (Request requestJson)

/-- A `serde_json` value: strings without surrogates, no repeated key, finite
numbers. -/
structure Value where
  json : PyJson
  readable : json.Readable rustReader Scalar

def idOf (v : PyJson) : Option ℤ :=
  match v.get? (lit "id") with
  | some (.int n) => some n
  | _ => none

/-- `str::trim`. -/
def isWhitespace (c : Char) : Bool :=
  (9 ≤ c.toNat && c.toNat ≤ 13) || c.toNat == 0x20 || c.toNat == 0x85 || c.toNat == 0xA0 ||
    c.toNat == 0x1680 || (0x2000 ≤ c.toNat && c.toNat ≤ 0x200A) || c.toNat == 0x2028 ||
    c.toNat == 0x2029 || c.toNat == 0x202F || c.toNat == 0x205F || c.toNat == 0x3000

def trim (line : List Char) : List Char :=
  ((line.dropWhile isWhitespace).reverse.dropWhile isWhitespace).reverse

/-- What the launcher makes of a line it read. -/
def parseLine (line : List Char) : Option PyJson := parse rustReader (trim line)

/-- The worker's side of the contract: an answer to a request carries its id. -/
def echoes (question text : List Char) : Bool :=
  match parseLine text, parse pythonReader question with
  | some v, some m => idOf v == idOf m
  | _, _ => true

/-! ## States -/

structure Proc where
  pid : ℕ
  alive : Bool
  stdin : List Char
  working : Option (List Char)
  stdout : List Char

structure WorkerInner where
  proc : Proc
  nextId : ℕ

/-- Where a call is suspended, with the process and id of its request once it
has them. -/
inductive Stage
  | queued
  | writing (pid id sent : ℕ)
  | flushing (pid id : ℕ)
  | reading (pid id : ℕ) (buf : List Char)
  | reaping (pid id : ℕ)
  | returned (tag : Option (ℕ × ℕ)) (result : Except ApiError PyJson)
  | dropped (tag : Option (ℕ × ℕ))

def Stage.tag : Stage → Option (ℕ × ℕ)
  | .queued => none
  | .writing pid id _ => some (pid, id)
  | .flushing pid id => some (pid, id)
  | .reading pid id _ => some (pid, id)
  | .reaping pid id => some (pid, id)
  | .returned tag _ => tag
  | .dropped tag => tag

/-- The stages in which the mutex guard is alive. -/
def Stage.holds : Stage → Bool
  | .writing .. => true
  | .flushing .. => true
  | .reading .. => true
  | .reaping .. => true
  | _ => false

structure Call where
  method : String
  params : Value
  stage : Stage

def Call.text (c : Call) (id : ℕ) : List Char :=
  render rustWriter (requestJson ⟨id, lit c.method, c.params.json⟩)

def Call.line (c : Call) (id : ℕ) : List Char := c.text id ++ ['\n']

/-- A line the worker took and what it wrote for it. -/
structure Answer where
  pid : ℕ
  question : List Char
  text : List Char

structure State where
  slot : Option WorkerInner
  holder : Option ℕ
  calls : ℕ → Option Call
  nextPid : ℕ
  answers : List Answer

def State.setStage (s : State) (i : ℕ) (c : Call) (stage : Stage) : State :=
  { s with calls := Function.update s.calls i (some { c with stage := stage }) }

def State.setProc (s : State) (w : WorkerInner) (p : Proc) : State :=
  { s with slot := some { w with proc := p } }

/-- The call returns: its guard is dropped. -/
def State.finish (s : State) (i : ℕ) (c : Call) (tag : ℕ × ℕ) (result : Except ApiError PyJson) :
    State :=
  { s.setStage i c (.returned (some tag) result) with holder := none }

/-- `*guard = None` and an error. -/
def State.crash (s : State) (i : ℕ) (c : Call) (tag : ℕ × ℕ) : State :=
  { s with slot := none }.finish i c tag (.error .workerCrashed)

/-- The id is assigned and the write begins, without an await in between. -/
def State.begin (s : State) (i : ℕ) (c : Call) (w : WorkerInner) : State :=
  { s.setStage i c (.writing w.proc.pid w.nextId 0) with
    slot := some { w with nextId := w.nextId + 1 }
    holder := some i }

def State.received (s : State) (i : ℕ) (c : Call) (tag : ℕ × ℕ) (line : List Char) : State :=
  s.finish i c tag (match parseLine line with
    | some v => .ok v
    | none => .error .internal)

def freshProc (pid : ℕ) : WorkerInner :=
  ⟨⟨pid, true, [], none, []⟩, 1⟩

/-! ## Steps -/

inductive Label
  | arrive (i : ℕ) (method : String) (params : Value)
  | acquire (i : ℕ) (spawned : Bool)
  | write (i count : ℕ)
  | writeError (i : ℕ)
  | flush (i : ℕ)
  | flushError (i : ℕ)
  | readSome (i count : ℕ)
  | readLine (i : ℕ)
  | readEof (i : ℕ)
  | readError (i : ℕ)
  | timeout (i : ℕ)
  | reaped (i : ℕ)
  | drop (i : ℕ)
  | take
  | answer (text : List Char)
  | die (torn : List Char)

def beforeNewline (cs : List Char) : List Char := cs.takeWhile (· != '\n')

def afterNewline (cs : List Char) : List Char := (cs.dropWhile (· != '\n')).tail

/-- A step of the call `i`, given its record. -/
def callStep (s : State) (i : ℕ) (c : Call) : Label → Option State
  | .acquire _ spawned =>
      match c.stage, s.holder, s.slot with
      | .queued, none, some w => some (s.begin i c w)
      | .queued, none, none =>
          if spawned then
            some ({ s with nextPid := s.nextPid + 1 }.begin i c (freshProc s.nextPid))
          else some (s.setStage i c (.returned none (.error .workerSpawnFailed)))
      | _, _, _ => none
  | .write _ count =>
      match c.stage, s.slot with
      | .writing pid id sent, some w =>
          if w.proc.alive then
            let p := { w.proc with stdin := w.proc.stdin ++ ((c.line id).drop sent).take count }
            if (c.line id).length ≤ sent + count then
              some ((s.setProc w p).setStage i c (.flushing pid id))
            else some ((s.setProc w p).setStage i c (.writing pid id (sent + count)))
          else none
      | _, _ => none
  | .writeError _ =>
      match c.stage with
      | .writing pid id _ => some (s.crash i c (pid, id))
      | _ => none
  | .flush _ =>
      match c.stage with
      | .flushing pid id => some (s.setStage i c (.reading pid id []))
      | _ => none
  | .flushError _ =>
      match c.stage with
      | .flushing pid id => some (s.crash i c (pid, id))
      | _ => none
  | .readSome _ count =>
      match c.stage, s.slot with
      | .reading pid id buf, some w =>
          if '\n' ∈ w.proc.stdout.take count then none
          else some ((s.setProc w { w.proc with stdout := w.proc.stdout.drop count }).setStage i c
            (.reading pid id (buf ++ w.proc.stdout.take count)))
      | _, _ => none
  | .readLine _ =>
      match c.stage, s.slot with
      | .reading pid id buf, some w =>
          if '\n' ∈ w.proc.stdout then
            some ((s.setProc w { w.proc with stdout := afterNewline w.proc.stdout }).received i c
              (pid, id) (buf ++ beforeNewline w.proc.stdout))
          else none
      | _, _ => none
  | .readEof _ =>
      match c.stage, s.slot with
      | .reading pid id buf, some w =>
          if w.proc.alive || '\n' ∈ w.proc.stdout then none
          else if buf ++ w.proc.stdout = [] then some (s.crash i c (pid, id))
          else some ((s.setProc w { w.proc with stdout := [] }).received i c (pid, id)
            (buf ++ w.proc.stdout))
      | _, _ => none
  | .readError _ =>
      match c.stage with
      | .reading pid id _ => some (s.crash i c (pid, id))
      | _ => none
  | .timeout _ =>
      match c.stage with
      | .reading pid id _ => some ({ s with slot := none }.setStage i c (.reaping pid id))
      | _ => none
  | .reaped _ =>
      match c.stage with
      | .reaping pid id => some (s.finish i c (pid, id) (.error .workerTimeout))
      | _ => none
  | .drop _ =>
      match c.stage with
      | .queued => some (s.setStage i c (.dropped none))
      | .returned .. => none
      | .dropped _ => none
      | stage => some { s.setStage i c (.dropped stage.tag) with holder := none }
  | _ => none

/-- A step of the worker process in the slot. -/
def procStep (s : State) (w : WorkerInner) : Label → Option State
  | .take =>
      if w.proc.working.isSome || !('\n' ∈ w.proc.stdin) then none
      else some (s.setProc w { w.proc with
        working := some (beforeNewline w.proc.stdin)
        stdin := afterNewline w.proc.stdin })
  | .answer text =>
      match w.proc.working with
      | none => none
      | some question =>
          if '\n' ∈ text ∨ echoes question text = false then none
          else some { s.setProc w { w.proc with
              working := none
              stdout := w.proc.stdout ++ (text ++ ['\n']) } with
            answers := ⟨w.proc.pid, question, text⟩ :: s.answers }
  | .die torn =>
      match w.proc.working with
      | none =>
          if torn = [] then some (s.setProc w { w.proc with alive := false }) else none
      | some question =>
          if '\n' ∈ torn ∨ echoes question torn = false then none
          else some { s.setProc w { w.proc with
              alive := false
              stdout := w.proc.stdout ++ torn } with
            answers := ⟨w.proc.pid, question, torn⟩ :: s.answers }
  | _ => none

def Label.caller : Label → Option ℕ
  | .acquire i _ => some i
  | .write i _ => some i
  | .writeError i => some i
  | .flush i => some i
  | .flushError i => some i
  | .readSome i _ => some i
  | .readLine i => some i
  | .readEof i => some i
  | .readError i => some i
  | .timeout i => some i
  | .reaped i => some i
  | .drop i => some i
  | _ => none

def next (s : State) (a : Label) : Option State :=
  match a with
  | .arrive i method params =>
      match s.calls i with
      | none => some { s with
          calls := Function.update s.calls i (some ⟨method, params, .queued⟩) }
      | some _ => none
  | a =>
      match a.caller with
      | some i => (s.calls i).bind fun c => callStep s i c a
      | none =>
          match s.slot with
          | some w => if w.proc.alive then procStep s w a else none
          | none => none

def worker : Machine State Label where
  start := ⟨none, none, fun _ => none, 0, []⟩
  next := next

/-! ## What a step can do -/

/-- The steps of a call, one constructor for each way through `callStep`. -/
inductive Called (s : State) (i : ℕ) (c : Call) : Label → State → Prop
  | reuse {j : ℕ} {spawned : Bool} {w : WorkerInner} :
      c.stage = .queued → s.holder = none → s.slot = some w →
      Called s i c (.acquire j spawned) (s.begin i c w)
  | spawn {j : ℕ} : c.stage = .queued → s.holder = none → s.slot = none →
      Called s i c (.acquire j true)
        ({ s with nextPid := s.nextPid + 1 }.begin i c (freshProc s.nextPid))
  | notSpawned {j : ℕ} : c.stage = .queued → s.holder = none → s.slot = none →
      Called s i c (.acquire j false) (s.setStage i c (.returned none (.error .workerSpawnFailed)))
  | part {j count pid id sent : ℕ} {w : WorkerInner} :
      c.stage = .writing pid id sent → s.slot = some w → w.proc.alive = true →
      sent + count < (c.line id).length →
      Called s i c (.write j count) ((s.setProc w { w.proc with
        stdin := w.proc.stdin ++ ((c.line id).drop sent).take count }).setStage i c
          (.writing pid id (sent + count)))
  | whole {j count pid id sent : ℕ} {w : WorkerInner} :
      c.stage = .writing pid id sent → s.slot = some w → w.proc.alive = true →
      (c.line id).length ≤ sent + count →
      Called s i c (.write j count) ((s.setProc w { w.proc with
        stdin := w.proc.stdin ++ ((c.line id).drop sent).take count }).setStage i c
          (.flushing pid id))
  | writeError {j pid id sent : ℕ} : c.stage = .writing pid id sent →
      Called s i c (.writeError j) (s.crash i c (pid, id))
  | flush {j pid id : ℕ} : c.stage = .flushing pid id →
      Called s i c (.flush j) (s.setStage i c (.reading pid id []))
  | flushError {j pid id : ℕ} : c.stage = .flushing pid id →
      Called s i c (.flushError j) (s.crash i c (pid, id))
  | readSome {j count pid id : ℕ} {buf : List Char} {w : WorkerInner} :
      c.stage = .reading pid id buf → s.slot = some w → '\n' ∉ w.proc.stdout.take count →
      Called s i c (.readSome j count)
        ((s.setProc w { w.proc with stdout := w.proc.stdout.drop count }).setStage i c
          (.reading pid id (buf ++ w.proc.stdout.take count)))
  | readLine {j pid id : ℕ} {buf : List Char} {w : WorkerInner} :
      c.stage = .reading pid id buf → s.slot = some w → '\n' ∈ w.proc.stdout →
      Called s i c (.readLine j)
        ((s.setProc w { w.proc with stdout := afterNewline w.proc.stdout }).received i c
          (pid, id) (buf ++ beforeNewline w.proc.stdout))
  | readNothing {j pid id : ℕ} {buf : List Char} {w : WorkerInner} :
      c.stage = .reading pid id buf → s.slot = some w → buf ++ w.proc.stdout = [] →
      Called s i c (.readEof j) (s.crash i c (pid, id))
  | readRest {j pid id : ℕ} {buf : List Char} {w : WorkerInner} :
      c.stage = .reading pid id buf → s.slot = some w → w.proc.alive = false →
      '\n' ∉ w.proc.stdout → buf ++ w.proc.stdout ≠ [] →
      Called s i c (.readEof j) ((s.setProc w { w.proc with stdout := [] }).received i c
        (pid, id) (buf ++ w.proc.stdout))
  | readError {j pid id : ℕ} {buf : List Char} : c.stage = .reading pid id buf →
      Called s i c (.readError j) (s.crash i c (pid, id))
  | timeout {j pid id : ℕ} {buf : List Char} : c.stage = .reading pid id buf →
      Called s i c (.timeout j) ({ s with slot := none }.setStage i c (.reaping pid id))
  | reaped {j pid id : ℕ} : c.stage = .reaping pid id →
      Called s i c (.reaped j) (s.finish i c (pid, id) (.error .workerTimeout))
  | dropQueued {j : ℕ} : c.stage = .queued →
      Called s i c (.drop j) (s.setStage i c (.dropped none))
  | dropHolding {j : ℕ} : c.stage.holds = true →
      Called s i c (.drop j) { s.setStage i c (.dropped c.stage.tag) with holder := none }

theorem called_of_callStep {s u : State} {i : ℕ} {c : Call} {a : Label}
    (h : callStep s i c a = some u) : Called s i c a u := by
  cases a with
  | acquire j spawned =>
      simp only [callStep] at h
      split at h
      · next hst hh hw =>
          cases h
          exact .reuse hst hh hw
      · next hst hh hw =>
          cases spawned with
          | true =>
              cases h
              exact .spawn hst hh hw
          | false =>
              cases h
              exact .notSpawned hst hh hw
      · cases h
  | write j count =>
      simp only [callStep] at h
      split at h
      · next hst hw =>
          split at h
          · next ha =>
              split at h <;> cases h
              · next hle => exact .whole hst hw ha hle
              · next hlt => exact .part hst hw ha (not_le.mp hlt)
          · cases h
      · cases h
  | writeError =>
      simp only [callStep] at h
      split at h
      · next hst =>
          cases h
          exact .writeError hst
      · cases h
  | flush =>
      simp only [callStep] at h
      split at h
      · next hst =>
          cases h
          exact .flush hst
      · cases h
  | flushError =>
      simp only [callStep] at h
      split at h
      · next hst =>
          cases h
          exact .flushError hst
      · cases h
  | readSome j count =>
      simp only [callStep] at h
      split at h
      · next hst hw =>
          split at h <;> cases h
          next hm => exact .readSome hst hw hm
      · cases h
  | readLine =>
      simp only [callStep] at h
      split at h
      · next hst hw =>
          split at h <;> cases h
          next hm => exact .readLine hst hw hm
      · cases h
  | readEof =>
      simp only [callStep] at h
      split at h
      · next hst hw =>
          split at h
          · cases h
          · next hm =>
              simp only [Bool.or_eq_true, decide_eq_true_eq, not_or, Bool.not_eq_true] at hm
              split at h <;> cases h
              · next hnil => exact .readNothing hst hw hnil
              · next hne => exact .readRest hst hw hm.1 hm.2 hne
      · cases h
  | readError =>
      simp only [callStep] at h
      split at h
      · next hst =>
          cases h
          exact .readError hst
      · cases h
  | timeout =>
      simp only [callStep] at h
      split at h
      · next hst =>
          cases h
          exact .timeout hst
      · cases h
  | reaped =>
      simp only [callStep] at h
      split at h
      · next hst =>
          cases h
          exact .reaped hst
      · cases h
  | drop =>
      simp only [callStep] at h
      cases hst : c.stage with
      | queued =>
          rw [hst] at h
          cases h
          exact .dropQueued hst
      | returned tag r =>
          rw [hst] at h
          cases h
      | dropped tag =>
          rw [hst] at h
          cases h
      | _ =>
          rw [hst] at h
          cases h
          rw [← hst]
          exact .dropHolding (by rw [hst]; rfl)
  | _ => cases h

/-- The steps of the worker process. -/
inductive Worked (s : State) (w : WorkerInner) : Label → State → Prop
  | take : w.proc.working = none → '\n' ∈ w.proc.stdin →
      Worked s w .take (s.setProc w { w.proc with
        working := some (beforeNewline w.proc.stdin)
        stdin := afterNewline w.proc.stdin })
  | answer {question text : List Char} :
      w.proc.working = some question → '\n' ∉ text → echoes question text = true →
      Worked s w (.answer text) { s.setProc w { w.proc with
          working := none
          stdout := w.proc.stdout ++ (text ++ ['\n']) } with
        answers := ⟨w.proc.pid, question, text⟩ :: s.answers }
  | dieIdle : w.proc.working = none →
      Worked s w (.die []) (s.setProc w { w.proc with alive := false })
  | dieWorking {question torn : List Char} :
      w.proc.working = some question → '\n' ∉ torn → echoes question torn = true →
      Worked s w (.die torn) { s.setProc w { w.proc with
          alive := false
          stdout := w.proc.stdout ++ torn } with
        answers := ⟨w.proc.pid, question, torn⟩ :: s.answers }

theorem worked_of_procStep {s u : State} {w : WorkerInner} {a : Label}
    (h : procStep s w a = some u) : Worked s w a u := by
  cases a with
  | take =>
      simp only [procStep] at h
      split at h <;> cases h
      next hm =>
      simp only [Bool.or_eq_true, Bool.not_eq_true', decide_eq_false_iff_not, not_or, not_not,
        Option.not_isSome_iff_eq_none] at hm
      exact .take hm.1 hm.2
  | answer text =>
      simp only [procStep] at h
      cases hw : w.proc.working with
      | none =>
          rw [hw] at h
          cases h
      | some question =>
          rw [hw] at h
          simp only at h
          split at h <;> cases h
          next hm =>
          simp only [not_or, Bool.not_eq_false] at hm
          exact .answer hw hm.1 hm.2
  | die torn =>
      simp only [procStep] at h
      cases hw : w.proc.working with
      | none =>
          rw [hw] at h
          simp only at h
          split at h <;> cases h
          next htorn =>
          subst htorn
          rw [← hw]
          exact .dieIdle hw
      | some question =>
          rw [hw] at h
          simp only at h
          split at h <;> cases h
          next hm =>
          simp only [not_or, Bool.not_eq_false] at hm
          rw [← hw]
          exact .dieWorking hw hm.1 hm.2
  | _ => cases h

end Xlpod.WorkerPipe
