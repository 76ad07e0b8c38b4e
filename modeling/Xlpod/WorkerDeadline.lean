import Xlpod.WorkerResponses

/-!
# Deadlines on the worker's pipes

The calls of `PythonWorker` between two pipes of bounded size. A call moves as
before, except that it writes only what its end of the pipe has room for, in
bytes, and a write fails only when the worker is gone. The worker is a process
with its own memory: it takes bytes out of its pipe, works on a line, prints,
and may stop doing any of these for as long as it likes.

The timer of a call is armed around `read_line` alone. A call that waits for
room in the worker's stdin therefore depends on the worker or on its client.
Every wait has a deadline in the runs in which each call finds room for its
whole request when it takes the mutex: its write and its flush then complete
without suspending, and the first wait is the one with the timer.
-/
namespace Xlpod.WorkerDeadline
open Xlpod.JsonText Xlpod.BundlePayload Xlpod.ApiErrors Xlpod.GuardedRuns Xlpod.WorkerPipe

def bytes (cs : List Char) : ℕ := (cs.map Char.utf8Size).sum

/-- The calls and their pipes, and the worker's memory: what it read and did not
use yet, and what it still has to print. -/
structure State where
  pipe : WorkerPipe.State
  input : List Char
  output : List Char

inductive Label
  | call (a : WorkerPipe.Label)
  | pull (count : ℕ)
  | take
  | utter (text : List Char)
  | answer (text : List Char)
  | print (count : ℕ)
  | die

/-! ## Steps -/

/-- What is left to write of a request. -/
def unwritten (c : Call) : List Char :=
  match c.stage with
  | .writing _ id sent => (c.line id).drop sent
  | _ => []

/-- A write takes as many bytes as the pipe has room for, and fails when the
worker's end is closed. What the worker does is not up to a call. -/
def admits (inCap : ℕ) (s : WorkerPipe.State) : WorkerPipe.Label → Bool
  | .write i count =>
      match s.calls i, s.slot with
      | some c, some w => bytes w.proc.stdin + bytes ((unwritten c).take count) ≤ inCap
      | _, _ => false
  | .writeError _ => s.slot.all (!·.proc.alive)
  | .flushError _ => s.slot.all (!·.proc.alive)
  | .take => false
  | .answer _ => false
  | .die _ => false
  | _ => true

/-- A process that is replaced takes its memory with it. -/
def State.afterCall (s : State) (p : WorkerPipe.State) : State :=
  match s.pipe.slot with
  | some _ => { s with pipe := p }
  | none => ⟨p, [], []⟩

/-- A step of the live worker in the slot. -/
def workerStep (outCap : ℕ) (s : State) (w : WorkerInner) : Label → Option State
  | .pull count => some { s with
      pipe := s.pipe.setProc w { w.proc with stdin := w.proc.stdin.drop count }
      input := s.input ++ w.proc.stdin.take count }
  | .take =>
      if w.proc.working.isSome ∨ s.output ≠ [] ∨ '\n' ∉ s.input then none
      else some { s with
        pipe := s.pipe.setProc w { w.proc with working := some (beforeNewline s.input) }
        input := afterNewline s.input }
  | .utter text =>
      if w.proc.working.isSome then some { s with output := s.output ++ text } else none
  | .answer text =>
      if w.proc.working.isSome then
        some { s with
          pipe := s.pipe.setProc w { w.proc with working := none }
          output := s.output ++ (text ++ ['\n']) }
      else none
  | .print count =>
      if bytes w.proc.stdout + bytes (s.output.take count) ≤ outCap then
        some { s with
          pipe := s.pipe.setProc w { w.proc with stdout := w.proc.stdout ++ s.output.take count }
          output := s.output.drop count }
      else none
  | .die => some { s with pipe := s.pipe.setProc w { w.proc with alive := false } }
  | .call _ => none

def next (inCap outCap : ℕ) (s : State) : Label → Option State
  | .call a =>
      if admits inCap s.pipe a then (WorkerPipe.next s.pipe a).map s.afterCall else none
  | a =>
      match s.pipe.slot with
      | some w => if w.proc.alive then workerStep outCap s w a else none
      | none => none

/-- The worker with pipes of these capacities. -/
def pipes (inCap outCap : ℕ) : Machine State Label where
  start := ⟨worker.start, [], []⟩
  next := next inCap outCap

/-! ## Waiting -/

/-- The future of the call is suspended on a pipe of a live worker: there is no
room for its next character, or no complete line to read. -/
inductive Waiting (inCap : ℕ) (s : State) (i : ℕ) : Prop
  | stdin {c : Call} {w : WorkerInner} {pid id sent : ℕ} {x : Char} {rest : List Char} :
      s.pipe.calls i = some c → c.stage = .writing pid id sent → s.pipe.slot = some w →
      w.proc.alive = true → (c.line id).drop sent = x :: rest →
      inCap < bytes w.proc.stdin + x.utf8Size → Waiting inCap s i
  | stdout {c : Call} {w : WorkerInner} {pid id : ℕ} {buf : List Char} :
      s.pipe.calls i = some c → c.stage = .reading pid id buf → s.pipe.slot = some w →
      w.proc.alive = true → '\n' ∉ w.proc.stdout → Waiting inCap s i

/-- The timer of the call may expire; the worker is then killed and taken out
of the slot, and once it is reaped the mutex is free. -/
def Armed (inCap outCap : ℕ) (s : State) (i : ℕ) : Prop :=
  ∃ t u, next inCap outCap s (.call (.timeout i)) = some t ∧ t.pipe.slot = none ∧
    next inCap outCap t (.call (.reaped i)) = some u ∧ u.pipe.holder = none

/-- Neither a step of the worker process nor of a client, who sends requests and
drops their futures. -/
def launcherOwn (_ : State) : Label → Prop
  | .call (.arrive ..) => False
  | .call (.drop _) => False
  | .call _ => True
  | _ => False

/-- The launcher frees the mutex without the worker and without a client. -/
def Releasable (inCap outCap : ℕ) (s : State) : Prop :=
  ∃ u, Run (pipes inCap outCap) launcherOwn s u ∧ u.pipe.holder = none

/-- The mutex is not held without a deadline. -/
structure Deadlined (inCap outCap : ℕ) (s : State) : Prop where
  armed : ∀ i, s.pipe.holder = some i → Waiting inCap s i → Armed inCap outCap s i
  releasable : Releasable inCap outCap s

/-- The worker a call finds, or the one it spawns. -/
def offered (s : WorkerPipe.State) : WorkerInner :=
  match s.slot with
  | some w => w
  | none => freshProc s.nextPid

/-- If the call gets a live worker, its pipe has room for the whole request. -/
def RoomFor (inCap : ℕ) (s : WorkerPipe.State) (c : Call) (spawned : Bool) : Prop :=
  spawned = true ∨ s.slot ≠ none → (offered s).proc.alive = true →
    bytes (offered s).proc.stdin + bytes (c.line (offered s).nextId) ≤ inCap

/-- A call that takes the mutex has room for its request. -/
def Roomy (inCap : ℕ) (s : State) : Label → Prop
  | .call (.acquire i spawned) =>
      ∀ c, s.pipe.calls i = some c → RoomFor inCap s.pipe c spawned
  | _ => True

/-! ## Sizes -/

theorem bytes_append (cs ds : List Char) : bytes (cs ++ ds) = bytes cs + bytes ds := by
  rw [bytes, List.map_append, List.sum_append, bytes, bytes]

theorem bytes_take_drop (cs : List Char) (n : ℕ) :
    bytes (cs.take n) + bytes (cs.drop n) = bytes cs := by
  rw [← bytes_append, List.take_append_drop]

theorem bytes_cons (c : Char) (cs : List Char) : bytes (c :: cs) = c.utf8Size + bytes cs := by
  rw [bytes, List.map_cons, List.sum_cons, bytes]

/-! ## What a call may do -/

/-- The whole request is in the pipe and the mutex is still held. -/
def written : Stage → Bool
  | .flushing .. => true
  | .reading .. => true
  | .reaping .. => true
  | _ => false

/-- A step of a call by what happens to the mutex: it is taken, part of the
request or all of it is written, the request is out, the mutex is left, or
nothing changes but the call. -/
inductive Moves (s : WorkerPipe.State) (i : ℕ) (c : Call) :
    WorkerPipe.Label → WorkerPipe.State → Prop
  | enter {spawned : Bool} {u : WorkerPipe.State} :
      c.stage = .queued → s.holder = none → spawned = true ∨ s.slot ≠ none →
      u.calls = (s.setStage i c (.writing (offered s).proc.pid (offered s).nextId 0)).calls →
      u.holder = some i → u.slot = some { offered s with nextId := (offered s).nextId + 1 } →
      Moves s i c (.acquire i spawned) u
  | part {count pid id sent : ℕ} {w : WorkerInner} :
      c.stage = .writing pid id sent → s.slot = some w → w.proc.alive = true →
      sent + count < (c.line id).length →
      Moves s i c (.write i count) ((s.setProc w { w.proc with
        stdin := w.proc.stdin ++ ((c.line id).drop sent).take count }).setStage i c
          (.writing pid id (sent + count)))
  | out {a : WorkerPipe.Label} {stage : Stage} {u : WorkerPipe.State} :
      c.stage.holds = true → written stage = true →
      u.calls = (s.setStage i c stage).calls → u.holder = s.holder → Moves s i c a u
  | leave {a : WorkerPipe.Label} {stage : Stage} {u : WorkerPipe.State} :
      c.stage.holds = true → stage.holds = false →
      u.calls = (s.setStage i c stage).calls → u.holder = none → Moves s i c a u
  | aside {a : WorkerPipe.Label} {stage : Stage} {u : WorkerPipe.State} :
      c.stage.holds = false → stage.holds = false →
      u.calls = (s.setStage i c stage).calls → u.holder = s.holder → u.slot = s.slot →
      Moves s i c a u

theorem Called.moves {s u : WorkerPipe.State} {i : ℕ} {c : Call} {a : WorkerPipe.Label}
    (ha : a.caller = some i) (h : Called s i c a u) : Moves s i c a u := by
  cases h with
  | @reuse j spawned w hst hfree hw =>
      cases ha
      have hoffered : offered s = w := by rw [offered, hw]
      exact .enter hst hfree (.inr (by simp [hw])) (by rw [hoffered]; rfl) rfl
        (by rw [hoffered]; rfl)
  | spawn hst hfree hw =>
      cases ha
      have hoffered : offered s = freshProc s.nextPid := by rw [offered, hw]
      exact .enter hst hfree (.inl rfl) (by rw [hoffered]; rfl) rfl (by rw [hoffered]; rfl)
  | notSpawned hst => exact .aside (by rw [hst]; rfl) rfl rfl rfl rfl
  | part hst hw halive hlt =>
      cases ha
      exact .part hst hw halive hlt
  | whole hst => exact .out (by rw [hst]; rfl) rfl rfl rfl
  | writeError hst => exact .leave (by rw [hst]; rfl) rfl rfl rfl
  | flush hst => exact .out (by rw [hst]; rfl) rfl rfl rfl
  | flushError hst => exact .leave (by rw [hst]; rfl) rfl rfl rfl
  | readSome hst => exact .out (by rw [hst]; rfl) rfl rfl rfl
  | readLine hst => exact .leave (by rw [hst]; rfl) rfl rfl rfl
  | readNothing hst => exact .leave (by rw [hst]; rfl) rfl rfl rfl
  | readRest hst => exact .leave (by rw [hst]; rfl) rfl rfl rfl
  | readError hst => exact .leave (by rw [hst]; rfl) rfl rfl rfl
  | timeout hst => exact .out (by rw [hst]; rfl) rfl rfl rfl
  | reaped hst => exact .leave (by rw [hst]; rfl) rfl rfl rfl
  | dropQueued hst => exact .aside (by rw [hst]; rfl) rfl rfl rfl rfl
  | dropHolding hs => exact .leave hs rfl rfl rfl

/-- A step of the worker: the calls and the mutex stay as they are, its pipe does
not get fuller, and it does not come back to life. -/
structure Works (s u : WorkerPipe.State) : Prop where
  calls : u.calls = s.calls
  holder : u.holder = s.holder
  slot : ∃ w p, s.slot = some w ∧ u.slot = some { w with proc := p } ∧
    w.proc.alive = true ∧ bytes p.stdin ≤ bytes w.proc.stdin

theorem works_setProc {s : WorkerPipe.State} {w : WorkerInner} {p : Proc} (hw : s.slot = some w)
    (ha : w.proc.alive = true) (hp : bytes p.stdin ≤ bytes w.proc.stdin) :
    Works s (s.setProc w p) :=
  ⟨rfl, rfl, w, p, hw, rfl, ha, hp⟩

theorem bytes_drop_le (cs : List Char) (n : ℕ) : bytes (cs.drop n) ≤ bytes cs := by
  have h := bytes_take_drop cs n
  omega

theorem workerStep_works {outCap : ℕ} {s u : State} {w : WorkerInner} {a : Label}
    (hw : s.pipe.slot = some w) (ha : w.proc.alive = true)
    (h : workerStep outCap s w a = some u) : Works s.pipe u.pipe := by
  cases a with
  | call b => cases h
  | pull count =>
      cases h
      exact works_setProc hw ha (bytes_drop_le _ count)
  | take =>
      simp only [workerStep] at h
      split at h <;> cases h
      exact works_setProc hw ha le_rfl
  | utter text =>
      simp only [workerStep] at h
      split at h <;> cases h
      exact ⟨rfl, rfl, w, w.proc, hw, hw, ha, le_rfl⟩
  | answer text =>
      simp only [workerStep] at h
      split at h <;> cases h
      exact works_setProc hw ha le_rfl
  | print count =>
      simp only [workerStep] at h
      split at h <;> cases h
      exact works_setProc hw ha le_rfl
  | die =>
      cases h
      exact works_setProc hw ha le_rfl

theorem pipe_afterCall (s : State) (p : WorkerPipe.State) : (s.afterCall p).pipe = p := by
  unfold State.afterCall
  split <;> rfl

/-- A step by who moves: a new request, a call under way, or the worker. -/
inductive Stepped (inCap : ℕ) (s u : State) : Label → Prop
  | arrive {i : ℕ} {method : String} {params : Value} :
      s.pipe.calls i = none →
      u.pipe = { s.pipe with
        calls := Function.update s.pipe.calls i (some ⟨method, params, .queued⟩) } →
      Stepped inCap s u (.call (.arrive i method params))
  | call {i : ℕ} {c : Call} {a : WorkerPipe.Label} :
      s.pipe.calls i = some c → a.caller = some i → admits inCap s.pipe a = true →
      Called s.pipe i c a u.pipe → Stepped inCap s u (.call a)
  | worker {a : Label} : (∀ b, a ≠ .call b) → Works s.pipe u.pipe → Stepped inCap s u a

theorem next_caller {s : WorkerPipe.State} {a : WorkerPipe.Label} {i : ℕ}
    (ha : a.caller = some i) :
    WorkerPipe.next s a = (s.calls i).bind fun c => callStep s i c a := by
  cases a with
  | arrive => cases ha
  | _ => simp only [WorkerPipe.next, ha]

theorem next_call {inCap outCap : ℕ} {s u : State} {a : WorkerPipe.Label}
    (h : next inCap outCap s (.call a) = some u) :
    admits inCap s.pipe a = true ∧ WorkerPipe.next s.pipe a = some u.pipe := by
  simp only [next, Option.ite_none_right_eq_some] at h
  obtain ⟨hallowed, h⟩ := h
  obtain ⟨p, hp, rfl⟩ := Option.map_eq_some_iff.mp h
  exact ⟨hallowed, by rw [pipe_afterCall, hp]⟩

theorem next_stepped {inCap outCap : ℕ} {s u : State} {a : Label}
    (h : next inCap outCap s a = some u) : Stepped inCap s u a := by
  cases a with
  | call b =>
      obtain ⟨hallowed, hp⟩ := next_call h
      cases hb : b.caller with
      | some i =>
          rw [next_caller hb] at hp
          obtain ⟨c, hc, hstep⟩ := Option.bind_eq_some_iff.mp hp
          exact .call hc hb hallowed (called_of_callStep hstep)
      | none =>
          cases b with
          | arrive i method params =>
              simp only [WorkerPipe.next] at hp
              split at hp
              · next hi => exact .arrive hi (Option.some.inj hp).symm
              · cases hp
          | take => cases hallowed
          | answer text => cases hallowed
          | die torn => cases hallowed
          | _ => cases hb
  | _ =>
      refine .worker nofun ?_
      simp only [next] at h
      split at h
      · next w hw =>
          split at h
          · next ha => exact workerStep_works hw ha h
          · cases h
      · cases h

/-! ## The holder has room -/

/-- A holder that is still writing has room for the rest of its request. -/
def Stands (inCap : ℕ) (slot : Option WorkerInner) (c : Call) : Stage → Prop
  | .writing _ id sent => sent < (c.line id).length ∧ ∃ w, slot = some w ∧
      (w.proc.alive = true →
        bytes w.proc.stdin + bytes ((c.line id).drop sent) ≤ inCap)
  | stage => stage.holds = true

structure Sound (inCap : ℕ) (s : WorkerPipe.State) : Prop where
  holding : ∀ i c, s.calls i = some c → c.stage.holds = true → s.holder = some i
  held : ∀ i, s.holder = some i → ∃ c, s.calls i = some c ∧ Stands inCap s.slot c c.stage

theorem stands_of_written {inCap : ℕ} {slot : Option WorkerInner} {c : Call} {stage : Stage}
    (h : written stage = true) : Stands inCap slot c stage ∧ stage.holds = true := by
  cases stage with
  | flushing => exact ⟨rfl, rfl⟩
  | reading => exact ⟨rfl, rfl⟩
  | reaping => exact ⟨rfl, rfl⟩
  | _ => cases h

theorem Stands.holds {inCap : ℕ} {slot : Option WorkerInner} {c : Call} {stage : Stage}
    (h : Stands inCap slot c stage) : stage.holds = true := by
  cases stage with
  | writing => rfl
  | _ => exact h

section
variable {inCap outCap : ℕ} {s u : WorkerPipe.State} {i : ℕ} {c : Call} {stage : Stage}

theorem Sound.hold (h : Sound inCap s) (hi : s.holder = none ∨ s.holder = some i)
    (hcalls : u.calls = (s.setStage i c stage).calls) (hholder : u.holder = some i)
    (hstands : Stands inCap u.slot c stage) : Sound inCap u := by
  constructor
  · intro j d hj hd
    rcases WorkerResponses.calls_update (hcalls ▸ hj) with ⟨rfl, -⟩ | ⟨hji, hj⟩
    · exact hholder
    · have hold := h.holding j d hj hd
      rcases hi with hi | hi
      · cases hi.symm.trans hold
      · cases hi.symm.trans hold
        exact absurd rfl hji
  · intro j hj
    cases hholder.symm.trans hj
    refine ⟨{ c with stage := stage }, ?_, ?_⟩
    · rw [hcalls]
      exact Function.update_self ..
    · cases stage with
      | writing => exact hstands
      | _ => exact hstands

theorem Sound.leave (h : Sound inCap s) (hc : s.calls i = some c) (hcs : c.stage.holds = true)
    (hcalls : u.calls = (s.setStage i c stage).calls) (hstage : stage.holds = false)
    (hholder : u.holder = none) : Sound inCap u := by
  constructor
  · intro j d hj hd
    rcases WorkerResponses.calls_update (hcalls ▸ hj) with ⟨-, rfl⟩ | ⟨hji, hj⟩
    · exact absurd hd (by simp [hstage])
    · cases (h.holding i c hc hcs).symm.trans (h.holding j d hj hd)
      exact absurd rfl hji
  · intro j hj
    cases hholder.symm.trans hj

theorem Sound.aside (h : Sound inCap s)
    (hfree : ∀ d, s.calls i = some d → d.stage.holds = false)
    (hcalls : u.calls = Function.update s.calls i (some c)) (hstage : c.stage.holds = false)
    (hholder : u.holder = s.holder) (hslot : u.slot = s.slot) : Sound inCap u := by
  constructor
  · intro j d hj hd
    rw [hholder]
    rcases WorkerResponses.calls_update (hcalls ▸ hj) with ⟨-, rfl⟩ | ⟨-, hj⟩
    · exact absurd hd (by simp [hstage])
    · exact h.holding j d hj hd
  · intro j hj
    obtain ⟨d, hd, hstands⟩ := h.held j (hholder ▸ hj)
    have hji : j ≠ i := by
      intro he
      subst he
      exact absurd hstands.holds (by simp [hfree d hd])
    refine ⟨d, ?_, hslot ▸ hstands⟩
    rw [hcalls, Function.update_of_ne hji, hd]

theorem Stands.works (hu : Works s u) (h : Stands inCap s.slot c stage) :
    Stands inCap u.slot c stage := by
  cases stage with
  | writing pid id sent =>
      obtain ⟨hsent, w, hw, hroom⟩ := h
      obtain ⟨w', p, hw', hslot, halive, hp⟩ := hu.slot
      cases hw.symm.trans hw'
      refine ⟨hsent, _, hslot, fun _ => ?_⟩
      have hfit := hroom halive
      simp only
      omega
  | _ => exact h

theorem Sound.works (h : Sound inCap s) (hu : Works s u) : Sound inCap u := by
  constructor
  · intro i c hc hs
    rw [hu.holder]
    exact h.holding i c (hu.calls ▸ hc) hs
  · intro i hi
    obtain ⟨c, hc, hstands⟩ := h.held i (hu.holder ▸ hi)
    exact ⟨c, hu.calls ▸ hc, hstands.works hu⟩

theorem Sound.moves {a : WorkerPipe.Label} (h : Sound inCap s) (hc : s.calls i = some c)
    (hg : ∀ spawned, a = .acquire i spawned → RoomFor inCap s c spawned)
    (hm : Moves s i c a u) : Sound inCap u := by
  cases hm with
  | enter hq hholder hworker hcalls hmine hslot =>
      have hroom := hg _ rfl hworker
      exact h.hold (.inl hholder) hcalls hmine ⟨by simp [Call.line], _, hslot, hroom⟩
  | @part count pid id sent w hst hw ha hlt =>
      have hi := h.holding i c hc (by rw [hst]; rfl)
      obtain ⟨d, hd, hstands⟩ := h.held i hi
      cases hc.symm.trans hd
      rw [hst] at hstands
      obtain ⟨-, w', hw', hroom⟩ := hstands
      cases hw.symm.trans hw'
      refine h.hold (.inr hi) rfl hi ⟨hlt, _, rfl, fun _ => ?_⟩
      have hfit := hroom ha
      have hsplit := bytes_take_drop ((c.line id).drop sent) count
      rw [List.drop_drop] at hsplit
      simp only [bytes_append]
      omega
  | out hs hstage hcalls hholder =>
      have hi := h.holding i c hc hs
      exact h.hold (.inr hi) hcalls (hholder.trans hi) (stands_of_written hstage).1
  | leave hs hstage hcalls hholder => exact h.leave hc hs hcalls hstage hholder
  | aside hs hstage hcalls hholder hslot =>
      refine h.aside (fun d hd => ?_) hcalls hstage hholder hslot
      cases hc.symm.trans hd
      exact hs

end

theorem Sound.next {inCap outCap : ℕ} {s u : State} {a : Label} (h : Sound inCap s.pipe)
    (hg : Roomy inCap s a) (hn : WorkerDeadline.next inCap outCap s a = some u) :
    Sound inCap u.pipe := by
  cases next_stepped hn with
  | arrive hi hu =>
      exact h.aside (fun d hd => absurd (hi.symm.trans hd) nofun) (by rw [hu]) rfl (by rw [hu])
        (by rw [hu])
  | worker _ hu => exact h.works hu
  | call hc hb _ hcalled =>
      refine h.moves hc (fun spawned ha => ?_) (Called.moves hb hcalled)
      subst ha
      exact hg _ hc

theorem sound_start (inCap : ℕ) : Sound inCap worker.start := by
  constructor
  · intro i c hc
    cases hc
  · intro i hi
    cases hi

theorem reachable_sound {inCap outCap : ℕ} {s : State}
    (h : Reachable (pipes inCap outCap) (Roomy inCap) s) : Sound inCap s.pipe := by
  apply Reachable.invariant (P := fun s => Sound inCap s.pipe) (sound_start inCap) ?_ h
  intro u a v _ hs hg hn
  exact Sound.next hs hg hn

/-! ## The launcher frees the mutex -/

section
variable {inCap outCap : ℕ} {s : State} {i : ℕ} {c : Call}

theorem next_of_call (outCap : ℕ) {b : WorkerPipe.Label} {p : WorkerPipe.State}
    (hallowed : admits inCap s.pipe b = true) (hp : WorkerPipe.next s.pipe b = some p) :
    next inCap outCap s (.call b) = some (s.afterCall p) := by
  simp [next, hallowed, hp]

theorem own_step (b : WorkerPipe.Label) {p : WorkerPipe.State}
    (hown : launcherOwn s (.call b)) (hallowed : admits inCap s.pipe b = true)
    (hp : WorkerPipe.next s.pipe b = some p) :
    Run (pipes inCap outCap) launcherOwn s (s.afterCall p) := by
  have hstep : (pipes inCap outCap).next s (.call b) = some (s.afterCall p) :=
    next_of_call outCap hallowed hp
  exact .single hown hstep

theorem Releasable.after {u : State} (hu : Run (pipes inCap outCap) launcherOwn s u)
    (h : Releasable inCap outCap u) : Releasable inCap outCap s := by
  obtain ⟨v, hv, hfree⟩ := h
  exact ⟨v, hu.trans hv, hfree⟩

theorem call_setStage (p : WorkerPipe.State) (stage : Stage) :
    (s.afterCall (p.setStage i c stage)).pipe.calls i = some { c with stage := stage } := by
  rw [pipe_afterCall]
  exact Function.update_self ..

theorem armed_of_reading {pid id : ℕ} {buf : List Char} (hc : s.pipe.calls i = some c)
    (hst : c.stage = .reading pid id buf) : Armed inCap outCap s i := by
  have htimeout : WorkerPipe.next s.pipe (.timeout i) =
      some ({ s.pipe with slot := none }.setStage i c (.reaping pid id)) := by
    simp [WorkerPipe.next, WorkerPipe.Label.caller, hc, callStep, hst]
  have hexpired := @next_of_call inCap s outCap _ _ rfl htimeout
  generalize ht : s.afterCall _ = t at hexpired
  have hpipe : t.pipe = { s.pipe with slot := none }.setStage i c (.reaping pid id) := by
    rw [← ht, pipe_afterCall]
  have hreaped : WorkerPipe.next t.pipe (.reaped i) =
      some (t.pipe.finish i { c with stage := .reaping pid id } (pid, id)
        (.error .workerTimeout)) := by
    have hcall : t.pipe.calls i = some { c with stage := .reaping pid id } := by
      rw [hpipe]
      exact Function.update_self ..
    simp [WorkerPipe.next, WorkerPipe.Label.caller, hcall, callStep]
  exact ⟨t, _, hexpired, by rw [hpipe]; rfl, next_of_call outCap rfl hreaped,
    by rw [pipe_afterCall]; rfl⟩

theorem Armed.releasable (h : Armed inCap outCap s i) : Releasable inCap outCap s := by
  obtain ⟨t, u, ht, -, hu, hfree⟩ := h
  have hexpire : launcherOwn s (.call (.timeout i)) := trivial
  have hreap : launcherOwn t (.call (.reaped i)) := trivial
  exact ⟨u, .step (.single hexpire ht) hreap hu, hfree⟩

theorem releasable_of_reaping {pid id : ℕ} (hc : s.pipe.calls i = some c)
    (hst : c.stage = .reaping pid id) : Releasable inCap outCap s := by
  have hreaped : WorkerPipe.next s.pipe (.reaped i) =
      some (s.pipe.finish i c (pid, id) (.error .workerTimeout)) := by
    simp [WorkerPipe.next, WorkerPipe.Label.caller, hc, callStep, hst]
  exact ⟨_, own_step (.reaped i) trivial rfl hreaped, by rw [pipe_afterCall]; rfl⟩

theorem releasable_of_flushing {pid id : ℕ} (hc : s.pipe.calls i = some c)
    (hst : c.stage = .flushing pid id) : Releasable inCap outCap s := by
  have hflush : WorkerPipe.next s.pipe (.flush i) =
      some (s.pipe.setStage i c (.reading pid id [])) := by
    simp [WorkerPipe.next, WorkerPipe.Label.caller, hc, callStep, hst]
  have hread : Armed inCap outCap (s.afterCall (s.pipe.setStage i c (.reading pid id []))) i :=
    armed_of_reading (call_setStage s.pipe (.reading pid id [])) rfl
  exact hread.releasable.after (own_step (.flush i) trivial rfl hflush)

/-- A call whose request fits writes it in one go; one whose worker is gone gets
an error. -/
theorem releasable_of_writing {pid id sent : ℕ} {w : WorkerInner} (hc : s.pipe.calls i = some c)
    (hst : c.stage = .writing pid id sent) (hw : s.pipe.slot = some w)
    (hroom : w.proc.alive = true → bytes w.proc.stdin + bytes ((c.line id).drop sent) ≤ inCap) :
    Releasable inCap outCap s := by
  by_cases ha : w.proc.alive = true
  · have hallowed : admits inCap s.pipe (.write i (c.line id).length) = true := by
      have hfit := hroom ha
      have hsplit := bytes_take_drop ((c.line id).drop sent) (c.line id).length
      simp only [admits, hc, hw, unwritten, hst, decide_eq_true_eq]
      omega
    have hwrite : WorkerPipe.next s.pipe (.write i (c.line id).length) =
        some ((s.pipe.setProc w { w.proc with
          stdin := w.proc.stdin ++ ((c.line id).drop sent).take (c.line id).length }).setStage i c
            (.flushing pid id)) := by
      simp [WorkerPipe.next, WorkerPipe.Label.caller, hc, callStep, hst, hw, ha]
    exact (releasable_of_flushing (call_setStage _ _) rfl).after
      (own_step (.write i (c.line id).length) trivial hallowed hwrite)
  · have hallowed : admits inCap s.pipe (.writeError i) = true := by
      simp [admits, hw, ha]
    have herror : WorkerPipe.next s.pipe (.writeError i) =
        some (s.pipe.crash i c (pid, id)) := by
      simp [WorkerPipe.next, WorkerPipe.Label.caller, hc, callStep, hst]
    exact ⟨_, own_step (.writeError i) trivial hallowed herror, by rw [pipe_afterCall]; rfl⟩

theorem Sound.releasable (h : Sound inCap s.pipe) : Releasable inCap outCap s := by
  cases hi : s.pipe.holder with
  | none => exact ⟨s, .done s, hi⟩
  | some i =>
      obtain ⟨c, hc, hstands⟩ := h.held i hi
      cases hst : c.stage with
      | writing pid id sent =>
          rw [hst] at hstands
          obtain ⟨-, w, hw, hroom⟩ := hstands
          exact releasable_of_writing hc hst hw hroom
      | flushing pid id => exact releasable_of_flushing hc hst
      | reading pid id buf => exact (armed_of_reading hc hst).releasable
      | reaping pid id => exact releasable_of_reaping hc hst
      | _ =>
          have hholds := hstands.holds
          rw [hst] at hholds
          cases hholds

theorem Sound.armed (h : Sound inCap s.pipe) (hi : s.pipe.holder = some i)
    (hwait : Waiting inCap s i) : Armed inCap outCap s i := by
  cases hwait with
  | @stdin c w pid id sent x rest hc hst hw ha hrest hfull =>
      obtain ⟨d, hd, hstands⟩ := h.held i hi
      cases hc.symm.trans hd
      rw [hst] at hstands
      obtain ⟨-, w', hw', hroom⟩ := hstands
      cases hw.symm.trans hw'
      have hfit := hroom ha
      rw [hrest, bytes_cons] at hfit
      omega
  | stdout hc hst _ _ _ => exact armed_of_reading hc hst

theorem Sound.deadlined (h : Sound inCap s.pipe) : Deadlined inCap outCap s :=
  ⟨fun _ hi hwait => h.armed hi hwait, h.releasable⟩

end

/-! ## A request that does not fit -/

/-- The holder has more to write than its live worker's pipe can take, and nobody
else is past the mutex. -/
structure Stuck (inCap : ℕ) (i : ℕ) (s : WorkerPipe.State) : Prop where
  holder : s.holder = some i
  others : ∀ j c, s.calls j = some c → j ≠ i → c.stage.holds = false
  blocked : ∃ c w pid id sent, s.calls i = some c ∧ c.stage = .writing pid id sent ∧
    s.slot = some w ∧ w.proc.alive = true ∧
    inCap < bytes w.proc.stdin + bytes ((c.line id).drop sent)

theorem Stuck.aside {inCap i j : ℕ} {s u : WorkerPipe.State} {c : Call} {stage : Stage}
    (h : Stuck inCap i s) (hji : j ≠ i) (hcalls : u.calls = (s.setStage j c stage).calls)
    (hstage : stage.holds = false) (hholder : u.holder = s.holder) (hslot : u.slot = s.slot) :
    Stuck inCap i u := by
  obtain ⟨d, w, pid, id, sent, hd, hrest⟩ := h.blocked
  refine ⟨hholder.trans h.holder, ?_, d, w, pid, id, sent, ?_, hslot ▸ hrest⟩
  · intro k e hk hki
    rcases WorkerResponses.calls_update (hcalls ▸ hk) with ⟨-, rfl⟩ | ⟨-, hk⟩
    · exact hstage
    · exact h.others k e hk hki
  · rw [hcalls]
    exact (Function.update_of_ne hji.symm ..).trans hd

theorem Stuck.write {inCap i : ℕ} {s : WorkerPipe.State} {c : Call} {w : WorkerInner}
    {pid id sent count : ℕ} (h : Stuck inCap i s)
    (hfull : inCap < bytes w.proc.stdin + bytes ((c.line id).drop sent))
    (halive : w.proc.alive = true) :
    Stuck inCap i ((s.setProc w { w.proc with
      stdin := w.proc.stdin ++ ((c.line id).drop sent).take count }).setStage i c
        (.writing pid id (sent + count))) := by
  have hsplit := bytes_take_drop ((c.line id).drop sent) count
  rw [List.drop_drop] at hsplit
  refine ⟨h.holder, ?_, _, _, pid, id, sent + count, Function.update_self .., rfl, rfl, halive, ?_⟩
  · intro k e hk hki
    rcases WorkerResponses.calls_update hk with ⟨hki', -⟩ | ⟨-, hk⟩
    · exact absurd hki' hki
    · exact h.others k e hk hki
  · have hline : ({ c with stage := .writing pid id (sent + count) } : Call).line id = c.line id :=
      rfl
    simp only [hline, bytes_append]
    omega

/-- Of its own the holder can only fill the pipe. -/
theorem Stuck.called {inCap i : ℕ} {s u : WorkerPipe.State} {c : Call} {b : WorkerPipe.Label}
    (h : Stuck inCap i s) (hc : s.calls i = some c) (hb : b.caller = some i)
    (hdrop : b ≠ .drop i) (hallowed : admits inCap s b = true) (hu : Called s i c b u) :
    Stuck inCap i u := by
  obtain ⟨d, w, pid, id, sent, hd, hst, hw, ha, hfull⟩ := h.blocked
  cases hc.symm.trans hd
  cases hu with
  | part hst' hw' ha' hlt =>
      cases hst.symm.trans hst'
      cases hw.symm.trans hw'
      exact h.write hfull ha
  | @whole j count _ _ _ _ hst' hw' ha' hle =>
      cases hst.symm.trans hst'
      cases hb
      simp only [admits, hc, hw, unwritten, hst, decide_eq_true_eq] at hallowed
      have hall : ((c.line id).drop sent).take count = (c.line id).drop sent := by
        apply List.take_of_length_le
        rw [List.length_drop]
        omega
      rw [hall] at hallowed
      omega
  | writeError => simp [admits, hw, ha] at hallowed
  | dropHolding =>
      cases hb
      exact absurd rfl hdrop
  | reuse hst' => cases hst.symm.trans hst'
  | spawn hst' => cases hst.symm.trans hst'
  | notSpawned hst' => cases hst.symm.trans hst'
  | flush hst' => cases hst.symm.trans hst'
  | flushError hst' => cases hst.symm.trans hst'
  | readSome hst' => cases hst.symm.trans hst'
  | readLine hst' => cases hst.symm.trans hst'
  | readNothing hst' => cases hst.symm.trans hst'
  | readRest hst' => cases hst.symm.trans hst'
  | readError hst' => cases hst.symm.trans hst'
  | timeout hst' => cases hst.symm.trans hst'
  | reaped hst' => cases hst.symm.trans hst'
  | dropQueued hst' => cases hst.symm.trans hst'

/-- The other calls have nothing to do with the pipes. -/
theorem Stuck.beside {inCap i j : ℕ} {s u : WorkerPipe.State} {c : Call} {b : WorkerPipe.Label}
    (h : Stuck inCap i s) (hji : j ≠ i) (hc : s.calls j = some c) (hm : Moves s j c b u) :
    Stuck inCap i u := by
  have hfree := h.others j c hc hji
  cases hm with
  | enter _ hholder => cases hholder.symm.trans h.holder
  | part hst => simp [hst, Stage.holds] at hfree
  | out hs => simp [hs] at hfree
  | leave hs => simp [hs] at hfree
  | aside _ hstage hcalls hholder hslot => exact h.aside hji hcalls hstage hholder hslot

theorem Stuck.own {inCap outCap i : ℕ} {s u : State} {a : Label} (h : Stuck inCap i s.pipe)
    (hown : launcherOwn s a) (hn : next inCap outCap s a = some u) : Stuck inCap i u.pipe := by
  cases next_stepped hn with
  | arrive => exact hown.elim
  | worker hne _ =>
      cases a with
      | call b => exact absurd rfl (hne b)
      | _ => exact hown.elim
  | @call j c b hc hb hallowed hcalled =>
      by_cases hji : j = i
      · subst hji
        refine h.called hc hb (fun hdrop => ?_) hallowed hcalled
        subst hdrop
        exact hown
      · exact h.beside hji hc (Called.moves hb hcalled)

theorem Stuck.not_releasable {inCap outCap i : ℕ} {s : State} (h : Stuck inCap i s.pipe) :
    ¬Releasable inCap outCap s := by
  intro hr
  obtain ⟨u, hrun, hfree⟩ := hr
  have hstuck : Stuck inCap i u.pipe := hrun.carry (P := fun v => Stuck inCap i v.pipe) h
    fun _ _ _ hs hown hn => hs.own hown hn
  cases hstuck.holder.symm.trans hfree

theorem Stuck.begin {inCap i : ℕ} {s : WorkerPipe.State} {c : Call} {w : WorkerInner}
    (h : Sound inCap s) (hfree : s.holder = none) (ha : w.proc.alive = true)
    (hfull : inCap < bytes w.proc.stdin + bytes (c.line w.nextId)) :
    Stuck inCap i (s.begin i c w) := by
  refine ⟨rfl, ?_, _, _, w.proc.pid, w.nextId, 0, Function.update_self .., rfl, rfl, ha, hfull⟩
  intro j d hj hji
  rcases WorkerResponses.calls_update hj with ⟨hji', -⟩ | ⟨-, hj⟩
  · exact absurd hji' hji
  · cases hs : d.stage.holds with
    | false => rfl
    | true => cases hfree.symm.trans (h.holding j d hj hs)

/-- A call that takes the mutex without room for its request gets stuck. -/
theorem stuck_of_acquire {inCap i j : ℕ} {s u : WorkerPipe.State} {c : Call} {spawned : Bool}
    (h : Sound inCap s) (hg : ¬RoomFor inCap s c spawned)
    (hu : Called s i c (.acquire j spawned) u) : Stuck inCap i u := by
  simp only [RoomFor, Classical.not_imp, not_le] at hg
  obtain ⟨htakes, ha, hfull⟩ := hg
  cases hu with
  | reuse _ hfree hw =>
      simp only [offered, hw] at ha hfull
      exact Stuck.begin h hfree ha hfull
  | spawn _ hfree hw =>
      simp only [offered, hw] at ha hfull
      have hs : Sound inCap { s with nextPid := s.nextPid + 1 } := ⟨h.holding, h.held⟩
      exact Stuck.begin hs hfree ha hfull
  | notSpawned _ _ hw => exact absurd htakes (by simp [hw])

theorem stuck_of_not_roomy {inCap outCap : ℕ} {s u : State} {a : Label} (h : Sound inCap s.pipe)
    (hg : ¬Roomy inCap s a) (hn : next inCap outCap s a = some u) :
    ∃ i, Stuck inCap i u.pipe := by
  cases next_stepped hn with
  | arrive => exact absurd trivial hg
  | worker hne _ =>
      cases a with
      | call b => exact absurd rfl (hne b)
      | _ => exact absurd trivial hg
  | @call i c b hc hb hallowed hcalled =>
      cases b with
      | acquire j spawned =>
          cases hb
          have hroom : ¬RoomFor inCap s.pipe c spawned := by
            intro hr
            apply hg
            intro d hd
            cases hc.symm.trans hd
            exact hr
          exact ⟨i, stuck_of_acquire h hroom hcalled⟩
      | _ => exact absurd trivial hg

/-! ## Runs -/

/-- In a run whose calls have found room for their requests so far, every wait
has a deadline, and it stays so with the next step exactly if that step finds
room again. -/
theorem deadlined_iff {inCap outCap : ℕ} {s : State}
    (h : Reachable (pipes inCap outCap) (Roomy inCap) s) :
    Deadlined inCap outCap s ∧ ∀ a u, next inCap outCap s a = some u →
      (Deadlined inCap outCap u ↔ Roomy inCap s a) := by
  have hsound := reachable_sound h
  refine ⟨hsound.deadlined, fun a u hn => ⟨fun hd => ?_, fun hg => ?_⟩⟩
  · by_contra hg
    obtain ⟨i, hstuck⟩ := stuck_of_not_roomy hsound hg hn
    exact hstuck.not_releasable hd.releasable
  · exact (hsound.next hg hn).deadlined

/-! ## Behind an abandoned snippet -/

def exec (code : Text) (h : Scalar code) : Value where
  json := .obj [(lit "code", .str code)]
  readable := ⟨by simpa [Json.strings, Json.fieldStrings] using ⟨lit_scalar _, h⟩,
    ⟨by simp, trivial, trivial⟩, .inr ⟨trivial, trivial⟩⟩

def withRoom (inCap : ℕ) (s : State) : Label → Bool
  | .call (.acquire i _) => (s.pipe.calls i).all fun c =>
      bytes (offered s.pipe).proc.stdin + bytes (c.line (offered s.pipe).nextId) ≤ inCap
  | _ => true

theorem roomy_of_withRoom {inCap : ℕ} (s : State) (a : Label) (h : withRoom inCap s a = true) :
    Roomy inCap s a := by
  unfold Roomy
  split
  · next i spawned =>
      intro c hc _ _
      simpa [withRoom, hc] using h
  · trivial

/-- A snippet that never ends, and whose client has left. -/
def abandoned : List Label :=
  [.call (.arrive 0 "exec" (exec (lit "while True: pass") (lit_scalar _))), .call (.acquire 0 true),
    .call (.write 0 100), .call (.flush 0), .pull 100, .take, .call (.drop 0)]

/-- The worker is busy with it and the mutex is free. -/
def busy (s : State) : Bool :=
  s.pipe.holder.isNone && (s.pipe.calls 1).isNone &&
    s.pipe.slot.any fun w => w.proc.alive && w.proc.working.isSome && w.proc.stdin.isEmpty

theorem deadlined_abandoned : ∃ s, Reachable (pipes 65536 65536) (Roomy 65536) s ∧
    busy s = true ∧ Deadlined 65536 65536 s ∧ ∀ a u, next 65536 65536 s a = some u →
      (Deadlined 65536 65536 u ↔ Roomy 65536 s a) := by
  obtain ⟨s, hs, ht⟩ := replay_reaches (pipes 65536 65536) (Roomy 65536) (withRoom 65536)
    abandoned busy roomy_of_withRoom (by decide +kernel)
  exact ⟨s, hs, ht, deadlined_iff hs⟩

theorem length_le_bytes (cs : List Char) : cs.length ≤ bytes cs := by
  induction cs with
  | nil => exact Nat.zero_le _
  | cons c cs ih =>
      have hc := c.utf8Size_pos
      rw [bytes_cons, List.length_cons]
      omega

theorem rustEscape_pos (c : CodePoint) : 1 ≤ (rustEscape c).length := by
  have hunicode (n : ℕ) : 1 ≤ (unicodeEscape n).length := by
    simp [unicodeEscape]
  unfold rustEscape
  split_ifs
  all_goals first
    | exact hunicode _
    | exact Nat.le_add_left 1 _

theorem length_le_literal (t : Text) : t.length ≤ (rustWriter.literal t).length := by
  induction t with
  | nil => exact Nat.zero_le _
  | cons c t ih =>
      have hc := rustEscape_pos c
      have hcons : rustWriter.literal (c :: t) = rustEscape c ++ rustWriter.literal t := rfl
      rw [hcons, List.length_append, List.length_cons]
      omega

/-- A request is longer than its snippet. -/
theorem exec_line_long {code : Text} (h : Scalar code) (c : Call) (hc : c.params = exec code h)
    (id : ℕ) : code.length < bytes (c.line id) := by
  have hliteral := length_le_literal code
  apply lt_of_lt_of_le ?_ (length_le_bytes (c.line id))
  simp only [Call.line, Call.text, WorkerLoop.requestJson, hc, exec, render, renderFields, quoted,
    List.length_append, List.length_cons]
  omega

def longCode : Text := List.replicate 65536 (codePoint 120)

theorem longCode_scalar : Scalar longCode := by
  intro c hc
  rw [List.eq_of_mem_replicate hc]
  decide

def longCall : Call := ⟨"exec", exec longCode longCode_scalar, .queued⟩

/-- A new call that gets the mutex at once. -/
theorem acquired (inCap outCap : ℕ) {i : ℕ} {s : State} {w : WorkerInner} (c : Call)
    (hc : c.stage = .queued) (hnew : s.pipe.calls i = none) (hfree : s.pipe.holder = none)
    (hw : s.pipe.slot = some w) :
    ∃ t u, next inCap outCap s (.call (.arrive i c.method c.params)) = some t ∧
      t.pipe.calls i = some c ∧ t.pipe.slot = some w ∧
      next inCap outCap t (.call (.acquire i false)) = some u ∧ u.pipe = t.pipe.begin i c w := by
  have harrive : WorkerPipe.next s.pipe (.arrive i c.method c.params) =
      some { s.pipe with calls := Function.update s.pipe.calls i (some c) } := by
    simp only [WorkerPipe.next, hnew, ← hc]
  have harrived := @next_of_call inCap s outCap _ _ rfl harrive
  generalize ht : s.afterCall _ = t at harrived
  have hpipe := pipe_afterCall s { s.pipe with calls := Function.update s.pipe.calls i (some c) }
  rw [ht] at hpipe
  have hcall : t.pipe.calls i = some c := by
    rw [hpipe]
    exact Function.update_self ..
  have hslot : t.pipe.slot = some w := by
    rw [hpipe]
    exact hw
  have hholder : t.pipe.holder = none := by
    rw [hpipe]
    exact hfree
  have hacquire : WorkerPipe.next t.pipe (.acquire i false) = some (t.pipe.begin i c w) := by
    simp only [WorkerPipe.next, WorkerPipe.Label.caller, hcall, Option.bind_some, callStep, hc,
      hholder, hslot]
  exact ⟨t, _, harrived, hcall, hslot, next_of_call outCap rfl hacquire, pipe_afterCall _ _⟩

/-- Behind the abandoned snippet a request longer than the pipe holds the mutex,
and only the worker or the caller can free it. -/
theorem wedged : ∃ s, Reachable (pipes 65536 65536) anyStep s ∧ s.pipe.holder = some 1 ∧
    (s.pipe.slot.any fun w => w.proc.alive && w.proc.working.isSome) = true ∧
    ¬Deadlined 65536 65536 s ∧ ¬Releasable 65536 65536 s := by
  obtain ⟨s, hs, ht⟩ := replay_reaches (pipes 65536 65536) (Roomy 65536) (withRoom 65536)
    abandoned busy roomy_of_withRoom (by decide +kernel)
  simp only [busy, Bool.and_eq_true, Option.isNone_iff_eq_none] at ht
  obtain ⟨⟨hfree, hnew⟩, hslot⟩ := ht
  obtain ⟨w, hw, hworker⟩ := (Option.any_eq_true ..).mp hslot
  simp only [Bool.and_eq_true] at hworker
  obtain ⟨⟨halive, hbusy⟩, -⟩ := hworker
  obtain ⟨t, u, harrived, hcall, hkept, hacquired, hu⟩ :=
    acquired 65536 65536 longCall rfl hnew hfree hw
  have hsnug : ¬Roomy 65536 t (.call (.acquire 1 false)) := by
    intro hr
    have hlong := exec_line_long longCode_scalar longCall rfl (offered t.pipe).nextId
    have hfit := hr _ hcall (.inr (by simp [hkept])) (by simpa [offered, hkept] using halive)
    have hlength : longCode.length = 65536 := List.length_replicate
    omega
  have harrives : Roomy 65536 s (.call (.arrive 1 longCall.method longCall.params)) := trivial
  have hroomy : Reachable (pipes 65536 65536) (Roomy 65536) t := hs.next harrives harrived
  obtain ⟨i, hstuck⟩ := stuck_of_not_roomy (reachable_sound hroomy) hsnug hacquired
  have hreached : Reachable (pipes 65536 65536) anyStep u :=
    .step (a := .call (.acquire 1 false)) hroomy.unguarded trivial hacquired
  refine ⟨u, hreached, ?_, ?_, fun hd => hstuck.not_releasable hd.releasable,
    hstuck.not_releasable⟩
  · rw [hu]
    rfl
  · simp [hu, WorkerPipe.State.begin, halive, hbusy]

end Xlpod.WorkerDeadline
