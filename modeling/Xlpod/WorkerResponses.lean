import Xlpod.WorkerIds

/-!
# Responses correspond to requests

Nothing in `PythonWorker::call` compares the id of the line it read with the
id it sent; the pairing rests on the pipes being empty whenever the mutex is
free. The invariant says so, and describes the one exchange that the holder of
the mutex has with the worker. It is broken by a single step, a future dropped
between the first byte of its request and the last byte of its answer while
the worker lives; without that step every answer is the worker's own answer to
the very request.
-/
namespace Xlpod.WorkerResponses
open Xlpod.JsonText Xlpod.BundlePayload Xlpod.ApiErrors Xlpod.GuardedRuns
open Xlpod.WorkerPipe Xlpod.WorkerIds

/-- The worker of this process wrote `text` in answer to the request `id` of
the call, and the call returned its value. -/
def Answered (answers : List Answer) (c : Call) (pid id : ℕ) (v : PyJson) : Prop :=
  ∃ text, ⟨pid, c.text id, text⟩ ∈ answers ∧ parseLine text = some v ∧ idOf v = some (id : ℤ)

/-- A call that returned `Ok` returned the answer to its own request, which no
other call sent to the same process. -/
def Corresponds (s : State) : Prop :=
  ∀ i c tag v, s.calls i = some c → c.stage = .returned tag (.ok v) →
    ∃ pid id, tag = some (pid, id) ∧ Answered s.answers c pid id v ∧
      ∀ j d id', s.calls j = some d → j ≠ i → d.stage.tag = some (pid, id') →
        d.text id' ≠ c.text id

/-- Part of the exchange is in the pipes. -/
def Stage.pending : Stage → Bool
  | .writing _ _ sent => 0 < sent
  | .flushing .. => true
  | .reading .. => true
  | _ => false

/-- No future is dropped while part of its exchange with a live worker is in
the pipes. -/
def lossless (s : State) : Label → Prop
  | .drop i => ∀ c w, s.calls i = some c → s.slot = some w → Stage.pending c.stage = true →
      w.proc.alive = false
  | _ => True

/-! ## The exchange of the holder -/

/-- A live worker between two exchanges. -/
structure Quiet (p : Proc) : Prop where
  stdin : p.stdin = []
  working : p.working = none
  stdout : p.stdout = []

structure Recorded (answers : List Answer) (p : Proc) (question text : List Char) : Prop where
  mem : ⟨p.pid, question, text⟩ ∈ answers
  line : '\n' ∉ text
  echo : echoes question text = true

/-- Where the one question and its one answer are; `buf` is what the launcher
has taken out of the pipe. -/
inductive Exchange (answers : List Answer) (p : Proc) (question buf : List Char) : Prop
  | asking : p.stdin = question ++ ['\n'] → p.working = none → p.stdout = [] → buf = [] →
      Exchange answers p question buf
  | working : p.stdin = [] → p.working = some question → p.stdout = [] → buf = [] →
      Exchange answers p question buf
  | answered (text : List Char) : p.stdin = [] → p.working = none →
      Recorded answers p question text → buf ++ p.stdout = text ++ ['\n'] →
      Exchange answers p question buf
  | torn (text : List Char) : p.alive = false → Recorded answers p question text →
      buf ++ p.stdout = text → Exchange answers p question buf

def Held (slot : Option WorkerInner) (answers : List Answer) (c : Call) : Stage → Prop
  | .writing pid id sent => ∃ w, slot = some w ∧ w.proc.pid = pid ∧ sent < (c.line id).length ∧
      (w.proc.alive = true → w.proc.stdin = (c.line id).take sent ∧ w.proc.working = none ∧
        w.proc.stdout = [])
  | .flushing pid id => ∃ w, slot = some w ∧ w.proc.pid = pid ∧
      Exchange answers w.proc (c.text id) []
  | .reading pid id buf => ∃ w, slot = some w ∧ w.proc.pid = pid ∧ '\n' ∉ buf ∧
      Exchange answers w.proc (c.text id) buf
  | .reaping .. => slot = none
  | _ => False

structure Inv (s : State) : Prop where
  holding : ∀ i c, s.calls i = some c → c.stage.holds = true → s.holder = some i
  held : ∀ i, s.holder = some i → ∃ c, s.calls i = some c ∧ Held s.slot s.answers c c.stage
  idle : s.holder = none → ∀ w, s.slot = some w → w.proc.alive = true → Quiet w.proc
  own : ∀ i c tag v, s.calls i = some c → c.stage = .returned tag (.ok v) →
    ∃ pid id, tag = some (pid, id) ∧ Answered s.answers c pid id v

theorem Held.holds {slot : Option WorkerInner} {answers : List Answer} {c : Call} {stage : Stage}
    (h : Held slot answers c stage) : stage.holds = true := by
  cases stage <;> first | rfl | exact h.elim

theorem Answered.mono {answers answers' : List Answer} (h : answers ⊆ answers') {c : Call}
    {pid id : ℕ} {v : PyJson} (ha : Answered answers c pid id v) :
    Answered answers' c pid id v :=
  let ⟨text, hm, hv⟩ := ha
  ⟨text, h hm, hv⟩

/-! ## Calls -/

section
variable {s u : State} {i : ℕ} {c : Call} {stage : Stage}

theorem calls_update {calls : ℕ → Option Call} {d d' : Call} {j : ℕ}
    (h : Function.update calls i (some d) j = some d') :
    (j = i ∧ d = d') ∨ (j ≠ i ∧ calls j = some d') := by
  by_cases hj : j = i
  · subst hj
    exact .inl ⟨rfl, by simpa using h⟩
  · exact .inr ⟨hj, by simpa [hj] using h⟩

/-- A call that does not hold the mutex changes without getting it. -/
theorem Inv.aside (h : Inv s) (hfree : ∀ d, s.calls i = some d → d.stage.holds = false)
    (hs : c.stage.holds = false) (hr : ∀ tag v, c.stage ≠ .returned tag (.ok v)) :
    Inv { s with calls := Function.update s.calls i (some c) } := by
  refine ⟨fun j d hj hd => ?_, fun j hj => ?_, h.idle, fun j d tag v hj hd => ?_⟩
  · rcases calls_update hj with ⟨-, rfl⟩ | ⟨-, hj⟩
    · rw [hs] at hd
      cases hd
    · exact h.holding j d hj hd
  · obtain ⟨d, hd, hh⟩ := h.held j hj
    have hji : j ≠ i := by
      rintro rfl
      exact absurd hh.holds (by simp [hfree d hd])
    exact ⟨d, by simpa [hji] using hd, hh⟩
  · rcases calls_update hj with ⟨-, rfl⟩ | ⟨-, hj⟩
    · exact absurd hd (hr tag v)
    · exact h.own j d tag v hj hd

/-- A call goes on with the mutex, which was free or its own. -/
theorem Inv.hold (h : Inv s) (hi : s.holder = none ∨ s.holder = some i)
    (hcalls : u.calls = (s.setStage i c stage).calls) (hholder : u.holder = some i)
    (hans : u.answers = s.answers) (hh : Held u.slot s.answers c stage) : Inv u := by
  refine ⟨fun j d hj hd => ?_, fun j hj => ?_, fun hn => ?_, fun j d tag v hj hd => ?_⟩
  · rcases calls_update (hcalls ▸ hj) with ⟨rfl, -⟩ | ⟨hji, hj⟩
    · exact hholder
    · have := h.holding j d hj hd
      rcases hi with hi | hi <;> rw [hi] at this <;> cases this
      exact absurd rfl hji
  · rw [hholder] at hj
    cases hj
    exact ⟨_, by rw [hcalls]; exact Function.update_self .., hans ▸ hh⟩
  · rw [hholder] at hn
    cases hn
  · rw [hans]
    rcases calls_update (hcalls ▸ hj) with ⟨-, rfl⟩ | ⟨-, hj⟩
    · rw [show stage = _ from hd] at hh
      exact hh.elim
    · exact h.own j d tag v hj hd

/-- The holder leaves; what stays in the pipes must be nothing. -/
theorem Inv.release (h : Inv s) (hi : s.holder = some i)
    (hcalls : u.calls = (s.setStage i c stage).calls) (hholder : u.holder = none)
    (hans : u.answers = s.answers) (hs : stage.holds = false)
    (hq : ∀ w, u.slot = some w → w.proc.alive = true → Quiet w.proc)
    (hr : ∀ tag v, stage = .returned tag (.ok v) →
      ∃ pid id, tag = some (pid, id) ∧ Answered s.answers c pid id v) : Inv u := by
  refine ⟨fun j d hj hd => ?_, fun j hj => ?_, fun _ => hq, fun j d tag v hj hd => ?_⟩
  · rcases calls_update (hcalls ▸ hj) with ⟨-, rfl⟩ | ⟨hji, hj⟩
    · exact absurd hd (by simp [hs])
    · have := h.holding j d hj hd
      rw [hi] at this
      cases this
      exact absurd rfl hji
  · rw [hholder] at hj
    cases hj
  · rw [hans]
    rcases calls_update (hcalls ▸ hj) with ⟨-, rfl⟩ | ⟨-, hj⟩
    · exact hr tag v hd
    · exact h.own j d tag v hj hd

end

/-! ## Pipes -/

theorem newline_split {a b : List Char} (ha : '\n' ∉ a) :
    beforeNewline (a ++ '\n' :: b) = a ∧ afterNewline (a ++ '\n' :: b) = b := by
  have hne : ∀ c ∈ a, (c != '\n') = true := by
    intro c hc
    simpa using fun h : c = '\n' => ha (h ▸ hc)
  constructor
  · rw [beforeNewline, List.takeWhile_append_of_pos hne]
    simp
  · rw [afterNewline, List.dropWhile_append_of_pos hne]
    simp

theorem newline_mem {cs : List Char} (h : '\n' ∈ cs) :
    cs = beforeNewline cs ++ '\n' :: afterNewline cs := by
  obtain ⟨a, b, rfl, ha⟩ := List.eq_append_cons_of_mem h
  obtain ⟨hb, hc⟩ := newline_split (b := b) ha
  rw [hb, hc]

section
variable {answers : List Answer} {p : Proc} {q buf : List Char}

theorem Exchange.readSome (h : Exchange answers p q buf) (count : ℕ) :
    Exchange answers { p with stdout := p.stdout.drop count } q
      (buf ++ p.stdout.take count) := by
  cases h with
  | asking hi hw ho hb => exact .asking hi hw (by simp [ho]) (by simp [ho, hb])
  | working hi hw ho hb => exact .working hi hw (by simp [ho]) (by simp [ho, hb])
  | answered text hi hw hr ht =>
      exact .answered text hi hw ⟨hr.mem, hr.line, hr.echo⟩ (by simpa using ht)
  | torn text ha hr ht => exact .torn text ha ⟨hr.mem, hr.line, hr.echo⟩ (by simpa using ht)

/-- A complete line is the recorded answer, and nothing is left behind it. -/
theorem Exchange.readLine (h : Exchange answers p q buf) (hm : '\n' ∈ p.stdout) :
    Recorded answers p q (buf ++ beforeNewline p.stdout) ∧
      Quiet { p with stdout := afterNewline p.stdout } := by
  cases h with
  | asking hi hw ho hb => simp [ho] at hm
  | working hi hw ho hb => simp [ho] at hm
  | answered text hi hw hr ht =>
      rw [newline_mem hm, ← List.append_assoc] at ht
      obtain ⟨hb, -, ha⟩ := (List.append_cons_inj_of_notMem hr.line List.not_mem_nil).mp ht.symm
      exact ⟨hb ▸ hr, hi, hw, ha.symm⟩
  | torn text ha hr ht => exact absurd (ht ▸ List.mem_append_right _ hm) hr.line

/-- What a dead worker left without a newline is recorded too. -/
theorem Exchange.readEof (h : Exchange answers p q buf) (hb : '\n' ∉ buf)
    (hm : '\n' ∉ p.stdout) (hne : buf ++ p.stdout ≠ []) :
    Recorded answers p q (buf ++ p.stdout) := by
  cases h with
  | asking _ _ ho hb => exact absurd (by rw [ho, hb]; rfl) hne
  | working _ _ ho hb => exact absurd (by rw [ho, hb]; rfl) hne
  | answered text _ _ _ ht =>
      have : '\n' ∈ buf ++ p.stdout := ht ▸ List.mem_append_right _ (List.mem_singleton_self _)
      exact absurd this (by simp [hb, hm])
  | torn text _ hr ht => exact ht ▸ hr

end

/-! ## Steps of a call -/

section
variable {s u : State} {i : ℕ} {c : Call}

/-- The holder has the exchange its stage says. -/
theorem Inv.mine (h : Inv s) (hc : s.calls i = some c) (hs : c.stage.holds = true) :
    s.holder = some i ∧ Held s.slot s.answers c c.stage := by
  have hi := h.holding i c hc hs
  obtain ⟨d, hd, hh⟩ := h.held i hi
  rw [hc, Option.some.injEq] at hd
  exact ⟨hi, hd ▸ hh⟩

theorem Inv.begin (h : Inv s) (hn : s.holder = none) {w : WorkerInner}
    (hw : w.proc.alive = true → Quiet w.proc) : Inv (s.begin i c w) := by
  have hcalls : (s.begin i c w).calls = (s.setStage i c (.writing w.proc.pid w.nextId 0)).calls :=
    rfl
  refine h.hold (.inl hn) hcalls rfl rfl ⟨_, rfl, rfl, ?_, fun ha => ?_⟩
  · simp [Call.line]
  · have hq := hw ha
    exact ⟨hq.stdin, hq.working, hq.stdout⟩

theorem Inv.begins (h : Inv s) (hu : Begins s i c u) : Inv u := by
  cases hu with
  | reuse _ hn hw => exact h.begin hn (h.idle hn _ hw)
  | spawn _ hn hw =>
      have hs : Inv { s with nextPid := s.nextPid + 1 } := ⟨h.holding, h.held, h.idle, h.own⟩
      exact hs.begin hn fun _ => ⟨rfl, rfl, rfl⟩

/-- An error return after `*guard = None`. -/
theorem Inv.crash (h : Inv s) (hc : s.calls i = some c) (hs : c.stage.holds = true)
    (tag : ℕ × ℕ) : Inv (s.crash i c tag) :=
  h.release (h.mine hc hs).1 rfl rfl rfl rfl nofun nofun

theorem Inv.received (h : Inv s) (hc : s.calls i = some c) {w : WorkerInner} {pid id : ℕ}
    {buf line rest : List Char} (hst : c.stage = .reading pid id buf) (hpid : w.proc.pid = pid)
    (hr : Recorded s.answers w.proc (c.text id) line)
    (hq : w.proc.alive = true → Quiet { w.proc with stdout := rest }) :
    Inv ((s.setProc w { w.proc with stdout := rest }).received i c (pid, id) line) := by
  refine h.release (i := i) (c := c) (h.mine hc (by rw [hst]; rfl)).1 rfl rfl rfl rfl ?_
    fun tag v hv => ?_
  · rintro w' hw' ha
    cases hw'
    exact hq ha
  · split at hv
    · next hv' =>
        cases hv
        exact ⟨pid, id, rfl, line, hpid ▸ hr.mem, hv', idOf_answer hr.echo hv'⟩
    · cases hv

theorem Inv.write (h : Inv s) (hc : s.calls i = some c) {w : WorkerInner} {pid id sent : ℕ}
    (hst : c.stage = .writing pid id sent) (hw : s.slot = some w) (ha : w.proc.alive = true)
    (count : ℕ) {p : Proc}
    (hp : p = { w.proc with
      stdin := w.proc.stdin ++ ((c.line id).drop sent).take count }) :
    ((c.line id).length ≤ sent + count →
        Inv ((s.setProc w p).setStage i c (.flushing pid id))) ∧
      (sent + count < (c.line id).length →
        Inv ((s.setProc w p).setStage i c (.writing pid id (sent + count)))) := by
  obtain ⟨hi, hh⟩ := h.mine hc (by rw [hst]; rfl)
  rw [hst] at hh
  obtain ⟨w', hw', hpid, hlen, hpipe⟩ := hh
  rw [hw, Option.some.injEq] at hw'
  subst hw'
  obtain ⟨hin, hwork, hout⟩ := hpipe ha
  have hstdin : p.stdin = (c.line id).take (sent + count) := by
    rw [hp, hin, List.take_add]
  refine ⟨fun hle => ?_, fun hlt => ?_⟩
  · refine h.hold (.inr hi) rfl hi rfl ⟨_, rfl, by rw [hp]; exact hpid, ?_⟩
    refine .asking ?_ (by rw [hp]; exact hwork) (by rw [hp]; exact hout) rfl
    rw [hstdin, List.take_of_length_le hle, Call.line]
  · exact h.hold (.inr hi) rfl hi rfl ⟨_, rfl, by rw [hp]; exact hpid, hlt,
      fun _ => ⟨hstdin, by rw [hp]; exact hwork, by rw [hp]; exact hout⟩⟩

theorem Inv.drop (h : Inv s) {j : ℕ} (hc : s.calls i = some c) (hs : c.stage.holds = true)
    (hj : j = i) (hg : lossless s (.drop j)) :
    Inv { s.setStage i c (.dropped c.stage.tag) with holder := none } := by
  subst hj
  have hq {w : WorkerInner} {stage : Stage} (hst : c.stage = stage) (hw : s.slot = some w)
      (ha : w.proc.alive = true) : Stage.pending stage ≠ true := by
    intro hp
    have := hg c w hc hw (hst ▸ hp)
    simp [ha] at this
  obtain ⟨hi, hh⟩ := h.mine hc hs
  refine h.release hi rfl rfl rfl rfl (fun w hw ha => ?_) (by simp)
  cases hst : c.stage with
  | writing pid id sent =>
      have hsent : sent = 0 := by
        by_contra hne
        exact hq hst hw ha (decide_eq_true (Nat.pos_of_ne_zero hne))
      rw [hst] at hh
      obtain ⟨w', hw', -, -, hpipe⟩ := hh
      cases hw.symm.trans hw'
      obtain ⟨hin, hwork, hout⟩ := hpipe ha
      exact ⟨by rw [hin, hsent, List.take_zero], hwork, hout⟩
  | flushing pid id => exact absurd rfl (hq hst hw ha)
  | reading pid id buf => exact absurd rfl (hq hst hw ha)
  | reaping pid id =>
      rw [hst] at hh
      cases hh.symm.trans hw
  | _ =>
      rw [hst] at hs
      cases hs

theorem Inv.called (h : Inv s) (hc : s.calls i = some c) {a : Label}
    (ha : a.caller = some i) (hg : lossless s a) (hu : Called s i c a u) : Inv u := by
  cases hu with
  | reuse hq hn hw => exact h.begins (.reuse hq hn hw)
  | spawn hq hn hw => exact h.begins (.spawn hq hn hw)
  | notSpawned hq =>
      exact h.aside (fun d hd => by cases hc.symm.trans hd; rw [hq]; rfl) rfl (by simp)
  | part hst hw halive hlt => exact (h.write hc hst hw halive _ rfl).2 hlt
  | whole hst hw halive hle => exact (h.write hc hst hw halive _ rfl).1 hle
  | writeError hst => exact h.crash hc (by rw [hst]; rfl) _
  | flush hst =>
      obtain ⟨hi, hh⟩ := h.mine hc (by rw [hst]; rfl)
      rw [hst] at hh
      obtain ⟨w, hw, hpid, hx⟩ := hh
      exact h.hold (.inr hi) rfl hi rfl ⟨w, hw, hpid, List.not_mem_nil, hx⟩
  | flushError hst => exact h.crash hc (by rw [hst]; rfl) _
  | readSome hst hw hm =>
      obtain ⟨hi, hh⟩ := h.mine hc (by rw [hst]; rfl)
      rw [hst] at hh
      obtain ⟨w, hw', hpid, hb, hx⟩ := hh
      cases hw.symm.trans hw'
      exact h.hold (.inr hi) rfl hi rfl ⟨_, rfl, hpid, by simp [hb, hm], hx.readSome _⟩
  | readLine hst hw hm =>
      obtain ⟨hi, hh⟩ := h.mine hc (by rw [hst]; rfl)
      rw [hst] at hh
      obtain ⟨w, hw', hpid, hb, hx⟩ := hh
      cases hw.symm.trans hw'
      obtain ⟨hr, hq⟩ := hx.readLine hm
      exact h.received hc hst hpid hr fun _ => hq
  | readNothing hst => exact h.crash hc (by rw [hst]; rfl) _
  | readRest hst hw hdead hm hne =>
      obtain ⟨hi, hh⟩ := h.mine hc (by rw [hst]; rfl)
      rw [hst] at hh
      obtain ⟨w, hw', hpid, hb, hx⟩ := hh
      cases hw.symm.trans hw'
      exact h.received hc hst hpid (hx.readEof hb hm hne) fun halive =>
        absurd (hdead.symm.trans halive) (by decide)
  | readError hst => exact h.crash hc (by rw [hst]; rfl) _
  | timeout hst =>
      have hi := (h.mine hc (by rw [hst]; rfl)).1
      exact h.hold (.inr hi) rfl hi rfl rfl
  | reaped hst =>
      obtain ⟨hi, hh⟩ := h.mine hc (by rw [hst]; rfl)
      rw [hst] at hh
      exact h.release hi rfl rfl rfl rfl (fun w hw => by cases hh.symm.trans hw) (by simp)
  | dropQueued hq =>
      exact h.aside (fun d hd => by cases hc.symm.trans hd; rw [hq]; rfl) rfl (by simp)
  | dropHolding hs => exact h.drop hc hs (Option.some.inj ha) hg

end

/-! ## Steps of the worker -/

section
variable {s u : State} {w : WorkerInner} {a : Label}

/-- With no complete line to read and none in hand the worker can only die. -/
theorem worked_idle (hin : '\n' ∉ w.proc.stdin) (hw : w.proc.working = none)
    (hu : Worked s w a u) : u = s.setProc w { w.proc with alive := false } := by
  cases hu with
  | take _ hm => exact absurd hm hin
  | answer hq => cases hw.symm.trans hq
  | dieIdle => rfl
  | dieWorking hq => cases hw.symm.trans hq

theorem worked_frame (hu : Worked s w a u) :
    u.calls = s.calls ∧ u.holder = s.holder ∧ s.answers ⊆ u.answers := by
  cases hu with
  | take => exact ⟨rfl, rfl, fun _ h => h⟩
  | answer => exact ⟨rfl, rfl, fun _ h => List.mem_cons_of_mem _ h⟩
  | dieIdle => exact ⟨rfl, rfl, fun _ h => h⟩
  | dieWorking => exact ⟨rfl, rfl, fun _ h => List.mem_cons_of_mem _ h⟩

/-- The worker takes the question and answers it, or dies over it. -/
theorem Exchange.worked {q buf : List Char} (hx : Exchange s.answers w.proc q buf)
    (hq : '\n' ∉ q) (ha : w.proc.alive = true) (hu : Worked s w a u) :
    ∃ w', u.slot = some w' ∧ w'.proc.pid = w.proc.pid ∧ Exchange u.answers w'.proc q buf := by
  cases hx with
  | asking hin hw ho hb =>
      cases hu with
      | take =>
          obtain ⟨hbefore, hafter⟩ := newline_split (b := []) hq
          refine ⟨_, rfl, rfl, .working ?_ ?_ ho hb⟩
          · rw [hin, hafter]
          · rw [hin, hbefore]
      | answer hq' => cases hw.symm.trans hq'
      | dieIdle => exact ⟨_, rfl, rfl, .asking hin hw ho hb⟩
      | dieWorking hq' => cases hw.symm.trans hq'
  | working hin hw ho hb =>
      cases hu with
      | take hidle => cases hw.symm.trans hidle
      | answer hq' hline hecho =>
          cases hw.symm.trans hq'
          exact ⟨_, rfl, rfl, .answered _ hin rfl ⟨List.mem_cons_self .., hline, hecho⟩
            (by simp [ho, hb])⟩
      | dieIdle hidle => cases hw.symm.trans hidle
      | dieWorking hq' hline hecho =>
          cases hw.symm.trans hq'
          exact ⟨_, rfl, rfl, .torn _ rfl ⟨List.mem_cons_self .., hline, hecho⟩
            (by simp [ho, hb])⟩
  | answered text hin hw hr ht =>
      rw [worked_idle (by simp [hin]) hw hu]
      exact ⟨_, rfl, rfl, .answered text hin hw ⟨hr.mem, hr.line, hr.echo⟩ ht⟩
  | torn text hdead hr ht => simp [ha] at hdead

/-- A request still being written holds no newline. -/
theorem line_take {c : Call} {id sent : ℕ} (h : sent < (c.line id).length) :
    '\n' ∉ (c.line id).take sent := by
  rw [Call.line, List.length_append, List.length_singleton] at h
  rw [Call.line, List.take_append_of_le_length (by omega)]
  exact fun hm => text_no_newline c id (List.mem_of_mem_take hm)

theorem Held.worked {c : Call} {stage : Stage} (hh : Held s.slot s.answers c stage)
    (hw : s.slot = some w) (ha : w.proc.alive = true) (hu : Worked s w a u) :
    Held u.slot u.answers c stage := by
  cases stage with
  | writing pid id sent =>
      obtain ⟨w', hw', hpid, hlen, hpipe⟩ := hh
      cases hw.symm.trans hw'
      obtain ⟨hin, hwork, -⟩ := hpipe ha
      rw [worked_idle (hin ▸ line_take hlen) hwork hu]
      exact ⟨_, rfl, hpid, hlen, nofun⟩
  | flushing pid id =>
      obtain ⟨w', hw', hpid, hx⟩ := hh
      cases hw.symm.trans hw'
      obtain ⟨w', hw', hpid', hx⟩ := hx.worked (text_no_newline c id) ha hu
      exact ⟨w', hw', hpid'.trans hpid, hx⟩
  | reading pid id buf =>
      obtain ⟨w', hw', hpid, hb, hx⟩ := hh
      cases hw.symm.trans hw'
      obtain ⟨w', hw', hpid', hx⟩ := hx.worked (text_no_newline c id) ha hu
      exact ⟨w', hw', hpid'.trans hpid, hb, hx⟩
  | reaping pid id => exact absurd (hh.symm.trans hw) nofun
  | _ => exact hh.elim

theorem Inv.worked (h : Inv s) (hw : s.slot = some w) (ha : w.proc.alive = true)
    (hu : Worked s w a u) : Inv u := by
  obtain ⟨hcalls, hholder, hans⟩ := worked_frame hu
  refine ⟨fun i c hc hs => ?_, fun i hi => ?_, fun hn w' hw' ha' => ?_,
    fun i c tag v hc hr => ?_⟩
  · rw [hholder]
    exact h.holding i c (hcalls ▸ hc) hs
  · obtain ⟨c, hc, hh⟩ := h.held i (hholder ▸ hi)
    exact ⟨c, hcalls ▸ hc, hh.worked hw ha hu⟩
  · have hq := h.idle (hholder ▸ hn) w hw ha
    rw [worked_idle (by simp [hq.stdin]) hq.working hu] at hw'
    cases hw'
    cases ha'
  · obtain ⟨pid, id, ht, hans'⟩ := h.own i c tag v (hcalls ▸ hc) hr
    exact ⟨pid, id, ht, hans'.mono hans⟩

end

/-! ## Runs -/

theorem inv_start : Inv worker.start := by
  refine ⟨fun i c hc => ?_, fun i hi => ?_, fun _ w hw => ?_, fun i c tag v hc => ?_⟩
  · cases hc
  · cases hi
  · cases hw
  · cases hc

theorem Inv.next {s u : State} {a : Label} (h : Inv s) (hg : lossless s a)
    (hu : WorkerPipe.next s a = some u) : Inv u := by
  rcases next_cases hu with ⟨i, method, params, hi, rfl⟩ | ⟨i, c, ha, hc, hu⟩ | ⟨w, hw, ha, hu⟩
  · exact h.aside (fun d hd => absurd (hi.symm.trans hd) nofun) rfl nofun
  · exact h.called hc ha hg hu
  · exact h.worked hw ha hu

/-- In every run that loses no exchange, a call that returns `Ok` has the
worker's answer to its own request. -/
theorem corresponds_of_lossless {s : State} (h : Reachable worker lossless s) :
    Corresponds s := by
  have hinv : Inv s := h.invariant inv_start fun _ _ _ _ hs hg hn => hs.next hg hn
  have hnum := reachable_numbered h
  intro i c tag v hc hr
  obtain ⟨pid, id, rfl, hans⟩ := hinv.own i c tag v hc hr
  refine ⟨pid, id, rfl, hans, fun j d id' hd hji ht hsame => hji ?_⟩
  rw [text_injective hsame] at ht
  refine hnum.distinct j i (pid, id) ?_ ?_
  · rw [tagOf, hd]
    exact ht
  · rw [tagOf, hc, Option.bind_some, hr]
    rfl

/-! ## A dropped call -/

def snippet : Value where
  json := .obj [(lit "code", .str (lit "1"))]
  readable := ⟨by simpa [Json.strings, Json.fieldStrings] using ⟨lit_scalar _, lit_scalar _⟩,
    ⟨by simp, trivial, trivial⟩, .inr ⟨trivial, trivial⟩⟩

/-- The worker's answer to `exec` with this id, no output and no result. -/
def execAnswer (id : ℤ) : List Char :=
  render pythonWriter (.obj [(lit "ok", .bool true), (lit "stdout", .str []), (lit "stderr", .str []),
    (lit "result", .null), (lit "error", .null), (lit "id", .int id)])

def returnedId (tag : ℕ × ℕ) (id : ℤ) (c : Call) : Bool :=
  match c.stage with
  | .returned t (.ok v) => t == some tag && idOf v == some id
  | _ => false

def oneCall : List Label :=
  [.arrive 0 "exec" snippet, .acquire 0 true, .write 0 100, .flush 0, .take,
    .answer (execAnswer 1), .readSome 0 5, .readLine 0]

def neverDrops (_ : State) : Label → Bool
  | .drop _ => false
  | _ => true

theorem lossless_of_neverDrops (s : State) (a : Label) (h : neverDrops s a = true) :
    lossless s a := by
  cases a with
  | drop i => cases h
  | _ => trivial

theorem corresponds_oneCall : ∃ s, Reachable worker lossless s ∧
    ((s.calls 0).any (returnedId (0, 1) 1) = true ∧ Corresponds s) := by
  obtain ⟨s, hs, ht⟩ := replay_reaches worker lossless neverDrops oneCall
    (fun s => (s.calls 0).any (returnedId (0, 1) 1)) lossless_of_neverDrops (by decide +kernel)
  exact ⟨s, hs, ht, corresponds_of_lossless hs⟩

/-- The first caller is gone after its request; the second one, on the same
process, is given the first one's answer. -/
def dropThenCall : List Label :=
  [.arrive 0 "exec" snippet, .arrive 1 "exec" snippet, .acquire 0 true, .write 0 100, .flush 0,
    .drop 0, .acquire 1 true, .write 1 100, .flush 1, .take, .answer (execAnswer 1), .readLine 1]

theorem not_corresponds_dropThenCall :
    ∃ s, Reachable worker anyStep s ∧ ¬ Corresponds s := by
  obtain ⟨s, hs, ht⟩ := replay_reaches worker anyStep unchecked dropThenCall
    (fun s => (s.calls 1).any (returnedId (0, 2) 1)) (fun _ _ _ => trivial)
    (by decide +kernel)
  refine ⟨s, hs, fun h => ?_⟩
  obtain ⟨c, hc, hr⟩ := (Option.any_eq_true ..).mp ht
  unfold returnedId at hr
  split at hr
  · next t v hst =>
      simp only [Bool.and_eq_true, beq_iff_eq] at hr
      obtain ⟨pid, id, htag, ⟨text, -, -, hid⟩, -⟩ := h 1 c t v hc hst
      rw [hr.1, Option.some.injEq, Prod.mk.injEq] at htag
      rw [hr.2, ← htag.2] at hid
      exact absurd hid (by decide)
  · cases hr

end Xlpod.WorkerResponses
