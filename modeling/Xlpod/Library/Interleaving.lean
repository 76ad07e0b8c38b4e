import Xlpod.Library.GuardedRuns
import Xlpod.Library.Programs
import Mathlib.Data.Nat.Notation
import Mathlib.Logic.Function.Basic

/-!
# Interleaved programs over a shared state

A system serves every request by a program. Tasks arrive at any time and their
calls are interleaved; each call is one atomic step on the shared state, whose
outcome the environment may influence. A task that is suspended at an awaiting
call can be dropped, and then nothing more of it runs. All executed calls are
kept, newest first, with the request they serve and the shared state each of
them found. What a task has seen is a fold over its own calls.

A protocol attaches a contract to every request. Its local state is a function
of the calls the task made, so when the served programs meet their contracts,
the rest of every task does in every reachable world.
-/
namespace Xlpod.Interleaving
open Xlpod.Programs Xlpod.GuardedRuns

structure System (I : Interface) where
  State : Type
  Request : Type
  Environment : Type
  Elapse : Type
  start : State
  serve : Request → Program I Unit
  awaits : I.Op → Bool
  exec : State → Environment → (op : I.Op) → Option (I.Reply op × State)
  elapse : State → Elapse → State

variable {I : Interface}

/-- A request and what is left to run of it; nothing once it was dropped. -/
structure Task (Y : System I) where
  request : Y.Request
  rest : Option (Program I Unit)

structure Event (Y : System I) where
  task : ℕ
  request : Y.Request
  op : I.Op
  reply : I.Reply op
  before : Y.State

structure World (Y : System I) where
  shared : Y.State
  tasks : ℕ → Option (Task Y)
  events : List (Event Y)

inductive Label (Y : System I)
  | arrive (i : ℕ) (request : Y.Request)
  | call (i : ℕ) (env : Y.Environment)
  | drop (i : ℕ)
  | elapse (d : Y.Elapse)

variable {Y : System I}

def World.setTask (w : World Y) (i : ℕ) (t : Task Y) : World Y :=
  { w with tasks := Function.update w.tasks i (some t) }

def next (w : World Y) : Label Y → Option (World Y)
  | .arrive i request =>
      match w.tasks i with
      | none => some (w.setTask i ⟨request, some (Y.serve request)⟩)
      | some _ => none
  | .call i env =>
      match w.tasks i with
      | some ⟨request, some (.call op rest)⟩ =>
          (Y.exec w.shared env op).map fun r =>
            { w.setTask i ⟨request, some (rest r.1)⟩ with
              shared := r.2
              events := ⟨i, request, op, r.1, w.shared⟩ :: w.events }
      | _ => none
  | .drop i =>
      match w.tasks i with
      | some ⟨request, some (.call op _)⟩ =>
          if Y.awaits op then some (w.setTask i ⟨request, none⟩) else none
      | _ => none
  | .elapse d => some { w with shared := Y.elapse w.shared d }

def machine (Y : System I) : Machine (World Y) (Label Y) where
  start := ⟨Y.start, fun _ => none, []⟩
  next := next

/-- The request of a task in progress and the call it makes next. -/
def World.about (w : World Y) (i : ℕ) : Option (Y.Request × I.Op) :=
  match w.tasks i with
  | some ⟨request, some (.call op _)⟩ => some (request, op)
  | _ => none

theorem World.about_of_call {w : World Y} {i : ℕ} {request : Y.Request} {op : I.Op}
    {rest : I.Reply op → Program I Unit} (h : w.tasks i = some ⟨request, some (.call op rest)⟩) :
    w.about i = some (request, op) := by
  rw [World.about, h]

/-! ## Steps -/

/-- The step function as a relation, one constructor for each kind of label. -/
inductive Step (w : World Y) : Label Y → World Y → Prop
  | arrive {i : ℕ} {request : Y.Request} : w.tasks i = none →
      Step w (.arrive i request) (w.setTask i ⟨request, some (Y.serve request)⟩)
  | call {i : ℕ} {env : Y.Environment} {request : Y.Request} {op : I.Op}
      {rest : I.Reply op → Program I Unit} {r : I.Reply op} {s : Y.State} :
      w.tasks i = some ⟨request, some (.call op rest)⟩ → Y.exec w.shared env op = some (r, s) →
      Step w (.call i env) { w.setTask i ⟨request, some (rest r)⟩ with
        shared := s
        events := ⟨i, request, op, r, w.shared⟩ :: w.events }
  | drop {i : ℕ} {request : Y.Request} {op : I.Op} {rest : I.Reply op → Program I Unit} :
      w.tasks i = some ⟨request, some (.call op rest)⟩ → Y.awaits op = true →
      Step w (.drop i) (w.setTask i ⟨request, none⟩)
  | elapse {d : Y.Elapse} : Step w (.elapse d) { w with shared := Y.elapse w.shared d }

theorem step_of_next {w v : World Y} {a : Label Y} (h : (machine Y).next w a = some v) :
    Step w a v := by
  cases a with
  | arrive i request =>
      simp only [machine, next] at h
      split at h <;> cases h
      next hi => exact .arrive hi
  | call i env =>
      simp only [machine, next] at h
      split at h
      · next hi =>
          obtain ⟨⟨r, s⟩, he, rfl⟩ := Option.map_eq_some_iff.mp h
          exact .call hi he
      · cases h
  | drop i =>
      simp only [machine, next] at h
      split at h
      · next hi =>
          split at h <;> cases h
          next ha => exact .drop hi ha
      · cases h
  | elapse d =>
      cases h
      exact .elapse

theorem setTask_self (w : World Y) (i : ℕ) (t : Task Y) : (w.setTask i t).tasks i = some t := by
  simp [World.setTask]

theorem setTask_other (w : World Y) {i j : ℕ} (t : Task Y) (h : j ≠ i) :
    (w.setTask i t).tasks j = w.tasks j := by
  simp [World.setTask, h]

/-! ## A task by itself -/

/-- The calls of one task made one after the other, newest first. -/
inductive Advances (Y : System I) (i : ℕ) (request : Y.Request) :
    Program I Unit → Y.State → Program I Unit → Y.State → List (Event Y) → Prop
  | stay (p : Program I Unit) (s : Y.State) : Advances Y i request p s p s []
  | call (env : Y.Environment) {op : I.Op} {rest : I.Reply op → Program I Unit} {r : I.Reply op}
      {s u v : Y.State} {q : Program I Unit} {events : List (Event Y)} :
      Y.exec s env op = some (r, u) → Advances Y i request (rest r) u q v events →
      Advances Y i request (.call op rest) s q v (events ++ [⟨i, request, op, r, s⟩])

/-- One task moved, and nothing else ran. -/
structure Moved (i : ℕ) (request : Y.Request) (w v : World Y) (p : Program I Unit) (s : Y.State)
    (events : List (Event Y)) : Prop where
  run : Run (machine Y) anyStep w v
  shared : v.shared = s
  task : v.tasks i = some ⟨request, some p⟩
  others : ∀ j, j ≠ i → v.tasks j = w.tasks j
  events : v.events = events ++ w.events

section
variable {i : ℕ} {request : Y.Request} {w u v : World Y} {p q : Program I Unit} {s s' : Y.State}
  {events events' : List (Event Y)}

theorem Moved.trans (h : Moved i request w u p s events) (k : Moved i request u v q s' events') :
    Moved i request w v q s' (events' ++ events) where
  run := h.run.trans k.run
  shared := k.shared
  task := k.task
  others j hj := (k.others j hj).trans (h.others j hj)
  events := by rw [k.events, h.events, List.append_assoc]

theorem exists_arrived (request : Y.Request) (hi : w.tasks i = none) :
    ∃ v, Moved i request w v (Y.serve request) w.shared [] := by
  have hnext : (machine Y).next w (.arrive i request) =
      some (w.setTask i ⟨request, some (Y.serve request)⟩) := by
    simp only [machine, next, hi]
  exact ⟨_, .single trivial hnext, rfl, setTask_self .., fun j hj => setTask_other w _ hj, rfl⟩

theorem exists_elapsed (w : World Y) (d : Y.Elapse) : ∃ v, Run (machine Y) anyStep w v ∧
    v.shared = Y.elapse w.shared d ∧ v.tasks = w.tasks ∧ v.events = w.events :=
  ⟨_, .single (a := .elapse d) trivial rfl, rfl, rfl, rfl⟩

theorem Advances.moved (h : Advances Y i request p s q s' events)
    (hi : w.tasks i = some ⟨request, some p⟩) (hs : w.shared = s) :
    ∃ v, Moved i request w v q s' events := by
  induction h generalizing w with
  | stay p s => exact ⟨w, .done w, hs, hi, fun _ _ => rfl, rfl⟩
  | @call env op rest r s u v q events hexec _ ih =>
      subst hs
      have hnext : (machine Y).next w (.call i env) =
          some ⟨u, Function.update w.tasks i (some ⟨request, some (rest r)⟩),
            ⟨i, request, op, r, w.shared⟩ :: w.events⟩ := by
        simp only [machine, next, hi, hexec]
        rfl
      have hfirst : Moved i request w _ (rest r) u [⟨i, request, op, r, w.shared⟩] :=
        ⟨.single trivial hnext, rfl, Function.update_self ..,
          fun j hj => Function.update_of_ne hj .., rfl⟩
      obtain ⟨v, hv⟩ := ih hfirst.task hfirst.shared
      exact ⟨v, hfirst.trans hv⟩

end

/-! ## Requests -/

def requestOf (w : World Y) (i : ℕ) : Option Y.Request := (w.tasks i).map Task.request

theorem requestOf_update {w v : World Y} {i : ℕ} {request : Y.Request}
    {rest rest' : Option (Program I Unit)} (h : w.tasks i = some ⟨request, rest⟩)
    (hv : v.tasks = Function.update w.tasks i (some ⟨request, rest'⟩)) (j : ℕ) :
    requestOf v j = requestOf w j := by
  by_cases hj : j = i
  · subst hj
    simp [requestOf, hv, h]
  · simp [requestOf, hv, hj]

/-- A task keeps its request. -/
theorem Step.request {w v : World Y} {a : Label Y} (h : Step w a v) {j : ℕ} {r : Y.Request}
    (hr : requestOf w j = some r) : requestOf v j = some r := by
  cases h with
  | @arrive i request hi =>
      have hj : j ≠ i := by
        rintro rfl
        simp [requestOf, hi] at hr
      simpa [requestOf, setTask_other w _ hj] using hr
  | call hi _ =>
      rw [← hr]
      exact requestOf_update hi rfl j
  | drop hi _ =>
      rw [← hr]
      exact requestOf_update hi rfl j
  | elapse => exact hr

/-- Every executed call belongs to the task that arrived with its request. -/
def Recorded (w : World Y) : Prop := ∀ e ∈ w.events, requestOf w e.task = some e.request

theorem Recorded.step {w v : World Y} {a : Label Y} (h : Recorded w) (hs : Step w a v) :
    Recorded v := by
  intro e he
  have hold (he : e ∈ w.events) : requestOf v e.task = some e.request := hs.request (h e he)
  cases hs with
  | arrive => exact hold he
  | @call i env request op rest r s hi =>
      rcases List.mem_cons.mp he with rfl | he
      · refine (requestOf_update hi rfl i).trans ?_
        rw [requestOf, hi]
        rfl
      · exact hold he
  | drop => exact hold he
  | elapse => exact hold he

theorem reachable_recorded {guard : World Y → Label Y → Prop} {w : World Y}
    (h : Reachable (machine Y) guard w) : Recorded w :=
  h.invariant nofun fun _ _ _ _ hw _ hn => hw.step (step_of_next hn)

/-- Only the tasks below `n` ever arrive. -/
def arrivesBelow (n : ℕ) (_ : World Y) : Label Y → Bool
  | .arrive i _ => i < n
  | _ => true

theorem tasks_above {n : ℕ} {w : World Y}
    (h : Reachable (machine Y) (fun w a => arrivesBelow n w a = true) w) {i : ℕ} (hi : n ≤ i) :
    w.tasks i = none := by
  refine h.invariant (P := fun w => w.tasks i = none) rfl fun w a v _ hw hg hn => ?_
  have hother {j : ℕ} {t : Task Y} (hj : i ≠ j) : (w.setTask j t).tasks i = none := by
    rw [setTask_other w t hj]
    exact hw
  have hne {j : ℕ} {t : Task Y} (hj : w.tasks j = some t) : i ≠ j := by
    rintro rfl
    rw [hw] at hj
    cases hj
  cases step_of_next hn with
  | @arrive j request _ =>
      have hj : j < n := by simpa [arrivesBelow] using hg
      exact hother (by omega)
  | call hj _ => exact hother (hne hj)
  | drop hj _ => exact hother (hne hj)
  | elapse => exact hw

/-! ## Traces -/

section
variable {P : Event Y → List (Event Y) → Prop} {e : Event Y} {events : List (Event Y)}

/-- A property of every call and the calls before it. -/
def Throughout (P : Event Y → List (Event Y) → Prop) (events : List (Event Y)) : Prop :=
  ∀ after e before, events = after ++ e :: before → P e before

theorem throughout_nil : Throughout P [] := by
  intro after e before h
  simp at h

theorem throughout_cons : Throughout P (e :: events) ↔ P e events ∧ Throughout P events := by
  constructor
  · intro h
    exact ⟨h [] e events rfl, fun after e' before he => h (e :: after) e' before (by simp [he])⟩
  · rintro ⟨hhead, htail⟩ after e' before he
    cases after with
    | nil =>
        rw [List.nil_append, List.cons.injEq] at he
        obtain ⟨rfl, rfl⟩ := he
        exact hhead
    | cons e'' after =>
        rw [List.cons_append, List.cons.injEq] at he
        exact htail after e' before he.2

/-- A call and the calls before it pass a test. -/
def somewhere (test : Event Y → List (Event Y) → Bool) : List (Event Y) → Bool
  | [] => false
  | e :: es => test e es || somewhere test es

theorem throughout_of_nowhere {test : Event Y → List (Event Y) → Bool}
    (ht : ∀ e before, test e before = false → P e before) (h : somewhere test events = false) :
    Throughout P events := by
  induction events with
  | nil => exact throughout_nil
  | cons e es ih =>
      obtain ⟨hhead, htail⟩ := Bool.or_eq_false_iff.mp h
      exact throughout_cons.mpr ⟨ht e es hhead, ih htail⟩

theorem not_throughout {test : Event Y → List (Event Y) → Bool}
    (ht : ∀ e before, test e before = true → ¬ P e before) (h : somewhere test events = true) :
    ¬ Throughout P events := by
  induction events with
  | nil => cases h
  | cons e es ih =>
      rw [throughout_cons]
      rintro ⟨hhead, htail⟩
      rcases Bool.or_eq_true_iff.mp h with h | h
      · exact ht e es h hhead
      · exact ih h htail

end

/-- Every executed call was made in a reachable world, with the calls before it. -/
theorem reachable_event {guard : World Y → Label Y → Prop} {w : World Y}
    (h : Reachable (machine Y) guard w) {after before : List (Event Y)} {e : Event Y}
    (he : w.events = after ++ e :: before) : ∃ v env rest s, Reachable (machine Y) guard v ∧
      v.events = before ∧ v.shared = e.before ∧
        v.tasks e.task = some ⟨e.request, some (.call e.op rest)⟩ ∧
          guard v (.call e.task env) ∧ Y.exec e.before env e.op = some (e.reply, s) := by
  revert after
  refine h.invariant (P := fun w => ∀ {after}, w.events = after ++ e :: before → ∃ v env rest s,
    Reachable (machine Y) guard v ∧ v.events = before ∧ v.shared = e.before ∧
      v.tasks e.task = some ⟨e.request, some (.call e.op rest)⟩ ∧ guard v (.call e.task env) ∧
        Y.exec e.before env e.op = some (e.reply, s)) (fun he => by simp [machine] at he)
    fun w a v hr hw hg hn => ?_
  intro after he
  cases step_of_next hn with
  | @call i env request op rest r s hi hexec =>
      cases after with
      | nil =>
          rw [List.nil_append, List.cons.injEq] at he
          obtain ⟨rfl, rfl⟩ := he
          exact ⟨w, env, rest, s, hr, rfl, rfl, hi, hg, hexec⟩
      | cons e' after =>
          rw [List.cons_append, List.cons.injEq] at he
          exact hw he.2
  | _ => exact hw he

/-! ## A part that only grows -/

section
variable {α : Type*} {f : Y.State → List α} {g : (op : I.Op) → I.Reply op → List α}
  {guard : World Y → Label Y → Prop} {w : World Y}

/-- A part of the state to which calls append consists of what they appended. -/
theorem part_appended
    (hexec : ∀ {s env op r s'}, Y.exec s env op = some (r, s') → f s' = f s ++ g op r)
    (helapse : ∀ s t, f (Y.elapse s t) = f s) (h : Reachable (machine Y) guard w) :
    f w.shared = f Y.start ++ w.events.reverse.flatMap fun e => g e.op e.reply := by
  refine h.invariant (P := fun w : World Y => f w.shared =
    f Y.start ++ w.events.reverse.flatMap fun e => g e.op e.reply)
    (List.append_nil _).symm fun w a v _ hw _ hn => ?_
  cases step_of_next hn with
  | @call i env request op rest r s hi he =>
      change f s = _ ++ (Event.mk i request op r w.shared :: w.events).reverse.flatMap _
      rw [List.reverse_cons, List.flatMap_append, List.flatMap_singleton, ← List.append_assoc, ← hw]
      exact hexec he
  | elapse => exact (helapse _ _).trans hw
  | _ => exact hw

/-- What was there before a call is still there. -/
theorem part_prefix
    (hexec : ∀ {s env op r s'}, Y.exec s env op = some (r, s') → f s' = f s ++ g op r)
    (helapse : ∀ s t, f (Y.elapse s t) = f s) (h : Reachable (machine Y) guard w) :
    ∀ e ∈ w.events, f e.before <+: f w.shared := by
  intro e he
  obtain ⟨after, before, hsplit⟩ := List.append_of_mem he
  obtain ⟨v, env, rest, s, hv, hevents, hshared, -⟩ := reachable_event h hsplit
  rw [← hshared, part_appended hexec helapse hv, part_appended hexec helapse h, hevents, hsplit,
    List.reverse_append, List.reverse_cons, List.append_assoc, List.flatMap_append,
    ← List.append_assoc]
  exact List.prefix_append _ _

end

/-! ## What a task has seen -/

section
variable {G : Type} {note : G → (op : I.Op) → I.Reply op → G} {start : G} {i : ℕ} {e : Event Y}
  {events : List (Event Y)}

def track (note : G → (op : I.Op) → I.Reply op → G) (start : G) (i : ℕ) : List (Event Y) → G
  | [] => start
  | e :: es =>
      if e.task = i then note (track note start i es) e.op e.reply else track note start i es

theorem track_self (h : e.task = i) : track note start i (e :: events) =
    note (track note start i events) e.op e.reply :=
  if_pos h

theorem track_other (h : e.task ≠ i) :
    track note start i (e :: events) = track note start i events :=
  if_neg h

theorem track_fresh (h : ∀ e ∈ events, e.task ≠ i) : track note start i events = start := by
  induction events with
  | nil => rfl
  | cons e es ih =>
      rw [track_other (h e (by simp))]
      exact ih fun e he => h e (by simp [he])

/-- A part of the local state that moves by itself is what it would be alone. -/
theorem track_map {H : Type} {note' : H → (op : I.Op) → I.Reply op → H} (f : G → H)
    (hnote : ∀ g op r, f (note g op r) = note' (f g) op r) :
    f (track note start i events) = track note' (f start) i events := by
  induction events with
  | nil => rfl
  | cons e es ih =>
      by_cases hi : e.task = i
      · rw [track_self hi, track_self hi, hnote, ih]
      · rw [track_other hi, track_other hi, ih]

theorem track_invariant {P : G → Prop} (hstart : P start)
    (hstep : ∀ after e before, events = after ++ e :: before → e.task = i →
      P (track note start i before) → P (note (track note start i before) e.op e.reply)) :
    P (track note start i events) := by
  induction events with
  | nil => exact hstart
  | cons e es ih =>
      have hes := ih fun after e' before he => hstep (e :: after) e' before (by rw [he]; rfl)
      by_cases hi : e.task = i
      · rw [track_self hi]
        exact hstep [] e es rfl hi hes
      · rw [track_other hi]
        exact hes

/-- What a call of the task sets and no call takes back. -/
theorem track_keeps {P : G → Prop} (hkeep : ∀ g op r, P g → P (note g op r)) (he : e ∈ events)
    (hi : e.task = i) (hset : ∀ g, P (note g e.op e.reply)) : P (track note start i events) := by
  induction events with
  | nil => cases he
  | cons e' es ih =>
      rcases List.mem_cons.mp he with rfl | he
      · rw [track_self hi]
        exact hset _
      · by_cases hi' : e'.task = i
        · rw [track_self hi']
          exact hkeep _ _ _ (ih he)
        · rw [track_other hi']
          exact ih he

/-- The calls of a task that a test picks out, newest first. -/
def callsOf (asks : I.Op → Bool) (i : ℕ) (events : List (Event Y)) : List (Event Y) :=
  events.filter fun e => e.task = i && asks e.op

theorem mem_callsOf {asks : I.Op → Bool} :
    e ∈ callsOf asks i events ↔ e ∈ events ∧ e.task = i ∧ asks e.op = true := by
  simp [callsOf]

/-- A part of the local state that counts the calls a test picks out. -/
theorem track_count {asks : I.Op → Bool} (count : G → ℕ) (hstart : count start = 0)
    (hstep : ∀ after e before, events = after ++ e :: before → e.task = i →
      count (note (track note start i before) e.op e.reply) =
        count (track note start i before) + (asks e.op).toNat) :
    count (track note start i events) = (callsOf asks i events).length := by
  induction events with
  | nil => exact hstart
  | cons e es ih =>
      have hes := ih fun after e' before he => hstep (e :: after) e' before (by rw [he]; rfl)
      by_cases hi : e.task = i
      · rw [track_self hi, hstep [] e es rfl hi, hes, callsOf, callsOf, List.filter_cons]
        cases hasks : asks e.op <;> simp [hi]
      · rw [track_other hi, hes, callsOf, callsOf, List.filter_cons, if_neg (by simp [hi])]

/-- What holds now and did not at the start was set by some call of the task. -/
theorem track_origin {P : G → Prop} (hstart : ¬ P start) (h : P (track note start i events)) :
    ∃ after e before, events = after ++ e :: before ∧ e.task = i ∧
      ¬ P (track note start i before) ∧ P (note (track note start i before) e.op e.reply) := by
  by_contra hnone
  refine track_invariant (P := fun g => ¬ P g) hstart (fun after e before he hi hold hnew => ?_) h
  exact hnone ⟨after, e, before, he, hi, hold, hnew⟩

end

/-! ## Protocols -/

structure Protocol (Y : System I) (G : Type) where
  contract : Y.Request → Contract I G
  start : Y.Request → G
  post : Y.Request → G → Prop

variable {G : Type}

/-- The local state of the task `i` after the calls in `events`. -/
def Protocol.ghost (P : Protocol Y G) (request : Y.Request) (i : ℕ) (events : List (Event Y)) : G :=
  track (P.contract request).next (P.start request) i events

/-- What is left of every task meets the task's contract. -/
def Follows (P : Protocol Y G) (w : World Y) : Prop :=
  ∀ i request p, w.tasks i = some ⟨request, some p⟩ →
    Meets (P.contract request) p (P.ghost request i w.events) fun g _ => P.post request g

/-- The replies the shared state gives are the ones the contracts assume. -/
def Sound (P : Protocol Y G) (guard : World Y → Label Y → Prop) : Prop :=
  ∀ w i env request op rest r s, Reachable (machine Y) guard w → guard w (.call i env) →
    w.tasks i = some ⟨request, some (.call op rest)⟩ → Y.exec w.shared env op = some (r, s) →
    (P.contract request).fact (P.ghost request i w.events) op r

/-- Every executed call was one its contract allows. -/
def Obeyed (P : Protocol Y G) (w : World Y) : Prop :=
  Throughout (fun e before => (P.contract e.request).pre (P.ghost e.request e.task before) e.op)
    w.events

section
variable {P : Protocol Y G} {guard : World Y → Label Y → Prop}
  (hserve : ∀ request, Meets (P.contract request) (Y.serve request) (P.start request)
    fun g _ => P.post request g)
  (hsound : Sound P guard)

include hserve hsound in
theorem follows {w : World Y} (h : Reachable (machine Y) guard w) : Follows P w := by
  refine h.invariant (fun i request p hi => by cases hi) fun w a v hr hw hg hn => ?_
  have hother {i j : ℕ} {t : Task Y} {request : Y.Request} {p : Program I Unit} (hji : j ≠ i)
      (hj : (w.setTask i t).tasks j = some ⟨request, some p⟩) :
      Meets (P.contract request) p (P.ghost request j w.events) fun g _ => P.post request g :=
    hw j request p (setTask_other w t hji ▸ hj)
  intro j request p hj
  cases step_of_next hn with
  | @arrive i request' hi =>
      by_cases hji : j = i
      · subst hji
        rw [setTask_self, Option.some.injEq, Task.mk.injEq, Option.some.injEq] at hj
        obtain ⟨rfl, rfl⟩ := hj
        have hfresh : P.ghost request' j w.events = P.start request' := by
          refine track_fresh fun e he heq => ?_
          have hreq := reachable_recorded hr e he
          rw [heq, requestOf, hi] at hreq
          cases hreq
        change Meets _ _ (P.ghost request' j w.events) _
        rw [hfresh]
        exact hserve request'
      · exact hother hji hj
  | @call i env request' op rest r s hi he =>
      by_cases hji : j = i
      · subst hji
        change (w.setTask _ _).tasks _ = _ at hj
        rw [setTask_self, Option.some.injEq, Task.mk.injEq, Option.some.injEq] at hj
        obtain ⟨rfl, rfl⟩ := hj
        rw [Protocol.ghost, track, if_pos rfl]
        exact (hw j request' _ hi).2 r (hsound w j env request' op rest r s hr hg hi he)
      · rw [Protocol.ghost, track, if_neg (Ne.symm hji)]
        exact hother hji hj
  | @drop i request' op rest hi ha =>
      by_cases hji : j = i
      · subst hji
        rw [setTask_self, Option.some.injEq, Task.mk.injEq] at hj
        cases hj.2
      · exact hother hji hj
  | elapse => exact hw j request p hj

include hserve hsound in
theorem obeyed {w : World Y} (h : Reachable (machine Y) guard w) : Obeyed P w := by
  refine h.invariant throughout_nil fun w a v hr hw hg hn => ?_
  cases step_of_next hn with
  | @call i env request op rest r s hi hexec =>
      exact throughout_cons.mpr ⟨(follows hserve hsound hr i request _ hi).1, hw⟩
  | _ => exact hw

include hserve hsound in
/-- When some outcome of every promised call is enabled, a task in progress can
be run to its end. -/
theorem can_finish {i : ℕ} (henabled : ∀ w request op rest, Reachable (machine Y) guard w →
      w.tasks i = some ⟨request, some (.call op rest)⟩ →
      (P.contract request).pre (P.ghost request i w.events) op →
      ∃ env r s, guard w (.call i env) ∧ Y.exec w.shared env op = some (r, s))
    {w : World Y} {request : Y.Request} {p : Program I Unit} (h : Reachable (machine Y) guard w)
    (hi : w.tasks i = some ⟨request, some p⟩) :
    ∃ v, Run (machine Y) guard w v ∧ v.tasks i = some ⟨request, some (.done ())⟩ := by
  induction p generalizing w with
  | done _ => exact ⟨w, .done w, hi⟩
  | call op rest ih =>
      have hpre := (follows hserve hsound h i request _ hi).1
      obtain ⟨env, r, s, hguard, hexec⟩ := henabled w request op rest h hi hpre
      have hnext : (machine Y).next w (.call i env) =
          some ⟨s, Function.update w.tasks i (some ⟨request, some (rest r)⟩),
            ⟨i, request, op, r, w.shared⟩ :: w.events⟩ := by
        simp only [machine, next, hi, hexec]
        rfl
      obtain ⟨v, hrun, hdone⟩ := ih r (h.next hguard hnext) (Function.update_self ..)
      exact ⟨v, Run.trans (.single hguard hnext) hrun, hdone⟩

end

end Xlpod.Interleaving
