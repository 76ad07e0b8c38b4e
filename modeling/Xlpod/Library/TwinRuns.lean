import Xlpod.Library.Interleaving
import Xlpod.Library.TwinPrograms
import Mathlib.Data.List.Forall2

/-!
# Two runs side by side

Two runs of one system take the same steps at the same places, on related
requests and with related answers of the environment. When related requests are
served by coupled programs and a coupled call takes related states to related
states, the whole runs stay related: their shared states, what is left of every
task, and the calls they executed.
-/
namespace Xlpod.TwinRuns
open Xlpod.Programs Xlpod.GuardedRuns Xlpod.Interleaving Xlpod.TwinPrograms

variable {I : Interface} {Y : System I}

/-- What two runs may see in each other's place. -/
structure Likeness (Y : System I) where
  request : Y.Request → Y.Request → Prop
  environment : Y.Environment → Y.Environment → Prop
  elapsed : Y.Elapse → Y.Elapse → Prop

/-- Relations on calls and states that the execution of a call respects. -/
structure Twins (Y : System I) extends Likeness Y where
  call : Coupling I
  state : Y.State → Y.State → Prop
  start : state Y.start Y.start
  serve : ∀ a b, request a b → Coupled call (fun _ _ => True) (Y.serve a) (Y.serve b)
  awaits : ∀ op op' Q, call op op' Q → Y.awaits op' = Y.awaits op
  exec : ∀ op op' Q, call op op' Q → ∀ s s' env env' r u, state s s' → environment env env' →
    Y.exec s env op = some (r, u) →
    ∃ r' u', Y.exec s' env' op' = some (r', u') ∧ Q r r' ∧ state u u'
  elapse : ∀ s s' d d', state s s' → elapsed d d' → state (Y.elapse s d) (Y.elapse s' d')

section
variable {L : Likeness Y}

inductive TwinLabel (L : Likeness Y) : Label Y → Label Y → Prop
  | arrive {i : ℕ} {a b : Y.Request} : L.request a b → TwinLabel L (.arrive i a) (.arrive i b)
  | call {i : ℕ} {env env' : Y.Environment} : L.environment env env' →
      TwinLabel L (.call i env) (.call i env')
  | drop {i : ℕ} : TwinLabel L (.drop i) (.drop i)
  | elapse {d d' : Y.Elapse} : L.elapsed d d' → TwinLabel L (.elapse d) (.elapse d')

/-- Two runs in step. -/
inductive TwinRun (L : Likeness Y) : World Y → World Y → Prop
  | start : TwinRun L (machine Y).start (machine Y).start
  | step {w v w' v' : World Y} {a b : Label Y} : TwinRun L w v → TwinLabel L a b →
      (machine Y).next w a = some w' → (machine Y).next v b = some v' → TwinRun L w' v'

/-- Two executed scripts of paired labels. -/
theorem TwinRun.replay {w v w' v' : World Y} (h : TwinRun L w v) {as bs : List (Label Y)}
    (hab : List.Forall₂ (TwinLabel L) as bs)
    (hw : GuardedRuns.replay (machine Y) unchecked w as = some w')
    (hv : GuardedRuns.replay (machine Y) unchecked v bs = some v') : TwinRun L w' v' := by
  induction hab generalizing w v with
  | nil =>
      cases hw
      cases hv
      exact h
  | cons hlabel _ ih =>
      obtain ⟨w₁, hw₁, hw⟩ := Option.bind_eq_some_iff.mp hw
      obtain ⟨v₁, hv₁, hv⟩ := Option.bind_eq_some_iff.mp hv
      exact ih (h.step hlabel hw₁ hv₁) hw hv

end

variable {T : Twins Y}

inductive TwinTask (T : Twins Y) : Option (Task Y) → Option (Task Y) → Prop
  | unknown : TwinTask T none none
  | gone {a b : Y.Request} : T.request a b → TwinTask T (some ⟨a, none⟩) (some ⟨b, none⟩)
  | running {a b : Y.Request} {p q : Program I Unit} : T.request a b →
      Coupled T.call (fun _ _ => True) p q → TwinTask T (some ⟨a, some p⟩) (some ⟨b, some q⟩)

structure TwinEvent (T : Twins Y) (e f : Event Y) : Prop where
  task : f.task = e.task
  call : ∃ Q, T.call e.op f.op Q ∧ Q e.reply f.reply

structure TwinWorld (T : Twins Y) (w v : World Y) : Prop where
  state : T.state w.shared v.shared
  tasks : ∀ i, TwinTask T (w.tasks i) (v.tasks i)
  events : List.Forall₂ (TwinEvent T) w.events v.events

theorem twinTask_update {w v : World Y} {i : ℕ} {t t' : Task Y}
    (h : ∀ j, TwinTask T (w.tasks j) (v.tasks j)) (ht : TwinTask T (some t) (some t')) (j : ℕ) :
    TwinTask T ((w.setTask i t).tasks j) ((v.setTask i t').tasks j) := by
  by_cases hj : j = i
  · subst hj
    rw [setTask_self, setTask_self]
    exact ht
  · rw [setTask_other w t hj, setTask_other v t' hj]
    exact h j

theorem TwinWorld.call {w v w' v' : World Y} {i : ℕ} {env env' : Y.Environment}
    (h : TwinWorld T w v) (henv : T.environment env env') (hw : Step w (.call i env) w')
    (hv : Step v (.call i env') v') : TwinWorld T w' v' := by
  cases hw with
  | @call _ _ request op rest r s hi he =>
      cases hv with
      | @call _ _ request' op' rest' r' s' hi' he' =>
          have htask := h.tasks i
          rw [hi, hi'] at htask
          cases htask with
          | running hrequest hcoupled =>
              cases hcoupled with
              | call hop hrest =>
                  obtain ⟨r₂, s₂, hexec, hreply, hstate⟩ :=
                    T.exec _ _ _ hop _ _ _ _ _ _ h.state henv he
                  rw [he', Option.some.injEq, Prod.mk.injEq] at hexec
                  obtain ⟨rfl, rfl⟩ := hexec
                  refine ⟨hstate, ?_, .cons ⟨rfl, _, hop, hreply⟩ h.events⟩
                  exact twinTask_update h.tasks (.running hrequest (hrest _ _ hreply))

theorem TwinWorld.step {w v w' v' : World Y} {a b : Label Y} (h : TwinWorld T w v)
    (hab : TwinLabel T.toLikeness a b) (hw : Step w a w') (hv : Step v b v') : TwinWorld T w' v' := by
  cases hab with
  | arrive hrequest =>
      cases hw with
      | arrive hi =>
          cases hv with
          | arrive hi' =>
              refine ⟨h.state, ?_, h.events⟩
              exact twinTask_update h.tasks (.running hrequest (T.serve _ _ hrequest))
  | call henv => exact h.call henv hw hv
  | @drop i =>
      cases hw with
      | drop hi _ =>
          cases hv with
          | drop hi' _ =>
              refine ⟨h.state, ?_, h.events⟩
              have htask := h.tasks i
              rw [hi, hi'] at htask
              cases htask with
              | running hrequest _ => exact twinTask_update h.tasks (.gone hrequest)
  | elapse hd =>
      cases hw with
      | elapse =>
          cases hv with
          | elapse => exact ⟨T.elapse _ _ _ _ h.state hd, h.tasks, h.events⟩

theorem twinWorld_start (T : Twins Y) : TwinWorld T (machine Y).start (machine Y).start :=
  ⟨T.start, fun _ => .unknown, .nil⟩

theorem TwinRun.twinWorld {w v : World Y} (h : TwinRun T.toLikeness w v) : TwinWorld T w v := by
  induction h with
  | start => exact twinWorld_start T
  | step _ hab hw hv ih => exact ih.step hab (step_of_next hw) (step_of_next hv)

/-- Wherever one run goes on, so does the other. -/
theorem TwinRun.follow {w v w' : World Y} {a b : Label Y} (h : TwinRun T.toLikeness w v)
    (hab : TwinLabel T.toLikeness a b) (hw : (machine Y).next w a = some w') :
    ∃ v', (machine Y).next v b = some v' := by
  have hworld := h.twinWorld
  cases hab with
  | @arrive i a b hrequest =>
      cases step_of_next hw with
      | arrive hi =>
          have htask := hworld.tasks i
          rw [hi] at htask
          generalize hv : v.tasks i = t at htask
          cases htask
          exact ⟨_, by simp only [machine, next, hv]; rfl⟩
  | @call i env env' henv =>
      cases step_of_next hw with
      | call hi he =>
          have htask := hworld.tasks i
          rw [hi] at htask
          generalize hv : v.tasks i = t at htask
          cases htask with
          | running hrequest hcoupled =>
              cases hcoupled with
              | call hop hrest =>
                  obtain ⟨r', u', hexec, -, -⟩ :=
                    T.exec _ _ _ hop _ _ _ _ _ _ hworld.state henv he
                  exact ⟨_, by simp only [machine, next, hv, hexec]; rfl⟩
  | @drop i =>
      cases step_of_next hw with
      | drop hi hawaits =>
          have htask := hworld.tasks i
          rw [hi] at htask
          generalize hv : v.tasks i = t at htask
          cases htask with
          | running hrequest hcoupled =>
              cases hcoupled with
              | call hop hrest =>
                  have hwaits := (T.awaits _ _ _ hop).trans hawaits
                  exact ⟨_, by simp only [machine, next, hv, hwaits, if_true]; rfl⟩
  | elapse => exact ⟨_, rfl⟩

end Xlpod.TwinRuns
