import Xlpod.Attribution

/-!
# The limiter under concurrency

A request reads the clock and only later holds the lock. The bucket of a key is
then the latest part of its accepted readings, in the order in which they were
applied; earlier ones were dropped when a later reading came first. As long as a
check never comes so late that a dropped reading lies within a second of its own,
no second has more than the limit. Otherwise the limiter counts anew.
-/
namespace Xlpod.RateBound
open Xlpod.ApiErrors Xlpod.Auth Xlpod.GuardedRuns Xlpod.Programs Xlpod.Interleaving
open Xlpod.ServerState Xlpod.Server Xlpod.SlidingWindow Xlpod.RateWindow Xlpod.Bursts
open Xlpod.Attribution

/-- It lies in the second from `a` on. -/
def within (a t : ℕ) : Bool := a ≤ t ∧ t ≤ a + window

section
variable {d : Deployment}

/-- In every second at most the limit of accepted checks of a token were read. -/
def Bounded (w : World (server d)) : Prop :=
  ∀ token a, (checksOf token w.events).countP (within a) ≤ rateLimitPerSec

/-- The accepted readings of a key, in the order in which they were applied. -/
def applied (key : String) (events : List (Event (server d))) : List ℕ :=
  (events.filterMap fun e => (acceptedCheck e.op e.reply).bind fun c =>
    if c.key = key then some c.now else none).reverse

/-- Those that are no longer in the bucket. -/
def lost (key : String) (w : World (server d)) : List ℕ :=
  (applied key w.events).take ((applied key w.events).length - (w.shared.limiter key).length)

/-- A check is applied before any reading within a second of its own is lost. -/
def timely (w : World (server d)) : Label (server d) → Prop
  | .call i _ => ∀ request key now, w.about i = some (request, .limiterCheck key now) →
      ∀ t ∈ lost key w, now ≤ t + window → now + window < t
  | _ => True

/-! ## The bucket -/

theorem exec_limiter {s s' : AppState} {env : Environment} {op : Op} {r : op.Reply}
    (h : exec s env op = some (r, s')) :
    (∃ key now, op = .limiterCheck key now ∧ s'.limiter = after s.limiter ⟨key, now⟩ ∧
      acceptedCheck op r = if hasRoom s.limiter key now then some ⟨key, now⟩ else none) ∨
      (s'.limiter = s.limiter ∧ acceptedCheck op r = none) := by
  cases op with
  | limiterCheck key now =>
      refine .inl ⟨key, now, rfl, ?_⟩
      rw [after]
      simp only [exec, check_eq] at h ⊢
      cases hroom : hasRoom s.limiter key now <;> rw [hroom] at h <;> cases h <;> exact ⟨rfl, rfl⟩
  | issue | openSession | openWindow | keychainWrite | keychainDelete =>
      simp only [exec] at h
      split at h <;> cases h <;> exact .inr ⟨rfl, rfl⟩
  | panicked => cases h
  | _ =>
      cases h
      exact .inr ⟨rfl, rfl⟩

theorem applied_cons (key : String) (e : Event (server d)) (events : List (Event (server d))) :
    applied key (e :: events) = applied key events ++ ((acceptedCheck e.op e.reply).bind fun c =>
      if c.key = key then some c.now else none).toList := by
  rw [applied, List.filterMap_cons]
  split <;> next h => simp [h, applied]

theorem applied_check {key key' : String} {now : ℕ} {room : Bool} {e : Event (server d)}
    {events : List (Event (server d))}
    (h : acceptedCheck e.op e.reply = if room then some ⟨key', now⟩ else none) :
    applied key (e :: events) =
      applied key events ++ if key' = key ∧ room = true then [now] else [] := by
  rw [applied_cons, h]
  by_cases hkey : key' = key <;> cases room <;> simp [hkey]

theorem applied_skip {key : String} {e : Event (server d)} {events : List (Event (server d))}
    (h : acceptedCheck e.op e.reply = none) : applied key (e :: events) = applied key events := by
  rw [applied_cons, h]
  exact List.append_nil _

/-- The bucket is what came last. -/
def Kept (w : World (server d)) : Prop :=
  ∀ key, w.shared.limiter key <:+ applied key w.events

theorem kept {guard : World (server d) → Label (server d) → Prop} {w : World (server d)}
    (h : Reachable (machine (server d)) guard w) : Kept w := by
  refine h.invariant (fun key => List.suffix_rfl) fun w a v _ hw _ hn key => ?_
  cases step_of_next hn with
  | @call i env request op rest r s hi hexec =>
      rcases exec_limiter hexec with ⟨key', now, -, hlimiter, hcheck⟩ | ⟨hlimiter, hcheck⟩
      · rw [hlimiter, applied_check hcheck]
        by_cases hkey : key = key'
        · subst hkey
          rw [after_self]
          obtain ⟨old, hold⟩ := (live_suffix cutoff (w.shared.limiter key) now).trans (hw key)
          rw [← hold, List.append_assoc]
          simp
        · rw [after_other hkey, if_neg fun hc => hkey hc.1.symm, List.append_nil]
          exact hw key
      · rw [hlimiter, applied_skip hcheck]
        exact hw key
  | _ => exact hw key

theorem applied_eq {w : World (server d)} (h : Kept w) (key : String) :
    applied key w.events = lost key w ++ w.shared.limiter key := by
  rw [lost]
  exact (List.suffix_iff_eq_append.mp (h key)).symm

/-! ## The bound -/

theorem within_past {a now t : ℕ} (hnow : within a now = true) (h : t < cutoff now) :
    within a t = false := by
  rw [within, decide_eq_true_eq] at hnow
  have hcut : ¬ cutoff now ≤ t := Nat.not_le_of_lt h
  rw [cutoff_le_iff] at hcut
  rw [within, decide_eq_false_iff_not]
  omega

theorem within_far {a now t : ℕ} (hnow : within a now = true)
    (h : now ≤ t + window → now + window < t) : within a t = false := by
  rw [within, decide_eq_true_eq] at hnow
  rw [within, decide_eq_false_iff_not]
  omega

/-- The bound, for each bucket. -/
def KeyBounded (w : World (server d)) : Prop :=
  ∀ key a, (applied key w.events).countP (within a) ≤ rateLimitPerSec

theorem keyBounded {w : World (server d)} (h : Reachable (machine (server d)) timely w) :
    KeyBounded w := by
  refine h.invariant (fun key a => Nat.zero_le _) fun w a v hr hw hg hn key start => ?_
  cases step_of_next hn with
  | @call i env request op rest r s hi hexec =>
      rcases exec_limiter hexec with ⟨key', now, rfl, -, hcheck⟩ | ⟨-, hcheck⟩
      · rw [applied_check hcheck]
        split
        · next htaken =>
            obtain ⟨rfl, hroom⟩ := htaken
            cases hnow : within start now with
            | false =>
                rw [List.countP_append, List.countP_singleton, hnow]
                exact hw key' start
            | true =>
                rw [applied_eq (kept hr)]
                have hfar := hg request key' now (World.about_of_call hi)
                exact count_taken (by simpa [hasRoom] using hroom)
                  (fun t ht => within_past hnow ht) fun t ht => within_far hnow (hfar t ht)
        · rw [List.append_nil]
          exact hw key start
      · rw [applied_skip hcheck]
        exact hw key start
  | _ => exact hw key start

/-- A request asks for the bucket of its own token. -/
theorem own_key {w : World (server d)} (h : Reachable (machine (server d)) anyStep w)
    {e : Event (server d)} (he : e ∈ w.events) {c : Check}
    (hc : acceptedCheck e.op e.reply = some c) {token : String}
    (htoken : bearerToken e.request = some token) : c.key = idOf token := by
  obtain ⟨after, before, hsplit⟩ := List.append_of_mem he
  have hpre := allowed h hsplit
  obtain ⟨task, request, op, reply, s⟩ := e
  cases op with
  | limiterCheck key now =>
      obtain ⟨-, hkey⟩ := hpre
      obtain ⟨token', hpresented, rfl⟩ := Option.map_eq_some_iff.mp hkey
      have hsame := (bearer_of_presented hpresented).symm.trans htoken
      rw [Option.some.injEq] at hsame
      cases reply <;> cases hc
      rw [hsame]
  | _ => cases hc

theorem count_checksOf {w : World (server d)} (h : Reachable (machine (server d)) anyStep w)
    (token : String) (counts : ℕ → Bool) :
    (checksOf token w.events).countP counts ≤ (applied (idOf token) w.events).countP counts := by
  rw [applied, List.countP_reverse, checksOf, List.countP_filterMap, List.countP_filterMap]
  refine List.countP_mono_left fun e he hcounts => ?_
  split at hcounts
  · next htoken =>
      cases hc : acceptedCheck e.op e.reply with
      | none =>
          rw [hc] at hcounts
          cases hcounts
      | some c =>
          rw [hc] at hcounts
          rw [Option.bind_some, if_pos (own_key h he hc htoken)]
          exact hcounts
  · cases hcounts

/-- However the reading of the clock and the update are interleaved, no second has
more accepted checks of a token than the limit, as long as no check is applied
after a reading within a second of its own was dropped. -/
theorem bounded_of_timely {w : World (server d)} (h : Reachable (machine (server d)) timely w) :
    Bounded w :=
  fun token start =>
    (count_checksOf h.unguarded token (within start)).trans (keyBounded h (idOf token) start)

/-- `timely`, as a test. -/
def onTime (w : World (server d)) : Label (server d) → Bool
  | .call i _ =>
      match w.about i with
      | some (_, .limiterCheck key now) =>
          (lost key w).all fun t => now ≤ t + window → now + window < t
      | _ => true
  | _ => true

theorem timely_of_onTime (w : World (server d)) (a : Label (server d)) (h : onTime w a = true) :
    timely w a := by
  cases a with
  | call i env =>
      intro request key now habout
      simp only [onTime, habout, List.all_eq_true, decide_eq_true_eq] at h
      exact h
  | _ => trivial

end

theorem bounded_version : ∃ w, Reachable (machine (server firstLaunch)) timely w ∧
    (checksOf "tok" w.events == [0]) = true ∧ Bounded w := by
  obtain ⟨w, hw, ht⟩ := replay_reaches (machine (server firstLaunch)) timely onTime
    (handshakeRun 0 "tok" [.aiProviderCall] ++ .arrive 1 versionRequest :: calls 1 9 {})
    (fun w => checksOf "tok" w.events == [0]) timely_of_onTime (by decide +kernel)
  exact ⟨w, hw, ht, bounded_of_timely hw⟩

/-! ## A late check -/

theorem cutoff_later (now : ℕ) : now < cutoff (now + 2 * window) := by
  have hwindow : 0 < window := Nat.succ_pos _
  rw [cutoff]
  omega

theorem live_expired (n now : ℕ) : live cutoff (List.replicate n now) (now + 2 * window) = [] := by
  apply live_eq_nil
  intro t ht
  rw [List.eq_of_mem_replicate ht]
  exact cutoff_later now

/-- One request reads the clock and is held up, a hundred others are admitted at
that reading, and two seconds later one more empties the bucket. -/
theorem exists_late : ∃ w now later, Reachable (machine (server firstLaunch)) anyStep w ∧
    checksOf "tok" w.events = now :: later :: List.replicate rateLimitPerSec now := by
  obtain ⟨w, hw⟩ := exists_granted
  obtain ⟨record, hlive⟩ := hw.record
  obtain ⟨u, start, admitted, hu⟩ := exists_held (hw.fresh 1 (Nat.le_refl _))
    (hlive w.shared.now (Nat.le_add_right ..))
  have hfresh (j : ℕ) (hj : 2 ≤ j) : u.tasks j = none := by
    rw [hu.others j (by omega), hw.fresh j (by omega)]
  obtain ⟨v, hv⟩ := exists_burst (by rw [hu.shared]; exact hlive _ (Nat.le_add_right ..))
    (by rw [hu.shared, hw.empty]) hfresh rateLimitPerSec (Nat.le_refl _)
  have hclock : v.shared.now = w.shared.now := by rw [hv.clock, hu.shared]
  have hbucket : v.shared.limiter (idOf "tok") = List.replicate rateLimitPerSec w.shared.now := by
    rw [hv.bucket, hu.shared]
  obtain ⟨late, helapsed, hshared, htasks, hevents⟩ := exists_elapsed v (2 * window)
  have hnow : late.shared.now = w.shared.now + 2 * window := by
    rw [hshared, ← hclock]
  have hlate : late.shared.tokens.lookup late.shared.now "tok" = .ok record := by
    have htokens : late.shared.tokens = w.shared.tokens := by
      rw [hshared, ← hu.shared, ← hv.tokens]
    rw [htokens, hnow]
    exact hlive _ (Nat.le_refl _)
  have hempty : live cutoff (late.shared.limiter (idOf "tok")) late.shared.now = [] := by
    rw [hnow, hshared]
    change live cutoff (v.shared.limiter (idOf "tok")) _ = []
    rw [hbucket, live_expired]
  obtain ⟨x, admitted', hx⟩ := exists_admitted
    (by rw [htasks]; exact hv.fresh (2 + rateLimitPerSec) (Nat.le_refl _)) hlate
    (decide_eq_true (by rw [hempty]; decide))
  have hwaiting : x.tasks 1 = some ⟨versionRequest,
      some (.call (.limiterCheck (idOf "tok") w.shared.now) (judged start admitted))⟩ := by
    rw [hx.others 1 (by decide), htasks, hv.others 1 (by decide), hu.task]
  have hroom : hasRoom x.shared.limiter (idOf "tok") w.shared.now = true := by
    have hone : x.shared.limiter (idOf "tok") = [late.shared.now] := by
      rw [hx.shared, taking_limiter, hempty]
      rfl
    have hlength := (live_suffix cutoff (x.shared.limiter (idOf "tok")) w.shared.now).length_le
    rw [hone] at hlength
    rw [hasRoom, hone, decide_eq_true_eq]
    exact hlength.trans_lt (Nat.lt_of_sub_eq_succ rfl)
  obtain ⟨y, hy⟩ := exists_checked hwaiting hroom
  have hall := hu.run.trans (hv.run.trans (helapsed.trans (hx.run.trans hy.run)))
  refine ⟨y, w.shared.now, late.shared.now, hw.reachable.run hall, ?_⟩
  rw [hy.events, List.singleton_append, checksOf_check, hx.events, List.cons_append, checksOf_check,
    checksOf_asking, hevents, hv.taken, hu.events, checksOf_asking, hw.untaken, hu.shared,
    List.append_nil]

theorem not_bounded_late :
    ∃ w, Reachable (machine (server firstLaunch)) anyStep w ∧ ¬ Bounded w := by
  obtain ⟨w, now, later, hw, hchecks⟩ := exists_late
  refine ⟨w, hw, fun hbounded => ?_⟩
  have hcount := hbounded "tok" now
  have hnow : within now now = true := by simp [within]
  rw [hchecks, List.countP_cons_of_pos hnow, List.countP_cons, List.countP_replicate, if_pos hnow]
    at hcount
  omega

end Xlpod.RateBound
