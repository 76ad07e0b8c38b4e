import Xlpod.Attribution
import Xlpod.Mediation

/-!
# Why a request was refused

The guards ask in a fixed order: the host, the origin, the token, the limiter,
the scope. An answer of one of them says that this check failed and all before
it passed, and a request that passes them all gets no such answer. What they
find out about a token is exact: from the handshake that issued it until its
lifetime is over it works, with the record of that handshake, and never after.
-/
namespace Xlpod.Verdicts
open Xlpod.ApiErrors Xlpod.Auth Xlpod.GuardedRuns Xlpod.Programs Xlpod.Interleaving
open Xlpod.ServerState Xlpod.Server Xlpod.Footprints Xlpod.Serving Xlpod.Provenance
open Xlpod.Mediation Xlpod.Attribution Xlpod.RateWindow

/-! ## Verdicts -/

/-- The answer of a guard, if it is one. -/
def guardError : ResponseBody → Option ApiError
  | .error e => if guards e then some e else none
  | _ => none

def frontVerdict (d : Deployment) (request : Request) : Option ApiError :=
  if request.host.any d.allowedHosts.contains then
    if request.origin.any allowedOrigins.contains then none else some .originNotAllowed
  else some .hostNotAllowed

def bearerVerdict (live : Option TokenRecord) (full : Bool) (need : Option Scope) :
    Option ApiError :=
  match live with
  | none => some .unauthorized
  | some record =>
      if full then some .rateLimited
      else if need.all record.scopes.contains then none
      else some .scopeDenied

/-- The first check that a request fails, given the record of its token and
whether the limiter was full. -/
def verdict (d : Deployment) (request : Request) (live : Option TokenRecord) (full : Bool) :
    Access → Option ApiError
  | .publicOpen => none
  | .publicOrigin => frontVerdict d request
  | .bearer need => (frontVerdict d request).or (bearerVerdict live full need)

variable {d : Deployment}

/-- The token was issued with this record, and its lifetime is not over. -/
def Live (events : List (Event (server d))) (now : ℕ) (token : String) (record : TokenRecord) :
    Prop :=
  ∃ o ∈ events, issuedBy o = some (token, record) ∧
    now < o.before.now + tokenTtlSecs * nanosPerSec

def isLookup : Op → Bool
  | .lookup _ => true
  | _ => false

def isCheck : Op → Bool
  | .limiterCheck _ _ => true
  | _ => false

/-- What the guards of `e` found and how they judged it: the token was looked up
once, and the limiter was asked once for a live token and never without one. -/
structure Judged (e : Event (server d)) (before : List (Event (server d))) (response : Response)
    (live : Option TokenRecord) (full : Bool) : Prop where
  verdict : guardError response.body = (accessOf e.request).bind (verdict d e.request live full)
  absent : presented d e.request = none → live = none ∧ callsOf isLookup e.task before = []
  token : ∀ token, presented d e.request = some token → ∃ between l earlier,
    before = between ++ l :: earlier ∧ callsOf isLookup e.task before = [l] ∧
      l.op = .lookup token ∧ ∀ record, live = some record ↔ Live earlier l.before.now token record
  limiter : ∀ token record, presented d e.request = some token → live = some record →
    ∃ c now, callsOf isCheck e.task before = [c] ∧ c.op = .limiterCheck (idOf token) now ∧
      full = !hasRoom c.before.limiter (idOf token) now
  unchecked : live = none → callsOf isCheck e.task before = []

/-! ## The protocol -/

/-- What the guards were told about the token, and whether the request has been
answered. -/
structure Heard where
  found : Option (Except ApiError TokenRecord)
  checked : Option (Except ApiError Unit)
  answered : Bool

def Heard.live (heard : Heard) : Option TokenRecord := heard.found.bind Except.toOption

def Heard.full (heard : Heard) : Bool := (heard.checked.bind Except.toOption).isNone

def hear (heard : Heard) : (op : Op) → op.Reply → Heard
  | .lookup _, found => { heard with found := some found }
  | .limiterCheck _ _, checked => { heard with checked := some checked }
  | .respond _, _ => { heard with answered := true }
  | _, _ => heard

/-- The answer is the verdict on what was heard, and nothing was left unasked. -/
structure Told (d : Deployment) (request : Request) (heard : Heard) (body : ResponseBody) : Prop where
  verdict : guardError body = (accessOf request).bind (verdict d request heard.live heard.full)
  found : (presented d request).isSome = true → heard.found.isSome = true
  checked : heard.live.isSome = true → heard.checked.isSome = true

def conduct (d : Deployment) (request : Request) : Contract api Heard where
  pre heard op :=
    match op with
    | .lookup token => presented d request = some token ∧ heard.found = none ∧
        heard.answered = false
    | .limiterCheck key _ => (presented d request).map idOf = some key ∧
        heard.live.isSome = true ∧ heard.checked = none ∧ heard.answered = false
    | .respond response => Told d request heard response.body
    | _ => True
  fact _ op r := Possible op r
  next := hear

def unheard : Heard := ⟨none, none, false⟩

def protocol (d : Deployment) : Protocol (server d) Heard where
  contract := conduct d
  start _ := unheard
  post _ _ := True

theorem sound (d : Deployment) (guard : World (server d) → Label (server d) → Prop) :
    Sound (protocol d) guard :=
  fun w _ env _ _ _ _ s _ _ _ hexec => ⟨w.shared, env, s, hexec⟩

theorem lookup_error {token : String} {e : ApiError} (h : Possible (.lookup token) (.error e)) :
    e = .unauthorized := by
  obtain ⟨s, env, s', h⟩ := h
  simp only [exec, Option.some.injEq, Prod.mk.injEq, TokenStore.lookup] at h
  obtain ⟨h, -⟩ := h
  split at h
  · cases h
    rfl
  · split at h <;> cases h
    rfl

theorem limiter_error {key : String} {now : ℕ} {e : ApiError}
    (h : Possible (.limiterCheck key now) (.error e)) : e = .rateLimited := by
  obtain ⟨s, env, s', h⟩ := h
  simp only [exec, Option.some.injEq, Prod.mk.injEq, RateLimiter.check] at h
  obtain ⟨h, -⟩ := h
  split at h <;> cases h
  rfl

section
variable {request : Request} {heard : Heard}

theorem ignores_back : Ignores (conduct d request) backOps := by
  intro heard op ho
  cases op <;> first | exact ho.elim | exact ⟨trivial, fun _ => rfl⟩

theorem guardError_handled {x : Except ApiError ResponseBody} (h : OnResult
    (fun (_ : Unit) body => refusal body = false) (fun _ e => guards e = false) () x) :
    guardError (bodyOf x) = none := by
  cases x with
  | error e => exact if_neg (by simpa using h)
  | ok body =>
      cases body with
      | error e => exact if_neg (by simpa [refusal] using h)
      | _ => rfl

/-- A handler and its route give no answer of a guard. -/
theorem handle_told (r : Route) (token : Option TokenRecord) :
    Meets (conduct d request) (handle d request r token) heard fun heard' response =>
      heard' = heard ∧ guardError response.body = none := by
  unfold handle
  split
  · exact ⟨rfl, rfl⟩
  · next input _ =>
      apply meets_bind.mpr
      have htold : Meets replies (handler d request.origin token r input).run ()
          fun _ x => guardError (bodyOf x) = none :=
        (handler_answers d request.origin token r input).mono fun _ _ hx => guardError_handled hx
      refine ((handler_back request.origin token r input).meets_telling
        (K := (· = heard)) htold rfl ?_ ?_ ?_).mono ?_
      · exact fun g op _ ho => (ignores_back g op ho).1
      · rintro g op reply rfl ho
        exact (ignores_back g op ho).2 reply
      · exact fun _ _ _ _ hr => hr
      · rintro heard' x ⟨hsame, hx⟩
        rw [meets_pure, toResponse_body]
        exact ⟨hsame, hx⟩

/-- The host and origin guards let the request through or answer their verdict. -/
theorem front_told (d : Deployment) (request : Request) (next : Server Response) :
    (frontVerdict d request = none ∧ passesFront d request = true ∧
        hostGuard d request (originGuard request next) = next) ∨
      (passesFront d request = false ∧ ∃ e, frontVerdict d request = some e ∧ guards e = true ∧
        hostGuard d request (originGuard request next) = pure (errorResponse e)) := by
  rw [passesFront, hostGuard, originGuard, frontVerdict]
  cases request.host with
  | none => exact .inr ⟨rfl, .hostNotAllowed, rfl, rfl, rfl⟩
  | some host =>
      by_cases hhost : host ∈ d.allowedHosts
      · cases request.origin with
        | none => exact .inr ⟨by simp, .originNotAllowed, by simp [hhost], rfl, by simp [hhost]⟩
        | some origin =>
            by_cases horigin : origin ∈ allowedOrigins
            · exact .inl (by simp [hhost, horigin])
            · refine .inr ⟨by simp [horigin], .originNotAllowed, ?_, rfl, ?_⟩
              · simp [hhost, horigin]
              · simp [hhost, horigin]
      · exact .inr ⟨by simp [hhost], .hostNotAllowed, by simp [hhost], rfl, by simp [hhost]⟩

theorem guardError_errorResponse {e : ApiError} (h : guards e = true) :
    guardError (errorResponse e).body = some e :=
  if_pos h

theorem requireScope_told {need : Option Scope} {record : TokenRecord} {next : Server Response}
    (h : Meets (conduct d request) next heard fun heard' response =>
      heard' = heard ∧ guardError response.body = none) :
    Meets (conduct d request) (requireScope need record next) heard fun heard' response =>
      heard' = heard ∧ guardError response.body =
        if need.all record.scopes.contains then none else some .scopeDenied := by
  unfold requireScope
  cases need with
  | none =>
      rw [Option.all_none, if_pos rfl]
      exact h
  | some scope =>
      rw [Option.all_some]
      refine meets_ite.mpr ⟨fun hscope => ?_, fun hscope => ?_⟩
      · rw [if_pos hscope]
        exact h
      · rw [if_neg hscope]
        exact ⟨rfl, rfl⟩

theorem bearerGuard_told {need : Option Scope} {token : String}
    (hpresented : presented d request = some token) {next : TokenRecord → Server Response}
    (h : ∀ record heard, Meets (conduct d request) (next record) heard fun heard' response =>
      heard' = heard ∧ guardError response.body = none) :
    Meets (conduct d request)
      (bearerGuard request fun record => requireScope need record (next record)) unheard
      fun heard response =>
        guardError response.body = bearerVerdict heard.live heard.full need ∧
          heard.found.isSome = true ∧ (heard.live.isSome = true → heard.checked.isSome = true) := by
  rw [bearerGuard, bearer_of_presented hpresented]
  refine ⟨⟨hpresented, rfl, rfl⟩, fun found hfound => ?_⟩
  cases found with
  | error e =>
      rw [lookup_error hfound]
      refine ⟨rfl, rfl, fun hlive => ?_⟩
      cases hlive
  | ok record =>
      have hid : (presented d request).map idOf = some (idOf token) := by
        rw [hpresented, Option.map_some]
      refine ⟨trivial, fun now _ => ⟨⟨hid, rfl, rfl, rfl⟩, fun checked hchecked => ?_⟩⟩
      cases checked with
      | error e =>
          rw [limiter_error hchecked]
          exact ⟨rfl, rfl, fun _ => rfl⟩
      | ok u =>
          change Meets _ (requireScope need record (next record) >>= _) _ _
          apply meets_bind.mpr
          refine (requireScope_told (h record _)).mono fun heard' response hresponse => ?_
          rw [hresponse.1]
          exact ⟨hresponse.2, rfl, fun _ => rfl⟩

theorem guarded_told {access : Access} {next : Option TokenRecord → Server Response}
    (haccess : accessOf request = some access)
    (h : ∀ token heard, Meets (conduct d request) (next token) heard fun heard' response =>
      heard' = heard ∧ guardError response.body = none) :
    Meets (conduct d request) (guarded d request access next) unheard fun heard response =>
      Told d request heard response.body := by
  have hunasked {body : ResponseBody} (hnone : presented d request = none)
      (hbody : guardError body = verdict d request none true access) :
      Told d request unheard body := by
    refine ⟨by rw [haccess]; exact hbody, fun hsome => ?_, fun hlive => by cases hlive⟩
    rw [hnone] at hsome
    cases hsome
  cases access with
  | publicOpen =>
      refine (h none unheard).mono fun heard response hr => ?_
      rw [hr.1]
      exact hunasked (by rw [presented, haccess]) hr.2
  | publicOrigin =>
      have hnone : presented d request = none := by rw [presented, haccess]
      rw [guarded]
      rcases front_told d request (next none) with ⟨hfront, -, heq⟩ | ⟨-, e, hfront, he, heq⟩
      · rw [heq]
        refine (h none unheard).mono fun heard response hr => ?_
        rw [hr.1]
        exact hunasked hnone (hr.2.trans hfront.symm)
      · rw [heq]
        exact hunasked hnone ((guardError_errorResponse he).trans hfront.symm)
  | bearer need =>
      rw [guarded]
      rcases front_told d request (bearerGuard request _) with
        ⟨hfront, hpass, heq⟩ | ⟨hpass, e, hfront, he, heq⟩
      · have hpresented : presented d request = bearerToken request := by
          rw [presented, haccess, hpass, if_pos rfl]
        have hverdict (live : Option TokenRecord) (full : Bool) :
            verdict d request live full (.bearer need) = bearerVerdict live full need := by
          rw [verdict, hfront, Option.none_or]
        rw [heq]
        cases hbearer : bearerToken request with
        | none =>
            rw [bearerGuard, hbearer]
            exact hunasked (hpresented.trans hbearer) (hverdict none true).symm
        | some token =>
            refine (bearerGuard_told (hpresented.trans hbearer) fun record heard =>
              h (some record) heard).mono fun heard response hr => ?_
            refine ⟨?_, fun _ => hr.2.1, hr.2.2⟩
            rw [haccess]
            exact hr.1.trans (hverdict _ _).symm
      · rw [heq]
        refine hunasked (by rw [presented, haccess, hpass]; rfl) ?_
        rw [verdict, hfront, Option.some_or]
        exact guardError_errorResponse he

theorem serve_conduct (d : Deployment) (request : Request) :
    Meets (conduct d request) ((server d).serve request) unheard fun _ _ => True := by
  have hinner : Meets (conduct d request) (innerService d request) unheard
      fun heard response => Told d request heard response.body := by
    rw [innerService]
    cases hroute : route request.method request.path with
    | notFound =>
        have hnone : accessOf request = none := by rw [accessOf, hroute]
        refine ⟨by rw [hnone]; rfl, fun hsome => ?_, fun hlive => by cases hlive⟩
        rw [presented, hnone] at hsome
        cases hsome
    | notAllowed access =>
        exact guarded_told (by rw [accessOf, hroute]) fun _ _ => ⟨rfl, rfl⟩
    | found r => exact guarded_told (by rw [accessOf, hroute]) fun token _ => handle_told r token
  refine meets_bind.mpr ⟨trivial, fun start _ => meets_bind.mpr (hinner.mono ?_)⟩
  intro heard response htold
  refine meets_bind.mpr ⟨htold, fun _ _ => meets_bind.mpr ⟨trivial, fun finish _ => ?_⟩⟩
  refine meets_bind.mpr ⟨trivial, fun now _ => meets_bind.mpr ⟨trivial, fun _ _ => ?_⟩⟩
  exact meets_bind.mpr ⟨trivial, fun _ _ => ⟨trivial, fun _ _ => trivial⟩⟩

end

/-! ## Runs -/

section
variable {guard : World (server d) → Label (server d) → Prop}
  {w : World (server d)} {i : ℕ} {after before : List (Event (server d))} {e : Event (server d)}

def heardOf (i : ℕ) (events : List (Event (server d))) : Heard := track hear unheard i events

theorem lookup_ok_iff {s : TokenStore} {now : ℕ} {token : String} {record : TokenRecord} :
    s.lookup now token = .ok record ↔ s token = some record ∧ now < record.expires := by
  refine ⟨lookup_ok, fun ⟨htoken, hlive⟩ => ?_⟩
  simp only [TokenStore.lookup, htoken]
  exact if_neg (Nat.not_le.mpr hlive)

/-- A lookup finds exactly the tokens that were issued and are alive. -/
theorem lookup_live_iff (h : Reachable (machine (server d)) guard w) (token : String)
    (record : TokenRecord) : w.shared.tokens.lookup w.shared.now token = .ok record ↔
      Live w.events w.shared.now token record := by
  have hexpires {o : Event (server d)} (ho : o ∈ w.events)
      (hissued : issuedBy o = some (token, record)) :
      record.expires = o.before.now + tokenTtlSecs * nanosPerSec := by
    obtain ⟨-, scopes, fsRoots, hnew⟩ := issued_handshake h ho hissued
    rw [hnew]
    rfl
  rw [lookup_ok_iff, token_issued h]
  constructor
  · rintro ⟨⟨o, ho, hissued⟩, hlive⟩
    rw [hexpires ho hissued] at hlive
    exact ⟨o, ho, hissued, hlive⟩
  · rintro ⟨o, ho, hissued, hlive⟩
    rw [← hexpires ho hissued] at hlive
    exact ⟨⟨o, ho, hissued⟩, hlive⟩

/-- A call of a task obeys the contract of the task's own request. -/
theorem obeyed_as (h : Reachable (machine (server d)) guard w) {request : Request}
    (hi : requestOf w i = some request) (he : w.events = after ++ e :: before) (htask : e.task = i) :
    (conduct d request).pre (heardOf i before) e.op := by
  have hpre : (conduct d e.request).pre (heardOf e.task before) e.op :=
    obeyed (serve_conduct d) (sound d guard) h after e before he
  have hrequest := reachable_recorded h e (by simp [he])
  rw [htask, hi, Option.some.injEq] at hrequest
  rw [htask, ← hrequest] at hpre
  exact hpre

/-- The token of a request is looked up at most once. -/
theorem lookups_count (h : Reachable (machine (server d)) guard w) {request : Request}
    (hi : requestOf w i = some request) :
    (heardOf i w.events).found.isSome.toNat = (callsOf isLookup i w.events).length := by
  refine track_count (fun heard : Heard => heard.found.isSome.toNat) rfl
    fun after e before he htask => ?_
  have hpre := obeyed_as h hi he htask
  obtain ⟨task, request', op, reply, shared⟩ := e
  cases op with
  | lookup token =>
      change 1 = (heardOf i before).found.isSome.toNat + 1
      rw [hpre.2.1]
      rfl
  | _ => rfl

/-- The limiter is asked at most once. -/
theorem checks_count (h : Reachable (machine (server d)) guard w) {request : Request}
    (hi : requestOf w i = some request) :
    (heardOf i w.events).checked.isSome.toNat = (callsOf isCheck i w.events).length := by
  refine track_count (fun heard : Heard => heard.checked.isSome.toNat) rfl
    fun after e before he htask => ?_
  have hpre := obeyed_as h hi he htask
  obtain ⟨task, request', op, reply, shared⟩ := e
  cases op with
  | limiterCheck key now =>
      change 1 = (heardOf i before).checked.isSome.toNat + 1
      rw [hpre.2.2.1]
      rfl
  | _ => rfl

/-- The limiter is asked for live tokens only. -/
theorem live_of_checked (h : Reachable (machine (server d)) guard w) {request : Request}
    (hi : requestOf w i = some request) :
    (heardOf i w.events).checked.isSome = true → (heardOf i w.events).live.isSome = true := by
  refine track_invariant (P := fun heard : Heard =>
    heard.checked.isSome = true → heard.live.isSome = true) (fun hnone => by cases hnone)
    fun after e before he htask hold => ?_
  have hpre := obeyed_as h hi he htask
  obtain ⟨task, request', op, reply, shared⟩ := e
  cases op with
  | lookup token =>
      intro hchecked
      have hlive := hold hchecked
      change (Option.bind (heardOf i before).found Except.toOption).isSome = true at hlive
      rw [hpre.2.1] at hlive
      cases hlive
  | limiterCheck key now => exact fun _ => hpre.2.1
  | _ => exact hold

/-- Once the request is answered its token is not asked about again. -/
theorem unasked_after (h : Reachable (machine (server d)) guard w) {response : Response}
    (he : w.events = after ++ e :: before) (hop : e.op = .respond response) {o : Event (server d)}
    (ho : o ∈ after) (htask : o.task = e.task) : isLookup o.op = false ∧ isCheck o.op = false := by
  obtain ⟨late, between, rfl⟩ := List.append_of_mem ho
  rw [List.append_assoc, List.cons_append] at he
  have hrequest := reachable_recorded h e (by simp [he])
  have hpre := obeyed_as h hrequest he htask
  have hanswered : (heardOf e.task (between ++ e :: before)).answered = true := by
    refine track_keeps (P := fun heard : Heard => heard.answered = true) (fun heard op r hg => ?_)
      (by simp) rfl fun heard => ?_
    · cases op <;> first | exact hg | rfl
    · obtain ⟨task, request, op, reply, shared⟩ := e
      cases hop
      rfl
  obtain ⟨task, request, op, reply, shared⟩ := o
  cases op with
  | lookup token => exact absurd hanswered (by rw [hpre.2.2]; decide)
  | limiterCheck key now => exact absurd hanswered (by rw [hpre.2.2.2]; decide)
  | _ => exact ⟨rfl, rfl⟩

theorem callsOf_single {asks : Op → Bool} {events : List (Event (server d))}
    (hone : 1 = (callsOf asks i events).length) (he : e ∈ events) (hi : e.task = i)
    (hasks : asks e.op = true) : callsOf asks i events = [e] := by
  obtain ⟨c, hc⟩ := List.length_eq_one_iff.mp hone.symm
  have hmem : e ∈ callsOf asks i events := mem_callsOf.mpr ⟨he, hi, hasks⟩
  rw [hc, List.mem_singleton] at hmem
  rw [hc, hmem]

theorem of_callsOf_single {asks : Op → Bool} {events : List (Event (server d))}
    (h : callsOf asks i events = [e]) : e ∈ events ∧ e.task = i := by
  have hmem : e ∈ callsOf asks i events := by simp [h]
  exact ⟨(mem_callsOf.mp hmem).1, (mem_callsOf.mp hmem).2.1⟩

/-- What was heard of the token is what the request's own lookup found. -/
theorem found_by (h : Reachable (machine (server d)) guard w) {request : Request}
    (hi : requestOf w i = some request) {found : Except ApiError TokenRecord}
    (hfound : (heardOf i w.events).found = some found) : ∃ token between l earlier,
      presented d request = some token ∧ w.events = between ++ l :: earlier ∧ l.task = i ∧
        l.op = .lookup token ∧ l.before.tokens.lookup l.before.now token = found ∧
          ∃ v, Reachable (machine (server d)) guard v ∧ v.events = earlier ∧
            v.shared = l.before := by
  obtain ⟨between, l, earlier, he, htask, hold, hnew⟩ :=
    track_origin (P := fun heard : Heard => heard.found = some found) (by simp [unheard]) hfound
  obtain ⟨v, env, rest, s, hv, hevents, hshared, -, -, hexec⟩ := reachable_event h he
  have hpre := obeyed_as h hi he htask
  obtain ⟨task, request', op, reply, shared⟩ := l
  cases op with
  | lookup token =>
      simp only [hear, Option.some.injEq] at hnew
      simp only [exec, Option.some.injEq, Prod.mk.injEq] at hexec
      exact ⟨token, between, _, earlier, hpre.1, he, htask, rfl, hexec.1.trans hnew, v, hv, hevents,
        hshared⟩
  | _ => exact absurd hnew hold

/-- What was heard of the limiter is what it had room for. -/
theorem checked_by (h : Reachable (machine (server d)) guard w) {request : Request}
    (hi : requestOf w i = some request) {checked : Except ApiError Unit}
    (hchecked : (heardOf i w.events).checked = some checked) : ∃ key, ∃ c ∈ w.events, ∃ now,
      (presented d request).map idOf = some key ∧ c.task = i ∧ c.op = .limiterCheck key now ∧
        (c.before.limiter.check key now).1 = checked := by
  obtain ⟨between, c, earlier, he, htask, hold, hnew⟩ :=
    track_origin (P := fun heard : Heard => heard.checked = some checked) (by simp [unheard]) hchecked
  obtain ⟨v, env, rest, s, -, -, -, -, -, hexec⟩ := reachable_event h he
  have hpre := obeyed_as h hi he htask
  have hmem : c ∈ w.events := by simp [he]
  obtain ⟨task, request', op, reply, shared⟩ := c
  cases op with
  | limiterCheck key now =>
      simp only [hear, Option.some.injEq] at hnew
      simp only [exec, Option.some.injEq, Prod.mk.injEq] at hexec
      exact ⟨key, _, hmem, now, hpre.1, htask, rfl, hexec.1.trans hnew⟩
  | _ => exact absurd hnew hold

theorem isNone_check {l : RateLimiter} {key : String} {now : ℕ} :
    (l.check key now).1.toOption.isNone = !hasRoom l key now := by
  rw [check_eq]
  cases hasRoom l key now <;> rfl

/-- Every answer is the verdict of the guards on what is true of its token. -/
theorem judged_of_reachable (h : Reachable (machine (server d)) guard w) {response : Response}
    (he : w.events = after ++ e :: before) (hop : e.op = .respond response) :
    Judged e before response (heardOf e.task before).live (heardOf e.task before).full := by
  obtain ⟨v, env, rest, s, hv, rfl, -, htask, -, -⟩ := reachable_event h he
  have hi : requestOf v e.task = some e.request := by rw [requestOf, htask, Option.map_some]
  have htold : Told d e.request (heardOf e.task v.events) response.body := by
    have hpre : (conduct d e.request).pre (heardOf e.task v.events) e.op :=
      obeyed (serve_conduct d) (sound d guard) h after e v.events he
    rw [hop] at hpre
    exact hpre
  have hlive {record : TokenRecord} (hrecord : (heardOf e.task v.events).live = some record) :
      (heardOf e.task v.events).found = some (.ok record) := by
    obtain ⟨found, hfound, hok⟩ := Option.bind_eq_some_iff.mp hrecord
    cases found with
    | error e => cases hok
    | ok r =>
        cases hok
        exact hfound
  have hnotoken (hnone : presented d e.request = none) : (heardOf e.task v.events).found = none := by
    refine Option.eq_none_iff_forall_ne_some.mpr fun found hfound => ?_
    obtain ⟨token, -, -, -, htoken, -⟩ := found_by hv hi hfound
    rw [hnone] at htoken
    cases htoken
  refine ⟨htold.verdict, fun hnone => ⟨?_, ?_⟩, fun token htoken => ?_,
    fun token record htoken hrecord => ?_, fun hnone => ?_⟩
  · rw [Heard.live, hnotoken hnone, Option.bind_none]
  · have hcount := lookups_count hv hi
    rw [hnotoken hnone] at hcount
    exact List.eq_nil_of_length_eq_zero hcount.symm
  · obtain ⟨found, hfound⟩ := Option.isSome_iff_exists.mp (htold.found (by rw [htoken]; rfl))
    obtain ⟨token', between, l, earlier, htoken', hsplit, hli, hlookup, hreply, u, hu, hevents,
      hshared⟩ := found_by hv hi hfound
    rw [htoken, Option.some.injEq] at htoken'
    subst htoken'
    have hone := lookups_count hv hi
    rw [hfound] at hone
    have hsingle := callsOf_single hone (by simp [hsplit]) hli (by rw [hlookup]; rfl)
    refine ⟨between, l, earlier, hsplit, hsingle, hlookup, fun record => ?_⟩
    have hiff := lookup_live_iff hu token record
    rw [hshared, hevents, hreply] at hiff
    rw [← hiff, Heard.live, hfound]
    cases found <;> simp [Except.toOption]
  · obtain ⟨checked, hchecked⟩ :=
      Option.isSome_iff_exists.mp (htold.checked (by rw [hrecord]; rfl))
    obtain ⟨key, c, hc, now, hkey, hci, hlimiter, hreply⟩ := checked_by hv hi hchecked
    rw [htoken, Option.map_some, Option.some.injEq] at hkey
    subst hkey
    have hone := checks_count hv hi
    rw [hchecked] at hone
    refine ⟨c, now, callsOf_single hone hc hci (by rw [hlimiter]; rfl), hlimiter, ?_⟩
    rw [Heard.full, hchecked, Option.bind_some, ← hreply, isNone_check]
  · have hunchecked : (heardOf e.task v.events).checked.isSome = false := by
      refine Bool.eq_false_iff.mpr fun hchecked => ?_
      have hlive := live_of_checked hv hi hchecked
      rw [hnone] at hlive
      cases hlive
    have hcount := checks_count hv hi
    rw [hunchecked] at hcount
    exact List.eq_nil_of_length_eq_zero hcount.symm

end

/-- Every answer of a run is judged so, and nothing is asked for its request after it. -/
theorem every_answer_judged (d : Deployment) (w : World (server d))
    (h : Reachable (machine (server d)) anyStep w) (after before : List (Event (server d)))
    (e : Event (server d)) (response : Response) (he : w.events = after ++ e :: before)
    (hop : e.op = .respond response) : ∃ live full, Judged e before response live full ∧
      callsOf isLookup e.task after = [] ∧ callsOf isCheck e.task after = [] := by
  refine ⟨_, _, judged_of_reachable h he hop, ?_, ?_⟩
  · exact List.filter_eq_nil_iff.mpr fun o ho => by
      simpa using fun htask => (unasked_after h he hop ho htask).1
  · exact List.filter_eq_nil_iff.mpr fun o ho => by
      simpa using fun htask => (unasked_after h he hop ho htask).2

/-! ## A token without the scope -/

/-- The last call answers with this guard's error. -/
def endsWith (e : ApiError) (w : World (server d)) : Bool :=
  match w.events with
  | [] => false
  | last :: _ =>
      match last.op with
      | .respond response => guardError response.body = some e
      | _ => false

theorem answer_of_endsWith {e : ApiError} {w : World (server d)} (h : endsWith e w = true) :
    ∃ last before response, w.events = last :: before ∧ last.op = .respond response ∧
      guardError response.body = some e := by
  unfold endsWith at h
  split at h
  · cases h
  · next last before hevents =>
      split at h
      · next response hop => exact ⟨last, before, response, hevents, hop, by simpa using h⟩
      · cases h

def wrongScope : List (Label (server firstLaunch)) :=
  handshakeRun 0 "a" [.runPython] ++
    .arrive 1 (addinRequest .aiCostToday "/ai/cost/today" (some "a") ()) :: calls 1 5 {}

theorem scopeDenied_judged : ∃ w e before response live full,
    Reachable (machine (server firstLaunch)) anyStep w ∧ w.events = e :: before ∧
      guardError response.body = some .scopeDenied ∧ Judged e before response live full := by
  obtain ⟨w, hw, ht⟩ := replay_reaches (machine (server firstLaunch)) anyStep unchecked wrongScope
    (endsWith .scopeDenied) (fun _ _ _ => trivial) (by decide +kernel)
  obtain ⟨e, before, response, hevents, hop, hbody⟩ := answer_of_endsWith ht
  obtain ⟨live, full, hjudged, -⟩ :=
    every_answer_judged firstLaunch w hw [] before e response hevents hop
  exact ⟨w, e, before, response, live, full, hw, hevents, hbody, hjudged⟩

end Xlpod.Verdicts
