import Xlpod.Footprints
import Xlpod.Bursts

/-!
# Whose audit entry it is

`bearer_guard` puts the id of a live token on the response once the request has
come back from the inner layers. The limiter refuses before that, so the entry
of a limited request has no id; every other entry tells the token it was made
with. The standing of a request is how far it came in the guard.
-/
namespace Xlpod.Attribution
open Xlpod.ApiErrors Xlpod.Auth Xlpod.GuardedRuns Xlpod.Programs Xlpod.Interleaving
open Xlpod.ServerState Xlpod.Server Xlpod.Footprints Xlpod.RateWindow
open Xlpod.Bursts

/-! ## Requests with a token -/

def accessOf (request : Request) : Option Access :=
  match route request.method request.path with
  | .notFound => none
  | .notAllowed access => some access
  | .found r => some r.access

def passesFront (d : Deployment) (request : Request) : Bool :=
  request.host.any d.allowedHosts.contains && request.origin.any allowedOrigins.contains

/-- The token of a request that gets as far as `bearer_guard`. -/
def presented (d : Deployment) (request : Request) : Option String :=
  match accessOf request with
  | some (.bearer _) => if passesFront d request then bearerToken request else none
  | _ => none

theorem bearer_of_presented {d : Deployment} {request : Request} {token : String}
    (h : presented d request = some token) : bearerToken request = some token := by
  unfold presented at h
  split at h
  · split at h
    · exact h
    · cases h
  · cases h

def isLive (s : AppState) (token : String) : Bool :=
  match s.tokens.lookup s.now token with
  | .ok _ => true
  | .error _ => false

section
variable {d : Deployment}

/-- The guard's lookup of the token a request presents. -/
def Looked (i : ℕ) (token : String) (events : List (Event (server d))) (l : Event (server d)) :
    Prop :=
  l ∈ events ∧ l.task = i ∧ l.op = .lookup token

/-- The entry names the token, when it was live, and no other. -/
def Attributed (e : Event (server d)) (before : List (Event (server d))) (entry : AuditEntry) :
    Prop :=
  match presented d e.request with
  | none => entry.tokenId = none
  | some token => (∃ l, Looked e.task token before l) ∧ ∀ l, Looked e.task token before l →
      entry.tokenId = if isLive l.before token then some (idOf token) else none

/-- Whenever the task asked the limiter, there was room for it. -/
def Roomy (i : ℕ) (events : List (Event (server d))) : Prop :=
  ∀ c ∈ events, c.task = i → ∀ key now, c.op = .limiterCheck key now →
    hasRoom c.before.limiter key now = true

/-- A property of every entry that was written, with the calls before it. -/
def EachEntry (P : Event (server d) → List (Event (server d)) → AuditEntry → Prop)
    (w : World (server d)) : Prop :=
  ∀ after e before entry, w.events = after ++ e :: before → e.op = .auditWrite entry →
    P e before entry

end

/-! ## The protocol -/

inductive Standing
  | unknown
  | refused
  | live
  | limited
  | admitted
deriving DecidableEq

def idIn (d : Deployment) (request : Request) (standing : Standing) : Option String :=
  if standing = .admitted then (presented d request).map idOf else none

/-- A request with a token has been through the guard. -/
def Settled (d : Deployment) (request : Request) (standing : Standing) : Prop :=
  if (presented d request).isSome then standing ≠ .unknown ∧ standing ≠ .live
  else standing = .unknown

def conduct (d : Deployment) (request : Request) : Contract api Standing where
  pre standing op :=
    match op with
    | .lookup token => standing = .unknown ∧ presented d request = some token
    | .limiterCheck key _ => standing = .live ∧ (presented d request).map idOf = some key
    | .auditWrite entry => entry.tokenId = idIn d request standing ∧ Settled d request standing
    | _ => True
  fact _ _ _ := True
  next standing op r :=
    match op, r with
    | .lookup _, .ok _ => .live
    | .lookup _, .error _ => .refused
    | .limiterCheck _ _, .ok _ => .admitted
    | .limiterCheck _ _, .error _ => .limited
    | _, _ => standing

def protocol (d : Deployment) : Protocol (server d) Standing where
  contract := conduct d
  start _ := .unknown
  post _ _ := True

theorem sound (d : Deployment) (guard : World (server d) → Label (server d) → Prop) :
    Sound (protocol d) guard :=
  fun _ _ _ _ _ _ _ _ _ _ _ _ => trivial

/-- What happens behind the guard. -/
def backOps : Op → Prop
  | .lookup _ | .limiterCheck _ _ => False
  | .respond _ | .auditLock | .auditWrite _ | .auditFlush => False
  | _ => True

section
variable {d : Deployment} {request : Request} {standing : Standing}

theorem ignores_back : Ignores (conduct d request) backOps := by
  intro g op ho
  cases op <;> first | exact ho.elim | exact ⟨trivial, fun _ => rfl⟩

theorem handler_back (origin : Option String) (token : Option TokenRecord) (r : Route)
    (input : r.Input) : Uses (I := api) backOps (handler d origin token r input).run := by
  refine (handler_uses d origin token r input).mono fun op ho => ?_
  cases r <;> cases op <;> first | exact ho.elim | trivial

theorem handle_meets (r : Route) (token : Option TokenRecord) :
    Meets (conduct d request) (handle d request r token) standing fun g response =>
      g = standing ∧ response.tokenId = none := by
  unfold handle
  split
  · exact ⟨rfl, rfl⟩
  · next input _ =>
      apply meets_bind.mpr
      refine (ignores_back.meets (handler_back request.origin token r input)).mono fun g x hg => ?_
      refine ⟨hg, ?_⟩
      cases x <;> rfl

/-- The middleware around a handler, or none for an unknown path. -/
theorem innerService_cases (d : Deployment) (request : Request) :
    (accessOf request = none ∧ innerService d request = pure ⟨404, none, .rejection⟩) ∨
      ∃ access next, accessOf request = some access ∧
        innerService d request = guarded d request access next ∧
          ∀ token standing, Meets (conduct d request) (next token) standing fun g response =>
            g = standing ∧ response.tokenId = none := by
  rw [innerService, accessOf]
  cases route request.method request.path with
  | notFound => exact .inl ⟨rfl, rfl⟩
  | notAllowed access => exact .inr ⟨access, _, rfl, rfl, fun _ _ => ⟨rfl, rfl⟩⟩
  | found r => exact .inr ⟨r.access, _, rfl, rfl, fun token _ => handle_meets r token⟩

/-- The host and origin guards let the request through or answer it. -/
theorem front_cases (d : Deployment) (request : Request) (next : Server Response) :
    (passesFront d request = true ∧ hostGuard d request (originGuard request next) = next) ∨
      (passesFront d request = false ∧ ∃ e,
        hostGuard d request (originGuard request next) = pure (errorResponse e)) := by
  rw [passesFront, hostGuard, originGuard]
  cases request.host with
  | none => exact .inr ⟨rfl, _, rfl⟩
  | some host =>
      cases request.origin with
      | none =>
          refine .inr ⟨Bool.and_false _, ?_⟩
          by_cases hhost : d.allowedHosts.contains host = true
          · exact ⟨_, if_pos hhost⟩
          · exact ⟨_, if_neg hhost⟩
      | some origin =>
          simp only [Option.any_some]
          cases d.allowedHosts.contains host with
          | false => exact .inr ⟨rfl, _, rfl⟩
          | true =>
              cases allowedOrigins.contains origin with
              | false => exact .inr ⟨rfl, _, rfl⟩
              | true => exact .inl ⟨rfl, rfl⟩

/-- What the guards and the handlers make of a request. -/
def Answered (d : Deployment) (request : Request) (standing : Standing) (response : Response) :
    Prop :=
  response.tokenId = idIn d request standing ∧ Settled d request standing

theorem answered_outside (h : presented d request = none) {response : Response}
    (hid : response.tokenId = none) : Answered d request .unknown response := by
  simp [Answered, Settled, idIn, h, hid]

theorem requireScope_meets {need : Option Scope} {record : TokenRecord} {next : Server Response}
    (h : Meets (conduct d request) next standing fun g response =>
      g = standing ∧ response.tokenId = none) :
    Meets (conduct d request) (requireScope need record next) standing fun g response =>
      g = standing ∧ response.tokenId = none := by
  unfold requireScope
  cases need with
  | none => exact h
  | some scope => exact meets_ite.mpr ⟨fun _ => h, fun _ => ⟨rfl, rfl⟩⟩

theorem bearerGuard_meets {token : String} (hpresented : presented d request = some token)
    (hbearer : bearerToken request = some token) {next : TokenRecord → Server Response}
    (h : ∀ record standing, Meets (conduct d request) (next record) standing fun g response =>
      g = standing ∧ response.tokenId = none) :
    Meets (conduct d request) (bearerGuard request next) .unknown (Answered d request) := by
  have hsettled {standing : Standing} (hunknown : standing ≠ .unknown) (hlive : standing ≠ .live) :
      Settled d request standing := by
    simp [Settled, hpresented, hunknown, hlive]
  rw [bearerGuard, hbearer]
  refine ⟨⟨rfl, hpresented⟩, fun found _ => ?_⟩
  cases found with
  | error e => exact ⟨rfl, hsettled (by simp [conduct]) (by simp [conduct])⟩
  | ok record =>
      refine ⟨trivial, fun now _ => ⟨⟨rfl, by rw [hpresented]; rfl⟩, fun checked _ => ?_⟩⟩
      cases checked with
      | error e => exact ⟨rfl, hsettled (by simp [conduct]) (by simp [conduct])⟩
      | ok _ =>
          change Meets _ (next record >>= _) _ _
          apply meets_bind.mpr
          refine (h record .admitted).mono fun g response hg => ?_
          rw [hg.1]
          exact ⟨by simp [idIn, hpresented], hsettled (by simp) (by simp)⟩

theorem guarded_meets {access : Access} {next : Option TokenRecord → Server Response}
    (haccess : accessOf request = some access)
    (h : ∀ token standing, Meets (conduct d request) (next token) standing fun g response =>
      g = standing ∧ response.tokenId = none) :
    Meets (conduct d request) (guarded d request access next) .unknown (Answered d request) := by
  have hopen (hnone : presented d request = none) :
      Meets (conduct d request) (next none) .unknown (Answered d request) := by
    refine (h none .unknown).mono fun g response hg => ?_
    rw [hg.1]
    exact answered_outside hnone hg.2
  cases access with
  | publicOpen => exact hopen (by rw [presented, haccess])
  | publicOrigin =>
      have hnone : presented d request = none := by rw [presented, haccess]
      rw [guarded]
      rcases front_cases d request (next none) with ⟨-, heq⟩ | ⟨-, e, heq⟩
      · rw [heq]
        exact hopen hnone
      · rw [heq]
        exact answered_outside hnone rfl
  | bearer need =>
      rw [guarded]
      rcases front_cases d request (bearerGuard request _) with ⟨hpass, heq⟩ | ⟨hpass, e, heq⟩
      · have hpresented : presented d request = bearerToken request := by
          rw [presented, haccess, hpass, if_pos rfl]
        rw [heq]
        cases hbearer : bearerToken request with
        | none =>
            rw [bearerGuard, hbearer]
            exact answered_outside (hpresented.trans hbearer) rfl
        | some token =>
            exact bearerGuard_meets (hpresented.trans hbearer) hbearer fun record _ =>
              requireScope_meets (h (some record) _)
      · rw [heq]
        exact answered_outside (by rw [presented, haccess, hpass]; rfl) rfl

theorem serve_conduct (d : Deployment) (request : Request) :
    Meets (conduct d request) ((server d).serve request) .unknown fun _ _ => True := by
  have hinner : Meets (conduct d request) (innerService d request) .unknown
      (Answered d request) := by
    rcases innerService_cases d request with ⟨hnone, heq⟩ | ⟨access, next, hsome, heq, hnext⟩
    · rw [heq]
      exact answered_outside (by simp [presented, hnone]) rfl
    · rw [heq]
      exact guarded_meets hsome hnext
  refine meets_bind.mpr ⟨trivial, fun start _ => meets_bind.mpr (hinner.mono ?_)⟩
  rintro standing response ⟨hid, hsettled⟩
  refine meets_bind.mpr ⟨trivial, fun _ _ => meets_bind.mpr ⟨trivial, fun finish _ => ?_⟩⟩
  refine meets_bind.mpr ⟨trivial, fun now _ => meets_bind.mpr ⟨trivial, fun _ _ => ?_⟩⟩
  exact meets_bind.mpr ⟨⟨hid, hsettled⟩, fun _ _ => ⟨trivial, fun _ _ => trivial⟩⟩

/-! ## The entries -/

variable {i : ℕ} {events : List (Event (server d))}

/-- What the standing of a request says of its calls. -/
structure Explains (request : Request) (i : ℕ) (events : List (Event (server d)))
    (standing : Standing) : Prop where
  fresh : standing = .unknown → ∀ l ∈ events, l.task = i → ∀ token, l.op ≠ .lookup token
  looked : standing ≠ .unknown → ∃ token, presented d request = some token ∧
    (∃ l, Looked i token events l) ∧
      ∀ l, Looked i token events l → isLive l.before token = decide (standing ≠ .refused)
  roomy : Roomy i events ↔ standing ≠ .limited

variable {e : Event (server d)}

theorem looked_skip {token : String} (h : ¬ (e.task = i ∧ e.op = .lookup token))
    {l : Event (server d)} : Looked i token (e :: events) l ↔ Looked i token events l := by
  rw [Looked, List.mem_cons]
  constructor
  · rintro ⟨rfl | hl, hi, hop⟩
    · exact absurd ⟨hi, hop⟩ h
    · exact ⟨hl, hi, hop⟩
  · rintro ⟨hl, hi, hop⟩
    exact ⟨.inr hl, hi, hop⟩

theorem roomy_cons : Roomy i (e :: events) ↔ (e.task = i → ∀ key now,
    e.op = .limiterCheck key now → hasRoom e.before.limiter key now = true) ∧ Roomy i events :=
  List.forall_mem_cons

theorem roomy_skip (h : ∀ key now, ¬ (e.task = i ∧ e.op = .limiterCheck key now)) :
    Roomy i (e :: events) ↔ Roomy i events :=
  roomy_cons.trans (and_iff_right fun hi key now hop => absurd ⟨hi, hop⟩ (h key now))

theorem Explains.skip (h : Explains request i events standing)
    (hlook : ∀ token, ¬ (e.task = i ∧ e.op = .lookup token))
    (hcheck : ∀ key now, ¬ (e.task = i ∧ e.op = .limiterCheck key now)) :
    Explains request i (e :: events) standing := by
  refine ⟨fun hfresh l hl hi token hop => ?_, fun hknown => ?_, (roomy_skip hcheck).trans h.roomy⟩
  · rcases List.mem_cons.mp hl with rfl | hl
    · exact hlook token ⟨hi, hop⟩
    · exact h.fresh hfresh l hl hi token hop
  · obtain ⟨token, hpresented, hlooked⟩ := h.looked hknown
    refine ⟨token, hpresented, ?_⟩
    simp only [looked_skip (hlook token)]
    exact hlooked

theorem Explains.lookup {token : String} {found : Except ApiError TokenRecord} {s : AppState}
    (h : Explains request i events .unknown) (hpresented : presented d request = some token)
    (hfound : s.tokens.lookup s.now token = found) :
    Explains request i (⟨i, request, .lookup token, found, s⟩ :: events)
      ((conduct d request).next .unknown (.lookup token) found) := by
  have hlive : isLive s token =
      decide ((conduct d request).next .unknown (.lookup token) found ≠ .refused) := by
    rw [isLive, hfound]
    cases found <;> rfl
  have hroomy : Roomy i (⟨i, request, .lookup token, found, s⟩ :: events) ↔
      Standing.unknown ≠ .limited := by
    refine (roomy_skip ?_).trans h.roomy
    rintro key now ⟨-, hop⟩
    cases hop
  refine ⟨fun hfresh => ?_, fun _ => ⟨token, hpresented, ⟨_, List.mem_cons_self, rfl, rfl⟩, ?_⟩, ?_⟩
  · cases found <;> cases hfresh
  · rintro l ⟨hl, hi, hop⟩
    rcases List.mem_cons.mp hl with rfl | hl
    · exact hlive
    · exact absurd hop (h.fresh rfl l hl hi token)
  · rw [hroomy]
    cases found <;> simp [conduct]

theorem Explains.check {key : String} {now : ℕ} {checked : Except ApiError Unit} {s : AppState}
    (h : Explains request i events .live) (hchecked : (s.limiter.check key now).1 = checked) :
    Explains request i (⟨i, request, .limiterCheck key now, checked, s⟩ :: events)
      ((conduct d request).next .live (.limiterCheck key now) checked) := by
  obtain ⟨token, hpresented, hlooked⟩ := h.looked (by simp)
  have hskip {l : Event (server d)} :
      Looked i token (⟨i, request, .limiterCheck key now, checked, s⟩ :: events) l ↔
        Looked i token events l := by
    refine looked_skip ?_
    rintro ⟨-, hop⟩
    cases hop
  refine ⟨fun hfresh => ?_, fun _ => ⟨token, hpresented, ?_⟩, ?_⟩
  · cases checked <;> cases hfresh
  · simp only [hskip]
    refine ⟨hlooked.1, fun l hl => (hlooked.2 l hl).trans ?_⟩
    cases checked <;> rfl
  · have hroom : hasRoom s.limiter key now = true ↔ checked = .ok () := by
      rw [← hchecked, check_ok_iff]
    rw [roomy_cons, and_iff_left (h.roomy.mpr (by simp))]
    cases checked <;> simp_all [conduct]

/-- Every reply is the one the state gives. -/
def Answers (e : Event (server d)) : Prop := ∃ env s, exec e.before env e.op = some (e.reply, s)

theorem explains (hanswers : ∀ e ∈ events, Answers e)
    (hrequest : ∀ e ∈ events, e.task = i → e.request = request)
    (hobey : ∀ after e before, events = after ++ e :: before → e.task = i →
      (conduct d request).pre ((protocol d).ghost request i before) e.op) :
    Explains request i events ((protocol d).ghost request i events) := by
  induction events with
  | nil => exact ⟨by simp, fun h => absurd rfl h, by simp [Roomy, Protocol.ghost, track, protocol]⟩
  | cons e es ih =>
      have hes := ih (fun e he => hanswers e (by simp [he]))
        (fun e he => hrequest e (by simp [he])) fun after e' before he =>
          hobey (e :: after) e' before (by simp [he])
      by_cases hi : e.task = i
      · have hpre := hobey [] e es rfl hi
        have hreq := hrequest e (by simp) hi
        obtain ⟨env, s', hexec⟩ := hanswers e (by simp)
        rw [Protocol.ghost, track_self hi]
        rw [Protocol.ghost] at hes hpre
        generalize track _ _ _ _ = standing at hes hpre ⊢
        obtain ⟨task, request', op, reply, s⟩ := e
        subst hi hreq
        cases op with
        | lookup token =>
            obtain ⟨rfl, hpresented⟩ := hpre
            exact hes.lookup hpresented (congrArg Prod.fst (Option.some.inj hexec))
        | limiterCheck key now =>
            obtain ⟨rfl, -⟩ := hpre
            exact hes.check (congrArg Prod.fst (Option.some.inj hexec))
        | _ => exact hes.skip (by simp) (by simp)
      · rw [Protocol.ghost, track_other hi]
        exact hes.skip (fun token hl => hi hl.1) fun key now hc => hi hc.1

theorem Explains.attributed (h : Explains e.request e.task events standing) {entry : AuditEntry}
    (hid : entry.tokenId = idIn d e.request standing) (hsettled : Settled d e.request standing) :
    Attributed e events entry ↔ Roomy e.task events := by
  rw [Attributed, h.roomy, hid, idIn]
  rw [Settled] at hsettled
  cases hpresented : presented d e.request with
  | none =>
      rw [hpresented] at hsettled
      simp [show standing = .unknown from hsettled]
  | some token =>
      rw [hpresented] at hsettled
      obtain ⟨token', hpresented', hlooked, hlive⟩ := h.looked hsettled.1
      rw [hpresented, Option.some.injEq] at hpresented'
      subst hpresented'
      obtain ⟨l, hl⟩ := hlooked
      have hrest (h : ∀ l, Looked e.task token events l →
          (if standing = .admitted then some (idOf token) else none) =
            if isLive l.before token then some (idOf token) else none) :
          standing ≠ .limited := by
        rintro rfl
        have hnone := h l hl
        rw [hlive l hl] at hnone
        cases hnone
      refine ⟨fun hall => hrest hall.2, fun hroom => ⟨⟨l, hl⟩, fun l hl => ?_⟩⟩
      rw [hlive l hl]
      cases standing with
      | unknown => exact absurd rfl hsettled.1
      | live => exact absurd rfl hsettled.2
      | limited => exact absurd rfl hroom
      | _ => rfl

end

theorem allowed {d : Deployment} {w : World (server d)}
    (h : Reachable (machine (server d)) anyStep w) {after before : List (Event (server d))}
    {e : Event (server d)} (he : w.events = after ++ e :: before) :
    (conduct d e.request).pre ((protocol d).ghost e.request e.task before) e.op :=
  obeyed (serve_conduct d) (sound d anyStep) h after e before he

/-- In every run, an audit entry names the live token of its request exactly when
the limiter had room for that request. -/
theorem attributed_iff {d : Deployment} {w : World (server d)}
    (h : Reachable (machine (server d)) anyStep w) :
    EachEntry (fun e before entry => Attributed e before entry ↔ Roomy e.task before) w := by
  intro after e before entry he hop
  have hpre := allowed h he
  rw [hop] at hpre
  have hbefore {e' : Event (server d)} (he' : e' ∈ before) : e' ∈ w.events := by simp [he, he']
  have hsame {e' : Event (server d)} (he' : e' ∈ before) (hi : e'.task = e.task) :
      e'.request = e.request := by
    have hself := reachable_recorded h e (by simp [he])
    have hother := reachable_recorded h e' (hbefore he')
    rw [hi, hself, Option.some.injEq] at hother
    exact hother.symm
  have hexplains : Explains e.request e.task before
      ((protocol d).ghost e.request e.task before) := by
    apply explains
    · intro e' he'
      obtain ⟨after', before', hsplit⟩ := List.append_of_mem (hbefore he')
      obtain ⟨v, env, rest, s, -, -, -, -, -, hexec⟩ := reachable_event h hsplit
      exact ⟨env, s, hexec⟩
    · exact fun e' he' hi => hsame he' hi
    · intro after' e' before' he' hi
      have hsplit : w.events = (after ++ e :: after') ++ e' :: before' := by simp [he, he']
      have hpre' := allowed h hsplit
      rw [hi, hsame (by simp [he']) hi] at hpre'
      exact hpre'
  exact hexplains.attributed hpre.1 hpre.2

/-- A token is used once, and its id is written. -/
def namedTest (w : World (server firstLaunch)) : Bool :=
  w.events.any fun e =>
    match e.op with
    | .auditWrite entry => entry.tokenId = some "tok"
    | _ => false

theorem attributed_version : ∃ w, Reachable (machine (server firstLaunch)) anyStep w ∧
    namedTest w = true ∧
      EachEntry (fun e before entry => Attributed e before entry ↔ Roomy e.task before) w := by
  obtain ⟨w, hw, ht⟩ := replay_reaches (machine (server firstLaunch)) anyStep unchecked
    (handshakeRun 0 "tok" [.aiProviderCall] ++ .arrive 1 versionRequest :: calls 1 9 {})
    namedTest (fun _ _ _ => trivial) (by decide +kernel)
  exact ⟨w, hw, ht, attributed_iff hw⟩

/-! ## A limited request -/

/-- A refused request is over, and its entry has no id. -/
theorem exists_refused {i now start : ℕ} {admitted : Server Unit} {w : World (server firstLaunch)}
    (hi : w.tasks i = some ⟨versionRequest,
      some (.call (.limiterCheck (idOf "tok") now) (judged start admitted))⟩)
    (hfull : hasRoom w.shared.limiter (idOf "tok") now = false) :
    ∃ v s entry before, Run (machine (server firstLaunch)) anyStep w v ∧ entry.tokenId = none ∧
      v.events = event i s (.auditWrite entry) none :: (before ++ w.events) := by
  let env : Environment := {}
  have hexec : ∃ s, exec w.shared env (.limiterCheck (idOf "tok") now) =
      some (.error .rateLimited, s) := by
    rw [exec, check_eq, hfull]
    exact ⟨_, rfl⟩
  obtain ⟨s, hexec⟩ := hexec
  have hcalls : Advances (server firstLaunch) i versionRequest
      (.call (.limiterCheck (idOf "tok") now) (judged start admitted)) w.shared _ _ _ :=
    .call env hexec (.call env rfl (.call env rfl (.call env rfl (.call env rfl (.call env rfl
      (.stay _ _))))))
  obtain ⟨v, hv⟩ := hcalls.moved hi rfl
  exact ⟨v, _, _, _, hv.run, rfl, hv.events⟩

/-- The hundred and first request within a second has a live token and an entry
without its id. -/
theorem limited_unattributed :
    ∃ w, Reachable (machine (server firstLaunch)) anyStep w ∧ ¬ EachEntry Attributed w := by
  obtain ⟨w, hw⟩ := exists_granted
  obtain ⟨record, hlive⟩ := hw.record
  obtain ⟨v, hv⟩ := exists_burst (hlive _ (Nat.le_add_right ..)) hw.empty hw.fresh rateLimitPerSec
    (Nat.le_refl _)
  have hlive' : v.shared.tokens.lookup v.shared.now "tok" = .ok record := by
    rw [hv.tokens, hv.clock]
    exact hlive _ (Nat.le_add_right ..)
  obtain ⟨u, start, admitted, hu⟩ := exists_held (hv.fresh _ (Nat.le_refl _)) hlive'
  have hfull : hasRoom u.shared.limiter (idOf "tok") v.shared.now = false := by
    rw [hu.shared, hasRoom, hv.bucket, hv.clock, live_replicate, List.length_replicate]
    exact decide_eq_false (Nat.lt_irrefl _)
  obtain ⟨u', s, entry, before, hrefused, hid, hevents⟩ := exists_refused hu.task hfull
  refine ⟨u', hw.reachable.run (hv.run.trans (hu.run.trans hrefused)), fun hall => ?_⟩
  have hentry := hall [] _ _ entry hevents rfl
  have hpresented : presented firstLaunch versionRequest = some "tok" := by decide +kernel
  rw [Attributed, event, hpresented, hid] at hentry
  have hlooked := hentry.2 (event (1 + rateLimitPerSec) v.shared (.lookup "tok") (.ok record))
    ⟨List.mem_append_right _ (by simp [hu.events, asking]), rfl, rfl⟩
  rw [event, isLive, hlive'] at hlooked
  cases hlooked

end Xlpod.Attribution
