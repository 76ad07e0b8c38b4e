import Xlpod.Provenance

/-!
# Complete mediation

A handler shows itself by the calls it makes, or, where it makes none, by an
answer that no guard gives. Behind the guarded routers it does so only for a
request whose host and origin are allowed and whose token was issued to an
earlier handshake, had not expired when it was looked up, and has the scope
the route demands. Until then a request can only touch the limiter and the log.
-/
namespace Xlpod.Mediation
open Xlpod.ApiErrors Xlpod.Auth Xlpod.AiTypes Xlpod.BundlePayload Xlpod.GuardedRuns Xlpod.Programs
open Xlpod.Interleaving Xlpod.SessionStores Xlpod.ServerState Xlpod.ServerCalls Xlpod.ToolDispatch
open Xlpod.ChatRoute Xlpod.Routes Xlpod.Server Xlpod.Footprints Xlpod.Serving Xlpod.Provenance
open SessionEscalation (note recordOf)

/-! ## What a handler shows -/

/-- The errors of the guards. -/
def guards : ApiError → Bool
  | .hostNotAllowed | .originNotAllowed | .unauthorized | .rateLimited | .scopeDenied => true
  | _ => false

/-- The answers of the guards, the router and the extractors. -/
def refusal : ResponseBody → Bool
  | .error e => guards e
  | .rejection => true
  | _ => false

/-- Only a handler does this. -/
def shows : Op → Bool
  | .respond response => !refusal response.body
  | .instant | .lookup _ | .limiterCheck _ _ | .auditLock | .auditWrite _ | .auditFlush => false
  | _ => true

def Possible (op : Op) (r : op.Reply) : Prop :=
  ∃ (s : AppState) (env : Environment) (s' : AppState), exec s env op = some (r, s')

def replies : Contract api Unit where
  pre _ _ := True
  fact _ op r := Possible op r
  next _ _ _ := ()

/-- Its results are such values, and its errors not those of a guard. -/
def Answers {α : Type} (ok : α → Prop) (p : Handler α) : Prop :=
  Meets replies p.run () (OnResult (fun _ => ok) fun _ e => guards e = false)

/-- What `e` needed to get past the guards of a route that demands `need`. -/
structure Cleared {d : Deployment} (e : Event (server d)) (before : List (Event (server d)))
    (need : Option Scope) : Prop where
  host : ∃ host ∈ d.allowedHosts, e.request.host = some host
  origin : ∃ origin ∈ allowedOrigins, e.request.origin = some origin
  token : ∃ token record after l earlier, e.request.authorization = some ("Bearer " ++ token) ∧
    before = after ++ l :: earlier ∧ l.task = e.task ∧ foundBy l = some (token, record) ∧
      (∃ o ∈ earlier, (inputFor o.request .handshake).isSome ∧ issuedBy o = some (token, record) ∧
        l.before.now < o.before.now + tokenTtlSecs * nanosPerSec) ∧
      e.before.tokens token = some record ∧ ∀ scope, need = some scope → scope ∈ record.scopes

/-- The scope a route demands. -/
def need (r : Route) : Option Scope :=
  match r.access with
  | .bearer need => need
  | _ => none

/-- The same but for the limiter and the log. -/
def Spared (s s' : AppState) : Prop := s' = { s with limiter := s'.limiter, audit := s'.audit }

def Guarded (request : Request) (r : Route) : Prop :=
  route request.method request.path = .found r ∧ r ≠ .health ∧ r ≠ .handshake

structure Mediated {d : Deployment} (w : World (server d)) : Prop where
  routed : ∀ e ∈ w.events, shows e.op = true → ∃ r, route e.request.method e.request.path = .found r
  cleared : Throughout (fun e before => ∀ r, Guarded e.request r → shows e.op = true →
    Cleared e before (need r)) w.events
  refused : Throughout (fun e before => ∀ r, Guarded e.request r → ¬ Cleared e before (need r) →
    ∀ env reply s, exec e.before env e.op = some (reply, s) → Spared e.before s) w.events
  visible : ∀ origin token r input, Meets replies (handler d origin token r input).run ()
    fun _ x => refusal (bodyOf x) = false

/-! ### The handlers' answers -/

section
variable {α β : Type} {ok : α → Prop} {p : Handler α}

theorem replies_free (p : Server α) : Meets replies p () fun _ _ => True :=
  meets_free (fun _ _ => trivial) p ()

theorem Answers.lift (p : Server α) : Answers (fun _ => True) (liftM p : Handler α) :=
  meets_lift.mpr (replies_free p)

theorem Answers.bind {f : α → Handler β} {ok : β → Prop} (hp : Answers (fun _ => True) p)
    (hf : ∀ a, Answers ok (f a)) : Answers ok (p >>= f) := by
  refine meets_exceptBind.mpr (hp.mono fun _ r hr => ?_)
  cases r with
  | ok a => exact hf a
  | error e => exact hr

theorem Answers.okOr {e : ApiError} (he : guards e = false) (x : Option α) :
    Answers (fun _ => True) (okOr e x) :=
  meets_okOr.mpr ⟨fun _ _ => trivial, fun _ => he⟩

theorem Answers.ite {c : Prop} [Decidable c] {q : Handler α} (hp : Answers ok p)
    (hq : Answers ok q) : Answers ok (if c then p else q) :=
  meets_exceptIte.mpr ⟨fun _ => hp, fun _ => hq⟩

/-- A check, and the rest. -/
theorem Answers.unless {c : Prop} [Decidable c] {e : ApiError} {f : β → Handler α} {q : Handler α}
    (he : guards e = false) (hq : Answers ok q) : Answers ok (if c then throw e >>= f else q) :=
  meets_exceptIte.mpr ⟨fun _ => he, fun _ => hq⟩

theorem getSession_answers (id : Uuid) : Answers (fun _ => True) (orThrow (getSession id)) := by
  refine meets_orThrow.mpr ⟨trivial, fun r hr => ?_⟩
  obtain ⟨s, env, s', h⟩ := hr
  simp only [exec, Option.some.injEq, Prod.mk.injEq, SessionStore.get] at h
  obtain ⟨rfl, -⟩ := h
  split
  · trivial
  · rfl

theorem appendMessages_answers (id : Uuid) (author : Author) (messages : List ChatMessage) :
    Answers (fun _ => True) (orThrow (appendMessages id author messages)) := by
  refine meets_orThrow.mpr ⟨trivial, fun r hr => ?_⟩
  obtain ⟨s, env, s', h⟩ := hr
  simp only [exec, Option.some.injEq, Prod.mk.injEq, SessionStore.appendMessages] at h
  obtain ⟨rfl, -⟩ := h
  split
  · rfl
  · trivial

theorem readUnderRoots_answers (requested : String) (roots : List PathBuf) :
    Answers (fun _ => True) (readUnderRoots requested roots) := by
  unfold readUnderRoots
  refine .unless rfl (.bind (.lift _) fun canonical => .bind (.okOr rfl _) fun canonical => ?_)
  refine .unless rfl (.bind (.lift _) fun metadata => .bind (.okOr rfl _) fun metadata => ?_)
  refine .unless rfl (.unless rfl (.bind (.lift _) fun bytes => .bind (.okOr rfl _) fun bytes => ?_))
  trivial

theorem readReply_answers (r : ReadOutcome) : Answers (fun _ => True) (readReply r) := by
  cases r with
  | timeout => exact .bind (.lift _) fun _ => rfl
  | line parsed => exact .okOr rfl parsed
  | _ => rfl

theorem workerCall_answers (method : String) (params : PyJson) :
    Answers (fun _ => True) (workerCall method params) := by
  unfold workerCall
  refine .bind (.lift _) fun locked => .unless rfl ?_
  refine .bind (.lift _) fun written => .unless rfl ?_
  refine .bind (.lift _) fun flushed => .unless rfl ?_
  exact .bind (.lift _) readReply_answers

theorem workerExec_answers (code : String) : Answers (fun _ => True) (workerExec code) :=
  .bind (workerCall_answers _ _) fun _ => .okOr rfl _

theorem excelCall_answers (method : String) (params : PyJson) :
    Answers (fun _ => True) (excelCall method params) := by
  unfold excelCall
  refine .bind (workerCall_answers _ _) fun resp => .ite ?_ trivial
  exact .unless rfl (.unless rfl rfl)

theorem ensurePathUnderRoots_answers (requested : String) (token : TokenRecord) :
    Answers (fun _ => True) (ensurePathUnderRoots requested token) := by
  unfold ensurePathUnderRoots
  exact .bind (.lift _) fun canon => .bind (.okOr rfl _) fun canon => .unless rfl trivial

theorem mapWorkerBundleError_handles (code : String) : guards (mapWorkerBundleError code) = false := by
  unfold mapWorkerBundleError
  split_ifs <;> rfl

theorem checkBundleOk_answers (resp : PyJson) : Answers (fun _ => True) (checkBundleOk resp) := by
  unfold checkBundleOk
  exact .ite (mapWorkerBundleError_handles _) trivial

theorem providerTurn_answers (provider : Provider) (history : List ChatMessage)
    (maxTokens : Option ℕ) : Answers (fun _ => True) (providerTurn provider history maxTokens) := by
  refine .bind (.lift _) fun r => ?_
  cases r with
  | ok turn => trivial
  | error e => cases e <;> rfl

theorem chatTurns_answers (provider : Provider) (session : Session) (body : ChatRequest Uuid)
    (n : ℕ) (c : Chat) : Answers (fun _ => True) (chatTurns provider session body n c) := by
  induction n generalizing c with
  | zero => trivial
  | succ n ih =>
      refine .bind (providerTurn_answers _ _ _) fun turn => ?_
      refine .bind (appendMessages_answers _ _ _) fun _ => .bind (.lift _) fun _ => ?_
      refine .ite trivial (.bind (.lift _) fun results => ?_)
      exact .bind (appendMessages_answers _ _ _) fun _ => ih _

theorem aiChat_answers (providers : ProviderRegistry) (body : ChatRequest Uuid) :
    Answers (refusal · = false) (aiChat providers body) := by
  unfold aiChat
  refine .bind (.lift _) fun exceeded => .unless rfl ?_
  refine .bind (getSession_answers _) fun session => .bind (.okOr rfl _) fun provider => ?_
  refine .bind (appendMessages_answers _ _ _) fun _ => .bind (getSession_answers _) fun current => ?_
  exact .bind (chatTurns_answers _ _ _ _ _) fun chat => rfl

theorem handshake_answers (origin : Option String) (body : HandshakeRequest) :
    Answers (refusal · = false) (handshake origin body) := by
  have hroots : Answers (fun _ => True) (grantedRoots body) := by
    unfold grantedRoots
    exact .ite trivial (.bind (.lift _) fun canon => .unless rfl trivial)
  have hissue (roots : List PathBuf) : Answers (refusal · = false) (do
      let token ← issue body.requestedScopes roots
      return .handshake token body.requestedScopes (roots.map PathBuf.text) tokenTtlSecs) :=
    .bind (.lift _) fun token => rfl
  refine .unless rfl (.bind hroots fun roots => .ite ?_ (hissue roots))
  exact .bind (.lift _) fun approved => .unless rfl (hissue roots)

theorem aiOpenTrustWindow_answers (parseUuid : String → Option Uuid) (body : OpenTrustWindowRequest) :
    Answers (refusal · = false) (aiOpenTrustWindow parseUuid body) := by
  unfold aiOpenTrustWindow
  refine .bind (.okOr rfl _) fun id => .bind (getSession_answers id) fun _ => ?_
  exact .bind (.lift _) fun approved => .unless rfl (.bind (.lift _) fun window => rfl)

theorem bundleRead_answers (token : TokenRecord) (path : String) :
    Answers (refusal · = false) (bundleReadRoute token path) := by
  refine .bind (ensurePathUnderRoots_answers _ _) fun canonical => ?_
  refine .bind (workerCall_answers _ _) fun resp => ?_
  exact .bind (checkBundleOk_answers resp) fun _ => rfl

theorem bundleWrite_answers (token : TokenRecord) (body : BundleWriteRequest) :
    Answers (refusal · = false) (bundleWriteRoute token body) := by
  refine .bind (ensurePathUnderRoots_answers _ _) fun canonical => ?_
  refine .bind (.lift _) fun approved => .unless rfl ?_
  refine .bind (workerCall_answers _ _) fun resp => ?_
  exact .bind (checkBundleOk_answers resp) fun _ => rfl

/-- A handler never answers as a guard does. -/
theorem handler_answers (d : Deployment) (origin : Option String) (token : Option TokenRecord)
    (r : Route) (input : r.Input) : Answers (refusal · = false) (handler d origin token r input) := by
  cases r with
  | handshake => exact handshake_answers origin input
  | ws => exact .bind (.okOr rfl token) fun _ => rfl
  | fsRead =>
      exact .bind (.okOr rfl token) fun t => .bind (readUnderRoots_answers _ _) fun result => rfl
  | runPython => exact .bind (workerExec_answers input) fun result => rfl
  | excelWorkbooks => exact .bind (excelCall_answers _ _) fun resp => rfl
  | excelRangeRead => exact .bind (excelCall_answers _ _) fun resp => rfl
  | bundleRead => exact .bind (.okOr rfl token) fun t => bundleRead_answers t input
  | bundleWrite => exact .bind (.okOr rfl token) fun t => bundleWrite_answers t input
  | aiChat => exact aiChat_answers d.providers input
  | aiSession => exact .bind (.okOr rfl token) fun t => .bind (.lift _) fun session => rfl
  | aiSessionHistory =>
      exact .bind (.okOr rfl _) fun id => .bind (getSession_answers id) fun session => rfl
  | aiProviders => exact .bind (.lift _) fun key => rfl
  | aiSetKey =>
      refine .unless rfl (.bind (.lift _) fun approved => .unless rfl ?_)
      exact .bind (.lift _) fun written => .unless rfl rfl
  | aiDeleteKey =>
      refine .bind (.lift _) fun approved => .unless rfl ?_
      exact .bind (.lift _) fun written => .unless rfl rfl
  | aiCostToday => exact .bind (.lift _) fun rollup => rfl
  | aiConsentWindow => exact aiOpenTrustWindow_answers d.parseUuid input
  | _ => rfl

end

/-! ## The protocol -/

/-- What the guards have let through. -/
def Admitted (d : Deployment) (request : Request) (seen : Option TokenRecord) : Prop :=
  ∃ r, route request.method request.path = .found r ∧ ∀ need, r.access = .bearer need →
    ∃ record, seen = some record ∧ Passes d request need record

def conduct (d : Deployment) (request : Request) : Contract api (Option TokenRecord) where
  pre seen op := shows op = true → Admitted d request seen
  fact _ op r := Possible op r
  next := note

def protocol (d : Deployment) : Protocol (server d) (Option TokenRecord) where
  contract := conduct d
  start _ := none
  post _ _ := True

section
variable {d : Deployment} {request : Request} {seen : Option TokenRecord}

theorem ignores_quiet : Ignores (conduct d request) quietOps := by
  intro seen op ho
  cases op <;> first | exact ho.elim | exact ⟨fun h => (by cases h), fun _ => rfl⟩

theorem refuses : Refuses (conduct d request) fun body => refusal body = true := by
  constructor
  · rfl
  · rfl
  · rfl
  · rintro _ token e ⟨s, env, s', h⟩
    simp only [exec, Option.some.injEq, Prod.mk.injEq, TokenStore.lookup] at h
    obtain ⟨h, -⟩ := h
    split at h
    · cases h
      rfl
    · split at h <;> cases h
      rfl
  · rintro _ key now e ⟨s, env, s', h⟩
    simp only [exec, Option.some.injEq, Prod.mk.injEq, RateLimiter.check] at h
    obtain ⟨h, -⟩ := h
    split at h <;> cases h
    rfl
  · rfl
  · rfl

/-- An admitted request may run any handler. -/
theorem handler_conduct {r : Route} {input : r.Input} {token : Option TokenRecord}
    (h : Admitted d request seen) : Meets (conduct d request)
      (handler d request.origin token r input).run seen fun seen' _ => Admitted d request seen' := by
  have hmeets := (handler_uses d request.origin token r input).meets (C := conduct d request)
    (K := (· = seen)) rfl ?_ ?_
  · exact hmeets.mono fun seen' _ hsame => hsame ▸ h
  · rintro _ op rfl _ _
    exact h
  · rintro _ op reply rfl ho
    cases op with
    | lookup => cases r <;> exact ho.elim
    | _ => rfl

end

theorem serve_conduct (d : Deployment) (request : Request) :
    Meets (conduct d request) ((server d).serve request) none fun _ _ => True := by
  apply serve_meets_of (R := fun _ => True) (Q := fun seen body => refusal body = false →
    Admitted d request seen) refuses ignores_quiet
  · intro seen response hQ
    refine ⟨fun hshows => hQ ?_, fun _ => trivial⟩
    simpa [shows] using hshows
  · intro body hrefusal hshown
    rw [hrefusal] at hshown
    cases hshown
  · intro token _
    refine ⟨fun h => (by cases h), fun reply _ body hrefusal hshown => ?_⟩
    rw [hrefusal] at hshown
    cases hshown
  · intro r input hinput haccess
    have hadmitted : Admitted d request none :=
      ⟨r, (inputFor_some hinput).1, fun need hneed => absurd hneed (haccess need)⟩
    exact (handler_conduct hadmitted).mono fun _ _ h _ => h
  · intro r need input token record hinput haccess _ _ hpasses
    have hadmitted : Admitted d request (some record) := by
      refine ⟨r, (inputFor_some hinput).1, fun need' hneed => ⟨record, rfl, ?_⟩⟩
      rw [haccess] at hneed
      cases hneed
      exact hpasses
    exact (handler_conduct hadmitted).mono fun _ _ h _ => h

theorem sound (d : Deployment) (guard : World (server d) → Label (server d) → Prop) :
    Sound (protocol d) guard :=
  fun w _ env _ _ _ _ s _ _ _ hexec => ⟨w.shared, env, s, hexec⟩

/-! ## Runs -/

/-- What no handler does changes only the limiter and the log. -/
theorem spared_of_hidden {s s' : AppState} {env : Environment} {op : Op} {r : op.Reply}
    (h : exec s env op = some (r, s')) (hop : shows op = false) : Spared s s' := by
  cases op with
  | limiterCheck key now =>
      cases h
      rfl
  | instant | lookup | respond | auditLock | auditWrite | auditFlush =>
      cases h
      rfl
  | _ => cases hop

theorem bearerToken_some {request : Request} {token : String} (h : bearerToken request = some token) :
    request.authorization = some ("Bearer " ++ token) := by
  unfold bearerToken at h
  split at h
  · cases h
  · next auth hauth =>
      split at h
      · next hprefix =>
          cases h
          obtain ⟨rest, hrest⟩ := List.isPrefixOf_iff_prefix.mp hprefix.1
          have hdrop : auth.toList.drop "Bearer ".length = rest := by
            rw [← hrest]
            exact List.drop_left
          have hauthorized : auth = "Bearer " ++ String.ofList rest := by
            apply String.toList_inj.mp
            rw [String.toList_append, ← hrest]
            exact congrArg _ String.toList_ofList.symm
          rw [hauth, hdrop, ← hauthorized]
      · cases h

section
variable {d : Deployment} {guard : World (server d) → Label (server d) → Prop}
  {w : World (server d)}

theorem access_of {r : Route} (hhealth : r ≠ .health) (hhandshake : r ≠ .handshake) :
    r.access = .bearer (need r) := by
  cases r with
  | health => exact absurd rfl hhealth
  | handshake => exact absurd rfl hhandshake
  | _ => rfl

/-- The record of a request that passes is the one its token was issued with. -/
theorem cleared_of_passes (h : Reachable (machine (server d)) guard w)
    {after before : List (Event (server d))} {e : Event (server d)}
    (he : w.events = after ++ e :: before) {record : TokenRecord} {scope : Option Scope}
    (hseen : recordOf e.task before = some record) (hpasses : Passes d e.request scope record) :
    Cleared e before scope := by
  obtain ⟨v, env, rest, s, hv, rfl, hshared, htask, -⟩ := reachable_event h he
  obtain ⟨token, l, hl, hli, hfound, hbearer, -, hstored⟩ := record_found hv hseen
  have hrequest : l.request = e.request := by
    have hrecorded := reachable_recorded hv l hl
    rw [hli, requestOf, htask] at hrecorded
    exact (Option.some.inj hrecorded).symm
  obtain ⟨between, earlier, hsplit⟩ := List.append_of_mem hl
  obtain ⟨u, env', rest', s', hu, rfl, hshared', -, -, hexec⟩ := reachable_event hv hsplit
  obtain ⟨htoken, hlive⟩ := found_token hexec hfound
  obtain ⟨o, ho, hissued⟩ := (token_issued hu token record).mp (hshared' ▸ htoken)
  obtain ⟨hhandshake, scopes, fsRoots, hnew⟩ := issued_handshake hu ho hissued
  refine ⟨hpasses.host, hpasses.origin, token, record, between, l, u.events, ?_, hsplit, hli, hfound,
    ⟨o, ho, hhandshake, hissued, ?_⟩, hshared ▸ hstored, hpasses.scope⟩
  · rw [← hrequest]
    exact bearerToken_some hbearer
  · rw [hnew] at hlive
    exact hlive

theorem mediated (d : Deployment) (w : World (server d))
    (h : Reachable (machine (server d)) anyStep w) : Mediated w := by
  have hadmitted {after before : List (Event (server d))} {e : Event (server d)}
      (he : w.events = after ++ e :: before) (hshows : shows e.op = true) :
      Admitted d e.request (recordOf e.task before) :=
    obeyed (serve_conduct d) (sound d anyStep) h after e before he hshows
  have hcleared {after before : List (Event (server d))} {e : Event (server d)} {r : Route}
      (he : w.events = after ++ e :: before) (hr : Guarded e.request r) (hshows : shows e.op = true) :
      Cleared e before (need r) := by
    obtain ⟨hroute, hhealth, hhandshake⟩ := hr
    obtain ⟨r', hroute', hpasses⟩ := hadmitted he hshows
    rw [hroute, Match.found.injEq] at hroute'
    subst hroute'
    obtain ⟨record, hseen, hpass⟩ := hpasses (need r) (access_of hhealth hhandshake)
    exact cleared_of_passes h he hseen hpass
  constructor
  · intro e he hshows
    obtain ⟨after, before, hsplit⟩ := List.append_of_mem he
    obtain ⟨r, hroute, -⟩ := hadmitted hsplit hshows
    exact ⟨r, hroute⟩
  · intro after e before he r hr hshows
    exact hcleared he hr hshows
  · intro after e before he r hr hnot env reply s hexec
    apply spared_of_hidden hexec
    rw [Bool.eq_false_iff]
    exact fun hshows => hnot (hcleared he hr hshows)
  · intro origin token r input
    refine (handler_answers d origin token r input).mono fun _ x hx => ?_
    cases x <;> exact hx

end

/-- A session is opened, and a request without a token is refused. -/
def refusedRequest : List (Label (server keyedLaunch)) :=
  handshakeRun 0 "a" [.aiProviderCall] ++ sessionRun 1 "a" 1 none ++
    .arrive 2 (addinRequest .aiCostToday "/ai/cost/today" none ()) :: calls 2 7 {}

/-- Request 1 has run a handler, and request 2 was answered without one. -/
def mixed (w : World (server keyedLaunch)) : Bool :=
  (w.events.any fun e => e.task == 1 && shows e.op) &&
    (w.events.all fun e => e.task != 2 || !shows e.op) && (w.events.any fun e => e.task == 2)

theorem mediated_refusedRequest : ∃ w, Reachable (machine (server keyedLaunch)) anyStep w ∧
    mixed w = true ∧ Mediated w := by
  obtain ⟨w, hw, ht⟩ := replay_reaches (machine (server keyedLaunch)) anyStep unchecked
    refusedRequest mixed (fun _ _ _ => trivial) (by decide +kernel)
  exact ⟨w, hw, ht, mediated keyedLaunch w hw⟩

end Xlpod.Mediation
