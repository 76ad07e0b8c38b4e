import Xlpod.BundleArchive
import Xlpod.PythonClient
import Xlpod.Verdicts

/-!
# A client and the launcher

One `AsyncClient` with its default settings next to everything else that happens
at the launcher. The client may have any number of calls under way, a call may
be answered late or lost, and each of its requests is a task of the launcher
like those of other clients.

The token it uses is that of the last handshake it heard of, and the launcher
has issued it. So the client is never refused for its host or its origin, and a
token of its own is refused only when its lifetime is over, its scopes lack the
one of the route, or the limiter is full.
-/
namespace Xlpod.ClientSessions
open Xlpod.AiTypes Xlpod.ApiErrors Xlpod.Auth Xlpod.BundlePayload Xlpod.ByteEncodings Xlpod.JsonText
open Xlpod.GuardedRuns Xlpod.Programs Xlpod.ServerState Xlpod.Server Xlpod.Footprints Xlpod.Serving
open Xlpod.Provenance Xlpod.Attribution Xlpod.RateWindow Xlpod.Verdicts Xlpod.PythonClient
open Xlpod.Mediation (guards)
open Xlpod.BundleArchive (plainStdlib)
open Xlpod.Interleaving (World Event requestOf step_of_next reachable_recorded reachable_event)

/-! ## Both parties -/

/-- A call that is over; one that was never sent has no task. -/
structure Exchange where
  task : Option ℕ
  api : Api
  outcome : Outcome

structure Joint (d : Deployment) where
  world : World (server d)
  client : AsyncClient
  pending : List (ℕ × Api)
  heard : List Exchange

inductive Label (d : Deployment)
  | launcher (a : Interleaving.Label (server d))
  | call (i : ℕ) (api : Api) (input : (r : Route) → Except ℕ r.Input)
  | answer (i : ℕ) (bytes : Bytes)
  /-- The transport raises; with a reason it could not connect. -/
  | lose (i : ℕ) (reason : Option String)

section
variable {d : Deployment}

def response : Op → Option Response
  | .respond response => some response
  | _ => none

def responseOf (i : ℕ) (events : List (Event (server d))) : Option Response :=
  events.findSome? fun e => if e.task = i then response e.op else none

def unreachable (url : String) (reason : String) : XlpodError :=
  ⟨.launcherUnreachable, str ("could not reach launcher at " ++ url ++ ": " ++ reason), none, none⟩

def lost (c : AsyncClient) (api : Api) : Option String → Outcome
  | some reason => .raised (unreachable (c.url api.call) reason)
  | none => .escaped

/-- The call of the task is over. -/
def Joint.over (j : Joint d) (i : ℕ) (api : Api) (outcome : Outcome) : Joint d :=
  { j with
    client := j.client.after api outcome
    pending := j.pending.filter (·.1 ≠ i)
    heard := ⟨some i, api, outcome⟩ :: j.heard }

def next (L : Stdlib) (j : Joint d) : Label d → Option (Joint d)
  | .launcher a => (Interleaving.next j.world a).map fun w => { j with world := w }
  | .call i api input =>
      match j.client.prepare api.call with
      | .error e => some { j with heard := ⟨none, api, .raised e⟩ :: j.heard }
      | .ok http => (Interleaving.next j.world (.arrive i (arriving http input))).map fun w =>
          { j with world := w, pending := (i, api) :: j.pending }
  | .answer i bytes => do
      let api ← j.pending.lookup i
      let response ← responseOf i j.world.events
      if sendsAs response.body bytes then
        some (j.over i api (received L api.call.path ⟨response.status, bytes⟩))
      else none
  | .lose i reason => (j.pending.lookup i).map fun api => j.over i api (lost j.client api reason)

def machine (L : Stdlib) (d : Deployment) : Machine (Joint d) (Label d) where
  start := ⟨(Interleaving.machine (server d)).start, .new defaultBaseUrl defaultOrigin, [], []⟩
  next := next L

/-- The step function as a relation. -/
inductive Moved (L : Stdlib) (j : Joint d) : Label d → Joint d → Prop
  | launcher {a : Interleaving.Label (server d)} {w : World (server d)} :
      (Interleaving.machine (server d)).next j.world a = some w →
      Moved L j (.launcher a) { j with world := w }
  | refused {i : ℕ} {api : Api} {input : (r : Route) → Except ℕ r.Input} {e : XlpodError} :
      j.client.prepare api.call = .error e →
      Moved L j (.call i api input) { j with heard := ⟨none, api, .raised e⟩ :: j.heard }
  | sent {i : ℕ} {api : Api} {input : (r : Route) → Except ℕ r.Input} {http : HttpRequest}
      {w : World (server d)} : j.client.prepare api.call = .ok http →
      (Interleaving.machine (server d)).next j.world (.arrive i (arriving http input)) = some w →
      Moved L j (.call i api input) { j with world := w, pending := (i, api) :: j.pending }
  | answered {i : ℕ} {bytes : Bytes} {api : Api} {response : Response} :
      (i, api) ∈ j.pending → responseOf i j.world.events = some response →
      sendsAs response.body bytes = true →
      Moved L j (.answer i bytes)
        (j.over i api (received L api.call.path ⟨response.status, bytes⟩))
  | lost {i : ℕ} {reason : Option String} {api : Api} : (i, api) ∈ j.pending →
      Moved L j (.lose i reason) (j.over i api (lost j.client api reason))

theorem mem_of_lookup {i : ℕ} {api : Api} {pending : List (ℕ × Api)}
    (h : pending.lookup i = some api) : (i, api) ∈ pending := by
  obtain ⟨l₁, l₂, rfl, -⟩ := List.lookup_eq_some_iff.mp h
  simp

theorem moved_of_next {L : Stdlib} {j j' : Joint d} {a : Label d} (h : next L j a = some j') :
    Moved L j a j' := by
  cases a with
  | launcher a =>
      obtain ⟨w, hw, rfl⟩ := Option.map_eq_some_iff.mp h
      exact .launcher hw
  | call i api input =>
      simp only [next] at h
      split at h
      · next e he =>
          cases h
          exact .refused he
      · next http hhttp =>
          obtain ⟨w, hw, rfl⟩ := Option.map_eq_some_iff.mp h
          exact .sent hhttp hw
  | answer i bytes =>
      obtain ⟨api, hapi, h⟩ := Option.bind_eq_some_iff.mp h
      obtain ⟨response, hresponse, h⟩ := Option.bind_eq_some_iff.mp h
      split at h
      · next hsends =>
          cases h
          exact .answered (mem_of_lookup hapi) hresponse hsends
      · cases h
  | lose i reason =>
      obtain ⟨api, hapi, rfl⟩ := Option.map_eq_some_iff.mp h
      exact .lost (mem_of_lookup hapi)

theorem response_mem {i : ℕ} {r : Response} {events : List (Event (server d))}
    (h : responseOf i events = some r) : ∃ e ∈ events, e.task = i ∧ e.op = .respond r := by
  obtain ⟨e, he, hr⟩ := List.exists_of_findSome?_eq_some h
  by_cases hi : e.task = i
  · rw [if_pos hi] at hr
    refine ⟨e, he, hi, ?_⟩
    cases hop : e.op with
    | respond r' =>
        rw [hop] at hr
        exact congrArg Op.respond (Option.some.inj hr)
    | _ =>
        rw [hop] at hr
        cases hr
  · rw [if_neg hi] at hr
    cases hr

/-- A token is 32 random bytes in hexadecimal. -/
def drawn (w : World (server d)) : Interleaving.Label (server d) → Bool
  | .call i env =>
      match w.about i with
      | some (_, .issue _ _) => env.token.length = 64
      | _ => true
  | _ => true

def drawnTokens (j : Joint d) : Label d → Bool
  | .launcher a => drawn j.world a
  | _ => true

end

/-! ## What the launcher answers -/

/-- An error status comes with an error or one of the framework's texts. -/
def Proper (response : Response) : Prop :=
  400 ≤ response.status → (∃ e, response.body = .error e) ∨ response.body = .rejection

def answering : Contract api Unit where
  pre _ op :=
    match op with
    | .respond response => Proper response
    | _ => True
  fact _ _ _ := True
  next _ _ _ := ()

def silentOps : Op → Prop
  | .respond _ => False
  | _ => True

def answeringProtocol (d : Deployment) : Interleaving.Protocol (server d) Unit where
  contract _ := answering
  start _ := ()
  post _ _ := True

section
variable {d : Deployment} {request : Request}

theorem ignores_silent : Ignores answering silentOps := by
  intro g op ho
  cases op <;> first | exact ho.elim | exact ⟨trivial, fun _ => rfl⟩

theorem proper_errorResponse (e : ApiError) : Proper (errorResponse e) := fun _ => .inl ⟨e, rfl⟩

theorem proper_rejection (status : ℕ) : Proper ⟨status, none, .rejection⟩ := fun _ => .inr rfl

theorem proper_toResponse {success : ℕ} (h : success < 400) (x : Except ApiError ResponseBody) :
    Proper (toResponse success x) := by
  intro hstatus
  cases x with
  | error e => exact .inl ⟨e, rfl⟩
  | ok body => exact absurd hstatus (Nat.not_le.mpr h)

theorem successStatus_lt (r : Route) : r.successStatus < 400 := by
  cases r <;> decide

theorem handle_proper (r : Route) (token : Option TokenRecord) :
    Meets answering (handle d request r token) () fun _ response => Proper response := by
  unfold handle
  split
  · exact proper_rejection _
  · next input _ =>
      apply meets_bind.mpr
      have hsilent : Uses (I := api) silentOps (handler d request.origin token r input).run :=
        (handler_back request.origin token r input).mono fun op ho => by
          cases op <;> first | exact ho.elim | trivial
      exact (ignores_silent.meets hsilent).mono fun _ x _ => proper_toResponse (successStatus_lt r) x

theorem requireScope_proper {need : Option Scope} {record : TokenRecord} {next : Server Response}
    (h : Meets answering next () fun _ response => Proper response) :
    Meets answering (requireScope need record next) () fun _ response => Proper response := by
  unfold requireScope
  cases need with
  | none => exact h
  | some scope => exact meets_ite.mpr ⟨fun _ => h, fun _ => proper_errorResponse _⟩

theorem bearerGuard_proper {next : TokenRecord → Server Response}
    (h : ∀ record, Meets answering (next record) () fun _ response => Proper response) :
    Meets answering (bearerGuard request next) () fun _ response => Proper response := by
  unfold bearerGuard
  cases bearerToken request with
  | none => exact proper_errorResponse _
  | some token =>
      refine ⟨trivial, fun found _ => ?_⟩
      cases found with
      | error e => exact proper_errorResponse e
      | ok record =>
          refine ⟨trivial, fun now _ => ⟨trivial, fun checked _ => ?_⟩⟩
          cases checked with
          | error e => exact proper_errorResponse e
          | ok u =>
              change Meets _ (next record >>= _) _ _
              exact meets_bind.mpr ((h record).mono fun _ response hr => hr)

theorem front_proper {next : Server Response}
    (h : Meets answering next () fun _ response => Proper response) :
    Meets answering (hostGuard d request (originGuard request next)) () fun _ response =>
      Proper response := by
  rcases front_told d request next with ⟨-, -, heq⟩ | ⟨-, e, -, -, heq⟩
  · rw [heq]
    exact h
  · rw [heq]
    exact proper_errorResponse e

theorem guarded_proper (access : Access) {next : Option TokenRecord → Server Response}
    (h : ∀ token, Meets answering (next token) () fun _ response => Proper response) :
    Meets answering (guarded d request access next) () fun _ response => Proper response := by
  cases access with
  | publicOpen => exact h none
  | publicOrigin => exact front_proper (h none)
  | bearer need =>
      exact front_proper (bearerGuard_proper fun record => requireScope_proper (h (some record)))

theorem serve_proper (d : Deployment) (request : Request) :
    Meets answering ((server d).serve request) () fun _ _ => True := by
  have hinner : Meets answering (innerService d request) () fun _ response => Proper response := by
    unfold innerService
    split
    · exact proper_rejection _
    · exact guarded_proper _ fun _ => proper_rejection _
    · next r _ => exact guarded_proper _ fun token => handle_proper r token
  refine meets_bind.mpr ⟨trivial, fun start _ => meets_bind.mpr (hinner.mono ?_)⟩
  intro _ response hproper
  refine meets_bind.mpr ⟨hproper, fun _ _ => meets_bind.mpr ⟨trivial, fun finish _ => ?_⟩⟩
  refine meets_bind.mpr ⟨trivial, fun now _ => meets_bind.mpr ⟨trivial, fun _ _ => ?_⟩⟩
  exact meets_bind.mpr ⟨trivial, fun _ _ => ⟨trivial, fun _ _ => trivial⟩⟩

end

/-! ## Issued tokens -/

/-- What a request has been given. -/
abbrev Given := Option (String × List Scope × List PathBuf)

def give (given : Given) : (op : Op) → op.Reply → Given
  | .issue scopes fsRoots, token => some (token, scopes, fsRoots)
  | _, _ => given

/-- An answer to a handshake tells what was given, if it is no error. -/
def Grants (given : Given) : ResponseBody → Prop
  | .handshake token scopes fsRoots expiresIn => ∃ roots, given = some (token, scopes, roots) ∧
      fsRoots = roots.map PathBuf.text ∧ expiresIn = tokenTtlSecs
  | .error _ | .rejection => True
  | _ => False

def isHandshake (request : Request) : Prop := route request.method request.path = .found .handshake

def granting (request : Request) : Contract api Given where
  pre given op :=
    match op with
    | .respond response => isHandshake request → Grants given response.body
    | _ => True
  fact _ _ _ := True
  next := give

def grantingProtocol (d : Deployment) : Interleaving.Protocol (server d) Given where
  contract := granting
  start _ := none
  post _ _ := True

section
variable {d : Deployment} {request : Request} {given : Given}

theorem ignores_edge : Ignores (granting request) quietOps := by
  intro given op ho
  cases op <;> first | exact ho.elim | exact ⟨trivial, fun _ => rfl⟩

theorem handshake_grants (origin : Option String) (body : Routes.HandshakeRequest) :
    Meets (granting request) (Routes.handshake origin body).run given fun given' x =>
      Grants given' (bodyOf x) := by
  have hquiet : Ignores (granting request) rootOps := fun given op ho => by
    cases op <;> first | exact ho.elim | exact ⟨trivial, fun _ => rfl⟩
  have hroots : Meets (granting request) (Routes.grantedRoots body).run given fun _ _ => True := by
    unfold Routes.grantedRoots
    simp only [meets_exceptIte, meets_exceptBind, meets_throw, meets_exceptPure]
    refine ⟨fun _ => trivial, fun _ => meets_lift.mpr ?_⟩
    exact (hquiet.meets (canonicalizeRoots_uses body.fsRoots)).mono fun _ canon _ =>
      ⟨fun _ => trivial, fun _ => trivial⟩
  have hissue (roots : List PathBuf) (token : String) : Grants
      (some (token, body.requestedScopes, roots)) (.handshake token body.requestedScopes
        (roots.map PathBuf.text) tokenTtlSecs) := ⟨roots, rfl, rfl, rfl⟩
  unfold Routes.handshake
  simp only [meets_exceptIte, meets_exceptBind, meets_throw, meets_exceptPure]
  refine ⟨fun _ => trivial, fun _ => hroots.mono fun given' r _ => ?_⟩
  cases r with
  | error e => trivial
  | ok roots =>
      refine ⟨fun _ => meets_lift.mpr ⟨trivial, fun approved _ => ?_⟩, fun _ => ?_⟩
      · exact ⟨fun _ => trivial, fun _ => meets_lift.mpr ⟨trivial, fun token _ => hissue roots token⟩⟩
      · exact meets_lift.mpr ⟨trivial, fun token _ => hissue roots token⟩

theorem serve_granting (d : Deployment) (request : Request) :
    Meets (granting request) ((server d).serve request) given fun _ _ => True := by
  by_cases hroute : isHandshake request
  · apply serve_meets_of (R := fun _ => True) (P := fun body => ∀ given, Grants given body)
      (Q := Grants)
    · constructor <;> intros <;> trivial
    · exact ignores_edge
    · exact fun given response hbody => ⟨fun _ => hbody, fun _ => trivial⟩
    · exact fun body hbody => hbody given
    · exact fun token _ => ⟨trivial, fun reply _ body hbody => hbody _⟩
    · intro r input hinput _
      have hfound := (inputFor_some hinput).1
      rw [hroute, Match.found.injEq] at hfound
      subst hfound
      exact handshake_grants request.origin input
    · intro r need input token record hinput haccess _ _ _
      have hfound := (inputFor_some hinput).1
      rw [hroute, Match.found.injEq] at hfound
      subst hfound
      cases haccess
  · refine meets_free (fun given op => ?_) _ _
    cases op with
    | respond response => exact fun h => absurd h hroute
    | _ => trivial

end


/-! ## What both parties know -/

section
variable {d : Deployment} {L : Stdlib} {j j' : Joint d} {w v : World (server d)} {i : ℕ} {api : Api}

/-- The token of the handshake was issued with the scopes and roots it names. -/
def IssuedAs (events : List (Event (server d))) (h : Handshake) : Prop :=
  ∃ o ∈ events, ∃ record, issuedBy o = some (h.token, record) ∧
    h.grantedScopes = (record.scopes.map fun s => str (wireScope s)) ∧
    h.grantedFsRoots = (record.fsRoots.map fun p => str p.text) ∧ h.expiresIn = tokenTtlSecs

/-- The handshakes that succeeded, newest first. -/
def handshakes (heard : List Exchange) : List Handshake :=
  heard.filterMap fun x => handshakeIn x.api x.outcome

/-- The task is the call's request, and what was done before it includes the
issue of its token. -/
structure Sending (w : World (server d)) (i : ℕ) (api : Api) (c : AsyncClient) (http : HttpRequest)
    (input : (r : Route) → Except ℕ r.Input) (past : List (Event (server d))) : Prop where
  baseUrl : c.baseUrl = defaultBaseUrl
  origin : c.origin = defaultOrigin
  prepared : c.prepare api.call = .ok http
  request : requestOf w i = some (arriving http input)
  earlier : past <:+ w.events
  fresh : ∀ e ∈ past, e.task ≠ i
  token : ∀ token, c.token = some token → ∃ h, IssuedAs past h ∧ h.token = token

def SentAs (w : World (server d)) (i : ℕ) (api : Api) : Prop :=
  ∃ c http input past, Sending w i api c http input past

/-- The outcome is that of a response of the task. -/
def AnsweredAs (L : Stdlib) (w : World (server d)) (i : ℕ) (api : Api) (outcome : Outcome) : Prop :=
  ∃ e ∈ w.events, ∃ response bytes, e.task = i ∧ e.op = .respond response ∧
    sendsAs response.body bytes = true ∧
      outcome = received L api.call.path ⟨response.status, bytes⟩

/-- How a call came to its end. -/
inductive Explained (L : Stdlib) (w : World (server d)) : Exchange → Prop
  | unsent {api : Api} : api.call.auth = true → Explained L w ⟨none, api, .raised noToken⟩
  | lost {i : ℕ} {api : Api} {c : AsyncClient} {reason : Option String} :
      Explained L w ⟨some i, api, lost c api reason⟩
  | answered {i : ℕ} {api : Api} {outcome : Outcome} : SentAs w i api →
      AnsweredAs L w i api outcome → Explained L w ⟨some i, api, outcome⟩

structure Known (L : Stdlib) (j : Joint d) : Prop where
  world : Reachable (Interleaving.machine (server d)) (fun w a => drawn w a = true) j.world
  baseUrl : j.client.baseUrl = defaultBaseUrl
  origin : j.client.origin = defaultOrigin
  token : j.client.token = (handshakes j.heard).head?.map Handshake.token
  issued : ∀ h ∈ handshakes j.heard, IssuedAs j.world.events h
  pending : ∀ p ∈ j.pending, SentAs j.world p.1 p.2
  heard : ∀ x ∈ j.heard, Explained L j.world x
  tokenless : ∀ later x earlier, j.heard = later ++ x :: earlier → x.task = none →
    handshakes earlier = []

theorem events_grow {a : Interleaving.Label (server d)}
    (h : (Interleaving.machine (server d)).next w a = some v) :
    ∃ new, v.events = new ++ w.events := by
  cases step_of_next h with
  | @call i env request op rest r s hi he => exact ⟨[_], rfl⟩
  | _ => exact ⟨[], rfl⟩

theorem IssuedAs.mono {events new : List (Event (server d))} {h : Handshake}
    (hissued : IssuedAs events h) : IssuedAs (new ++ events) h := by
  obtain ⟨o, ho, hrecord⟩ := hissued
  exact ⟨o, List.mem_append_right new ho, hrecord⟩

theorem SentAs.step {a : Interleaving.Label (server d)} (hsent : SentAs w i api)
    (h : (Interleaving.machine (server d)).next w a = some v) : SentAs v i api := by
  obtain ⟨c, http, input, past, hc⟩ := hsent
  obtain ⟨new, hnew⟩ := events_grow h
  exact ⟨c, http, input, past, { hc with
    request := (step_of_next h).request hc.request
    earlier := hc.earlier.trans ⟨new, hnew.symm⟩ }⟩

theorem Explained.step {a : Interleaving.Label (server d)} {x : Exchange} (hx : Explained L w x)
    (h : (Interleaving.machine (server d)).next w a = some v) : Explained L v x := by
  obtain ⟨new, hnew⟩ := events_grow h
  cases hx with
  | unsent hauth => exact .unsent hauth
  | lost => exact .lost
  | answered hsent hanswered =>
      obtain ⟨e, he, hrest⟩ := hanswered
      exact .answered (hsent.step h) ⟨e, hnew ▸ List.mem_append_right new he, hrest⟩

theorem Known.step_world {a : Interleaving.Label (server d)} (hj : Known L j)
    (hdrawn : drawn j.world a = true)
    (h : (Interleaving.machine (server d)).next j.world a = some w) :
    Known L { j with world := w } := by
  obtain ⟨new, hnew⟩ := events_grow h
  refine ⟨hj.world.next hdrawn h, hj.baseUrl, hj.origin, hj.token, fun hs hmem => ?_,
    fun p hp => (hj.pending p hp).step h, fun x hx => (hj.heard x hx).step h, hj.tokenless⟩
  change IssuedAs w.events hs
  rw [hnew]
  exact (hj.issued hs hmem).mono

theorem after_settings (c : AsyncClient) (api : Api) (outcome : Outcome) :
    (c.after api outcome).baseUrl = c.baseUrl ∧ (c.after api outcome).origin = c.origin := by
  unfold AsyncClient.after
  split <;> exact ⟨rfl, rfl⟩

/-- A call that was not sent came before every handshake. -/
theorem tokenless_cons {heard : List Exchange} {x : Exchange}
    (h : ∀ later x earlier, heard = later ++ x :: earlier → x.task = none → handshakes earlier = [])
    (hx : x.task = none → handshakes heard = []) : ∀ later y earlier,
      x :: heard = later ++ y :: earlier → y.task = none → handshakes earlier = [] := by
  intro later y earlier hsplit htask
  rcases List.cons_eq_append_iff.mp hsplit with ⟨rfl, hnew⟩ | ⟨rest, rfl, hold⟩
  · cases hnew
    exact hx htask
  · exact h rest y earlier hold htask

theorem Known.over {outcome : Outcome} (hj : Known L j)
    (hx : Explained L j.world ⟨some i, api, outcome⟩)
    (hissued : ∀ h, handshakeIn api outcome = some h → IssuedAs j.world.events h) :
    Known L (j.over i api outcome) := by
  obtain ⟨hbase, horigin⟩ := after_settings j.client api outcome
  have hheard : handshakes (j.over i api outcome).heard =
      (handshakeIn api outcome).toList ++ handshakes j.heard := by
    change handshakes (_ :: j.heard) = _
    rw [handshakes, List.filterMap_cons]
    cases handshakeIn api outcome <;> rfl
  refine ⟨hj.world, hbase.trans hj.baseUrl, horigin.trans hj.origin, ?_, ?_, ?_, ?_, ?_⟩
  · rw [hheard]
    change (j.client.after api outcome).token = _
    unfold AsyncClient.after
    cases handshakeIn api outcome with
    | none => exact hj.token
    | some h => rfl
  · intro h hmem
    rw [hheard] at hmem
    rcases List.mem_append.mp hmem with hnew | hold
    · exact hissued h (Option.mem_toList.mp hnew)
    · exact hj.issued h hold
  · exact fun p hp => hj.pending p (List.mem_of_mem_filter hp)
  · intro x hmem
    rcases List.mem_cons.mp hmem with rfl | hmem
    · exact hx
    · exact hj.heard x hmem
  · exact tokenless_cons hj.tokenless fun hnone => by cases hnone

theorem fresh_of_none {guard : World (server d) → Interleaving.Label (server d) → Prop}
    (h : Reachable (Interleaving.machine (server d)) guard w)
    (hi : w.tasks i = none) : ∀ e ∈ w.events, e.task ≠ i := by
  rintro e he rfl
  have hrequest := reachable_recorded h e he
  rw [requestOf, hi] at hrequest
  cases hrequest

theorem mem_handshakes {token : String} (hj : Known L j) (ht : j.client.token = some token) :
    ∃ h, IssuedAs j.world.events h ∧ h.token = token := by
  rw [hj.token, Option.map_eq_some_iff] at ht
  obtain ⟨h, hhead, htoken⟩ := ht
  exact ⟨h, hj.issued h (List.mem_of_head? hhead), htoken⟩

theorem Known.sent {http : HttpRequest} {input : (r : Route) → Except ℕ r.Input} (hj : Known L j)
    (hprepare : j.client.prepare api.call = .ok http)
    (h : (Interleaving.machine (server d)).next j.world (.arrive i (arriving http input)) = some w) :
    Known L { j with world := w, pending := (i, api) :: j.pending } := by
  have hstep := hj.step_world rfl h
  refine ⟨hstep.world, hstep.baseUrl, hstep.origin, hstep.token, hstep.issued, ?_, hstep.heard,
    hstep.tokenless⟩
  intro p hp
  rcases List.mem_cons.mp hp with rfl | hp
  · cases step_of_next h with
    | arrive hi =>
        refine ⟨j.client, http, input, j.world.events, hj.baseUrl, hj.origin, hprepare, ?_,
          List.suffix_rfl, fresh_of_none hj.world hi, fun token ht => mem_handshakes hj ht⟩
        change Option.map _ ((j.world.setTask i _).tasks i) = _
        rw [Interleaving.setTask_self]
        rfl
  · exact hstep.pending p hp

theorem prepare_error {c : AsyncClient} {call : Call} {e : XlpodError}
    (h : c.prepare call = .error e) : call.auth = true ∧ e = noToken ∧ c.token = none := by
  unfold AsyncClient.prepare at h
  by_cases hauth : call.auth = true
  · refine ⟨hauth, ?_⟩
    rw [if_pos hauth] at h
    cases htoken : c.token <;> rw [htoken] at h <;> cases h
    exact ⟨rfl, rfl⟩
  · rw [if_neg hauth] at h
    cases h

theorem Known.refused {e : XlpodError} (hj : Known L j) (h : j.client.prepare api.call = .error e) :
    Known L { j with heard := ⟨none, api, .raised e⟩ :: j.heard } := by
  obtain ⟨hauth, rfl, htoken⟩ := prepare_error h
  have hnone : handshakeIn api (.raised noToken) = none := by cases api <;> rfl
  have hheard : handshakes (⟨none, api, .raised noToken⟩ :: j.heard) = handshakes j.heard := by
    rw [handshakes, List.filterMap_cons, hnone]
    rfl
  refine ⟨hj.world, hj.baseUrl, hj.origin, ?_, ?_, hj.pending, fun x hmem => ?_, ?_⟩
  · exact hheard ▸ hj.token
  · exact hheard ▸ hj.issued
  · rcases List.mem_cons.mp hmem with rfl | hmem
    · exact .unsent hauth
    · exact hj.heard x hmem
  · refine tokenless_cons hj.tokenless fun _ => ?_
    rw [hj.token, Option.map_eq_none_iff, List.head?_eq_none_iff] at htoken
    exact htoken

/-! ### A handshake that was heard -/

theorem prepare_handshake {c : AsyncClient} {http : HttpRequest} {scopes : List String}
    {fsRoots : Option (List String)} (hbase : c.baseUrl = defaultBaseUrl)
    (h : c.prepare (Api.handshake scopes fsRoots).call = .ok http)
    (input : (r : Route) → Except ℕ r.Input) : isHandshake (arriving http input) := by
  cases h
  change route "POST" (urlPath (c.baseUrl.toList ++ "/auth/handshake".toList)) = .found .handshake
  rw [hbase]
  decide

theorem handshakeIn_data {outcome : Outcome} {h : Handshake}
    (hin : handshakeIn api outcome = some h) :
    (∃ scopes fsRoots, api = .handshake scopes fsRoots) ∧
      ∃ value, outcome = .data value ∧ Handshake.of value = some h := by
  unfold handshakeIn at hin
  split at hin
  · next scopes fsRoots value => exact ⟨⟨scopes, fsRoots, rfl⟩, value, rfl, hin⟩
  · cases hin

/-- What a task was given was issued by a call of its own. -/
theorem given_issued {events : List (Event (server d))} {token : String} {scopes : List Scope}
    {roots : List PathBuf}
    (h : Interleaving.track give none i events = some (token, scopes, roots)) :
    ∃ o ∈ events, issuedBy o = some (token, newRecord o.before.now scopes roots) := by
  obtain ⟨after, o, before, he, -, hold, hnew⟩ := Interleaving.track_origin
    (P := fun given => given = some (token, scopes, roots)) (Option.some_ne_none _).symm h
  have hmem : o ∈ events := by simp [he]
  obtain ⟨task, request, op, reply, state⟩ := o
  cases op with
  | issue scopes' roots' =>
      cases hnew
      exact ⟨_, hmem, rfl⟩
  | _ => exact absurd hnew hold

/-- The answer to a handshake of the client. -/
theorem granted (hj : Known L j) {scopes : List String} {fsRoots : Option (List String)}
    (hsent : SentAs j.world i (.handshake scopes fsRoots)) {e : Event (server d)}
    {response : Response} (he : e ∈ j.world.events) (hi : e.task = i)
    (hop : e.op = .respond response) :
    ∃ given before, before <:+ j.world.events ∧ given = Interleaving.track give none i before ∧
      Grants given response.body := by
  obtain ⟨c, http, input, past, hc⟩ := hsent
  obtain ⟨after, before, hsplit⟩ := List.append_of_mem he
  have hpre : (granting e.request).pre ((grantingProtocol d).ghost e.request e.task before) e.op :=
    Interleaving.obeyed (P := grantingProtocol d) (fun request => serve_granting d request)
      (fun _ _ _ _ _ _ _ _ _ _ _ _ => trivial) hj.world after e before hsplit
  have hrequest := reachable_recorded hj.world e he
  rw [hi, hc.request, Option.some.injEq] at hrequest
  rw [hop, hi, ← hrequest] at hpre
  refine ⟨_, before, ⟨after ++ [e], by simp [hsplit]⟩, rfl, hpre ?_⟩
  exact prepare_handshake hc.baseUrl hc.prepared input

theorem heard_issued {outcome : Outcome} {h : Handshake} (hj : Known L j)
    (hsent : SentAs j.world i api) (hanswered : AnsweredAs L j.world i api outcome)
    (hin : handshakeIn api outcome = some h) : IssuedAs j.world.events h := by
  obtain ⟨⟨scopes, fsRoots, rfl⟩, value, rfl, hof⟩ := handshakeIn_data hin
  obtain ⟨e, he, response, bytes, hi, hop, hsends, hreceived⟩ := hanswered
  obtain ⟨hjson, fields, rfl⟩ := received_data hreceived.symm
  obtain ⟨given, before, hbefore, hgiven, hgrants⟩ := granted hj hsent he hi hop
  cases hbody : response.body with
  | handshake token granted paths expiresIn =>
      rw [hbody] at hgrants hsends
      obtain ⟨roots, hroots, rfl, rfl⟩ := hgrants
      rw [sendsAs, decide_eq_true_eq] at hsends
      rw [hsends, json_recordLine (handshakeJson_readable ..), Option.some.injEq] at hjson
      rw [← hjson, handshake_of, Option.some.injEq] at hof
      subst hof
      obtain ⟨o, ho, hissued⟩ := given_issued (hgiven.symm.trans hroots)
      refine ⟨o, hbefore.subset ho, _, hissued, rfl, ?_, rfl⟩
      exact List.map_map
  | error err =>
      rw [hbody] at hsends
      rw [sendsAs, decide_eq_true_eq] at hsends
      rw [hsends, json_recordLine (errorJson_readable _), Option.some.injEq] at hjson
      rw [← hjson, handshake_of_error] at hof
      cases hof
  | rejection =>
      rw [hbody] at hsends
      rw [sendsAs, Bool.or_eq_true, Option.isNone_iff_eq_none] at hsends
      rw [TransportResponse.json] at hjson
      rcases hsends with hempty | hnone
      · rw [if_pos hempty] at hjson
        cases hjson
      · rw [hnone] at hjson
        split at hjson <;> cases hjson
  | _ =>
      rw [hbody] at hgrants
      exact hgrants.elim

theorem known_of_reachable (h : Reachable (machine L d) (fun j a => drawnTokens j a = true) j) :
    Known L j := by
  refine h.invariant ?_ fun j a j' _ hj hdrawn hn => ?_
  · have hbase : (AsyncClient.new defaultBaseUrl defaultOrigin).baseUrl = defaultBaseUrl := by decide
    exact ⟨.start, hbase, rfl, rfl, fun h hmem => (List.not_mem_nil hmem).elim,
      fun p hp => (List.not_mem_nil hp).elim, fun x hx => (List.not_mem_nil hx).elim,
      fun later x earlier hsplit => by cases later <;> cases hsplit⟩
  cases moved_of_next hn with
  | launcher hw => exact hj.step_world hdrawn hw
  | sent hprepare hw => exact hj.sent hprepare hw
  | refused he => exact hj.refused he
  | @answered i bytes api response hpending hresponse hsends =>
      obtain ⟨e, he, hi, hop⟩ := response_mem hresponse
      have hanswered : AnsweredAs L j.world i api (received L api.call.path ⟨response.status, bytes⟩) :=
        ⟨e, he, response, bytes, hi, hop, hsends, rfl⟩
      have hsent := hj.pending _ hpending
      exact hj.over (.answered hsent hanswered) fun h hin => heard_issued hj hsent hanswered hin
  | @lost i reason api hpending =>
      refine hj.over .lost fun h hin => ?_
      obtain ⟨-, value, hdata, -⟩ := handshakeIn_data hin
      cases reason <;> cases hdata

theorem issued_length (hj : Known L j) {o : Event (server d)} (ho : o ∈ j.world.events)
    {token : String} {record : TokenRecord} (hissued : issuedBy o = some (token, record)) :
    token.length = 64 := by
  obtain ⟨after, before, hsplit⟩ := List.append_of_mem ho
  obtain ⟨v, env, rest, s, -, -, -, htask, hguard, hexec⟩ := reachable_event hj.world hsplit
  obtain ⟨task, request, op, reply, shared⟩ := o
  cases op with
  | issue scopes fsRoots =>
      simp only [drawn, World.about_of_call htask, decide_eq_true_eq] at hguard
      simp only [exec] at hexec
      split at hexec <;> cases hexec
      cases hissued
      exact hguard
  | _ => cases hissued

/-! ### The request of a call -/

section
variable {c : AsyncClient} {http : HttpRequest} {input : (r : Route) → Except ℕ r.Input}

theorem prepare_ok {call : Call} (h : c.prepare call = .ok http) :
    http.method = call.method ∧ http.url = c.baseUrl.toList ++ call.path.toList ∧
      http.headers.lookup "Origin" = some c.origin ∧
        (call.auth = true → ∃ token, c.token = some token ∧
          http.headers.lookup "Authorization" = some ("Bearer " ++ token)) := by
  unfold AsyncClient.prepare at h
  by_cases hauth : call.auth = true
  · rw [if_pos hauth] at h
    cases htoken : c.token with
    | none =>
        rw [htoken] at h
        cases h
    | some token =>
        rw [htoken] at h
        cases h
        exact ⟨rfl, rfl, rfl, fun _ => ⟨token, rfl, rfl⟩⟩
  · rw [if_neg hauth] at h
    cases h
    exact ⟨rfl, rfl, rfl, fun h => absurd h hauth⟩

theorem path_start (api : Api) : ∃ rest, api.call.path.toList = '/' :: rest := by
  have hhead : api.call.path.toList.head? = some '/' := by
    cases api with
    | getSessionHistory sessionId =>
        change ("/ai/session/" ++ sessionId ++ "/history").toList.head? = _
        rw [String.toList_append, String.toList_append, List.append_assoc]
        rfl
    | _ =>
        simp only [Api.call, getCall, postCall]
        decide
  obtain ⟨c, rest, hrest⟩ := List.exists_cons_of_ne_nil (l := api.call.path.toList) fun hnil => by
    rw [hnil] at hhead
    cases hhead
  rw [hrest, List.head?_cons, Option.some.injEq] at hhead
  exact ⟨rest, hhead ▸ hrest⟩

theorem authority_default (rest : List Char) :
    authority (defaultBaseUrl.toList ++ '/' :: rest) = "127.0.0.1:7421" := by
  have hdrop : (defaultBaseUrl.toList ++ '/' :: rest).drop "https://".length =
      "127.0.0.1:7421".toList ++ '/' :: rest := rfl
  have hplain : ∀ c ∈ "127.0.0.1:7421".toList, decide (c ≠ '/') = true :=
    List.all_eq_true.mp (by decide)
  rw [authority, hdrop, List.takeWhile_append_of_pos hplain]
  simp

theorem bearerToken_arriving {token : String} (htoken : token.length = 64)
    (h : http.headers.lookup "Authorization" = some ("Bearer " ++ token)) :
    bearerToken (arriving http input) = some token := by
  have hauth : (arriving http input).authorization = some ("Bearer " ++ token) := h
  have hstarts : "Bearer ".toList.isPrefixOf ("Bearer " ++ token).toList = true := by
    rw [String.toList_append, List.isPrefixOf_iff_prefix]
    exact List.prefix_append _ _
  have hlength : "Bearer ".length < ("Bearer " ++ token).length := by
    rw [String.length_append, htoken]
    decide
  rw [bearerToken, hauth]
  simp only [hstarts, hlength, and_self, if_true]
  rw [String.toList_append, ← String.length_toList, List.drop_left, String.ofList_toList]

theorem arriving_front (hd : d.allowedHosts = allowedHosts) (hbase : c.baseUrl = defaultBaseUrl)
    (horigin : c.origin = defaultOrigin) (h : c.prepare api.call = .ok http)
    (input : (r : Route) → Except ℕ r.Input) :
    passesFront d (arriving http input) = true ∧ frontVerdict d (arriving http input) = none := by
  obtain ⟨-, hurl, hheader, -⟩ := prepare_ok h
  obtain ⟨rest, hrest⟩ := path_start api
  have hhost : (arriving http input).host = some "127.0.0.1:7421" := by
    change some (authority http.url) = _
    rw [hurl, hbase, hrest, authority_default]
  have hallowed : (arriving http input).origin = some defaultOrigin :=
    hheader.trans (by rw [horigin])
  rw [passesFront, frontVerdict, hhost, hallowed, hd]
  decide

/-- Only the routes of public calls are open without a token. -/
theorem auth_of_bearer {need : Option Scope} (hbase : c.baseUrl = defaultBaseUrl)
    (h : c.prepare api.call = .ok http)
    (haccess : accessOf (arriving http input) = some (.bearer need)) : api.call.auth = true := by
  obtain ⟨hmethod, hurl, -, -⟩ := prepare_ok h
  have hpath : (arriving http input).path =
      urlPath (defaultBaseUrl.toList ++ api.call.path.toList) := by
    change urlPath http.url = _
    rw [hurl, hbase]
  have hmethod' : (arriving http input).method = api.call.method := hmethod
  rw [accessOf, hmethod', hpath] at haccess
  cases api with
  | health =>
      have hopen : route "GET" (urlPath (defaultBaseUrl.toList ++ "/health".toList)) =
          .found .health := by decide
      simp only [Api.call, getCall, hopen] at haccess
      cases haccess
  | handshake scopes fsRoots =>
      have hopen : route "POST" (urlPath (defaultBaseUrl.toList ++ "/auth/handshake".toList)) =
          .found .handshake := by decide
      simp only [Api.call, postCall, hopen] at haccess
      cases haccess
  | _ => rfl

end

/-! ## Refusals -/

/-- The token had been issued before it was looked up, and its lifetime was over. -/
def Expired (w : World (server d)) (i : ℕ) : Prop :=
  ∃ token between l earlier, w.events = between ++ l :: earlier ∧ l.task = i ∧
    l.op = .lookup token ∧ (∃ o ∈ earlier, ∃ record, issuedBy o = some (token, record)) ∧
      ∀ o ∈ earlier, ∀ record, issuedBy o = some (token, record) →
        o.before.now + tokenTtlSecs * nanosPerSec ≤ l.before.now

/-- The token was issued without the scope that the route asks for. -/
def Lacking (w : World (server d)) (i : ℕ) : Prop :=
  ∃ request token record scope, requestOf w i = some request ∧
    presented d request = some token ∧ (∃ o ∈ w.events, issuedBy o = some (token, record)) ∧
      accessOf request = some (.bearer (some scope)) ∧ scope ∉ record.scopes

/-- The limiter had no room for the token. -/
def Flooded (w : World (server d)) (i : ℕ) : Prop :=
  ∃ request token, requestOf w i = some request ∧ presented d request = some token ∧
    ∃ c ∈ w.events, ∃ now, c.task = i ∧ c.op = .limiterCheck (idOf token) now ∧
      hasRoom c.before.limiter (idOf token) now = false

theorem class_guard {b : ApiError} (hb : guards b = true) :
    classOf b.body.code ≠ .xlpodError ∧ classOf b.body.code ≠ .launcherUnreachable := by
  cases b <;> first | decide | cases hb

/-- Below an error status no exception has a class of its own. -/
theorem received_class {path : String} {r : TransportResponse} {e : XlpodError}
    (h : received L path r = .raised e) (hcls : e.cls ≠ .xlpodError) : 400 ≤ r.statusCode := by
  by_contra hlow
  rw [received, if_neg hlow] at h
  split at h <;> cases h
  exact hcls rfl

theorem response_proper (hj : Known L j) {after before : List (Event (server d))}
    {e : Event (server d)} {response : Response} (hsplit : j.world.events = after ++ e :: before)
    (hop : e.op = .respond response) : Proper response := by
  have hpre : answering.pre ((answeringProtocol d).ghost e.request e.task before) e.op :=
    Interleaving.obeyed (P := answeringProtocol d) (fun request => serve_proper d request)
      (fun _ _ _ _ _ _ _ _ _ _ _ _ => trivial) hj.world after e before hsplit
  rw [hop] at hpre
  exact hpre

/-- An exception with the class of a guard comes from a task that this guard refused. -/
theorem refused_by (hj : Known L j) {outcome : Outcome} {e : XlpodError} {b : ApiError}
    (hx : Explained L j.world ⟨some i, api, outcome⟩) (hraised : outcome = .raised e)
    (hb : guards b = true) (hcls : e.cls = classOf b.body.code) :
    ∃ c http input past after ev before response live full,
      Sending j.world i api c http input past ∧ j.world.events = after ++ ev :: before ∧
        ev.task = i ∧ ev.request = arriving http input ∧ response.body = .error b ∧
          Judged ev before response live full := by
  obtain ⟨hbase, hunreachable⟩ := class_guard hb
  subst hraised
  generalize hexchange : (⟨some i, api, .raised e⟩ : Exchange) = x at hx
  cases hx with
  | unsent => cases hexchange
  | @lost _ _ c reason =>
      cases reason <;> cases hexchange
      exact absurd hcls hunreachable.symm
  | answered hsent hanswered =>
      cases hexchange
      obtain ⟨ev, hev, response, bytes, hi, hop, hsends, hreceived⟩ := hanswered
      obtain ⟨c, http, input, past, hc⟩ := hsent
      obtain ⟨after, before, hsplit⟩ := List.append_of_mem hev
      have hstatus : 400 ≤ response.status :=
        received_class hreceived.symm fun h => hbase (hcls.symm.trans h)
      have hrequest := reachable_recorded hj.world ev hev
      rw [hi, hc.request, Option.some.injEq] at hrequest
      refine ⟨c, http, input, past, after, ev, before, response, _, _, hc, hsplit, hi, hrequest.symm,
        ?_, judged_of_reachable hj.world hsplit hop⟩
      rcases response_proper hj hsplit hop hstatus with ⟨err, herr⟩ | hrejection
      · rw [herr, sendsAs, decide_eq_true_eq] at hsends
        rw [hsends, received_error _ hstatus, Outcome.raised.injEq] at hreceived
        rw [hreceived] at hcls
        rw [herr, classOf_injective hbase hcls]
      · rw [hrejection] at hsends
        rw [received_rejection hsends hstatus, Outcome.raised.injEq] at hreceived
        rw [hreceived] at hcls
        exact absurd hcls hbase.symm

/-- A suffix without the task of a later call ends before that call. -/
theorem suffix_before {l : Event (server d)} {events past earlier between : List (Event (server d))}
    (hpast : past <:+ events) (hfresh : ∀ e ∈ past, e.task ≠ i) (hl : l.task = i)
    (hsplit : events = between ++ l :: earlier) : past <:+ earlier := by
  have hl' : l :: earlier <:+ events := ⟨between, hsplit.symm⟩
  rcases List.suffix_or_suffix_of_suffix hpast hl' with h | h
  · rcases List.suffix_cons_iff.mp h with rfl | h
    · exact absurd hl (hfresh l List.mem_cons_self)
    · exact h
  · exact absurd hl (hfresh l (h.subset List.mem_cons_self))

theorem suffix_issued {events past : List (Event (server d))} {h : Handshake}
    (hpast : past <:+ events) (hissued : IssuedAs past h) :
    ∃ o ∈ events, ∃ record, issuedBy o = some (h.token, record) := by
  obtain ⟨o, ho, record, hrecord, -⟩ := hissued
  exact ⟨o, hpast.subset ho, record, hrecord⟩

/-- What a refusal says of a task of the client. -/
theorem refusal_of (hd : d.allowedHosts = allowedHosts) (hj : Known L j) {outcome : Outcome}
    {e : XlpodError} {b : ApiError} (hx : Explained L j.world ⟨some i, api, outcome⟩)
    (hraised : outcome = .raised e) (hb : guards b = true) (hcls : e.cls = classOf b.body.code) :
    b = .unauthorized ∧ Expired j.world i ∨ b = .scopeDenied ∧ Lacking j.world i ∨
      b = .rateLimited ∧ Flooded j.world i := by
  obtain ⟨c, http, input, past, after, ev, before, response, live, full, hc, hsplit, hi, hrequest,
    hbody, hjudged⟩ := refused_by hj hx hraised hb hcls
  obtain ⟨hpass, hfront⟩ := arriving_front hd hc.baseUrl hc.origin hc.prepared input
  have hverdict := hjudged.verdict
  have hguard : guardError (.error b) = some b := if_pos hb
  rw [hbody, hguard, hrequest] at hverdict
  obtain ⟨access, haccess, hverdict⟩ := Option.bind_eq_some_iff.mp hverdict.symm
  cases access with
  | publicOpen => cases hverdict
  | publicOrigin =>
      rw [verdict, hfront] at hverdict
      cases hverdict
  | bearer need =>
      rw [verdict, hfront, Option.none_or] at hverdict
      have hauth := auth_of_bearer hc.baseUrl hc.prepared haccess
      obtain ⟨token, htoken, hheader⟩ := (prepare_ok hc.prepared).2.2.2 hauth
      obtain ⟨h, hissued, rfl⟩ := hc.token token htoken
      obtain ⟨o, ho, record, hrecord⟩ := suffix_issued hc.earlier hissued
      have hpresented : presented d (arriving http input) = some h.token := by
        rw [presented, haccess, hpass]
        exact bearerToken_arriving (issued_length hj ho hrecord) hheader
      obtain ⟨between, l, earlier, hbefore, hsingle, hlookup, hlive⟩ :=
        hjudged.token h.token (hrequest ▸ hpresented)
      have hli := (of_callsOf_single hsingle).2
      have hevents : j.world.events = (after ++ ev :: between) ++ l :: earlier := by
        rw [hsplit, hbefore]
        simp
      have hpast : past <:+ earlier := suffix_before hc.earlier hc.fresh (hli.trans hi) hevents
      have hmem : ∀ o ∈ earlier, o ∈ j.world.events := fun o ho => by simp [hevents, ho]
      cases live with
      | none =>
          cases hverdict
          refine .inl ⟨rfl, h.token, _, l, earlier, hevents, hli.trans hi, hlookup,
            suffix_issued hpast hissued, fun o ho record hrecord => ?_⟩
          by_contra hlate
          have hfound := (hlive record).mpr ⟨o, ho, hrecord, not_le.mp hlate⟩
          cases hfound
      | some record =>
          obtain ⟨o, ho, hrecord, -⟩ := (hlive record).mp rfl
          cases hfull : full with
          | true =>
              rw [hfull] at hverdict
              cases hverdict
              obtain ⟨check, now, honce, hcop, hroom⟩ :=
                hjudged.limiter h.token record (hrequest ▸ hpresented) rfl
              obtain ⟨hcheck, hci⟩ := of_callsOf_single honce
              rw [hfull, eq_comm, Bool.not_eq_true'] at hroom
              exact .inr (.inr ⟨rfl, _, h.token, hc.request, hpresented, check, by simp [hsplit, hcheck],
                now, hci.trans hi, hcop, hroom⟩)
          | false =>
              rw [hfull] at hverdict
              cases need with
              | none => cases hverdict
              | some scope =>
                  rw [bearerVerdict, if_neg Bool.false_ne_true] at hverdict
                  split at hverdict
                  · cases hverdict
                  · next hscope =>
                      cases hverdict
                      refine .inr (.inl ⟨rfl, _, h.token, record, scope, hc.request, hpresented,
                        ⟨o, hmem o ho, hrecord⟩, haccess, fun hin => hscope ?_⟩)
                      exact List.contains_iff_mem.mpr hin

/-! ## Every run -/

/-- An error arrives as its class with its texts, and the framework's own
answers as the base class. -/
def Tells (outcome : Outcome) (response : Response) : Prop :=
  400 ≤ response.status → (∃ e, response.body = .error e ∧ outcome = .raised (errorOf e.body)) ∨
    response.body = .rejection ∧ outcome = .raised ⟨.xlpodError, str "request failed", none, none⟩

structure Served (L : Stdlib) (j : Joint d) : Prop where
  token : j.client.token = (handshakes j.heard).head?.map Handshake.token
  issued : ∀ h ∈ handshakes j.heard, IssuedAs j.world.events h
  unsent : ∀ later x earlier, j.heard = later ++ x :: earlier → x.task = none →
    x.api.call.auth = true ∧ x.outcome = .raised noToken ∧ handshakes earlier = []
  told : ∀ x ∈ j.heard, ∀ i, x.task = some i → (∃ c reason, x.outcome = lost c x.api reason) ∨
    ∃ e ∈ j.world.events, ∃ response, e.task = i ∧ e.op = .respond response ∧
      Tells x.outcome response
  front : ∀ x ∈ j.heard, ∀ e, x.outcome = .raised e →
    e.cls ≠ .originNotAllowed ∧ e.cls ≠ .hostNotAllowed
  unauthorized : ∀ x ∈ j.heard, ∀ i e, x.task = some i → x.outcome = .raised e →
    e.cls = .unauthorized → Expired j.world i
  scopeDenied : ∀ x ∈ j.heard, ∀ e, x.outcome = .raised e → e.cls = .scopeDenied →
    ∃ i, x.task = some i ∧ Lacking j.world i
  rateLimited : ∀ x ∈ j.heard, ∀ e, x.outcome = .raised e → e.cls = .rateLimited →
    ∃ i, x.task = some i ∧ Flooded j.world i

theorem AnsweredAs.tells {api : Api} {outcome : Outcome} (hj : Known L j)
    (hanswered : AnsweredAs L j.world i api outcome) : ∃ e ∈ j.world.events, ∃ response,
      e.task = i ∧ e.op = .respond response ∧ Tells outcome response := by
  obtain ⟨e, he, response, bytes, hi, hop, hsends, rfl⟩ := hanswered
  obtain ⟨after, before, hsplit⟩ := List.append_of_mem he
  refine ⟨e, he, response, hi, hop, fun hstatus => ?_⟩
  rcases response_proper hj hsplit hop hstatus with ⟨err, herr⟩ | hrejection
  · rw [herr, sendsAs, decide_eq_true_eq] at hsends
    exact .inl ⟨err, herr, hsends ▸ received_error _ hstatus⟩
  · rw [hrejection] at hsends
    exact .inr ⟨hrejection, received_rejection hsends hstatus⟩

/-- In every run, whatever else happens at the launcher. -/
theorem client_served (L : Stdlib) (d : Deployment) (hd : d.allowedHosts = allowedHosts) (j : Joint d)
    (h : Reachable (machine L d) (fun j a => drawnTokens j a = true) j) : Served L j := by
  have hj := known_of_reachable h
  have hexplained {x : Exchange} (hx : x ∈ j.heard) {i : ℕ} (htask : x.task = some i) :
      Explained L j.world ⟨some i, x.api, x.outcome⟩ := htask ▸ hj.heard x hx
  have hrefusal {x : Exchange} {e : XlpodError} {b : ApiError} (hx : x ∈ j.heard)
      (hraised : x.outcome = .raised e) (hb : guards b = true) (hcls : e.cls = classOf b.body.code)
      (hlocal : b ≠ .unauthorized) : ∃ i, x.task = some i ∧
        (b = .scopeDenied ∧ Lacking j.world i ∨ b = .rateLimited ∧ Flooded j.world i) := by
    cases htask : x.task with
    | none =>
        have hunsent := hj.heard x hx
        obtain ⟨task, api, outcome⟩ := x
        cases hunsent with
        | unsent =>
            cases hraised
            have hclass : classOf b.body.code = classOf ApiError.unauthorized.body.code := hcls.symm
            exact absurd (classOf_injective (b := .unauthorized) (by decide) hclass) hlocal
        | _ => cases htask
    | some i =>
        refine ⟨i, rfl, ?_⟩
        exact (refusal_of hd hj (hexplained hx htask) hraised hb hcls).resolve_left fun h => hlocal h.1
  constructor
  · exact hj.token
  · exact hj.issued
  · intro later x earlier hsplit htask
    have hunsent := hj.heard x (by simp [hsplit])
    have hnone := hj.tokenless later x earlier hsplit htask
    cases hunsent with
    | unsent hauth => exact ⟨hauth, rfl, hnone⟩
    | _ => cases htask
  · intro x hx i htask
    have hanswered := hj.heard x hx
    cases hanswered with
    | unsent => cases htask
    | lost => exact .inl ⟨_, _, rfl⟩
    | answered _ hanswered =>
        cases htask
        exact .inr (hanswered.tells hj)
  · intro x hx e hraised
    constructor
    · intro hcls
      obtain ⟨i, -, ⟨hb, -⟩ | ⟨hb, -⟩⟩ := hrefusal (b := .originNotAllowed) hx hraised rfl hcls nofun
      · cases hb
      · cases hb
    · intro hcls
      obtain ⟨i, -, ⟨hb, -⟩ | ⟨hb, -⟩⟩ := hrefusal (b := .hostNotAllowed) hx hraised rfl hcls nofun
      · cases hb
      · cases hb
  · intro x hx i e htask hraised hcls
    rcases refusal_of hd hj (b := .unauthorized) (hexplained hx htask) hraised rfl hcls with
      ⟨-, hexpired⟩ | ⟨hb, -⟩ | ⟨hb, -⟩
    · exact hexpired
    · cases hb
    · cases hb
  · intro x hx e hraised hcls
    obtain ⟨i, htask, ⟨-, hlacking⟩ | ⟨hb, -⟩⟩ :=
      hrefusal (b := .scopeDenied) hx hraised rfl hcls nofun
    · exact ⟨i, htask, hlacking⟩
    · cases hb
  · intro x hx e hraised hcls
    obtain ⟨i, htask, ⟨hb, -⟩ | ⟨-, hflooded⟩⟩ :=
      hrefusal (b := .rateLimited) hx hraised rfl hcls nofun
    · cases hb
    · exact ⟨i, htask, hflooded⟩

/-! ### Without the scope -/

/-- The client is granted one scope and asks for a route that needs another. -/
def scopeMissing (token : String) : List (Label firstLaunch) :=
  .call 0 (.handshake ["run:python"] none) (fun r => if h : r = .handshake then
      .ok (h ▸ (⟨[.runPython], []⟩ : Routes.HandshakeRequest)) else .error 422) ::
    List.replicate 5 (.launcher (.call 0 { token := token, approved := true })) ++
    .answer 0 (LogLines.recordLine (handshakeJson token [.runPython] [] tokenTtlSecs)) ::
    .call 1 .getCostToday (fun _ => .error 422) ::
    List.replicate 5 (.launcher (.call 1 {})) ++
    [.answer 1 (LogLines.recordLine (errorJson ApiError.scopeDenied.body))]

def deniedLast (j : Joint d) : Bool :=
  match j.heard with
  | ⟨some _, _, .raised e⟩ :: _ => e.cls = .scopeDenied
  | _ => false

theorem served_scopeMissing : ∃ j, Reachable (machine plainStdlib firstLaunch)
    (fun j a => drawnTokens j a = true) j ∧ deniedLast j = true ∧ Served plainStdlib j := by
  obtain ⟨j, hj, ht⟩ := replay_reaches (machine plainStdlib firstLaunch)
    (fun j a => drawnTokens j a = true) drawnTokens
    (scopeMissing (String.ofList (List.replicate 64 'a'))) deniedLast (fun _ _ h => h)
    (by decide +kernel)
  exact ⟨j, hj, ht, client_served plainStdlib firstLaunch rfl j hj⟩

end

end Xlpod.ClientSessions
