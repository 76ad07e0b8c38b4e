import Xlpod.AuditTrail
import Xlpod.Provenance
import Xlpod.Serving
import Xlpod.Library.SoloRuns
import Mathlib.Data.Fintype.EquivFin

/-!
# What the upstream can do to a chat

An error status is reported with the first 400 bytes of its text, and cutting
inside a character panics. Nothing else the upstream answers does: where every
error text is short or has a character boundary there, each request in progress
can still be answered and entered in the audit log.
-/
namespace Xlpod.UpstreamAnswers
open Xlpod.ApiErrors Xlpod.Auth Xlpod.AiTypes Xlpod.AnthropicWire Xlpod.BundlePayload
open Xlpod.ByteEncodings Xlpod.GuardedRuns Xlpod.Programs Xlpod.Interleaving Xlpod.SessionStores
open Xlpod.ServerState Xlpod.ServerCalls Xlpod.ToolDispatch Xlpod.ChatRoute Xlpod.Server
open Xlpod.Footprints Xlpod.Serving Xlpod.SoloRuns Xlpod.Provenance

/-! ## Responses -/

/-- An HTTP response of the upstream: the text of its body, and what the decoder
makes of the body. -/
structure Answer where
  status : ℕ
  text : List Char
  json : Option WireResponse

/-- A character ends at byte `n`. -/
def IsBoundary (text : List Char) (n : ℕ) : Prop :=
  ∃ a b, text = a ++ b ∧ (encodeUtf8 a).length = n

/-- A success, a short text, or one with a boundary where it is cut. -/
def Sliceable (r : Answer) : Prop :=
  isSuccess r.status = true ∨ (encodeUtf8 r.text).length ≤ truncateMax ∨
    IsBoundary r.text truncateMax

theorem encodeUtf8_cons (c : Char) (cs : List Char) :
    encodeUtf8 (c :: cs) = encodeUtf8 [c] ++ encodeUtf8 cs := by
  simp [encodeUtf8]

theorem slicePrefix_ne_none {text : List Char} {n : ℕ} :
    slicePrefix text n ≠ none ↔ IsBoundary text n := by
  induction text generalizing n with
  | nil =>
      cases n with
      | zero => exact ⟨fun _ => ⟨[], [], rfl, rfl⟩, fun _ => nofun⟩
      | succ n =>
          refine ⟨fun h => absurd rfl h, ?_⟩
          rintro ⟨a, b, hab, hlength⟩
          rw [(List.append_eq_nil_iff.mp hab.symm).1] at hlength
          cases hlength
  | cons c cs ih =>
      cases n with
      | zero => exact ⟨fun _ => ⟨[], c :: cs, rfl, rfl⟩, fun _ => nofun⟩
      | succ n =>
          have hsplit : IsBoundary (c :: cs) (n + 1) ↔ (encodeUtf8 [c]).length ≤ n + 1 ∧
              IsBoundary cs (n + 1 - (encodeUtf8 [c]).length) := by
            constructor
            · rintro ⟨a, b, hab, hlength⟩
              cases a with
              | nil => cases hlength
              | cons c' a =>
                  obtain ⟨rfl, rfl⟩ := List.cons.inj hab
                  rw [encodeUtf8_cons, List.length_append] at hlength
                  exact ⟨by omega, a, b, rfl, by omega⟩
            · rintro ⟨hle, a, b, rfl, hlength⟩
              refine ⟨c :: a, b, rfl, ?_⟩
              rw [encodeUtf8_cons, List.length_append]
              omega
          rw [hsplit, ← ih]
          change (if (encodeUtf8 [c]).length ≤ n + 1 then
            (slicePrefix cs (n + 1 - (encodeUtf8 [c]).length)).map (c :: ·) else none) ≠ none ↔ _
          by_cases hle : (encodeUtf8 [c]).length ≤ n + 1 <;> simp [hle]

theorem truncateForLog_ne_none {text : List Char} : truncateForLog text ≠ none ↔
    (encodeUtf8 text).length ≤ truncateMax ∨ IsBoundary text truncateMax := by
  rw [truncateForLog]
  by_cases hlong : truncateMax < (encodeUtf8 text).length
  · rw [if_pos hlong, ← slicePrefix_ne_none, or_iff_right (Nat.not_le_of_lt hlong)]
    simp
  · rw [if_neg hlong]
    simp [Nat.le_of_not_lt hlong]

theorem sliceable_iff {r : Answer} :
    Sliceable r ↔ isSuccess r.status = true ∨ truncateForLog r.text ≠ none := by
  rw [truncateForLog_ne_none]
  rfl

/-! ## One call of the provider -/

/-- The environment of one call: the keychain, the status, the body. -/
def Answer.environment (r : Answer) (keychain : Environment) : List Environment :=
  [keychain, { status := some r.status }, { text := r.text, json := r.json }]

/-- `AnthropicProvider::chat` returns, whatever it is asked and whatever the
keychain does. -/
def Returns (r : Answer) : Prop :=
  ∀ (p : AnthropicProvider) messages tools maxTokens s keychain, ∃ turn s' rest,
    perform exec (anthropicChat p messages tools maxTokens).run s (r.environment keychain) =
      some (turn, s', rest)

/-- The body of an error status is read and cut, that of a success decoded. -/
theorem perform_failure (r : Answer) (s : AppState) :
    perform exec upstreamFailure.run s [{ text := r.text, json := r.json }] =
      (truncateForLog r.text).map fun _ => (.error .upstream, s, []) := by
  have htext : perform exec (liftM httpText : ExceptT ProviderError Server (List Char)).run s
      [{ text := r.text, json := r.json }] = some (.ok r.text, s, []) := rfl
  rw [upstreamFailure, perform_exceptBind, htext, Option.bind_some, afterwards]
  cases truncateForLog r.text <;> rfl

theorem perform_answer (r : Answer) (s : AppState) : ∃ turn,
    perform exec upstreamAnswer.run s [{ text := r.text, json := r.json }] =
      some (turn, s, []) := by
  have hjson : perform exec
      (liftM httpJson : ExceptT ProviderError Server (Option WireResponse)).run s
      [{ text := r.text, json := r.json }] = some (.ok r.json, s, []) := rfl
  rw [upstreamAnswer, perform_exceptBind, hjson, Option.bind_some, afterwards]
  cases r.json <;> exact ⟨_, rfl⟩

/-- The call once the key is there and has been sent. -/
theorem perform_keyed (p : AnthropicProvider) (messages : List ChatMessage) (tools : List ToolSpec)
    (maxTokens : Option ℕ) (r : Answer) {s : AppState} {keychain : Environment} {key : String}
    (hworks : keychain.keychainWorks = true) (hkey : s.keychain "anthropic_api_key" = some key) :
    perform exec (anthropicChat p messages tools maxTokens).run s (r.environment keychain) =
      if legalHeaderValue key then
        perform exec (if !isSuccess r.status then upstreamFailure else upstreamAnswer).run s
          [{ text := r.text, json := r.json }]
      else some (.error .upstream, s, [{ text := r.text, json := r.json }]) := by
  have hread : perform exec (liftM (keychainRead "anthropic_api_key") :
      ExceptT ProviderError Server (Option (Option String))).run s (r.environment keychain) =
      some (.ok (some (some key)), s,
        [{ status := some r.status }, { text := r.text, json := r.json }]) := by
    change some (Except.ok (if keychain.keychainWorks then _ else _), _) = _
    rw [hworks, if_pos rfl, hkey]
  have hlegal (body : WireRequest) : (httpPost p key body).legal = legalHeaderValue key := by
    have hfixed : legalHeaderValue anthropicApiVersion = true ∧
        legalHeaderValue "application/json" = true := by decide
    simp [HttpPost.legal, httpPost, hfixed]
  have hsend (body : WireRequest) : perform exec (liftM (httpSend (httpPost p key body)) :
      ExceptT ProviderError Server (Option ℕ)).run s
        [{ status := some r.status }, { text := r.text, json := r.json }] =
      some (.ok (if legalHeaderValue key then some r.status else none), s,
        [{ text := r.text, json := r.json }]) := by
    change some (Except.ok (if HttpPost.legal _ then _ else _), _) = _
    rw [hlegal]
  rw [anthropicChat, perform_exceptBind, hread, Option.bind_some, afterwards, perform_exceptBind,
    hsend, Option.bind_some, afterwards]
  cases legalHeaderValue key <;> rfl

theorem returns_of_sliceable {r : Answer} (h : Sliceable r) : Returns r := by
  intro p messages tools maxTokens s keychain
  have hunread (hnone : (if keychain.keychainWorks then some (s.keychain "anthropic_api_key")
      else none).getD none = none) : perform exec (anthropicChat p messages tools maxTokens).run s
      (r.environment keychain) = some (.error .unconfigured, s,
        [{ status := some r.status }, { text := r.text, json := r.json }]) := by
    have hread : perform exec (liftM (keychainRead "anthropic_api_key") :
        ExceptT ProviderError Server (Option (Option String))).run s (r.environment keychain) =
        some (.ok (if keychain.keychainWorks then some (s.keychain "anthropic_api_key") else none),
          s, [{ status := some r.status }, { text := r.text, json := r.json }]) := rfl
    rw [anthropicChat, perform_exceptBind, hread, Option.bind_some, afterwards]
    split at hnone
    · next hworks =>
        change s.keychain "anthropic_api_key" = none at hnone
        rw [if_pos hworks, hnone]
        rfl
    · next hworks =>
        rw [if_neg hworks]
        rfl
  by_cases hworks : keychain.keychainWorks = true
  · cases hkey : s.keychain "anthropic_api_key" with
    | none => exact ⟨_, _, _, hunread (by rw [if_pos hworks, hkey]; rfl)⟩
    | some key =>
        rw [perform_keyed p messages tools maxTokens r hworks hkey]
        by_cases hlegal : legalHeaderValue key = true
        · rw [if_pos hlegal]
          by_cases hsuccess : isSuccess r.status = true
          · obtain ⟨turn, hturn⟩ := perform_answer r s
            rw [hsuccess, Bool.not_true, if_neg Bool.false_ne_true]
            exact ⟨turn, s, [], hturn⟩
          · have hcut := (sliceable_iff.mp h).resolve_left hsuccess
            obtain ⟨cut, hcut⟩ := Option.ne_none_iff_exists'.mp hcut
            rw [Bool.not_eq_true] at hsuccess
            rw [hsuccess, Bool.not_false, if_pos rfl, perform_failure, hcut]
            exact ⟨_, _, _, rfl⟩
        · exact ⟨_, _, _, if_neg hlegal⟩
  · exact ⟨_, _, _, hunread (by rw [if_neg hworks]; rfl)⟩

/-- With a key, the text of an error status is cut. -/
theorem sliceable_of_returns {r : Answer} (h : Returns r) : Sliceable r := by
  refine sliceable_iff.mpr ?_
  by_cases hsuccess : isSuccess r.status = true
  · exact .inl hsuccess
  · refine .inr fun hcut => ?_
    obtain ⟨turn, s', rest, hturn⟩ := h newAnthropicProvider [] [] none keyedLaunch.launched {}
    have hlegal : legalHeaderValue "key" = true := by decide
    rw [perform_keyed newAnthropicProvider [] [] none r rfl rfl, if_pos hlegal] at hturn
    rw [Bool.not_eq_true] at hsuccess
    rw [hsuccess, Bool.not_false, if_pos rfl, perform_failure, hcut] at hturn
    cases hturn

/-! ## What a chat hears -/

/-- The status of the last response. -/
def heard (status : Option ℕ) : (op : Op) → op.Reply → Option ℕ
  | .httpSend _, status' => status'
  | _, _ => status

section
variable {d : Deployment}

def lastStatus (i : ℕ) (events : List (Event (server d))) : Option ℕ := track heard none i events

/-- What the environment offers is part of a response of `R`, after its status
the body. -/
def Offers (R : Set Answer) (status : Option ℕ) (env : Environment) : Op → Prop
  | .httpSend _ => ∀ status', env.status = some status' → ∃ r ∈ R, r.status = status'
  | .httpText => ∃ r ∈ R, status = some r.status ∧ env.text = r.text
  | .httpJson => ∃ r ∈ R, status = some r.status ∧ env.json = r.json
  | _ => True

/-- The upstream answers with a response of `R`, if it answers. -/
def answering (R : Set Answer) (w : World (server d)) : Label (server d) → Prop
  | .call i env => ∀ request op, w.about i = some (request, op) →
      Offers R (lastStatus i w.events) env op
  | _ => True

end

/-- A body is read after a status, and nothing panics. -/
def conduct (R : Set Answer) : Contract api (Option ℕ) where
  pre status op :=
    match op with
    | .httpText | .httpJson => ∃ r ∈ R, status = some r.status
    | .panicked => False
    | _ => True
  fact status op reply :=
    match op, reply with
    | .httpSend _, reply => ∀ status', reply = some status' → ∃ r ∈ R, r.status = status'
    | .httpText, text => ∃ r ∈ R, status = some r.status ∧ text = r.text
    | _, _ => True
  next := heard

def protocol (d : Deployment) (R : Set Answer) : Protocol (server d) (Option ℕ) where
  contract _ := conduct R
  start _ := none
  post _ _ := True

/-- Nothing to do with the upstream. -/
def freeOps : Op → Prop
  | .httpSend _ | .httpText | .httpJson | .panicked => False
  | _ => True

section
variable {R : Set Answer}

theorem ignores_free : Ignores (conduct R) freeOps := by
  intro status op ho
  cases op <;> first | exact ho.elim | exact ⟨trivial, fun _ => rfl⟩

variable (hR : ∀ r ∈ R, Sliceable r)

include hR in
/-- The text of an error status can be cut. -/
theorem upstreamFailure_conduct {status : ℕ} (hfailed : isSuccess status = false)
    (hheard : ∃ r ∈ R, r.status = status) :
    Meets (conduct R) upstreamFailure.run (some status) fun _ _ => True := by
  apply meets_exceptBind.mpr
  apply meets_lift.mpr
  obtain ⟨r₀, hr₀, hstatus₀⟩ := hheard
  refine ⟨⟨r₀, hr₀, congrArg some hstatus₀.symm⟩, fun text htext => ?_⟩
  obtain ⟨r, hr, hstatus, rfl⟩ := htext
  rw [Option.some.injEq] at hstatus
  have hcut : truncateForLog r.text ≠ none := by
    refine (sliceable_iff.mp (hR r hr)).resolve_left ?_
    rw [← hstatus, hfailed]
    exact Bool.false_ne_true
  rw [meets_done, onResult_ok]
  cases htruncated : truncateForLog r.text with
  | none => exact absurd htruncated hcut
  | some _ => trivial

theorem upstreamAnswer_conduct {status : ℕ} (hheard : ∃ r ∈ R, r.status = status) :
    Meets (conduct R) upstreamAnswer.run (some status) fun _ _ => True := by
  obtain ⟨r, hr, hstatus⟩ := hheard
  refine ⟨⟨r, hr, congrArg some hstatus.symm⟩, fun parsed _ => ?_⟩
  cases parsed <;> trivial

include hR in
theorem anthropicChat_conduct (p : AnthropicProvider) (messages : List ChatMessage)
    (tools : List ToolSpec) (maxTokens : Option ℕ) (status : Option ℕ) :
    Meets (conduct R) (anthropicChat p messages tools maxTokens).run status fun _ _ => True := by
  apply ignores_free.step (Op.keychainRead "anthropic_api_key") trivial
  intro key
  rcases key with - | - | key
  · trivial
  · trivial
  · refine ⟨trivial, fun answered hanswered => ?_⟩
    cases answered with
    | none => trivial
    | some status' =>
        have hheard := hanswered status' rfl
        apply meets_exceptIte.mpr
        refine ⟨fun hfailed => ?_, fun _ => upstreamAnswer_conduct hheard⟩
        exact upstreamFailure_conduct hR (by simpa using hfailed) hheard

include hR in
theorem provider_conduct (provider : Provider) (history : List ChatMessage) (maxTokens : Option ℕ)
    (status : Option ℕ) :
    Meets (conduct R) (providerTurn provider history maxTokens).run status fun _ _ => True := by
  apply meets_exceptBind.mpr
  apply meets_lift.mpr
  cases provider with
  | anthropic apiUrl =>
      refine (anthropicChat_conduct hR _ history _ maxTokens status).mono fun status' r _ => ?_
      cases r <;> trivial
  | external name =>
      refine ⟨trivial, fun r _ => ?_⟩
      cases r <;> trivial

include hR in
/-- Nothing is owed between the turns. -/
def outline (provider : Provider) (session : Session) (body : ChatRequest Uuid) :
    Outline (conduct R) provider session body where
  ready _ := True
  asked _ _ := True
  stored _ _ := True
  charged _ _ := True
  answered _ _ _ := True
  ended _ := True
  ended_of_ready _ _ := trivial
  ask status history _ :=
    (provider_conduct hR provider history body.maxTokens status).mono fun _ r _ => by
      cases r <;> trivial
  store _ _ _ := ⟨trivial, fun r _ => by cases r <;> trivial⟩
  charge _ _ _ := by
    refine Meets.mono (ignores_free.mono (fun op ho => ?_) |>.meets (recordCost_uses _ _ _))
      fun _ _ _ => trivial
    cases op <;> first | exact ho.elim | trivial
  finish _ _ _ _ := trivial
  answer _ _ _ _ := by
    refine Meets.mono (ignores_free.mono (fun op ho => ?_) |>.meets (executeToolUses_uses _ _))
      fun _ _ _ => trivial
    cases op <;> first | exact ho.elim | trivial
  reply _ _ _ _ := ⟨trivial, fun r _ => by cases r <;> trivial⟩

include hR in
theorem aiChat_conduct (providers : ProviderRegistry) (body : ChatRequest Uuid)
    (status : Option ℕ) : Meets (conduct R) (aiChat providers body).run status fun _ _ => True := by
  apply aiChat_meets fun _ => True
  · exact ignores_free.mono fun op ho => by subst ho; trivial
  · trivial
  · refine ⟨trivial, fun r _ => ?_⟩
    cases r with
    | error e => trivial
    | ok session =>
        refine ⟨trivial, fun provider _ => ⟨trivial, fun r _ => ?_⟩⟩
        cases r with
        | error e => trivial
        | ok _ =>
            refine ⟨trivial, fun r _ => ?_⟩
            cases r with
            | error e => trivial
            | ok current => exact ⟨outline hR provider session body, rfl, trivial⟩

include hR in
theorem serve_conduct (d : Deployment) (request : Request) :
    Meets (conduct R) ((server d).serve request) none fun _ _ => True := by
  apply serve_meets (Q := fun _ => True)
  · exact ignores_free.mono fun op ho => by cases op <;> first | exact ho.elim | trivial
  · trivial
  · intro r input token _
    by_cases hchat : r = .aiChat
    · subst hchat
      exact aiChat_conduct hR d.providers input none
    · have huses := handler_uses d request.origin token r input
      refine (ignores_free.mono fun op ho => ?_).meets huses |>.mono fun _ _ _ => trivial
      cases r with
      | aiChat => exact absurd rfl hchat
      | _ => cases op <;> first | exact ho.elim | trivial

end

/-! ## Every call is answered -/

section
variable {d : Deployment} {R : Set Answer} {w : World (server d)} {i : ℕ}

theorem sound (d : Deployment) (R : Set Answer) : Sound (protocol d R) (answering R) := by
  intro w i env request op rest r s _ hguard hi hexec
  have hoffers := hguard request op (World.about_of_call hi)
  cases op with
  | httpSend post =>
      cases hexec
      intro status hstatus
      split at hstatus
      · exact hoffers status hstatus
      · cases hstatus
  | httpText =>
      cases hexec
      exact hoffers
  | _ => trivial

theorem exists_freshToken {guard : World (server d) → Label (server d) → Prop}
    (h : Reachable (machine (server d)) guard w) : ∃ token, w.shared.tokens token = none := by
  obtain ⟨token, htoken⟩ := Infinite.exists_notMem_finset
    ((w.events.filterMap fun e => (issuedBy e).map Prod.fst).toFinset)
  refine ⟨token, Option.eq_none_iff_forall_ne_some.mpr fun record hrecord => htoken ?_⟩
  obtain ⟨e, he, hissued⟩ := (token_issued h token record).mp hrecord
  refine List.mem_toFinset.mpr (List.mem_filterMap.mpr ⟨e, he, ?_⟩)
  rw [hissued]
  rfl

theorem exists_freshSession {guard : World (server d) → Label (server d) → Prop}
    (h : Reachable (machine (server d)) guard w) : ∃ id, w.shared.sessions id = none := by
  obtain ⟨id, hid⟩ := Infinite.exists_notMem_finset
    ((w.events.filterMap fun e => (openedBy e).map Session.id).toFinset)
  refine ⟨id, Option.eq_none_iff_forall_ne_some.mpr fun session hsession => hid ?_⟩
  obtain ⟨hsame, e, he, first, hfirst, hfirstSame⟩ := session_opened h hsession
  refine List.mem_toFinset.mpr (List.mem_filterMap.mpr ⟨e, he, ?_⟩)
  rw [hfirst, hsame, ← hfirstSame.1]
  rfl

theorem exists_freshWindow (windows : TrustWindowStore) :
    ∃ id, (windows.any fun window => window.id = id) = false := by
  obtain ⟨id, hid⟩ := Infinite.exists_notMem_finset ((windows.map TrustWindow.id).toFinset)
  refine ⟨id, List.any_eq_false.mpr fun window hwindow hsame => hid ?_⟩
  exact List.mem_toFinset.mpr (List.mem_map.mpr ⟨window, hwindow, by simpa using hsame⟩)

/-- Whatever a request asks for, some answer is possible. -/
theorem exists_answer (h : Reachable (machine (server d)) (answering R) w) {request : Request}
    {op : Op} {rest : op.Reply → Server Unit}
    (hi : w.tasks i = some ⟨request, some (.call op rest)⟩)
    (hpre : (conduct R).pre (lastStatus i w.events) op) :
    ∃ env r s, answering R w (.call i env) ∧ exec w.shared env op = some (r, s) := by
  have hanswering (env : Environment) (hoffers : Offers R (lastStatus i w.events) env op) :
      answering R w (.call i env) := by
    intro request' op' habout
    rw [World.about_of_call hi] at habout
    cases habout
    exact hoffers
  cases op with
  | issue scopes fsRoots =>
      obtain ⟨token, hfresh⟩ := exists_freshToken h
      obtain ⟨⟨r, s⟩, hexec⟩ :
          ∃ x, exec w.shared { token := token } (.issue scopes fsRoots) = some x := by
        simp only [exec, hfresh]
        exact ⟨_, rfl⟩
      exact ⟨_, r, s, hanswering _ trivial, hexec⟩
  | openSession provider model internalBearer scopes fsRoots =>
      obtain ⟨id, hfresh⟩ := exists_freshSession h
      obtain ⟨⟨r, s⟩, hexec⟩ : ∃ x, exec w.shared { uuid := id }
          (.openSession provider model internalBearer scopes fsRoots) = some x := by
        simp only [exec, hfresh]
        exact ⟨_, rfl⟩
      exact ⟨_, r, s, hanswering _ trivial, hexec⟩
  | openWindow sessionId tools durationSecs =>
      obtain ⟨id, hfresh⟩ := exists_freshWindow w.shared.windows
      obtain ⟨⟨r, s⟩, hexec⟩ : ∃ x, exec w.shared { uuid := id }
          (.openWindow sessionId tools durationSecs) = some x := by
        simp only [exec, hfresh]
        exact ⟨_, rfl⟩
      exact ⟨_, r, s, hanswering _ trivial, hexec⟩
  | httpSend post =>
      have hexec : exec w.shared {} (.httpSend post) = some (none, w.shared) := by simp [exec]
      exact ⟨{}, none, w.shared, hanswering _ (by simp [Offers]), hexec⟩
  | httpText =>
      obtain ⟨r, hr, hstatus⟩ := hpre
      exact ⟨{ text := r.text }, r.text, w.shared, hanswering _ ⟨r, hr, hstatus, rfl⟩, rfl⟩
  | httpJson =>
      obtain ⟨r, hr, hstatus⟩ := hpre
      exact ⟨{ json := r.json }, r.json, w.shared, hanswering _ ⟨r, hr, hstatus, rfl⟩, rfl⟩
  | panicked => exact hpre.elim
  | _ => exact ⟨{}, _, _, hanswering _ trivial, rfl⟩

/-- The request was responded to and has its one entry. -/
def Entered (i : ℕ) (request : Request) (w : World (server d)) : Prop :=
  (∃ e ∈ w.events, e.task = i ∧ ∃ response, e.op = .respond response) ∧
    ∃ entry, AuditTrail.attemptsOf i w.events = [entry] ∧ AuditTrail.Describes entry request

/-- The middleware leaves its first phase by responding. -/
theorem respond_of_running {request : Request} {op : Op} {reply : op.Reply}
    (hpre : (AuditTrail.conduct request).pre .running op)
    (hnext : (AuditTrail.conduct request).next .running op reply ≠ .running) :
    ∃ response, op = .respond response := by
  cases op with
  | respond response => exact ⟨response, rfl⟩
  | auditWrite entry => cases hpre.1
  | _ => exact absurd rfl hnext

/-- The one entry of a request comes after its response. -/
theorem entered_of_done {guard : World (server d) → Label (server d) → Prop} {request : Request}
    (h : Reachable (machine (server d)) guard w)
    (hi : w.tasks i = some ⟨request, some (.done ())⟩) : Entered i request w := by
  have hghost : (AuditTrail.protocol d).ghost request i w.events = .written :=
    follows (AuditTrail.serve_conduct d) (AuditTrail.sound d guard) h i request _ hi
  have hrequest : requestOf w i = some request := by
    rw [requestOf, hi]
    rfl
  have hentry := AuditTrail.attempts_of_reachable h hrequest
  rw [hghost] at hentry
  refine ⟨?_, hentry⟩
  have hover : (AuditTrail.protocol d).ghost request i w.events ≠ .running := by
    rw [hghost]
    simp
  obtain ⟨after, e, before, he, htask, hold, hnew⟩ :=
    track_origin (P := fun phase => phase ≠ AuditTrail.Phase.running) (fun h => h rfl) hover
  refine ⟨e, by simp [he], htask, ?_⟩
  have hpre := AuditTrail.calls_of_reachable h hrequest he htask
  have hrunning : (AuditTrail.protocol d).ghost request i before = .running := not_not.mp hold
  rw [hrunning] at hpre
  rw [not_not.mp hold] at hnew
  exact respond_of_running hpre hnew

/-- Every response of `R` is survived: the call returns, and every request in
progress can be responded to and entered. -/
structure Survives (d : Deployment) (R : Set Answer) : Prop where
  returns : ∀ r ∈ R, Returns r
  entered : ∀ w i request p, Reachable (machine (server d)) (answering R) w →
    w.tasks i = some ⟨request, some p⟩ →
      ∃ v, Run (machine (server d)) (answering R) w v ∧ Entered i request v

theorem survives_iff (d : Deployment) (R : Set Answer) :
    Survives d R ↔ ∀ r ∈ R, Sliceable r := by
  constructor
  · intro h r hr
    exact sliceable_of_returns (h.returns r hr)
  · intro hR
    refine ⟨fun r hr => returns_of_sliceable (hR r hr), fun w i request p h hi => ?_⟩
    obtain ⟨v, hrun, hdone⟩ := can_finish (P := protocol d R) (serve_conduct hR d) (sound d R)
      (fun _ _ _ _ h hi hpre => exists_answer h hi hpre) h hi
    exact ⟨v, hrun, entered_of_done (h.run hrun) hdone⟩

/-! ## A chat that is lost -/

/-- The task panicked before its entry. -/
def Lost (i : ℕ) (w : World (server d)) : Prop :=
  AuditTrail.attemptsOf i w.events = [] ∧ ∃ request, w.tasks i = some ⟨request, none⟩ ∨
    ∃ rest, w.tasks i = some ⟨request, some (.call .panicked rest)⟩

/-- Nothing runs of it any more. -/
theorem Lost.run {guard : World (server d) → Label (server d) → Prop} {v : World (server d)}
    (h : Lost i w) (hrun : Run (machine (server d)) guard w v) : Lost i v := by
  refine hrun.carry h fun u a v hu _ hn => ?_
  obtain ⟨hnone, request, htask⟩ := hu
  cases step_of_next hn with
  | @arrive j request' hj =>
      have hij : i ≠ j := by
        rintro rfl
        rcases htask with hi | ⟨rest, hi⟩ <;> rw [hi] at hj <;> cases hj
      refine ⟨hnone, request, ?_⟩
      rw [setTask_other u _ hij]
      exact htask
  | @call j env request' op rest' r s hj hexec =>
      have hij : i ≠ j := by
        rintro rfl
        rcases htask with hi | ⟨rest, hi⟩
        · rw [hi] at hj
          cases hj
        · rw [hi] at hj
          cases hj
          cases hexec
      refine ⟨?_, request, ?_⟩
      · rw [AuditTrail.attemptsOf, List.filterMap_cons, if_neg (Ne.symm hij)]
        exact hnone
      · exact (setTask_other u _ hij).symm ▸ htask
  | @drop j request' op rest' hj _ =>
      by_cases hij : i = j
      · subst hij
        exact ⟨hnone, request', .inl (setTask_self ..)⟩
      · refine ⟨hnone, request, ?_⟩
        rw [setTask_other u _ hij]
        exact htask
  | elapse => exact ⟨hnone, request, htask⟩

end

section
variable {d : Deployment}

/-- The check behind `answering`, for one response. -/
def offered (r : Answer) (w : World (server d)) : Label (server d) → Bool
  | .call i env =>
      match w.about i with
      | some (_, .httpSend _) => env.status = some r.status
      | some (_, .httpText) => lastStatus i w.events = some r.status && env.text = r.text
      | some (_, .httpJson) => false
      | _ => true
  | _ => true

theorem answering_of_offered (r : Answer) (w : World (server d)) (a : Label (server d))
    (h : offered r w a = true) : answering {r} w a := by
  cases a with
  | call i env =>
      intro request op habout
      simp only [offered, habout] at h
      cases op with
      | httpSend post =>
          intro status hstatus
          rw [of_decide_eq_true h, Option.some.injEq] at hstatus
          exact ⟨r, rfl, hstatus⟩
      | httpText =>
          obtain ⟨hstatus, htext⟩ := Bool.and_eq_true_iff.mp h
          exact ⟨r, rfl, of_decide_eq_true hstatus, of_decide_eq_true htext⟩
      | httpJson => cases h
      | _ => trivial
  | _ => trivial

def panicking (i : ℕ) (w : World (server d)) : Bool :=
  (match w.tasks i with
    | some ⟨_, some (.call .panicked _)⟩ => true
    | _ => false) && (AuditTrail.attemptsOf i w.events).isEmpty

end

/-- A page of Hangul, three bytes to the syllable. -/
def overloaded : Answer := ⟨503, List.replicate 134 '값', none⟩

/-- The chat up to the text of the error. -/
def lostChat : List (Label (server keyedLaunch)) :=
  handshakeRun 0 "a" [.aiProviderCall] ++ sessionRun 1 "a" 1 none ++
    chatRun 2 "a" 1 11 { status := some overloaded.status, text := overloaded.text }

theorem not_survives_overloaded : ¬ Survives keyedLaunch {overloaded} := by
  intro h
  obtain ⟨w, hw, ht⟩ := replay_reaches (machine (server keyedLaunch)) (answering {overloaded})
    (offered overloaded) lostChat (panicking 2) (answering_of_offered overloaded)
    (by decide +kernel)
  obtain ⟨hpanic, hnone⟩ := Bool.and_eq_true_iff.mp ht
  split at hpanic
  · next request rest hi =>
      obtain ⟨v, hrun, -, entry, hentry, -⟩ := h.entered w 2 request _ hw hi
      have hlost : Lost 2 w := ⟨List.isEmpty_iff.mp hnone, request, .inr ⟨rest, hi⟩⟩
      rw [(hlost.run hrun).1] at hentry
      cases hentry
  · cases hpanic

end Xlpod.UpstreamAnswers
