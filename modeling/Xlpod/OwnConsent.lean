import Xlpod.Serving

/-!
# Consent for what is done

Five routes change what the user must approve: a token with scopes, a bundle, a
provider key set or deleted, a trust window. Each asks once, shows what its own
request names, and acts only on a yes; after a no it has done nothing.
-/
namespace Xlpod.OwnConsent
open Xlpod.ApiErrors Xlpod.Auth Xlpod.AiTypes Xlpod.BundlePayload Xlpod.JsonText Xlpod.GuardedRuns
open Xlpod.Programs Xlpod.Interleaving Xlpod.SessionStores Xlpod.ServerState Xlpod.ServerCalls
open Xlpod.ToolDispatch Xlpod.ChatRoute Xlpod.Routes Xlpod.Server Xlpod.Footprints Xlpod.Serving

/-! ## What a request has seen -/

/-- It changes tokens, the worker, the keychain, sessions or trust windows. -/
def changes : Op → Bool
  | .issue _ _ | .openSession .. | .appendMessages .. | .openWindow .. => true
  | .keychainWrite _ _ | .keychainDelete _ => true
  | .workerLock | .workerWrite _ _ | .workerFlush | .workerRead | .workerReap => true
  | _ => false

/-- What the user was asked, with the answer. -/
def answer : (op : Op) → op.Reply → Option (ConsentRequest × Bool)
  | .consent request, approved => some (request, approved)
  | _, _ => none

/-- The paths a request looked up, what it found, and what it was allowed. -/
structure Seen where
  looked : List String
  canonical : Option PathBuf
  directories : List PathBuf
  approved : Option ConsentRequest
  denied : Bool
  changed : Bool

def Seen.start : Seen := ⟨[], none, [], none, false, false⟩

def note (seen : Seen) (op : Op) (r : op.Reply) : Seen :=
  match op, r with
  | .canonicalize path, found => { seen with looked := seen.looked ++ [path], canonical := found }
  | .isDir path, directory =>
      { seen with directories := seen.directories ++
          if directory ∧ seen.canonical = some path then [path] else [] }
  | .consent request, approved =>
      { seen with
        approved := if approved then some request else seen.approved
        denied := seen.denied || !approved }
  | op, _ => { seen with changed := seen.changed || changes op }

/-- The roots a handshake grants: what it looked up and found to be directories. -/
def RootsFor (body : HandshakeRequest) (seen : Seen) (roots : List PathBuf) : Prop :=
  if wantsFs body.requestedScopes then seen.looked = body.fsRoots ∧ roots = seen.directories
  else roots = []

/-- Each privileged change carries out what the user approved for this request. -/
def Licensed (d : Deployment) (request : Request) (seen : Seen) : Op → Prop
  | .issue scopes roots => scopes ≠ [] → ∃ body, inputFor request .handshake = some body ∧
      scopes = body.requestedScopes ∧ RootsFor body seen roots ∧
      seen.approved = some ⟨request.origin.getD "", scopes, roots⟩
  | .workerWrite method params => method = "bundle_write" → ∃ body canonical,
      inputFor request .bundleWrite = some body ∧ seen.looked = [body.path] ∧
      seen.canonical = some canonical ∧
      params = .obj [(lit "path", str canonical.text), (lit "payload", body.payload)] ∧
      seen.approved = some ⟨"bundle-write://" ++ canonical.text, [.bundleWrite], []⟩
  | .keychainWrite name value => ∃ body, inputFor request .aiSetKey = some body ∧
      name = body.provider ++ "_api_key" ∧ value = body.key ∧
      seen.approved = some ⟨"ai-key://" ++ body.provider, [], []⟩
  | .keychainDelete name => ∃ provider : String, inputFor request .aiDeleteKey = some provider ∧
      name = provider ++ "_api_key" ∧
      seen.approved = some ⟨"ai-key-delete://" ++ provider, [], []⟩
  | .openWindow id tools durationSecs => ∃ body, inputFor request .aiConsentWindow = some body ∧
      d.parseUuid body.sessionId = some id ∧ tools = body.tools ∧
      durationSecs = body.durationSecs ∧ seen.approved = some ⟨trustOrigin body, [], []⟩
  | _ => True

/-- The routes that ask. -/
def consentRoutes : List Route :=
  [.handshake, .bundleWrite, .aiSetKey, .aiDeleteKey, .aiConsentWindow]

def Asks (request : Request) : Prop :=
  ∃ r ∈ consentRoutes, route request.method request.path = .found r

/-- Whatever the state, the call leaves it as it was but for the limiter and the logs. -/
structure Harmless (op : Op) : Prop where
  stores : ∀ s env r s', exec s env op = some (r, s') → s'.tokens = s.tokens ∧
    s'.keychain = s.keychain ∧ s'.sessions = s.sessions ∧ s'.windows = s.windows
  worker : ¬ workerOps op

section
variable {d : Deployment}

def seenOf (i : ℕ) (events : List (Event (server d))) : Seen := track note .start i events

structure Consented (w : World (server d)) : Prop where
  licensed : Throughout (fun e before => Licensed d e.request (seenOf e.task before) e.op) w.events
  denied : ∀ c ∈ w.events, Asks c.request → (∃ ask, answer c.op c.reply = some (ask, false)) →
    ∀ e ∈ w.events, e.task = c.task → Harmless e.op

end

/-! ## The protocol -/

/-- On a route that asks, nothing is changed before the question, and nothing
after a no. -/
def Careful (seen : Seen) : Op → Prop
  | .consent _ => seen.changed = false
  | op => changes op = true → seen.denied = false

def conduct (d : Deployment) (request : Request) : Contract api Seen where
  pre seen op := Licensed d request seen op ∧ (Asks request → Careful seen op)
  fact _ _ _ := True
  next := note

def protocol (d : Deployment) : Protocol (server d) Seen where
  contract := conduct d
  start _ := .start
  post _ _ := True

/-- Neither privileged nor remembered. -/
def idleOps : Op → Prop
  | .canonicalize _ | .isDir _ | .consent _ => False
  | op => changes op = false

/-- Nothing that needs consent. -/
def freeOps : Op → Prop
  | .issue _ _ | .keychainWrite _ _ | .keychainDelete _ | .openWindow .. => False
  | .workerWrite method _ => method ≠ "bundle_write"
  | _ => True

section
variable {d : Deployment} {request : Request} {seen : Seen}

theorem note_idle {op : Op} (ho : idleOps op) (r : op.Reply) : note seen op r = seen := by
  have hkeep : changes op = false → ({ seen with changed := seen.changed || changes op } : Seen) =
      seen := by
    intro h
    rw [h, Bool.or_false]
  cases op <;> first | exact ho.elim | exact hkeep ho

theorem ignores_idle : Ignores (conduct d request) idleOps := by
  intro seen op ho
  have hquiet : changes op = false := by
    cases op <;> first | exact ho.elim | exact ho
  refine ⟨⟨?_, fun _ => ?_⟩, fun r => note_idle ho r⟩
  · cases op <;> trivial
  · cases op <;> first | exact ho.elim | exact fun h => absurd hquiet (by rw [h]; simp)

theorem licensed_free {op : Op} (ho : freeOps op) : Licensed d request seen op := by
  cases op with
  | workerWrite method params => exact fun h => absurd h ho
  | _ => first | exact ho.elim | trivial

/-- The roots found are the directories noted. -/
theorem canonicalizeRoots_conduct (roots : List String) :
    Meets (conduct d request) (canonicalizeRoots roots) seen fun seen' found =>
      seen'.looked = seen.looked ++ roots ∧ seen'.directories = seen.directories ++ found ∧
        seen'.changed = seen.changed ∧ seen'.denied = seen.denied := by
  induction roots generalizing seen with
  | nil => exact ⟨(List.append_nil _).symm, (List.append_nil _).symm, rfl, rfl⟩
  | cons raw rest ih =>
      refine ⟨⟨trivial, fun _ h => by cases h⟩, fun p _ => ?_⟩
      cases p with
      | none =>
          refine ih.mono fun seen' found h => ⟨?_, h.2⟩
          rw [h.1, List.append_cons]
          rfl
      | some p =>
          refine ⟨⟨trivial, fun _ h => by cases h⟩, fun directory _ => ?_⟩
          change Meets (conduct d request) (canonicalizeRoots rest >>= _) _ _
          refine meets_bind.mpr (ih.mono fun seen' found h => ?_)
          have hnote : (conduct d request).next ((conduct d request).next seen (.canonicalize raw)
              (some p)) (.isDir p) directory = { seen with
                looked := seen.looked ++ [raw]
                canonical := some p
                directories := seen.directories ++ if directory then [p] else [] } := by
            cases directory <;> simp [conduct, note]
          rw [hnote] at h
          obtain ⟨hlooked, hdirectories, hquiet⟩ := h
          refine ⟨?_, ?_, hquiet⟩
          · simp [hlooked]
          · cases directory <;> simp [hdirectories]

theorem grantedRoots_conduct (body : HandshakeRequest) :
    Meets (conduct d request) (grantedRoots body).run .start
      (OnResult (fun seen roots => RootsFor body seen roots ∧ seen.changed = false ∧
        seen.denied = false) fun _ _ => True) := by
  unfold grantedRoots
  simp only [meets_exceptIte, meets_exceptBind, meets_exceptPure, meets_throw, meets_lift,
    onResult_ok, onResult_error]
  constructor
  · intro hwants
    refine ⟨?_, rfl, rfl⟩
    simp only [RootsFor, Bool.not_eq_true'] at *
    simp [hwants]
  · intro hwants
    refine (canonicalizeRoots_conduct body.fsRoots).mono fun seen' found h => ⟨fun _ => trivial, ?_⟩
    intro _
    refine ⟨?_, h.2.2⟩
    simp only [RootsFor, Bool.not_eq_true', Bool.not_eq_false] at *
    simp [hwants, h.1, h.2.1, Seen.start]

theorem handshake_conduct {body : HandshakeRequest}
    (hinput : inputFor request .handshake = some body) :
    Meets (conduct d request) (Routes.handshake request.origin body).run .start fun _ _ => True := by
  unfold Routes.handshake
  simp only [meets_exceptIte, meets_exceptBind, meets_throw]
  refine ⟨fun _ => trivial, fun _ => ?_⟩
  refine (grantedRoots_conduct body).mono fun seen r h => ?_
  cases r with
  | error e => trivial
  | ok roots =>
      obtain ⟨hroots, hchanged, hdenied⟩ := h
      constructor
      · intro _
        apply meets_lift.mpr
        refine ⟨⟨trivial, fun _ => hchanged⟩, fun approved _ => ?_⟩
        cases approved with
        | false => exact ⟨fun _ => trivial, fun h => absurd rfl h⟩
        | true =>
            refine ⟨fun h => by simp at h, fun _ => meets_lift.mpr ⟨⟨fun _ => ?_, ?_⟩, ?_⟩⟩
            · exact ⟨body, hinput, rfl, hroots, rfl⟩
            · exact fun _ _ => by simpa [conduct, note] using hdenied
            · exact fun _ _ => trivial
      · intro hempty
        refine meets_lift.mpr ⟨⟨fun hne => ?_, fun _ _ => hdenied⟩, fun _ _ => trivial⟩
        simp at hempty
        exact absurd hempty hne

/-- Worker calls the request is licensed to make. -/
theorem calls_conduct {α : Type} {p : Server α} {calls : String → PyJson → Prop}
    (hp : Uses (I := api) (callOps calls) p) (hdenied : seen.denied = false)
    (hlicensed : ∀ method params, calls method params →
      Licensed d request seen (.workerWrite method params)) :
    Meets (conduct d request) p seen fun _ _ => True := by
  have hmeets := hp.meets (C := conduct d request) (K := fun seen' =>
    ∃ changed, seen' = { seen with changed := changed }) ⟨seen.changed, rfl⟩ ?_ ?_
  · exact hmeets.mono fun _ _ _ => trivial
  · rintro _ op ⟨changed, rfl⟩ ho
    cases op with
    | workerWrite method params => exact ⟨hlicensed method params ho, fun _ _ => hdenied⟩
    | _ => first | exact ho.elim | exact ⟨trivial, fun _ _ => hdenied⟩
  · rintro _ op r ⟨changed, rfl⟩ ho
    cases op <;> first | exact ho.elim | exact ⟨_, rfl⟩

theorem bundleWrite_conduct {body : BundleWriteRequest}
    (hinput : inputFor request .bundleWrite = some body) (token : TokenRecord) :
    Meets (conduct d request) (bundleWriteRoute token body).run .start fun _ _ => True := by
  unfold bundleWriteRoute ensurePathUnderRoots
  simp only [meets_exceptIte, meets_exceptBind, meets_throw, meets_lift, meets_okOr,
    meets_exceptPure, onResult_error, onResult_ok]
  refine ⟨⟨trivial, fun _ h => by cases h⟩, fun found _ => ⟨fun canonical hfound => ?_, ?_⟩⟩
  · subst hfound
    refine ⟨fun _ => trivial, fun _ => ⟨⟨trivial, fun _ => rfl⟩, fun approved _ => ?_⟩⟩
    cases approved with
    | false => exact ⟨fun _ => trivial, fun h => absurd rfl h⟩
    | true =>
        refine ⟨fun _ => trivial, fun _ => ?_⟩
        have hcall (params : PyJson) : Uses (I := api) (callOps fun method args =>
            method = "bundle_write" ∧ args = params) (workerCall "bundle_write" params).run :=
          workerCall_calls ⟨rfl, rfl⟩
        refine (calls_conduct (hcall _) rfl ?_).mono ?_
        · rintro _ _ ⟨rfl, rfl⟩ _
          exact ⟨body, canonical, hinput, rfl, rfl, rfl, rfl⟩
        · intro seen r _
          cases r with
          | error e => trivial
          | ok resp =>
              unfold checkBundleOk
              simp
  · exact fun _ => trivial

theorem aiSetProviderKey_conduct {body : SetKeyRequest}
    (hinput : inputFor request .aiSetKey = some body) :
    Meets (conduct d request) (aiSetProviderKey body).run .start fun _ _ => True := by
  unfold aiSetProviderKey
  simp only [meets_exceptIte, meets_exceptBind, meets_throw, meets_lift]
  refine ⟨fun _ => trivial, fun _ => ⟨⟨trivial, fun _ => rfl⟩, fun approved _ => ?_⟩⟩
  cases approved with
  | false => exact ⟨fun _ => trivial, fun h => absurd rfl h⟩
  | true =>
      refine ⟨fun _ => trivial, fun _ => ⟨⟨?_, fun _ _ => rfl⟩, fun done _ => ?_⟩⟩
      · exact ⟨body, hinput, rfl, rfl, rfl⟩
      · exact ⟨fun _ => trivial, fun _ => trivial⟩

theorem aiDeleteProviderKey_conduct {provider : String}
    (hinput : inputFor request .aiDeleteKey = some provider) :
    Meets (conduct d request) (aiDeleteProviderKey provider).run .start fun _ _ => True := by
  unfold aiDeleteProviderKey
  simp only [meets_exceptIte, meets_exceptBind, meets_throw, meets_lift]
  refine ⟨⟨trivial, fun _ => rfl⟩, fun approved _ => ?_⟩
  cases approved with
  | false => exact ⟨fun _ => trivial, fun h => absurd rfl h⟩
  | true =>
      refine ⟨fun _ => trivial, fun _ => ⟨⟨?_, fun _ _ => rfl⟩, fun done _ => ?_⟩⟩
      · exact ⟨provider, hinput, rfl, rfl⟩
      · exact ⟨fun _ => trivial, fun _ => trivial⟩

theorem aiOpenTrustWindow_conduct {body : OpenTrustWindowRequest}
    (hinput : inputFor request .aiConsentWindow = some body) :
    Meets (conduct d request) (aiOpenTrustWindow d.parseUuid body).run .start fun _ _ => True := by
  unfold aiOpenTrustWindow
  simp only [meets_exceptIte, meets_exceptBind, meets_throw, meets_lift, meets_okOr, meets_orThrow,
    onResult_error]
  refine ⟨fun id hid => ⟨⟨trivial, fun _ h => by cases h⟩, fun found _ => ?_⟩, fun _ => trivial⟩
  cases found with
  | error e => trivial
  | ok session =>
      refine ⟨⟨trivial, fun _ => rfl⟩, fun approved _ => ?_⟩
      cases approved with
      | false => exact ⟨fun _ => trivial, fun h => absurd rfl h⟩
      | true =>
          refine ⟨fun _ => trivial, fun _ => ⟨⟨?_, fun _ _ => rfl⟩, fun window _ => trivial⟩⟩
          exact ⟨body, hinput, hid, rfl, rfl, rfl⟩

/-! ### The routes that do not ask -/

theorem handlerOps_free {r : Route} (hr : r ∉ consentRoutes) (op : Op) (ho : handlerOps r op) :
    freeOps op := by
  cases op with
  | workerWrite method params =>
      rintro rfl
      cases r <;> simp [handlerOps, callOps, toolMethods, windowOps, consentRoutes] at ho hr
  | issue | keychainWrite | keychainDelete | openWindow =>
      cases r <;> first | exact ho.elim | simp [consentRoutes] at hr
  | _ => trivial

theorem not_asks {r : Route} {input : r.Input} (hinput : inputFor request r = some input)
    (hr : r ∉ consentRoutes) : ¬ Asks request := by
  rintro ⟨r', hr', hroute⟩
  obtain ⟨hfound, -⟩ := inputFor_some hinput
  rw [hfound, Match.found.injEq] at hroute
  subst hroute
  exact hr hr'

theorem handler_conduct {r : Route} {input : r.Input} (token : Option TokenRecord)
    (hinput : inputFor request r = some input) :
    Meets (conduct d request) (handler d request.origin token r input).run .start
      fun _ _ => True := by
  by_cases hr : r ∈ consentRoutes
  · cases r with
    | handshake => exact handshake_conduct hinput
    | bundleWrite =>
        cases token with
        | none => exact trivial
        | some token => exact bundleWrite_conduct hinput token
    | aiSetKey => exact aiSetProviderKey_conduct hinput
    | aiDeleteKey => exact aiDeleteProviderKey_conduct hinput
    | aiConsentWindow => exact aiOpenTrustWindow_conduct hinput
    | _ => simp [consentRoutes] at hr
  · refine (handler_uses d request.origin token r input).meets (K := fun _ => True) trivial
      (fun seen op _ ho => ?_) fun _ _ _ _ _ => trivial
    exact ⟨licensed_free (handlerOps_free hr op ho), fun hasks => absurd hasks (not_asks hinput hr)⟩

end

theorem serve_conduct (d : Deployment) (request : Request) :
    Meets (conduct d request) ((server d).serve request) .start fun _ _ => True := by
  apply serve_meets
  · exact fun seen op ho => ignores_idle seen op (by
      cases op <;> first | exact ho.elim | rfl)
  · trivial
  · intro r input token hinput
    exact handler_conduct token hinput

theorem sound (d : Deployment) (guard : World (server d) → Label (server d) → Prop) :
    Sound (protocol d) guard :=
  fun _ _ _ _ _ _ _ _ _ _ _ _ => trivial

/-! ## Runs -/

theorem exec_harmless {op : Op} (h : changes op = false) : Harmless op := by
  constructor
  · intro s env r s' hexec
    cases op with
    | issue | openSession | appendMessages | openWindow | keychainWrite | keychainDelete => cases h
    | panicked => cases hexec
    | _ =>
        cases hexec
        exact ⟨rfl, rfl, rfl, rfl⟩
  · intro hworker
    cases op <;> first | exact hworker | cases h

section
variable {d : Deployment} {i : ℕ} {events : List (Event (server d))}

theorem note_changed (seen : Seen) (op : Op) (r : op.Reply) :
    (note seen op r).changed = (seen.changed || changes op) := by
  cases op with
  | isDir | consent | canonicalize => exact (Bool.or_false _).symm
  | _ => rfl

theorem note_denied (seen : Seen) (op : Op) (r : op.Reply) :
    (note seen op r).denied = (seen.denied || (answer op r).any fun a => !a.2) := by
  cases op with
  | consent request => rfl
  | _ => exact (Bool.or_false _).symm

theorem note_approved {seen : Seen} {op : Op} {r : op.Reply} {ask : ConsentRequest}
    (hold : seen.approved ≠ some ask) (h : (note seen op r).approved = some ask) :
    answer op r = some (ask, true) := by
  cases op with
  | consent request =>
      cases r with
      | false => exact absurd h hold
      | true =>
          cases h
          rfl
  | _ => exact absurd h hold

theorem seen_changed {e : Event (server d)} (he : e ∈ events) (hi : e.task = i)
    (hc : changes e.op = true) : (seenOf i events).changed = true := by
  refine track_keeps (P := fun seen : Seen => seen.changed = true) (fun seen op r h => ?_) he hi
    fun seen => ?_
  · rw [note_changed, h, Bool.true_or]
  · rw [note_changed, hc, Bool.or_true]

theorem seen_denied {e : Event (server d)} (he : e ∈ events) (hi : e.task = i)
    {ask : ConsentRequest} (ha : answer e.op e.reply = some (ask, false)) :
    (seenOf i events).denied = true := by
  refine track_keeps (P := fun seen : Seen => seen.denied = true) (fun seen op r h => ?_) he hi
    fun seen => ?_
  · rw [note_denied, h, Bool.true_or]
  · rw [note_denied, ha]
    exact Bool.or_true _

/-- What the user approved was asked for this request, and before. -/
theorem approved_event {ask : ConsentRequest} (h : (seenOf i events).approved = some ask) :
    ∃ e ∈ events, e.task = i ∧ answer e.op e.reply = some (ask, true) := by
  obtain ⟨after, e, before, he, hi, hold, hnew⟩ :=
    track_origin (P := fun seen : Seen => seen.approved = some ask) (by simp [Seen.start]) h
  exact ⟨e, by simp [he], hi, note_approved hold hnew⟩

theorem note_careful {seen : Seen} {op : Op} (r : op.Reply) (h : Careful seen op)
    (hold : ¬ (seen.denied = true ∧ seen.changed = true)) :
    ¬ ((note seen op r).denied = true ∧ (note seen op r).changed = true) := by
  rw [note_denied, note_changed]
  cases op with
  | consent request =>
      change seen.changed = false at h
      simp [h, changes]
  | _ =>
      rintro ⟨hdenied, hchanged⟩
      change (seen.denied || false) = true at hdenied
      rw [Bool.or_false] at hdenied
      rcases Bool.or_eq_true_iff.mp hchanged with hchanged | hchanged
      · exact hold ⟨hdenied, hchanged⟩
      · have hfalse : seen.denied = false := h hchanged
        rw [hfalse] at hdenied
        cases hdenied

/-- A request that asks has not both been denied and changed something. -/
theorem never_both {w : World (server d)} (hobeyed : Obeyed (protocol d) w) {request : Request}
    (hrecorded : Recorded w) (hi : requestOf w i = some request) (hasks : Asks request) :
    ¬ ((seenOf i w.events).denied = true ∧ (seenOf i w.events).changed = true) := by
  refine track_invariant (P := fun seen : Seen => ¬ (seen.denied = true ∧ seen.changed = true))
    (by simp [Seen.start]) fun after e before he htask hold => ?_
  have hrequest := hrecorded e (by simp [he])
  rw [htask, hi, Option.some.injEq] at hrequest
  have hcareful := (hobeyed after e before he).2 (hrequest ▸ hasks)
  subst htask
  exact note_careful e.reply hcareful hold

end

theorem consented (d : Deployment) (w : World (server d))
    (h : Reachable (machine (server d)) anyStep w) : Consented w := by
  have hobeyed := obeyed (serve_conduct d) (sound d anyStep) h
  have hrecorded := reachable_recorded h
  constructor
  · intro after e before he
    exact (hobeyed after e before he).1
  · intro c hc hasks hdenied e he htask
    apply exec_harmless
    obtain ⟨ask, hask⟩ := hdenied
    have hboth := never_both hobeyed hrecorded (hrecorded c hc) hasks
    cases hchanges : changes e.op with
    | false => rfl
    | true => exact absurd ⟨seen_denied hc rfl hask, seen_changed he htask hchanges⟩ hboth

/-! ## A token, and a denied key -/

/-- The user allows the handshake and refuses the key. -/
def refusedKey : List (Label (server keyedLaunch)) :=
  handshakeRun 0 "a" [.aiProviderCall] ++
    .arrive 1 (addinRequest .aiSetKey "/ai/providers/key" (some "a") ⟨"anthropic", "k"⟩) ::
      calls 1 11 {}

/-- Request 0 was issued a token, request 1 was answered no. -/
def refused (w : World (server keyedLaunch)) : Bool :=
  (w.events.any fun e => e.task == 0 && match e.op with
    | .issue scopes _ => !scopes.isEmpty
    | _ => false) &&
  w.events.any fun e => e.task == 1 && (answer e.op e.reply).any fun a => !a.2

theorem consented_refusedKey : ∃ w, Reachable (machine (server keyedLaunch)) anyStep w ∧
    refused w = true ∧ Consented w := by
  obtain ⟨w, hw, ht⟩ := replay_reaches (machine (server keyedLaunch)) anyStep unchecked
    refusedKey refused (fun _ _ _ => trivial) (by decide +kernel)
  exact ⟨w, hw, ht, consented keyedLaunch w hw⟩

end Xlpod.OwnConsent
