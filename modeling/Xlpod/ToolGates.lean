import Xlpod.Provenance

/-!
# The gates in front of a tool

A chat starts a tool only after its four gates, and touches files and the
worker only while a started tool runs. The user's yes is the answer to the
question asked for this very call, or a trust window of the session that names
the tool and has not run out. A window's life is counted from its opening,
which comes after the user's yes; how long after is up to the scheduler.
-/
namespace Xlpod.ToolGates
open Xlpod.ApiErrors Xlpod.Auth Xlpod.AiTypes Xlpod.BundlePayload Xlpod.GuardedRuns Xlpod.Programs
open Xlpod.Interleaving Xlpod.SessionStores Xlpod.ServerState Xlpod.ServerCalls Xlpod.ToolDispatch
open Xlpod.ChatRoute Xlpod.Routes Xlpod.Server Xlpod.Footprints Xlpod.Serving Xlpod.Provenance
open SessionEscalation (recordOf)
open OwnConsent (answer)

/-! ## What a chat has seen -/

/-- It touches a file or the worker. -/
def reaches : Op → Bool
  | .canonicalize _ | .isDir _ | .metadata _ | .readFile _ => true
  | .workerLock | .workerWrite _ _ | .workerFlush | .workerRead | .workerReap => true
  | _ => false

/-- What the last question of a task said about its next tool. -/
inductive Gate
  | shut
  | user (request : ConsentRequest)
  | window (sessionId : Uuid) (tool : String)

def Gate.via : Gate → ApprovedVia
  | .shut => .auto
  | .user _ => .dialog
  | .window _ _ => .trustWindow

/-- The session of a chat, the tool uses of its turn, and the tools it started
for them, each with what let it. -/
structure Progress where
  found : Option Session
  uses : List (String × String × PyJson)
  gate : Gate
  running : Bool
  log : List (String × ApprovedVia)

def Progress.start : Progress := ⟨none, [], .shut, false, []⟩

/-- The tool uses of the provider's message. -/
def newUses : Author → List ChatMessage → Option (List (String × String × PyJson))
  | .provider, [m] => some (toolUsesOf m.content)
  | _, _ => none

def note (p : Progress) (op : Op) (r : op.Reply) : Progress :=
  match op, r with
  | .getSession _, .ok session => { p with found := p.found.or (some session) }
  | .appendMessages _ author messages, _ =>
      { p with
        uses := (newUses author messages).getD p.uses
        gate := .shut
        running := false
        log := if (newUses author messages).isSome then [] else p.log }
  | .covers id tool, covered =>
      { p with gate := if covered then .window id tool else .shut, running := false }
  | .consent request, approved =>
      { p with gate := if approved then .user request else .shut, running := false }
  | .dispatched _ tool, _ =>
      { p with gate := .shut, running := true, log := p.log ++ [(tool, p.gate.via)] }
  | _, _ => p

/-- A tool that does not mutate starts by itself, and any other by the user's
answer for it or by a window for it. -/
def Gate.Opens (session : Session) (spec : ToolSpec) (planOnly : Bool) : Gate → Prop
  | .shut => spec.mutates = false
  | .user request => spec.mutates = true ∧ planOnly = false ∧
      request = ⟨consentOrigin ⟨session, planOnly⟩, [spec.requiredScope], []⟩
  | .window id tool => spec.mutates = true ∧ planOnly = false ∧ id = session.id ∧ tool = spec.name

/-- Each tool use has its result; it was started at most once, and a success
says how. -/
inductive Vouched : List (String × String × PyJson) → List (String × ApprovedVia) →
    List ContentBlock → Prop
  | nil : Vouched [] [] []
  | denied {use : String × String × PyJson} {value : PyJson}
      {uses : List (String × String × PyJson)} {log : List (String × ApprovedVia)}
      {results : List ContentBlock} : Vouched uses log results →
      Vouched (use :: uses) log (.toolResult use.1 false value none :: results)
  | failed {use : String × String × PyJson} {value : PyJson} {via : ApprovedVia}
      {uses : List (String × String × PyJson)} {log : List (String × ApprovedVia)}
      {results : List ContentBlock} : Vouched uses log results →
      Vouched (use :: uses) ((use.2.1, via) :: log)
        (.toolResult use.1 false value none :: results)
  | succeeded {use : String × String × PyJson} {value : PyJson} {via : ApprovedVia}
      {uses : List (String × String × PyJson)} {log : List (String × ApprovedVia)}
      {results : List ContentBlock} : Vouched uses log results →
      Vouched (use :: uses) ((use.2.1, via) :: log)
        (.toolResult use.1 true value (some via) :: results)

/-- A denied call: no such tool, a scope the session lacks, or a change in plan mode. -/
def Refused (ctx : DispatchCtx) (name : String) : Prop :=
  ∀ spec, findTool name = some spec → spec.requiredScope ∉ ctx.session.grantedScopes ∨
    spec.mutates = true ∧ ctx.planOnly = true

/-- What a call says about the task's next tool. -/
def verdict : (op : Op) → op.Reply → Option Gate
  | .covers id tool, covered => some (if covered then .window id tool else .shut)
  | .consent request, approved => some (if approved then .user request else .shut)
  | .dispatched _ _, _ | .appendMessages .., _ => some .shut
  | _, _ => none

section
variable {d : Deployment}

def progressOf (i : ℕ) (events : List (Event (server d))) : Progress := track note .start i events

/-- The last call of the task `i` that says something about its next tool, with
the calls before it. -/
def LastWord (i : ℕ) (events : List (Event (server d))) (c : Event (server d))
    (earlier : List (Event (server d))) : Prop :=
  ∃ after, events = after ++ c :: earlier ∧ c.task = i ∧
    ∀ x ∈ after, x.task = i → verdict x.op x.reply = none

/-- The store `c` found holds a window for the session that names the tool,
opened on the user's yes to its request and not older than its duration allows,
when its age is counted from `start`. -/
def Windowed (start : Event (server d) → Event (server d) → ℕ) (earlier : List (Event (server d)))
    (c : Event (server d)) (id : Uuid) (tool : String) : Prop :=
  ∃ window ∈ c.before.windows, window.sessionId = id ∧ tool ∈ window.tools ∧
    ∃ o ∈ earlier, grantedBy o = some window ∧ ∃ body, inputFor o.request .aiConsentWindow = some body ∧
      body.tools = window.tools ∧ ∃ a ∈ earlier, a.task = o.task ∧
        answer a.op a.reply = some (⟨trustOrigin body, [], []⟩, true) ∧
          c.before.now < start o a + min body.durationSecs maxDurationSecs * nanosPerSec

/-- What let the tool of `e` start. -/
def Allows (start : Event (server d) → Event (server d) → ℕ) (e : Event (server d))
    (before : List (Event (server d))) (planOnly : Bool) (session : Session) (spec : ToolSpec) :
    ApprovedVia → Prop
  | .auto => spec.mutates = false
  | .dialog => planOnly = false ∧ ∃ c earlier, LastWord e.task before c earlier ∧
      answer c.op c.reply =
        some (⟨consentOrigin ⟨session, planOnly⟩, [spec.requiredScope], []⟩, true)
  | .trustWindow => planOnly = false ∧ ∃ c earlier, LastWord e.task before c earlier ∧
      c.op = .covers session.id spec.name ∧ Windowed start earlier c session.id spec.name

/-- The token that opened the session has the scope. -/
def TokenHolds (before : List (Event (server d))) (id : Uuid) (scope : Scope) : Prop :=
  ∃ after o earlier first record, before = after ++ o :: earlier ∧ openedBy o = some first ∧
    first.id = id ∧ recordOf o.task earlier = some record ∧ scope ∈ record.scopes

def Justified (start : Event (server d) → Event (server d) → ℕ) (e : Event (server d))
    (before : List (Event (server d))) (id : Uuid) (tool : String) : Prop :=
  ∃ body spec session, inputFor e.request .aiChat = some body ∧ spec ∈ builtinTools ∧
    spec.name = tool ∧ e.before.sessions id = some session ∧ session.id = id ∧
      spec.requiredScope ∈ session.grantedScopes ∧ TokenHolds before id spec.requiredScope ∧
        Allows start e before body.planOnly session spec (progressOf e.task before).gate.via

structure Gated (start : Event (server d) → Event (server d) → ℕ) (w : World (server d)) :
    Prop where
  starts : Throughout (fun e before => ∀ id tool, e.op = Op.dispatched id tool →
    Justified start e before id tool) w.events
  reach : Throughout (fun e before => Chats e.request → reaches e.op = true →
    (progressOf e.task before).running = true) w.events
  results : Throughout (fun e before => ∀ id messages, e.op = Op.appendMessages id .dispatch messages →
    ∃ results, messages = [⟨.tool, none, results⟩] ∧
      Vouched (progressOf e.task before).uses (progressOf e.task before).log results) w.events
  refused : ∀ ctx name input, Refused ctx name → ∃ e, (runOne ctx name input).run = pure (.error e)

/-- A window's age, counted from its opening or from the user's yes. -/
def fromOpening (o _ : Event (server d)) : ℕ := o.before.now

def fromApproval (_ a : Event (server d)) : ℕ := a.before.now

end

/-! ## The protocol -/

/-- What a chat with this body does with tools. -/
def Orderly (planOnly : Bool) (p : Progress) : Op → Prop
  | .dispatched id tool => ∃ session spec, p.found = some session ∧ id = session.id ∧
      findTool tool = some spec ∧ spec.requiredScope ∈ session.grantedScopes ∧
        p.gate.Opens session spec planOnly
  | .appendMessages _ .dispatch messages => ∃ results, messages = [⟨.tool, none, results⟩] ∧
      Vouched p.uses p.log results
  | op => reaches op = true → p.running = true

/-- What every other request leaves alone. -/
def Apart : Op → Prop
  | .dispatched _ _ | .appendMessages .. => False
  | _ => True

def conduct (request : Request) : Contract api Progress where
  pre p op :=
    match inputFor request .aiChat with
    | some body => Orderly body.planOnly p op
    | none => Apart op
  fact _ _ _ := True
  next := note

def protocol (d : Deployment) : Protocol (server d) Progress where
  contract := conduct
  start _ := .start
  post _ _ := True

section
variable {d : Deployment} {request : Request} {session : Session} {body : ChatRequest Uuid}
  {p : Progress}

theorem pre_of (hinput : inputFor request .aiChat = some body) {op : Op}
    (h : Orderly body.planOnly p op) : (conduct request).pre p op := by
  unfold conduct
  rw [hinput]
  exact h

theorem orderly_of {op : Op} (hinput : inputFor request .aiChat = some body)
    (h : (conduct request).pre p op) : Orderly body.planOnly p op := by
  unfold conduct at h
  rw [hinput] at h
  exact h

theorem chat_of {op : Op} (hop : ¬ Apart op) (h : (conduct request).pre p op) :
    ∃ body, inputFor request .aiChat = some body := by
  unfold conduct at h
  cases hinput : inputFor request .aiChat with
  | none =>
      rw [hinput] at h
      exact absurd h hop
  | some body => exact ⟨body, rfl⟩

theorem Orderly.running {planOnly : Bool} {op : Op} (h : Orderly planOnly p op)
    (hreach : reaches op = true) : p.running = true := by
  cases op <;> first | exact h rfl | cases hreach

/-- Between two tools the gate is shut. -/
structure Between (session : Session) (uses : List (String × String × PyJson)) (p : Progress) :
    Prop where
  found : p.found = some session
  uses : p.uses = uses
  gate : p.gate = .shut

/-- The outcome of the gate. -/
theorem approve_conduct (hinput : inputFor request .aiChat = some body)
    {uses : List (String × String × PyJson)} {spec : ToolSpec} (h : Between session uses p) :
    Meets (conduct request) (approve ⟨session, body.planOnly⟩ spec spec.name).run p
      (OnResult (fun p' via => p'.found = some session ∧ p'.uses = uses ∧ p'.log = p.log ∧
        via = p'.gate.via ∧ p'.gate.Opens session spec body.planOnly)
        fun p' _ => Between session uses p' ∧ p'.log = p.log) := by
  have hask {p : Progress} (id : Uuid) (tool : String) : (conduct request).pre p (.covers id tool) :=
    pre_of hinput fun h => by cases h
  have hconsent {p : Progress} (ask : ConsentRequest) : (conduct request).pre p (.consent ask) :=
    pre_of hinput fun h => by cases h
  unfold approve
  simp only [meets_exceptIte, meets_exceptBind, meets_exceptPure, meets_throw, meets_lift,
    onResult_ok, onResult_error]
  constructor
  · intro hplain
    refine ⟨h.found, h.uses, trivial, ?_⟩
    rw [h.gate]
    exact ⟨rfl, by simpa [Gate.Opens] using hplain⟩
  · intro hmutates
    have hspec : spec.mutates = true := by simpa using hmutates
    refine ⟨fun _ => ⟨h, trivial⟩, fun hplan => ?_⟩
    have hact : body.planOnly = false := by simpa using hplan
    refine ⟨hask _ _, fun covered _ => ⟨fun hcovered => ?_, fun hnot => ?_⟩⟩
    · subst hcovered
      exact ⟨h.found, h.uses, rfl, rfl, hspec, hact, rfl, rfl⟩
    · refine ⟨hconsent _, fun approved _ => ⟨fun hdenied => ?_, fun hyes => ?_⟩⟩
      · have hfalse : approved = false := by simpa using hdenied
        subst hfalse
        exact ⟨⟨h.found, h.uses, rfl⟩, rfl⟩
      · have htrue : approved = true := by simpa using hyes
        subst htrue
        exact ⟨h.found, h.uses, rfl, rfl, hspec, hact, rfl⟩

theorem runTool_conduct (hinput : inputFor request .aiChat = some body)
    {uses : List (String × String × PyJson)} (planOnly : Bool) (scope : Scope) (name : String)
    (input : PyJson) (h : Between session uses p) (hrunning : p.running = true) :
    Meets (conduct request) (runTool ⟨session, planOnly⟩ scope name input).run p
      fun p' _ => Between session uses p' ∧ p'.log = p.log := by
  have hmeets := (runTool_uses ⟨session, planOnly⟩ scope name input).meets (C := conduct request)
    (K := fun p' => Between session uses p' ∧ p'.log = p.log ∧ p'.running = true)
    ⟨h, rfl, hrunning⟩ ?_ ?_
  · exact hmeets.mono fun p' _ h => ⟨h.1, h.2.1⟩
  · intro p' op hp' ho
    apply pre_of hinput
    cases op <;> first | exact ho.elim | exact fun _ => hp'.2.2
  · intro p' op r hp' ho
    obtain ⟨⟨hfound, huses, hgate⟩, hlog, hrunning'⟩ := hp'
    cases op <;> first | exact ho.elim | exact ⟨⟨hfound, huses, hgate⟩, hlog, hrunning'⟩

/-- One tool use: started at most once, and a success says how. -/
theorem runOne_conduct (hinput : inputFor request .aiChat = some body)
    {uses : List (String × String × PyJson)} (name : String) (input : PyJson)
    (h : Between session uses p) :
    Meets (conduct request) (runOne ⟨session, body.planOnly⟩ name input).run p
      fun p' r => Between session uses p' ∧ match r with
        | .ok (_, via) => p'.log = p.log ++ [(name, via)]
        | .error _ => p'.log = p.log ∨ ∃ via, p'.log = p.log ++ [(name, via)] := by
  unfold runOne
  simp only [meets_exceptBind, meets_exceptIte, meets_throw, meets_okOr, onResult_error]
  refine ⟨fun spec hspec => ⟨fun _ => ⟨h, .inl rfl⟩, fun hscope => ?_⟩, fun _ => ⟨h, .inl trivial⟩⟩
  obtain ⟨-, rfl⟩ := findTool_some hspec
  refine (approve_conduct hinput h).mono fun p₁ r h₁ => ?_
  cases r with
  | error e => exact ⟨h₁.1, .inl h₁.2⟩
  | ok via =>
      obtain ⟨hfound, huses, hlog, rfl, hopens⟩ := h₁
      have hmem : spec.requiredScope ∈ session.grantedScopes := by simpa using hscope
      refine ⟨?_, fun _ _ => ?_⟩
      · exact pre_of hinput ⟨session, spec, hfound, rfl, hspec, hmem, hopens⟩
      · have hbetween : Between session uses ((conduct request).next p₁
            (.dispatched session.id spec.name) ()) := ⟨hfound, huses, rfl⟩
        refine (runTool_conduct hinput body.planOnly spec.requiredScope spec.name input hbetween
          rfl).mono fun p₂ r h₂ => ?_
        have hstarted : p₂.log = p.log ++ [(spec.name, p₁.gate.via)] := by
          rw [h₂.2, ← hlog]
          rfl
        cases r with
        | error e => exact ⟨h₂.1, .inr ⟨_, hstarted⟩⟩
        | ok value => exact ⟨h₂.1, hstarted⟩

theorem executeToolUses_conduct (hinput : inputFor request .aiChat = some body)
    {uses : List (String × String × PyJson)} (toolUses : List (String × String × PyJson))
    (h : Between session uses p) :
    Meets (conduct request) (executeToolUses ⟨session, body.planOnly⟩ toolUses) p
      fun p' results => Between session uses p' ∧
        ∃ log, p'.log = p.log ++ log ∧ Vouched toolUses log results := by
  induction toolUses generalizing p with
  | nil => exact ⟨h, [], (List.append_nil _).symm, .nil⟩
  | cons use rest ih =>
      apply meets_bind.mpr
      apply meets_bind.mpr
      refine (runOne_conduct hinput use.2.1 use.2.2 h).mono fun p₁ r h₁ => ?_
      apply meets_bind.mpr
      refine (ih h₁.1).mono fun p₂ results h₂ => ⟨h₂.1, ?_⟩
      obtain ⟨-, log, hlog, hvouched⟩ := h₂
      cases r with
      | ok done =>
          obtain ⟨value, via⟩ := done
          refine ⟨(use.2.1, via) :: log, ?_, .succeeded hvouched⟩
          rw [hlog, h₁.2, List.append_assoc]
          rfl
      | error e =>
          rcases h₁.2 with hsame | ⟨via, hstarted⟩
          · exact ⟨log, by rw [hlog, hsame], .denied hvouched⟩
          · refine ⟨(use.2.1, via) :: log, ?_, .failed hvouched⟩
            rw [hlog, hstarted, List.append_assoc]
            rfl

/-- No tool, and no session. -/
def freeOps : Op → Prop
  | .getSession _ | .appendMessages .. | .covers _ _ | .consent _ | .dispatched _ _ => False
  | op => reaches op = false

theorem ignores_free : Ignores (conduct request) freeOps := by
  intro p op ho
  constructor
  · unfold conduct
    cases inputFor request .aiChat with
    | none => cases op <;> first | exact ho.elim | trivial
    | some body => cases op <;> first | exact ho.elim | exact fun h => by cases ho.symm.trans h
  · intro r
    cases op <;> first | exact ho.elim | rfl

def outline (hinput : inputFor request .aiChat = some body) (provider : Provider) :
    Outline (conduct request) provider session body where
  ready p := p.found = some session
  asked p _ := p.found = some session
  stored p turn := Between session (toolUsesOf turn.message.content) p ∧ p.log = []
  charged p turn := Between session (toolUsesOf turn.message.content) p ∧ p.log = []
  answered p turn results := Between session (toolUsesOf turn.message.content) p ∧
    Vouched (toolUsesOf turn.message.content) p.log results
  ended _ := True
  ended_of_ready _ _ := trivial
  ask := by
    intro p history hfound
    have hquiet : Ignores (conduct request) providerOps :=
      ignores_free.mono fun op ho => by cases op <;> first | exact ho.elim | rfl
    refine (hquiet.meets (providerTurn_uses provider history _)).mono fun p' r hsame => ?_
    rw [← hsame] at hfound
    cases r with
    | error e => trivial
    | ok turn => exact hfound
  store := by
    intro p turn hfound
    refine ⟨pre_of hinput fun h => (by cases h), fun r _ => ?_⟩
    cases r with
    | error e => trivial
    | ok _ => exact ⟨⟨hfound, rfl, rfl⟩, rfl⟩
  charge := by
    intro p turn hstored
    have hquiet : Ignores (conduct request) costOps :=
      ignores_free.mono fun op ho => by cases op <;> first | exact ho.elim | rfl
    refine (hquiet.meets (recordCost_uses _ _ _)).mono fun p' _ hsame => ?_
    rw [hsame]
    exact hstored
  finish _ _ _ _ := trivial
  answer := by
    intro p turn hcharged _
    refine (executeToolUses_conduct hinput _ hcharged.1).mono fun p' results h => ⟨h.1, ?_⟩
    obtain ⟨-, log, hlog, hvouched⟩ := h
    rw [hlog, hcharged.2]
    exact hvouched
  reply := by
    intro p turn results hanswered
    refine ⟨pre_of hinput ⟨results, rfl, ?_⟩, fun r _ => ?_⟩
    · rw [hanswered.1.uses]
      exact hanswered.2
    · cases r with
      | error e => trivial
      | ok _ => exact hanswered.1.found

theorem aiChat_conduct (hinput : inputFor request .aiChat = some body)
    (providers : ProviderRegistry) :
    Meets (conduct request) (aiChat providers body).run .start fun _ _ => True := by
  apply aiChat_meets fun _ => True
  · exact ignores_free.mono fun op ho => by subst ho; rfl
  · trivial
  · refine ⟨pre_of hinput fun h => (by cases h), fun r _ => ?_⟩
    cases r with
    | error e => trivial
    | ok session =>
        refine ⟨trivial, fun provider _ => ⟨pre_of hinput fun h => (by cases h), fun r _ => ?_⟩⟩
        cases r with
        | error e => trivial
        | ok _ =>
            refine ⟨pre_of hinput fun h => (by cases h), fun r _ => ?_⟩
            cases r with
            | error e => trivial
            | ok current => exact ⟨outline hinput provider, rfl, rfl⟩

end

theorem serve_apart (d : Deployment) {request : Request}
    (hinput : inputFor request .aiChat = none) :
    Meets (conduct request) ((server d).serve request) .start fun _ _ => True := by
  have hpre {p : Progress} {op : Op} (ho : Apart op) : (conduct request).pre p op := by
    unfold conduct
    rw [hinput]
    exact ho
  have huses : Uses (I := api) Apart (innerService d request) := by
    refine innerService_uses_of (fun op ho => ?_) fun r input token hr => ?_
    · cases op <;> first | exact ho.elim | trivial
    · refine (handler_uses d request.origin token r input).mono fun op ho => ?_
      cases r with
      | aiChat =>
          rw [hinput] at hr
          cases hr
      | _ => cases op <;> first | exact ho.elim | trivial
  have hserve : Uses (I := api) Apart ((server d).serve request) := by
    refine uses_call.mpr ⟨trivial, fun start => huses.bind fun response => ?_⟩
    unfold writeAudit Uses
    simp [Apart]
  exact hserve.meets (K := fun _ => True) trivial (fun p op _ ho => hpre ho) fun _ _ _ _ _ => trivial

theorem serve_conduct (d : Deployment) (request : Request) :
    Meets (conduct request) ((server d).serve request) .start fun _ _ => True := by
  cases hinput : inputFor request .aiChat with
  | none => exact serve_apart d hinput
  | some body =>
      apply serve_meets
      · exact ignores_free.mono fun op ho => by cases op <;> first | exact ho.elim | rfl
      · trivial
      · intro r input token hr
        cases route_unique hr hinput
        cases hr.symm.trans hinput
        exact aiChat_conduct hinput d.providers

theorem sound (d : Deployment) (guard : World (server d) → Label (server d) → Prop) :
    Sound (protocol d) guard :=
  fun _ _ _ _ _ _ _ _ _ _ _ _ => trivial

/-! ## Runs -/

theorem runOne_refused {ctx : DispatchCtx} {name : String} (input : PyJson) (h : Refused ctx name) :
    ∃ e, (runOne ctx name input).run = pure (.error e) := by
  cases hspec : findTool name with
  | none =>
      refine ⟨.aiToolDenied, ?_⟩
      rw [runOne, hspec]
      rfl
  | some spec =>
      by_cases hscope : spec.requiredScope ∈ ctx.session.grantedScopes
      · rcases h spec hspec with hnot | ⟨hmutates, hplan⟩
        · exact absurd hscope hnot
        · refine ⟨.aiPlanOnlyViolation, ?_⟩
          rw [runOne, hspec]
          change ExceptT.run (if !ctx.session.grantedScopes.contains spec.requiredScope then _
            else _) = _
          rw [if_neg (by simpa using hscope), approve, hmutates, hplan]
          rfl
      · refine ⟨.aiToolDenied, ?_⟩
        rw [runOne, hspec]
        change ExceptT.run (if !ctx.session.grantedScopes.contains spec.requiredScope then _ else _) = _
        rw [if_pos (by simpa using hscope)]
        rfl

section
variable {d : Deployment} {guard : World (server d) → Label (server d) → Prop}
  {w : World (server d)} {i : ℕ} {events : List (Event (server d))}

theorem note_gate (p : Progress) (op : Op) (r : op.Reply) :
    (note p op r).gate = (verdict op r).getD p.gate := by
  cases op with
  | getSession id => cases r <;> rfl
  | _ => rfl

/-- An open gate was opened by the last word. -/
theorem last_word {g : Gate} (hg : g ≠ .shut) (h : (progressOf i events).gate = g) :
    ∃ c earlier, LastWord i events c earlier ∧ verdict c.op c.reply = some g := by
  induction events with
  | nil => exact absurd h.symm hg
  | cons e es ih =>
      by_cases hi : e.task = i
      · have hgate : (progressOf i (e :: es)).gate =
            (verdict e.op e.reply).getD (progressOf i es).gate := by
          rw [progressOf, track_self hi, note_gate]
          rfl
        rw [hgate] at h
        cases hverdict : verdict e.op e.reply with
        | some g' =>
            rw [hverdict] at h
            subst h
            exact ⟨e, es, ⟨[], rfl, hi, by simp⟩, hverdict⟩
        | none =>
            rw [hverdict] at h
            obtain ⟨c, earlier, ⟨after, rfl, hc, hafter⟩, hcg⟩ := ih h
            refine ⟨c, earlier, ⟨e :: after, rfl, hc, fun x hx hxi => ?_⟩, hcg⟩
            rcases List.mem_cons.mp hx with rfl | hx
            · exact hverdict
            · exact hafter x hx hxi
      · have hsame : progressOf i (e :: es) = progressOf i es := track_other hi
        rw [hsame] at h
        obtain ⟨c, earlier, ⟨after, rfl, hc, hafter⟩, hcg⟩ := ih h
        refine ⟨c, earlier, ⟨e :: after, rfl, hc, fun x hx hxi => ?_⟩, hcg⟩
        rcases List.mem_cons.mp hx with rfl | hx
        · exact absurd hxi hi
        · exact hafter x hx hxi

/-- The session a lookup found. -/
def fetched : (op : Op) → op.Reply → Option Session
  | .getSession _, .ok session => some session
  | _, _ => none

theorem fetched_session {s s' : AppState} {env : Environment} {op : Op} {r : op.Reply}
    (h : exec s env op = some (r, s')) {session : Session} (hf : fetched op r = some session) :
    ∃ id, s.sessions id = some session := by
  cases op with
  | getSession id =>
      cases r with
      | error e => cases hf
      | ok session' =>
          cases hf
          simp only [exec, Option.some.injEq, Prod.mk.injEq] at h
          exact ⟨id, SessionStore.get_ok.mp h.1⟩
  | _ => cases hf

theorem note_session (p : Progress) (op : Op) (r : op.Reply) :
    (note p op r).found = p.found.or (fetched op r) := by
  cases op with
  | getSession id => cases r <;> simp [note, fetched]
  | _ => exact Option.or_none.symm

/-- The session a chat found is still stored. -/
theorem found_stored (h : Reachable (machine (server d)) guard w) {session : Session}
    (hf : (progressOf i w.events).found = some session) :
    ∃ current, w.shared.sessions session.id = some current ∧ SameSession session current := by
  revert session
  refine h.invariant (P := fun w => ∀ {session}, (progressOf i w.events).found = some session →
    ∃ current, w.shared.sessions session.id = some current ∧ SameSession session current)
    (fun hf => by cases hf) fun w a v hr hw _ hn => ?_
  intro session hf
  cases step_of_next hn with
  | @call j env request op rest r s hj hexec =>
      have hstored := stored_of_exec hexec
      have hold (hf : (progressOf i w.events).found = some session) : ∃ current,
          s.sessions session.id = some current ∧ SameSession session current := by
        obtain ⟨current, hcurrent, hsame⟩ := hw hf
        obtain ⟨later, hlater, hsame'⟩ := stored_keep hstored hcurrent
        exact ⟨later, hlater, hsame.trans hsame'⟩
      by_cases hji : j = i
      · subst hji
        have hnew : (progressOf j w.events).found.or (fetched op r) = some session := by
          have hself : progressOf j (⟨j, request, op, r, w.shared⟩ :: w.events) =
              note (progressOf j w.events) op r := track_self rfl
          rw [← note_session, ← hself]
          exact hf
        cases hfound : (progressOf j w.events).found with
        | some first =>
            rw [hfound] at hnew
            cases hnew
            exact hold hfound
        | none =>
            rw [hfound, Option.none_or] at hnew
            obtain ⟨id, hget⟩ := fetched_session hexec hnew
            rw [(session_opened hr hget).1] at hget
            exact stored_keep hstored hget
      · apply hold
        have hother : progressOf i (⟨j, request, op, r, w.shared⟩ :: w.events) =
            progressOf i w.events := track_other hji
        rw [← hother]
        exact hf
  | _ => exact hw hf

/-- A window that covers a tool was opened on the user's yes, and is not too old. -/
theorem windowed (h : Reachable (machine (server d)) guard w)
    {after earlier : List (Event (server d))} {c : Event (server d)}
    (hc : w.events = after ++ c :: earlier) {id : Uuid} {tool : String}
    (hcovers : c.before.windows.covers c.before.now id tool = true) :
    Windowed fromOpening earlier c id tool := by
  obtain ⟨window, hwindow, hid, hlive, htool⟩ := TrustWindowStore.covers_iff.mp hcovers
  obtain ⟨o, ho, hgranted⟩ := window_before h hc hwindow
  refine ⟨window, hwindow, hid, htool, o, ho, hgranted, ?_⟩
  obtain ⟨between, before, rfl⟩ := List.append_of_mem ho
  have hsplit : w.events = (after ++ c :: between) ++ o :: before := by
    rw [hc, List.append_assoc]
    rfl
  obtain ⟨v, env, rest, s, hv, hevents, hshared, hcall, hguard, hexec⟩ := reachable_event h hsplit
  obtain ⟨tools, durationSecs, hop, hnew⟩ := granted_window hexec hgranted
  have hlicensed := (obeyed (OwnConsent.serve_conduct d) (OwnConsent.sound d guard) h
    (after ++ c :: between) o before hsplit).1
  have hlicense : OwnConsent.Licensed d o.request (OwnConsent.seenOf o.task before) o.op := hlicensed
  rw [hop] at hlicense
  obtain ⟨body, hbody, -, rfl, rfl, happroved⟩ := hlicense
  obtain ⟨a, ha, hatask, hanswer⟩ := OwnConsent.approved_event happroved
  refine ⟨body, hbody, ?_, a, by simp [ha], hatask, hanswer, ?_⟩
  · rw [hnew]
    rfl
  · rw [hnew] at hlive
    exact newWindow_live hlive

theorem tokenHolds (h : Reachable (machine (server d)) guard w) {id : Uuid} {session : Session}
    (hs : w.shared.sessions id = some session) {scope : Scope} (hscope : scope ∈ session.grantedScopes) :
    TokenHolds w.events id scope := by
  obtain ⟨after, o, earlier, first, record, he, hopened, hsame, hid, hrecord, hscopes, -⟩ :=
    session_token h hs
  refine ⟨after, o, earlier, first, record, he, hopened, ?_, hrecord, ?_⟩
  · rw [hsame.1, hid]
  · rw [hscopes] at hscope
    exact mem_of_grantedScopes hscope

/-- The verdict of a window is that of the store. -/
theorem verdict_window {s s' : AppState} {env : Environment} {op : Op} {r : op.Reply}
    (h : exec s env op = some (r, s')) {id : Uuid} {tool : String}
    (hv : verdict op r = some (.window id tool)) :
    op = .covers id tool ∧ s.windows.covers s.now id tool = true := by
  cases op with
  | covers id' tool' =>
      cases r with
      | false => cases hv
      | true =>
          cases hv
          simp only [exec, Option.some.injEq, Prod.mk.injEq] at h
          exact ⟨rfl, h.1⟩
  | consent request => cases r <;> cases hv
  | _ => cases hv

theorem verdict_user {op : Op} {r : op.Reply} {ask : ConsentRequest}
    (hv : verdict op r = some (.user ask)) : answer op r = some (ask, true) := by
  cases op with
  | consent request =>
      cases r with
      | false => cases hv
      | true =>
          cases hv
          rfl
  | covers id tool => cases r <;> cases hv
  | _ => cases hv

theorem consentOrigin_same {first session : Session} (h : SameSession first session)
    (planOnly : Bool) : consentOrigin ⟨first, planOnly⟩ = consentOrigin ⟨session, planOnly⟩ := by
  simp only [consentOrigin, h.1, h.2.1]

theorem allows_of_opens (h : Reachable (machine (server d)) guard w) {e : Event (server d)}
    {planOnly : Bool} {first session : Session} {spec : ToolSpec} (hsame : SameSession first session)
    (hopens : (progressOf e.task w.events).gate.Opens first spec planOnly) :
    Allows fromOpening e w.events planOnly session spec (progressOf e.task w.events).gate.via := by
  cases hgate : (progressOf e.task w.events).gate with
  | shut =>
      rw [hgate] at hopens
      exact hopens
  | user ask =>
      rw [hgate] at hopens
      obtain ⟨-, hact, rfl⟩ := hopens
      obtain ⟨c, earlier, hlast, hverdict⟩ := last_word (by simp) hgate
      refine ⟨hact, c, earlier, hlast, ?_⟩
      rw [← consentOrigin_same hsame]
      exact verdict_user hverdict
  | window id tool =>
      rw [hgate] at hopens
      obtain ⟨-, hact, rfl, rfl⟩ := hopens
      obtain ⟨c, earlier, ⟨after, hsplit, htask, hquiet⟩, hverdict⟩ := last_word (by simp) hgate
      obtain ⟨v, env, rest, s, -, -, -, -, -, hexec⟩ := reachable_event h hsplit
      obtain ⟨hop, hcovers⟩ := verdict_window hexec hverdict
      rw [hsame.1] at hop hcovers
      exact ⟨hact, c, earlier, ⟨after, hsplit, htask, hquiet⟩, hop, windowed h hsplit hcovers⟩

/-- A started tool is a registered one, for a stored session that has its scope,
through an open gate. -/
theorem started (h : Reachable (machine (server d)) guard w)
    {after before : List (Event (server d))} {e : Event (server d)}
    (he : w.events = after ++ e :: before) {id : Uuid} {tool : String}
    (hop : e.op = Op.dispatched id tool) : ∃ body spec first session,
      inputFor e.request .aiChat = some body ∧ spec ∈ builtinTools ∧ spec.name = tool ∧
        first.id = id ∧ e.before.sessions id = some session ∧ SameSession first session ∧
          spec.requiredScope ∈ session.grantedScopes ∧
            (progressOf e.task before).gate.Opens first spec body.planOnly := by
  obtain ⟨v, env, rest, s, hv, hevents, hshared, -⟩ := reachable_event h he
  have hpre : (conduct e.request).pre (progressOf e.task before) e.op :=
    obeyed (serve_conduct d) (sound d guard) h after e before he
  rw [hop] at hpre
  obtain ⟨body, hbody⟩ := chat_of (by simp [Apart]) hpre
  obtain ⟨first, spec, hfound, rfl, hspec, hscope, hopens⟩ := orderly_of hbody hpre
  rw [← hevents] at hfound
  obtain ⟨session, hstored, hsame⟩ := found_stored hv hfound
  rw [hsame.2.2.2.1] at hscope
  obtain ⟨hbuiltin, rfl⟩ := findTool_some hspec
  exact ⟨body, spec, first, session, hbody, hbuiltin, rfl, rfl, hshared ▸ hstored, hsame, hscope,
    hopens⟩

theorem justified (h : Reachable (machine (server d)) guard w)
    {after before : List (Event (server d))} {e : Event (server d)}
    (he : w.events = after ++ e :: before) {id : Uuid} {tool : String}
    (hop : e.op = Op.dispatched id tool) : Justified fromOpening e before id tool := by
  obtain ⟨v, env, rest, s, hv, rfl, hshared, -⟩ := reachable_event h he
  obtain ⟨body, spec, first, session, hbody, hbuiltin, hname, rfl, hstored, hsame, hscope, hopens⟩ :=
    started h he hop
  have htoken := tokenHolds hv (hshared ▸ hstored) hscope
  exact ⟨body, spec, session, hbody, hbuiltin, hname, hstored, hsame.1.symm, hscope, htoken,
    allows_of_opens hv hsame hopens⟩

theorem gated (d : Deployment) (w : World (server d))
    (h : Reachable (machine (server d)) anyStep w) : Gated fromOpening w := by
  have hpre {after before : List (Event (server d))} {e : Event (server d)}
      (he : w.events = after ++ e :: before) :
      (conduct e.request).pre (progressOf e.task before) e.op :=
    obeyed (serve_conduct d) (sound d anyStep) h after e before he
  constructor
  · intro after e before he id tool hop
    exact justified h he hop
  · intro after e before he hchats hreach
    obtain ⟨body, hbody⟩ := Option.isSome_iff_exists.mp hchats
    exact (orderly_of hbody (hpre he)).running hreach
  · intro after e before he id messages hop
    have hanswer := hpre he
    rw [hop] at hanswer
    obtain ⟨body, hbody⟩ := chat_of (by simp [Apart]) hanswer
    exact orderly_of hbody hanswer
  · exact fun ctx name input hrefused => runOne_refused input hrefused

end

/-! ## A window that opens late -/

section
variable {d : Deployment}

def isCovers : Op → Bool
  | .covers _ _ => true
  | _ => false

def isDispatched : Op → Bool
  | .dispatched _ _ => true
  | _ => false

/-- The tool of `e` is let by a window, and every window was approved longer
ago than its duration when it was asked for. -/
def overdue (e : Event (server d)) (before : List (Event (server d))) : Bool :=
  isDispatched e.op && (progressOf e.task before).gate.via == .trustWindow &&
    before.all fun c => !isCovers c.op || before.all fun o => !(grantedBy o).isSome ||
      (inputFor o.request .aiConsentWindow).all fun body => before.all fun a =>
        !(a.task == o.task) || !((answer a.op a.reply).any fun x => x.2) ||
          decide (a.before.now + min (OpenTrustWindowRequest.durationSecs body) maxDurationSecs *
            nanosPerSec ≤ c.before.now)

theorem not_justified_of_overdue {e : Event (server d)} {before : List (Event (server d))}
    (h : overdue e before = true) :
    ¬ ∀ id tool, e.op = Op.dispatched id tool → Justified fromApproval e before id tool := by
  intro hjustified
  simp only [overdue, Bool.and_eq_true, beq_iff_eq] at h
  obtain ⟨⟨hop, hvia⟩, hlate⟩ := h
  obtain ⟨id, tool, hop⟩ : ∃ id tool, e.op = Op.dispatched id tool := by
    revert hop
    cases e.op <;> intro hop <;> first | exact ⟨_, _, rfl⟩ | cases hop
  obtain ⟨body, spec, session, hbody, -, -, -, -, -, -, hallows⟩ := hjustified id tool hop
  rw [hvia] at hallows
  obtain ⟨-, c, earlier, ⟨after, rfl, -, -⟩, hcop, hwindowed⟩ := hallows
  obtain ⟨window, -, -, -, o, ho, hgranted, wbody, hwbody, -, a, ha, htask, hanswer, hage⟩ :=
    hwindowed
  have hmem {x : Event (server d)} (hx : x ∈ earlier) : x ∈ after ++ c :: earlier := by
    simp [hx]
  have hc := List.all_eq_true.mp hlate c (by simp)
  rw [hcop] at hc
  have ho := List.all_eq_true.mp hc o (hmem ho)
  rw [hgranted, hwbody] at ho
  have ha := List.all_eq_true.mp ho a (hmem ha)
  rw [htask, hanswer] at ha
  simp [fromApproval] at ha hage
  omega

end

/-- A token, a session, and a window request that the user has just approved. -/
def approvedWindow : List (Label (server keyedLaunch)) :=
  handshakeRun 0 "a" [.aiProviderCall, .aiExecPython] ++ sessionRun 1 "a" 1 none ++
    .arrive 2 (addinRequest .aiConsentWindow "/ai/consent/window" (some "a")
      ⟨uuidText 1, ["run_python"], 10⟩) :: calls 2 6 { approved := true }

/-- The window opens at once, and Python runs under it. -/
def promptWindow : List (Label (server keyedLaunch)) :=
  approvedWindow ++ calls 2 7 { uuid := 7 } ++ [.elapse (3 * nanosPerSec)] ++
    chatRun 3 "a" 1 19 (asksFor "run_python" (.obj []))

theorem gated_promptWindow : ∃ w, Reachable (machine (server keyedLaunch)) anyStep w ∧
    (w.events.any fun e => isDispatched e.op) = true ∧ Gated fromOpening w := by
  obtain ⟨w, hw, ht⟩ := replay_reaches (machine (server keyedLaunch)) anyStep unchecked promptWindow
    (fun w => w.events.any fun e => isDispatched e.op) (fun _ _ _ => trivial) (by decide +kernel)
  exact ⟨w, hw, ht, gated keyedLaunch w hw⟩

/-- The window opens five seconds after the yes, and Python runs eight seconds later. -/
def lateWindow : List (Label (server keyedLaunch)) :=
  approvedWindow ++ [.elapse (5 * nanosPerSec)] ++ calls 2 7 { uuid := 7 } ++
    [.elapse (8 * nanosPerSec)] ++ chatRun 3 "a" 1 19 (asksFor "run_python" (.obj []))

theorem not_gated_lateWindow :
    ∃ w, Reachable (machine (server keyedLaunch)) anyStep w ∧ ¬ Gated fromApproval w := by
  obtain ⟨w, hw, ht⟩ := replay_reaches (machine (server keyedLaunch)) anyStep unchecked lateWindow
    (fun w => somewhere overdue w.events) (fun _ _ _ => trivial) (by decide +kernel)
  refine ⟨w, hw, fun hgated => ?_⟩
  exact not_throughout (fun e before h => not_justified_of_overdue h) ht hgated.starts

end Xlpod.ToolGates
