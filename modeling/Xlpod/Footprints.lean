import Xlpod.Server

/-!
# What each handler can do

The operations a program can reach, whatever it is answered. Only the chat
appends messages, only the trust-window route opens windows, and nothing inside
`audit_wrap` responds or writes the audit log.
-/
namespace Xlpod.Footprints
open Xlpod.ApiErrors Xlpod.Auth Xlpod.AiTypes Xlpod.BundlePayload Xlpod.CostLedger Xlpod.Programs
open Xlpod.SessionStores Xlpod.ServerState Xlpod.ServerCalls Xlpod.ToolDispatch Xlpod.ChatRoute
open Xlpod.Routes Xlpod.Server

/-- Resolving the roots of a handshake. -/
def rootOps : Op → Prop
  | .canonicalize _ | .isDir _ => True
  | _ => False

/-- Looking a path up, and reading it when it lies under one of the roots. -/
def readOps (roots : List PathBuf) : Op → Prop
  | .canonicalize _ | .metadata _ => True
  | .readFile path => underRoots roots path = true
  | _ => False

def workerOps : Op → Prop
  | .workerLock | .workerWrite _ _ | .workerFlush | .workerRead | .workerReap => True
  | _ => False

/-- What a tool itself can reach. -/
def toolOps (roots : List PathBuf) : Op → Prop
  | .workerLock | .workerWrite _ _ | .workerFlush | .workerRead | .workerReap => True
  | op => readOps roots op

def gateOps : Op → Prop
  | .covers _ _ | .consent _ => True
  | _ => False

/-- Running tools: the gate, the files and the worker. -/
def dispatchOps : Op → Prop
  | .canonicalize _ | .metadata _ | .readFile _ => True
  | .workerLock | .workerWrite _ _ | .workerFlush | .workerRead | .workerReap => True
  | .covers _ _ | .consent _ | .dispatched _ _ => True
  | _ => False

def providerOps : Op → Prop
  | .keychainRead _ | .httpSend _ | .httpText | .httpJson | .externalChat .. | .panicked => True
  | _ => False

/-- What is read of an upstream response once its status is known. -/
def bodyOps : Op → Prop
  | .httpText | .httpJson | .panicked => True
  | _ => False

def costOps : Op → Prop
  | .instant | .ledgerLock | .ledgerWrite _ | .ledgerFlush | .ledgerAdd _ => True
  | _ => False

/-- The chat: its provider, its tools, the ledger and the transcript. -/
def chatOps : Op → Prop
  | .getSession _ | .appendMessages .. | .overBudget => True
  | .instant | .ledgerLock | .ledgerWrite _ | .ledgerFlush | .ledgerAdd _ => True
  | .keychainRead _ | .httpSend _ | .httpText | .httpJson | .externalChat .. | .panicked => True
  | op => dispatchOps op

/-- A chat but for its tools. -/
def turnOps : Op → Prop
  | .getSession _ | .appendMessages .. | .overBudget => True
  | .instant | .ledgerLock | .ledgerWrite _ | .ledgerFlush | .ledgerAdd _ => True
  | .keychainRead _ | .httpSend _ | .httpText | .httpJson | .externalChat .. | .panicked => True
  | _ => False

def windowOps : Op → Prop
  | .getSession _ | .consent _ | .openWindow .. => True
  | _ => False

/-- The calls of `bearer_guard`. -/
def frontOps : Op → Prop
  | .lookup _ | .instant | .limiterCheck _ _ => True
  | _ => False

/-- The worker, with certain calls only. -/
def callOps (calls : String → PyJson → Prop) : Op → Prop
  | .workerWrite method params => calls method params
  | .workerLock | .workerFlush | .workerRead | .workerReap => True
  | _ => False

/-- The worker methods behind the tools. -/
def toolMethods : List String := ["exec", "excel_workbooks", "excel_range_read"]

/-- The calls of each handler. -/
def handlerOps : Route → Op → Prop
  | .handshake, .canonicalize _ | .handshake, .isDir _ | .handshake, .consent _ => True
  | .handshake, .issue _ _ => True
  | .fsRead, .canonicalize _ | .fsRead, .metadata _ | .fsRead, .readFile _ => True
  | .runPython, op | .excelWorkbooks, op | .excelRangeRead, op =>
      callOps (fun method _ => method ∈ toolMethods) op
  | .bundleRead, .canonicalize _ => True
  | .bundleRead, op => callOps (fun method _ => method = "bundle_read") op
  | .bundleWrite, .canonicalize _ | .bundleWrite, .consent _ => True
  | .bundleWrite, op => callOps (fun method _ => method = "bundle_write") op
  | .aiChat, .workerWrite method _ => method ∈ toolMethods
  | .aiChat, op => chatOps op
  | .aiSession, .openSession .. => True
  | .aiSessionHistory, .getSession _ => True
  | .aiProviders, .keychainRead _ => True
  | .aiSetKey, .consent _ | .aiSetKey, .keychainWrite _ _ => True
  | .aiDeleteKey, .consent _ | .aiDeleteKey, .keychainDelete _ => True
  | .aiCostToday, .rollup => True
  | .aiConsentWindow, op => windowOps op
  | _, _ => False

/-- Everything but transcripts, windows, responses and the audit log. -/
def plainOps : Op → Prop
  | .appendMessages .. | .openWindow .. => False
  | .respond _ | .auditLock | .auditWrite _ | .auditFlush => False
  | _ => True

/-- Everything inside `audit_wrap`. -/
def innerOps : Op → Prop
  | .respond _ | .auditLock | .auditWrite _ | .auditFlush => False
  | _ => True

theorem frontOps_plain (op : Op) (h : frontOps op) : plainOps op := by
  cases op <;> first | exact h.elim | trivial

theorem callOps_worker {calls : String → PyJson → Prop} (op : Op) (h : callOps calls op) :
    workerOps op := by
  cases op <;> first | exact h.elim | trivial

theorem readOps_tool {roots : List PathBuf} (op : Op) (h : readOps roots op) :
    toolOps roots op := by
  cases op <;> first | exact h.elim | exact h

theorem workerOps_tool {roots : List PathBuf} (op : Op) (h : workerOps op) : toolOps roots op := by
  cases op <;> first | exact h.elim | trivial

theorem toolOps_dispatch {roots : List PathBuf} (op : Op) (h : toolOps roots op) :
    dispatchOps op := by
  cases op <;> first | exact h.elim | trivial

theorem gateOps_dispatch (op : Op) (h : gateOps op) : dispatchOps op := by
  cases op <;> first | exact h.elim | trivial

theorem providerOps_turn (op : Op) (h : providerOps op) : turnOps op := by
  cases op <;> first | exact h.elim | trivial

theorem bodyOps_provider (op : Op) (h : bodyOps op) : providerOps op := by
  cases op <;> first | exact h.elim | trivial

theorem costOps_turn (op : Op) (h : costOps op) : turnOps op := by
  cases op <;> first | exact h.elim | trivial

theorem plainOps_inner (op : Op) (h : plainOps op) : innerOps op := by
  cases op <;> first | exact h.elim | trivial

/-! ## Files and the worker -/

theorem readUnderRoots_uses (requested : String) (roots : List PathBuf) :
    Uses (I := api) (readOps roots) (readUnderRoots requested roots).run := by
  unfold readUnderRoots Uses
  simp only [meets_exceptIte, meets_exceptBind, meets_throw, meets_lift, meets_okOr]
  simp [readOps]
  grind

theorem canonicalizeRoots_uses (roots : List String) :
    Uses (I := api) rootOps (canonicalizeRoots roots) := by
  induction roots with
  | nil => exact uses_pure _
  | cons raw rest ih =>
      refine uses_call.mpr ⟨trivial, fun p => ?_⟩
      cases p with
      | none => exact ih
      | some p =>
          refine uses_call.mpr ⟨trivial, fun directory => ?_⟩
          exact ih.bind fun roots => uses_pure _

theorem readReply_calls (calls : String → PyJson → Prop) (r : ReadOutcome) :
    Uses (I := api) (callOps calls) (readReply r).run := by
  unfold readReply Uses
  cases r <;> simp [callOps]

theorem workerCall_calls {calls : String → PyJson → Prop} {method : String} {params : PyJson}
    (h : calls method params) : Uses (I := api) (callOps calls) (workerCall method params).run := by
  have hread := readReply_calls calls
  unfold Uses at *
  unfold workerCall
  simpa [callOps, h] using hread

theorem workerExec_calls {calls : String → PyJson → Prop} {code : String}
    (h : calls "exec" (.obj [(JsonText.lit "code", str code)])) :
    Uses (I := api) (callOps calls) (workerExec code).run :=
  (workerCall_calls h).bindExcept fun value => by simp [Uses]

theorem excelCall_calls {calls : String → PyJson → Prop} {method : String} {params : PyJson}
    (h : calls method params) : Uses (I := api) (callOps calls) (excelCall method params).run :=
  (workerCall_calls h).bindExcept fun resp => by simp [Uses]

/-! ## Tool dispatch -/

/-- Every tool but `fs_read` works through the worker. -/
theorem runTool_calls (ctx : DispatchCtx) {scope : Scope} (hscope : scope ≠ .fsRead) (name : String)
    (input : PyJson) : Uses (I := api) (callOps fun method _ => method ∈ toolMethods)
      (runTool ctx scope name input).run := by
  cases scope with
  | fsRead => exact absurd rfl hscope
  | excelCom =>
      simp only [runTool, runExcel]
      split
      · exact (excelCall_calls (by simp [toolMethods])).bindExcept fun resp => uses_pure _
      · split
        · exact (excelCall_calls (by simp [toolMethods])).bindExcept fun resp => uses_pure _
        · trivial
  | aiExecPython =>
      refine Uses.bindExcept (by simp [Uses]) fun code => ?_
      exact (workerExec_calls (by simp [toolMethods])).bindExcept fun result => uses_pure _
  | _ => trivial

theorem runTool_uses_of {allowed : Op → Prop} (ctx : DispatchCtx)
    (hfile : ∀ op, readOps ctx.session.fsRoots op → allowed op)
    (hworker : ∀ op, callOps (fun method _ => method ∈ toolMethods) op → allowed op)
    (scope : Scope) (name : String) (input : PyJson) :
    Uses (I := api) allowed (runTool ctx scope name input).run := by
  by_cases hscope : scope = .fsRead
  · subst hscope
    refine Uses.bindExcept (by simp [Uses]) fun path => ?_
    have hread := (readUnderRoots_uses path ctx.session.fsRoots).mono hfile
    exact hread.bindExcept fun result => uses_pure _
  · exact (runTool_calls ctx hscope name input).mono hworker

theorem runTool_uses (ctx : DispatchCtx) (scope : Scope) (name : String) (input : PyJson) :
    Uses (I := api) (toolOps ctx.session.fsRoots) (runTool ctx scope name input).run :=
  runTool_uses_of ctx readOps_tool (fun op ho => workerOps_tool op (callOps_worker op ho)) scope name
    input

theorem approve_uses (ctx : DispatchCtx) (spec : ToolSpec) (name : String) :
    Uses (I := api) gateOps (approve ctx spec name).run := by
  unfold approve Uses
  simp [gateOps]

theorem runOne_uses_of {allowed : Op → Prop} {ctx : DispatchCtx} {name : String} {input : PyJson}
    (hgate : ∀ op, gateOps op → allowed op) (hmark : allowed (.dispatched ctx.session.id name))
    (htool : ∀ scope, Uses (I := api) allowed (runTool ctx scope name input).run) :
    Uses (I := api) allowed (runOne ctx name input).run := by
  refine Uses.bindExcept (by simp [Uses]) fun spec => ?_
  have hstart : Uses (I := api) allowed (dispatched ctx.session.id name) :=
    uses_call.mpr ⟨hmark, uses_pure⟩
  have hrun := ((approve_uses ctx spec name).mono hgate).bindExcept fun via =>
    hstart.lift.bindExcept fun _ => (htool spec.requiredScope).bindExcept fun value =>
      uses_pure (.ok (value, via) : Except ApiError (PyJson × ApprovedVia))
  exact Uses.exceptIte (fun _ => trivial) fun _ => hrun

theorem runOne_uses (ctx : DispatchCtx) (name : String) (input : PyJson) :
    Uses (I := api) dispatchOps (runOne ctx name input).run :=
  runOne_uses_of gateOps_dispatch trivial fun scope =>
    (runTool_uses ctx scope name input).mono toolOps_dispatch

theorem executeToolUses_uses_of {allowed : Op → Prop} {ctx : DispatchCtx}
    (h : ∀ name input, Uses (I := api) allowed (runOne ctx name input).run)
    (toolUses : List (String × String × PyJson)) :
    Uses (I := api) allowed (executeToolUses ctx toolUses) := by
  induction toolUses with
  | nil => exact uses_pure _
  | cons t rest ih =>
      have hone : Uses (I := api) allowed (executeToolUse ctx t.1 t.2.1 t.2.2) :=
        (h t.2.1 t.2.2).bind fun _ => uses_pure _
      exact hone.bind fun result => ih.bind fun results => uses_pure _

theorem executeToolUses_uses (ctx : DispatchCtx) (toolUses : List (String × String × PyJson)) :
    Uses (I := api) dispatchOps (executeToolUses ctx toolUses) :=
  executeToolUses_uses_of (runOne_uses ctx) toolUses

/-! ## The chat -/

theorem upstreamFailure_uses : Uses (I := api) bodyOps upstreamFailure.run := by
  have htext : Uses (I := api) bodyOps httpText := uses_call.mpr ⟨trivial, uses_pure⟩
  refine htext.lift.bindExcept fun text => ?_
  cases truncateForLog text with
  | none => exact uses_call.mpr ⟨trivial, nofun⟩
  | some _ => trivial

theorem upstreamAnswer_uses : Uses (I := api) bodyOps upstreamAnswer.run :=
  uses_call.mpr ⟨trivial, fun parsed => by cases parsed <;> trivial⟩

theorem anthropicChat_uses (p : AnthropicWire.AnthropicProvider) (messages : List ChatMessage)
    (tools : List ToolSpec) (maxTokens : Option ℕ) :
    Uses (I := api) providerOps (anthropicChat p messages tools maxTokens).run := by
  refine uses_call.mpr ⟨trivial, fun key => ?_⟩
  rcases key with - | - | key
  · trivial
  · trivial
  · refine uses_call.mpr ⟨trivial, fun status => ?_⟩
    cases status with
    | none => trivial
    | some status =>
        exact Uses.exceptIte (fun _ => upstreamFailure_uses.mono bodyOps_provider)
          fun _ => upstreamAnswer_uses.mono bodyOps_provider

theorem provider_uses (p : Provider) (messages : List ChatMessage) (tools : List ToolSpec)
    (maxTokens : Option ℕ) : Uses (I := api) providerOps (p.chat messages tools maxTokens) := by
  cases p with
  | anthropic apiUrl => exact anthropicChat_uses _ messages tools maxTokens
  | external name => exact uses_call.mpr ⟨trivial, fun _ => trivial⟩

theorem recordCost_uses (provider model : String) (usage : Usage) :
    Uses (I := api) costOps (recordCost provider model usage) := by
  unfold recordCost Uses
  simp [costOps]

theorem providerTurn_uses (p : Provider) (history : List ChatMessage) (maxTokens : Option ℕ) :
    Uses (I := api) providerOps (providerTurn p history maxTokens).run := by
  refine (provider_uses p history builtinTools maxTokens).lift.bindExcept fun r => ?_
  cases r <;> trivial

theorem chatTurns_uses_of {allowed : Op → Prop} (hops : ∀ op, turnOps op → allowed op)
    (htools : ∀ ctx toolUses, Uses (I := api) allowed (executeToolUses ctx toolUses))
    (provider : Provider) (session : Session) (body : ChatRequest Uuid) (n : ℕ) (c : Chat) :
    Uses (I := api) allowed (chatTurns provider session body n c).run := by
  induction n generalizing c with
  | zero => trivial
  | succ n ih =>
      have happend (id : Uuid) (author : Author) (messages : List ChatMessage) :
          Uses (I := api) allowed (orThrow (appendMessages id author messages)).run :=
        uses_call.mpr ⟨hops _ trivial, fun _ => trivial⟩
      have hprovider (history : List ChatMessage) :=
        (providerTurn_uses provider history body.maxTokens).mono fun op ho =>
          hops op (providerOps_turn op ho)
      have hcost (usage : Usage) := (recordCost_uses session.provider session.model usage).mono
        fun op ho => hops op (costOps_turn op ho)
      refine (hprovider _).bindExcept fun turn => ?_
      refine (happend _ _ _).bindExcept fun _ => ?_
      refine (hcost _).lift.bindExcept fun _ => ?_
      refine Uses.exceptIte (fun _ => trivial) fun _ => ?_
      refine (htools _ _).lift.bindExcept fun results => ?_
      exact (happend _ _ _).bindExcept fun _ => ih _

theorem aiChat_uses_of {allowed : Op → Prop} (hops : ∀ op, turnOps op → allowed op)
    (htools : ∀ ctx toolUses, Uses (I := api) allowed (executeToolUses ctx toolUses))
    (providers : ProviderRegistry) (body : ChatRequest Uuid) :
    Uses (I := api) allowed (aiChat providers body).run := by
  refine uses_call.mpr ⟨hops _ trivial, fun exceeded => ?_⟩
  cases exceeded with
  | true => trivial
  | false =>
      refine uses_call.mpr ⟨hops _ trivial, fun session => ?_⟩
      cases session with
      | error e => trivial
      | ok session =>
          refine Uses.bindExcept (by simp [Uses]) fun provider => ?_
          refine uses_call.mpr ⟨hops _ trivial, fun appended => ?_⟩
          cases appended with
          | error e => trivial
          | ok _ =>
              refine uses_call.mpr ⟨hops _ trivial, fun current => ?_⟩
              cases current with
              | error e => trivial
              | ok current =>
                  have hturns := chatTurns_uses_of hops htools provider session body maxTurns
                    (startChat current.messages)
                  exact hturns.bindExcept fun _ => uses_pure _

/-! ## The other routes -/

theorem handshake_uses (origin : Option String) (body : HandshakeRequest) :
    Uses (I := api) (handlerOps .handshake) (Routes.handshake origin body).run := by
  have hroots : Uses (I := api) (handlerOps .handshake) (grantedRoots body).run := by
    refine Uses.exceptIte (fun _ => trivial) fun _ => Uses.bindExcept ?_ fun roots => ?_
    · apply Uses.lift
      refine (canonicalizeRoots_uses body.fsRoots).mono fun op ho => ?_
      cases op <;> first | exact ho.elim | trivial
    · simp [Uses]
  refine Uses.exceptIte (fun _ => trivial) fun _ => hroots.bindExcept fun roots => ?_
  simp [Uses, handlerOps]

theorem ensurePathUnderRoots_uses {allowed : Op → Prop} {requested : String} (token : TokenRecord)
    (h : allowed (.canonicalize requested)) :
    Uses (I := api) allowed (ensurePathUnderRoots requested token).run := by
  unfold ensurePathUnderRoots Uses
  simp [h]

theorem checkBundleOk_uses {allowed : Op → Prop} (resp : PyJson) :
    Uses (I := api) allowed (checkBundleOk resp).run := by
  unfold checkBundleOk Uses
  simp

theorem bundleReadRoute_uses (token : TokenRecord) (path : String) :
    Uses (I := api) (handlerOps .bundleRead) (bundleReadRoute token path).run := by
  refine (ensurePathUnderRoots_uses token trivial).bindExcept fun canonical => ?_
  have hcall (params : PyJson) : Uses (I := api) (callOps fun method _ => method = "bundle_read")
      (workerCall "bundle_read" params).run := workerCall_calls rfl
  refine ((hcall _).mono fun op ho => ?_).bindExcept fun resp => ?_
  · cases op <;> first | exact ho.elim | exact ho
  · exact (checkBundleOk_uses resp).bindExcept fun _ => uses_pure _

theorem bundleWriteRoute_uses (token : TokenRecord) (body : BundleWriteRequest) :
    Uses (I := api) (handlerOps .bundleWrite) (bundleWriteRoute token body).run := by
  refine (ensurePathUnderRoots_uses token trivial).bindExcept fun canonical => ?_
  have hcall (params : PyJson) : Uses (I := api) (callOps fun method _ => method = "bundle_write")
      (workerCall "bundle_write" params).run := workerCall_calls rfl
  refine uses_call.mpr ⟨trivial, fun approved => ?_⟩
  cases approved with
  | false => trivial
  | true =>
      refine ((hcall _).mono fun op ho => ?_).bindExcept fun resp => ?_
      · cases op <;> first | exact ho.elim | exact ho
      · exact (checkBundleOk_uses resp).bindExcept fun _ => uses_pure _

theorem aiChat_handler (providers : ProviderRegistry) (body : ChatRequest Uuid) :
    Uses (I := api) (handlerOps .aiChat) (aiChat providers body).run := by
  have hturn (op : Op) (ho : turnOps op) : handlerOps .aiChat op := by
    cases op <;> first | exact ho.elim | trivial
  apply aiChat_uses_of hturn
  intro ctx toolUses
  apply executeToolUses_uses_of
  intro name input
  refine runOne_uses_of (fun op ho => ?_) trivial fun scope => ?_
  · cases op <;> first | exact ho.elim | trivial
  · apply runTool_uses_of ctx
    · intro op ho
      cases op <;> first | exact ho.elim | trivial
    · intro op ho
      cases op <;> first | exact ho.elim | exact ho

theorem aiSessionHistory_uses (parseUuid : String → Option Uuid) (id : String) :
    Uses (I := api) (handlerOps .aiSessionHistory) (Routes.aiSessionHistory parseUuid id).run := by
  refine Uses.bindExcept (by simp [Uses]) fun uuid => ?_
  refine uses_call.mpr ⟨trivial, fun session => ?_⟩
  cases session <;> trivial

theorem aiOpenTrustWindow_uses (parseUuid : String → Option Uuid) (body : OpenTrustWindowRequest) :
    Uses (I := api) windowOps (aiOpenTrustWindow parseUuid body).run := by
  refine Uses.bindExcept (by simp [Uses]) fun uuid => ?_
  refine uses_call.mpr ⟨trivial, fun session => ?_⟩
  cases session with
  | error e => trivial
  | ok session =>
      refine uses_call.mpr ⟨trivial, fun approved => ?_⟩
      cases approved with
      | false => trivial
      | true => exact uses_call.mpr ⟨trivial, fun _ => trivial⟩

theorem handler_uses (d : Deployment) (origin : Option String) (token : Option TokenRecord)
    (r : Route) (input : r.Input) :
    Uses (I := api) (handlerOps r) (handler d origin token r input).run := by
  have htoken {α : Type} {f : TokenRecord → Handler α}
      (h : ∀ t, Uses (I := api) (handlerOps r) (f t).run) :
      Uses (I := api) (handlerOps r) (okOr .internal token >>= f).run :=
    Uses.bindExcept (by simp [Uses]) h
  cases r with
  | handshake => exact handshake_uses origin input
  | ws => exact htoken fun _ => uses_pure _
  | fsRead =>
      refine htoken fun t => ?_
      have hread : Uses (handlerOps .fsRead) (readUnderRoots input t.fsRoots).run :=
        (readUnderRoots_uses input t.fsRoots).mono fun op ho => by
          cases op <;> first | exact ho.elim | trivial
      exact hread.bindExcept fun _ => uses_pure _
  | runPython => exact (workerExec_calls (by simp [toolMethods])).bindExcept fun _ => uses_pure _
  | excelWorkbooks => exact (excelCall_calls (by simp [toolMethods])).bindExcept fun _ => uses_pure _
  | excelRangeRead => exact (excelCall_calls (by simp [toolMethods])).bindExcept fun _ => uses_pure _
  | bundleRead => exact htoken fun t => bundleReadRoute_uses t input
  | bundleWrite => exact htoken fun t => bundleWriteRoute_uses t input
  | aiChat => exact aiChat_handler d.providers input
  | aiSession =>
      refine htoken fun t => ?_
      unfold aiOpenSession Uses
      simp [handlerOps]
  | aiSessionHistory => exact aiSessionHistory_uses d.parseUuid input
  | aiProviders => exact uses_call.mpr ⟨trivial, fun _ => uses_pure _⟩
  | aiSetKey =>
      simp only [handler]
      unfold aiSetProviderKey Uses
      simp [handlerOps]
  | aiDeleteKey =>
      simp only [handler]
      unfold aiDeleteProviderKey Uses
      simp [handlerOps]
  | aiCostToday => exact uses_call.mpr ⟨trivial, fun _ => uses_pure _⟩
  | aiConsentWindow => exact aiOpenTrustWindow_uses d.parseUuid input
  | _ => exact uses_pure _

theorem handler_plain (d : Deployment) (origin : Option String) (token : Option TokenRecord)
    (r : Route) (input : r.Input) (hchat : r ≠ .aiChat) (hwindow : r ≠ .aiConsentWindow) :
    Uses (I := api) plainOps (handler d origin token r input).run := by
  refine (handler_uses d origin token r input).mono fun op ho => ?_
  cases r with
  | aiChat => exact absurd rfl hchat
  | aiConsentWindow => exact absurd rfl hwindow
  | _ => cases op <;> first | exact ho.elim | trivial

theorem handler_inner (d : Deployment) (origin : Option String) (token : Option TokenRecord)
    (r : Route) (input : r.Input) :
    Uses (I := api) innerOps (handler d origin token r input).run := by
  refine (handler_uses d origin token r input).mono fun op ho => ?_
  cases r <;> cases op <;> first | exact ho.elim | trivial

/-! ## The stack -/

section
variable {allowed : Op → Prop} {d : Deployment} {request : Request}

theorem hostGuard_uses {next : Server Response} (h : Uses (I := api) allowed next) :
    Uses (I := api) allowed (hostGuard d request next) := by
  unfold hostGuard
  split
  · trivial
  · split
    · exact h
    · trivial

theorem originGuard_uses {next : Server Response} (h : Uses (I := api) allowed next) :
    Uses (I := api) allowed (originGuard request next) := by
  unfold originGuard
  split
  · trivial
  · split
    · exact h
    · trivial

theorem requireScope_uses {need : Option Scope} {record : TokenRecord} {next : Server Response}
    (h : Uses (I := api) allowed next) :
    Uses (I := api) allowed (requireScope need record next) := by
  unfold requireScope
  split
  · exact h
  · split
    · exact h
    · trivial

theorem bearerGuard_uses {next : TokenRecord → Server Response}
    (hops : ∀ op, frontOps op → allowed op) (h : ∀ record, Uses (I := api) allowed (next record)) :
    Uses (I := api) allowed (bearerGuard request next) := by
  unfold bearerGuard
  split
  · refine uses_call.mpr ⟨hops _ trivial, fun record => ?_⟩
    cases record with
    | error e => trivial
    | ok record =>
        refine uses_call.mpr ⟨hops _ trivial, fun now => ?_⟩
        refine uses_call.mpr ⟨hops _ trivial, fun checked => ?_⟩
        cases checked with
        | error e => trivial
        | ok _ => exact (h record).bind fun _ => uses_pure _
  · trivial

theorem guarded_uses {access : Access} {next : Option TokenRecord → Server Response}
    (hops : ∀ op, frontOps op → allowed op) (h : ∀ token, Uses (I := api) allowed (next token)) :
    Uses (I := api) allowed (guarded d request access next) := by
  cases access with
  | publicOpen => exact h none
  | publicOrigin => exact hostGuard_uses (originGuard_uses (h none))
  | bearer need =>
      exact hostGuard_uses (originGuard_uses (bearerGuard_uses hops fun record =>
        requireScope_uses (h (some record))))

theorem innerService_uses_of (hops : ∀ op, frontOps op → allowed op)
    (h : ∀ r input token, inputFor request r = some input →
      Uses (I := api) allowed (handler d request.origin token r input).run) :
    Uses (I := api) allowed (innerService d request) := by
  unfold innerService
  split
  · trivial
  · exact guarded_uses hops fun _ => trivial
  · next r hroute =>
      refine guarded_uses hops fun token => ?_
      unfold handle
      split
      · trivial
      · next input hinput =>
          refine Uses.bind (h r input token ?_) fun _ => uses_pure _
          rw [inputFor, if_pos hroute, hinput]
          rfl

theorem innerService_uses (d : Deployment) (request : Request) :
    Uses (I := api) innerOps (innerService d request) :=
  innerService_uses_of (fun op ho => plainOps_inner op (frontOps_plain op ho))
    fun r input token _ => handler_inner d request.origin token r input

end

end Xlpod.Footprints
