import Xlpod.Serving

/-!
# The model that is called and the model that is billed

`AnthropicProvider` puts the model it was built with into every request; the
chat charges the model of the session. The two agree exactly for the sessions
opened with the provider's own model.
-/
namespace Xlpod.BilledModel
open Xlpod.ApiErrors Xlpod.Auth Xlpod.AiTypes Xlpod.AnthropicWire Xlpod.BundlePayload
open Xlpod.CostLedger Xlpod.GuardedRuns Xlpod.Programs Xlpod.Interleaving Xlpod.SessionStores
open Xlpod.ServerState Xlpod.ServerCalls Xlpod.ToolDispatch Xlpod.ChatRoute Xlpod.Server
open Xlpod.Footprints Xlpod.Serving

/-- The session a chat found, the model it last called, and what that call used. -/
structure Seen where
  session : Option Session
  called : Option String
  usage : Option Usage

def note (seen : Seen) : (op : Op) → op.Reply → Seen
  | .getSession _, .ok session =>
      match seen.session with
      | some _ => seen
      | none => { seen with session := some session }
  | .httpSend post, _ => { seen with called := some post.body.model }
  | .httpJson, some parsed => { seen with usage := some parsed.intoInternal.usage }
  | _, _ => seen

/-- The session found first stays. -/
theorem note_session {seen : Seen} {session : Session} (op : Op) (r : op.Reply)
    (h : seen.session = some session) : (note seen op r).session = some session := by
  cases op with
  | getSession id =>
      cases r with
      | error e => exact h
      | ok found => simp only [note, h]
  | httpJson => cases r <;> exact h
  | _ => exact h

def nothing : Seen := ⟨none, none, none⟩

/-- The provider of the session is Anthropic's, at whatever url. -/
def Anthropic (d : Deployment) (session : Session) : Prop :=
  ∃ apiUrl, d.providers session.provider = some (.anthropic apiUrl)

/-- A request goes upstream for the session's model; a turn is charged at the
price of the model that was called. -/
def AsCalled (d : Deployment) (seen : Seen) : Op → Prop
  | .httpSend post => ∀ session, seen.session = some session → post.body.model = session.model
  | .ledgerAdd call => ∀ session, seen.session = some session → Anthropic d session →
      ∃ model usage, seen.called = some model ∧ seen.usage = some usage ∧
        call.usdMicros = costFor session.provider model usage
  | _ => True

section
variable {d : Deployment}

def seenOf (i : ℕ) (events : List (Event (server d))) : Seen := track note nothing i events

def BilledAsCalled (w : World (server d)) : Prop :=
  Throughout (fun e before => Chats e.request → AsCalled d (seenOf e.task before) e.op) w.events

/-- Every chat that sends a request upstream is on a session with the provider's
own model. -/
def DefaultModels (w : World (server d)) : Prop :=
  Throughout (fun e before => Chats e.request → ∀ post session, e.op = Op.httpSend post →
    (seenOf e.task before).session = some session → session.model = defaultModel) w.events

end

/-! ## The protocol -/

/-- What the chat promises at its two model-bearing calls. -/
def Promised (d : Deployment) (seen : Seen) : Op → Prop
  | .httpSend post => post.body.model = defaultModel ∧ seen.session.isSome
  | .ledgerAdd call => ∃ session, seen.session = some session ∧
      call.provider = session.provider ∧ call.model = session.model ∧
        (Anthropic d session → seen.called = some defaultModel ∧ seen.usage = some call.usage)
  | _ => True

def conduct (d : Deployment) (request : Request) : Contract api Seen where
  pre seen op := Chats request → Promised d seen op
  fact _ _ _ := True
  next := note

def protocol (d : Deployment) : Protocol (server d) Seen where
  contract := conduct d
  start _ := nothing
  post _ _ := True

/-- Neither sends, nor charges, nor tells anything. -/
def freeOps : Op → Prop
  | .getSession _ | .httpSend _ | .httpJson | .ledgerAdd _ => False
  | _ => True

section
variable {d : Deployment} {request : Request} {session : Session} {body : ChatRequest Uuid}

theorem ignores_free : Ignores (conduct d request) freeOps := by
  intro seen op ho
  cases op <;> first | exact ho.elim | exact ⟨fun _ => trivial, fun _ => rfl⟩

/-- An answer of Anthropic's provider: called with its own model, used as told. -/
def Answered (seen : Seen) (turn : ProviderTurn) : Prop :=
  seen.called = some defaultModel ∧ seen.usage = some turn.usage

/-- An error status never ends in an answer. -/
theorem upstreamFailure_conduct {ok : Seen → ProviderTurn → Prop} (seen : Seen) :
    Meets (conduct d request) upstreamFailure.run seen (OnResult ok fun _ _ => True) := by
  apply meets_exceptBind.mpr
  apply meets_lift.mpr
  refine ⟨fun _ => trivial, fun text _ => ?_⟩
  rw [meets_done, onResult_ok]
  cases truncateForLog text with
  | none => exact meets_lift.mpr ⟨fun _ => trivial, nofun⟩
  | some _ => trivial

theorem anthropicChat_conduct {seen : Seen} (hs : seen.session = some session) (apiUrl : String)
    (history : List ChatMessage) (tools : List ToolSpec) (maxTokens : Option ℕ) :
    Meets (conduct d request)
      (anthropicChat (newAnthropicProvider.withApiUrl apiUrl) history tools maxTokens).run seen
      (OnResult (fun seen' turn => seen'.session = some session ∧ Answered seen' turn)
        fun _ _ => True) := by
  apply ignores_free.step (Op.keychainRead "anthropic_api_key") trivial
  intro key
  rcases key with - | - | key
  · trivial
  · trivial
  · refine ⟨fun _ => ⟨rfl, by rw [hs]; rfl⟩, fun status _ => ?_⟩
    cases status with
    | none => trivial
    | some status =>
        apply meets_exceptIte.mpr
        refine ⟨fun _ => upstreamFailure_conduct _, fun _ => ?_⟩
        refine ⟨fun _ => trivial, fun parsed _ => ?_⟩
        cases parsed with
        | none => trivial
        | some parsed => exact ⟨hs, rfl, rfl⟩

theorem recordCost_conduct {seen : Seen} {usage : Usage} (hs : seen.session = some session)
    (hu : Anthropic d session → seen.called = some defaultModel ∧ seen.usage = some usage) :
    Meets (conduct d request) (recordCost session.provider session.model usage) seen
      fun seen' _ => seen' = seen := by
  apply ignores_free.step Op.instant trivial
  intro now
  apply ignores_free.step Op.ledgerLock trivial
  intro _
  refine ignores_free.step (Op.ledgerWrite _) trivial ?_
  intro _
  apply ignores_free.step Op.ledgerFlush trivial
  intro _
  exact ⟨fun _ => ⟨session, hs, rfl, rfl, hu⟩, fun _ _ => rfl⟩

theorem executeToolUses_conduct (ctx : DispatchCtx) (toolUses : List (String × String × PyJson))
    (seen : Seen) : Meets (conduct d request) (executeToolUses ctx toolUses) seen
      fun seen' _ => seen' = seen := by
  apply Ignores.meets _ (executeToolUses_uses ctx toolUses)
  exact ignores_free.mono fun op ho => by cases op <;> first | exact ho.elim | trivial

/-- The session stays the one that was found; after an answer of Anthropic's
provider, so do its model and its usage until they are charged. -/
def outline {provider : Provider} (hp : d.providers session.provider = some provider) :
    Outline (conduct d request) provider session body where
  ready seen := seen.session = some session
  asked seen turn := seen.session = some session ∧ (Anthropic d session → Answered seen turn)
  stored seen turn := seen.session = some session ∧ (Anthropic d session → Answered seen turn)
  charged seen _ := seen.session = some session
  answered seen _ _ := seen.session = some session
  ended _ := True
  ended_of_ready _ _ := trivial
  ask := by
    intro seen history hs
    apply meets_exceptBind.mpr
    apply meets_lift.mpr
    cases provider with
    | anthropic apiUrl =>
        refine (anthropicChat_conduct hs apiUrl history _ _).mono fun seen' r hr => ?_
        cases r with
        | error e => trivial
        | ok turn => exact ⟨hr.1, fun _ => hr.2⟩
    | external name =>
        refine ⟨fun _ => trivial, fun r _ => ?_⟩
        cases r with
        | error e => trivial
        | ok turn =>
            refine ⟨hs, fun hanthropic => ?_⟩
            obtain ⟨apiUrl, hurl⟩ := hanthropic
            rw [hp] at hurl
            cases hurl
  store := by
    intro seen turn hs
    refine ⟨fun _ => trivial, fun r _ => ?_⟩
    cases r with
    | error e => trivial
    | ok _ => exact hs
  charge := by
    intro seen turn hs
    refine (recordCost_conduct hs.1 hs.2).mono fun seen' _ hsame => ?_
    rw [hsame]
    exact hs.1
  finish _ _ _ _ := trivial
  answer := by
    intro seen turn hs _
    refine (executeToolUses_conduct _ _ seen).mono fun seen' results hsame => ?_
    rw [hsame]
    exact hs
  reply := by
    intro seen turn results hs
    refine ⟨fun _ => trivial, fun r _ => ?_⟩
    cases r with
    | error e => trivial
    | ok _ => exact hs

theorem aiChat_conduct {seen : Seen} (hs : seen.session = none) :
    Meets (conduct d request) (aiChat d.providers body).run seen fun _ _ => True := by
  apply aiChat_meets fun _ => True
  · exact ignores_free.mono fun op ho => by subst ho; trivial
  · trivial
  · refine ⟨fun _ => trivial, fun r _ => ?_⟩
    cases r with
    | error e => trivial
    | ok session =>
        have hfound : (note seen (.getSession body.sessionId) (.ok session)).session =
            some session := by
          simp only [note, hs]
        refine ⟨trivial, fun provider hp => ⟨fun _ => trivial, fun r _ => ?_⟩⟩
        cases r with
        | error e => trivial
        | ok _ =>
            refine ⟨fun _ => trivial, fun r _ => ?_⟩
            cases r with
            | error e => trivial
            | ok current =>
                exact ⟨outline hp, rfl, note_session (.getSession session.id) (.ok current) hfound⟩

end

theorem serve_conduct (d : Deployment) (request : Request) :
    Meets (conduct d request) ((server d).serve request) nothing fun _ _ => True := by
  cases hinput : inputFor request .aiChat with
  | none =>
      apply meets_free
      intro seen op hchat
      rw [Chats, hinput] at hchat
      cases hchat
  | some body =>
      refine serve_bearer_meets (r := .aiChat) rfl hinput
        (ignores_free.mono fun op ho => by cases op <;> first | exact ho.elim | trivial) trivial ?_
      intro token
      refine ⟨fun _ => trivial, fun reply _ => ⟨trivial, fun record hrecord => ?_⟩⟩
      exact aiChat_conduct rfl

/-! ## The bill -/

section
variable {d : Deployment} {i : ℕ} {session : Session} {model : String}
  {events before : List (Event (server d))}

theorem session_kept (after : List (Event (server d)))
    (h : (seenOf i before).session = some session) :
    (seenOf i (after ++ before)).session = some session := by
  induction after with
  | nil => exact h
  | cons e es ih =>
      by_cases hi : e.task = i
      · have hself : seenOf i (e :: es ++ before) = note (seenOf i (es ++ before)) e.op e.reply :=
          track_self hi
        rw [hself]
        exact note_session e.op e.reply ih
      · have hother : seenOf i (e :: es ++ before) = seenOf i (es ++ before) := track_other hi
        rw [hother]
        exact ih

theorem note_called (seen : Seen) (op : Op) (r : op.Reply) :
    (∃ post, op = .httpSend post ∧ (note seen op r).called = some post.body.model) ∨
      (note seen op r).called = seen.called := by
  cases op with
  | httpSend post => exact .inl ⟨post, rfl, rfl⟩
  | getSession id =>
      refine .inr ?_
      cases r with
      | error e => rfl
      | ok found => cases h : seen.session <;> simp only [note, h]
  | httpJson => cases r <;> exact .inr rfl
  | _ => exact .inr rfl

/-- A model that was called was sent in some request. -/
theorem called_sent (h : (seenOf i events).called = some model) :
    ∃ after e before post, events = after ++ e :: before ∧ e.task = i ∧ e.op = .httpSend post ∧
      post.body.model = model := by
  induction events with
  | nil => cases h
  | cons e es ih =>
      have hold (h : (seenOf i es).called = some model) : ∃ after e' before post,
          e :: es = after ++ e' :: before ∧ e'.task = i ∧ e'.op = .httpSend post ∧
            post.body.model = model := by
        obtain ⟨after, e', before, post, hes, hrest⟩ := ih h
        exact ⟨e :: after, e', before, post, by rw [hes]; rfl, hrest⟩
      by_cases hi : e.task = i
      · have hself : seenOf i (e :: es) = note (seenOf i es) e.op e.reply := track_self hi
        rw [hself] at h
        rcases note_called (seenOf i es) e.op e.reply with ⟨post, hop, hcalled⟩ | hsame
        · rw [hcalled, Option.some.injEq] at h
          exact ⟨[], e, es, post, rfl, hi, hop, h⟩
        · exact hold (hsame.symm.trans h)
      · have hother : seenOf i (e :: es) = seenOf i es := track_other hi
        exact hold (hother ▸ h)

end

theorem sound (d : Deployment) (guard : World (server d) → Label (server d) → Prop) :
    Sound (protocol d) guard :=
  fun _ _ _ _ _ _ _ _ _ _ _ _ => trivial

/-- The request that called a model was made for the session that pays for it. -/
theorem model_of_called {d : Deployment} {w : World (server d)}
    (h : Reachable (machine (server d)) anyStep w) (hdefault : DefaultModels w)
    {after before : List (Event (server d))} {e : Event (server d)}
    (he : w.events = after ++ e :: before) (hchat : Chats e.request) {session : Session}
    {model : String} (hsession : (seenOf e.task before).session = some session)
    (hcalled : (seenOf e.task before).called = some model) : session.model = defaultModel := by
  obtain ⟨later, sent, earlier, post, hbefore, htask, hsend, -⟩ := called_sent hcalled
  have htrace : w.events = (after ++ e :: later) ++ sent :: earlier := by
    rw [he, hbefore, List.append_assoc, List.cons_append]
  have hreq : sent.request = e.request := by
    have hrec := reachable_recorded h
    have hsent := hrec sent (by simp [htrace])
    have hself := hrec e (by simp [he])
    rw [htask, hself, Option.some.injEq] at hsent
    exact hsent.symm
  have hsentChat : Chats sent.request := hreq ▸ hchat
  have hpromise : Promised d (seenOf sent.task earlier) sent.op :=
    obeyed (serve_conduct d) (sound d anyStep) h _ sent earlier htrace hsentChat
  rw [hsend, htask] at hpromise
  obtain ⟨first, hfirst⟩ := Option.isSome_iff_exists.mp hpromise.2
  have hkept : (seenOf e.task before).session = some first := by
    rw [hbefore, ← List.singleton_append, ← List.append_assoc]
    exact session_kept (later ++ [sent]) hfirst
  rw [hsession, Option.some.injEq] at hkept
  subst hkept
  apply hdefault _ sent earlier htrace hsentChat post session hsend
  rw [htask]
  exact hfirst

theorem billed_iff (d : Deployment) (w : World (server d))
    (h : Reachable (machine (server d)) anyStep w) : BilledAsCalled w ↔ DefaultModels w := by
  have hobey : Throughout (fun e before => Chats e.request →
      Promised d (seenOf e.task before) e.op) w.events := obeyed (serve_conduct d) (sound d anyStep) h
  constructor
  · intro hbilled after e before he hchat post session hop hsession
    have hcalled := hbilled after e before he hchat
    have hpromise := hobey after e before he hchat
    rw [hop] at hcalled hpromise
    exact (hcalled session hsession).symm.trans hpromise.1
  · intro hdefault after e before he hchat
    have hpromise := hobey after e before he hchat
    cases hop : e.op with
    | httpSend post =>
        intro session hsession
        rw [hop] at hpromise
        have hmodel := hdefault after e before he hchat post session hop hsession
        exact hpromise.1.trans hmodel.symm
    | ledgerAdd call =>
        intro session hsession hanthropic
        rw [hop] at hpromise
        obtain ⟨found, hfound, hprovider, hmodel, hanswered⟩ := hpromise
        rw [hsession, Option.some.injEq] at hfound
        subst hfound
        obtain ⟨hcalled, husage⟩ := hanswered hanthropic
        have hdef := model_of_called h hdefault he hchat hsession hcalled
        refine ⟨defaultModel, call.usage, hcalled, husage, ?_⟩
        rw [Call.usdMicros, hprovider, hmodel, hdef]
    | _ => trivial

/-! ## Two sessions -/

section
variable {d : Deployment}

/-- A request is sent for a session with another model. -/
def otherModel (e : Event (server d)) (before : List (Event (server d))) : Bool :=
  (inputFor e.request .aiChat).isSome &&
    match e.op with
    | .httpSend _ => (seenOf e.task before).session.any fun session => session.model ≠ defaultModel
    | _ => false

theorem defaultModels_of_nowhere {w : World (server d)} (h : somewhere otherModel w.events = false) :
    DefaultModels w := by
  refine throughout_of_nowhere (fun e before htest hchat post session hop hsession => ?_) h
  rw [otherModel, hop, hsession, show (inputFor e.request .aiChat).isSome = true from hchat] at htest
  simpa using htest

/-- The model that was sent is not the session's. -/
def misbills (e : Event (server d)) (before : List (Event (server d))) : Bool :=
  (inputFor e.request .aiChat).isSome &&
    match e.op with
    | .httpSend post =>
        (seenOf e.task before).session.any fun session => post.body.model ≠ session.model
    | _ => false

theorem not_billed_of_misbills {w : World (server d)} (h : somewhere misbills w.events = true) :
    ¬ BilledAsCalled w := by
  apply not_throughout _ h
  intro e before htest hbilled
  obtain ⟨hchat, hmodel⟩ := Bool.and_eq_true_iff.mp htest
  have hcalled := hbilled hchat
  split at hmodel
  · next post hop =>
      rw [hop] at hcalled
      obtain ⟨session, hsession, hne⟩ := (Option.any_eq_true ..).mp hmodel
      simp [hcalled session hsession] at hne
  · cases hmodel

/-- A turn has been charged. -/
def charges (w : World (server d)) : Bool :=
  w.events.any fun e =>
    match e.op with
    | .ledgerAdd _ => true
    | _ => false

end

/-- One turn on a session opened with `model`, up to its charge. -/
def chargedTurn (model : Option String) : List (Label (server keyedLaunch)) :=
  handshakeRun 0 "a" [.aiProviderCall] ++ sessionRun 1 "a" 1 model ++
    chatRun 2 "a" 1 17 (asksFor "fs_read" (.obj []))

theorem billed_defaultModel : ∃ w, Reachable (machine (server keyedLaunch)) anyStep w ∧
    charges w = true ∧ BilledAsCalled w := by
  obtain ⟨w, hw, ht⟩ := replay_reaches (machine (server keyedLaunch)) anyStep unchecked
    (chargedTurn none) (fun w => charges w && !somewhere otherModel w.events)
    (fun _ _ _ => trivial) (by decide +kernel)
  simp only [Bool.and_eq_true, Bool.not_eq_true'] at ht
  exact ⟨w, hw, ht.1, (billed_iff keyedLaunch w hw).mpr (defaultModels_of_nowhere ht.2)⟩

theorem not_billed_sonnet :
    ∃ w, Reachable (machine (server keyedLaunch)) anyStep w ∧ ¬ BilledAsCalled w := by
  obtain ⟨w, hw, ht⟩ := replay_reaches (machine (server keyedLaunch)) anyStep unchecked
    (chargedTurn (some "claude-sonnet-4")) (fun w => somewhere misbills w.events)
    (fun _ _ _ => trivial) (by decide +kernel)
  exact ⟨w, hw, not_billed_of_misbills ht⟩

end Xlpod.BilledModel
