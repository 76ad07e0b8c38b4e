import Xlpod.Footprints

/-!
# Requests under a contract

What a contract has to say about the middleware when it is really about the
handlers: what the guards refuse, the one lookup, and each handler with what
the guards let through. Special cases are contracts that ignore the edge, and
those that are about one route behind `bearer_guard`.

For the chat, an outline names what holds of the local state at each point of a
turn; when every stretch between two points keeps to it, the whole loop does.
-/
namespace Xlpod.Serving
open Xlpod.ApiErrors Xlpod.Auth Xlpod.AiTypes Xlpod.Programs Xlpod.SessionStores
open Xlpod.ServerState Xlpod.ServerCalls Xlpod.ToolDispatch Xlpod.ChatRoute Xlpod.Server

/-- The middleware's clock, limiter and log. -/
def quietOps : Op → Prop
  | .instant | .limiterCheck _ _ | .auditLock | .auditWrite _ | .auditFlush => True
  | _ => False

/-- What the middleware does besides the lookup. -/
def edgeOps : Op → Prop
  | .instant | .limiterCheck _ _ | .respond _ | .auditLock | .auditWrite _ | .auditFlush => True
  | _ => False

variable {G : Type} {C : Contract api G} {d : Deployment} {request : Request} {g : G}

def Chats (request : Request) : Prop := (inputFor request .aiChat).isSome

theorem inputFor_some {r : Route} {input : r.Input} (h : inputFor request r = some input) :
    route request.method request.path = .found r ∧ request.input r = .ok input := by
  unfold inputFor at h
  split at h
  · next hroute =>
      cases hi : request.input r with
      | error status =>
          rw [hi] at h
          cases h
      | ok x =>
          rw [hi] at h
          cases h
          exact ⟨hroute, rfl⟩
  · cases h

theorem inputFor_of {r : Route} {input : r.Input}
    (hroute : route request.method request.path = .found r) (hinput : request.input r = .ok input) :
    inputFor request r = some input := by
  rw [inputFor, if_pos hroute, hinput]
  rfl

/-- A request has one route. -/
theorem route_unique {r r' : Route} {input : r.Input} {input' : r'.Input}
    (h : inputFor request r = some input) (h' : inputFor request r' = some input') : r' = r := by
  have hfound := (inputFor_some h).1
  rw [(inputFor_some h').1, Match.found.injEq] at hfound
  exact hfound

theorem inputFor_ne {r r' : Route} {input : r.Input} (h : inputFor request r = some input)
    (hne : r' ≠ r) : inputFor request r' = none :=
  Option.eq_none_iff_forall_ne_some.mpr fun _ h' => hne (route_unique h h')

/-! ## The stack -/

/-- A predicate that holds of every answer the guards and the router give. -/
structure Refuses (C : Contract api G) (P : ResponseBody → Prop) : Prop where
  host : P (.error .hostNotAllowed)
  origin : P (.error .originNotAllowed)
  token : P (.error .unauthorized)
  lookup : ∀ g token e, C.fact g (.lookup token) (.error e) → P (.error e)
  limiter : ∀ g key now e, C.fact g (.limiterCheck key now) (.error e) → P (.error e)
  scope : P (.error .scopeDenied)
  rejection : P .rejection

/-- What the guards in front of a handler have checked. -/
structure Passes (d : Deployment) (request : Request) (need : Option Scope)
    (record : TokenRecord) : Prop where
  host : ∃ host ∈ d.allowedHosts, request.host = some host
  origin : ∃ origin ∈ allowedOrigins, request.origin = some origin
  scope : ∀ scope, need = some scope → scope ∈ record.scopes

def bodyOf : Except ApiError ResponseBody → ResponseBody
  | .ok body => body
  | .error e => .error e

section
variable {P : ResponseBody → Prop} {Q : G → ResponseBody → Prop} {R : G → Prop}

theorem toResponse_body (success : ℕ) (x : Except ApiError ResponseBody) :
    (toResponse success x).body = bodyOf x := by
  cases x <;> rfl

theorem writeAudit_meets (hquiet : Ignores C quietOps) (entry : AuditEntry) :
    Meets C (writeAudit entry) g fun g' _ => g' = g := by
  apply hquiet.meets
  unfold writeAudit Uses
  simp [quietOps]

theorem auditWrap_meets (hquiet : Ignores C quietOps)
    (hrespond : ∀ g response, Q g response.body →
      C.pre g (.respond response) ∧ ∀ u, R (C.next g (.respond response) u))
    {next : Server Response} (h : Meets C next g fun g' response => Q g' response.body) :
    Meets C (auditWrap request next) g fun g' _ => R g' := by
  apply hquiet.step Op.instant trivial
  intro start
  apply meets_bind.mpr
  refine h.mono fun g' response hg => ?_
  obtain ⟨hpre, hR⟩ := hrespond g' response hg
  refine ⟨hpre, fun u _ => ?_⟩
  apply hquiet.step Op.instant trivial
  intro finish
  apply hquiet.step Op.instant trivial
  intro now
  refine (writeAudit_meets hquiet _).mono fun g'' _ hsame => ?_
  rw [hsame]
  exact hR u

theorem hostGuard_meets (hP : Refuses C P) (hg : ∀ body, P body → Q g body)
    {next : Server Response} (h : (∃ host ∈ d.allowedHosts, request.host = some host) →
      Meets C next g fun g' response => Q g' response.body) :
    Meets C (hostGuard d request next) g fun g' response => Q g' response.body := by
  unfold hostGuard
  cases hhost : request.host with
  | none => exact hg _ hP.host
  | some host =>
      apply meets_ite.mpr
      constructor
      · intro hallowed
        exact h ⟨host, List.contains_iff_mem.mp hallowed, hhost⟩
      · intro _
        exact hg _ hP.host

theorem originGuard_meets (hP : Refuses C P) (hg : ∀ body, P body → Q g body)
    {next : Server Response} (h : (∃ origin ∈ allowedOrigins, request.origin = some origin) →
      Meets C next g fun g' response => Q g' response.body) :
    Meets C (originGuard request next) g fun g' response => Q g' response.body := by
  unfold originGuard
  cases horigin : request.origin with
  | none => exact hg _ hP.origin
  | some origin =>
      apply meets_ite.mpr
      constructor
      · intro hallowed
        exact h ⟨origin, List.contains_iff_mem.mp hallowed, horigin⟩
      · intro _
        exact hg _ hP.origin

theorem requireScope_meets (hP : Refuses C P) (hg : ∀ body, P body → Q g body)
    {need : Option Scope} {record : TokenRecord} {next : Server Response}
    (h : (∀ scope, need = some scope → scope ∈ record.scopes) →
      Meets C next g fun g' response => Q g' response.body) :
    Meets C (requireScope need record next) g fun g' response => Q g' response.body := by
  unfold requireScope
  cases need with
  | none => exact h fun _ hs => by cases hs
  | some scope =>
      apply meets_ite.mpr
      constructor
      · intro hallowed
        apply h
        intro scope' hsome
        cases hsome
        exact List.contains_iff_mem.mp hallowed
      · intro _
        exact hg _ hP.scope

theorem bearerGuard_meets (hP : Refuses C P) (hquiet : Ignores C quietOps)
    (hg : ∀ body, P body → Q g body) {next : TokenRecord → Server Response}
    (hlookup : ∀ token, bearerToken request = some token → C.pre g (.lookup token) ∧
      ∀ r, C.fact g (.lookup token) r → (∀ body, P body → Q (C.next g (.lookup token) r) body) ∧
        ∀ record, r = .ok record → Meets C (next record) (C.next g (.lookup token) r)
          fun g' response => Q g' response.body) :
    Meets C (bearerGuard request next) g fun g' response => Q g' response.body := by
  unfold bearerGuard
  split
  · next token htoken =>
      obtain ⟨hpre, hreply⟩ := hlookup token htoken
      refine ⟨hpre, fun r hr => ?_⟩
      obtain ⟨hQ, hnext⟩ := hreply r hr
      cases r with
      | error e => exact hQ _ (hP.lookup g token e hr)
      | ok record =>
          apply hquiet.step Op.instant trivial
          intro now
          obtain ⟨hlimit, hsame⟩ := hquiet (C.next g (.lookup token) (.ok record))
            (.limiterCheck (idOf token) now) trivial
          refine ⟨hlimit, fun checked hchecked => ?_⟩
          rw [hsame]
          cases checked with
          | error e => exact hQ _ (hP.limiter _ _ _ e hchecked)
          | ok _ =>
              change Meets C (next record >>= _) _ _
              apply meets_bind.mpr
              exact hnext record rfl
  · exact hg _ hP.token

theorem handle_meets (hP : Refuses C P) (hg : ∀ body, P body → Q g body) {r : Route}
    {token : Option TokenRecord} (hroute : route request.method request.path = .found r)
    (h : ∀ input, inputFor request r = some input →
      Meets C (handler d request.origin token r input).run g fun g' x => Q g' (bodyOf x)) :
    Meets C (handle d request r token) g fun g' response => Q g' response.body := by
  unfold handle
  split
  · exact hg _ hP.rejection
  · next input hinput =>
      apply meets_bind.mpr
      refine (h input (inputFor_of hroute hinput)).mono fun g' x hx => ?_
      rw [meets_pure, toResponse_body]
      exact hx

/-- Any request: what the guards refuse, the lookup, and the handler. -/
theorem serve_meets_of (hP : Refuses C P) (hquiet : Ignores C quietOps)
    (hrespond : ∀ g response, Q g response.body →
      C.pre g (.respond response) ∧ ∀ u, R (C.next g (.respond response) u))
    (hg : ∀ body, P body → Q g body)
    (hlookup : ∀ token, bearerToken request = some token → C.pre g (.lookup token) ∧
      ∀ reply, C.fact g (.lookup token) reply →
        ∀ body, P body → Q (C.next g (.lookup token) reply) body)
    (hopen : ∀ r input, inputFor request r = some input → (∀ need, r.access ≠ .bearer need) →
      Meets C (handler d request.origin none r input).run g fun g' x => Q g' (bodyOf x))
    (hbearer : ∀ r need input token record, inputFor request r = some input →
      r.access = .bearer need → bearerToken request = some token →
      C.fact g (.lookup token) (.ok record) → Passes d request need record →
      Meets C (handler d request.origin (some record) r input).run
        (C.next g (.lookup token) (.ok record)) fun g' x => Q g' (bodyOf x)) :
    Meets C ((server d).serve request) g fun g' _ => R g' := by
  have hfront {need : Option Scope} {next : Option TokenRecord → Server Response}
      (h : ∀ token record, bearerToken request = some token →
        C.fact g (.lookup token) (.ok record) → Passes d request need record →
        Meets C (next (some record)) (C.next g (.lookup token) (.ok record))
          fun g' response => Q g' response.body) :
      Meets C (guarded d request (.bearer need) next) g fun g' response => Q g' response.body := by
    refine hostGuard_meets hP hg fun hhost => originGuard_meets hP hg fun horigin => ?_
    refine bearerGuard_meets hP hquiet hg fun token htoken => ?_
    refine ⟨(hlookup token htoken).1, fun reply hreply => ?_⟩
    have hQ := (hlookup token htoken).2 reply hreply
    refine ⟨hQ, fun record hrecord => requireScope_meets hP hQ fun hscope => ?_⟩
    subst hrecord
    exact h token record htoken hreply ⟨hhost, horigin, hscope⟩
  apply auditWrap_meets hquiet hrespond
  unfold innerService
  split
  · exact hg _ hP.rejection
  · next access _ =>
      cases access with
      | publicOpen => exact hg _ hP.rejection
      | publicOrigin =>
          refine hostGuard_meets hP hg fun _ => originGuard_meets hP hg fun _ => ?_
          exact hg _ hP.rejection
      | bearer need =>
          refine hfront fun token record htoken hfact _ => ?_
          exact (hlookup token htoken).2 _ hfact _ hP.rejection
  · next r hroute =>
      cases haccess : r.access with
      | publicOpen =>
          refine handle_meets hP hg hroute fun input hinput => hopen r input hinput fun need => ?_
          rw [haccess]
          simp
      | publicOrigin =>
          refine hostGuard_meets hP hg fun _ => originGuard_meets hP hg fun _ => ?_
          refine handle_meets hP hg hroute fun input hinput => hopen r input hinput fun need => ?_
          rw [haccess]
          simp
      | bearer need =>
          refine hfront fun token record htoken hfact hpasses => ?_
          refine handle_meets hP ((hlookup token htoken).2 _ hfact) hroute fun input hinput => ?_
          exact hbearer r need input token record hinput haccess htoken hfact hpasses

end

/-! ### Contracts that ignore the edge -/

section
variable {Q : G → Prop}

theorem refuses_any : Refuses C fun _ => True :=
  ⟨trivial, trivial, trivial, fun _ _ _ _ => trivial, fun _ _ _ _ _ => trivial, trivial, trivial⟩

theorem Ignores.quiet (h : Ignores C edgeOps) : Ignores C quietOps :=
  fun g op ho => h g op (by cases op <;> first | exact ho.elim | trivial)

theorem Ignores.respond (h : Ignores C edgeOps) (g : G) (response : Response) (hg : Q g) :
    C.pre g (.respond response) ∧ ∀ u, Q (C.next g (.respond response) u) := by
  obtain ⟨hpre, hnext⟩ := h g (.respond response) trivial
  refine ⟨hpre, fun u => ?_⟩
  rw [hnext u]
  exact hg

/-- A request that reaches a handler behind `bearer_guard`. -/
theorem serve_bearer_meets {r : Route} {need : Option Scope} {input : r.Input}
    (haccess : r.access = .bearer need) (hinput : inputFor request r = some input)
    (hedge : Ignores C edgeOps) (hg : Q g)
    (hlookup : ∀ token, C.pre g (.lookup token) ∧ ∀ reply, C.fact g (.lookup token) reply →
      Q (C.next g (.lookup token) reply) ∧ ∀ record, reply = .ok record →
        Meets C (handler d request.origin (some record) r input).run
          (C.next g (.lookup token) reply) fun g' _ => Q g') :
    Meets C ((server d).serve request) g fun g' _ => Q g' := by
  apply serve_meets_of (Q := fun g _ => Q g) refuses_any (Ignores.quiet hedge)
  · intro g response hg
    exact Ignores.respond hedge g response hg
  · exact fun _ _ => hg
  · exact fun token _ => ⟨(hlookup token).1, fun reply hreply _ _ =>
      ((hlookup token).2 reply hreply).1⟩
  · intro r' input' hinput' hpublic
    cases route_unique hinput hinput'
    exact absurd haccess (hpublic need)
  · intro r' need' input' token record hinput' _ _ hfact _
    cases route_unique hinput hinput'
    rw [hinput, Option.some.injEq] at hinput'
    subst hinput'
    exact ((hlookup token).2 _ hfact).2 record rfl

/-- What happens before and after any handler. -/
def outerOps : Op → Prop
  | .lookup _ => True
  | op => edgeOps op

/-- Any request, under a contract that is about its handler alone. -/
theorem serve_meets (houter : Ignores C outerOps) (hg : Q g)
    (h : ∀ r input token, inputFor request r = some input →
      Meets C (handler d request.origin token r input).run g fun g' _ => Q g') :
    Meets C ((server d).serve request) g fun g' _ => Q g' := by
  have hedge : Ignores C edgeOps := fun g op ho =>
    houter g op (by cases op <;> first | exact ho.elim | trivial)
  have hlookup (token : String) (reply : Except ApiError TokenRecord) :
      C.next g (.lookup token) reply = g := (houter g (.lookup token) trivial).2 reply
  apply serve_meets_of (Q := fun g _ => Q g) refuses_any (Ignores.quiet hedge)
  · intro g response hg
    exact Ignores.respond hedge g response hg
  · exact fun _ _ => hg
  · intro token _
    refine ⟨(houter g (.lookup token) trivial).1, fun reply _ _ _ => ?_⟩
    rw [hlookup]
    exact hg
  · exact fun r input hinput _ => h r input none hinput
  · intro r need input token record hinput _ _ _ _
    rw [hlookup]
    exact h r input (some record) hinput

end

/-! ## The chat -/

structure Outline (C : Contract api G) (provider : Provider) (session : Session)
    (body : ChatRequest Uuid) where
  ready : G → Prop
  asked : G → ProviderTurn → Prop
  stored : G → ProviderTurn → Prop
  charged : G → ProviderTurn → Prop
  answered : G → ProviderTurn → List ContentBlock → Prop
  ended : G → Prop
  ended_of_ready : ∀ g, ready g → ended g
  ask : ∀ g history, ready g → Meets C (providerTurn provider history body.maxTokens).run g
    (OnResult asked fun g' _ => ended g')
  store : ∀ g turn, asked g turn → Meets C (appendMessages session.id .provider [turn.message]) g
    (OnResult (fun g' _ => stored g' turn) fun g' _ => ended g')
  charge : ∀ g turn, stored g turn →
    Meets C (recordCost session.provider session.model turn.usage) g fun g' _ => charged g' turn
  finish : ∀ g turn, charged g turn → toolUsesOf turn.message.content = [] → ended g
  answer : ∀ g turn, charged g turn → toolUsesOf turn.message.content ≠ [] →
    Meets C (executeToolUses ⟨session, body.planOnly⟩ (toolUsesOf turn.message.content)) g
      fun g' results => answered g' turn results
  reply : ∀ g turn results, answered g turn results →
    Meets C (appendMessages session.id .dispatch [⟨.tool, none, results⟩]) g
      (OnResult (fun g' _ => ready g') fun g' _ => ended g')

theorem Outline.meets {provider : Provider} {session : Session} {body : ChatRequest Uuid}
    (O : Outline C provider session body) {n : ℕ} {c : Chat} (h : O.ready g) :
    Meets C (chatTurns provider session body n c).run g fun g' _ => O.ended g' := by
  induction n generalizing g c with
  | zero => exact O.ended_of_ready g h
  | succ n ih =>
      unfold chatTurns
      simp only [meets_exceptBind]
      refine (O.ask g c.history h).mono fun g₁ r h₁ => ?_
      cases r with
      | error e => exact h₁
      | ok turn =>
          refine (O.store g₁ turn h₁).mono fun g₂ r h₂ => ?_
          cases r with
          | error e => exact h₂
          | ok _ =>
              apply meets_lift.mpr
              refine (O.charge g₂ turn h₂).mono fun g₃ _ h₃ => ?_
              apply meets_exceptIte.mpr
              refine ⟨fun hend => O.finish g₃ turn h₃ (List.isEmpty_iff.mp hend), fun hgo => ?_⟩
              have huses : toolUsesOf turn.message.content ≠ [] := by
                simpa using hgo
              simp only [meets_exceptBind]
              apply meets_lift.mpr
              refine (O.answer g₃ turn h₃ huses).mono fun g₄ results h₄ => ?_
              refine (O.reply g₄ turn results h₄).mono fun g₅ r h₅ => ?_
              cases r with
              | error e => exact h₅
              | ok _ => exact ih h₅

/-- What is owed before the first turn: the session, the provider, the user's
messages and the history. -/
theorem aiChat_meets {providers : ProviderRegistry} {body : ChatRequest Uuid} (ended : G → Prop)
    (hbudget : Ignores C (· = Op.overBudget)) (hg : ended g)
    (hfind : Meets C (getSession body.sessionId) g (OnResult (fun g₁ session => ended g₁ ∧
      ∀ provider, providers session.provider = some provider →
        Meets C (appendMessages session.id .client body.messages) g₁ (OnResult (fun g₂ _ =>
          Meets C (getSession session.id) g₂ (OnResult (fun g₃ _ =>
            ∃ O : Outline C provider session body, O.ended = ended ∧ O.ready g₃)
            fun g₃ _ => ended g₃)) fun g₂ _ => ended g₂)) fun g₁ _ => ended g₁)) :
    Meets C (aiChat providers body).run g fun g' _ => ended g' := by
  apply hbudget.step Op.overBudget rfl
  intro exceeded
  cases exceeded with
  | true => exact hg
  | false =>
      change Meets C (ExceptT.run (orThrow (getSession body.sessionId) >>= _)) g _
      simp only [meets_exceptBind]
      refine hfind.mono fun g₁ r h₁ => ?_
      cases r with
      | error e => exact h₁
      | ok session =>
          refine meets_okOr.mpr ⟨fun provider hprovider => ?_, fun _ => h₁.1⟩
          refine (h₁.2 provider hprovider).mono fun g₂ r h₂ => ?_
          cases r with
          | error e => exact h₂
          | ok _ =>
              refine h₂.mono fun g₃ r h₃ => ?_
              cases r with
              | error e => exact h₃
              | ok current =>
                  obtain ⟨O, hover, hready⟩ := h₃
                  refine (O.meets hready).mono fun g₄ r h₄ => ?_
                  rw [hover] at h₄
                  cases r with
                  | error e => exact h₄
                  | ok chat => exact h₄

end Xlpod.Serving
