import Xlpod.Serving
import Xlpod.Library.TwinRuns

/-!
# Secrets stay inside

Two runs of the launcher on the same requests, except that every bearer token
is renamed and the provider keys that are stored differ. The renaming is
injective and keeps the first eight characters of a token, which the limiter
and the audit log see. The environment answers alike: the user, the upstream,
the worker, the files and the clock; the tokens it draws are renamed.

As long as the keychain takes both of two keys or neither, and both can be sent
in a header or neither, the two runs write the same audit entries and the same
ledger, and respond with the same bodies but for the token of a handshake. A key
that no header can carry shows in the answer to the next chat.
-/
namespace Xlpod.Secrecy
open Xlpod.ApiErrors Xlpod.Auth Xlpod.AiTypes Xlpod.AnthropicWire Xlpod.Programs
open Xlpod.SessionStores Xlpod.ServerState Xlpod.ServerCalls Xlpod.ToolDispatch Xlpod.ChatRoute
open Xlpod.Routes Xlpod.Server Xlpod.Footprints Xlpod.GuardedRuns Xlpod.Interleaving
open Xlpod.TwinPrograms Xlpod.TwinRuns

structure Renaming where
  rename : String → String
  injective : Function.Injective rename
  start : ∀ token, (rename token).toList.take 8 = token.toList.take 8

/-! ## What may differ -/

/-- The token in an `Authorization` header that carries one. -/
def Renaming.header (ρ : Renaming) (auth : String) : String :=
  if "Bearer ".toList.isPrefixOf auth.toList then
    "Bearer " ++ ρ.rename (String.ofList (auth.toList.drop "Bearer ".length))
  else auth

/-- The same key, or two that may stand for each other. -/
def TwinKey (K : String → String → Prop) (key key' : String) : Prop :=
  key' = key ∨ key ≠ "" ∧ key' ≠ "" ∧ K key key'

/-- The bodies of a request to store a key. -/
def TwinKeys (K : String → String → Prop) (a b : SetKeyRequest) : Prop :=
  b.provider = a.provider ∧ TwinKey K a.key b.key

def TwinInput (K : String → String → Prop) : (r : Route) → Except ℕ r.Input → Except ℕ r.Input → Prop
  | .aiSetKey, .ok a, .ok b => TwinKeys K a b
  | _, a, b => a = b

/-- The same request but for the secrets in it. -/
structure TwinRequest (ρ : Renaming) (K : String → String → Prop) (a b : Request) : Prop where
  method : b.method = a.method
  path : b.path = a.path
  host : b.host = a.host
  origin : b.origin = a.origin
  authorization : b.authorization = a.authorization.map ρ.header
  input : ∀ r, route a.method a.path = .found r → TwinInput K r (a.input r) (b.input r)

/-- A body without the token of a handshake. -/
def hideToken : ResponseBody → ResponseBody
  | .handshake _ grantedScopes grantedFsRoots expiresIn =>
      .handshake "" grantedScopes grantedFsRoots expiresIn
  | body => body

def hidden (response : Response) : Response := { response with body := hideToken response.body }

/-- Calls that neither take a secret nor return one. -/
def openOps : Op → Prop
  | .lookup _ | .issue _ _ | .keychainRead _ | .keychainWrite _ _ | .httpSend _ | .respond _ => False
  | _ => True

/-- A header can carry both values or neither. -/
def SameForm (value value' : String) : Prop := legalHeaderValue value' = legalHeaderValue value

/-- What may stand beside what, with the relation of the replies. -/
inductive Alike (ρ : Renaming) (K : String → String → Prop) : Coupling api
  | same {op : Op} : openOps op → Alike ρ K op op Eq
  | lookup (token : String) : Alike ρ K (.lookup token) (.lookup (ρ.rename token)) Eq
  | issue (scopes : List Scope) (fsRoots : List PathBuf) :
      Alike ρ K (.issue scopes fsRoots) (.issue scopes fsRoots) fun t t' => t' = ρ.rename t
  | keychainRead (name : String) : Alike ρ K (.keychainRead name) (.keychainRead name)
      (Option.Rel (Option.Rel SameForm))
  | keychainWrite (name : String) {value value' : String} : TwinKey K value value' →
      SameForm value value' → Alike ρ K (.keychainWrite name value) (.keychainWrite name value') Eq
  | httpSend {post post' : HttpPost} : post'.url = post.url → post'.body = post.body →
      post'.legal = post.legal → Alike ρ K (.httpSend post) (.httpSend post') Eq
  | respond {a b : Response} : hidden b = hidden a → Alike ρ K (.respond a) (.respond b) Eq

structure TwinState (ρ : Renaming) (s s' : AppState) : Prop where
  now : s'.now = s.now
  tokens : ∀ token, s'.tokens (ρ.rename token) = s.tokens token
  limiter : s'.limiter = s.limiter
  sessions : s'.sessions = s.sessions
  windows : s'.windows = s.windows
  keychain : ∀ name, Option.Rel SameForm (s.keychain name) (s'.keychain name)
  ledger : s'.ledger = s.ledger
  audit : s'.audit = s.audit

structure TwinEnvironment (ρ : Renaming) (K : String → String → Prop) (env env' : Environment) :
    Prop where
  same : env' = { env with token := ρ.rename env.token }
  takes : ∀ key key', K key key' → env.keychainTakes key' = env.keychainTakes key

/-! ## The handlers -/

/-- Answers that differ at most in the token of a handshake. -/
def SameAnswer (x y : Except ApiError ResponseBody) : Prop :=
  y.map hideToken = x.map hideToken

section
variable {ρ : Renaming} {K : String → String → Prop}

theorem alike_same : Selfsame (Alike ρ K) openOps :=
  fun _ ho => .same ho

theorem coupled_self {α : Type} {p : Server α} (h : Uses (I := api) openOps p) :
    Coupled (Alike ρ K) Eq p p :=
  alike_same.coupled h

theorem coupled_answer {x : Handler ResponseBody} (h : Uses (I := api) openOps x.run) :
    Coupled (Alike ρ K) SameAnswer x.run x.run :=
  (coupled_self h).mono fun _ _ hab => by rw [hab]; rfl

theorem handshake_coupled (origin : Option String) (body : HandshakeRequest) :
    Coupled (Alike ρ K) SameAnswer (Routes.handshake origin body).run
      (Routes.handshake origin body).run := by
  have hroots : Uses (I := api) openOps (grantedRoots body).run := by
    refine Uses.exceptIte (fun _ => trivial) fun _ => Uses.bindExcept ?_ fun roots => ?_
    · apply Uses.lift
      refine (canonicalizeRoots_uses body.fsRoots).mono fun op ho => ?_
      cases op <;> first | exact ho.elim | trivial
    · simp [Uses]
  have hissue (roots : List PathBuf) : Coupled (Alike ρ K) SameAnswer
      (liftM (issue body.requestedScopes roots) >>= fun token => pure
        (ResponseBody.handshake token body.requestedScopes (roots.map PathBuf.text) tokenTtlSecs) :
          Handler ResponseBody).run
      (liftM (issue body.requestedScopes roots) >>= fun token => pure
        (ResponseBody.handshake token body.requestedScopes (roots.map PathBuf.text) tokenTtlSecs) :
          Handler ResponseBody).run :=
    .call (.issue _ _) fun token token' _ => .done rfl
  refine Coupled.exceptIte (fun _ => .done rfl) fun _ => ?_
  refine (coupled_self hroots).exceptBindSame (fun roots => ?_) fun _ => rfl
  refine Coupled.exceptIte (fun _ => ?_) fun _ => hissue roots
  refine alike_same.call (.consent _) trivial fun approved => ?_
  refine Coupled.exceptIte (fun _ => .done rfl) fun _ => hissue roots

theorem aiListProviders_coupled :
    Coupled (Alike ρ K) SameAnswer aiListProviders.run aiListProviders.run := by
  refine .call (.keychainRead "anthropic_api_key") fun k k' hk => ?_
  have hhas : (k'.map Option.isSome).getD false = (k.map Option.isSome).getD false := by
    cases hk with
    | none => rfl
    | some hkey => cases hkey <;> rfl
  exact .done (by rw [SameAnswer, hhas])

theorem aiSetProviderKey_coupled {a b : SetKeyRequest} (h : TwinKeys K a b)
    (hform : SameForm a.key b.key) :
    Coupled (Alike ρ K) SameAnswer (aiSetProviderKey a).run (aiSetProviderKey b).run := by
  obtain ⟨hprovider, hkey⟩ := h
  unfold aiSetProviderKey
  rw [hprovider]
  refine Coupled.exceptIte (fun _ => .done rfl) fun _ => ?_
  refine alike_same.call (.consent _) trivial fun approved => ?_
  refine Coupled.exceptIte (fun _ => .done rfl) fun _ => ?_
  refine .call (.keychainWrite _ hkey hform) fun written written' hwritten => ?_
  subst hwritten
  exact Coupled.exceptIte (fun _ => .done rfl) fun _ => .done rfl

/-! ### The chat -/

theorem bodyOps_open (op : Op) (h : bodyOps op) : openOps op := by
  cases op <;> first | exact h.elim | trivial

theorem costOps_open (op : Op) (h : costOps op) : openOps op := by
  cases op <;> first | exact h.elim | trivial

theorem dispatchOps_open (op : Op) (h : dispatchOps op) : openOps op := by
  cases op <;> first | exact h.elim | trivial

/-- The key is only sent. -/
theorem anthropicChat_coupled (p : AnthropicProvider) (messages : List ChatMessage)
    (tools : List ToolSpec) (maxTokens : Option ℕ) :
    Coupled (Alike ρ K) Eq (anthropicChat p messages tools maxTokens).run
      (anthropicChat p messages tools maxTokens).run := by
  refine .call (.keychainRead "anthropic_api_key") fun k k' hk => ?_
  cases hk with
  | none => exact .done rfl
  | some hkey =>
      cases hkey with
      | none => exact .done rfl
      | @some key key' hform =>
          have hlegal (body : WireRequest) : (httpPost p key' body).legal =
              (httpPost p key body).legal := by
            have hkey : legalHeaderValue key' = legalHeaderValue key := hform
            simp only [HttpPost.legal, httpPost, List.all_cons, hkey]
          refine .call (.httpSend rfl rfl (hlegal _)) fun status status' hstatus => ?_
          subst hstatus
          cases status with
          | none => exact .done rfl
          | some status =>
              refine Coupled.exceptIte (fun _ => ?_) fun _ => ?_
              · exact coupled_self (upstreamFailure_uses.mono bodyOps_open)
              · exact coupled_self (upstreamAnswer_uses.mono bodyOps_open)

theorem providerTurn_coupled (provider : Provider) (history : List ChatMessage)
    (maxTokens : Option ℕ) :
    Coupled (Alike ρ K) Eq (providerTurn provider history maxTokens).run
      (providerTurn provider history maxTokens).run := by
  have hchat : Coupled (Alike ρ K) Eq (provider.chat history builtinTools maxTokens)
      (provider.chat history builtinTools maxTokens) := by
    cases provider with
    | anthropic apiUrl => exact anthropicChat_coupled _ _ _ _
    | external name => exact alike_same.call (.externalChat ..) trivial fun _ => .done rfl
  refine hchat.lift.exceptBindSame (fun r => ?_) fun _ => rfl
  cases r with
  | ok turn => exact .done rfl
  | error e => exact .done rfl

theorem chatTurns_coupled (provider : Provider) (session : Session) (body : ChatRequest Uuid)
    (n : ℕ) (c : Chat) :
    Coupled (Alike ρ K) Eq (chatTurns provider session body n c).run
      (chatTurns provider session body n c).run := by
  induction n generalizing c with
  | zero => exact .done rfl
  | succ n ih =>
      have happend (author : Author) (messages : List ChatMessage) :
          Uses (I := api) openOps (orThrow (appendMessages session.id author messages)).run :=
        uses_call.mpr ⟨trivial, fun _ => trivial⟩
      refine (providerTurn_coupled provider c.history body.maxTokens).exceptBindSame
        (fun turn => ?_) fun _ => rfl
      refine (coupled_self (happend _ _)).exceptBindSame (fun _ => ?_) fun _ => rfl
      have hcost := (recordCost_uses session.provider session.model turn.usage).mono costOps_open
      refine (coupled_self hcost.lift).exceptBindSame (fun _ => ?_) fun _ => rfl
      refine Coupled.exceptIte (fun _ => .done rfl) fun _ => ?_
      have htools := (executeToolUses_uses ⟨session, body.planOnly⟩
        (toolUsesOf turn.message.content)).mono dispatchOps_open
      refine (coupled_self htools.lift).exceptBindSame (fun results => ?_) fun _ => rfl
      exact (coupled_self (happend _ _)).exceptBindSame (fun _ => ih _) fun _ => rfl

theorem aiChat_coupled (providers : ProviderRegistry) (body : ChatRequest Uuid) :
    Coupled (Alike ρ K) SameAnswer (aiChat providers body).run (aiChat providers body).run := by
  refine alike_same.call .overBudget trivial fun exceeded => ?_
  refine Coupled.exceptIte (fun _ => .done rfl) fun _ => ?_
  have hget (id : Uuid) : Uses (I := api) openOps (orThrow (getSession id)).run :=
    uses_call.mpr ⟨trivial, fun _ => trivial⟩
  refine (coupled_self (hget _)).exceptBindSame (fun session => ?_) fun _ => rfl
  have hfind : Uses (I := api) openOps
      (okOr .aiProviderUnconfigured (providers session.provider)).run := by
    simp [Uses]
  refine (coupled_self hfind).exceptBindSame (fun provider => ?_) fun _ => rfl
  have happend : Uses (I := api) openOps
      (orThrow (appendMessages session.id .client body.messages)).run :=
    uses_call.mpr ⟨trivial, fun _ => trivial⟩
  refine (coupled_self happend).exceptBindSame (fun _ => ?_) fun _ => rfl
  refine (coupled_self (hget _)).exceptBindSame (fun current => ?_) fun _ => rfl
  refine (chatTurns_coupled provider session body maxTurns _).exceptBindSame (fun chat => ?_)
    fun _ => rfl
  exact .done rfl

/-! ### Any handler -/

theorem handlerOps_open {r : Route} (hkeys : r ≠ .aiSetKey ∧ r ≠ .aiProviders)
    (hissue : r ≠ .handshake) (hchat : r ≠ .aiChat) (op : Op) (h : handlerOps r op) :
    openOps op := by
  cases r with
  | handshake => exact absurd rfl hissue
  | aiChat => exact absurd rfl hchat
  | aiProviders => exact absurd rfl hkeys.2
  | aiSetKey => exact absurd rfl hkeys.1
  | _ => cases op <;> first | exact h.elim | trivial

theorem handler_coupled (d : Deployment) (origin : Option String) (token : Option TokenRecord)
    (r : Route) (input : r.Input) (hkeys : r ≠ .aiSetKey) :
    Coupled (Alike ρ K) SameAnswer (handler d origin token r input).run
      (handler d origin token r input).run := by
  by_cases hissue : r = .handshake
  · subst hissue
    exact handshake_coupled origin input
  · by_cases hchat : r = .aiChat
    · subst hchat
      exact aiChat_coupled d.providers input
    · by_cases hlist : r = .aiProviders
      · subst hlist
        exact aiListProviders_coupled
      · apply coupled_answer
        exact (handler_uses d origin token r input).mono
          (handlerOps_open ⟨hkeys, hlist⟩ hissue hchat)

/-! ## The stack -/

def SameResponse (a b : Response) : Prop := hidden b = hidden a

theorem sameResponse_of_answer {x y : Except ApiError ResponseBody} (h : SameAnswer x y)
    (success : ℕ) : SameResponse (toResponse success x) (toResponse success y) := by
  cases x with
  | error e =>
      cases y with
      | error f =>
          cases h
          rfl
      | ok b => cases h
  | ok a =>
      cases y with
      | error f => cases h
      | ok b =>
          have hbody : hideToken b = hideToken a := Except.ok.inj h
          simp only [SameResponse, hidden, toResponse, hbody]

theorem answered_coupled {x y : Handler ResponseBody}
    (h : Coupled (Alike ρ K) SameAnswer x.run y.run) (success : ℕ) :
    Coupled (Alike ρ K) SameResponse (x.run >>= fun r => pure (toResponse success r))
      (y.run >>= fun r => pure (toResponse success r)) :=
  h.bind fun _ _ hxy => .done (sameResponse_of_answer hxy success)

variable {a b : Request} {d : Deployment}

theorem TwinKey.sameForm (hK : ∀ key key', K key key' → SameForm key key') {key key' : String}
    (h : TwinKey K key key') : SameForm key key' := by
  rcases h with rfl | ⟨-, -, h⟩
  · rfl
  · exact hK key key' h

theorem handle_coupled (hK : ∀ key key', K key key' → SameForm key key') (h : TwinRequest ρ K a b)
    {r : Route}
    (hroute : route a.method a.path = .found r) (token : Option TokenRecord) :
    Coupled (Alike ρ K) SameResponse (handle d a r token) (handle d b r token) := by
  have hinput := h.input r hroute
  unfold handle
  rw [h.origin]
  by_cases hkeys : r = .aiSetKey
  · subst hkeys
    generalize a.input .aiSetKey = x at hinput
    generalize b.input .aiSetKey = y at hinput
    cases x with
    | error status =>
        cases y with
        | error status' =>
            cases hinput
            exact .done rfl
        | ok input' => cases hinput
    | ok input =>
        cases y with
        | error status' => cases hinput
        | ok input' =>
            have hkeys : TwinKeys K input input' := hinput
            exact answered_coupled (aiSetProviderKey_coupled hkeys (hkeys.2.sameForm hK)) _
  · have hsame : b.input r = a.input r := by
      cases r with
      | aiSetKey => exact absurd rfl hkeys
      | _ => exact hinput.symm
    rw [hsame]
    cases a.input r with
    | error status => exact .done rfl
    | ok input => exact answered_coupled (handler_coupled d a.origin token r input hkeys) _

/-- A token and its new name are both empty or both not. -/
theorem rename_eq_empty (ρ : Renaming) (token : String) :
    (ρ.rename token).toList = [] ↔ token.toList = [] := by
  have hstart := ρ.start token
  constructor
  · intro h
    rw [h, List.take_nil] at hstart
    have := congrArg List.length hstart
    rw [List.length_nil, List.length_take] at this
    exact List.length_eq_zero_iff.mp (by omega)
  · intro h
    rw [h, List.take_nil] at hstart
    have := congrArg List.length hstart
    rw [List.length_nil, List.length_take] at this
    exact List.length_eq_zero_iff.mp (by omega)

theorem bearer_toList (rest : String) :
    ("Bearer " ++ rest).toList = "Bearer ".toList ++ rest.toList := String.toList_append

theorem bearer_drop (rest : String) :
    String.ofList (("Bearer " ++ rest).toList.drop "Bearer ".length) = rest := by
  rw [bearer_toList, List.drop_left' String.length_toList, String.ofList_toList]

/-- The scheme is followed by a token, unless the rest is empty. -/
theorem bearer_rest (rest : String) :
    (if "Bearer ".toList.isPrefixOf ("Bearer " ++ rest).toList ∧
        "Bearer ".length < ("Bearer " ++ rest).length then some rest else none) =
      if rest.toList = [] then none else some rest := by
  have hprefix : "Bearer ".toList.isPrefixOf ("Bearer " ++ rest).toList = true := by
    rw [bearer_toList, List.isPrefixOf_iff_prefix]
    exact List.prefix_append ..
  have hlength : ("Bearer " ++ rest).length = "Bearer ".length + rest.toList.length := by
    rw [String.length_append, String.length_toList]
  rw [hlength, hprefix]
  cases rest.toList with
  | nil => simp
  | cons c cs => simp

theorem split_bearer {auth : String} (h : "Bearer ".toList.isPrefixOf auth.toList = true) :
    ∃ rest, auth = "Bearer " ++ rest := by
  obtain ⟨rest, hrest⟩ := List.isPrefixOf_iff_prefix.mp h
  refine ⟨String.ofList rest, String.toList_inj.mp ?_⟩
  rw [bearer_toList, @String.toList_ofList rest, hrest]

theorem bearerToken_twin (h : TwinRequest ρ K a b) :
    bearerToken b = (bearerToken a).map ρ.rename := by
  unfold bearerToken
  rw [h.authorization]
  cases a.authorization with
  | none => rfl
  | some auth =>
      simp only [Option.map_some, Renaming.header]
      by_cases hbearer : "Bearer ".toList.isPrefixOf auth.toList = true
      · obtain ⟨rest, rfl⟩ := split_bearer hbearer
        rw [if_pos hbearer, bearer_drop, bearer_drop, bearer_rest, bearer_rest]
        by_cases hempty : rest.toList = []
        · rw [if_pos hempty, if_pos ((rename_eq_empty ρ rest).mpr hempty)]
          rfl
        · rw [if_neg hempty, if_neg fun hc => hempty ((rename_eq_empty ρ rest).mp hc)]
          rfl
      · rw [if_neg hbearer, if_neg (fun hc => hbearer hc.1)]
        rfl

theorem idOf_rename (ρ : Renaming) (token : String) : idOf (ρ.rename token) = idOf token := by
  rw [idOf, ρ.start, idOf]

theorem hostGuard_coupled (h : TwinRequest ρ K a b) {p q : Server Response}
    (hnext : Coupled (Alike ρ K) SameResponse p q) :
    Coupled (Alike ρ K) SameResponse (hostGuard d a p) (hostGuard d b q) := by
  unfold hostGuard
  rw [h.host]
  cases a.host with
  | none => exact .done rfl
  | some host => exact Coupled.ite (fun _ => hnext) fun _ => .done rfl

theorem originGuard_coupled (h : TwinRequest ρ K a b) {p q : Server Response}
    (hnext : Coupled (Alike ρ K) SameResponse p q) :
    Coupled (Alike ρ K) SameResponse (originGuard a p) (originGuard b q) := by
  unfold originGuard
  rw [h.origin]
  cases a.origin with
  | none => exact .done rfl
  | some origin => exact Coupled.ite (fun _ => hnext) fun _ => .done rfl

theorem requireScope_coupled (need : Option Scope) (record : TokenRecord) {p q : Server Response}
    (hnext : Coupled (Alike ρ K) SameResponse p q) :
    Coupled (Alike ρ K) SameResponse (requireScope need record p) (requireScope need record q) := by
  unfold requireScope
  cases need with
  | none => exact hnext
  | some scope => exact Coupled.ite (fun _ => hnext) fun _ => .done rfl

theorem bearerGuard_coupled (h : TwinRequest ρ K a b) {p q : TokenRecord → Server Response}
    (hnext : ∀ record, Coupled (Alike ρ K) SameResponse (p record) (q record)) :
    Coupled (Alike ρ K) SameResponse (bearerGuard a p) (bearerGuard b q) := by
  unfold bearerGuard
  rw [bearerToken_twin h]
  cases bearerToken a with
  | none => exact .done rfl
  | some token =>
      simp only [Option.map_some]
      refine .call (.lookup token) fun found found' hfound => ?_
      subst hfound
      cases found with
      | error e => exact .done rfl
      | ok record =>
          refine alike_same.call .instant trivial fun now => ?_
          rw [idOf_rename]
          refine alike_same.call (.limiterCheck ..) trivial fun checked => ?_
          cases checked with
          | error e => exact .done rfl
          | ok _ =>
              apply (hnext record).bind
              intro x y hxy
              apply coupled_pure
              have hbody := congrArg Response.body hxy
              have hstatus := congrArg Response.status hxy
              simp only [hidden] at hbody hstatus
              simp only [SameResponse, hidden, hbody, hstatus]

theorem guarded_coupled (h : TwinRequest ρ K a b) (access : Access)
    {p q : Option TokenRecord → Server Response}
    (hnext : ∀ token, Coupled (Alike ρ K) SameResponse (p token) (q token)) :
    Coupled (Alike ρ K) SameResponse (guarded d a access p) (guarded d b access q) := by
  cases access with
  | publicOpen => exact hnext none
  | publicOrigin => exact hostGuard_coupled h (originGuard_coupled h (hnext none))
  | bearer need =>
      apply hostGuard_coupled h
      apply originGuard_coupled h
      apply bearerGuard_coupled h
      intro record
      exact requireScope_coupled need record (hnext (some record))

theorem innerService_coupled (hK : ∀ key key', K key key' → SameForm key key')
    (h : TwinRequest ρ K a b) :
    Coupled (Alike ρ K) SameResponse (innerService d a) (innerService d b) := by
  unfold innerService
  rw [h.method, h.path]
  cases hroute : route a.method a.path with
  | notFound => exact .done rfl
  | notAllowed access => exact guarded_coupled h access fun _ => .done rfl
  | found r => exact guarded_coupled h r.access fun token => handle_coupled hK h hroute token

theorem auditEntry_twin (h : TwinRequest ρ K a b) {x y : Response} (hxy : SameResponse x y)
    (tsMs latencyMs : ℕ) : auditEntry b y tsMs latencyMs = auditEntry a x tsMs latencyMs := by
  have htoken := congrArg Response.tokenId hxy
  have hstatus := congrArg Response.status hxy
  simp only [hidden] at htoken hstatus
  simp only [auditEntry, htoken, hstatus, h.method, h.path, h.origin, h.host]

theorem serve_coupled (hK : ∀ key key', K key key' → SameForm key key') (h : TwinRequest ρ K a b) :
    Coupled (Alike ρ K) (fun _ _ => True) ((server d).serve a) ((server d).serve b) := by
  refine alike_same.call .instant trivial fun start => ?_
  apply (innerService_coupled hK h).bind
  intro x y hxy
  refine .call (.respond hxy) fun _ _ _ => ?_
  refine alike_same.call .instant trivial fun finish => ?_
  refine alike_same.call .instant trivial fun now => ?_
  change Coupled _ _ (writeAudit (auditEntry a x _ _)) (writeAudit (auditEntry b y _ _))
  rw [auditEntry_twin h hxy]
  refine alike_same.call .auditLock trivial fun _ => ?_
  refine alike_same.call (.auditWrite _) trivial fun _ => ?_
  refine alike_same.call .auditFlush trivial fun _ => ?_
  exact .done trivial

end

/-! ## The shared state -/

section
variable {ρ : Renaming} {K : String → String → Prop} {s s' u : AppState} {env env' : Environment}

theorem TwinState.refl_start (ρ : Renaming) (d : Deployment) :
    TwinState ρ d.launched d.launched := by
  refine ⟨rfl, fun _ => rfl, rfl, rfl, rfl, fun name => ?_, rfl, rfl⟩
  cases d.launched.keychain name with
  | none => exact .none
  | some key => exact .some rfl

theorem sameForm_update {keychain keychain' : String → Option String}
    (h : ∀ name, Option.Rel SameForm (keychain name) (keychain' name)) (name : String)
    {value value' : Option String} (hvalue : Option.Rel SameForm value value') (name' : String) :
    Option.Rel SameForm (Function.update keychain name value name')
      (Function.update keychain' name value' name') := by
  by_cases hname : name' = name
  · subst hname
    simpa using hvalue
  · simpa [hname] using h name'

theorem keychainTakes_twin (henv : TwinEnvironment ρ K env env') {value value' : String}
    (h : TwinKey K value value') : env'.keychainTakes value' = env.keychainTakes value := by
  obtain ⟨rfl, htakes⟩ := henv
  rcases h with rfl | ⟨-, -, h⟩
  · rfl
  · exact htakes value value' h

/-- An open call is answered alike and does the same to both states. -/
theorem exec_same (h : TwinState ρ s s') (henv : TwinEnvironment ρ K env env') {op : Op}
    (hop : openOps op) {r : op.Reply} (he : exec s env op = some (r, u)) :
    ∃ u', exec s' env' op = some (r, u') ∧ TwinState ρ u u' := by
  obtain ⟨now, tokens, limiter, sessions, windows, keychain, ledger, audit⟩ := s
  obtain ⟨now', tokens', limiter', sessions', windows', keychain', ledger', audit'⟩ := s'
  obtain ⟨rfl, htokens, rfl, rfl, rfl, hkeychain, rfl, rfl⟩ := h
  obtain ⟨rfl, -⟩ := henv
  cases op with
  | lookup | issue | keychainRead | keychainWrite | httpSend | respond => exact hop.elim
  | panicked => cases he
  | keychainDelete name =>
      simp only [exec] at he ⊢
      split at he
      · next hworks =>
          cases he
          rw [if_pos hworks]
          exact ⟨_, rfl, rfl, htokens, rfl, rfl, rfl, sameForm_update hkeychain name .none, rfl, rfl⟩
      · next hfails =>
          cases he
          rw [if_neg hfails]
          exact ⟨_, rfl, rfl, htokens, rfl, rfl, rfl, hkeychain, rfl, rfl⟩
  | openWindow sessionId tools durationSecs =>
      simp only [exec] at he ⊢
      split at he
      · cases he
      · next hfresh =>
          cases he
          rw [if_neg hfresh]
          exact ⟨_, rfl, rfl, htokens, rfl, rfl, rfl, hkeychain, rfl, rfl⟩
  | openSession provider model internalBearer grantedScopes fsRoots =>
      simp only [exec] at he ⊢
      split at he
      · cases he
      · next hfresh =>
          cases he
          exact ⟨_, rfl, rfl, htokens, rfl, rfl, rfl, hkeychain, rfl, rfl⟩
  | _ =>
      cases he
      exact ⟨_, rfl, rfl, htokens, rfl, rfl, rfl, hkeychain, rfl, rfl⟩

theorem exec_alike (h : TwinState ρ s s') (henv : TwinEnvironment ρ K env env') {op op' : Op}
    {Q : op.Reply → op'.Reply → Prop} (hop : Alike ρ K op op' Q) {r : op.Reply}
    (he : exec s env op = some (r, u)) :
    ∃ r' u', exec s' env' op' = some (r', u') ∧ Q r r' ∧ TwinState ρ u u' := by
  cases hop with
  | same hopen =>
      obtain ⟨u', hu, hstate⟩ := exec_same h henv hopen he
      exact ⟨r, u', hu, rfl, hstate⟩
  | lookup token =>
      cases he
      refine ⟨_, _, rfl, ?_, h⟩
      simp only [TokenStore.lookup, h.tokens, h.now]
  | issue scopes fsRoots =>
      obtain ⟨rfl, -⟩ := henv
      simp only [exec, h.tokens] at he ⊢
      split at he
      · cases he
      · next hfresh =>
          cases he
          have htokens (token : String) : Function.update s'.tokens (ρ.rename env.token)
              (some (newRecord s'.now scopes fsRoots)) (ρ.rename token) =
                Function.update s.tokens env.token
                  (some (newRecord s.now scopes fsRoots)) token := by
            by_cases ht : token = env.token
            · subst ht
              simp [h.now]
            · have hne : ρ.rename token ≠ ρ.rename env.token := fun hc => ht (ρ.injective hc)
              simp [ht, hne, h.tokens]
          exact ⟨_, _, rfl, rfl, h.now, htokens, h.limiter, h.sessions, h.windows, h.keychain,
            h.ledger, h.audit⟩
  | keychainRead name =>
      obtain ⟨rfl, -⟩ := henv
      cases he
      refine ⟨_, _, rfl, ?_, h⟩
      by_cases hworks : env.keychainWorks = true
      · simp only [hworks, if_true]
        exact .some (h.keychain name)
      · simp only [hworks]
        exact .none
  | keychainWrite name hkey hform =>
      have htakes := keychainTakes_twin henv hkey
      simp only [exec, htakes] at he ⊢
      split at he
      · next hworks =>
          cases he
          rw [if_pos hworks]
          exact ⟨_, _, rfl, rfl, h.now, h.tokens, h.limiter, h.sessions, h.windows,
            sameForm_update h.keychain name (.some hform), h.ledger, h.audit⟩
      · next hfails =>
          cases he
          rw [if_neg hfails]
          exact ⟨_, _, rfl, rfl, h⟩
  | httpSend _ _ hlegal =>
      obtain ⟨rfl, -⟩ := henv
      cases he
      refine ⟨_, _, rfl, ?_, h⟩
      rw [hlegal]
  | respond =>
      obtain ⟨rfl, -⟩ := henv
      cases he
      exact ⟨_, _, rfl, rfl, h⟩

end

/-! ## Runs -/

/-- Renamed tokens and keys that `K` relates. -/
def likeness (ρ : Renaming) (K : String → String → Prop) (d : Deployment) : Likeness (server d) where
  request := TwinRequest ρ K
  environment := TwinEnvironment ρ K
  elapsed := Eq

def twins (ρ : Renaming) {K : String → String → Prop}
    (hK : ∀ key key', K key key' → SameForm key key') (d : Deployment) : Twins (server d) where
  toLikeness := likeness ρ K d
  call := Alike ρ K
  state := TwinState ρ
  start := TwinState.refl_start ρ d
  serve _ _ h := serve_coupled hK h
  awaits op op' Q h := by
    cases h with
    | same => rfl
    | _ => rfl
  exec _ _ _ hop _ _ _ _ _ _ h henv he := exec_alike h henv hop he
  elapse s s' n n' h hn := by
    cases hn
    exact { h with now := congrArg (· + n) h.now }

/-- A response and the request it answers, without the token of a handshake. -/
def answered {d : Deployment} (e : Event (server d)) : Option (ℕ × Response) :=
  match e.op with
  | .respond response => some (e.task, hidden response)
  | _ => none

/-- Newest first. -/
def responses {d : Deployment} (w : World (server d)) : List (ℕ × Response) :=
  w.events.filterMap answered

structure SameOutputs {d : Deployment} (w v : World (server d)) : Prop where
  audit : v.shared.audit = w.shared.audit
  ledger : v.shared.ledger = w.shared.ledger
  responses : responses v = responses w

theorem answered_alike {ρ : Renaming} {K : String → String → Prop} {op op' : Op}
    {Q : op.Reply → op'.Reply → Prop} (h : Alike ρ K op op' Q) {d : Deployment} (i : ℕ)
    (a b : Request) (r : op.Reply) (r' : op'.Reply) (s s' : AppState) :
    answered (⟨i, b, op', r', s'⟩ : Event (server d)) =
      answered (⟨i, a, op, r, s⟩ : Event (server d)) := by
  cases h with
  | same hopen =>
      cases op with
      | respond => exact hopen.elim
      | _ => rfl
  | respond hbody => simp only [answered, hbody]
  | _ => rfl

theorem responses_twin {ρ : Renaming} {K : String → String → Prop}
    {hK : ∀ key key', K key key' → SameForm key key'} {d : Deployment}
    {es fs : List (Event (server d))} (h : List.Forall₂ (TwinEvent (twins ρ hK d)) es fs) :
    fs.filterMap answered = es.filterMap answered := by
  induction h with
  | nil => rfl
  | @cons e f es fs hef _ ih =>
      obtain ⟨i, a, op, r, s⟩ := e
      obtain ⟨j, b, op', r', s'⟩ := f
      obtain ⟨rfl, Q, hop, -⟩ := hef
      rw [List.filterMap_cons, List.filterMap_cons, ih, answered_alike hop]

/-- Keys that a header can carry alike do not show: the runs write the same log
and the same ledger, and respond the same. -/
theorem same_outputs (d : Deployment) (ρ : Renaming) (K : String → String → Prop)
    (hK : ∀ key key', K key key' → SameForm key key') {w v : World (server d)}
    (h : TwinRun (likeness ρ K d) w v) : SameOutputs w v := by
  have hworld : TwinWorld (twins ρ hK d) w v := TwinRun.twinWorld h
  exact ⟨hworld.state.audit, hworld.state.ledger, responses_twin hworld.events⟩

/-! ## Two tokens, two keys -/

/-- Long tokens get longer. -/
def lengthen : Renaming where
  rename token := if 8 ≤ token.toList.length then token ++ "x" else token
  injective := by
    intro s t h
    simp only at h
    split at h <;> split at h
    · exact String.append_left_inj "x" |>.mp h
    · next hs ht =>
        rw [← h, String.toList_append, List.length_append] at ht
        omega
    · next hs ht =>
        rw [h, String.toList_append, List.length_append] at hs
        omega
    · exact h
  start := by
    intro token
    split
    · next h => rw [String.toList_append, List.take_append_of_le_length h]
    · rfl

section
variable {ρ : Renaming} {K : String → String → Prop} {d : Deployment}

theorem header_bearer (ρ : Renaming) (token : String) :
    ρ.header ("Bearer " ++ token) = "Bearer " ++ ρ.rename token := by
  have hprefix : "Bearer ".toList.isPrefixOf ("Bearer " ++ token).toList = true := by
    rw [bearer_toList, List.isPrefixOf_iff_prefix]
    exact List.prefix_append ..
  rw [Renaming.header, if_pos hprefix, bearer_drop]

theorem addinRequest_twin {r : Route} (path : String) (token : Option String)
    {input input' : r.Input} (h : TwinInput K r (.ok input) (.ok input')) :
    TwinRequest ρ K (addinRequest r path token input)
      (addinRequest r path (token.map ρ.rename) input') := by
  refine ⟨rfl, rfl, rfl, rfl, ?_, fun r' _ => ?_⟩
  · cases token with
    | none => rfl
    | some token => exact congrArg some (header_bearer ρ token).symm
  · by_cases hr : r = r'
    · subst hr
      simpa [addinRequest] using h
    · simp only [addinRequest, hr, dif_neg, not_false_eq_true]
      cases r' <;> rfl

/-- A keychain in memory takes every key. -/
theorem calls_twin (i n : ℕ) {env : Environment} (h : env.keychainTakes = fun _ => true) :
    List.Forall₂ (TwinLabel (likeness ρ K d)) (calls i n env)
      (calls i n { env with token := ρ.rename env.token }) := by
  induction n with
  | zero => exact .nil
  | succ n ih => exact .cons (.call ⟨rfl, fun _ _ _ => by rw [h]⟩) ih

end

section
variable {d : Deployment}

/-- A handshake, and a key to store. -/
def storeRun (token key : String) : List (Label (server d)) :=
  handshakeRun 0 token [.aiProviderCall] ++
    .arrive 1 (addinRequest .aiSetKey "/ai/providers/key" (some token) ⟨"anthropic", key⟩) ::
      calls 1 12 { token := token, approved := true }

theorem storeRun_twin {K : String → String → Prop} (ρ : Renaming) (token : String)
    {key key' : String} (h : TwinKey K key key') : List.Forall₂ (TwinLabel (likeness ρ K d))
      (storeRun token key) (storeRun (ρ.rename token) key') := by
  have hset : TwinRequest ρ K
      (addinRequest .aiSetKey "/ai/providers/key" (some token) ⟨"anthropic", key⟩)
      (addinRequest .aiSetKey "/ai/providers/key" (some (ρ.rename token)) ⟨"anthropic", key'⟩) :=
    addinRequest_twin "/ai/providers/key" (some token) ⟨rfl, h⟩
  apply List.rel_append
  · exact .cons (.arrive (addinRequest_twin "/auth/handshake" none rfl)) (calls_twin 0 9 rfl)
  · exact .cons (.arrive hset) (calls_twin 1 12 rfl)

end

/-- The providers are listed once the key is there. -/
def keyRun (token key : String) : List (Label (server firstLaunch)) :=
  storeRun token key ++
    .arrive 2 (addinRequest .aiProviders "/ai/providers" (some token) ()) ::
      calls 2 11 { token := token }

theorem keyRun_twin {K : String → String → Prop} (ρ : Renaming) (token : String)
    {key key' : String} (h : TwinKey K key key') : List.Forall₂
      (TwinLabel (likeness ρ K firstLaunch)) (keyRun token key) (keyRun (ρ.rename token) key') := by
  have hlist : TwinRequest ρ K (addinRequest .aiProviders "/ai/providers" (some token) ())
      (addinRequest .aiProviders "/ai/providers" (some (ρ.rename token)) ()) :=
    addinRequest_twin "/ai/providers" (some token) rfl
  exact List.rel_append (storeRun_twin ρ token h) (.cons (.arrive hlist) (calls_twin 2 11 rfl))

/-- The key is stored, the token is known, and three requests are logged. -/
def holds (token key : String) (w : World (server firstLaunch)) : Bool :=
  w.shared.keychain "anthropic_api_key" == some key && (w.shared.tokens token).isSome &&
    w.shared.audit.count 10 == 3

/-- Neither of two tokens and neither of two keys shows. -/
theorem same_outputs_keyRun : ∃ w v, TwinRun (likeness lengthen SameForm firstLaunch) w v ∧
    holds "0123456789" "one" w = true ∧ holds "0123456789x" "another" v = true ∧
    SameOutputs w v := by
  have hfirst : ((replay (machine (server firstLaunch)) unchecked
      (machine (server firstLaunch)).start (keyRun "0123456789" "one")).map
        (holds "0123456789" "one")) = some true := by
    decide +kernel
  have hsecond : ((replay (machine (server firstLaunch)) unchecked
      (machine (server firstLaunch)).start (keyRun "0123456789x" "another")).map
        (holds "0123456789x" "another")) = some true := by
    decide +kernel
  obtain ⟨w, hw, hone⟩ := Option.map_eq_some_iff.mp hfirst
  obtain ⟨v, hv, hanother⟩ := Option.map_eq_some_iff.mp hsecond
  have hkeys : TwinKey SameForm "one" "another" :=
    .inr ⟨by decide, by decide, (by decide : legalHeaderValue "another" = legalHeaderValue "one")⟩
  have hrun : TwinRun (likeness lengthen SameForm firstLaunch) w v :=
    TwinRun.start.replay (keyRun_twin lengthen "0123456789" hkeys) hw hv
  exact ⟨w, v, hrun, hone, hanother, same_outputs firstLaunch lengthen SameForm (fun _ _ h => h) hrun⟩

/-! ## A key that no header can carry -/

def unchanged : Renaming := ⟨id, Function.injective_id, fun _ => rfl⟩

/-- The upstream is ready to answer with a text. -/
def ready : Environment where
  status := some 200
  json := some ⟨[.text "Hi"], some "end_turn", none⟩

/-- A key is stored, and a chat has made its first `n` calls. -/
def chatWithKey (key : String) (n : ℕ) : List (Label (server keyedLaunch)) :=
  storeRun "a" key ++ (sessionRun 2 "a" 1 none ++ chatRun 3 "a" 1 n ready)

theorem chatWithKey_twin (key key' : String) (hkey : key ≠ "") (hkey' : key' ≠ "") (n : ℕ) :
    List.Forall₂ (TwinLabel (likeness unchanged (fun _ _ => True) keyedLaunch))
      (chatWithKey key n) (chatWithKey key' n) := by
  have hrequest {r : Route} (path : String) (input : r.Input)
      (hinput : TwinInput (fun _ _ => True) r (.ok input) (.ok input)) :
      TwinRequest unchanged (fun _ _ => True) (addinRequest r path (some "a") input)
        (addinRequest r path (some "a") input) :=
    addinRequest_twin path (some "a") hinput
  apply List.rel_append (storeRun_twin unchanged "a" (.inr ⟨hkey, hkey', trivial⟩))
  apply List.rel_append
  · exact .cons (.arrive (hrequest "/ai/session" _ rfl)) (calls_twin 2 11 rfl)
  · exact .cons (.arrive (hrequest "/ai/chat" _ rfl)) (calls_twin 3 n rfl)

/-- The chat was answered so, and its request is over. -/
def chatAnswered (status : ℕ) (w : World (server keyedLaunch)) : Bool :=
  (match w.tasks 3 with
    | some ⟨_, some (.done _)⟩ => true
    | _ => false) &&
  (responses w).any fun answer => answer.1 = 3 && answer.2.status = status

/-- With nothing different but the key, one chat fails where the other, whose
request goes out, is answered. -/
theorem not_same_outputs_newlineKey : ∃ w v u,
    TwinRun (likeness unchanged (fun _ _ => True) keyedLaunch) w v ∧ ¬ SameOutputs w v ∧
    Run (machine (server keyedLaunch)) anyStep v u ∧
    chatAnswered 502 w = true ∧ chatAnswered 200 u = true := by
  have hnewline : ((replay (machine (server keyedLaunch)) unchecked
      (machine (server keyedLaunch)).start (chatWithKey "\n" 16)).map
        fun w => chatAnswered 502 w && (responses w).length == 4) = some true := by
    decide +kernel
  have hletter : ((replay (machine (server keyedLaunch)) unchecked
      (machine (server keyedLaunch)).start (chatWithKey "k" 16)).map fun v =>
        (responses v).length == 3 && ((replay (machine (server keyedLaunch)) unchecked v
          (calls 3 7 ready)).any (chatAnswered 200))) = some true := by
    decide +kernel
  obtain ⟨w, hw, hfour⟩ := Option.map_eq_some_iff.mp hnewline
  obtain ⟨v, hv, hthree⟩ := Option.map_eq_some_iff.mp hletter
  obtain ⟨hfailed, hfour⟩ := Bool.and_eq_true_iff.mp hfour
  obtain ⟨hthree, hlater⟩ := Bool.and_eq_true_iff.mp hthree
  obtain ⟨u, hu, hanswered⟩ := (Option.any_eq_true ..).mp hlater
  have hrun : TwinRun (likeness unchanged (fun _ _ => True) keyedLaunch) w v :=
    TwinRun.start.replay (chatWithKey_twin "\n" "k" (by decide) (by decide) 16) hw hv
  refine ⟨w, v, u, hrun, fun hsame => ?_, replay_run (fun _ _ _ => trivial) hu, hfailed, hanswered⟩
  have hlength : (responses v).length = (responses w).length := congrArg _ hsame.responses
  rw [eq_of_beq hfour, eq_of_beq hthree] at hlength
  cases hlength

end Xlpod.Secrecy
