import Xlpod.Serving

/-!
# What a chat may do for its token

A session freezes the scopes and roots of the token that opened it, and
dispatch checks tools against the session alone. So a chat stays within the
token it was authenticated by exactly as far as the session it names does.
-/
namespace Xlpod.SessionEscalation
open Xlpod.ApiErrors Xlpod.Auth Xlpod.AiTypes Xlpod.BundlePayload Xlpod.GuardedRuns
open Xlpod.Programs Xlpod.Interleaving Xlpod.SessionStores Xlpod.ServerState Xlpod.ServerCalls
open Xlpod.ToolDispatch Xlpod.ChatRoute Xlpod.Routes Xlpod.Server Xlpod.Footprints Xlpod.Serving

/-- The record of the token that authenticated a request. -/
def note (seen : Option TokenRecord) : (op : Op) → op.Reply → Option TokenRecord
  | .lookup _, .ok record => some record
  | _, _ => seen

/-- A tool starts only with its scope, a file is read only under a root. -/
def Allowed (seen : Option TokenRecord) : Op → Prop
  | .dispatched _ tool => ∃ record spec, seen = some record ∧ findTool tool = some spec ∧
      spec.requiredScope ∈ record.scopes
  | .readFile path => ∃ record root, seen = some record ∧ root ∈ record.fsRoots ∧
      path.startsWith root = true
  | _ => True

def Within (session : Session) (record : TokenRecord) : Prop :=
  (∀ scope ∈ session.grantedScopes, scope ∈ record.scopes) ∧
    ∀ path ∈ session.fsRoots, ∃ root ∈ record.fsRoots, path.startsWith root = true

section
variable {d : Deployment}

def recordOf (i : ℕ) (events : List (Event (server d))) : Option TokenRecord :=
  track note none i events

/-- Every tool and every file read of a chat is allowed to the chat's own token. -/
def Confined (w : World (server d)) : Prop :=
  ∀ e ∈ w.events, Chats e.request → Allowed (recordOf e.task w.events) e.op

/-- A chat finds only sessions within its own token. -/
def ownSessions (w : World (server d)) : Label (server d) → Prop
  | .call i _ => ∀ request id record session, w.about i = some (request, .getSession id) →
      Chats request → recordOf i w.events = some record → w.shared.sessions id = some session →
        Within session record
  | _ => True

end

/-! ## The protocol -/

/-- Allowed, and only one lookup. -/
def Permitted (seen : Option TokenRecord) : Op → Prop
  | .lookup _ => seen = none
  | op => Allowed seen op

def Found (seen : Option TokenRecord) : (op : Op) → op.Reply → Prop
  | .getSession _, .ok session => ∀ record, seen = some record → Within session record
  | _, _ => True

def conduct (request : Request) : Contract api (Option TokenRecord) where
  pre seen op := Chats request → Permitted seen op
  fact seen op reply := Chats request → Found seen op reply
  next := note

def protocol (d : Deployment) : Protocol (server d) (Option TokenRecord) where
  contract := conduct
  start _ := none
  post _ _ := True

/-- Nothing that needs a scope or tells one. -/
def freeOps : Op → Prop
  | .lookup _ | .dispatched _ _ | .readFile _ => False
  | _ => True

section
variable {request : Request} {record : TokenRecord} {session : Session} {body : ChatRequest Uuid}

theorem ignores_free : Ignores (conduct request) freeOps := by
  intro seen op ho
  cases op <;> first | exact ho.elim | exact ⟨fun _ => trivial, fun _ => rfl⟩

theorem runTool_conduct (hw : Within session record) (planOnly : Bool) (scope : Scope)
    (name : String) (input : PyJson) :
    Meets (conduct request) (runTool ⟨session, planOnly⟩ scope name input).run (some record)
      fun seen _ => seen = some record := by
  apply (runTool_uses ⟨session, planOnly⟩ scope name input).meets (K := (· = some record)) rfl
  · intro seen op hseen ho
    cases op with
    | readFile path =>
        intro _
        obtain ⟨root, hroot, hpath⟩ := List.any_eq_true.mp ho
        obtain ⟨top, htop, hunder⟩ := hw.2 root hroot
        exact ⟨record, top, hseen, htop, PathBuf.startsWith_trans hpath hunder⟩
    | _ => first | exact ho.elim | exact fun _ => trivial
  · intro seen op r hseen ho
    cases op <;> first | exact ho.elim | exact hseen

theorem runOne_conduct (hw : Within session record) (planOnly : Bool) (name : String)
    (input : PyJson) :
    Meets (conduct request) (runOne ⟨session, planOnly⟩ name input).run (some record)
      fun seen _ => seen = some record := by
  have hgate (spec : ToolSpec) : Meets (conduct request) (approve ⟨session, planOnly⟩ spec name).run
      (some record) fun seen _ => seen = some record :=
    (ignores_free.mono (fun op ho => by cases op <;> first | exact ho.elim | trivial)).meets
      (approve_uses ⟨session, planOnly⟩ spec name)
  unfold runOne
  simp only [meets_exceptBind, meets_exceptIte, meets_throw, meets_okOr, onResult_error]
  refine ⟨fun spec hspec => ⟨fun _ => rfl, fun hscope => ?_⟩, fun _ => trivial⟩
  refine (hgate spec).mono fun seen r hseen => ?_
  cases r with
  | error e => exact hseen
  | ok via =>
      subst hseen
      have hmem : spec.requiredScope ∈ session.grantedScopes := by simpa using hscope
      refine ⟨fun _ => ⟨record, spec, rfl, hspec, hw.1 _ hmem⟩, fun _ _ => ?_⟩
      refine (runTool_conduct hw planOnly spec.requiredScope name input).mono fun seen r hseen => ?_
      cases r with
      | error e => exact hseen
      | ok value => exact hseen

theorem executeToolUses_conduct (hw : Within session record) (planOnly : Bool)
    (toolUses : List (String × String × PyJson)) :
    Meets (conduct request) (executeToolUses ⟨session, planOnly⟩ toolUses) (some record)
      fun seen _ => seen = some record := by
  induction toolUses with
  | nil => rfl
  | cons use rest ih =>
      apply meets_bind.mpr
      apply meets_bind.mpr
      refine (runOne_conduct hw planOnly use.2.1 use.2.2).mono fun seen r hseen => ?_
      subst hseen
      apply meets_bind.mpr
      exact ih.mono fun seen results hseen => hseen

/-- The chat's local state never moves once the token is known. -/
def outline (hw : Within session record) (provider : Provider) :
    Outline (conduct request) provider session body where
  ready seen := seen = some record
  asked seen _ := seen = some record
  stored seen _ := seen = some record
  charged seen _ := seen = some record
  answered seen _ _ := seen = some record
  ended _ := True
  ended_of_ready _ _ := trivial
  ask := by
    rintro _ history rfl
    have hfree : Ignores (conduct request) providerOps :=
      ignores_free.mono fun op ho => by cases op <;> first | exact ho.elim | trivial
    refine (hfree.meets (providerTurn_uses provider history body.maxTokens)).mono fun seen r h => ?_
    cases r with
    | error e => trivial
    | ok turn => exact h
  store := by
    rintro _ turn rfl
    refine ⟨fun _ => trivial, fun r _ => ?_⟩
    cases r with
    | error e => trivial
    | ok _ => rfl
  charge := by
    rintro _ turn rfl
    have hfree : Ignores (conduct request) costOps :=
      ignores_free.mono fun op ho => by cases op <;> first | exact ho.elim | trivial
    exact hfree.meets (recordCost_uses _ _ _)
  finish _ _ _ _ := trivial
  answer := by
    rintro _ turn rfl _
    exact executeToolUses_conduct hw body.planOnly _
  reply := by
    rintro _ turn results rfl
    refine ⟨fun _ => trivial, fun r _ => ?_⟩
    cases r with
    | error e => trivial
    | ok _ => rfl

theorem aiChat_conduct (hchat : Chats request) (providers : ProviderRegistry) :
    Meets (conduct request) (aiChat providers body).run (some record) fun _ _ => True := by
  apply aiChat_meets fun _ => True
  · exact ignores_free.mono fun op ho => by subst ho; trivial
  · trivial
  · refine ⟨fun _ => trivial, fun r hfound => ?_⟩
    cases r with
    | error e => trivial
    | ok session =>
        have hw : Within session record := hfound hchat record rfl
        refine ⟨trivial, fun provider _ => ⟨fun _ => trivial, fun r _ => ?_⟩⟩
        cases r with
        | error e => trivial
        | ok _ =>
            refine ⟨fun _ => trivial, fun r _ => ?_⟩
            cases r with
            | error e => trivial
            | ok current => exact ⟨outline hw provider, rfl, rfl⟩

end

theorem serve_conduct (d : Deployment) (request : Request) :
    Meets (conduct request) ((server d).serve request) none fun _ _ => True := by
  cases hinput : inputFor request .aiChat with
  | none =>
      apply meets_free
      intro seen op hchat
      rw [Chats, hinput] at hchat
      cases hchat
  | some body =>
      have hchat : Chats request := by rw [Chats, hinput]; rfl
      refine serve_bearer_meets (r := .aiChat) rfl hinput
        (ignores_free.mono fun op ho => by cases op <;> first | exact ho.elim | trivial) trivial ?_
      intro token
      refine ⟨fun _ => rfl, fun reply _ => ⟨trivial, fun record hrecord => ?_⟩⟩
      subst hrecord
      exact aiChat_conduct hchat d.providers

/-- The guard makes the assumption about found sessions true. -/
theorem sound (d : Deployment) : Sound (protocol d) ownSessions := by
  intro w i env request op rest r s _ hguard hi hexec hchat
  cases op with
  | getSession id =>
      cases r with
      | error e => trivial
      | ok session =>
          intro record hrecord
          have hget : w.shared.sessions.get id = .ok session := by
            simp only [exec, Option.some.injEq, Prod.mk.injEq] at hexec
            exact hexec.1
          exact hguard request id record session (World.about_of_call hi) hchat hrecord
            (SessionStore.get_ok.mp hget)
  | _ => trivial

/-! ## Confinement -/

theorem allowed_note {seen : Option TokenRecord} {op : Op} (r : op.Reply)
    (h : Permitted seen op) : Allowed (note seen op r) op := by
  cases op with
  | lookup token => trivial
  | _ => exact h

/-- A lookup comes before everything that needs its record. -/
theorem allowed_keep {seen : Option TokenRecord} {op op' : Op} (r : op.Reply)
    (h : Permitted seen op) (h' : Allowed seen op') : Allowed (note seen op r) op' := by
  cases op with
  | lookup token =>
      change seen = none at h
      subst h
      cases op' with
      | dispatched id tool =>
          obtain ⟨record, spec, hrecord, -⟩ := h'
          cases hrecord
      | readFile path =>
          obtain ⟨record, root, hrecord, -⟩ := h'
          cases hrecord
      | _ => trivial
  | _ => exact h'

theorem confined_of_ownSessions (d : Deployment) (w : World (server d))
    (h : Reachable (machine (server d)) ownSessions w) : Confined w := by
  refine h.invariant (fun e he => by cases he) fun w a v hr hw hg hn => ?_
  cases step_of_next hn with
  | @call i env request op rest r s hi hexec =>
      have hpre : Chats request → Permitted (recordOf i w.events) op :=
        (follows (serve_conduct d) (sound d) hr i request _ hi).1
      intro e he hchat
      have hself : recordOf i (⟨i, request, op, r, w.shared⟩ :: w.events) =
          note (recordOf i w.events) op r := if_pos rfl
      rcases List.mem_cons.mp he with rfl | he
      · change Allowed (recordOf i _) op
        rw [hself]
        exact allowed_note r (hpre hchat)
      · have hold := hw e he hchat
        by_cases htask : e.task = i
        · have hreq := reachable_recorded hr e he
          rw [htask, requestOf, hi, Option.map_some, Option.some.injEq] at hreq
          change request = e.request at hreq
          rw [htask] at hold ⊢
          rw [hself]
          exact allowed_keep r (hpre (hreq ▸ hchat)) hold
        · have hother : recordOf e.task (⟨i, request, op, r, w.shared⟩ :: w.events) =
              recordOf e.task w.events := if_neg (Ne.symm htask)
          rw [hother]
          exact hold
  | _ => exact hw

/-! ## One token, then another -/

instance (session : Session) (record : TokenRecord) : Decidable (Within session record) :=
  inferInstanceAs (Decidable (_ ∧ _))

section
variable {d : Deployment}

/-- The guard, computed. -/
def ownSession (w : World (server d)) : Label (server d) → Bool
  | .call i _ =>
      match w.about i with
      | some (_, .getSession id) =>
          match recordOf i w.events, w.shared.sessions id with
          | some record, some session => decide (Within session record)
          | _, _ => true
      | _ => true
  | _ => true

theorem ownSessions_of_ownSession (w : World (server d)) (a : Label (server d))
    (h : ownSession w a = true) : ownSessions w a := by
  cases a with
  | call i env =>
      intro request id record session habout _ hrecord hsession
      simpa [ownSession, habout, hrecord, hsession] using h
  | _ => trivial

/-- The chat `i` has started a tool for which its token has no scope. -/
def escalates (i : ℕ) (w : World (server d)) : Bool :=
  w.events.any fun e => e.task == i && (inputFor e.request .aiChat).isSome &&
    match e.op with
    | .dispatched _ tool =>
        (recordOf e.task w.events).any fun record =>
          (findTool tool).any fun spec => !record.scopes.contains spec.requiredScope
    | _ => false

theorem not_confined_of_escalates {i : ℕ} {w : World (server d)} (h : escalates i w = true) :
    ¬ Confined w := by
  intro hc
  obtain ⟨e, he, htest⟩ := List.any_eq_true.mp h
  simp only [Bool.and_eq_true] at htest
  obtain ⟨⟨-, hchat⟩, htool⟩ := htest
  have hallowed := hc e he hchat
  split at htool
  · next id tool hop =>
      rw [hop] at hallowed
      obtain ⟨record, spec, hrecord, hspec, hscope⟩ := hallowed
      rw [hrecord, hspec] at htool
      simp [hscope] at htool
  · cases htool

/-- A tool has started for task `i`. -/
def starts (i : ℕ) (w : World (server d)) : Bool :=
  w.events.any fun e => e.task == i &&
    match e.op with
    | .dispatched _ _ => true
    | _ => false

end

/-- The token that opened the session chats on it. -/
def ownChat : List (Label (server keyedLaunch)) :=
  handshakeRun 0 "a" [.aiProviderCall, .excelCom] ++ sessionRun 1 "a" 1 none ++
    chatRun 2 "a" 1 18 (asksFor "excel_workbooks" (.obj []))

theorem confined_ownChat : ∃ w, Reachable (machine (server keyedLaunch)) ownSessions w ∧
    starts 2 w = true ∧ Confined w := by
  obtain ⟨w, hw, ht⟩ := replay_reaches (machine (server keyedLaunch)) ownSessions ownSession
    ownChat (starts 2) ownSessions_of_ownSession (by decide +kernel)
  exact ⟨w, hw, ht, confined_of_ownSessions keyedLaunch w hw⟩

/-- A token without the Excel scope chats on it. -/
def foreignChat : List (Label (server keyedLaunch)) :=
  handshakeRun 0 "a" [.aiProviderCall, .excelCom] ++ sessionRun 1 "a" 1 none ++
    handshakeRun 2 "b" [.aiProviderCall] ++
    chatRun 3 "b" 1 18 (asksFor "excel_workbooks" (.obj []))

theorem not_confined_foreignChat :
    ∃ w, Reachable (machine (server keyedLaunch)) anyStep w ∧ ¬ Confined w := by
  obtain ⟨w, hw, ht⟩ := replay_reaches (machine (server keyedLaunch)) anyStep unchecked
    foreignChat (escalates 3) (fun _ _ _ => trivial) (by decide +kernel)
  exact ⟨w, hw, not_confined_of_escalates ht⟩

end Xlpod.SessionEscalation
