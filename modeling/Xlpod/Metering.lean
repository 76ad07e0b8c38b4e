import Xlpod.ChatOutcome
import Xlpod.Provenance

/-!
# Every turn is charged once

A chat asks its provider only after the budget check let it in, at most eight
times, and never again after an answer that was no turn. Each turn it receives is
charged to the session's provider and model before a tool runs or the next turn is
asked for. So a chat that ran to its end
has charged exactly the turns it received, one that was dropped is behind by at
most the last, and the rows of the ledger are these charges and no others.
-/
namespace Xlpod.Metering
open Xlpod.ApiErrors Xlpod.AiTypes Xlpod.BundlePayload Xlpod.CostLedger Xlpod.GuardedRuns
open Xlpod.Programs Xlpod.Interleaving Xlpod.SessionStores Xlpod.ServerState
open Xlpod.ServerCalls Xlpod.ToolDispatch
open Xlpod.ChatRoute Xlpod.Server Xlpod.Footprints Xlpod.Serving Xlpod.Provenance

/-! ## The meter of a request -/

/-- Whether the budget check let it in, the session it found first, how often it
asked the provider, the turns it received and what it charged. -/
structure Meter where
  within : Bool
  session : Option Session
  asked : ℕ
  turns : List ProviderTurn
  charges : List Call

def meter (m : Meter) : (op : Op) → op.Reply → Meter
  | .overBudget, exceeded => { m with within := !exceeded }
  | .getSession _, .ok session => { m with session := m.session.or (some session) }
  | .httpSend _, _ => { m with asked := m.asked + 1 }
  | .httpJson, some parsed => { m with turns := m.turns ++ [parsed.intoInternal] }
  | .externalChat .., .ok turn => { m with asked := m.asked + 1, turns := m.turns ++ [turn] }
  | .externalChat .., .error _ => { m with asked := m.asked + 1 }
  | .ledgerAdd call, _ => { m with charges := m.charges ++ [call] }
  | _, _ => m

def unmetered : Meter := ⟨false, none, 0, [], []⟩

/-- The charge is for this turn, to the session's provider and model. -/
structure ChargeFor (session : Option Session) (turn : ProviderTurn) (call : Call) : Prop where
  usage : call.usage = turn.usage
  session : ∃ x, session = some x ∧ call.provider = x.provider ∧ call.model = x.model

/-- The turns are charged one by one. -/
def Settled (m : Meter) : Prop := List.Forall₂ (ChargeFor m.session) m.turns m.charges

/-- All turns but the last are charged. -/
def OneOwed (m : Meter) : Prop :=
  ∃ turns turn, m.turns = turns ++ [turn] ∧ List.Forall₂ (ChargeFor m.session) turns m.charges

/-- The provider may be asked: each time before it gave a turn, and there is room for
one more. -/
structure MayAsk (m : Meter) : Prop where
  within : m.within = true
  settled : Settled m
  answered : m.asked = m.turns.length
  room : m.asked < maxTurns

/-- The provider was asked and its answer is still to be read. -/
structure Awaiting (m : Meter) : Prop where
  settled : Settled m
  asked : m.asked = m.turns.length + 1

/-- What a request promises at its calls. -/
def Metered (m : Meter) : Op → Prop
  | .httpSend _ | .externalChat .. => MayAsk m
  | .httpJson => Awaiting m
  | .dispatched _ _ => Settled m ∧ m.turns ≠ []
  | .ledgerAdd call => ∃ turns turn, m.turns = turns ++ [turn] ∧
      List.Forall₂ (ChargeFor m.session) turns m.charges ∧ ChargeFor m.session turn call
  | _ => True

section
variable {d : Deployment}

def meterOf (i : ℕ) (events : List (Event (server d))) : Meter := track meter unmetered i events

def chargeIn : Op → Option Call
  | .ledgerAdd call => some call
  | _ => none

/-- All charges with the requests that made them, the oldest first. -/
def charges : List (Event (server d)) → List (ℕ × Call)
  | [] => []
  | e :: es => charges es ++ (chargeIn e.op).toList.map (e.task, ·)

end

/-! ## The protocol -/

/-- The session that was found is still there. -/
def Kept (m : Meter) : (op : Op) → op.Reply → Prop
  | .appendMessages id _ _, r => ∀ x, m.session = some x → x.id = id → r = .ok ()
  | _, _ => True

def conduct : Contract api Meter where
  pre := Metered
  fact := Kept
  next := meter

def protocol (d : Deployment) : Protocol (server d) Meter where
  contract _ := conduct
  start _ := unmetered
  post _ m := Settled m

/-- Nothing that is metered. -/
def freeOps : Op → Prop
  | .overBudget | .getSession _ | .httpSend _ | .httpJson | .externalChat .. => False
  | .ledgerAdd _ | .dispatched _ _ => False
  | _ => True

theorem ignores_free : Ignores conduct freeOps := by
  intro m op ho
  cases op <;> first | exact ho.elim | exact ⟨trivial, fun _ => rfl⟩

section
variable {m : Meter} {session : Session} {provider : Provider} {body : ChatRequest Uuid}

/-- A turn was asked for and received, and is owed. -/
def owing (m : Meter) (turn : ProviderTurn) : Meter :=
  { m with asked := m.asked + 1, turns := m.turns ++ [turn] }

theorem anthropicChat_meter (hm : MayAsk m) (p : AnthropicWire.AnthropicProvider)
    (history : List ChatMessage) (tools : List ToolSpec) (maxTokens : Option ℕ) :
    Meets conduct (anthropicChat p history tools maxTokens).run m
      (OnResult (fun m' turn => m' = owing m turn) fun m' _ => Settled m') := by
  apply ignores_free.step (Op.keychainRead "anthropic_api_key") trivial
  intro key
  rcases key with - | - | key
  · exact hm.settled
  · exact hm.settled
  · refine ⟨hm, fun status _ => ?_⟩
    cases status with
    | none => exact hm.settled
    | some status =>
        refine meets_exceptIte.mpr ⟨fun _ => ?_, fun _ => ?_⟩
        · refine meets_exceptBind.mpr (meets_lift.mpr ⟨trivial, fun text _ => ?_⟩)
          rw [meets_done, onResult_ok]
          cases truncateForLog text with
          | none => exact meets_lift.mpr ⟨trivial, fun r => Empty.elim r⟩
          | some _ => exact hm.settled
        · have hasked : m.asked + 1 = m.turns.length + 1 := by rw [hm.answered]
          refine ⟨⟨hm.settled, hasked⟩, fun parsed _ => ?_⟩
          cases parsed with
          | none => exact hm.settled
          | some parsed => rfl

theorem providerTurn_meter (hm : MayAsk m) (history : List ChatMessage) (maxTokens : Option ℕ) :
    Meets conduct (providerTurn provider history maxTokens).run m
      (OnResult (fun m' turn => m' = owing m turn) fun m' _ => Settled m') := by
  apply meets_exceptBind.mpr
  apply meets_lift.mpr
  cases provider with
  | anthropic apiUrl =>
      refine (anthropicChat_meter hm _ history builtinTools maxTokens).mono fun m' r h => ?_
      cases r <;> exact h
  | external name =>
      refine ⟨hm, fun r _ => ?_⟩
      cases r with
      | error e => exact hm.settled
      | ok turn => rfl

theorem append_meter (hs : m.session = some session) (author : Author)
    (messages : List ChatMessage) :
    Meets conduct (appendMessages session.id author messages) m
      (OnResult (fun m' _ => m' = m) fun _ _ => False) := by
  refine ⟨trivial, fun r hr => ?_⟩
  rw [hr session hs rfl]
  rfl

theorem settled_charge (hm : Settled m) {turn : ProviderTurn} {call : Call}
    (hcall : ChargeFor m.session turn call) :
    Settled { owing m turn with charges := m.charges ++ [call] } :=
  List.rel_append hm (.cons hcall .nil)

theorem recordCost_meter (hm : Settled m) (hs : m.session = some session) (turn : ProviderTurn) :
    Meets conduct (recordCost session.provider session.model turn.usage) (owing m turn)
      fun m' _ => Settled m' ∧ m'.session = m.session ∧ m'.within = m.within ∧
        m'.asked = m.asked + 1 ∧ m'.turns = m.turns ++ [turn] := by
  apply ignores_free.step Op.instant trivial
  intro now
  apply ignores_free.step Op.ledgerLock trivial
  intro _
  refine ignores_free.step (Op.ledgerWrite _) trivial ?_
  intro _
  apply ignores_free.step Op.ledgerFlush trivial
  intro _
  have hcall : ChargeFor m.session turn
      ⟨session.provider, session.model, turn.usage, nowMs now, 0⟩ :=
    ⟨rfl, session, hs, rfl, rfl⟩
  exact ⟨⟨m.turns, turn, rfl, hm, hcall⟩, fun _ _ => ⟨settled_charge hm hcall, rfl, rfl, rfl, rfl⟩⟩

/-- Tools run when all turns are charged. -/
theorem tools_meter (hm : Settled m) (hne : m.turns ≠ []) (ctx : DispatchCtx)
    (toolUses : List (String × String × PyJson)) :
    Meets conduct (executeToolUses ctx toolUses) m fun m' _ => m' = m := by
  refine (executeToolUses_uses ctx toolUses).meets (K := (· = m)) rfl ?_ ?_
  · rintro _ op rfl ho
    cases op <;> first | exact ho.elim | exact ⟨hm, hne⟩ | trivial
  · rintro _ op r rfl ho
    cases op <;> first | exact ho.elim | rfl

theorem chatTurns_meter (n : ℕ) (c : Chat) (hwithin : m.within = true) (hm : Settled m)
    (hs : m.session = some session) (hasked : m.asked = m.turns.length)
    (hroom : m.asked + n ≤ maxTurns) :
    Meets conduct (chatTurns provider session body n c).run m fun m' _ => Settled m' := by
  induction n generalizing m c with
  | zero => exact hm
  | succ n ih =>
      unfold chatTurns
      simp only [meets_exceptBind]
      refine (providerTurn_meter ⟨hwithin, hm, hasked, by omega⟩ c.history body.maxTokens).mono
        fun m₁ r h₁ => ?_
      cases r with
      | error e => exact h₁
      | ok turn =>
          cases h₁
          refine (append_meter (m := owing m turn) hs .provider [turn.message]).mono
            fun m₂ r h₂ => ?_
          cases r with
          | error e => exact h₂.elim
          | ok _ =>
              cases h₂
              apply meets_lift.mpr
              refine (recordCost_meter hm hs turn).mono fun m₃ _ h₃ => ?_
              obtain ⟨hm₃, hs₃, hw₃, ha₃, ht₃⟩ := h₃
              apply meets_exceptIte.mpr
              refine ⟨fun _ => hm₃, fun _ => ?_⟩
              simp only [meets_exceptBind]
              apply meets_lift.mpr
              refine (tools_meter hm₃ (by simp [ht₃]) _ _).mono fun m₄ results h₄ => ?_
              cases h₄
              refine (append_meter (hs₃.trans hs) .dispatch _).mono fun m₅ r h₅ => ?_
              cases r with
              | error e => exact h₅.elim
              | ok _ =>
                  cases h₅
                  refine ih _ (hw₃.trans hwithin) hm₃ (hs₃.trans hs) ?_ (by omega)
                  rw [ha₃, ht₃, List.length_append, List.length_singleton, hasked]

theorem aiChat_meter (providers : ProviderRegistry) (body : ChatRequest Uuid)
    (hasked : m.asked = 0) (hturns : m.turns = []) (hcharges : m.charges = [])
    (hs : m.session = none) : Meets conduct (aiChat providers body).run m fun m' _ => Settled m' := by
  have hempty {m' : Meter} (ht : m'.turns = m.turns) (hc : m'.charges = m.charges) : Settled m' := by
    rw [Settled, ht, hc, hturns, hcharges]
    exact .nil
  refine ⟨trivial, fun exceeded _ => ?_⟩
  cases exceeded with
  | true => exact hempty rfl rfl
  | false =>
      change Meets _ (ExceptT.run (orThrow (getSession body.sessionId) >>= _)) _ _
      simp only [meets_exceptBind]
      refine ⟨trivial, fun r _ => ?_⟩
      cases r with
      | error e => exact hempty rfl rfl
      | ok session =>
          refine meets_okOr.mpr ⟨fun provider _ => ?_, fun _ => hempty rfl rfl⟩
          have hfound : m.session.or (some session) = some session := by rw [hs, Option.none_or]
          refine (append_meter hfound .client body.messages).mono fun m' r h => ?_
          cases r with
          | error e => exact h.elim
          | ok _ =>
              cases h
              refine ⟨trivial, fun r _ => ?_⟩
              cases r with
              | error e => exact hempty rfl rfl
              | ok current =>
                  have hstill : (m.session.or (some session)).or (some current) = some session := by
                    rw [hfound, Option.some_or]
                  have hchat : Meets conduct
                      (chatTurns provider session body maxTurns (startChat current.messages)).run
                      ⟨true, (m.session.or (some session)).or (some current), m.asked, m.turns,
                        m.charges⟩ fun m' _ => Settled m' :=
                    chatTurns_meter _ _ rfl (hempty rfl rfl) hstill (by simp [hasked, hturns])
                      (by simp [hasked])
                  refine hchat.mono fun m' r h => ?_
                  cases r <;> exact h

end

theorem serve_conduct (d : Deployment) (request : Request) :
    Meets conduct ((server d).serve request) unmetered fun m _ => Settled m := by
  apply serve_meets (Q := Settled)
  · exact ignores_free.mono fun op ho => by cases op <;> first | exact ho.elim | trivial
  · exact .nil
  · intro r input token _
    by_cases hchat : r = .aiChat
    · subst hchat
      exact aiChat_meter d.providers input rfl rfl rfl rfl
    · have huses := handler_uses d request.origin token r input
      refine (huses.meets (K := fun m => m.turns = [] ∧ m.charges = []) ⟨rfl, rfl⟩ ?_ ?_).mono ?_
      · intro m op _ ho
        cases r <;> cases op <;> first | exact ho.elim | exact absurd rfl hchat | trivial
      · intro m op reply hm ho
        cases op with
        | getSession id => cases reply <;> exact hm
        | httpSend | httpJson | externalChat | ledgerAdd =>
            cases r <;> first | exact ho.elim | exact absurd rfl hchat
        | _ => exact hm
      · rintro m _ ⟨hturns, hcharges⟩
        rw [Settled, hturns, hcharges]
        exact .nil

/-! ## Runs -/

section
variable {d : Deployment} {guard : World (server d) → Label (server d) → Prop}
  {w : World (server d)} {i : ℕ} {l : Event (server d)}

/-- A session stays once a call has found it. -/
theorem session_stays (h : Reachable (machine (server d)) guard w) (hl : l ∈ w.events) {id : Uuid}
    {x : Session} (hx : l.before.sessions id = some x) :
    ∃ current, w.shared.sessions id = some current := by
  revert x
  refine h.invariant (P := fun w : World (server d) => ∀ l ∈ w.events, ∀ x,
    l.before.sessions id = some x → ∃ current, w.shared.sessions id = some current)
    (fun l hl => by cases hl) (fun w a v _ hw _ hn => ?_) l hl _
  cases step_of_next hn with
  | @call i env request op rest r s hi hexec =>
      have hkeep {x : Session} (hx : w.shared.sessions id = some x) :
          ∃ current, s.sessions id = some current := by
        obtain ⟨current, hcurrent, -⟩ := stored_keep (stored_of_exec hexec) hx
        exact ⟨current, hcurrent⟩
      intro l hl x hx
      rcases List.mem_cons.mp hl with rfl | hl
      · exact hkeep hx
      · obtain ⟨current, hcurrent⟩ := hw l hl x hx
        exact hkeep hcurrent
  | _ => exact hw

theorem session_found (h : Reachable (machine (server d)) guard w) {x : Session}
    (hx : (meterOf i w.events).session = some x) :
    ∃ l ∈ w.events, l.before.sessions x.id = some x := by
  obtain ⟨after, l, before, he, htask, hold, hnew⟩ :=
    track_origin (P := fun m : Meter => m.session = some x) (by simp [unmetered]) hx
  obtain ⟨v, env, rest, s, hv, -, hshared, -, -, hexec⟩ := reachable_event h he
  have hmem : l ∈ w.events := by simp [he]
  refine ⟨l, hmem, ?_⟩
  obtain ⟨task, request, op, reply, shared⟩ := l
  cases op with
  | getSession id =>
      simp only [exec, Option.some.injEq, Prod.mk.injEq] at hexec
      cases reply with
      | error e => exact absurd hnew hold
      | ok found =>
          have hstored := SessionStore.get_ok.mp hexec.1
          simp only [meter, Option.or_eq_some_iff, Option.some.injEq] at hnew
          rcases hnew with hnew | ⟨-, rfl⟩
          · exact absurd hnew hold
          · have hvstored : v.shared.sessions id = some found := by
              rw [hshared]
              exact hstored
            rw [← (session_opened hv hvstored).1]
            exact hstored
  | httpJson => cases reply <;> exact absurd hnew hold
  | externalChat => cases reply <;> exact absurd hnew hold
  | _ => exact absurd hnew hold

end

theorem sound (d : Deployment) (guard : World (server d) → Label (server d) → Prop) :
    Sound (protocol d) guard := by
  intro w i env request op rest r s h _ _ hexec
  cases op with
  | appendMessages id author messages =>
      rintro x hx rfl
      obtain ⟨l, hl, hstored⟩ := session_found h hx
      obtain ⟨current, hcurrent⟩ := session_stays h hl hstored
      simp only [exec, SessionStore.appendMessages_some hcurrent, Option.some.injEq,
        Prod.mk.injEq] at hexec
      exact hexec.1.symm
  | _ => trivial

/-! ## The account -/

theorem ChargeFor.later {session session' : Option Session} {turn : ProviderTurn} {call : Call}
    (h : ChargeFor session turn call) : ChargeFor (session.or session') turn call := by
  obtain ⟨x, rfl, hkey⟩ := h.session
  exact ⟨h.usage, x, rfl, hkey⟩

/-- At most one turn is owed, at most one request has no turn, and there are at most
eight requests. -/
structure Bounds (m : Meter) : Prop where
  turns : m.turns.length ≤ m.asked
  asked : m.asked ≤ m.turns.length + 1
  room : m.asked ≤ maxTurns
  behind : Settled m ∨ OneOwed m

theorem Settled.owed {m : Meter} (h : Settled m) (turn : ProviderTurn) : OneOwed (owing m turn) :=
  ⟨m.turns, turn, rfl, h⟩

theorem MayAsk.sent {m : Meter} (h : MayAsk m) : Bounds { m with asked := m.asked + 1 } :=
  ⟨h.answered ▸ Nat.le_succ _, h.answered ▸ Nat.le_refl _, h.room, .inl h.settled⟩

theorem MayAsk.received {m : Meter} (h : MayAsk m) (turn : ProviderTurn) :
    Bounds (owing m turn) := by
  have hturns : (owing m turn).turns.length = m.asked + 1 := by
    rw [owing, List.length_append, List.length_singleton, h.answered]
  exact ⟨hturns.le, hturns ▸ Nat.le_succ _, h.room, .inr (h.settled.owed turn)⟩

section
variable {d : Deployment} {i : ℕ} {events : List (Event (server d))} {e : Event (server d)}

end

open ChatOutcome (repliesHi)

end Xlpod.Metering
