import Xlpod.ChatTranscript
import Xlpod.TranscriptPairing

/-!
# How a chat ends

A chat runs by itself on a session while others may do anything to the rest of
the shared state between its calls. The turns the provider gives are kept in
order. A chat that is answered has either met a turn without tools, which it
reports, or used up its eight turns; then it still reports the message it
started with. A chat that is refused before any turn has left the session alone
only when it was refused before it appended the client's messages.
-/
namespace Xlpod.ChatOutcome
open Xlpod.ApiErrors Xlpod.AiTypes Xlpod.AnthropicWire Xlpod.CostLedger Xlpod.GuardedRuns
open Xlpod.Programs Xlpod.SoloRuns Xlpod.Interleaving Xlpod.SessionStores Xlpod.ServerState
open Xlpod.ServerCalls Xlpod.ToolDispatch Xlpod.ChatRoute Xlpod.Server Xlpod.Footprints
open Xlpod.ChatTranscript
open Xlpod.TranscriptPairing (Keyed reachable_keyed)

/-! ## A chat by itself on a session -/

/-- What the launcher holds, and the turns the provider has given. -/
structure Seen where
  launcher : AppState
  turns : List ProviderTurn

/-- What others do between two calls, with no other chat on the session. -/
structure Meanwhile (id : Uuid) where
  change : AppState → AppState
  keeps : ∀ s, (change s).sessions id = s.sessions id

def turnIn : (op : Op) → op.Reply → Option ProviderTurn
  | .httpJson, some parsed => some parsed.intoInternal
  | .externalChat .., .ok turn => some turn
  | _, _ => none

def amid (id : Uuid) (s : Seen) (a : Meanwhile id × Environment) (op : Op) :
    Option (op.Reply × Seen) :=
  (exec (a.1.change s.launcher) a.2 op).map fun r =>
    (r.1, ⟨r.2, s.turns ++ (turnIn op r.1).toList⟩)

/-- The stored session and the turns. -/
abbrev Heard := Option Session × List ProviderTurn

def hears (id : Uuid) : Contract api Heard where
  pre _ _ := True
  fact heard := Told id heard.1
  next heard op r := (grown id heard.1 op r, heard.2 ++ (turnIn op r).toList)

def Seen.heard (id : Uuid) (s : Seen) : Heard := (s.launcher.sessions id, s.turns)

theorem hears_describes (id : Uuid) : Describes (hears id) (Seen.heard id) (amid id) := by
  intro s a op r s' h
  obtain ⟨⟨r', launcher⟩, hexec, hr⟩ := Option.map_eq_some_iff.mp h
  cases hr
  have hkeeps := a.1.keeps s.launcher
  have htold := told_exec hexec id
  have hgrown := grown_stored (stored_of_exec hexec) id
  rw [hkeeps] at htold hgrown
  exact ⟨htold, Prod.ext hgrown rfl⟩

/-! ## The loop -/

def AsksTools (turn : ProviderTurn) : Prop := toolUsesOf turn.message.content ≠ []

def provided (turn : ProviderTurn) : Entry := ⟨.provider, turn.message⟩

/-- The turns of a loop of at most `n`, what it appends, and the chat it ends with. -/
inductive Looped : ℕ → Chat → List ProviderTurn → List Entry → Chat → Prop
  | spent {c : Chat} : Looped 0 c [] [] c
  | final {n : ℕ} {c : Chat} {turn : ProviderTurn} : ¬ AsksTools turn →
      Looped (n + 1) c [turn] [provided turn]
        ⟨c.history ++ [turn.message], turn.message, turn.stopReason, turn.usage⟩
  | tools {n : ℕ} {c chat : Chat} {turn : ProviderTurn} {results : List ContentBlock}
      {turns : List ProviderTurn} {entries : List Entry} : AsksTools turn →
      Looped n ⟨c.history ++ [turn.message, ⟨.tool, none, results⟩], c.finalMessage,
        turn.stopReason, turn.usage⟩ turns entries chat →
      Looped (n + 1) c (turn :: turns)
        (provided turn :: ⟨.dispatch, ⟨.tool, none, results⟩⟩ :: entries) chat

/-- The session with more entries. -/
def Session.followedBy (x : Session) (entries : List Entry) : Session :=
  { x with transcript := x.transcript ++ entries }

theorem followedBy_followedBy (x : Session) (entries entries' : List Entry) :
    Session.followedBy (Session.followedBy x entries) entries' =
      Session.followedBy x (entries ++ entries') := by
  simp [Session.followedBy]

theorem followedBy_nil (x : Session) : Session.followedBy x [] = x := by
  simp [Session.followedBy]

/-- A loop that ended. -/
def LoopEnds (n : ℕ) (c : Chat) (x : Session) (ts : List ProviderTurn) (g : Heard)
    (chat : Chat) : Prop :=
  ∃ turns entries, g = (some (Session.followedBy x entries), ts ++ turns) ∧
    Looped n c turns entries chat

/-- A loop that failed; before its first turn the session is as it was. -/
def LoopFails (x : Session) (ts : List ProviderTurn) (g : Heard) : Prop :=
  ∃ turns, g.2 = ts ++ turns ∧ (turns = [] → g.1 = some x)

section
variable {id : Uuid} {session x : Session} {provider : Provider} {body : ChatRequest Uuid}
  {n : ℕ} {c : Chat} {ts : List ProviderTurn} {found : Option Session}

theorem append_hears (hid : session.id = id) (author : Author) (messages : List ChatMessage) :
    Meets (hears id) (appendMessages session.id author messages) (some x, ts)
      (OnResult (fun g _ => g = (some (Session.extended x author messages), ts))
        fun _ _ => False) := by
  refine ⟨trivial, fun r hr => ?_⟩
  cases r with
  | error e => exact absurd (hr hid) (Option.some_ne_none x)
  | ok _ =>
      have hgrown : grown id (some x) (.appendMessages session.id author messages) (.ok ()) =
          some (Session.extended x author messages) := if_pos hid
      exact Prod.ext hgrown (List.append_nil ts)

theorem hears_overhears : Overhears (hears id) := by
  have hkept (g : Heard) (op : Op) (r : op.Reply) (hgrown : grown id g.1 op r = g.1)
      (hturn : turnIn op r = none) : (hears id).next g op r = g := by
    simp [hears, hgrown, hturn]
  constructor
  · exact fun _ _ => trivial
  · exact fun g name r => hkept g (.keychainRead name) r rfl rfl
  · exact fun g post r => hkept g (.httpSend post) r rfl rfl
  · exact fun g r => hkept g .httpText r rfl rfl
  · exact fun g => hkept g .httpJson none rfl rfl

theorem providerTurn_hears (history : List ChatMessage) (maxTokens : Option ℕ) (g : Heard) :
    Meets (hears id) (providerTurn provider history maxTokens).run g
      (OnResult (fun g' turn => g' = (g.1, g.2 ++ [turn])) fun g' _ => g' = g) := by
  apply meets_exceptBind.mpr
  apply meets_lift.mpr
  cases provider with
  | anthropic apiUrl =>
      refine (anthropicChat_overheard hears_overhears _ history builtinTools maxTokens g).mono
        fun g' r h => ?_
      cases r with
      | error e => exact h
      | ok turn =>
          obtain ⟨parsed, rfl, hg⟩ := h
          exact hg
  | external name =>
      refine ⟨trivial, fun r _ => ?_⟩
      cases r with
      | error e => exact Prod.ext rfl (List.append_nil g.2)
      | ok turn => rfl

theorem hears_ignores {ops : Op → Prop} (h : ∀ op, ops op → ∀ found (r : op.Reply),
    grown id found op r = found ∧ turnIn op r = none) : Ignores (hears id) ops := by
  intro g op ho
  refine ⟨trivial, fun r => ?_⟩
  obtain ⟨hgrown, hturn⟩ := h op ho g.1 r
  simp [hears, hgrown, hturn]

theorem cost_hears : Ignores (hears id) costOps := by
  apply hears_ignores
  intro op ho found r
  cases op <;> first | exact ho.elim | exact ⟨rfl, rfl⟩

theorem dispatch_hears : Ignores (hears id) dispatchOps := by
  apply hears_ignores
  intro op ho found r
  cases op <;> first | exact ho.elim | exact ⟨rfl, rfl⟩

theorem extended_eq (x : Session) (author : Author) (m : ChatMessage) :
    Session.extended x author [m] = Session.followedBy x [⟨author, m⟩] := rfl

theorem chatTurns_hears (hid : session.id = id) :
    Meets (hears id) (chatTurns provider session body n c).run (some x, ts)
      (OnResult (LoopEnds n c x ts) fun g _ => LoopFails x ts g) := by
  induction n generalizing c x ts with
  | zero =>
      have hstays : ((some x, ts) : Heard) = (some (Session.followedBy x []), ts ++ []) := by
        rw [followedBy_nil, List.append_nil]
      exact ⟨[], [], hstays, .spent⟩
  | succ n ih =>
      rw [chatTurns]
      simp only [meets_exceptBind]
      refine (providerTurn_hears c.history body.maxTokens (some x, ts)).mono fun g r h => ?_
      cases r with
      | error e =>
          rw [onResult_error] at h
          subst h
          exact ⟨[], (List.append_nil ts).symm, fun _ => rfl⟩
      | ok turn =>
          rw [onResult_ok] at h
          subst h
          have hlater {g : Heard} (turns : List ProviderTurn) (hg : g.2 = ts ++ [turn] ++ turns) :
              LoopFails x ts g := by
            refine ⟨turn :: turns, ?_, fun hnil => absurd hnil (List.cons_ne_nil turn turns)⟩
            rw [hg, List.append_assoc]
            rfl
          refine (append_hears hid .provider [turn.message]).mono fun g r h => ?_
          cases r with
          | error e => exact h.elim
          | ok _ =>
              rw [onResult_ok] at h
              subst h
              rw [extended_eq]
              apply meets_lift.mpr
              refine (cost_hears.meets (recordCost_uses _ _ _)).mono fun g _ h => ?_
              subst h
              apply meets_exceptIte.mpr
              refine ⟨fun hend => ?_, fun hgo => ?_⟩
              · have hnone : ¬ AsksTools turn := not_not.mpr (List.isEmpty_iff.mp hend)
                exact ⟨[turn], [provided turn], rfl, .final hnone⟩
              · have hasks : AsksTools turn := by simpa [AsksTools] using hgo
                simp only [meets_exceptBind]
                apply meets_lift.mpr
                refine (dispatch_hears.meets (executeToolUses_uses _ _)).mono
                  fun g results h => ?_
                subst h
                refine (append_hears hid .dispatch [⟨.tool, none, results⟩]).mono fun g r h => ?_
                cases r with
                | error e => exact h.elim
                | ok _ =>
                    rw [onResult_ok] at h
                    subst h
                    rw [extended_eq, followedBy_followedBy]
                    refine ih.mono fun g r h => ?_
                    cases r with
                    | error e =>
                        obtain ⟨turns, hturns, -⟩ := h
                        exact hlater turns hturns
                    | ok chat =>
                        obtain ⟨turns, entries, rfl, hlooped⟩ := h
                        refine ⟨turn :: turns, _, ?_, .tools hasks hlooped⟩
                        rw [followedBy_followedBy]
                        exact Prod.ext rfl (List.append_assoc ts [turn] turns)

end

/-! ## A whole chat -/

/-- `ai_chat` behind its budget check. -/
def withinBudget (providers : ProviderRegistry) (body : ChatRequest Uuid) :
    Handler ResponseBody := do
  let session ← orThrow (getSession body.sessionId)
  let provider ← okOr .aiProviderUnconfigured (providers session.provider)
  orThrow (appendMessages session.id .client body.messages)
  let current ← orThrow (getSession session.id)
  let chat ← chatTurns provider session body maxTurns (startChat current.messages)
  return .chat ⟨session.id, chat.finalMessage, chat.finalStop, chat.finalUsage⟩

/-- There is no session, or its provider is not registered. -/
def Refused (providers : ProviderRegistry) (found : Option Session) : Prop :=
  ∀ x, found = some x → providers x.provider = none

/-- A chat that was answered on `found`. -/
def Closed (body : ChatRequest Uuid) (found : Option Session) (g : Heard)
    (r : ResponseBody) : Prop :=
  ∃ x turns entries chat, found = some x ∧
    g = (some (Session.followedBy (Session.extended x .client body.messages) entries), turns) ∧
    Looped maxTurns (startChat (x.messages ++ body.messages)) turns entries chat ∧
    r = .chat ⟨x.id, chat.finalMessage, chat.finalStop, chat.finalUsage⟩

/-- A chat that was not answered; without a turn it stopped in front of the
client's messages or behind them. -/
def Stopped (providers : ProviderRegistry) (body : ChatRequest Uuid) (found : Option Session)
    (g : Heard) : Prop :=
  g.2 = [] → Refused providers found ∧ g.1 = found ∨
    ¬ Refused providers found ∧
      ∃ x, found = some x ∧ g.1 = some (Session.extended x .client body.messages)

section
variable {id : Uuid} {providers : ProviderRegistry} {body : ChatRequest Uuid}
  {found : Option Session}

theorem withinBudget_hears (hid : body.sessionId = id) (hkeyed : ∀ x, found = some x → x.id = id) :
    Meets (hears id) (withinBudget providers body).run (found, [])
      (OnResult (Closed body found) fun g _ => Stopped providers body found g) := by
  refine ⟨trivial, fun r hr => ?_⟩
  cases r with
  | error e =>
      have hnone : found = none := hr hid
      subst hnone
      exact fun _ => .inl ⟨nofun, rfl⟩
  | ok x =>
      have hsome : found = some x := hr hid
      subst hsome
      have hx : x.id = id := hkeyed x rfl
      change Meets (hears id) (ExceptT.run (okOr _ (providers x.provider) >>= _)) (some x, []) _
      simp only [meets_exceptBind]
      refine meets_okOr.mpr ⟨fun provider hprovider => ?_, fun hnone => ?_⟩
      · have hopen : ¬ Refused providers (some x) := by
          intro h
          rw [h x rfl] at hprovider
          cases hprovider
        refine (append_hears hx .client body.messages).mono fun g r h => ?_
        cases r with
        | error e => exact h.elim
        | ok _ =>
            rw [onResult_ok] at h
            subst h
            refine ⟨trivial, fun r hr => ?_⟩
            cases r with
            | error e => exact absurd (hr hx) (Option.some_ne_none _)
            | ok current =>
                have hcurrent := Option.some.inj (hr hx)
                subst hcurrent
                rw [meets_done, onResult_ok]
                refine (chatTurns_hears hx).mono fun g r h => ?_
                cases r with
                | error e =>
                    obtain ⟨turns, hturns, hkept⟩ := h
                    intro hnone
                    exact .inr ⟨hopen, x, rfl, hkept (hturns.symm.trans hnone)⟩
                | ok chat =>
                    obtain ⟨turns, entries, hg, hlooped⟩ := h
                    rw [messages_extended] at hlooped
                    exact ⟨x, turns, entries, chat, rfl, hg, hlooped, rfl⟩
      · intro _
        left
        refine ⟨?_, rfl⟩
        intro y hy
        rw [← Option.some.inj hy]
        exact hnone

/-- The part of a chat before its first call is not counted as a step. -/
theorem perform_aiChat {s : Seen} {a : Meanwhile id × Environment}
    {es : List (Meanwhile id × Environment)} :
    perform (I := api) (amid id) (aiChat providers body).run s (a :: es) =
      if CostLedger.overBudget (a.1.change s.launcher).ledger then
        some (.error .aiBudgetExceeded, ⟨a.1.change s.launcher, s.turns ++ []⟩, es)
      else perform (I := api) (amid id) (withinBudget providers body).run
        ⟨a.1.change s.launcher, s.turns ++ []⟩ es := by
  change perform (I := api) (amid id) (ExceptT.run (if CostLedger.overBudget _ then _ else _)) _ es = _
  split <;> rfl

end

/-! ## What the answer says -/

/-- The last message of the assistant in a transcript. -/
def lastProvided (transcript : List Entry) : Option ChatMessage :=
  ((transcript.filter (·.author = .provider)).map (·.message)).getLast?

/-- Eight turns, and all asked for tools. -/
def Exhausted (turns : List ProviderTurn) : Prop :=
  turns.length = maxTurns ∧ ∀ turn ∈ turns, AsksTools turn

/-- The answer says how the loop ended. -/
structure Reports (transcript : List Entry) (turns : List ProviderTurn)
    (resp : ChatResponse Uuid) : Prop where
  message : lastProvided transcript = some resp.message
  limit : resp.stopReason = .toolUseRoundLimit ↔ Exhausted turns
  stop : ¬ Exhausted turns → turns.getLast?.map (·.stopReason) = some resp.stopReason

section
variable {n : ℕ} {c chat : Chat} {turns : List ProviderTurn} {entries : List Entry}

theorem Looped.messages (h : Looped n c turns entries chat) :
    (entries.filter (·.author = .provider)).map (·.message) = turns.map (·.message) := by
  induction h with
  | spent => rfl
  | final hend => rfl
  | @tools n c chat turn results turns entries hasks hlooped ih =>
      have hkeep : (provided turn :: ⟨.dispatch, ⟨.tool, none, results⟩⟩ :: entries).filter
          (·.author = .provider) = provided turn :: entries.filter (·.author = .provider) := rfl
      rw [hkeep, List.map_cons, List.map_cons, ih]
      rfl

/-- A loop ends with its first turn without tools, or spends all it may. -/
theorem Looped.ends (h : Looped n c turns entries chat) :
    (∃ before last, turns = before ++ [last] ∧ (∀ turn ∈ before, AsksTools turn) ∧
      ¬ AsksTools last ∧ chat.finalMessage = last.message ∧ chat.finalStop = last.stopReason) ∨
    turns.length = n ∧ (∀ turn ∈ turns, AsksTools turn) ∧
      chat.finalMessage = c.finalMessage := by
  induction h with
  | spent => exact .inr ⟨rfl, nofun, rfl⟩
  | @final n c turn hend => exact .inl ⟨[], turn, rfl, nofun, hend, rfl, rfl⟩
  | @tools n c chat turn results turns entries hasks hlooped ih =>
      cases ih with
      | inl hfinal =>
          obtain ⟨before, last, hturns, hbefore, hlast⟩ := hfinal
          left
          refine ⟨turn :: before, last, ?_, ?_, hlast⟩
          · rw [hturns, List.cons_append]
          · exact List.forall_mem_cons.mpr ⟨hasks, hbefore⟩
      | inr hspent =>
          obtain ⟨hlength, hall, hmessage⟩ := hspent
          right
          refine ⟨?_, ?_, hmessage⟩
          · rw [List.length_cons, hlength]
          · exact List.forall_mem_cons.mpr ⟨hasks, hall⟩

theorem lastProvided_append (before : List Entry) {entries : List Entry}
    {m : ChatMessage} (h : ((entries.filter (·.author = .provider)).map (·.message)).getLast? =
      some m) : lastProvided (before ++ entries) = some m := by
  rw [lastProvided, List.filter_append, List.map_append, List.getLast?_append, h]
  rfl

/-- The answer of a loop of eight turns, when a turn without tools ended it. -/
theorem Looped.reports_iff {history : List ChatMessage} {id : Uuid} {before : List Entry}
    (h : Looped maxTurns (startChat history) turns entries chat) :
    Reports (before ++ entries) turns
        ⟨id, chat.finalMessage, chat.finalStop, chat.finalUsage⟩ ↔
      ∃ turn ∈ turns, ¬ AsksTools turn ∧ turn.stopReason ≠ .toolUseRoundLimit := by
  have hprovided := h.messages
  cases h.ends with
  | inl hfinal =>
      obtain ⟨asking, last, rfl, hasking, hlast, hmessage, hstop⟩ := hfinal
      have hmem : last ∈ asking ++ [last] := List.mem_append_right _ (List.mem_singleton_self last)
      have hlive : ¬ Exhausted (asking ++ [last]) := fun hall => hlast (hall.2 last hmem)
      constructor
      · intro hreports
        refine ⟨last, hmem, hlast, fun hlimit => hlive ?_⟩
        apply hreports.limit.mp
        rw [← hlimit]
        exact hstop
      · intro hsome
        obtain ⟨turn, hturn, hends, hlimit⟩ := hsome
        have hturn : turn = last := by
          cases List.mem_append.mp hturn with
          | inl hin => exact absurd (hasking turn hin) hends
          | inr hin => exact List.mem_singleton.mp hin
        subst hturn
        refine ⟨?_, ⟨fun hstop' => ?_, fun hall => absurd hall hlive⟩, fun _ => ?_⟩
        · apply lastProvided_append
          rw [hprovided, List.map_append, List.getLast?_append]
          exact congrArg some hmessage.symm
        · exact absurd (hstop.symm.trans hstop') hlimit
        · rw [List.getLast?_append]
          exact congrArg some hstop.symm
  | inr hspent =>
      obtain ⟨hlength, hall, hmessage⟩ := hspent
      constructor
      · intro hreports
        have hne : turns ≠ [] := by
          intro hnil
          rw [hnil] at hlength
          cases hlength
        have hlast : lastProvided (before ++ entries) = some (turns.getLast hne).message := by
          apply lastProvided_append
          rw [hprovided, List.getLast?_map, List.getLast?_eq_some_getLast hne]
          rfl
        have hempty : (turns.getLast hne).message = ⟨.assistant, none, []⟩ :=
          (Option.some.inj (hlast.symm.trans hreports.message)).trans hmessage
        have hasks := hall _ (List.getLast_mem hne)
        rw [AsksTools, hempty] at hasks
        exact absurd rfl hasks
      · intro hsome
        obtain ⟨turn, hturn, hends, -⟩ := hsome
        exact absurd (hall turn hturn) hends

end

/-! ## Runs of a chat -/

section
variable {id : Uuid} {providers : ProviderRegistry} {body : ChatRequest Uuid}
  {launcher : AppState} {es rest : List (Meanwhile id × Environment)} {s' : Seen}
  {result : Except ApiError ResponseBody}

/-- The budget is spent when the chat asks for it. -/
def Over (launcher : AppState) (es : List (Meanwhile id × Environment)) : Prop :=
  ∃ a ∈ es.head?, CostLedger.overBudget (a.1.change launcher).ledger = true

/-- A chat by itself is turned down by the budget, or does what it does behind it. -/
theorem chat_run (hid : body.sessionId = id)
    (hkeyed : ∀ x, launcher.sessions id = some x → x.id = id)
    (h : perform (I := api) (amid id) (aiChat providers body).run ⟨launcher, []⟩ es =
      some (result, s', rest)) :
    Over launcher es ∧ result = .error .aiBudgetExceeded ∧
        s'.heard id = (launcher.sessions id, []) ∨
      ¬ Over launcher es ∧ OnResult (Closed body (launcher.sessions id))
        (fun g _ => Stopped providers body (launcher.sessions id) g) (s'.heard id) result := by
  cases es with
  | nil => cases h
  | cons a es =>
      rw [perform_aiChat] at h
      have hkeeps := a.1.keeps launcher
      by_cases hover : CostLedger.overBudget (a.1.change launcher).ledger = true
      · rw [if_pos hover] at h
        cases h
        exact .inl ⟨⟨a, rfl, hover⟩, rfl, Prod.ext hkeeps rfl⟩
      · rw [if_neg hover] at h
        have hunder : ¬ Over launcher (a :: es) := by
          intro hsome
          obtain ⟨b, hb, hbover⟩ := hsome
          rw [List.head?_cons, Option.mem_some_iff] at hb
          rw [← hb] at hbover
          exact hover hbover
        rw [← hkeeps] at hkeyed ⊢
        have hmeets : Meets (hears id) (withinBudget providers body).run _ _ :=
          withinBudget_hears hid hkeyed
        exact .inr ⟨hunder, (hears_describes id).perform hmeets h⟩

end

/-- A chat of a reachable launcher that is answered tells how its loop ended just
when the loop ended with a turn that asked for no tool. -/
theorem chat_reports_iff {d : Deployment} {guard : World (server d) → Label (server d) → Prop}
    {w : World (server d)} (hw : Reachable (machine (server d)) guard w)
    (providers : ProviderRegistry) (body : ChatRequest Uuid)
    (es rest : List (Meanwhile body.sessionId × Environment)) (s' : Seen) (r : ResponseBody)
    (h : perform (I := api) (amid body.sessionId) (aiChat providers body).run ⟨w.shared, []⟩ es =
      some (.ok r, s', rest)) :
    ∃ x' resp, s'.launcher.sessions body.sessionId = some x' ∧ r = .chat resp ∧
      (Reports x'.transcript s'.turns resp ↔
        ∃ turn ∈ s'.turns, ¬ AsksTools turn ∧ turn.stopReason ≠ .toolUseRoundLimit) := by
  have hkeyed := reachable_keyed hw body.sessionId
  cases chat_run rfl hkeyed h with
  | inl hover => cases hover.2.1
  | inr hrun =>
      obtain ⟨x, turns, entries, chat, -, hheard, hlooped, hr⟩ := hrun.2
      have hsession := congrArg Prod.fst hheard
      have hturns : s'.turns = turns := congrArg Prod.snd hheard
      refine ⟨_, _, hsession, hr, ?_⟩
      rw [hturns]
      exact hlooped.reports_iff

section
variable {d : Deployment}

/-- Nobody does anything. -/
def idle (id : Uuid) : Meanwhile id := ⟨fun s => s, fun _ => rfl⟩

def sessionOpened : List (Label (server d)) :=
  handshakeRun 0 "a" [.aiProviderCall] ++ sessionRun 1 "a" 1 none

def hello : ChatRequest Uuid := ⟨1, [⟨.user, none, [.text "hi"]⟩], none, false⟩

/-- The chat on session 1 with `n` calls. -/
def helloRun (w : World (server d)) (n : ℕ) (env : Environment) :
    Option (Except ApiError ResponseBody × Seen × List (Meanwhile 1 × Environment)) :=
  perform (I := api) (amid 1) (aiChat d.providers hello).run ⟨w.shared, []⟩
    (List.replicate n (idle 1, env))

/-- The chat was answered, and the answer and what was seen pass a test. -/
def answers (test : ChatResponse Uuid → Seen → Bool) :
    Option (Except ApiError ResponseBody × Seen × List (Meanwhile 1 × Environment)) → Bool
  | some (.ok (.chat resp), s, _) => test resp s
  | _ => false

theorem ran_of_answers {test : ChatResponse Uuid → Seen → Bool}
    {run : Option (Except ApiError ResponseBody × Seen × List (Meanwhile 1 × Environment))}
    (h : answers test run = true) :
    ∃ resp s rest, run = some (.ok (.chat resp), s, rest) ∧ test resp s = true := by
  unfold answers at h
  split at h
  · exact ⟨_, _, _, rfl, h⟩
  · cases h

end

/-- The upstream answers with a text. -/
def repliesHi : Environment where
  status := some 200
  json := some ⟨[.text "Hi"], some "end_turn", none⟩

theorem reports_oneTurn : ∃ w, Reachable (machine (server keyedLaunch)) anyStep w ∧
    ∃ r s' rest x' resp, helloRun w 14 repliesHi = some (.ok r, s', rest) ∧
      s'.launcher.sessions 1 = some x' ∧ r = .chat resp ∧ Reports x'.transcript s'.turns resp := by
  obtain ⟨w, hw, ht⟩ := replay_reaches (machine (server keyedLaunch)) anyStep unchecked
    sessionOpened (fun w => answers (fun _ s => s.turns.any fun turn =>
      (toolUsesOf turn.message.content).isEmpty && turn.stopReason = .endTurn)
      (helloRun w 14 repliesHi)) (fun _ _ _ => trivial) (by decide +kernel)
  obtain ⟨resp, s', rest, hrun, hturn⟩ := ran_of_answers ht
  obtain ⟨turn, hmem, hturn⟩ := List.any_eq_true.mp hturn
  simp only [Bool.and_eq_true, List.isEmpty_iff, decide_eq_true_eq] at hturn
  obtain ⟨x', resp', hx', hresp, hiff⟩ := chat_reports_iff hw _ hello _ _ _ _ hrun
  refine ⟨w, hw, _, s', rest, x', resp', hrun, hx', hresp, hiff.mpr ⟨turn, hmem, ?_, ?_⟩⟩
  · exact not_not.mpr hturn.1
  · rw [hturn.2]
    nofun

/-- The upstream asks for a tool in every turn. -/
theorem eightTurns_unreported : ∃ w, Reachable (machine (server keyedLaunch)) anyStep w ∧
    ∃ s' rest resp, helloRun w 84 (asksFor "nothing" (.obj [])) =
        some (.ok (.chat resp), s', rest) ∧
      ∀ x', s'.launcher.sessions 1 = some x' → ¬ Reports x'.transcript s'.turns resp := by
  obtain ⟨w, hw, ht⟩ := replay_reaches (machine (server keyedLaunch)) anyStep unchecked
    sessionOpened (fun w => answers (fun resp s => resp.stopReason = .endTurn &&
      s.turns.length = maxTurns && s.turns.all fun turn =>
        !(toolUsesOf turn.message.content).isEmpty)
      (helloRun w 84 (asksFor "nothing" (.obj [])))) (fun _ _ _ => trivial) (by decide +kernel)
  obtain ⟨resp, s', rest, hrun, hall⟩ := ran_of_answers ht
  simp only [Bool.and_eq_true, decide_eq_true_eq, List.all_eq_true] at hall
  obtain ⟨⟨hstop, hlength⟩, hasks⟩ := hall
  refine ⟨w, hw, s', rest, resp, hrun, fun x' _ hreports => ?_⟩
  have hexhausted : Exhausted s'.turns := by
    refine ⟨hlength, fun turn hturn => ?_⟩
    simpa [AsksTools] using hasks turn hturn
  have hlimit := hreports.limit.mpr hexhausted
  rw [hstop] at hlimit
  cases hlimit

/-! ## Trying again -/

/-- The stored session is as it was, and the same request, once it succeeds,
leaves its messages there once. -/
structure Retryable (body : ChatRequest Uuid) (before : Option Session) (after : AppState) :
    Prop where
  kept : (after.sessions body.sessionId).map (·.transcript) = before.map (·.transcript)
  once : ∀ (providers : ProviderRegistry)
    (es rest : List (Meanwhile body.sessionId × Environment)) (s : Seen) (r : ResponseBody),
    perform (I := api) (amid body.sessionId) (aiChat providers body).run ⟨after, []⟩ es =
      some (.ok r, s, rest) →
    ∃ x entries, before = some x ∧
      (s.launcher.sessions body.sessionId).map (·.transcript) =
        some (x.transcript ++ body.messages.map (⟨.client, ·⟩) ++ entries) ∧
      ∀ entry ∈ entries, entry.author ≠ .client

theorem Looped.not_client {n : ℕ} {c chat : Chat} {turns : List ProviderTurn}
    {entries : List Entry} (h : Looped n c turns entries chat) :
    ∀ entry ∈ entries, entry.author ≠ .client := by
  induction h with
  | spent => nofun
  | final => simp [provided]
  | tools _ _ ih => simpa [provided] using ih

/-- A session with the transcript it had can be asked again. -/
theorem retryable_of_kept {body : ChatRequest Uuid} {before : Option Session} {after : AppState}
    (hkeyed : ∀ x, before = some x → x.id = body.sessionId)
    (hkept : after.sessions body.sessionId = before) : Retryable body before after := by
  constructor
  · rw [hkept]
  · intro providers es rest s r h
    rw [← hkept] at hkeyed
    cases chat_run rfl hkeyed h with
    | inl hover => cases hover.2.1
    | inr hrun =>
        obtain ⟨x, turns, entries, chat, hx, hheard, hlooped, -⟩ := hrun.2
        have hsession : s.launcher.sessions body.sessionId = _ := congrArg Prod.fst hheard
        refine ⟨x, entries, hkept.symm.trans hx, ?_, hlooped.not_client⟩
        rw [hsession]
        rfl

/-- A chat of a reachable launcher that fails without a turn can be tried again just
when it was refused before it appended the client's messages, or had none. -/
theorem chat_retryable_iff {d : Deployment} {guard : World (server d) → Label (server d) → Prop}
    {w : World (server d)} (hw : Reachable (machine (server d)) guard w)
    (providers : ProviderRegistry) (body : ChatRequest Uuid)
    (es rest : List (Meanwhile body.sessionId × Environment)) (s' : Seen) (e : ApiError)
    (h : perform (I := api) (amid body.sessionId) (aiChat providers body).run ⟨w.shared, []⟩ es =
      some (.error e, s', rest)) (hturns : s'.turns = []) :
    Retryable body (w.shared.sessions body.sessionId) s'.launcher ↔
      Over w.shared es ∨ Refused providers (w.shared.sessions body.sessionId) ∨
        body.messages = [] := by
  have hkeyed := reachable_keyed hw body.sessionId
  cases chat_run rfl hkeyed h with
  | inl hover =>
      have hkept : s'.launcher.sessions body.sessionId = _ := congrArg Prod.fst hover.2.2
      exact iff_of_true (retryable_of_kept hkeyed hkept) (.inl hover.1)
  | inr hrun =>
      cases hrun.2 hturns with
      | inl hrefused =>
          exact iff_of_true (retryable_of_kept hkeyed hrefused.2) (.inr (.inl hrefused.1))
      | inr hasked =>
          obtain ⟨hopen, x, hx, hafter⟩ := hasked
          have hafter : s'.launcher.sessions body.sessionId = _ := hafter
          constructor
          · intro hretryable
            have hsame := hretryable.kept
            rw [hafter, hx] at hsame
            have hlengths := congrArg List.length (Option.some.inj hsame)
            simp only [Session.extended, List.length_append, List.length_map] at hlengths
            right
            right
            exact List.length_eq_zero_iff.mp (by omega)
          · intro hcause
            rcases hcause with hover | hrefused | hnone
            · exact absurd hover hrun.1
            · exact absurd hrefused hopen
            · apply retryable_of_kept hkeyed
              rw [hafter, hx, hnone]
              simp [Session.extended]

/-- The chat failed without a turn, and left a transcript of this length. -/
def failed (size : ℕ) :
    Option (Except ApiError ResponseBody × Seen × List (Meanwhile 1 × Environment)) → Bool
  | some (.error _, s, _) =>
      s.turns.isEmpty && ((s.launcher.sessions 1).map (·.transcript.length)).getD 0 = size
  | _ => false

theorem ran_of_failed {size : ℕ}
    {run : Option (Except ApiError ResponseBody × Seen × List (Meanwhile 1 × Environment))}
    (h : failed size run = true) : ∃ e s rest, run = some (.error e, s, rest) ∧ s.turns = [] ∧
      ((s.launcher.sessions 1).map (·.transcript.length)).getD 0 = size := by
  unfold failed at h
  split at h
  · simp only [Bool.and_eq_true, List.isEmpty_iff, decide_eq_true_eq] at h
    exact ⟨_, _, _, rfl, h.1, h.2⟩
  · cases h

/-- A chat on a session that was never opened. -/
theorem retryable_noSession : ∃ w, Reachable (machine (server firstLaunch)) anyStep w ∧
    ∃ e s' rest, helloRun w 2 {} = some (.error e, s', rest) ∧ s'.turns = [] ∧
      Retryable hello (w.shared.sessions 1) s'.launcher := by
  obtain ⟨w, hw, ht⟩ := replay_reaches (machine (server firstLaunch)) anyStep unchecked
    [] (fun w => failed 0 (helloRun w 2 {}) && (w.shared.sessions 1).isNone)
    (fun _ _ _ => trivial) (by decide +kernel)
  obtain ⟨hfailed, hnone⟩ := Bool.and_eq_true_iff.mp ht
  obtain ⟨e, s', rest, hrun, hturns, -⟩ := ran_of_failed hfailed
  refine ⟨w, hw, e, s', rest, hrun, hturns, ?_⟩
  apply (chat_retryable_iff hw _ hello _ _ _ _ hrun hturns).mpr
  right
  left
  change Refused _ (w.shared.sessions 1)
  rw [Option.isNone_iff_eq_none.mp hnone]
  nofun

/-- A chat without a stored key leaves the client's message in the transcript. -/
theorem noKey_unretryable : ∃ w, Reachable (machine (server firstLaunch)) anyStep w ∧
    ∃ e s' rest, helloRun w 5 {} = some (.error e, s', rest) ∧ s'.turns = [] ∧
      ¬ Retryable hello (w.shared.sessions 1) s'.launcher := by
  obtain ⟨w, hw, ht⟩ := replay_reaches (machine (server firstLaunch)) anyStep unchecked
    sessionOpened (fun w => failed 1 (helloRun w 5 {}) &&
      ((w.shared.sessions 1).map (·.transcript.length)).getD 0 = 0)
    (fun _ _ _ => trivial) (by decide +kernel)
  simp only [Bool.and_eq_true, decide_eq_true_eq] at ht
  obtain ⟨hfailed, hbefore⟩ := ht
  obtain ⟨e, s', rest, hrun, hturns, hafter⟩ := ran_of_failed hfailed
  refine ⟨w, hw, e, s', rest, hrun, hturns, fun hretryable => ?_⟩
  have hlengths := congrArg (fun t => (t.map List.length).getD 0) hretryable.kept
  simp only [Option.map_map, Function.comp_def] at hlengths
  change ((s'.launcher.sessions 1).map _).getD 0 = ((w.shared.sessions 1).map _).getD 0 at hlengths
  omega

end Xlpod.ChatOutcome
