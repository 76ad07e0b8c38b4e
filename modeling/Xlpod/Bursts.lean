import Xlpod.Server
import Xlpod.RateWindow

/-!
# Bursts

Many requests of one token at one reading of the clock. Each looks the token up,
reads the clock and asks the limiter, and stays there; the bucket grows by one
reading at a time until it is full.
-/
namespace Xlpod.Bursts
open Xlpod.ApiErrors Xlpod.Auth Xlpod.GuardedRuns Xlpod.Programs Xlpod.Interleaving
open Xlpod.SessionStores Xlpod.CostLedger Xlpod.ServerState Xlpod.Server
open Xlpod.SlidingWindow Xlpod.RateWindow

/-! ## Accepted checks -/

def acceptedCheck : (op : Op) → op.Reply → Option Check
  | .limiterCheck key now, .ok _ => some ⟨key, now⟩
  | _, _ => none

/-- The readings of the accepted checks of a token, newest first. -/
def checksOf {d : Deployment} (token : String) (events : List (Event (server d))) : List ℕ :=
  events.filterMap fun e =>
    if bearerToken e.request = some token then (acceptedCheck e.op e.reply).map Check.now else none

/-! ## One request -/

/-- `audit_wrap` once the response is there. -/
def closing (request : Request) (start : ℕ) (response : Response) : Server Unit := do
  respond response
  let finish ← instant
  let now ← instant
  writeAudit (auditEntry request response (nowMs now) ((finish - start) / nanosPerMilli))

def versionRequest : Request := addinRequest .launcherVersion "/launcher/version" (some "tok") ()

theorem bearer_versionRequest : bearerToken versionRequest = some "tok" := by decide +kernel

/-- A refusal of the limiter is the response. -/
def judged (start : ℕ) (admitted : Server Unit) : Except ApiError Unit → Server Unit
  | .error e => closing versionRequest start (errorResponse e)
  | .ok () => admitted

theorem serve_versionRequest : ∃ admitted : ℕ → TokenRecord → Server Unit,
    (server firstLaunch).serve versionRequest =
      .call .instant fun start => .call (.lookup "tok") fun found =>
        match found with
        | .error e => closing versionRequest start (errorResponse e)
        | .ok record => .call .instant fun now =>
            .call (.limiterCheck (idOf "tok") now) (judged start (admitted start record)) := by
  have hroute : route versionRequest.method versionRequest.path = .found .launcherVersion := by
    decide +kernel
  have hinner : innerService firstLaunch versionRequest = bearerGuard versionRequest fun record =>
      handle firstLaunch versionRequest .launcherVersion (some record) := by
    rw [innerService, hroute]
    rfl
  let next (record : TokenRecord) : Server Response := do
    let response ← handle firstLaunch versionRequest .launcherVersion (some record)
    return { response with tokenId := some (idOf "tok") }
  refine ⟨fun start record => next record >>= closing versionRequest start, ?_⟩
  change auditWrap versionRequest (innerService firstLaunch versionRequest) = _
  rw [hinner, bearerGuard, bearer_versionRequest]
  refine congrArg (Program.call (I := api) Op.instant) (funext fun start => ?_)
  refine congrArg (Program.call (I := api) (Op.lookup "tok")) (funext fun found => ?_)
  cases found with
  | error e => rfl
  | ok record =>
      refine congrArg (Program.call (I := api) Op.instant) (funext fun now => ?_)
      refine congrArg (Program.call (I := api) (Op.limiterCheck (idOf "tok") now))
        (funext fun checked => ?_)
      cases checked <;> rfl

section
variable {i : ℕ} {record : TokenRecord} {s : AppState} {w : World (server firstLaunch)}

def event (i : ℕ) (s : AppState) (op : Op) (r : op.Reply) : Event (server firstLaunch) :=
  ⟨i, versionRequest, op, r, s⟩

/-- The calls before the limiter is asked. -/
def asking (i : ℕ) (s : AppState) (record : TokenRecord) : List (Event (server firstLaunch)) :=
  [] ++ [event i s .instant s.now] ++ [event i s (.lookup "tok") (.ok record)] ++
    [event i s .instant s.now]

theorem checksOf_asking (i : ℕ) (s : AppState) (record : TokenRecord)
    (events : List (Event (server firstLaunch))) :
    checksOf "tok" (asking i s record ++ events) = checksOf "tok" events := by
  simp [checksOf, asking, event, acceptedCheck]

theorem checksOf_check (i : ℕ) (s : AppState) (now : ℕ)
    (events : List (Event (server firstLaunch))) :
    checksOf "tok" (event i s (.limiterCheck (idOf "tok") now) (.ok ()) :: events) =
      now :: checksOf "tok" events :=
  List.filterMap_cons_some (if_pos bearer_versionRequest)

/-- A request that has read the clock and not yet asked. -/
theorem exists_held (hfresh : w.tasks i = none)
    (hlive : w.shared.tokens.lookup w.shared.now "tok" = .ok record) :
    ∃ v start admitted, Moved (Y := server firstLaunch) i versionRequest w v
      (.call (.limiterCheck (idOf "tok") w.shared.now) (judged start admitted)) w.shared
      (asking i w.shared record) := by
  obtain ⟨admitted, hserve⟩ := serve_versionRequest
  let env : Environment := {}
  have hfound : exec w.shared env (.lookup "tok") = some (.ok record, w.shared) := by
    rw [exec, hlive]
  have hasks : Advances (server firstLaunch) i versionRequest
      ((server firstLaunch).serve versionRequest) w.shared
      (.call (.limiterCheck (idOf "tok") w.shared.now)
        (judged w.shared.now (admitted w.shared.now record)))
      w.shared (asking i w.shared record) := by
    rw [hserve]
    exact .call env rfl (.call env hfound (.call env rfl (.stay _ _)))
  obtain ⟨u, hu⟩ := exists_arrived versionRequest hfresh
  obtain ⟨v, hv⟩ := hasks.moved hu.task hu.shared
  exact ⟨v, _, _, hu.trans hv⟩

/-- The limiter took the reading. -/
def taking (s : AppState) (now : ℕ) : AppState :=
  let bucket := live cutoff (s.limiter (idOf "tok")) now ++ [now]
  { s with limiter := Function.update s.limiter (idOf "tok") bucket }

theorem taking_limiter (s : AppState) (now : ℕ) : (taking s now).limiter (idOf "tok") =
    live cutoff (s.limiter (idOf "tok")) now ++ [now] := by
  simp [taking]

/-- The limiter has room for a request that waits for it. -/
theorem exists_checked {now start : ℕ} {admitted : Server Unit}
    (hi : w.tasks i = some ⟨versionRequest,
      some (.call (.limiterCheck (idOf "tok") now) (judged start admitted))⟩)
    (hroom : hasRoom w.shared.limiter (idOf "tok") now = true) :
    ∃ v, Moved (Y := server firstLaunch) i versionRequest w v admitted (taking w.shared now)
      [event i w.shared (.limiterCheck (idOf "tok") now) (.ok ())] := by
  let env : Environment := {}
  have hexec : exec w.shared env (.limiterCheck (idOf "tok") now) =
      some (.ok (), taking w.shared now) := by
    rw [exec, check_eq, if_pos hroom]
    rfl
  have hcall : Advances (server firstLaunch) i versionRequest
      (.call (.limiterCheck (idOf "tok") now) (judged start admitted)) w.shared admitted _ _ :=
    .call env hexec (.stay _ _)
  exact hcall.moved hi rfl

/-- A request that is admitted. -/
theorem exists_admitted (hfresh : w.tasks i = none)
    (hlive : w.shared.tokens.lookup w.shared.now "tok" = .ok record)
    (hroom : hasRoom w.shared.limiter (idOf "tok") w.shared.now = true) :
    ∃ v admitted, Moved (Y := server firstLaunch) i versionRequest w v admitted
      (taking w.shared w.shared.now)
      (event i w.shared (.limiterCheck (idOf "tok") w.shared.now) (.ok ()) ::
        asking i w.shared record) := by
  obtain ⟨u, start, admitted, hu⟩ := exists_held hfresh hlive
  obtain ⟨v, hv⟩ := exists_checked hu.task (by rw [hu.shared]; exact hroom)
  rw [hu.shared] at hv
  exact ⟨v, admitted, hu.trans hv⟩

/-! ## A token -/

/-- The token stays for some seconds, and nothing was asked with it. -/
def grantedTest (w : World (server firstLaunch)) : Bool :=
  (w.shared.limiter (idOf "tok")).isEmpty && (checksOf "tok" w.events).isEmpty &&
    (w.shared.tokens "tok").any fun record => w.shared.now + 2 * window < record.expires

structure Granted (w : World (server firstLaunch)) : Prop where
  reachable : Reachable (machine (server firstLaunch)) anyStep w
  record : ∃ record, ∀ now ≤ w.shared.now + 2 * window,
    w.shared.tokens.lookup now "tok" = .ok record
  empty : w.shared.limiter (idOf "tok") = []
  untaken : checksOf "tok" w.events = []
  fresh : ∀ j, 1 ≤ j → w.tasks j = none

theorem exists_granted : ∃ w, Granted w := by
  obtain ⟨w, hw, ht⟩ := replay_reaches (machine (server firstLaunch))
    (fun w a => arrivesBelow 1 w a = true) (arrivesBelow 1) (handshakeRun 0 "tok" [.aiProviderCall])
    grantedTest
    (fun _ _ h => h) (by decide +kernel)
  simp only [grantedTest, Bool.and_eq_true, List.isEmpty_iff, Option.any_eq_true,
    decide_eq_true_eq] at ht
  obtain ⟨⟨hempty, huntaken⟩, record, hrecord, hexpires⟩ := ht
  refine ⟨w, hw.unguarded, ⟨record, fun now hnow => ?_⟩, hempty, huntaken, fun j hj => ?_⟩
  · rw [TokenStore.lookup, hrecord]
    exact if_neg (Nat.not_le_of_lt (hnow.trans_lt hexpires))
  · exact tasks_above hw hj

/-! ## Many requests -/

/-- After `n` more requests, numbered from `k` on. -/
structure Burst (k n : ℕ) (w v : World (server firstLaunch)) : Prop where
  run : Run (machine (server firstLaunch)) anyStep w v
  clock : v.shared.now = w.shared.now
  tokens : v.shared.tokens = w.shared.tokens
  bucket : v.shared.limiter (idOf "tok") = List.replicate n w.shared.now
  others : ∀ j < k, v.tasks j = w.tasks j
  fresh : ∀ j, k + n ≤ j → v.tasks j = none
  taken : checksOf "tok" v.events = List.replicate n w.shared.now ++ checksOf "tok" w.events

theorem live_replicate (n now : ℕ) :
    live cutoff (List.replicate n now) now = List.replicate n now := by
  apply live_eq_self
  intro t ht
  rw [List.eq_of_mem_replicate ht]
  exact Nat.sub_le ..

theorem exists_burst {k : ℕ} (hlive : w.shared.tokens.lookup w.shared.now "tok" = .ok record)
    (hempty : w.shared.limiter (idOf "tok") = []) (hfresh : ∀ j, k ≤ j → w.tasks j = none) (n : ℕ)
    (hn : n ≤ rateLimitPerSec) : ∃ v, Burst k n w v := by
  induction n with
  | zero => exact ⟨w, .done w, rfl, rfl, hempty, fun _ _ => rfl, hfresh, rfl⟩
  | succ n ih =>
      obtain ⟨v, hv⟩ := ih (Nat.le_of_succ_le hn)
      have hroom : hasRoom v.shared.limiter (idOf "tok") v.shared.now = true := by
        rw [hasRoom, hv.bucket, hv.clock, live_replicate, List.length_replicate]
        exact decide_eq_true hn
      have hlive' : v.shared.tokens.lookup v.shared.now "tok" = .ok record := by
        rw [hv.tokens, hv.clock, hlive]
      obtain ⟨u, admitted, hu⟩ := exists_admitted (hv.fresh (k + n) (Nat.le_refl _)) hlive' hroom
      refine ⟨u, hv.run.trans hu.run, ?_, ?_, ?_, fun j hj => ?_, fun j hj => ?_, ?_⟩
      · rw [hu.shared]
        exact hv.clock
      · rw [hu.shared]
        exact hv.tokens
      · rw [hu.shared, taking_limiter, hv.bucket, hv.clock, live_replicate, List.replicate_succ']
      · rw [hu.others j (by omega), hv.others j hj]
      · rw [hu.others j (by omega), hv.fresh j (by omega)]
      · rw [hu.events, List.cons_append, checksOf_check, checksOf_asking, hv.taken, hv.clock]
        rfl

end

end Xlpod.Bursts
