import Mathlib.Data.List.Nodup
import Mathlib.Data.Nat.Notation

/-!
# The launcher's errors

One variant for each `code` of the wire schema, with the status and the body
that `into_response` serialises.
-/
namespace Xlpod.ApiErrors

inductive ApiError
  | originNotAllowed
  | hostNotAllowed
  | unauthorized
  | scopeDenied
  | consentDenied
  | rateLimited
  | badRequest
  | reservedScope
  | forbiddenPath
  | pathTooLarge
  | notAFile
  | pathNotFound
  | workerSpawnFailed
  | workerTimeout
  | workerCrashed
  | excelNotAvailable
  | excelNotRunning
  | excelFailed
  | aiProviderUnconfigured
  | aiProviderUpstream
  | aiToolDenied
  | aiConsentDenied
  | aiPlanOnlyViolation
  | aiSessionNotFound
  | aiTrustWindowExpired
  | aiBudgetExceeded
  | bundleNotFound
  | bundleTooLarge
  | bundleCorrupt
  | bundleSchemaMismatch
  | internal
deriving DecidableEq

namespace ApiError

def status : ApiError → ℕ
  | .originNotAllowed | .hostNotAllowed | .scopeDenied | .consentDenied | .aiToolDenied
  | .aiConsentDenied | .aiTrustWindowExpired | .forbiddenPath => 403
  | .unauthorized => 401
  | .rateLimited | .aiBudgetExceeded => 429
  | .badRequest | .reservedScope | .pathTooLarge => 400
  | .notAFile | .pathNotFound | .aiSessionNotFound | .bundleNotFound => 404
  | .bundleTooLarge => 400
  | .bundleCorrupt | .bundleSchemaMismatch => 422
  | .aiProviderUnconfigured => 412
  | .aiProviderUpstream => 502
  | .aiPlanOnlyViolation => 409
  | .workerTimeout => 504
  | .excelNotAvailable | .excelNotRunning => 503
  | .workerSpawnFailed | .workerCrashed | .excelFailed | .internal => 500

/-- The derived `Debug` text, which tool results carry. -/
def debug : ApiError → String
  | .originNotAllowed => "OriginNotAllowed"
  | .hostNotAllowed => "HostNotAllowed"
  | .unauthorized => "Unauthorized"
  | .scopeDenied => "ScopeDenied"
  | .consentDenied => "ConsentDenied"
  | .rateLimited => "RateLimited"
  | .badRequest => "BadRequest"
  | .reservedScope => "ReservedScope"
  | .forbiddenPath => "ForbiddenPath"
  | .pathTooLarge => "PathTooLarge"
  | .notAFile => "NotAFile"
  | .pathNotFound => "PathNotFound"
  | .workerSpawnFailed => "WorkerSpawnFailed"
  | .workerTimeout => "WorkerTimeout"
  | .workerCrashed => "WorkerCrashed"
  | .excelNotAvailable => "ExcelNotAvailable"
  | .excelNotRunning => "ExcelNotRunning"
  | .excelFailed => "ExcelFailed"
  | .aiProviderUnconfigured => "AiProviderUnconfigured"
  | .aiProviderUpstream => "AiProviderUpstream"
  | .aiToolDenied => "AiToolDenied"
  | .aiConsentDenied => "AiConsentDenied"
  | .aiPlanOnlyViolation => "AiPlanOnlyViolation"
  | .aiSessionNotFound => "AiSessionNotFound"
  | .aiTrustWindowExpired => "AiTrustWindowExpired"
  | .aiBudgetExceeded => "AiBudgetExceeded"
  | .bundleNotFound => "BundleNotFound"
  | .bundleTooLarge => "BundleTooLarge"
  | .bundleCorrupt => "BundleCorrupt"
  | .bundleSchemaMismatch => "BundleSchemaMismatch"
  | .internal => "Internal"

structure ErrorBody where
  code : String
  message : String
  hint : Option String
deriving DecidableEq

def body : ApiError → ErrorBody
  | .originNotAllowed => ⟨"origin_not_allowed",
      "request origin is not in the launcher allow-list",
      some "only https://addin.xlwings.org is permitted"⟩
  | .hostNotAllowed => ⟨"host_not_allowed",
      "Host header must be the loopback bind",
      some "dns rebinding defense"⟩
  | .unauthorized => ⟨"unauthorized",
      "missing or invalid bearer token",
      some "call POST /auth/handshake first"⟩
  | .scopeDenied => ⟨"scope_denied", "token does not carry the required scope", none⟩
  | .consentDenied => ⟨"consent_denied",
      "user denied the handshake at the consent dialog",
      some "ask the user to approve in the launcher tray"⟩
  | .rateLimited => ⟨"rate_limited", "too many requests for this token", some "100 req/s per token"⟩
  | .badRequest => ⟨"bad_request", "request payload is malformed", none⟩
  | .reservedScope => ⟨"reserved_scope",
      "requested scope is reserved for a future phase",
      some "ai:* scopes are not active in Phase 1"⟩
  | .forbiddenPath => ⟨"forbidden_path",
      "path is not under any of the token's approved fs roots",
      some "widen fs_roots at handshake time"⟩
  | .pathTooLarge => ⟨"path_too_large",
      "file exceeds the launcher's read size limit",
      some "Phase 3 cap is 10 MiB"⟩
  | .notAFile => ⟨"not_a_file", "path exists but is not a regular file", none⟩
  | .pathNotFound => ⟨"path_not_found", "path does not exist", none⟩
  | .workerSpawnFailed => ⟨"worker_spawn_failed",
      "could not start the python worker process",
      some "install python on PATH or set XLPOD_PYTHON"⟩
  | .workerTimeout => ⟨"worker_timeout",
      "worker exceeded the wall-clock cap and was killed",
      some "default cap is 30 seconds; the next call gets a fresh worker"⟩
  | .workerCrashed => ⟨"worker_crashed",
      "worker died mid-call",
      some "the next call will spawn a fresh worker"⟩
  | .excelNotAvailable => ⟨"excel_not_available",
      "the worker's Python does not have pywin32 installed",
      some "pip install pywin32 into the worker interpreter, or use XLPOD_PYTHON"⟩
  | .excelNotRunning => ⟨"excel_not_running",
      "no running Excel instance to attach to",
      some "open Excel and a workbook, then retry"⟩
  | .excelFailed => ⟨"excel_failed", "Excel COM call raised an exception", none⟩
  | .aiProviderUnconfigured => ⟨"ai_provider_unconfigured",
      "no API key for the requested provider in the OS keychain",
      some "POST /ai/providers/key with the user's consent first"⟩
  | .aiProviderUpstream => ⟨"ai_provider_upstream", "the AI provider returned an error", none⟩
  | .aiToolDenied => ⟨"ai_tool_denied",
      "the AI internal bearer does not carry the scope this tool requires",
      some "widen the user's scopes at session open time"⟩
  | .aiConsentDenied => ⟨"ai_consent_denied",
      "user denied the per-call consent for an AI tool",
      none⟩
  | .aiPlanOnlyViolation => ⟨"ai_plan_only_violation",
      "model called a mutating tool while plan_only=true is set",
      some "clear plan_only to apply, or accept the planned diff"⟩
  | .aiSessionNotFound => ⟨"ai_session_not_found",
      "no session with that id (expired or never created)",
      none⟩
  | .aiTrustWindowExpired => ⟨"ai_trust_window_expired",
      "the trust window has expired or was revoked",
      some "open a new window via POST /ai/consent/window"⟩
  | .aiBudgetExceeded => ⟨"ai_budget_exceeded",
      "today's AI spend cap has been hit",
      some "raise XLPOD_DAILY_BUDGET_MICROS or wait until tomorrow"⟩
  | .bundleNotFound => ⟨"bundle_not_found",
      "the workbook is a valid xlsx but does not contain an xlpod bundle",
      none⟩
  | .bundleTooLarge => ⟨"bundle_too_large", "bundle exceeds the 64 MiB cap", none⟩
  | .bundleCorrupt => ⟨"bundle_corrupt", "bundle JSON or zip is malformed", none⟩
  | .bundleSchemaMismatch => ⟨"bundle_schema_mismatch",
      "bundle schema_version is newer than this launcher knows",
      some "update xlpod-launcher"⟩
  | .internal => ⟨"internal", "internal server error", none⟩

/-- Every error answers with a client or server error status. -/
theorem status_range (e : ApiError) : 400 ≤ e.status ∧ e.status < 600 := by
  cases e <;> decide

def variants : List ApiError :=
  [.originNotAllowed, .hostNotAllowed, .unauthorized, .scopeDenied, .consentDenied, .rateLimited,
    .badRequest, .reservedScope, .forbiddenPath, .pathTooLarge, .notAFile, .pathNotFound,
    .workerSpawnFailed, .workerTimeout, .workerCrashed, .excelNotAvailable, .excelNotRunning,
    .excelFailed, .aiProviderUnconfigured, .aiProviderUpstream, .aiToolDenied, .aiConsentDenied,
    .aiPlanOnlyViolation, .aiSessionNotFound, .aiTrustWindowExpired, .aiBudgetExceeded,
    .bundleNotFound, .bundleTooLarge, .bundleCorrupt, .bundleSchemaMismatch, .internal]

theorem mem_variants (e : ApiError) : e ∈ variants := by
  cases e <;> decide

/-- The code on the wire tells the variants apart. -/
theorem code_injective (a b : ApiError) (h : a.body.code = b.body.code) : a = b := by
  have hcodes : (variants.map fun e => e.body.code).Nodup := by decide +kernel
  exact List.inj_on_of_nodup_map hcodes (mem_variants a) (mem_variants b) h

end ApiError

end Xlpod.ApiErrors
