import Xlpod.ApiErrors

/-!
# Tokens, scopes and the rate limiter

`TokenStore` maps a token to the record of its handshake and refuses expired
ones; `RateLimiter` keeps one window of recent instants for each token id. Both
run under a lock, so their methods are functions on the store. Instants are
nanoseconds of one monotone clock.
-/
namespace Xlpod.Auth
open Xlpod.ApiErrors

inductive Scope
  | fsRead
  | fsWrite
  | runPython
  | excelCom
  | aiProviderCall
  | aiCodegenWrite
  | aiExecPython
  | bundleRead
  | bundleWrite
deriving DecidableEq

/-- Phase 8 activated all scopes. -/
def Scope.isReserved (_ : Scope) : Bool := false

/-- The derived `Debug` text. -/
def Scope.debug : Scope → String
  | .fsRead => "FsRead"
  | .fsWrite => "FsWrite"
  | .runPython => "RunPython"
  | .excelCom => "ExcelCom"
  | .aiProviderCall => "AiProviderCall"
  | .aiCodegenWrite => "AiCodegenWrite"
  | .aiExecPython => "AiExecPython"
  | .bundleRead => "BundleRead"
  | .bundleWrite => "BundleWrite"

/-- A path as the system displays it, with the components it splits into. -/
structure PathBuf where
  text : String
  components : List String
deriving DecidableEq

def PathBuf.startsWith (p root : PathBuf) : Bool := root.components.isPrefixOf p.components

theorem PathBuf.startsWith_trans {p q r : PathBuf} (hpq : p.startsWith q = true)
    (hqr : q.startsWith r = true) : p.startsWith r = true := by
  rw [PathBuf.startsWith, List.isPrefixOf_iff_prefix] at *
  exact hqr.trans hpq

/-! ## Tokens -/

def nanosPerSec : ℕ := 1000000000

def tokenTtlSecs : ℕ := 3600

structure TokenRecord where
  scopes : List Scope
  fsRoots : List PathBuf
  created : ℕ
  expires : ℕ
deriving DecidableEq

abbrev TokenStore := String → Option TokenRecord

def newRecord (now : ℕ) (scopes : List Scope) (fsRoots : List PathBuf) : TokenRecord where
  scopes := scopes
  fsRoots := fsRoots
  created := now
  expires := now + tokenTtlSecs * nanosPerSec

def TokenStore.lookup (s : TokenStore) (now : ℕ) (token : String) : Except ApiError TokenRecord :=
  match s token with
  | none => .error .unauthorized
  | some record => if record.expires ≤ now then .error .unauthorized else .ok record

/-- First 8 hex chars of a token. -/
def idOf (token : String) : String := String.ofList (token.toList.take 8)

theorem lookup_ok {s : TokenStore} {now : ℕ} {token : String} {record : TokenRecord}
    (h : s.lookup now token = .ok record) : s token = some record ∧ now < record.expires := by
  unfold TokenStore.lookup at h
  split at h
  · cases h
  · next hs =>
      split at h <;> cases h
      next hlt => exact ⟨hs, Nat.lt_of_not_le hlt⟩

/-! ## The rate limiter -/

def rateLimitPerSec : ℕ := 100

def window : ℕ := nanosPerSec

abbrev RateLimiter := String → List ℕ

/-- `check` once the clock is read: the bucket loses its expired front, and
takes the instant when there is room. -/
def RateLimiter.check (l : RateLimiter) (key : String) (now : ℕ) :
    Except ApiError Unit × RateLimiter :=
  let bucket := (l key).dropWhile (· < now - window)
  if rateLimitPerSec ≤ bucket.length then
    (.error .rateLimited, fun k => if k = key then bucket else l k)
  else (.ok (), fun k => if k = key then bucket ++ [now] else l k)

end Xlpod.Auth
