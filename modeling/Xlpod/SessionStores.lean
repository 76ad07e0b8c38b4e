import Xlpod.AiTypes

/-!
# Sessions and trust windows

The two stores of the AI bridge. A session is opened once, looked up by value
and never removed; only its transcript grows. Every stored message keeps who
appended it, the client, the provider or the dispatcher: the source does not
store this, and no function of the model reads it.

A trust window belongs to a session and lives until its expiry. The store can
drop all windows of a session, which nothing in the launcher calls.
-/
namespace Xlpod.SessionStores
open Xlpod.ApiErrors Xlpod.Auth Xlpod.AiTypes

abbrev Uuid := ℕ

/-- The hyphenated text of a 128-bit id. -/
def uuidText (id : Uuid) : String :=
  let digits := Nat.toDigits 16 (id % 2 ^ 128)
  let hex := List.replicate (32 - digits.length) '0' ++ digits
  String.ofList (hex.take 8 ++ '-' :: ((hex.drop 8).take 4 ++ '-' :: ((hex.drop 12).take 4 ++
    '-' :: ((hex.drop 16).take 4 ++ '-' :: hex.drop 20))))

example : uuidText 0x0123456789abcdef0000000000000abc = "01234567-89ab-cdef-0000-000000000abc" := by
  decide

def nanosPerMilli : ℕ := 1000000

def nowMs (now : ℕ) : ℕ := now / nanosPerMilli

/-! ## Sessions -/

inductive Author
  | client
  | provider
  | dispatch
deriving DecidableEq

structure Entry where
  author : Author
  message : ChatMessage

structure Session where
  id : Uuid
  provider : String
  model : String
  internalBearer : String
  grantedScopes : List Scope
  fsRoots : List PathBuf
  transcript : List Entry
  openedMs : ℕ

def Session.messages (s : Session) : List ChatMessage := s.transcript.map Entry.message

abbrev SessionStore := Uuid → Option Session

def newSession (id : Uuid) (now : ℕ) (provider model internalBearer : String)
    (grantedScopes : List Scope) (fsRoots : List PathBuf) : Session where
  id := id
  provider := provider
  model := model
  internalBearer := internalBearer
  grantedScopes := grantedScopes
  fsRoots := fsRoots
  transcript := []
  openedMs := nowMs now

def SessionStore.insert (s : SessionStore) (session : Session) : SessionStore :=
  Function.update s session.id (some session)

def SessionStore.get (s : SessionStore) (id : Uuid) : Except ApiError Session :=
  match s id with
  | some session => .ok session
  | none => .error .aiSessionNotFound

def SessionStore.appendMessages (s : SessionStore) (id : Uuid) (author : Author)
    (newMessages : List ChatMessage) : Except ApiError Unit × SessionStore :=
  match s id with
  | none => (.error .aiSessionNotFound, s)
  | some session =>
      (.ok (), Function.update s id
        (some { session with transcript := session.transcript ++ newMessages.map (⟨author, ·⟩) }))

theorem SessionStore.get_ok {s : SessionStore} {id : Uuid} {session : Session} :
    s.get id = .ok session ↔ s id = some session := by
  unfold SessionStore.get
  cases s id <;> simp

theorem SessionStore.appendMessages_some {s : SessionStore} {id : Uuid} {session : Session}
    (h : s id = some session) (author : Author) (newMessages : List ChatMessage) :
    s.appendMessages id author newMessages = (.ok (), Function.update s id
      (some { session with
        transcript := session.transcript ++ newMessages.map (⟨author, ·⟩) })) := by
  simp only [SessionStore.appendMessages, h]

/-! ## Trust windows -/

structure TrustWindow where
  id : Uuid
  sessionId : Uuid
  tools : List String
  expiresMs : ℕ
deriving DecidableEq

def TrustWindow.live (w : TrustWindow) (now : ℕ) : Bool := nowMs now < w.expiresMs

def TrustWindow.covers (w : TrustWindow) (now : ℕ) (tool : String) : Bool :=
  w.live now && w.tools.contains tool

abbrev TrustWindowStore := List TrustWindow

def maxDurationSecs : ℕ := 3600

def newWindow (id : Uuid) (now : ℕ) (sessionId : Uuid) (tools : List String)
    (durationSecs : ℕ) : TrustWindow where
  id := id
  sessionId := sessionId
  tools := tools
  expiresMs := nowMs now + min durationSecs maxDurationSecs * 1000

def TrustWindowStore.covers (s : TrustWindowStore) (now : ℕ) (sessionId : Uuid)
    (tool : String) : Bool :=
  s.any fun w => w.sessionId = sessionId && w.covers now tool

def TrustWindowStore.revokeSession (s : TrustWindowStore) (sessionId : Uuid) : TrustWindowStore :=
  s.filter fun w => w.sessionId ≠ sessionId

theorem TrustWindowStore.covers_iff {s : TrustWindowStore} {now : ℕ} {sessionId : Uuid}
    {tool : String} : s.covers now sessionId tool = true ↔
      ∃ w ∈ s, w.sessionId = sessionId ∧ w.live now = true ∧ tool ∈ w.tools := by
  simp [TrustWindowStore.covers, TrustWindow.covers]

/-- What the documented revocation would achieve. -/
theorem TrustWindowStore.covers_revokeSession (s : TrustWindowStore) (now : ℕ) (sessionId : Uuid)
    (tool : String) : (s.revokeSession sessionId).covers now sessionId tool = false := by
  simp [TrustWindowStore.covers, TrustWindowStore.revokeSession]
  grind

/-- A window that is dead stays dead. -/
theorem TrustWindow.live_anti {w : TrustWindow} {now later : ℕ} (h : now ≤ later)
    (hl : w.live later = true) : w.live now = true := by
  simp only [TrustWindow.live, decide_eq_true_eq] at *
  exact lt_of_le_of_lt (Nat.div_le_div_right h) hl

end Xlpod.SessionStores
