import Xlpod.ToolDispatch

/-!
# The chat route

Providers, the cost record of a turn, and `ai_chat` itself: the user's messages
are appended, then up to eight turns each ask the provider, store its message,
record the cost, run the tools it asked for and store their results. The chat
works on a private copy of the history; the transcript it appends to is shared.
-/
namespace Xlpod.ChatRoute
open Xlpod.ApiErrors Xlpod.Auth Xlpod.AiTypes Xlpod.AnthropicWire Xlpod.BundlePayload
open Xlpod.ByteEncodings Xlpod.CostLedger Xlpod.SessionStores Xlpod.ServerState
open Xlpod.ServerCalls Xlpod.ToolDispatch

/-! ## Providers -/

/-- The live provider at some url, or any other implementation of the trait. -/
inductive Provider
  | anthropic (apiUrl : String)
  | external (name : String)

abbrev ProviderRegistry := String → Option Provider

/-- The first `n` bytes of a text, when they end at a character. -/
def slicePrefix : List Char → ℕ → Option (List Char)
  | _, 0 => some []
  | [], _ + 1 => none
  | c :: cs, n =>
      let size := (encodeUtf8 [c]).length
      if size ≤ n then (slicePrefix cs (n - size)).map (c :: ·) else none

def truncateMax : ℕ := 400

/-- `truncate_for_log`; slicing inside a character panics. -/
def truncateForLog (s : List Char) : Option (List Char) :=
  if truncateMax < (encodeUtf8 s).length then (slicePrefix s truncateMax).map (· ++ ['…'])
  else some s

def isSuccess (status : ℕ) : Bool := 200 ≤ status && status < 300

def httpPost (p : AnthropicProvider) (key : String) (body : WireRequest) : HttpPost where
  url := p.apiUrl
  headers := [("x-api-key", key), ("anthropic-version", anthropicApiVersion),
    ("content-type", "application/json")]
  body := body

/-- An error status: its text is read and cut for the log. -/
def upstreamFailure : ExceptT ProviderError Server ProviderTurn := do
  match truncateForLog (← httpText) with
  | none => panicked (α := ProviderTurn)
  | some _ => throw .upstream

def upstreamAnswer : ExceptT ProviderError Server ProviderTurn := do
  let some parsed ← httpJson | throw .decode
  return parsed.intoInternal

/-- `AnthropicProvider::chat`. -/
def anthropicChat (p : AnthropicProvider) (messages : List ChatMessage) (tools : List ToolSpec)
    (maxTokens : Option ℕ) : ExceptT ProviderError Server ProviderTurn := do
  let some (some key) ← keychainRead "anthropic_api_key" | throw .unconfigured
  let body := WireRequest.fromInternal messages tools p.model maxTokens
  let some status ← httpSend (httpPost p key body) | throw .upstream
  if !isSuccess status then upstreamFailure else upstreamAnswer

def Provider.chat (p : Provider) (messages : List ChatMessage) (tools : List ToolSpec)
    (maxTokens : Option ℕ) : Server (Except ProviderError ProviderTurn) :=
  match p with
  | .anthropic apiUrl =>
      (anthropicChat (newAnthropicProvider.withApiUrl apiUrl) messages tools maxTokens).run
  | .external name => externalChat name messages tools maxTokens

def providerError : ProviderError → ApiError
  | .unconfigured => .aiProviderUnconfigured
  | _ => .aiProviderUpstream

/-! ## Cost -/

/-- `CostLedger::record`. -/
def recordCost (provider model : String) (usage : Usage) : Server Unit := do
  let now ← instant
  let call : Call := { provider, model, usage, nowMs := nowMs now, kept := 0 }
  ledgerLock
  let _ ← ledgerWrite call
  ledgerFlush
  ledgerAdd call

/-! ## Chat -/

structure Chat where
  history : List ChatMessage
  finalMessage : ChatMessage
  finalStop : StopReason
  finalUsage : Usage

def maxTurns : ℕ := 8

def providerTurn (provider : Provider) (history : List ChatMessage) (maxTokens : Option ℕ) :
    Handler ProviderTurn := do
  match ← provider.chat history builtinTools maxTokens with
  | .ok turn => return turn
  | .error e => throw (providerError e)

def chatTurns (provider : Provider) (session : Session) (body : ChatRequest Uuid) :
    ℕ → Chat → Handler Chat
  | 0, c => return c
  | n + 1, c => do
      let turn ← providerTurn provider c.history body.maxTokens
      orThrow (appendMessages session.id .provider [turn.message])
      recordCost session.provider session.model turn.usage
      let toolUses := toolUsesOf turn.message.content
      if toolUses.isEmpty then
        return { history := c.history ++ [turn.message]
                 finalMessage := turn.message
                 finalStop := turn.stopReason
                 finalUsage := turn.usage }
      let toolResults ← executeToolUses ⟨session, body.planOnly⟩ toolUses
      let toolMessage : ChatMessage := ⟨.tool, none, toolResults⟩
      orThrow (appendMessages session.id .dispatch [toolMessage])
      chatTurns provider session body n
        { history := c.history ++ [turn.message, toolMessage]
          finalMessage := c.finalMessage
          finalStop := turn.stopReason
          finalUsage := turn.usage }

def startChat (history : List ChatMessage) : Chat where
  history := history
  finalMessage := ⟨.assistant, none, []⟩
  finalStop := .endTurn
  finalUsage := ⟨0, 0, none⟩

def aiChat (providers : ProviderRegistry) (body : ChatRequest Uuid) : Handler ResponseBody := do
  if ← overBudget then throw .aiBudgetExceeded
  let session ← orThrow (getSession body.sessionId)
  let provider ← okOr .aiProviderUnconfigured (providers session.provider)
  orThrow (appendMessages session.id .client body.messages)
  let current ← orThrow (getSession session.id)
  let chat ← chatTurns provider session body maxTurns (startChat current.messages)
  return .chat ⟨session.id, chat.finalMessage, chat.finalStop, chat.finalUsage⟩

end Xlpod.ChatRoute
