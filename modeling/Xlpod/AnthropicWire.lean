import Xlpod.AiTypes

/-!
# The Anthropic wire types

The request body that `AnthropicProvider` posts, built from the history and the
tool registry, and the response body it expects, turned into a provider turn.
Decoding the response text into `WireResponse` is left to the environment.
-/
namespace Xlpod.AnthropicWire
open Xlpod.AiTypes Xlpod.BundlePayload Xlpod.ByteEncodings Xlpod.CostLedger Xlpod.JsonText

def defaultModel : String := "claude-opus-4-6"

def anthropicApiVersion : String := "2023-06-01"

def anthropicMessagesUrl : String := "https://api.anthropic.com/v1/messages"

structure AnthropicProvider where
  model : String
  apiUrl : String

/-- `AnthropicProvider::new`; the keychain and the client are the server's. -/
def newAnthropicProvider : AnthropicProvider where
  model := defaultModel
  apiUrl := anthropicMessagesUrl

/-- The only field a caller can change. -/
def AnthropicProvider.withApiUrl (p : AnthropicProvider) (url : String) : AnthropicProvider :=
  { p with apiUrl := url }

/-! ## Requests -/

inductive WireContent
  | text (text : String)
  | toolUse (id name : String) (input : PyJson)
  | toolResult (toolUseId content : String)

def WireContent.fromInternal : ContentBlock → WireContent
  | .text s => .text s
  | .toolUse id name input => .toolUse id name input
  | .toolResult toolUseId _ output _ =>
      .toolResult toolUseId (String.ofList (render rustWriter output))

structure WireMessage where
  role : String
  content : List WireContent

def WireMessage.fromInternal (msg : ChatMessage) : WireMessage where
  role := match msg.role with
    | .system => "user"
    | .user | .tool => "user"
    | .assistant => "assistant"
  content := msg.content.map WireContent.fromInternal

structure WireTool where
  name : String
  description : String
  inputSchema : PyJson

def WireTool.fromInternal (t : ToolSpec) : WireTool where
  name := t.name
  description := t.description
  inputSchema := t.inputSchema

structure WireRequest where
  model : String
  maxTokens : ℕ
  messages : List WireMessage
  tools : List WireTool

def WireRequest.fromInternal (messages : List ChatMessage) (tools : List ToolSpec)
    (model : String) (maxTokens : Option ℕ) : WireRequest where
  model := model
  maxTokens := maxTokens.getD 1024
  messages := messages.map WireMessage.fromInternal
  tools := tools.map WireTool.fromInternal

/-- An HTTP request as it leaves the launcher. -/
structure HttpPost where
  url : String
  headers : List (String × String)
  body : WireRequest

/-- `HeaderValue::from_bytes` takes it: no control character but the tab. -/
def legalHeaderValue (value : String) : Bool :=
  (encodeUtf8 value.toList).all fun b => (32 ≤ b && b ≠ 127) || b = 9

/-- `send` fails at once when a header could not be built. -/
def HttpPost.legal (post : HttpPost) : Bool := post.headers.all fun h => legalHeaderValue h.2

/-! ## Responses -/

inductive WireRespBlock
  | text (text : String)
  | toolUse (id name : String) (input : PyJson)

structure WireUsage where
  inputTokens : UInt64
  outputTokens : UInt64

structure WireResponse where
  content : List WireRespBlock
  stopReason : Option String
  usage : Option WireUsage

def WireRespBlock.intoInternal : WireRespBlock → ContentBlock
  | .text s => .text s
  | .toolUse id name input => .toolUse id name input

def WireUsage.intoInternal (u : WireUsage) : Usage where
  inputTokens := u.inputTokens
  outputTokens := u.outputTokens
  cachedInputTokens := none

def WireResponse.intoInternal (w : WireResponse) : ProviderTurn where
  message := ⟨.assistant, none, w.content.map WireRespBlock.intoInternal⟩
  stopReason := if w.stopReason = some "max_tokens" then .maxTokens else .endTurn
  usage := (w.usage.map WireUsage.intoInternal).getD ⟨0, 0, none⟩

end Xlpod.AnthropicWire
