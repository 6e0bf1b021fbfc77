import Emelex.Engine.ChatHistory
import Mathlib.Data.List.Sort
import Mathlib.Data.String.Basic

/-!
# Requests for a generation (`generation/mod.rs`, `json/mod.rs`)

* `Message`, `ToolDefinition` — what a caller sends.
* `validateRequestShape` — the checks of a conversation as a whole: sizes, and calls with results.
* `Message.intoEngine` — the checks of one message, and the message of the engine.

The size of a value as `serde_json` writes it is an argument.  A size is a `usize`; an addition that
overflows is an error or saturates, as in the source.

Principal definitions: `validateRequestShape`, `Message.intoEngine`.
-/

set_option autoImplicit false

namespace Emelex

open Checks

namespace Generation

def MAX_MESSAGES : Nat := 4096
def MAX_TOOLS : Nat := 256
def MAX_TOOL_CALLS : Nat := 4096
def MAX_MESSAGE_CONTENT_PARTS : Nat := 1024
def MAX_TOTAL_CONTENT_PARTS : Nat := 16384
def MAX_MEDIA_PARTS : Nat := 64
def MAX_TOTAL_CONTENT_BYTES : Nat := 268435456
def MAX_MESSAGE_CONTENT_BYTES : Nat := 134217728
def MAX_REASONING_BYTES : Nat := 16777216
def MAX_TOTAL_REASONING_BYTES : Nat := 67108864
def MAX_TOOL_CALL_ID_BYTES : Nat := 256
def MAX_TOOL_ARGUMENT_BYTES : Nat := 1048576
def MAX_TOTAL_TOOL_ARGUMENT_BYTES : Nat := 8388608
def MAX_TOTAL_PROTOCOL_METADATA_BYTES : Nat := 2097152
def MAX_TOOL_DESCRIPTION_BYTES : Nat := 16384
def MAX_TOTAL_TOOL_DESCRIPTION_BYTES : Nat := 1048576
def MAX_TOOL_SCHEMA_BYTES : Nat := 1048576
def MAX_TOTAL_TOOL_SCHEMA_BYTES : Nat := 8388608
def MAX_DEPTH : Nat := 64
def MAX_NODES : Nat := 65536
def USIZE_MAX : Nat := 18446744073709551615

/-- `error::Error`, as far as requests go. -/
inductive RequestError where
  | invalidRequest (message : String)
  | unsupportedContent (message : String)
deriving DecidableEq, Repr

/-- `Role`. -/
inductive Role where
  | system
  | user
  | assistant
  | tool
deriving DecidableEq, Repr

/-- `Role::as_str`. -/
def Role.asStr : Role → String
  | .system => "system"
  | .user => "user"
  | .assistant => "assistant"
  | .tool => "tool"

/-- `Content`. -/
inductive Content where
  | text (text : String)
  | image (data : List UInt8)
  | audio (data : List UInt8)
  | video (data : List UInt8)
  | translation (sourceLang targetLang text : String)
deriving DecidableEq

/-- `Message`. -/
structure Message where
  role : Role
  content : List Content
  toolCalls : List ToolCall
  toolCallId : Option String
  reasoning : Option String

/-- `ToolDefinition`. -/
structure ToolDefinition where
  name : String
  description : String
  parameters : Json

/-! ## Sizes -/

/-- `checked_add`. -/
def checkedAdd (a b : Nat) (message : String) : Except RequestError Nat := do
  ensure (a + b ≤ USIZE_MAX) (.invalidRequest message)
  return a + b

/-- `saturating_add`. -/
def saturatingAdd (a b : Nat) : Nat := min (a + b) USIZE_MAX

/-- The bytes of a part. -/
def Content.bytes : Content → Nat
  | .text value => value.utf8ByteSize
  | .image data | .audio data | .video data => data.length
  | .translation sourceLang targetLang value =>
    saturatingAdd (saturatingAdd sourceLang.utf8ByteSize targetLang.utf8ByteSize)
      value.utf8ByteSize

def Content.isMedia : Content → Bool
  | .image _ | .audio _ | .video _ => true
  | .text _ | .translation .. => false

/-- The loop of `structurally_bounded`, with so many nodes left. -/
def structurallyBoundedFrom : Nat → List (Json × Nat) → Bool
  | _, [] => true
  | 0, _ :: _ => false
  | left + 1, (value, depth) :: pending =>
    if MAX_DEPTH < depth then false
    else match value with
      | .array values =>
        if left - pending.length < values.length then false
        else structurallyBoundedFrom left
          ((values.map fun value => (value, depth + 1)).reverse ++ pending)
      | .object fields =>
        if left - pending.length < fields.length then false
        else structurallyBoundedFrom left
          ((fields.map fun field => (field.2, depth + 1)).reverse ++ pending)
      | _ => structurallyBoundedFrom left pending

/-- `structurally_bounded`. -/
def structurallyBounded (value : Json) : Bool := structurallyBoundedFrom MAX_NODES [(value, 0)]

/-- `bounded_json_len`. -/
def boundedJsonLen (jsonLen : Json → Nat) (value : Json) (limit : Nat) : Option Nat :=
  if structurallyBounded value ∧ jsonLen value ≤ limit then some (jsonLen value) else none

/-! ## Names and texts -/

/-- `validate_tool_name`. -/
def validateToolName (name : String) : Except RequestError Unit :=
  ensure (name ≠ "" ∧ name.utf8ByteSize ≤ 64 ∧
      name.toList.all (fun c => c.isAlphanum || c = '_' || c = '-') = true)
    (.invalidRequest
      s!"invalid tool name {name.quote}; use 1-64 ASCII letters, digits, '_' or '-'")

/-- `validate_bounded_protocol_text`. -/
def validateBoundedProtocolText (label value : String) (maximum : Nat) :
    Except RequestError Unit := do
  ensure (value.utf8ByteSize ≤ maximum) (.invalidRequest s!"{label} exceeds {maximum} bytes")
  ensure (Text.trim value.toList ≠ []) (.invalidRequest s!"{label} cannot be empty")
  ensure (value.toList.any isControl = false)
    (.invalidRequest s!"{label} cannot contain control characters")

/-- `validate_bounded_generated_text`. -/
def validateBoundedGeneratedText (label value : String) (maximum : Nat) :
    Except RequestError Unit := do
  ensure (value ≠ "") (.invalidRequest s!"{label} cannot be empty")
  ensure (value.utf8ByteSize ≤ maximum) (.invalidRequest s!"{label} exceeds {maximum} bytes")
  ensure (value.toList.any (fun c => isControl c && c ∉ ['\n', '\r', '\t']) = false)
    (.invalidRequest s!"{label} contains an unsupported control character")

/-! ## The conversation -/

/-- The aggregate counters. -/
structure Counters where
  contentBytes : Nat
  contentParts : Nat
  reasoningBytes : Nat
  mediaParts : Nat
  toolCalls : Nat
  toolArgumentBytes : Nat
  protocolMetadataBytes : Nat

/-- The calls that were made, and those without a result. -/
structure Protocol where
  seenCallIds : List String
  pending : List (String × String)

/-- The state of the pass over the messages. -/
structure Pass where
  counters : Counters
  protocol : Protocol
  sawNonSystem : Bool

def Pass.start : Pass where
  counters := ⟨0, 0, 0, 0, 0, 0, 0⟩
  protocol := ⟨[], []⟩
  sawNonSystem := false

/-- `pending.insert(id, name)`. -/
def insertPending (pending : List (String × String)) (id name : String) :
    List (String × String) :=
  pending.filter (fun entry => entry.1 ≠ id) ++ [(id, name)]

/-- `pending.remove(id)`. -/
def removePending (pending : List (String × String)) (id : String) : List (String × String) :=
  pending.filter fun entry => entry.1 ≠ id

/-- `pending.keys().join(", ")`. -/
def pendingIds (pending : List (String × String)) : String :=
  ", ".intercalate ((pending.map Prod.fst).insertionSort (· ≤ ·))

/-- One part of a message; the number counts the bytes of the message. -/
def countPart (total : Counters × Nat) (part : Content) : Except RequestError (Counters × Nat) := do
  let (counters, messageContentBytes) := total
  let mediaParts ← if part.isMedia then
      checkedAdd counters.mediaParts 1 "media part count overflow"
    else pure counters.mediaParts
  let contentBytes ← checkedAdd counters.contentBytes part.bytes "conversation content size overflow"
  let messageContentBytes ← checkedAdd messageContentBytes part.bytes
    "message content size overflow"
  ensure (messageContentBytes ≤ MAX_MESSAGE_CONTENT_BYTES)
    (.invalidRequest "one message cannot exceed 128 MiB")
  return ({ counters with mediaParts, contentBytes }, messageContentBytes)

/-- The reasoning of a message. -/
def countReasoning (counters : Counters) : Option String → Except RequestError Counters
  | none => .ok counters
  | some reasoning => do
    validateBoundedGeneratedText "assistant reasoning" reasoning MAX_REASONING_BYTES
    let reasoningBytes ← checkedAdd counters.reasoningBytes reasoning.utf8ByteSize
      "conversation reasoning size overflow"
    ensure (reasoningBytes ≤ MAX_TOTAL_REASONING_BYTES)
      (.invalidRequest "conversation reasoning cannot exceed 64 MiB")
    return { counters with reasoningBytes }

/-- The identifier of the call that a message answers. -/
def countCallId (counters : Counters) : Option String → Except RequestError Counters
  | none => .ok counters
  | some callId => do
    validateBoundedProtocolText "tool result ID" callId MAX_TOOL_CALL_ID_BYTES
    let protocolMetadataBytes ← checkedAdd counters.protocolMetadataBytes callId.utf8ByteSize
      "protocol metadata size overflow"
    return { counters with protocolMetadataBytes }

/-- One call of a message. -/
def countCall (jsonLen : Json → Nat) (declaredToolNames : List String)
    (total : Counters × Protocol) (call : ToolCall) : Except RequestError (Counters × Protocol) := do
  let (counters, protocol) := total
  ensure (call.name ∈ declaredToolNames) (.invalidRequest
    s!"tool call {call.id.quote} references undeclared tool {call.name.quote}")
  let toolCalls ← checkedAdd counters.toolCalls 1 "tool call count overflow"
  ensure (toolCalls ≤ MAX_TOOL_CALLS)
    (.invalidRequest s!"conversation accepts at most {MAX_TOOL_CALLS} tool calls")
  ensure (call.id ∉ protocol.seenCallIds)
    (.invalidRequest s!"duplicate tool call ID {call.id.quote} across conversation")
  validateBoundedProtocolText "tool call ID" call.id MAX_TOOL_CALL_ID_BYTES
  validateToolName call.name
  let withId ← checkedAdd counters.protocolMetadataBytes call.id.utf8ByteSize
    "protocol metadata size overflow"
  let protocolMetadataBytes ← checkedAdd withId call.name.utf8ByteSize
    "protocol metadata size overflow"
  let argumentBytes ← required
    (.invalidRequest s!"tool call {call.id.quote} arguments exceed 1 MiB")
    (boundedJsonLen jsonLen call.arguments MAX_TOOL_ARGUMENT_BYTES)
  let toolArgumentBytes ← checkedAdd counters.toolArgumentBytes argumentBytes
    "tool argument size overflow"
  ensure (toolArgumentBytes ≤ MAX_TOTAL_TOOL_ARGUMENT_BYTES)
    (.invalidRequest "aggregate tool-call arguments cannot exceed 8 MiB")
  return ({ counters with toolCalls, protocolMetadataBytes, toolArgumentBytes },
    { seenCallIds := call.id :: protocol.seenCallIds
      pending := insertPending protocol.pending call.id call.name })

/-- The result that a message is, if it is one. -/
def answerCall (protocol : Protocol) (message : Message) : Except RequestError Protocol :=
  if message.role = .tool then do
    let callId := message.toolCallId.getD ""
    ensure ((protocol.pending.lookup callId).isSome) (.invalidRequest
      s!"tool result references unknown or already answered call ID {callId.quote}")
    return { protocol with pending := removePending protocol.pending callId }
  else .ok protocol

/-- One message. -/
def validateMessage (jsonLen : Json → Nat) (declaredToolNames : List String) (pass : Pass)
    (message : Message) : Except RequestError Pass := do
  ensure (message.content.length ≤ MAX_MESSAGE_CONTENT_PARTS) (.invalidRequest
    s!"one message accepts at most {MAX_MESSAGE_CONTENT_PARTS} content parts")
  let contentParts ← checkedAdd pass.counters.contentParts message.content.length
    "content part count overflow"
  ensure (contentParts ≤ MAX_TOTAL_CONTENT_PARTS) (.invalidRequest
    s!"conversation accepts at most {MAX_TOTAL_CONTENT_PARTS} content parts")
  ensure (message.role = .system → pass.sawNonSystem = false)
    (.invalidRequest "system messages must precede conversation turns")
  ensure (message.role ≠ .tool → pass.protocol.pending = []) (.invalidRequest
    s!"conversation continues before tool result(s) for {pendingIds pass.protocol.pending}")
  let (counters, _) ← message.content.foldlM countPart ({ pass.counters with contentParts }, 0)
  let counters ← countReasoning counters message.reasoning
  let counters ← countCallId counters message.toolCallId
  ensure (counters.mediaParts ≤ MAX_MEDIA_PARTS)
    (.invalidRequest s!"generation accepts at most {MAX_MEDIA_PARTS} media parts")
  ensure (counters.contentBytes ≤ MAX_TOTAL_CONTENT_BYTES)
    (.invalidRequest "conversation content cannot exceed 256 MiB")
  let (counters, protocol) ← message.toolCalls.foldlM (countCall jsonLen declaredToolNames)
    (counters, pass.protocol)
  let protocol ← answerCall protocol message
  return { counters, protocol, sawNonSystem := pass.sawNonSystem || message.role ≠ .system }

/-- The counters of the tools: the metadata, the descriptions and the schemas. -/
structure ToolCounters where
  protocolMetadataBytes : Nat
  descriptionBytes : Nat
  schemaBytes : Nat

/-- One tool. -/
def countTool (jsonLen : Json → Nat) (counters : ToolCounters) (tool : ToolDefinition) :
    Except RequestError ToolCounters := do
  let protocolMetadataBytes ← checkedAdd counters.protocolMetadataBytes tool.name.utf8ByteSize
    "protocol metadata size overflow"
  ensure (tool.description.utf8ByteSize ≤ MAX_TOOL_DESCRIPTION_BYTES)
    (.invalidRequest s!"tool {tool.name.quote} description exceeds 16 KiB")
  let descriptionBytes ← checkedAdd counters.descriptionBytes tool.description.utf8ByteSize
    "tool description size overflow"
  let bytes ← required (.invalidRequest s!"tool {tool.name.quote} schema exceeds 1 MiB")
    (boundedJsonLen jsonLen tool.parameters MAX_TOOL_SCHEMA_BYTES)
  let schemaBytes ← checkedAdd counters.schemaBytes bytes "tool schema size overflow"
  return { protocolMetadataBytes, descriptionBytes, schemaBytes }

/-- `validate_request_shape`. -/
def validateRequestShape (jsonLen : Json → Nat) (messages : List Message)
    (tools : List ToolDefinition) : Except RequestError Unit := do
  ensure (messages.length ≤ MAX_MESSAGES)
    (.invalidRequest s!"generation accepts at most {MAX_MESSAGES} messages")
  ensure (tools.length ≤ MAX_TOOLS)
    (.invalidRequest s!"generation accepts at most {MAX_TOOLS} tools")
  let pass ← messages.foldlM (validateMessage jsonLen (tools.map ToolDefinition.name)) Pass.start
  ensure (pass.counters.protocolMetadataBytes ≤ MAX_TOTAL_PROTOCOL_METADATA_BYTES)
    (.invalidRequest "aggregate protocol metadata cannot exceed 2 MiB")
  ensure (pass.protocol.pending = []) (.invalidRequest
    s!"conversation has unresolved tool call(s): {pendingIds pass.protocol.pending}")
  let counters ← tools.foldlM (countTool jsonLen) ⟨pass.counters.protocolMetadataBytes, 0, 0⟩
  ensure (counters.descriptionBytes ≤ MAX_TOTAL_TOOL_DESCRIPTION_BYTES)
    (.invalidRequest "aggregate tool descriptions cannot exceed 1 MiB")
  ensure (counters.schemaBytes ≤ MAX_TOTAL_TOOL_SCHEMA_BYTES)
    (.invalidRequest "aggregate tool schemas cannot exceed 8 MiB")
  ensure (counters.protocolMetadataBytes ≤ MAX_TOTAL_PROTOCOL_METADATA_BYTES)
    (.invalidRequest "aggregate protocol metadata cannot exceed 2 MiB")

/-! ## Messages of the engine -/

/-- `Content::into_engine`. -/
def Content.intoEngine : Content → ContentPart
  | .text value => .text value
  | .image data => .image data
  | .audio data => .audio data
  | .video data => .video data
  | .translation sourceLang targetLang value => .translation sourceLang targetLang value

/-- The check of the reasoning of one message. -/
def checkReasoning : Option String → Except RequestError Unit
  | none => .ok ()
  | some reasoning =>
    validateBoundedGeneratedText "assistant reasoning" reasoning MAX_REASONING_BYTES

/-- The checks of one call. -/
def checkCall (jsonLen : Json → Nat) (callIds : List String) (call : ToolCall) :
    Except RequestError (List String) := do
  validateToolName call.name
  validateBoundedProtocolText "tool call ID" call.id MAX_TOOL_CALL_ID_BYTES
  ensure (call.id ∉ callIds) (.invalidRequest s!"duplicate tool call ID {call.id.quote}")
  ensure (call.arguments.asObject.isSome)
    (.invalidRequest s!"tool call {call.id.quote} arguments must be a JSON object")
  ensure ((boundedJsonLen jsonLen call.arguments MAX_TOOL_ARGUMENT_BYTES).isSome)
    (.invalidRequest s!"tool call {call.id.quote} arguments exceed 1 MiB")
  return call.id :: callIds

/-- Whether a part may stand in a message of a role. -/
def admitPart (role : Role) (supportsImages supportsAudio : Bool) :
    Content → Except RequestError Unit
  | .video _ => .error (.unsupportedContent "self-contained video decoding is not available")
  | .image _ => do
    ensure (role = .user) (.invalidRequest "media content is valid only on user messages")
    ensure (supportsImages = true)
      (.unsupportedContent "loaded model does not support image input")
  | .audio _ => do
    ensure (role = .user) (.invalidRequest "media content is valid only on user messages")
    ensure (supportsAudio = true)
      (.unsupportedContent "loaded model does not support audio input")
  | .translation sourceLang targetLang value => do
    ensure (Text.trim sourceLang.toList ≠ [] ∧ Text.trim targetLang.toList ≠ []) (.invalidRequest
      "translation content requires non-empty source and target language codes")
    ensure (Text.trim value.toList ≠ [])
      (.invalidRequest "translation content requires non-empty text")
  | .text _ => .ok ()

/-- The checks of one part; the number counts the bytes. -/
def checkPart (role : Role) (supportsImages supportsAudio : Bool) (bytes : Nat) (part : Content) :
    Except RequestError Nat := do
  let bytes ← checkedAdd bytes part.bytes "message content size overflow"
  admitPart role supportsImages supportsAudio part
  return bytes

def Content.isTranslation : Content → Bool
  | .translation .. => true
  | _ => false

/-- The message of the engine. -/
def Message.toChat (message : Message) : ChatMessage where
  role := message.role.asStr
  content := message.content.map Content.intoEngine
  toolCalls := message.toolCalls
  toolCallId := message.toolCallId
  reasoningContent := message.reasoning

/-- `Message::into_engine`. -/
def Message.intoEngine (jsonLen : Json → Nat) (supportsImages supportsAudio : Bool)
    (message : Message) : Except RequestError ChatMessage := do
  ensure (message.content.length ≤ MAX_MESSAGE_CONTENT_PARTS) (.invalidRequest
    s!"one message accepts at most {MAX_MESSAGE_CONTENT_PARTS} content parts")
  ensure (message.content ≠ [] ∨ message.toolCalls ≠ [])
    (.invalidRequest "messages require content or tool calls")
  ensure (message.role = .tool → message.toolCallId.any (fun id => Text.trim id.toList ≠ []) = true)
    (.invalidRequest "tool messages require a non-empty tool_call_id")
  ensure (message.role ≠ .tool → message.toolCallId = none)
    (.invalidRequest "tool_call_id is valid only on tool messages")
  ensure (message.role ≠ .assistant → message.toolCalls = [])
    (.invalidRequest "tool_calls are valid only on assistant messages")
  ensure (message.role ≠ .assistant → message.reasoning = none)
    (.invalidRequest "reasoning is valid only on assistant messages")
  checkReasoning message.reasoning
  let _ ← message.toolCalls.foldlM (checkCall jsonLen) []
  ensure (message.content.any Content.isTranslation = true → message.role = .user)
    (.invalidRequest "translation content is valid only on user messages")
  ensure (message.content.any Content.isTranslation = true → message.content.length = 1)
    (.invalidRequest "translation content must be the only part of its message")
  let bytes ← message.content.foldlM (checkPart message.role supportsImages supportsAudio) 0
  ensure (bytes ≤ MAX_MESSAGE_CONTENT_BYTES)
    (.invalidRequest "one message cannot exceed 128 MiB")
  ensure (bytes ≠ 0 ∨ message.toolCalls ≠ []) (.invalidRequest "message content cannot be empty")
  return message.toChat

end Generation

end Emelex
