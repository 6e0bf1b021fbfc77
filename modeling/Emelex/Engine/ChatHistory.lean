import Emelex.Engine.Error
import Emelex.Engine.ToolCalls
import Emelex.Lib.Checks

/-!
# Histories for Gemma's templates (`engine/tokenizer.rs`)

A history is handed to the template as a list of values.  Gemma's templates expect the results of
tools with the message that called them.

* `ChatMessage` — one message.
* `chatMessageToJson` — the value of a message on its own.
* `gemmaChatMessagesToJinja` — the values of a history, one for every message that is no result.

The value that `minijinja` makes of a JSON value is that value.

Principal definition: `gemmaChatMessagesToJinja`.
-/

set_option autoImplicit false

namespace Emelex

open Checks

/-- `ContentPart`. -/
inductive ContentPart where
  | text (text : String)
  | image (bytes : List UInt8)
  | audio (bytes : List UInt8)
  | video (bytes : List UInt8)
  | translation (sourceLang targetLang text : String)
deriving DecidableEq

/-- `ChatMessage`. -/
structure ChatMessage where
  role : String
  content : List ContentPart
  toolCalls : List ToolCall
  toolCallId : Option String
  reasoningContent : Option String

/-- A part of the content as a value. -/
def ContentPart.toJson : ContentPart → Json
  | .text value => .object [("type", .string "text"), ("text", .string value)]
  | .image _ => .object [("type", .string "image")]
  | .audio _ => .object [("type", .string "audio")]
  | .video _ => .object [("type", .string "video")]
  | .translation sourceLang targetLang value => .object [("type", .string "text"),
      ("source_lang_code", .string sourceLang), ("target_lang_code", .string targetLang),
      ("text", .string value)]

/-- `content_to_json`. -/
def contentToJson : List ContentPart → Json
  | [.text value] => .string value
  | content => .array (content.map ContentPart.toJson)

/-- A call as a value. -/
def ToolCall.toJson (call : ToolCall) : Json :=
  .object [("id", .string call.id), ("type", .string "function"),
    ("function", .object [("name", .string call.name), ("arguments", call.arguments)])]

/-- The last name that a list of calls gives to an identifier. -/
def callName (names : List (String × String)) (id : String) : Option String :=
  names.reverse.lookup id

/-- The fields of `chat_message_to_json`. -/
def chatMessageFields (message : ChatMessage) (toolNames : List (String × String)) :
    List (String × Json) :=
  [("role", .string message.role), ("content", contentToJson message.content)] ++
  (if message.toolCalls ≠ [] then
    [("tool_calls", .array (message.toolCalls.map ToolCall.toJson))] else []) ++
  (match message.toolCallId with
    | some toolCallId => ("tool_call_id", .string toolCallId) ::
        (match callName toolNames toolCallId with
          | some name => [("name", .string name)]
          | none => [])
    | none => []) ++
  match message.reasoningContent with
    | some reasoning => [("reasoning_content", .string reasoning)]
    | none => []

/-- `chat_message_to_json`. -/
def chatMessageToJson (message : ChatMessage) (toolNames : List (String × String)) : Json :=
  .object (chatMessageFields message toolNames)

/-- A result is a message of the role `tool`. -/
def ChatMessage.isResult (message : ChatMessage) : Bool := message.role = "tool"

/-- `[ContentPart::Text(text)]`. -/
def soleText : List ContentPart → Option String
  | [.text value] => some value
  | _ => none

/-- A response as a value. -/
def responseToJson (name response : String) : Json :=
  .object [("name", .string name), ("response", .string response)]

/-- The loop over the results behind a message with calls. -/
def collectResponses (toolCalls : List ToolCall) :
    List String → List Json → List ChatMessage → Except Error (List Json)
  | _, responses, [] => .ok responses
  | answered, responses, result :: results => do
    let callId ← required (.template "Gemma tool result lacks tool_call_id") result.toolCallId
    let expectedCall ← required
      (.template "Gemma history contains more results than assistant calls")
      (toolCalls[responses.length]?)
    ensure (expectedCall.id = callId) (.template "Gemma tool results must follow assistant call order")
    let name ← required
      (.template s!"Gemma tool result references unknown call id {callId.quote}")
      (callName (toolCalls.map fun call => (call.id, call.name)) callId)
    ensure (callId ∉ answered) (.template s!"Gemma tool call {callId.quote} has duplicate results")
    let response ← required (.template "Gemma tool result must contain exactly one text part")
      (soleText result.content)
    collectResponses toolCalls (callId :: answered) (responses ++ [responseToJson name response])
      results

/-- A message with the responses to its calls. -/
def messageWithResponses (message : ChatMessage) (responses : List Json) : Json :=
  .object (chatMessageFields message [] ++
    if responses ≠ [] then [("tool_responses", .array responses)] else [])

/-- `gemma_chat_messages_to_jinja`. -/
def gemmaChatMessagesToJinja : List ChatMessage → Except Error (List Json)
  | [] => .ok []
  | message :: messages => do
    ensure (message.role ≠ "tool")
      (.template "Gemma tool result has no immediately preceding assistant tool call")
    if message.role = "assistant" ∧ message.toolCalls ≠ [] then
      let responses ← collectResponses message.toolCalls [] []
        (messages.takeWhile ChatMessage.isResult)
      let rendered ← gemmaChatMessagesToJinja (messages.dropWhile ChatMessage.isResult)
      return messageWithResponses message responses :: rendered
    else
      let rendered ← gemmaChatMessagesToJinja messages
      return messageWithResponses message [] :: rendered
termination_by messages => messages.length
decreasing_by
  · exact Nat.lt_succ_of_le (List.dropWhile_sublist _).length_le
  · exact Nat.lt_succ_self _

end Emelex
