import Emelex.Engine.ToolCalls
import Emelex.Lib.Checks
import Emelex.Lib.JsonOrder
import Emelex.Lib.Text

/-!
# The `tojson` filter of chat templates (`engine/tokenizer.rs`)

* `SerdeJson` — what the filter uses of `serde_json`.
* `jsonSeparatorPair`, `replaceJsonSeparators`, `asciiEscapeJson` — the options that `serde_json` does
  not have.
* `tojson` — the filter.

A text is the list of its characters; the scanner of bytes looks for ASCII characters only, so it is a
scanner of characters.

Principal definitions: `replaceJsonSeparators`, `tojson`.
-/

set_option autoImplicit false

namespace Emelex

open Checks

namespace ToJson

def MAX_RENDERED_PROMPT_BYTES : Nat := 16777216

/-- `serde_json::to_writer`, pretty with a formatter of so many blanks, and `serde_json::from_str` as a
value. -/
structure SerdeJson where
  toText : Option Nat → Json → List Char
  fromStr : List Char → Except String Json

/-- The keyword arguments of the filter. -/
structure Kwargs where
  indent : Option Nat
  ensureAscii : Option Bool
  sortKeys : Option Bool
  separators : Option (List String)

structure JsonSeparatorPair where
  item : List Char
  key : List Char
deriving DecidableEq

/-- What `BoundedPrompt` takes. -/
def boundedPrompt (text : List Char) : Except String (List Char) := do
  ensure (Text.utf8Len text ≤ MAX_RENDERED_PROMPT_BYTES)
    s!"rendered prompt exceeds {MAX_RENDERED_PROMPT_BYTES} byte limit"
  return text

/-- `serialize_bounded_json`. -/
def serializeBoundedJson (serde : SerdeJson) (value : Json) (indent : Option Nat) :
    Except String (List Char) :=
  boundedPrompt (serde.toText indent value)

/-- The separators that are given, or those of Python. -/
def separatorStrings (separators : Option (List String)) (pretty : Bool) :
    Except String JsonSeparatorPair :=
  match separators with
  | some [item, key] => .ok ⟨item.toList, key.toList⟩
  | some values => .error s!"tojson separators needs exactly two strings, got {values.length}"
  | none => .ok (if pretty then ⟨[','], [':', ' ']⟩ else ⟨[',', ' '], [':', ' ']⟩)

/-- `json_separator_pair`. -/
def jsonSeparatorPair (separators : Option (List String)) (pretty : Bool) :
    Except String JsonSeparatorPair := do
  let pair ← separatorStrings separators pretty
  ensure (∀ separator ∈ [pair.item, pair.key], separator ≠ [] ∧ Text.utf8Len separator ≤ 16 ∧
      (separator.all fun c => c.toNat < 128) = true ∧ separator.any isControl = false)
    "tojson separators must be non-empty control-free ASCII strings of at most 16 bytes"
  return pair

/-- The loop of `replace_json_separators`, in a string or not, behind a backslash or not. -/
def replaceSeparators (separators : JsonSeparatorPair) : Bool → Bool → List Char → List Char
  | _, _, [] => []
  | true, escaped, c :: rest =>
    c :: (if escaped = true then replaceSeparators separators true false rest
      else if c = '\\' then replaceSeparators separators true true rest
      else if c = '"' then replaceSeparators separators false escaped rest
      else replaceSeparators separators true escaped rest)
  | false, escaped, c :: rest =>
    if c = '"' then c :: replaceSeparators separators true escaped rest
    else if c = ',' then separators.item ++ replaceSeparators separators false escaped rest
    else if c = ':' then
      separators.key ++ match rest with
        | ' ' :: rest => replaceSeparators separators false escaped rest
        | rest => replaceSeparators separators false escaped rest
    else c :: replaceSeparators separators false escaped rest

/-- `replace_json_separators`. -/
def replaceJsonSeparators (json : List Char) (separators : JsonSeparatorPair) :
    Except String (List Char) :=
  boundedPrompt (replaceSeparators separators false false json)

/-- `ascii_escape_json`. -/
def asciiEscapeJson (json : List Char) : Except String (List Char) :=
  boundedPrompt (json.flatMap Json.asciiText)

/-- The text before its separators are replaced. -/
def serializedJson (serde : SerdeJson) (value : Json) (kwargs : Kwargs) :
    Except String (List Char) := do
  if kwargs.sortKeys.getD false = true then
    let compact ← serializeBoundedJson serde value none
    let sorted ← serde.fromStr compact
    serializeBoundedJson serde sorted kwargs.indent
  else serializeBoundedJson serde value kwargs.indent

/-- The `tojson` filter; an error is its message. -/
def tojson (serde : SerdeJson) (value : Json) (kwargs : Kwargs) : Except String (List Char) := do
  ensure (kwargs.indent.all (· ≤ 16) = true) "tojson indent must be at most 16"
  let separators ← jsonSeparatorPair kwargs.separators kwargs.indent.isSome
  let json ← serializedJson serde value kwargs
  let json ← replaceJsonSeparators json separators
  if kwargs.ensureAscii.getD false = true then asciiEscapeJson json else return json

end ToJson

end Emelex
