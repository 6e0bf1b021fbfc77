import Emelex.Engine.Streaming
import Emelex.Engine.ToolSchema

/-!
# Tool calls in generated text (`engine/tools.rs`)

The parsers that recover tool calls from a reply, the check of a call against the advertised
tools, and the removal of the accepted calls from the text.  A position counts characters.
`serde_json::from_str` is a parameter, which yields the fields of an object as they stand in the
text; the visitor that refuses a repeated key is the source's.

* `parseHermes`, `parseLaguna`, `parseGemma`, `parseLlamaJson` — the proposals of each format.
* `GemmaParser` — the recursive-descent parser of Gemma's macros; its nesting depth counts down,
  and its position is given by the text that remains.
* `stripSpans`, `parseAndStripToolCalls` — what stays visible, and the calls that are returned.

Principal definition: `parseAndStripToolCalls`.
-/

set_option autoImplicit false

namespace Emelex

open Text ToolSchema

/-- `ToolFunction`, without the description. -/
structure ToolFunction where
  name : String
  parameters : Json

/-- `Tool`. -/
structure Tool where
  kind : String
  function : ToolFunction

/-- `ToolCall`. -/
structure ToolCall where
  id : String
  name : String
  arguments : Json

/-- `Range<usize>`. -/
structure Span where
  start : Nat
  stop : Nat
  deriving DecidableEq, Repr

/-- `ToolProposal`. -/
structure ToolProposal where
  name : String
  arguments : Json
  span : Span

/-! ## JSON -/

mutual

/-- `StrictValue`: the value that was read, unless an object repeats a key. -/
def strictValue : Json → Option Json
  | .array items => (strictItems items).map Json.array
  | .object fields => (strictFields fields []).map Json.object
  | value => some value

/-- `visit_seq`. -/
def strictItems : List Json → Option (List Json)
  | [] => some []
  | item :: items => do
    let item ← strictValue item
    let items ← strictItems items
    pure (item :: items)

/-- `visit_map`, after the fields in `values`. -/
def strictFields : List (String × Json) → Fields → Option Fields
  | [], values => some values
  | (key, value) :: fields, values =>
    if (values.lookup key).isSome then none
    else do
      let value ← strictValue value
      strictFields fields (values ++ [(key, value)])

end

/-- The characters of a tool name. -/
def isNameChar (c : Char) : Bool := c.isAlphanum || c == '_' || c == '-'

/-- `valid_tool_name`. -/
def validToolName (name : Str) : Bool :=
  !name.isEmpty && decide (utf8Len name ≤ 64) && name.all isNameChar

/-- `char::is_control`. -/
def isControl (c : Char) : Bool := decide (c.toNat < 32 ∨ 127 ≤ c.toNat ∧ c.toNat < 160)

/-- `valid_argument_name`. -/
def validArgumentName (name : Str) : Bool :=
  !name.isEmpty && decide (utf8Len name ≤ 128) &&
    !name.any fun c => isControl c || decide (c ∈ ['<', '>', '{', '}', '[', ']'])

section parsers

variable (fromStr : Str → Option Json)

/-- `parse_strict_json`. -/
def parseStrictJson (raw : Str) : Option Json := (fromStr raw).bind strictValue

/-- `coerce_xml_value`. -/
def coerceXmlValue (raw : Str) : Json :=
  (parseStrictJson fromStr raw).getD (.string (String.ofList raw))

/-- An object that holds a name, its arguments and nothing else. -/
def parseJsonCall (argumentsKey : String) (raw : Str) : Option (String × Json) := do
  let object ← (← parseStrictJson fromStr raw).asObject
  let name ← (← object.lookup "name").asStr
  let object := object.filter fun field => field.1 != "name"
  let arguments ← object.lookup argumentsKey
  let object := object.filter fun field => field.1 != argumentsKey
  let values ← arguments.asObject
  if object.isEmpty && validToolName name.toList && decide (values.length ≤ MAX_TOOL_ARGUMENTS) then
    some (name, arguments)
  else none

/-! ## Llama, Hermes and Laguna -/

/-- `parse_llama_json_fields`. -/
def parseLlamaJsonFields (raw : Str) : Option (String × Json) :=
  parseJsonCall fromStr "parameters" raw

/-- `parse_llama_json`. -/
def parseLlamaJson (text : Str) : List ToolProposal :=
  let trimmed := trim text
  let start := text.length - (trimStart text).length
  match parseLlamaJsonFields fromStr trimmed with
  | none => []
  | some (name, arguments) => [⟨name, arguments, start, start + trimmed.length⟩]

/-- The parameters of `parse_xml_function`; `left` more of them are allowed. -/
def parseXmlParameters : Nat → Str → Fields → Option Fields
  | 0, cursor, object => if cursor.isEmpty then some object else none
  | left + 1, cursor, object =>
    if cursor.isEmpty then some object
    else do
      let afterParam ← stripPrefix "<parameter=".toList cursor
      let keyEnd ← find ['>'] afterParam
      let key := trim (afterParam.take keyEnd)
      let name := String.ofList key
      if !validArgumentName key || (object.lookup name).isSome then none
      else
        let valueBody := afterParam.drop (keyEnd + 1)
        let valueEnd ← find "</parameter>".toList valueBody
        let value := coerceXmlValue fromStr (trim (valueBody.take valueEnd))
        parseXmlParameters left
          (trimStart (valueBody.drop (valueEnd + "</parameter>".toList.length)))
          (object ++ [(name, value)])

/-- `parse_xml_function`. -/
def parseXmlFunction (payload : Str) : Option (String × Json) := do
  let withoutClose ← stripSuffix "</function>".toList (trim payload)
  let afterOpen ← stripPrefix "<function=".toList withoutClose
  let nameEnd ← find ['>'] afterOpen
  let name := trim (afterOpen.take nameEnd)
  if validToolName name then
    let object ← parseXmlParameters fromStr MAX_TOOL_ARGUMENTS
      (trimStart (afterOpen.drop (nameEnd + 1))) []
    some (String.ofList name, .object object)
  else none

/-- `parse_hermes_payload`. -/
def parseHermesPayload (payload : Str) : Option (String × Json) :=
  if ['{'] <+: payload then parseJsonCall fromStr "arguments" payload
  else parseXmlFunction fromStr payload

/-- The pairs of `parse_laguna_payload`; `left` more of them are allowed. -/
def parseLagunaPairs : Nat → Str → Fields → Option Fields
  | 0, cursor, object => if cursor.isEmpty then some object else none
  | left + 1, cursor, object =>
    if cursor.isEmpty then some object
    else do
      let afterKey ← stripPrefix "<arg_key>".toList cursor
      let keyEnd ← find "</arg_key>".toList afterKey
      let key := trim (afterKey.take keyEnd)
      let name := String.ofList key
      if !validArgumentName key || (object.lookup name).isSome then none
      else
        let afterKeyClose := trimStart (afterKey.drop (keyEnd + "</arg_key>".toList.length))
        let valueBody ← stripPrefix "<arg_value>".toList afterKeyClose
        let valueEnd ← find "</arg_value>".toList valueBody
        let value := coerceXmlValue fromStr (trim (valueBody.take valueEnd))
        parseLagunaPairs left
          (trimStart (valueBody.drop (valueEnd + "</arg_value>".toList.length)))
          (object ++ [(name, value)])

/-- `parse_laguna_payload`. -/
def parseLagunaPayload (payload : Str) : Option (String × Json) := do
  let payload := trim payload
  let nameEnd := (find "<arg_key>".toList payload).getD payload.length
  let name := trim (payload.take nameEnd)
  if validToolName name then
    let object ← parseLagunaPairs fromStr MAX_TOOL_ARGUMENTS (trimStart (payload.drop nameEnd)) []
    some (String.ofList name, .object object)
  else none

/-- A block marker of Hermes and Laguna. -/
def BLOCK_OPEN : Str := "<tool_call>".toList

/-- Its end. -/
def BLOCK_CLOSE : Str := "</tool_call>".toList

/-- The scan for blocks, from `cursor` on; `markers` more markers and `calls` more calls are
allowed. -/
def parseBlocksFrom (parsePayload : Str → Option (String × Json)) (text : Str) :
    Nat → Nat → Nat → List ToolProposal
  | 0, _, _ => []
  | markers + 1, calls, cursor =>
    if calls = 0 then []
    else
      match find BLOCK_OPEN (text.drop cursor) with
      | none => []
      | some relativeStart =>
        let start := cursor + relativeStart
        let payloadStart := start + BLOCK_OPEN.length
        let afterOpen := text.drop payloadStart
        match find BLOCK_CLOSE afterOpen with
        | none => []
        | some blockEnd =>
          let spanEnd := payloadStart + blockEnd + BLOCK_CLOSE.length
          match parsePayload (afterOpen.take blockEnd) with
          | none => parseBlocksFrom parsePayload text markers calls spanEnd
          | some (name, arguments) =>
            ⟨name, arguments, start, spanEnd⟩ ::
              parseBlocksFrom parsePayload text markers (calls - 1) spanEnd

/-- `parse_hermes`. -/
def parseHermes (text : Str) : List ToolProposal :=
  parseBlocksFrom (fun payload => parseHermesPayload fromStr (trim payload)) text
    MAX_TOOL_MARKERS MAX_TOOL_CALLS 0

/-- `parse_laguna`. -/
def parseLaguna (text : Str) : List ToolProposal :=
  parseBlocksFrom (parseLagunaPayload fromStr) text MAX_TOOL_MARKERS MAX_TOOL_CALLS 0

end parsers

/-! ## The Gemma parser -/

/-- `GemmaParser`: the text from the position on, and the values that were read. -/
structure GemmaParser where
  rest : Str
  nodes : Nat

/-- A step of the parser. -/
abbrev GemmaM := StateT GemmaParser Option

namespace GemmaParser

/-- `peek_char`. -/
def peekChar : GemmaM (Option Char) := fun s => some (s.rest.head?, s)

/-- `advance_char`. -/
def advanceChar : GemmaM Char := fun s =>
  match s.rest with
  | [] => none
  | c :: rest => some (c, { s with rest })

/-- `skip_whitespace`. -/
def skipWhitespace : GemmaM Unit := fun s => some ((), { s with rest := trimStart s.rest })

/-- `consume_if`. -/
def consumeIf (expected : Char) : GemmaM Bool := fun s =>
  match s.rest with
  | [] => some (false, s)
  | c :: rest => if c = expected then some (true, { s with rest }) else some (false, s)

/-- `consume_char`. -/
def consumeChar (expected : Char) : GemmaM Unit := do
  if ← consumeIf expected then pure () else failure

/-- The marker of a string without escapes. -/
def QUOTE : Str := "<|\"|>".toList

/-- `parse_special_quoted_string`. -/
def parseSpecialQuotedString : GemmaM Str := fun s => do
  let rest ← stripPrefix QUOTE s.rest
  let stop ← find QUOTE rest
  some (rest.take stop, { s with rest := rest.drop (stop + QUOTE.length) })

/-- `char::to_digit(16)`. -/
def hexDigit (c : Char) : Option Nat :=
  if '0' ≤ c ∧ c ≤ '9' then some (c.toNat - 48)
  else if 'a' ≤ c ∧ c ≤ 'f' then some (c.toNat - 87)
  else if 'A' ≤ c ∧ c ≤ 'F' then some (c.toNat - 55)
  else none

/-- `n` digits after those of `value`. -/
def hexDigits : Nat → Nat → GemmaM Nat
  | 0, value => pure value
  | n + 1, value => do
    let c ← advanceChar
    match hexDigit c with
    | none => failure
    | some digit => hexDigits n (value * 16 + digit)

/-- `parse_hex_quad`; four digits fit in an `u16`. -/
def parseHexQuad : GemmaM Nat := hexDigits 4 0

/-- `char::from_u32`. -/
def charOf (scalar : Nat) : GemmaM Char :=
  if scalar.isValidChar then pure (Char.ofNat scalar) else failure

/-- The scalar of `\u`. -/
def parseUnicodeEscape : GemmaM Char := do
  let first ← parseHexQuad
  if 0xd800 ≤ first ∧ first ≤ 0xdbff then
    consumeChar '\\'
    consumeChar 'u'
    let second ← parseHexQuad
    if 0xdc00 ≤ second ∧ second ≤ 0xdfff then
      charOf (0x10000 + (first - 0xd800) * 1024 + (second - 0xdc00))
    else failure
  else if 0xdc00 ≤ first ∧ first ≤ 0xdfff then failure
  else charOf first

/-- The escapes of one character. -/
def SHORT_ESCAPES : List (Char × Char) :=
  [('"', '"'), ('\'', '\''), ('\\', '\\'), ('/', '/'), ('b', '\x08'), ('f', '\x0c'), ('n', '\n'),
    ('r', '\r'), ('t', '\t')]

/-- `parse_escape`: the character that is pushed. -/
def parseEscape : GemmaM Char := do
  let c ← advanceChar
  match SHORT_ESCAPES.lookup c with
  | some output => pure output
  | none => if c = 'u' then parseUnicodeEscape else failure

/-! ### What a step consumes -/

/-- A step whose successes leave a suffix of the text, shorter by at least `n`. -/
def Consumes {α : Type} (n : Nat) (step : GemmaM α) : Prop :=
  ∀ s a s', step s = some (a, s') → s'.rest <:+ s.rest ∧ s'.rest.length + n ≤ s.rest.length

section consumes

variable {α β : Type} {n m : Nat}

theorem bind_eq_some {step : GemmaM α} {f : α → GemmaM β} {s s' : GemmaParser} {b : β} :
    (step >>= f) s = some (b, s') ↔
      ∃ a s₁, step s = some (a, s₁) ∧ f a s₁ = some (b, s') := by
  show (step s).bind (fun x => f x.1 x.2) = some (b, s') ↔ _
  rw [Option.bind_eq_some_iff]
  constructor
  · rintro ⟨⟨a, s₁⟩, h, h'⟩
    exact ⟨a, s₁, h, h'⟩
  · rintro ⟨a, s₁, h, h'⟩
    exact ⟨(a, s₁), h, h'⟩

theorem Consumes.mono {step : GemmaM α} (h : Consumes n step) (hm : m ≤ n) : Consumes m step := by
  intro s a s' hs
  obtain ⟨hsuffix, hlen⟩ := h s a s' hs
  exact ⟨hsuffix, by omega⟩

theorem Consumes.bind {step : GemmaM α} {f : α → GemmaM β} (h : Consumes n step)
    (hf : ∀ a, Consumes m (f a)) : Consumes (n + m) (step >>= f) := by
  intro s b s' hs
  obtain ⟨a, s₁, h₁, h₂⟩ := bind_eq_some.1 hs
  obtain ⟨hsuffix, hlen⟩ := h s a s₁ h₁
  obtain ⟨hsuffix', hlen'⟩ := hf a s₁ b s' h₂
  exact ⟨hsuffix'.trans hsuffix, by omega⟩

theorem Consumes.pure (a : α) : Consumes 0 (Pure.pure a : GemmaM α) := by
  intro s a' s' hs
  obtain ⟨rfl, rfl⟩ := Prod.mk.inj (Option.some.inj hs)
  exact ⟨List.suffix_refl _, by omega⟩

theorem Consumes.failure : Consumes n (Alternative.failure : GemmaM α) := by
  intro s a s' hs
  cases hs

theorem Consumes.ite {step step' : GemmaM α} {c : Prop} [Decidable c] (h : Consumes n step)
    (h' : Consumes n step') : Consumes n (if c then step else step') := by
  split
  · exact h
  · exact h'

end consumes

theorem consumes_peekChar : Consumes 0 peekChar := by
  intro s a s' hs
  obtain ⟨-, rfl⟩ := Prod.mk.inj (Option.some.inj hs)
  exact ⟨List.suffix_refl _, by omega⟩

theorem consumes_advanceChar : Consumes 1 advanceChar := by
  intro s a s' hs
  unfold advanceChar at hs
  split at hs
  · cases hs
  · rename_i c rest hrest
    obtain ⟨rfl, rfl⟩ := Prod.mk.inj (Option.some.inj hs)
    rw [hrest]
    exact ⟨List.suffix_cons _ _, Nat.le_refl _⟩

theorem consumes_skipWhitespace : Consumes 0 skipWhitespace := by
  intro s a s' hs
  obtain ⟨-, rfl⟩ := Prod.mk.inj (Option.some.inj hs)
  have hsuffix := List.dropWhile_suffix (l := s.rest) isWhitespace
  exact ⟨hsuffix, hsuffix.length_le⟩

theorem consumes_consumeChar (expected : Char) : Consumes 1 (consumeChar expected) := by
  intro s a s' hs
  obtain ⟨matched, s₁, h, h'⟩ := bind_eq_some.1 hs
  unfold consumeIf at h
  split at h
  · obtain ⟨rfl, rfl⟩ := Prod.mk.inj (Option.some.inj h)
    cases h'
  · rename_i c rest hrest
    split at h
    · obtain ⟨rfl, rfl⟩ := Prod.mk.inj (Option.some.inj h)
      obtain ⟨-, rfl⟩ := Prod.mk.inj (Option.some.inj h')
      rw [hrest]
      exact ⟨List.suffix_cons _ _, Nat.le_refl _⟩
    · obtain ⟨rfl, rfl⟩ := Prod.mk.inj (Option.some.inj h)
      cases h'

theorem consumes_consumeIf (expected : Char) : Consumes 0 (consumeIf expected) := by
  intro s a s' hs
  unfold consumeIf at hs
  split at hs
  · obtain ⟨-, rfl⟩ := Prod.mk.inj (Option.some.inj hs)
    exact ⟨List.suffix_refl _, Nat.le_refl _⟩
  · rename_i c rest hrest
    split at hs
    · obtain ⟨-, rfl⟩ := Prod.mk.inj (Option.some.inj hs)
      rw [hrest]
      exact ⟨List.suffix_cons _ _, Nat.le_succ _⟩
    · obtain ⟨-, rfl⟩ := Prod.mk.inj (Option.some.inj hs)
      exact ⟨List.suffix_refl _, Nat.le_refl _⟩

theorem consumes_hexDigits (n value : Nat) : Consumes n (hexDigits n value) := by
  induction n generalizing value with
  | zero => exact Consumes.pure value
  | succ n ih =>
    unfold hexDigits
    rw [Nat.add_comm]
    refine consumes_advanceChar.bind fun c => ?_
    split
    · exact Consumes.failure
    · exact ih _

theorem consumes_charOf (scalar : Nat) : Consumes 0 (charOf scalar) :=
  Consumes.ite (Consumes.pure _) Consumes.failure

theorem consumes_parseUnicodeEscape : Consumes 0 parseUnicodeEscape := by
  refine ((consumes_hexDigits 4 0).mono (Nat.zero_le _)).bind (m := 0) fun first => ?_
  refine Consumes.ite ?_ (Consumes.ite Consumes.failure (consumes_charOf first))
  refine ((consumes_consumeChar _).mono (Nat.zero_le _)).bind (m := 0) fun _ => ?_
  refine ((consumes_consumeChar _).mono (Nat.zero_le _)).bind (m := 0) fun _ => ?_
  refine ((consumes_hexDigits 4 0).mono (Nat.zero_le _)).bind (m := 0) fun second => ?_
  exact Consumes.ite (consumes_charOf _) Consumes.failure

theorem consumes_parseEscape : Consumes 1 parseEscape := by
  refine consumes_advanceChar.bind (m := 0) fun c => ?_
  split
  · exact Consumes.pure _
  · exact Consumes.ite consumes_parseUnicodeEscape Consumes.failure

/-! ### Strings -/

set_option linter.unusedVariables false in
/-- The loop of `parse_quoted_string`, after the characters of `value`. -/
def parseQuotedTail (quote : Char) (value : Str) (s : GemmaParser) : Option (Str × GemmaParser) :=
  match hrest : s.rest with
  | [] => none
  | c :: rest =>
    if c = quote then some (value, { s with rest })
    else if c = '\\' then
      match hescape : parseEscape { s with rest } with
      | none => none
      | some (output, s') => parseQuotedTail quote (value ++ [output]) s'
    else if isControl c then none
    else parseQuotedTail quote (value ++ [c]) { s with rest }
termination_by s.rest.length
decreasing_by
  · have hlen := (consumes_parseEscape _ _ _ hescape).2
    rw [hrest, List.length_cons]
    dsimp only at hlen
    omega
  · rw [hrest]
    exact Nat.lt_succ_self _

/-- `parse_quoted_string`. -/
def parseQuotedString : GemmaM Str := do
  let quote ← advanceChar
  fun s => parseQuotedTail quote [] s

/-- A key without quotes. -/
def parseBareKey : GemmaM Str := fun s =>
  let key := s.rest.takeWhile fun c => c != ':'
  if key.any fun c => decide (c ∈ [',', '{', '}', '[', ']']) then none
  else some (trim key, { s with rest := s.rest.drop key.length })

/-- `parse_key`. -/
def parseKey : GemmaM Str := do
  skipWhitespace
  let key ← fun s =>
    if QUOTE <+: s.rest then parseSpecialQuotedString s
    else if s.rest.head? = some '"' ∨ s.rest.head? = some '\'' then parseQuotedString s
    else parseBareKey s
  if validArgumentName key then pure key else failure

/-! ### Values -/

section values

variable (fromStr : Str → Option Json)

/-- The value of a bare text. -/
def bareValue (raw : Str) : Json :=
  match parseStrictJson fromStr raw with
  | some .null => .null
  | some (.bool b) => .bool b
  | some (.number n) => .number n
  | _ => .string (String.ofList raw)

/-- `parse_bare_value`. -/
def parseBareValue : GemmaM Json := fun s =>
  let bare := s.rest.takeWhile fun c => decide (c ∉ [',', ']', '}'])
  let raw := trim bare
  if raw = [] then none else some (bareValue fromStr raw, { s with rest := s.rest.drop bare.length })

/-- The loop of `parse_array`; `left` more items are allowed. -/
def parseItems (parseValue : GemmaM Json) : Nat → List Json → GemmaM Json
  | 0, _ => failure
  | left + 1, values => do
    let value ← parseValue
    let values := values ++ [value]
    skipWhitespace
    if ← consumeIf ']' then pure (.array values)
    else
      consumeChar ','
      skipWhitespace
      if (← peekChar) = some ']' then failure else parseItems parseValue left values

/-- `parse_array`, one level down. -/
def parseArray (parseValue : GemmaM Json) : GemmaM Json := do
  consumeChar '['
  skipWhitespace
  if ← consumeIf ']' then pure (.array []) else parseItems parseValue MAX_TOOL_ARGUMENTS []

/-- A field of `parse_object`, whose key is not among those of `object`. -/
def parseField (parseValue : GemmaM Json) (object : Fields) : GemmaM (String × Json) := do
  let key ← parseKey
  if (object.lookup (String.ofList key)).isSome then failure
  else
    skipWhitespace
    consumeChar ':'
    skipWhitespace
    let value ← parseValue
    skipWhitespace
    pure (String.ofList key, value)

/-- The loop of `parse_object`; `left` more fields are allowed. -/
def parseFields (parseValue : GemmaM Json) : Nat → Fields → GemmaM Json
  | 0, _ => failure
  | left + 1, object => do
    let field ← parseField parseValue object
    let object := object ++ [field]
    if ← consumeIf '}' then pure (.object object)
    else
      consumeChar ','
      skipWhitespace
      if (← peekChar) = some '}' then failure else parseFields parseValue left object

/-- `parse_object`, one level down. -/
def parseObject (parseValue : GemmaM Json) : GemmaM Json := do
  consumeChar '{'
  skipWhitespace
  if ← consumeIf '}' then pure (.object []) else parseFields parseValue MAX_TOOL_ARGUMENTS []

/-- One more value. -/
def countNode : GemmaM Unit := fun s =>
  if s.nodes + 1 > MAX_INSTANCE_NODES then none else some ((), { s with nodes := s.nodes + 1 })

/-- `parse_value` over the parsers of containers. -/
def parseValueWith (array object : GemmaM Json) : GemmaM Json := do
  countNode
  fun s =>
    if QUOTE <+: s.rest then
      (do
        let value ← parseSpecialQuotedString
        pure (.string (String.ofList value)) : GemmaM Json) s
    else
      match s.rest.head? with
      | none => none
      | some c =>
        if c = '"' ∨ c = '\'' then
          (do
            let value ← parseQuotedString
            pure (.string (String.ofList value)) : GemmaM Json) s
        else if c = '[' then array s
        else if c = '{' then object s
        else parseBareValue fromStr s

/-- `parse_value`; `levels` more levels of containers may be entered. -/
def parseValue : Nat → GemmaM Json
  | 0 => parseValueWith fromStr failure failure
  | levels + 1 =>
    parseValueWith fromStr (parseArray (parseValue levels)) (parseObject (parseValue levels))

end values

end GemmaParser

section parsers

variable (fromStr : Str → Option Json)

/-- `parse_gemma_call`: the call and what remains of the body. -/
def parseGemmaCall (body : Str) : Option (String × Json × Str) := do
  let braceStart ← find ['{'] body
  let name := trim (body.take braceStart)
  if validToolName name then
    let (arguments, parser) ← GemmaParser.parseObject
      (GemmaParser.parseValue fromStr (MAX_SCHEMA_DEPTH - 1)) ⟨body.drop braceStart, 0⟩
    some (String.ofList name, arguments, parser.rest)
  else none

/-- A call of Gemma's macros. -/
def GEMMA_OPEN : Str := "<|tool_call>call:".toList

/-- Its end. -/
def GEMMA_CLOSE : Str := "<tool_call|>".toList

/-- A call and its end: the call and what follows. -/
def parseGemmaBlock (body : Str) : Option (String × Json × Str) := do
  let (name, arguments, afterCall) ← parseGemmaCall fromStr body
  let afterClose ← stripPrefix GEMMA_CLOSE (trimStart afterCall)
  some (name, arguments, afterClose)

/-- The scan of `parse_gemma`, from `cursor` on. -/
def parseGemmaFrom (text : Str) : Nat → Nat → Nat → List ToolProposal
  | 0, _, _ => []
  | markers + 1, calls, cursor =>
    if calls = 0 then []
    else
      match find GEMMA_OPEN (text.drop cursor) with
      | none => []
      | some relativeStart =>
        let start := cursor + relativeStart
        let bodyStart := start + GEMMA_OPEN.length
        match parseGemmaBlock fromStr (text.drop bodyStart) with
        | none => parseGemmaFrom text markers calls bodyStart
        | some (name, arguments, afterClose) =>
          let spanEnd := text.length - afterClose.length
          ⟨name, arguments, start, spanEnd⟩ :: parseGemmaFrom text markers (calls - 1) spanEnd

/-- `parse_gemma`. -/
def parseGemma (text : Str) : List ToolProposal :=
  parseGemmaFrom fromStr text MAX_TOOL_MARKERS MAX_TOOL_CALLS 0

/-! ## Proposals and calls -/

/-- `parse_tool_proposals`. -/
def parseToolProposals (text : Str) : ToolCallFormat → List ToolProposal
  | .hermes => parseHermes fromStr text
  | .gemma => parseGemma fromStr text
  | .laguna => parseLaguna fromStr text
  | .llamaJson => parseLlamaJson fromStr text
  | .none => []

end parsers

/-- The function tools that advertise a name. -/
def advertising (name : String) (tools : List Tool) : List Tool :=
  tools.filter fun tool => tool.kind == "function" && tool.function.name == name

/-- `proposal_is_advertised_and_valid`. -/
def proposalIsAdvertisedAndValid (tools : List Tool) (proposal : ToolProposal) : Bool :=
  match advertising proposal.name tools with
  | [tool] =>
    proposal.arguments.asObject.isSome &&
      (validateToolSchema tool.function.parameters).toOption.isSome &&
      argumentsSatisfySchema tool.function.parameters proposal.arguments
  | _ => false

/-- `strip_spans`, after the text up to `copiedThrough`. -/
def stripSpansFrom (text : Str) (copiedThrough : Nat) : List Span → Str
  | [] => text.drop copiedThrough
  | span :: spans =>
    if span.start < copiedThrough ∨ text.length < span.stop then
      stripSpansFrom text copiedThrough spans
    else (text.take span.start).drop copiedThrough ++ stripSpansFrom text span.stop spans

/-- `strip_spans`. -/
def stripSpans (text : Str) (spans : List Span) : Str :=
  if spans.isEmpty then text else stripSpansFrom text 0 spans

/-- `next_call_id`, when the counter is at `counter`. -/
def callId (counter : Nat) : String :=
  let n := counter % 2 ^ 64
  s!"call_{n}"

/-- The calls of the proposals, with ids from the counter. -/
def intoCalls : Nat → List ToolProposal → List ToolCall
  | _, [] => []
  | counter, proposal :: proposals =>
    ⟨callId counter, proposal.name, proposal.arguments⟩ :: intoCalls (counter + 1) proposals

/-- `parse_and_strip_tool_calls`. -/
def parseAndStripToolCalls (fromStr : Str → Option Json) (counter : Nat) (text : Str)
    (format : ToolCallFormat) (tools : List Tool) : Str × List ToolCall :=
  let accepted := (parseToolProposals fromStr text format).filter
    (proposalIsAdvertisedAndValid tools)
  (stripSpans text (accepted.map ToolProposal.span), intoCalls counter accepted)

end Emelex
