import Emelex.Engine.ToolExtraction

/-!
# Gemma calls read back

What a rendering of a value in Gemma's syntax may look like, and that the parser inverts every
such rendering.

* `Quoted` — a text between quotes: with escapes, or between the markers that know none.
* `Renders` — a value as a text, with white space wherever it may stand.
* `Fits` — a value within the limits of the parser.

Principal results: `parseQuotedString_of_quoted`, `parseValue_of_renders` (a value reads back, up to
the white space behind it) and `gemma_round_trip`.
-/

set_option autoImplicit false

namespace Emelex

open Text ToolSchema GemmaParser

/-! ## Renderings -/

/-- White space. -/
def Spaces (s : Str) : Prop := ∀ c ∈ s, isWhitespace c = true

instance : DecidablePred Spaces := fun s =>
  inferInstanceAs (Decidable (∀ c ∈ s, isWhitespace c = true))

/-- Four digits with a value. -/
def HexQuad (value : Nat) (digits : Str) : Prop :=
  ∃ a b c d x y z w, digits = [a, b, c, d] ∧ hexDigit a = some x ∧ hexDigit b = some y ∧
    hexDigit c = some z ∧ hexDigit d = some w ∧ value = ((x * 16 + y) * 16 + z) * 16 + w

/-- A character between quotes: as it is, or by one of its escapes. -/
inductive QuotedChar (quote : Char) : Char → Str → Prop where
  | raw {c : Char} (hquote : c ≠ quote) (hslash : c ≠ '\\') (hcontrol : isControl c = false) :
    QuotedChar quote c [c]
  | short {e c : Char} (h : (e, c) ∈ SHORT_ESCAPES) : QuotedChar quote c ['\\', e]
  | unicode {c : Char} {digits : Str} (h : HexQuad c.toNat digits) :
    QuotedChar quote c ('\\' :: 'u' :: digits)
  | surrogates {c : Char} {high low : Str} (hc : 0x10000 ≤ c.toNat)
      (hhigh : HexQuad (0xd800 + (c.toNat - 0x10000) / 1024) high)
      (hlow : HexQuad (0xdc00 + (c.toNat - 0x10000) % 1024) low) :
    QuotedChar quote c ('\\' :: 'u' :: high ++ '\\' :: 'u' :: low)

/-- A text in quotes. -/
inductive Quoted (s : Str) : Str → Prop where
  | quotes {quote : Char} {pieces : List Str} (hquote : quote = '"' ∨ quote = '\'')
      (hpieces : List.Forall₂ (QuotedChar quote) s pieces) :
    Quoted s (quote :: pieces.flatten ++ [quote])
  | marked (h : ¬ QUOTE <:+: s) : Quoted s (QUOTE ++ s ++ QUOTE)

/-- The characters of numbers, `null`, `true` and `false`. -/
def isBareChar (c : Char) : Bool :=
  c.isAlphanum || c == '+' || c == '-' || c == '.'

/-- A literal that reads as a value. -/
def Literal (fromStr : Str → Option Json) (value : Json) (text : Str) : Prop :=
  text ≠ [] ∧ (∀ c ∈ text, isBareChar c = true) ∧ fromStr text = some value

section renders

variable (fromStr : Str → Option Json)

mutual

/-- A text renders a value. -/
def Renders : Json → Str → Prop
  | .string s, text => Quoted s.toList text
  | .array items, text =>
    ∃ spaces rest, Spaces spaces ∧ text = '[' :: spaces ++ rest ∧
      (items = [] ∧ rest = [']'] ∨ RendersItems items rest)
  | .object fields, text =>
    ∃ spaces rest, Spaces spaces ∧ text = '{' :: spaces ++ rest ∧
      (fields = [] ∧ rest = ['}'] ∨ RendersFields fields rest)
  | value, text => Literal fromStr value text

/-- One item or more, up to the end of the array. -/
def RendersItems : List Json → Str → Prop
  | [], _ => False
  | item :: items, text =>
    ∃ itemText spaces rest, Renders item itemText ∧ Spaces spaces ∧
      text = itemText ++ spaces ++ rest ∧
      (items = [] ∧ rest = [']'] ∨
        ∃ spaces' rest', Spaces spaces' ∧ rest = ',' :: spaces' ++ rest' ∧
          RendersItems items rest')

/-- One field or more, up to the end of the object. -/
def RendersFields : List (String × Json) → Str → Prop
  | [], _ => False
  | (key, value) :: fields, text =>
    ∃ keyText spaces₁ spaces₂ valueText spaces₃ rest,
      Quoted key.toList keyText ∧ Spaces spaces₁ ∧ Spaces spaces₂ ∧ Renders value valueText ∧
      Spaces spaces₃ ∧
      text = keyText ++ spaces₁ ++ ':' :: spaces₂ ++ valueText ++ spaces₃ ++ rest ∧
      (fields = [] ∧ rest = ['}'] ∨
        ∃ spaces' rest', Spaces spaces' ∧ rest = ',' :: spaces' ++ rest' ∧
          RendersFields fields rest')

end

end renders

/-! ## Limits -/

mutual

/-- The number of values of a value, itself included. -/
def valueCount : Json → Nat
  | .array items => 1 + itemsCount items
  | .object fields => 1 + fieldsCount fields
  | _ => 1

/-- The number of values in items. -/
def itemsCount : List Json → Nat
  | [] => 0
  | item :: items => valueCount item + itemsCount items

/-- The number of values in fields. -/
def fieldsCount : List (String × Json) → Nat
  | [] => 0
  | (_, value) :: fields => valueCount value + fieldsCount fields

end

/-- Fields that an object may have: no more than the limit, with different valid keys. -/
structure FieldsFit (fields : Fields) : Prop where
  count : fields.length ≤ MAX_TOOL_ARGUMENTS
  nodup : (fields.map Prod.fst).Nodup
  keys : ∀ field ∈ fields, validArgumentName field.1.toList = true

/-- A value whose containers nest no deeper than `levels` and have no more entries than allowed. -/
def Fits : Nat → Json → Prop
  | levels + 1, .array items =>
    items.length ≤ MAX_TOOL_ARGUMENTS ∧ ∀ item ∈ items, Fits levels item
  | levels + 1, .object fields =>
    FieldsFit fields ∧ ∀ field ∈ fields, Fits levels field.2
  | 0, .array _ => False
  | 0, .object _ => False
  | _, _ => True

/-! ## Escapes -/

section steps

variable {α β : Type} {rest : Str} {nodes : Nat}

theorem bind_apply {step : GemmaM α} {f : α → GemmaM β} {s s' : GemmaParser} {a : α}
    (h : step s = some (a, s')) : (step >>= f) s = f a s' := by
  show (step s).bind (fun x => f x.1 x.2) = _
  rw [h]
  rfl

theorem hexDigits_step {c : Char} {x n value : Nat} (h : hexDigit c = some x) :
    hexDigits (n + 1) value ⟨c :: rest, nodes⟩ = hexDigits n (value * 16 + x) ⟨rest, nodes⟩ := by
  rw [hexDigits]
  have hnext : advanceChar ⟨c :: rest, nodes⟩ = some (c, ⟨rest, nodes⟩) := rfl
  rw [bind_apply hnext, h]

theorem parseHexQuad_eq {value : Nat} {digits : Str} (h : HexQuad value digits) :
    parseHexQuad ⟨digits ++ rest, nodes⟩ = some (value, ⟨rest, nodes⟩) := by
  obtain ⟨a, b, c, d, x, y, z, w, rfl, ha, hb, hc, hd, rfl⟩ := h
  show hexDigits 4 0 ⟨a :: b :: c :: d :: rest, nodes⟩ = _
  rw [hexDigits_step ha, hexDigits_step hb, hexDigits_step hc, hexDigits_step hd, Nat.zero_mul,
    Nat.zero_add]
  rfl

theorem charOf_toNat (c : Char) (s : GemmaParser) : charOf c.toNat s = some (c, s) := by
  have hvalid : c.toNat.isValidChar := c.valid
  unfold charOf
  rw [if_pos hvalid, Char.ofNat_toNat]
  rfl

theorem not_surrogate (c : Char) : ¬ (0xd800 ≤ c.toNat ∧ c.toNat ≤ 0xdfff) := by
  have hvalid : c.toNat.isValidChar := c.valid
  unfold Nat.isValidChar at hvalid
  omega

theorem parseUnicodeEscape_unicode {c : Char} {digits : Str} (h : HexQuad c.toNat digits) :
    parseUnicodeEscape ⟨digits ++ rest, nodes⟩ = some (c, ⟨rest, nodes⟩) := by
  have hc := not_surrogate c
  unfold parseUnicodeEscape
  rw [bind_apply (parseHexQuad_eq h), if_neg (by omega), if_neg (by omega)]
  exact charOf_toNat c _

theorem consumeChar_eq (c : Char) :
    consumeChar c ⟨c :: rest, nodes⟩ = some ((), ⟨rest, nodes⟩) := by
  unfold consumeChar
  have hif : consumeIf c ⟨c :: rest, nodes⟩ = some (true, ⟨rest, nodes⟩) := if_pos rfl
  rw [bind_apply hif]
  rfl

theorem parseUnicodeEscape_surrogates {c : Char} {high low : Str} (hc : 0x10000 ≤ c.toNat)
    (hhigh : HexQuad (0xd800 + (c.toNat - 0x10000) / 1024) high)
    (hlow : HexQuad (0xdc00 + (c.toNat - 0x10000) % 1024) low) :
    parseUnicodeEscape ⟨high ++ '\\' :: 'u' :: low ++ rest, nodes⟩ = some (c, ⟨rest, nodes⟩) := by
  have hvalid : c.toNat.isValidChar := c.valid
  unfold Nat.isValidChar at hvalid
  unfold parseUnicodeEscape
  rw [List.append_assoc, bind_apply (parseHexQuad_eq hhigh), if_pos (by omega)]
  rw [List.cons_append, List.cons_append, bind_apply (consumeChar_eq '\\'),
    bind_apply (consumeChar_eq 'u'), bind_apply (parseHexQuad_eq hlow), if_pos (by omega)]
  have hvalue : 0x10000 + (0xd800 + (c.toNat - 0x10000) / 1024 - 0xd800) * 1024 +
      (0xdc00 + (c.toNat - 0x10000) % 1024 - 0xdc00) = c.toNat := by
    omega
  rw [hvalue]
  exact charOf_toNat c _

theorem lookup_short {e c : Char} (h : (e, c) ∈ SHORT_ESCAPES) :
    SHORT_ESCAPES.lookup e = some c := by
  have hall : ∀ p ∈ SHORT_ESCAPES, SHORT_ESCAPES.lookup p.1 = some p.2 := by decide
  exact hall (e, c) h

theorem advanceChar_eq (c : Char) :
    advanceChar ⟨c :: rest, nodes⟩ = some (c, ⟨rest, nodes⟩) := rfl

/-- The escape of a character gives the character. -/
theorem parseEscape_short {e c : Char} (h : (e, c) ∈ SHORT_ESCAPES) :
    parseEscape ⟨e :: rest, nodes⟩ = some (c, ⟨rest, nodes⟩) := by
  unfold parseEscape
  rw [bind_apply (advanceChar_eq e), lookup_short h]
  rfl

theorem parseEscape_unicode {c : Char} {s : Str}
    (h : parseUnicodeEscape ⟨s, nodes⟩ = some (c, ⟨rest, nodes⟩)) :
    parseEscape ⟨'u' :: s, nodes⟩ = some (c, ⟨rest, nodes⟩) := by
  have hlookup : SHORT_ESCAPES.lookup 'u' = none := by decide
  unfold parseEscape
  rw [bind_apply (advanceChar_eq 'u'), hlookup]
  exact (congrFun (if_pos rfl) _).trans h

/-! ## Quoted texts -/

theorem parseQuotedTail_raw {quote c : Char} {value : Str} (hquote : c ≠ quote) (hslash : c ≠ '\\')
    (hcontrol : isControl c = false) :
    parseQuotedTail quote value ⟨c :: rest, nodes⟩ =
      parseQuotedTail quote (value ++ [c]) ⟨rest, nodes⟩ := by
  rw [parseQuotedTail]
  dsimp only
  rw [if_neg hquote, if_neg hslash, if_neg (by rw [hcontrol]; exact Bool.false_ne_true)]

theorem parseQuotedTail_escape {quote c : Char} {value s : Str} (hquote : '\\' ≠ quote)
    (h : parseEscape ⟨s, nodes⟩ = some (c, ⟨rest, nodes⟩)) :
    parseQuotedTail quote value ⟨'\\' :: s, nodes⟩ =
      parseQuotedTail quote (value ++ [c]) ⟨rest, nodes⟩ := by
  rw [parseQuotedTail]
  dsimp only
  rw [if_neg hquote, if_pos rfl]
  split
  · rename_i hnone
    rw [h] at hnone
    cases hnone
  · rename_i output s' hsome
    rw [h] at hsome
    obtain ⟨rfl, rfl⟩ := Prod.mk.inj (Option.some.inj hsome)
    rfl

/-- One character between quotes, however it is written. -/
theorem parseQuotedTail_char {quote c : Char} {piece value : Str} (hquote : '\\' ≠ quote)
    (h : QuotedChar quote c piece) :
    parseQuotedTail quote value ⟨piece ++ rest, nodes⟩ =
      parseQuotedTail quote (value ++ [c]) ⟨rest, nodes⟩ := by
  cases h with
  | raw hne hslash hcontrol => exact parseQuotedTail_raw hne hslash hcontrol
  | short hshort => exact parseQuotedTail_escape hquote (parseEscape_short hshort)
  | unicode hquad =>
    exact parseQuotedTail_escape hquote (parseEscape_unicode (parseUnicodeEscape_unicode hquad))
  | surrogates hc hhigh hlow =>
    exact parseQuotedTail_escape hquote
      (parseEscape_unicode (parseUnicodeEscape_surrogates hc hhigh hlow))

theorem parseQuotedTail_eq {quote : Char} {s value : Str} {pieces : List Str}
    (hquote : '\\' ≠ quote) (h : List.Forall₂ (QuotedChar quote) s pieces) :
    parseQuotedTail quote value ⟨pieces.flatten ++ quote :: rest, nodes⟩ =
      some (value ++ s, ⟨rest, nodes⟩) := by
  induction h generalizing value with
  | nil =>
    rw [List.flatten_nil, List.nil_append, parseQuotedTail]
    dsimp only
    rw [if_pos rfl, List.append_nil]
  | cons hc _ ih =>
    rw [List.flatten_cons, List.append_assoc, parseQuotedTail_char hquote hc, ih, List.append_assoc]
    rfl

theorem find_quote {s : Str} (h : ¬ QUOTE <:+: s) : find QUOTE (s ++ (QUOTE ++ rest)) =
    some s.length := find_append_marker (by decide) h rest

theorem parseSpecialQuotedString_eq {s : Str} (h : ¬ QUOTE <:+: s) :
    parseSpecialQuotedString ⟨QUOTE ++ s ++ QUOTE ++ rest, nodes⟩ = some (s, ⟨rest, nodes⟩) := by
  have hstrip : stripPrefix QUOTE (QUOTE ++ s ++ QUOTE ++ rest) = some (s ++ (QUOTE ++ rest)) := by
    rw [stripPrefix_eq_some, List.append_assoc, List.append_assoc]
  unfold parseSpecialQuotedString
  dsimp only
  rw [hstrip]
  show (find QUOTE (s ++ (QUOTE ++ rest))).bind _ = _
  rw [find_quote h, Option.bind_some, List.take_left]
  have hdrop : (s ++ (QUOTE ++ rest)).drop (s.length + QUOTE.length) = rest := by
    rw [← List.append_assoc, ← List.length_append, List.drop_left]
  rw [hdrop]

theorem parseQuotedString_eq {quote : Char} {s : Str} {pieces : List Str}
    (hquote : quote = '"' ∨ quote = '\'') (h : List.Forall₂ (QuotedChar quote) s pieces) :
    parseQuotedString ⟨quote :: pieces.flatten ++ [quote] ++ rest, nodes⟩ =
      some (s, ⟨rest, nodes⟩) := by
  have hslash : '\\' ≠ quote := by
    rcases hquote with rfl | rfl <;> decide
  unfold parseQuotedString
  rw [List.append_assoc]
  refine (bind_apply (advanceChar_eq quote)).trans ?_
  exact parseQuotedTail_eq hslash h

/-- The first character of a quoted text. -/
theorem Quoted.head {s text : Str} (h : Quoted s text) :
    ∃ c t, text = c :: t ∧ (c = '"' ∨ c = '\'' ∨ c = '<') := by
  cases h with
  | @quotes quote pieces hquote _ => exact ⟨quote, _, rfl, hquote.imp id .inl⟩
  | marked _ => exact ⟨'<', _, rfl, .inr (.inr rfl)⟩

/-- What `parse_key` and `parse_value` do with a text in quotes. -/
theorem parseQuoted_eq {s text : Str} (h : Quoted s text) :
    (QUOTE <+: text ++ rest ∧
        parseSpecialQuotedString ⟨text ++ rest, nodes⟩ = some (s, ⟨rest, nodes⟩)) ∨
      (¬ QUOTE <+: text ++ rest ∧
        ((text ++ rest).head? = some '"' ∨ (text ++ rest).head? = some '\'') ∧
        parseQuotedString ⟨text ++ rest, nodes⟩ = some (s, ⟨rest, nodes⟩)) := by
  cases h with
  | @quotes quote pieces hquote hpieces =>
    refine .inr ⟨fun hpre => ?_, hquote.imp (congrArg some) (congrArg some),
      parseQuotedString_eq hquote hpieces⟩
    have hhead : '<' = quote := (List.cons_prefix_cons.1 hpre).1
    rcases hquote with rfl | rfl <;> cases hhead
  | marked hno =>
    refine .inl ⟨?_, parseSpecialQuotedString_eq hno⟩
    rw [List.append_assoc, List.append_assoc]
    exact List.prefix_append _ _

/-! ## Keys -/

theorem skipWhitespace_of_trimStart {t t' : Str} (h : trimStart t = t') :
    skipWhitespace ⟨t, nodes⟩ = some ((), ⟨t', nodes⟩) := by
  unfold skipWhitespace
  dsimp only
  rw [h]

theorem trimStart_spaces {c : Char} {spaces t : Str} (h : Spaces spaces)
    (hc : isWhitespace c = false) : trimStart (spaces ++ c :: t) = c :: t := by
  have hstop : ¬ isWhitespace c = true := by
    rw [hc]
    exact Bool.false_ne_true
  rw [trimStart_of_all h, trimStart, List.dropWhile_cons_of_neg hstop]

theorem parseKey_eq {key text : Str} (h : Quoted key text) (hvalid : validArgumentName key = true) :
    parseKey ⟨text ++ rest, nodes⟩ = some (key, ⟨rest, nodes⟩) := by
  have hskip : skipWhitespace ⟨text ++ rest, nodes⟩ = some ((), ⟨text ++ rest, nodes⟩) := by
    obtain ⟨c, t, rfl, hc⟩ := h.head
    have hspaces : Spaces [] := fun c hc => by cases hc
    refine skipWhitespace_of_trimStart (trimStart_spaces hspaces ?_)
    rcases hc with rfl | rfl | rfl <;> decide
  let read : GemmaM Str := fun s =>
    if QUOTE <+: s.rest then parseSpecialQuotedString s
    else if s.rest.head? = some '"' ∨ s.rest.head? = some '\'' then parseQuotedString s
    else parseBareKey s
  have hread : read ⟨text ++ rest, nodes⟩ = some (key, ⟨rest, nodes⟩) := by
    dsimp only [read]
    rcases @parseQuoted_eq rest nodes _ _ h with ⟨hpre, hparse⟩ | ⟨hpre, hhead, hparse⟩
    · rw [if_pos hpre, hparse]
    · rw [if_neg hpre, if_pos hhead, hparse]
  unfold parseKey
  rw [bind_apply hskip]
  refine (bind_apply hread).trans ?_
  rw [if_pos hvalid]
  rfl

/-! ## Bare values -/

theorem isAlphanum_toNat {c : Char} (h : c.isAlphanum = true) :
    (48 ≤ c.toNat ∧ c.toNat ≤ 57) ∨ (65 ≤ c.toNat ∧ c.toNat ≤ 90) ∨
      (97 ≤ c.toNat ∧ c.toNat ≤ 122) := by
  unfold Char.isAlphanum Char.isAlpha Char.isUpper Char.isLower Char.isDigit at h
  simp only [Bool.or_eq_true, Bool.and_eq_true, decide_eq_true_iff, ge_iff_le,
    UInt32.le_iff_toNat_le] at h
  unfold Char.toNat
  have h0 : '0'.val.toNat = 48 := rfl
  have h9 : '9'.val.toNat = 57 := rfl
  have hA : 'A'.val.toNat = 65 := rfl
  have hZ : 'Z'.val.toNat = 90 := rfl
  have ha : 'a'.val.toNat = 97 := rfl
  have hz : 'z'.val.toNat = 122 := rfl
  omega

theorem isBareChar_toNat {c : Char} (h : isBareChar c = true) :
    (48 ≤ c.toNat ∧ c.toNat ≤ 57) ∨ (65 ≤ c.toNat ∧ c.toNat ≤ 90) ∨
      (97 ≤ c.toNat ∧ c.toNat ≤ 122) ∨ c.toNat = 43 ∨ c.toNat = 45 ∨ c.toNat = 46 := by
  unfold isBareChar at h
  rw [Bool.or_eq_true, Bool.or_eq_true, Bool.or_eq_true, beq_iff_eq, beq_iff_eq, beq_iff_eq] at h
  rcases h with ((h | rfl) | rfl) | rfl
  · rcases isAlphanum_toNat h with h | h | h <;> omega
  · decide
  · decide
  · decide

theorem isBareChar_not_space {c : Char} (h : isBareChar c = true) : isWhitespace c = false := by
  have hc := isBareChar_toNat h
  unfold isWhitespace
  simp only [Bool.or_eq_false_iff, Bool.and_eq_false_iff, decide_eq_false_iff_not, beq_eq_false_iff_ne]
  omega

/-- A bare character is no mark of the syntax. -/
theorem isBareChar_ne {c d : Char} (h : isBareChar c = true) (hd : isBareChar d = false) :
    c ≠ d := by
  rintro rfl
  rw [h] at hd
  cases hd

theorem space_ne {c d : Char} (h : isWhitespace c = true) (hd : isWhitespace d = false) :
    c ≠ d := by
  rintro rfl
  rw [h] at hd
  cases hd

theorem isNameChar_not_space {c : Char} (h : isNameChar c = true) : isWhitespace c = false := by
  have hc : (48 ≤ c.toNat ∧ c.toNat ≤ 57) ∨ (65 ≤ c.toNat ∧ c.toNat ≤ 90) ∨
      (97 ≤ c.toNat ∧ c.toNat ≤ 122) ∨ c.toNat = 95 ∨ c.toNat = 45 := by
    unfold isNameChar at h
    rw [Bool.or_eq_true, Bool.or_eq_true, beq_iff_eq, beq_iff_eq] at h
    rcases h with (h | rfl) | rfl
    · rcases isAlphanum_toNat h with h | h | h <;> omega
    · decide
    · decide
  unfold isWhitespace
  simp only [Bool.or_eq_false_iff, Bool.and_eq_false_iff, decide_eq_false_iff_not, beq_eq_false_iff_ne]
  omega

/-- A text without white space, between white space. -/
theorem trim_between {before text after : Str} (hne : text ≠ [])
    (htext : ∀ c ∈ text, isWhitespace c = false) (hbefore : Spaces before) (hafter : Spaces after) :
    trim (before ++ (text ++ after)) = text := by
  have hstart : trimStart (before ++ (text ++ after)) = text ++ after := by
    obtain ⟨c, t, rfl⟩ := List.exists_cons_of_ne_nil hne
    have hc := htext c List.mem_cons_self
    rw [trimStart_of_all hbefore]
    exact List.dropWhile_cons_of_neg (by rw [hc]; exact Bool.false_ne_true)
  unfold trim trimEnd
  rw [hstart, List.reverse_append, List.dropWhile_append_of_pos fun c hc =>
    hafter c (List.mem_reverse.1 hc)]
  obtain ⟨c, t, ht⟩ := List.exists_cons_of_ne_nil fun h => hne (List.reverse_eq_nil_iff.1 h)
  have hc := htext c (List.mem_reverse.1 (ht ▸ List.mem_cons_self))
  rw [ht, List.dropWhile_cons_of_neg (by rw [hc]; exact Bool.false_ne_true), ← ht,
    List.reverse_reverse]

/-- What may follow a value, behind white space. -/
def Closing (d : Char) : Prop := d = ',' ∨ d = ']' ∨ d = '}'

theorem Closing.not_space {d : Char} (h : Closing d) : isWhitespace d = false := by
  rcases h with rfl | rfl | rfl <;> decide

theorem parseBareValue_eq {fromStr : Str → Option Json} {value : Json} {text spaces : Str}
    {d : Char} (h : Literal fromStr value text)
    (hvalue : ∀ raw, fromStr raw = some value → bareValue fromStr raw = value)
    (hspaces : Spaces spaces) (hd : Closing d) :
    parseBareValue fromStr ⟨text ++ spaces ++ d :: rest, nodes⟩ =
      some (value, ⟨d :: rest, nodes⟩) := by
  obtain ⟨hne, htext, hread⟩ := h
  have hall : ∀ c ∈ text ++ spaces, decide (c ∉ [',', ']', '}']) = true := by
    intro c hc
    rw [decide_eq_true_iff]
    rcases List.mem_append.1 hc with hc | hc
    · have hbare := htext c hc
      simp only [List.mem_cons, List.not_mem_nil, or_false, not_or]
      exact ⟨isBareChar_ne hbare rfl, isBareChar_ne hbare rfl, isBareChar_ne hbare rfl⟩
    · have hspace := hspaces c hc
      simp only [List.mem_cons, List.not_mem_nil, or_false, not_or]
      exact ⟨space_ne hspace rfl, space_ne hspace rfl, space_ne hspace rfl⟩
  have hstop : ¬ decide (d ∉ [',', ']', '}']) = true := by
    rcases hd with rfl | rfl | rfl <;> decide
  have htake : (text ++ spaces ++ d :: rest).takeWhile (fun c => decide (c ∉ [',', ']', '}'])) =
      text ++ spaces := by
    have hnone : (d :: rest).takeWhile (fun c => decide (c ∉ [',', ']', '}'])) = [] :=
      List.takeWhile_cons_of_neg hstop
    rw [List.takeWhile_append_of_pos hall, hnone, List.append_nil]
  have hnone : Spaces [] := fun c hc => by cases hc
  have htrim : trim (text ++ spaces) = text :=
    trim_between hne (fun c hc => isBareChar_not_space (htext c hc)) hnone hspaces
  unfold parseBareValue
  dsimp only
  rw [htake, htrim, if_neg hne, hvalue text hread, List.drop_left]

/-! ## Values -/

variable {fromStr : Str → Option Json}

/-- The first character of a rendering. -/
theorem Renders.head {value : Json} {text : Str} (h : Renders fromStr value text) :
    ∃ c t, text = c :: t ∧ isWhitespace c = false ∧ ¬ Closing c := by
  have hliteral : Literal fromStr value text →
      ∃ c t, text = c :: t ∧ isWhitespace c = false ∧ ¬ Closing c := by
    rintro ⟨hne, htext, -⟩
    obtain ⟨c, t, rfl⟩ := List.exists_cons_of_ne_nil hne
    have hbare := htext c List.mem_cons_self
    refine ⟨c, t, rfl, isBareChar_not_space hbare, ?_⟩
    rintro (hc | hc | hc)
    · exact isBareChar_ne hbare rfl hc
    · exact isBareChar_ne hbare rfl hc
    · exact isBareChar_ne hbare rfl hc
  have hmark : ∀ c, c ∈ ['"', '\'', '<', '[', '{'] → isWhitespace c = false ∧ ¬ Closing c := by
    intro c hc
    simp only [List.mem_cons, List.not_mem_nil, or_false] at hc
    unfold Closing
    rcases hc with rfl | rfl | rfl | rfl | rfl <;> decide
  cases value with
  | null => exact hliteral h
  | bool b => exact hliteral h
  | number n => exact hliteral h
  | string s =>
    obtain ⟨c, t, rfl, hc⟩ := Quoted.head h
    exact ⟨c, t, rfl, hmark c (by rcases hc with rfl | rfl | rfl <;> simp)⟩
  | array items =>
    obtain ⟨spaces, rest, -, rfl, -⟩ := h
    exact ⟨'[', _, rfl, hmark '[' (by simp)⟩
  | object fields =>
    obtain ⟨spaces, rest, -, rfl, -⟩ := h
    exact ⟨'{', _, rfl, hmark '{' (by simp)⟩

/-- A parser reads a value back from a text, up to the white space behind it. -/
def ReadsBack (parse : GemmaM Json) (value : Json) (text : Str) : Prop :=
  ∀ (nodes : Nat) (spaces : Str) (d : Char) (rest : Str),
    nodes + valueCount value ≤ MAX_INSTANCE_NODES → Spaces spaces → Closing d →
      ∃ rest', parse ⟨text ++ spaces ++ d :: rest, nodes⟩ =
          some (value, ⟨rest', nodes + valueCount value⟩) ∧ trimStart rest' = d :: rest

theorem consumeIf_pos (c : Char) :
    consumeIf c ⟨c :: rest, nodes⟩ = some (true, ⟨rest, nodes⟩) := if_pos rfl

theorem consumeIf_neg {c d : Char} (h : d ≠ c) :
    consumeIf c ⟨d :: rest, nodes⟩ = some (false, ⟨d :: rest, nodes⟩) := if_neg h

theorem peekChar_eq (c : Char) :
    peekChar ⟨c :: rest, nodes⟩ = some (some c, ⟨c :: rest, nodes⟩) := rfl

theorem RendersItems.head {items : List Json} {text : Str} (h : RendersItems fromStr items text) :
    ∃ c t, text = c :: t ∧ isWhitespace c = false ∧ ¬ Closing c := by
  cases items with
  | nil => exact False.elim h
  | cons item items =>
    obtain ⟨itemText, spaces, rest, hitem, -, rfl, -⟩ := h
    obtain ⟨c, t, rfl, hc⟩ := hitem.head
    exact ⟨c, _, rfl, hc⟩

theorem RendersFields.head {fields : Fields} {text : Str} (h : RendersFields fromStr fields text) :
    ∃ c t, text = c :: t ∧ isWhitespace c = false ∧ ¬ Closing c := by
  cases fields with
  | nil => exact False.elim h
  | cons field fields =>
    obtain ⟨key, value⟩ := field
    obtain ⟨keyText, -, -, -, -, -, hkey, -, -, -, -, rfl, -⟩ := h
    obtain ⟨c, t, rfl, hc⟩ := hkey.head
    have hmark : isWhitespace c = false ∧ ¬ Closing c := by
      unfold Closing
      rcases hc with rfl | rfl | rfl <;> decide
    exact ⟨c, _, rfl, hmark⟩

/-- The items of an array, from the first one on. -/
theorem parseItems_eq {parse : GemmaM Json} {items : List Json} {text : Str} {left : Nat}
    {values : List Json} (hleft : items.length ≤ left)
    (hnodes : nodes + itemsCount items ≤ MAX_INSTANCE_NODES)
    (hread : ∀ item ∈ items, ∀ text, Renders fromStr item text → ReadsBack parse item text)
    (h : RendersItems fromStr items text) :
    parseItems parse left values ⟨text ++ rest, nodes⟩ =
      some (.array (values ++ items), ⟨rest, nodes + itemsCount items⟩) := by
  induction items generalizing text left values nodes with
  | nil => exact False.elim h
  | cons item items ih =>
    obtain ⟨itemText, spaces, ending, hitem, hspaces, rfl, hend⟩ := h
    obtain ⟨left, rfl⟩ := Nat.exists_eq_add_one_of_ne_zero (by
      rw [List.length_cons] at hleft
      omega : left ≠ 0)
    rw [List.length_cons] at hleft
    rw [itemsCount] at hnodes ⊢
    have hitemRead := hread item List.mem_cons_self itemText hitem
    unfold parseItems
    rcases hend with ⟨rfl, rfl⟩ | ⟨spaces', rest', hspaces', rfl, hitems⟩
    · obtain ⟨after, hparse, htrim⟩ := hitemRead nodes spaces ']' rest
        (by omega) hspaces (.inr (.inl rfl))
      rw [List.append_assoc, List.singleton_append, bind_apply hparse,
        bind_apply (skipWhitespace_of_trimStart htrim), bind_apply (consumeIf_pos ']'), if_pos rfl]
      rfl
    · obtain ⟨after, hparse, htrim⟩ := hitemRead nodes spaces ',' (spaces' ++ rest' ++ rest)
        (by omega) hspaces (.inl rfl)
      obtain ⟨c, t, rfl, hspace, hclosing⟩ := hitems.head
      rw [List.append_assoc, List.cons_append, List.cons_append, bind_apply hparse,
        bind_apply (skipWhitespace_of_trimStart htrim),
        bind_apply (consumeIf_neg (by decide : ',' ≠ ']')), if_neg Bool.false_ne_true,
        bind_apply (consumeChar_eq ','), List.append_assoc, List.cons_append,
        bind_apply (skipWhitespace_of_trimStart (trimStart_spaces hspaces' hspace)),
        bind_apply (peekChar_eq c),
        if_neg (fun hc => hclosing (.inr (.inl (Option.some.inj hc)))), ← List.cons_append,
        ih (by omega) (by omega) (fun i hi => hread i (List.mem_cons_of_mem _ hi)) hitems,
        List.append_assoc, Nat.add_assoc]
      rfl

/-- The start of a field: its key and its value, up to the mark behind it. -/
theorem parseField_eq {parse : GemmaM Json} {key : String} {value : Json} {object : Fields}
    {keyText spaces₁ spaces₂ valueText spaces₃ : Str} {d : Char}
    (hkey : Quoted key.toList keyText) (hvalid : validArgumentName key.toList = true)
    (hfresh : (object.lookup key).isSome = false) (hspaces₁ : Spaces spaces₁)
    (hspaces₂ : Spaces spaces₂) (hspaces₃ : Spaces spaces₃)
    (hvalue : Renders fromStr value valueText) (hread : ReadsBack parse value valueText)
    (hnodes : nodes + valueCount value ≤ MAX_INSTANCE_NODES) (hd : Closing d) :
    parseField parse object
      ⟨keyText ++ spaces₁ ++ ':' :: spaces₂ ++ valueText ++ spaces₃ ++ d :: rest, nodes⟩ =
    some ((key, value), ⟨d :: rest, nodes + valueCount value⟩) := by
  obtain ⟨after, hparse, htrim⟩ := hread nodes spaces₃ d rest hnodes hspaces₃ hd
  obtain ⟨c, t, rfl, hspace, -⟩ := hvalue.head
  have htext : keyText ++ spaces₁ ++ ':' :: spaces₂ ++ c :: t ++ spaces₃ ++ d :: rest =
      keyText ++ (spaces₁ ++ ':' :: (spaces₂ ++ c :: (t ++ spaces₃ ++ d :: rest))) := by
    simp only [List.append_assoc, List.cons_append]
  unfold parseField
  rw [htext, bind_apply (parseKey_eq hkey hvalid), String.ofList_toList,
    if_neg (by rw [hfresh]; exact Bool.false_ne_true),
    bind_apply (skipWhitespace_of_trimStart (trimStart_spaces hspaces₁ (by decide))),
    bind_apply (consumeChar_eq ':'),
    bind_apply (skipWhitespace_of_trimStart (trimStart_spaces hspaces₂ hspace)),
    ← List.cons_append, ← List.cons_append, bind_apply hparse,
    bind_apply (skipWhitespace_of_trimStart htrim)]
  rfl

/-- The fields of an object, from the first one on. -/
theorem parseFields_eq {parse : GemmaM Json} {fields object : Fields} {text : Str} {left : Nat}
    (hleft : fields.length ≤ left)
    (hnodes : nodes + fieldsCount fields ≤ MAX_INSTANCE_NODES)
    (hkeys : ((object ++ fields).map Prod.fst).Nodup)
    (hvalid : ∀ field ∈ fields, validArgumentName field.1.toList = true)
    (hread : ∀ field ∈ fields, ∀ text, Renders fromStr field.2 text →
      ReadsBack parse field.2 text)
    (h : RendersFields fromStr fields text) :
    parseFields parse left object ⟨text ++ rest, nodes⟩ =
      some (.object (object ++ fields), ⟨rest, nodes + fieldsCount fields⟩) := by
  induction fields generalizing text left object nodes with
  | nil => exact False.elim h
  | cons field fields ih =>
    obtain ⟨key, value⟩ := field
    obtain ⟨keyText, spaces₁, spaces₂, valueText, spaces₃, ending, hkey, hspaces₁, hspaces₂, hvalue,
      hspaces₃, rfl, hend⟩ := h
    obtain ⟨left, rfl⟩ := Nat.exists_eq_add_one_of_ne_zero (by
      rw [List.length_cons] at hleft
      omega : left ≠ 0)
    rw [List.length_cons] at hleft
    rw [fieldsCount] at hnodes ⊢
    have hvalueRead : ReadsBack parse value valueText :=
      hread (key, value) List.mem_cons_self valueText hvalue
    have hkeyValid := hvalid (key, value) List.mem_cons_self
    have hfresh : (object.lookup key).isSome = false := by
      rw [Option.isSome_eq_false_iff, Option.isNone_iff_eq_none, List.lookup_eq_none_iff]
      intro field hfield
      rw [List.map_append, List.nodup_append] at hkeys
      have hne := hkeys.2.2 _ (List.mem_map_of_mem hfield) key (by simp)
      exact bne_iff_ne.2 hne.symm
    have hcount : nodes + valueCount value ≤ MAX_INSTANCE_NODES := by omega
    unfold parseFields
    rcases hend with ⟨rfl, rfl⟩ | ⟨spaces', rest', hspaces', rfl, hfields⟩
    · have hfield := @parseField_eq rest _ _ _ _ _ _ _ _ _ _ _ _ hkey hkeyValid hfresh hspaces₁
        hspaces₂ hspaces₃ hvalue hvalueRead hcount (.inr (.inr rfl))
      rw [List.append_assoc, List.singleton_append, bind_apply hfield,
        bind_apply (consumeIf_pos '}'), if_pos rfl]
      rfl
    · obtain ⟨c, t, rfl, hspace, hclosing⟩ := hfields.head
      have hfield := @parseField_eq (spaces' ++ c :: (t ++ rest)) _ _ _ _ _ _ _ _ _ _ _ _ hkey
        hkeyValid hfresh hspaces₁ hspaces₂ hspaces₃ hvalue hvalueRead hcount (.inl rfl)
      have htext : keyText ++ spaces₁ ++ ':' :: spaces₂ ++ valueText ++ spaces₃ ++
          (',' :: spaces' ++ c :: t) ++ rest =
          keyText ++ spaces₁ ++ ':' :: spaces₂ ++ valueText ++ spaces₃ ++
            ',' :: (spaces' ++ c :: (t ++ rest)) := by
        simp only [List.append_assoc, List.cons_append]
      have hkeys' : ((object ++ [(key, value)] ++ fields).map Prod.fst).Nodup := by
        rwa [List.append_assoc, List.singleton_append]
      have hnodes' : nodes + valueCount value + fieldsCount fields ≤ MAX_INSTANCE_NODES := by omega
      have hrest := ih (Nat.le_of_succ_le_succ hleft) hnodes' hkeys'
        (fun i hi => hvalid i (List.mem_cons_of_mem _ hi))
        (fun i hi => hread i (List.mem_cons_of_mem _ hi)) hfields
      rw [htext, bind_apply hfield, bind_apply (consumeIf_neg (by decide : ',' ≠ '}')),
        if_neg Bool.false_ne_true, bind_apply (consumeChar_eq ','),
        bind_apply (skipWhitespace_of_trimStart (trimStart_spaces hspaces' hspace)),
        bind_apply (peekChar_eq c),
        if_neg (fun hc => hclosing (.inr (.inr (Option.some.inj hc)))), ← List.cons_append, hrest,
        List.append_assoc, Nat.add_assoc]
      rfl

/-- An array, from its bracket on. -/
theorem parseArray_eq {parse : GemmaM Json} {items : List Json} {text : Str}
    (hcount : items.length ≤ MAX_TOOL_ARGUMENTS)
    (hnodes : nodes + itemsCount items ≤ MAX_INSTANCE_NODES)
    (hread : ∀ item ∈ items, ∀ text, Renders fromStr item text → ReadsBack parse item text)
    (h : Renders fromStr (.array items) text) :
    parseArray parse ⟨text ++ rest, nodes⟩ =
      some (.array items, ⟨rest, nodes + itemsCount items⟩) := by
  obtain ⟨spaces, ending, hspaces, rfl, hend⟩ := h
  unfold parseArray
  rw [List.append_assoc, List.cons_append, bind_apply (consumeChar_eq '[')]
  rcases hend with ⟨rfl, rfl⟩ | hitems
  · rw [List.singleton_append,
      bind_apply (skipWhitespace_of_trimStart (trimStart_spaces hspaces (by decide))),
      bind_apply (consumeIf_pos ']'), if_pos rfl]
    rfl
  · obtain ⟨c, t, rfl, hspace, hclosing⟩ := hitems.head
    rw [List.cons_append,
      bind_apply (skipWhitespace_of_trimStart (trimStart_spaces hspaces hspace)),
      bind_apply (consumeIf_neg fun hc => hclosing (.inr (.inl hc))), if_neg Bool.false_ne_true,
      ← List.cons_append, parseItems_eq hcount hnodes hread hitems, List.nil_append]

/-- An object, from its brace on. -/
theorem parseObject_eq {parse : GemmaM Json} {fields : Fields} {text : Str}
    (hfit : FieldsFit fields) (hnodes : nodes + fieldsCount fields ≤ MAX_INSTANCE_NODES)
    (hread : ∀ field ∈ fields, ∀ text, Renders fromStr field.2 text →
      ReadsBack parse field.2 text)
    (h : Renders fromStr (.object fields) text) :
    parseObject parse ⟨text ++ rest, nodes⟩ =
      some (.object fields, ⟨rest, nodes + fieldsCount fields⟩) := by
  obtain ⟨spaces, ending, hspaces, rfl, hend⟩ := h
  unfold parseObject
  rw [List.append_assoc, List.cons_append, bind_apply (consumeChar_eq '{')]
  rcases hend with ⟨rfl, rfl⟩ | hfields
  · rw [List.singleton_append,
      bind_apply (skipWhitespace_of_trimStart (trimStart_spaces hspaces (by decide))),
      bind_apply (consumeIf_pos '}'), if_pos rfl]
    rfl
  · obtain ⟨c, t, rfl, hspace, hclosing⟩ := hfields.head
    have hnodup : (([] ++ fields).map Prod.fst).Nodup := hfit.nodup
    rw [List.cons_append,
      bind_apply (skipWhitespace_of_trimStart (trimStart_spaces hspaces hspace)),
      bind_apply (consumeIf_neg fun hc => hclosing (.inr (.inr hc))), if_neg Bool.false_ne_true,
      ← List.cons_append, parseFields_eq hfit.count hnodes hnodup hfit.keys hread hfields,
      List.nil_append]

theorem countNode_eq {t : Str} (h : nodes + 1 ≤ MAX_INSTANCE_NODES) :
    countNode ⟨t, nodes⟩ = some ((), ⟨t, nodes + 1⟩) := if_neg (Nat.not_lt.2 h)

/-- A value whose text is read to its last character reads back. -/
theorem ReadsBack.of_exact {parse : GemmaM Json} {value : Json} {text : Str}
    (h : ∀ nodes rest, nodes + valueCount value ≤ MAX_INSTANCE_NODES →
      parse ⟨text ++ rest, nodes⟩ = some (value, ⟨rest, nodes + valueCount value⟩)) :
    ReadsBack parse value text := by
  intro nodes spaces d rest hnodes hspaces hd
  refine ⟨spaces ++ d :: rest, ?_, trimStart_spaces hspaces hd.not_space⟩
  rw [List.append_assoc]
  exact h nodes _ hnodes

section valueWith

variable {array object : GemmaM Json}

theorem readsBack_string {s : String} {text : Str} (h : Quoted s.toList text) :
    ReadsBack (parseValueWith fromStr array object) (.string s) text := by
  refine ReadsBack.of_exact fun nodes rest hnodes => ?_
  have hone : valueCount (.string s) = 1 := rfl
  rw [hone] at hnodes ⊢
  unfold parseValueWith
  rw [bind_apply (countNode_eq hnodes)]
  rcases @parseQuoted_eq rest (nodes + 1) _ _ h with ⟨hpre, hparse⟩ | ⟨hpre, hhead, hparse⟩
  · rw [if_pos hpre, bind_apply hparse, String.ofList_toList]
    rfl
  · rw [if_neg hpre]
    rcases hhead with hhead | hhead
    · rw [hhead]
      dsimp only
      rw [if_pos (.inl rfl), bind_apply hparse, String.ofList_toList]
      rfl
    · rw [hhead]
      dsimp only
      rw [if_pos (.inr rfl), bind_apply hparse, String.ofList_toList]
      rfl

theorem not_prefix_of_ne {c : Char} {t : Str} (h : c ≠ '<') : ¬ QUOTE <+: c :: t :=
  fun hpre => h (List.cons_prefix_cons.1 hpre).1.symm

theorem readsBack_literal {value : Json} {text : Str} (hone : valueCount value = 1)
    (hvalue : ∀ raw, fromStr raw = some value → bareValue fromStr raw = value)
    (h : Literal fromStr value text) :
    ReadsBack (parseValueWith fromStr array object) value text := by
  intro nodes spaces d rest hnodes hspaces hd
  rw [hone] at hnodes ⊢
  refine ⟨d :: rest, ?_, ?_⟩
  · obtain ⟨c, t, rfl⟩ := List.exists_cons_of_ne_nil h.1
    have hbare := h.2.1 c List.mem_cons_self
    have hne : ∀ m, isBareChar m = false → c ≠ m := fun m hm => isBareChar_ne hbare hm
    unfold parseValueWith
    rw [bind_apply (countNode_eq hnodes)]
    have hread := @parseBareValue_eq rest (nodes + 1) _ _ _ _ _ h hvalue hspaces hd
    rw [List.cons_append, List.cons_append] at hread ⊢
    rw [if_neg (not_prefix_of_ne (hne '<' rfl)), List.head?_cons]
    dsimp only
    rw [if_neg (not_or.2 ⟨hne '"' rfl, hne '\'' rfl⟩), if_neg (hne '[' rfl), if_neg (hne '{' rfl),
      hread]
  · exact List.dropWhile_cons_of_neg (by rw [hd.not_space]; exact Bool.false_ne_true)

theorem readsBack_array {items : List Json} {text : Str}
    (hparse : ∀ nodes rest, nodes + itemsCount items ≤ MAX_INSTANCE_NODES →
      array ⟨text ++ rest, nodes⟩ = some (.array items, ⟨rest, nodes + itemsCount items⟩))
    (h : Renders fromStr (.array items) text) :
    ReadsBack (parseValueWith fromStr array object) (.array items) text := by
  refine ReadsBack.of_exact fun nodes rest hnodes => ?_
  rw [valueCount] at hnodes ⊢
  have harray := hparse (nodes + 1) rest (by omega)
  obtain ⟨spaces, ending, -, rfl, -⟩ := h
  unfold parseValueWith
  rw [bind_apply (countNode_eq (by omega))]
  rw [List.cons_append, List.cons_append] at harray ⊢
  rw [if_neg (not_prefix_of_ne (by decide)), List.head?_cons]
  dsimp only
  rw [if_neg (by decide), if_pos rfl, harray, Nat.add_assoc]

theorem readsBack_object {fields : Fields} {text : Str}
    (hparse : ∀ nodes rest, nodes + fieldsCount fields ≤ MAX_INSTANCE_NODES →
      object ⟨text ++ rest, nodes⟩ = some (.object fields, ⟨rest, nodes + fieldsCount fields⟩))
    (h : Renders fromStr (.object fields) text) :
    ReadsBack (parseValueWith fromStr array object) (.object fields) text := by
  refine ReadsBack.of_exact fun nodes rest hnodes => ?_
  rw [valueCount] at hnodes ⊢
  have hobject := hparse (nodes + 1) rest (by omega)
  obtain ⟨spaces, ending, -, rfl, -⟩ := h
  unfold parseValueWith
  rw [bind_apply (countNode_eq (by omega))]
  rw [List.cons_append, List.cons_append] at hobject ⊢
  rw [if_neg (not_prefix_of_ne (by decide)), List.head?_cons]
  dsimp only
  rw [if_neg (by decide), if_neg (by decide), if_pos rfl, hobject, Nat.add_assoc]

end valueWith

theorem bareValue_eq {value : Json} (hstrict : strictValue value = some value)
    (hvalue : value = .null ∨ (∃ b, value = .bool b) ∨ ∃ n, value = .number n) (raw : Str)
    (h : fromStr raw = some value) : bareValue fromStr raw = value := by
  have hparse : parseStrictJson fromStr raw = some value := by
    unfold parseStrictJson
    rw [h, Option.bind_some, hstrict]
  unfold bareValue
  rw [hparse]
  rcases hvalue with rfl | ⟨b, rfl⟩ | ⟨n, rfl⟩ <;> rfl

/-- The parser inverts every rendering of a value within its limits. -/
theorem parseValue_of_renders {levels : Nat} {value : Json} {text : Str}
    (hfits : Fits levels value) (h : Renders fromStr value text) :
    ReadsBack (parseValue fromStr levels) value text := by
  induction levels generalizing value text with
  | zero =>
    unfold parseValue
    cases value with
    | null => exact readsBack_literal rfl (bareValue_eq rfl (.inl rfl)) h
    | bool b => exact readsBack_literal rfl (bareValue_eq rfl (.inr (.inl ⟨b, rfl⟩))) h
    | number n => exact readsBack_literal rfl (bareValue_eq rfl (.inr (.inr ⟨n, rfl⟩))) h
    | string s => exact readsBack_string h
    | array items => exact False.elim hfits
    | object fields => exact False.elim hfits
  | succ levels ih =>
    unfold parseValue
    cases value with
    | null => exact readsBack_literal rfl (bareValue_eq rfl (.inl rfl)) h
    | bool b => exact readsBack_literal rfl (bareValue_eq rfl (.inr (.inl ⟨b, rfl⟩))) h
    | number n => exact readsBack_literal rfl (bareValue_eq rfl (.inr (.inr ⟨n, rfl⟩))) h
    | string s => exact readsBack_string h
    | array items =>
      obtain ⟨hcount, hitems⟩ := hfits
      refine readsBack_array (fun nodes rest hnodes => ?_) h
      exact parseArray_eq hcount hnodes (fun item hitem _ => ih (hitems item hitem)) h
    | object fields =>
      obtain ⟨hfit, hfields⟩ := hfits
      refine readsBack_object (fun nodes rest hnodes => ?_) h
      exact parseObject_eq hfit hnodes (fun field hfield _ => ih (hfields field hfield)) h

end steps

/-! ## Calls -/

variable {fromStr : Str → Option Json}

/-- The first occurrence of a character. -/
theorem find_char {c : Char} {p q : Str} (h : c ∉ p) : find [c] (p ++ c :: q) = some p.length := by
  induction p with
  | nil => exact if_pos (List.cons_prefix_cons.2 ⟨rfl, List.nil_prefix⟩)
  | cons d p ih =>
    rw [List.mem_cons, not_or] at h
    obtain ⟨hne, hp⟩ := h
    rw [List.cons_append, find, if_neg fun hpre => hne (List.cons_prefix_cons.1 hpre).1, ih hp]
    rfl

theorem space_ne_brace {s : Str} (h : Spaces s) : '{' ∉ s :=
  fun hmem => space_ne (h _ hmem) (by decide) rfl

theorem parseGemmaCall_eq {name : Str} {fields : Fields} {before between text rest : Str}
    (hname : validToolName name = true) (hfits : Fits MAX_SCHEMA_DEPTH (.object fields))
    (hcount : fieldsCount fields ≤ MAX_INSTANCE_NODES) (hbefore : Spaces before)
    (hbetween : Spaces between) (h : Renders fromStr (.object fields) text) :
    parseGemmaCall fromStr (before ++ (name ++ between) ++ (text ++ rest)) =
      some (String.ofList name, .object fields, rest) := by
  have hchars := hname
  unfold validToolName at hchars
  rw [Bool.and_eq_true, Bool.and_eq_true, Bool.not_eq_true', List.isEmpty_eq_false_iff,
    List.all_eq_true] at hchars
  obtain ⟨⟨hne, -⟩, hchars⟩ := hchars
  have htrim : trim (before ++ (name ++ between)) = name :=
    trim_between hne (fun c hc => isNameChar_not_space (hchars c hc)) hbefore hbetween
  have hno : '{' ∉ before ++ (name ++ between) := by
    rw [List.mem_append, List.mem_append, not_or, not_or]
    refine ⟨space_ne_brace hbefore, fun hmem => ?_, space_ne_brace hbetween⟩
    exact absurd (hchars _ hmem) (by decide)
  have hbrace : find ['{'] (before ++ (name ++ between) ++ (text ++ rest)) =
      some (before ++ (name ++ between)).length := by
    obtain ⟨spaces, ending, -, rfl, -⟩ := h
    exact find_char hno
  have hparse := @parseObject_eq rest 0 _ _ _ _ hfits.1 ((Nat.zero_add _).trans_le hcount)
    (fun field hfield _ => parseValue_of_renders (hfits.2 field hfield)) h
  unfold parseGemmaCall
  rw [hbrace]
  show (if validToolName (trim _) = true then _ else _) = _
  rw [List.take_left, htrim, if_pos hname, List.drop_left]
  show Option.bind (parseObject (parseValue fromStr 63) ⟨text ++ rest, 0⟩) _ = _
  rw [hparse]
  rfl

/-- Every rendering of a call reads back as the one proposal of its text: with its name and an
equal object, over its whole span; and the parser takes at least one character for each value,
whatever the text is. -/
theorem gemma_round_trip {name : Str} {fields : Fields} {before between text after : Str}
    (hname : validToolName name = true) (hfits : Fits MAX_SCHEMA_DEPTH (.object fields))
    (hcount : fieldsCount fields ≤ MAX_INSTANCE_NODES) (hbefore : Spaces before)
    (hbetween : Spaces between) (hafter : Spaces after)
    (h : Renders fromStr (.object fields) text) :
    let call := GEMMA_OPEN ++ (before ++ (name ++ between) ++ (text ++ (after ++ GEMMA_CLOSE)))
    parseGemma fromStr call = [⟨String.ofList name, .object fields, 0, call.length⟩] ∧
      ∀ levels, Consumes 1 (parseValue fromStr levels) := by
  intro call
  refine ⟨?_, fun levels => consumes_parseValue levels⟩
  have hopen : find GEMMA_OPEN call = some 0 := by
    rw [find_eq_some]
    exact ⟨Nat.zero_le _, List.prefix_append _ _, fun j hj => absurd hj (Nat.not_lt_zero j)⟩
  have hclose : trimStart (after ++ GEMMA_CLOSE) = GEMMA_CLOSE :=
    trimStart_spaces hafter (by decide)
  have hblock : parseGemmaBlock fromStr (call.drop GEMMA_OPEN.length) =
      some (String.ofList name, .object fields, []) := by
    unfold parseGemmaBlock
    rw [List.drop_left, parseGemmaCall_eq hname hfits hcount hbefore hbetween h]
    show Option.bind (stripPrefix GEMMA_CLOSE (trimStart (after ++ GEMMA_CLOSE))) _ = _
    rw [hclose, stripPrefix_eq_some.2 (List.append_nil _).symm]
    rfl
  have hend : find GEMMA_OPEN (call.drop call.length) = none := by
    rw [List.drop_length]
    exact if_neg (by decide)
  unfold parseGemma
  show parseGemmaFrom fromStr call (255 + 1) 64 0 = _
  rw [parseGemmaFrom, if_neg (by decide), List.drop_zero, hopen]
  dsimp only
  rw [Nat.zero_add, Nat.zero_add, hblock]
  dsimp only
  rw [List.length_nil, Nat.sub_zero]
  show _ :: parseGemmaFrom fromStr call (254 + 1) 63 call.length = _
  rw [parseGemmaFrom, if_neg (by decide), hend]

/-- A text may stand between double quotes as it is when it needs no escapes. -/
theorem quoted_plain {s : Str} (h : ∀ c ∈ s, c ≠ '"' ∧ c ≠ '\\' ∧ isControl c = false) :
    Quoted s ('"' :: s ++ ['"']) := by
  have hpieces : List.Forall₂ (QuotedChar '"') s (s.map fun c => [c]) := by
    induction s with
    | nil => exact .nil
    | cons c s ih =>
      obtain ⟨hquote, hslash, hcontrol⟩ := h c List.mem_cons_self
      exact .cons (.raw hquote hslash hcontrol) (ih fun d hd => h d (List.mem_cons_of_mem _ hd))
  have hflat : (s.map fun c => [c]).flatten = s := by
    rw [← List.flatMap_def, List.flatMap_singleton']
  have hquoted := Quoted.quotes (.inl rfl) hpieces
  rwa [hflat] at hquoted

/-- A string that holds the end of a call, and a number. -/
theorem gemma_round_trip_closing :
    let inner : Str := ['"', '}'] ++ GEMMA_CLOSE
    let text : Str := ['{', '"', 'a', '"', ' ', ':'] ++ (QUOTE ++ inner ++ QUOTE) ++
      [',', '"', 'b', '"', ':', '7', ' ', '}']
    let call := GEMMA_OPEN ++ ([' '] ++ (['f'] ++ [' ']) ++ (text ++ (['\n'] ++ GEMMA_CLOSE)))
    parseGemma (fun raw => if raw = ['7'] then some (.number (.posInt 7)) else none) call =
      [⟨String.ofList ['f'], .object [(String.ofList ['a'], .string (String.ofList inner)),
        (String.ofList ['b'], .number (.posInt 7))], 0, call.length⟩] := by
  have hspace : Spaces [' '] := List.forall_mem_singleton.2 rfl
  have hnone : Spaces [] := fun c hc => by cases hc
  intro inner text call
  have hafter : Spaces ['\n'] := List.forall_mem_singleton.2 rfl
  refine (@gemma_round_trip _ ['f'] _ [' '] [' '] text ['\n'] (by decide) ?_ (by decide) hspace
    hspace hafter ?_).1
  · have hkeys : [String.ofList ['a'], String.ofList ['b']].Nodup := by decide
    refine ⟨⟨by decide, hkeys, ?_⟩, ?_⟩
    · intro field hfield
      rcases List.mem_cons.1 hfield with rfl | hfield
      · rw [String.toList_ofList]
        decide
      · rw [List.mem_singleton.1 hfield, String.toList_ofList]
        decide
    · intro field hfield
      rcases List.mem_cons.1 hfield with rfl | hfield
      · trivial
      · rw [List.mem_singleton.1 hfield]
        trivial
  · have hplain : ∀ c : Char, c ≠ '"' ∧ c ≠ '\\' ∧ isControl c = false →
        Quoted (String.ofList [c]).toList ('"' :: [c] ++ ['"']) := by
      intro c hc
      rw [String.toList_ofList]
      exact quoted_plain fun d hd => List.mem_singleton.1 hd ▸ hc
    have hmarked : Quoted (String.ofList inner).toList (QUOTE ++ inner ++ QUOTE) := by
      rw [String.toList_ofList]
      have hfind : (find QUOTE (['"', '}'] ++ GEMMA_CLOSE)).isSome = false := by decide
      exact .marked fun hinfix => Bool.false_ne_true (hfind.symm.trans (find_isSome.2 hinfix))
    have hseven : Renders (fun raw => if raw = ['7'] then some (.number (.posInt 7)) else none)
        (.number (.posInt 7)) ['7'] := ⟨by decide, List.forall_mem_singleton.2 rfl, if_pos rfl⟩
    refine ⟨[], _, hnone, rfl, .inr ⟨_, [' '], [], _, [], _, hplain 'a' (by decide), hspace, hnone,
      hmarked, hnone, ?_, .inr ⟨[], _, hnone, rfl, ⟨_, [], [], _, [' '], _, hplain 'b' (by decide),
        hnone, hnone, hseven, hspace, rfl, .inl ⟨rfl, rfl⟩⟩⟩⟩⟩
    rfl

end Emelex
