import Emelex.Lib.Json
import Mathlib.Data.List.Basic
import Mathlib.Tactic.Common

/-!
# The text of a JSON value

* `Json.tokens` — a value as brackets, literals and separators, on one line or with a line for each
  item.
* `Json.Style` — how the literals and the separators are written.
* `Json.readValue`, `Json.parse` — a reader of JSON; a number with a fraction or an exponent is read by
  a function that is given.

Principal results: `readChar_escape`, `readChar_ascii`, `readValue_write`, `parse_write`.
-/

set_option autoImplicit false

namespace Json

/-! ## Tokens -/

/-- A part of a text: characters that are written as they are, a string literal, or a separator. -/
inductive Token where
  | plain (text : List Char)
  | literal (s : String)
  | item
  | key

/-- How numbers are written, and how far the lines of the items are indented; without an indent all is
on one line. -/
structure Layout where
  float : Rat → List Char
  indent : Option Nat

namespace Layout

variable (layout : Layout)

def lineBreak (depth : Nat) : List Char :=
  match layout.indent with
  | none => []
  | some indent => '\n' :: List.replicate (indent * depth) ' '

def number : JsonNumber → List Char
  | .posInt n => Nat.toDigits 10 n
  | .negInt n => '-' :: Nat.toDigits 10 n.natAbs
  | .float value => layout.float value

mutual

def tokens (depth : Nat) : Json → List Token
  | null => [.plain "null".toList]
  | bool true => [.plain "true".toList]
  | bool false => [.plain "false".toList]
  | .number n => [.plain (layout.number n)]
  | string s => [.literal s]
  | array [] => [.plain ['[', ']']]
  | array (x :: xs) =>
    .plain ('[' :: layout.lineBreak (depth + 1)) :: tokens (depth + 1) x ++
      itemTokens (depth + 1) xs ++ [.plain (layout.lineBreak depth ++ [']'])]
  | object [] => [.plain ['\x7b', '\x7d']]
  | object ((k, v) :: fields) =>
    .plain ('\x7b' :: layout.lineBreak (depth + 1)) :: .literal k :: .key :: tokens (depth + 1) v ++
      fieldTokens (depth + 1) fields ++ [.plain (layout.lineBreak depth ++ ['\x7d'])]

/-- The items behind the first one. -/
def itemTokens (depth : Nat) : List Json → List Token
  | [] => []
  | x :: xs =>
    .item :: .plain (layout.lineBreak depth) :: tokens depth x ++ itemTokens depth xs

/-- The fields behind the first one. -/
def fieldTokens (depth : Nat) : List (String × Json) → List Token
  | [] => []
  | (k, v) :: fields =>
    .item :: .plain (layout.lineBreak depth) :: .literal k :: .key :: tokens depth v ++
      fieldTokens depth fields

end

end Layout

/-- How a character of a string literal, the separator of items and that of a key are written. -/
structure Style where
  char : Char → List Char
  item : List Char
  key : List Char

def Style.text (style : Style) : Token → List Char
  | .plain text => text
  | .literal s => '"' :: s.toList.flatMap style.char ++ ['"']
  | .item => style.item
  | .key => style.key

def Style.write (style : Style) (tokens : List Token) : List Char := tokens.flatMap style.text

@[simp] theorem Style.write_nil (style : Style) : style.write [] = [] := rfl

@[simp] theorem Style.write_cons (style : Style) (t : Token) (ts : List Token) :
    style.write (t :: ts) = style.text t ++ style.write ts := rfl

@[simp] theorem Style.write_append (style : Style) (ts us : List Token) :
    style.write (ts ++ us) = style.write ts ++ style.write us := List.flatMap_append

/-! ## Characters of a string -/

/-- The characters with an escape of their own. -/
def SHORT_ESCAPES : List (Char × Char) :=
  [('"', '"'), ('\\', '\\'), ('/', '/'), ('b', '\x08'), ('f', '\x0c'), ('n', '\n'), ('r', '\r'),
    ('t', '\t')]

def hexValue (c : Char) : Option Nat :=
  if '0' ≤ c ∧ c ≤ '9' then some (c.toNat - 48)
  else if 'a' ≤ c ∧ c ≤ 'f' then some (c.toNat - 87)
  else if 'A' ≤ c ∧ c ≤ 'F' then some (c.toNat - 55)
  else none

/-- The escape of a UTF-16 unit. -/
def unitText (unit : Nat) : List Char :=
  ['\\', 'u', Nat.digitChar (unit / 4096 % 16), Nat.digitChar (unit / 256 % 16),
    Nat.digitChar (unit / 16 % 16), Nat.digitChar (unit % 16)]

/-- The UTF-16 units of a character. -/
def utf16 (c : Char) : List Nat :=
  if c.toNat < 0x10000 then [c.toNat]
  else [0xd800 + (c.toNat - 0x10000) / 1024, 0xdc00 + (c.toNat - 0x10000) % 1024]

/-- A character as it is written between the quotation marks. -/
def escape (c : Char) : List Char :=
  if c = '"' then ['\\', '"']
  else if c = '\\' then ['\\', '\\']
  else if c = '\x08' then ['\\', 'b']
  else if c = '\x0c' then ['\\', 'f']
  else if c = '\n' then ['\\', 'n']
  else if c = '\r' then ['\\', 'r']
  else if c = '\t' then ['\\', 't']
  else if c.toNat < 32 then unitText c.toNat
  else [c]

/-- A character of a text as ASCII. -/
def asciiText (c : Char) : List Char :=
  if c.toNat < 128 then [c] else (utf16 c).flatMap unitText

def readUnit : List Char → Option (Nat × List Char)
  | a :: b :: c :: d :: rest => do
    let a ← hexValue a
    let b ← hexValue b
    let c ← hexValue c
    let d ← hexValue d
    return (((a * 16 + b) * 16 + c) * 16 + d, rest)
  | _ => none

/-- What stands behind `\u`: a unit, or a pair of surrogates. -/
def readEscapedUnits (text : List Char) : Option (Char × List Char) := do
  let (unit, rest) ← readUnit text
  if unit < 0xd800 ∨ 0xe000 ≤ unit then return (Char.ofNat unit, rest)
  else if unit < 0xdc00 then
    match rest with
    | '\\' :: 'u' :: rest => do
      let (low, rest) ← readUnit rest
      if 0xdc00 ≤ low ∧ low < 0xe000 then
        return (Char.ofNat (0x10000 + (unit - 0xd800) * 1024 + (low - 0xdc00)), rest)
      else none
    | _ => none
  else none

/-- One character of a string. -/
def readChar : List Char → Option (Char × List Char)
  | '\\' :: 'u' :: rest => readEscapedUnits rest
  | '\\' :: c :: rest => (SHORT_ESCAPES.lookup c).map fun c => (c, rest)
  | c :: rest => if c = '"' ∨ c = '\\' ∨ c.toNat < 32 then none else some (c, rest)
  | [] => none

theorem hexValue_digitChar {d : Nat} (h : d < 16) : hexValue (Nat.digitChar d) = some d := by
  have hall : ∀ d < 16, hexValue (Nat.digitChar d) = some d := by decide
  exact hall d h

theorem readUnit_unitText {unit : Nat} (h : unit < 0x10000) (rest : List Char) :
    readUnit ((unitText unit).drop 2 ++ rest) = some (unit, rest) := by
  show readUnit (Nat.digitChar (unit / 4096 % 16) :: Nat.digitChar (unit / 256 % 16) ::
    Nat.digitChar (unit / 16 % 16) :: Nat.digitChar (unit % 16) :: rest) = _
  show (hexValue _ >>= fun a => hexValue _ >>= fun b => hexValue _ >>= fun c => hexValue _ >>=
    fun d => some (((a * 16 + b) * 16 + c) * 16 + d, rest)) = _
  rw [hexValue_digitChar (by omega), hexValue_digitChar (by omega), hexValue_digitChar (by omega),
    hexValue_digitChar (by omega)]
  show some (_, rest) = _
  rw [show ((unit / 4096 % 16 * 16 + unit / 256 % 16) * 16 + unit / 16 % 16) * 16 + unit % 16 = unit
    by omega]

theorem unitText_append (unit : Nat) (rest : List Char) :
    unitText unit ++ rest = '\\' :: 'u' :: ((unitText unit).drop 2 ++ rest) := rfl

theorem toNat_not_surrogate (c : Char) :
    c.toNat < 0xd800 ∨ 0xe000 ≤ c.toNat ∧ c.toNat < 0x110000 := by
  have hvalid : c.toNat.isValidChar := c.valid
  unfold Nat.isValidChar at hvalid
  omega

theorem readEscapedUnits_one {text rest : List Char} {unit : Nat}
    (h : readUnit text = some (unit, rest)) (hunit : unit < 0xd800 ∨ 0xe000 ≤ unit) :
    readEscapedUnits text = some (Char.ofNat unit, rest) := by
  simp [readEscapedUnits, h, hunit]

theorem readEscapedUnits_two {text behind rest : List Char} {high low : Nat}
    (h : readUnit text = some (high, '\\' :: 'u' :: behind)) (hhigh : 0xd800 ≤ high ∧ high < 0xdc00)
    (hbehind : readUnit behind = some (low, rest)) (hlow : 0xdc00 ≤ low ∧ low < 0xe000) :
    readEscapedUnits text =
      some (Char.ofNat (0x10000 + (high - 0xd800) * 1024 + (low - 0xdc00)), rest) := by
  have hnot : ¬ (high < 0xd800 ∨ 0xe000 ≤ high) := by omega
  simp only [readEscapedUnits, h, Option.bind_eq_bind, Option.bind_some, if_neg hnot,
    if_pos hhigh.2, hbehind, if_pos hlow, Option.pure_def]

/-- The units of a character are read as the character. -/
theorem readChar_utf16 (c : Char) (rest : List Char) :
    readChar ((utf16 c).flatMap unitText ++ rest) = some (c, rest) := by
  have hvalid := toNat_not_surrogate c
  unfold utf16
  split
  · rename_i hsmall
    rw [List.flatMap_cons, List.flatMap_nil, List.append_nil, unitText_append]
    show readEscapedUnits _ = _
    rw [readEscapedUnits_one (readUnit_unitText hsmall rest) (by omega), Char.ofNat_toNat]
  · rename_i hlarge
    rw [List.flatMap_cons, List.flatMap_cons, List.flatMap_nil, List.append_nil, List.append_assoc,
      unitText_append]
    show readEscapedUnits _ = _
    have hhigh := @readUnit_unitText (0xd800 + (c.toNat - 0x10000) / 1024) (by omega)
      (unitText (0xdc00 + (c.toNat - 0x10000) % 1024) ++ rest)
    have hlow := @readUnit_unitText (0xdc00 + (c.toNat - 0x10000) % 1024) (by omega) rest
    rw [unitText_append] at hhigh
    rw [unitText_append, readEscapedUnits_two hhigh (by omega) hlow (by omega)]
    rw [show 0x10000 + (0xd800 + (c.toNat - 0x10000) / 1024 - 0xd800) * 1024 +
      (0xdc00 + (c.toNat - 0x10000) % 1024 - 0xdc00) = c.toNat by omega, Char.ofNat_toNat]

theorem readChar_plain {c : Char} (hquote : c ≠ '"') (hslash : c ≠ '\\') (hcontrol : 32 ≤ c.toNat)
    (rest : List Char) : readChar (c :: rest) = some (c, rest) := by
  unfold readChar
  split
  · rename_i heq
    exact absurd (List.cons.inj heq).1 hslash
  · rename_i heq
    exact absurd (List.cons.inj heq).1 hslash
  · rename_i heq
    obtain ⟨rfl, rfl⟩ := List.cons.inj heq
    rw [if_neg]
    rintro (hc | hc | hc)
    · exact hquote hc
    · exact hslash hc
    · omega
  · rename_i heq
    cases heq

/-- How a character is written between the quotation marks so that it is read. -/
structure Readable (char : Char → List Char) : Prop where
  read : ∀ c rest, readChar (char c ++ rest) = some (c, rest)
  head : ∀ c, ∃ d rest, char c = d :: rest ∧ d ≠ '"'

theorem unitText_head (unit : Nat) : ∃ d rest, unitText unit = d :: rest ∧ d ≠ '"' :=
  ⟨'\\', _, rfl, by decide⟩

/-- Every escape is read as its character. -/
theorem escape_cases (c : Char) :
    (∃ e, escape c = ['\\', e] ∧ e.toNat < 128 ∧ e ≠ 'u' ∧ SHORT_ESCAPES.lookup e = some c) ∨
      (c.toNat < 32 ∧ escape c = (utf16 c).flatMap unitText) ∨
      (c ≠ '"' ∧ c ≠ '\\' ∧ 32 ≤ c.toNat ∧ escape c = [c]) := by
  have hshort : ∀ (c : Char) (e : Char), (e, c) ∈ SHORT_ESCAPES →
      e.toNat < 128 ∧ e ≠ 'u' ∧ SHORT_ESCAPES.lookup e = some c := by
    intro c e h
    have hall : ∀ p ∈ SHORT_ESCAPES, p.1.toNat < 128 ∧ p.1 ≠ 'u' ∧
      SHORT_ESCAPES.lookup p.1 = some p.2 := by decide
    exact hall (e, c) h
  unfold escape
  split
  · rename_i h
    subst h
    exact .inl ⟨'"', rfl, hshort _ _ (by decide)⟩
  split
  · rename_i h
    subst h
    exact .inl ⟨'\\', rfl, hshort _ _ (by decide)⟩
  split
  · rename_i h
    subst h
    exact .inl ⟨'b', rfl, hshort _ _ (by decide)⟩
  split
  · rename_i h
    subst h
    exact .inl ⟨'f', rfl, hshort _ _ (by decide)⟩
  split
  · rename_i h
    subst h
    exact .inl ⟨'n', rfl, hshort _ _ (by decide)⟩
  split
  · rename_i h
    subst h
    exact .inl ⟨'r', rfl, hshort _ _ (by decide)⟩
  split
  · rename_i h
    subst h
    exact .inl ⟨'t', rfl, hshort _ _ (by decide)⟩
  split
  · rename_i hcontrol
    refine .inr (.inl ⟨hcontrol, ?_⟩)
    unfold utf16
    rw [if_pos (by omega), List.flatMap_cons, List.flatMap_nil, List.append_nil]
  · rename_i hquote hslash _ _ _ _ _ hcontrol
    exact .inr (.inr ⟨hquote, hslash, by omega, rfl⟩)

theorem readChar_short {e c : Char} (hu : e ≠ 'u') (h : SHORT_ESCAPES.lookup e = some c)
    (rest : List Char) : readChar ('\\' :: e :: rest) = some (c, rest) := by
  unfold readChar
  split
  · rename_i heq
    exact absurd (List.cons.inj (List.cons.inj heq).2).1 hu
  · rename_i heq
    obtain ⟨rfl, rfl⟩ := List.cons.inj (List.cons.inj heq).2
    rw [h]
    rfl
  · rename_i hnone heq
    obtain ⟨rfl, rfl⟩ := List.cons.inj heq
    exact absurd rfl (hnone e rest rfl)
  · rename_i heq
    cases heq

theorem utf16_head (c : Char) : ∃ d rest, (utf16 c).flatMap unitText = d :: rest ∧ d ≠ '"' := by
  unfold utf16
  split <;> exact ⟨'\\', _, rfl, by decide⟩

theorem escape_readable : Readable escape where
  read c rest := by
    rcases escape_cases c with ⟨e, hc, -, hu, he⟩ | ⟨-, hc⟩ | ⟨hquote, hslash, hcontrol, hc⟩
    · rw [hc]
      exact readChar_short hu he rest
    · rw [hc]
      exact readChar_utf16 c rest
    · rw [hc]
      exact readChar_plain hquote hslash hcontrol rest
  head c := by
    rcases escape_cases c with ⟨e, hc, -⟩ | ⟨-, hc⟩ | ⟨hquote, -, -, hc⟩
    · exact ⟨'\\', [e], hc, by decide⟩
    · rw [hc]
      exact utf16_head c
    · exact ⟨c, [], hc, hquote⟩

theorem asciiText_ascii {c : Char} (h : c.toNat < 128) : asciiText c = [c] := if_pos h

theorem unitText_ascii (unit : Nat) : ∀ c ∈ unitText unit, c.toNat < 128 := by
  have hdigit : ∀ d < 16, (Nat.digitChar d).toNat < 128 := by decide
  intro c hc
  simp only [unitText, List.mem_cons, List.not_mem_nil, or_false] at hc
  rcases hc with rfl | rfl | rfl | rfl | rfl | rfl
  · decide
  · decide
  all_goals exact hdigit _ (Nat.mod_lt _ (by decide))

theorem asciiText_mem (c : Char) : ∀ d ∈ asciiText c, d.toNat < 128 := by
  intro d hd
  unfold asciiText at hd
  split at hd
  · rename_i h
    rw [List.mem_singleton.1 hd]
    exact h
  · obtain ⟨unit, -, hunit⟩ := List.mem_flatMap.1 hd
    exact unitText_ascii unit d hunit

theorem flatMap_ascii {text : List Char} (h : ∀ c ∈ text, c.toNat < 128) :
    text.flatMap asciiText = text := by
  rw [List.flatMap_congr fun c hc => asciiText_ascii (h c hc), List.flatMap_singleton']

/-- An escape is ASCII, or stands for a character whose units are written. -/
theorem escape_ascii_cases (c : Char) : (escape c).flatMap asciiText = escape c ∨
    (escape c).flatMap asciiText = (utf16 c).flatMap unitText := by
  have hunits : ((utf16 c).flatMap unitText).flatMap asciiText = (utf16 c).flatMap unitText :=
    flatMap_ascii fun d hd => by
      obtain ⟨unit, -, hunit⟩ := List.mem_flatMap.1 hd
      exact unitText_ascii unit d hunit
  rcases escape_cases c with ⟨e, hc, he, -, -⟩ | ⟨-, hc⟩ | ⟨-, -, -, hc⟩
  · refine .inl ?_
    rw [hc]
    refine flatMap_ascii fun d hd => ?_
    rcases List.mem_cons.1 hd with rfl | hd
    · decide
    · rw [List.mem_singleton.1 hd]
      exact he
  · exact .inr (by rw [hc, hunits])
  · rw [hc, List.flatMap_cons, List.flatMap_nil, List.append_nil]
    unfold asciiText
    split
    · exact .inl rfl
    · exact .inr rfl

/-- The escapes are read as well where all else is ASCII. -/
theorem ascii_readable : Readable fun c => (escape c).flatMap asciiText where
  read c rest := by
    rcases escape_ascii_cases c with hc | hc
    · rw [hc]
      exact escape_readable.read c rest
    · rw [hc]
      exact readChar_utf16 c rest
  head c := by
    rcases escape_ascii_cases c with hc | hc
    · rw [hc]
      exact escape_readable.head c
    · rw [hc]
      exact utf16_head c

/-! ## Texts between quotation marks -/

/-- A text in which every quotation mark is escaped, and which ends outside of an escape. -/
inductive Sealed : List Char → Prop
  | nil : Sealed []
  | raw {c : Char} {rest : List Char} (hquote : c ≠ '"') (hslash : c ≠ '\\') (h : Sealed rest) :
    Sealed (c :: rest)
  | escaped (e : Char) {rest : List Char} (h : Sealed rest) : Sealed ('\\' :: e :: rest)

theorem Sealed.append {a b : List Char} (ha : Sealed a) (hb : Sealed b) : Sealed (a ++ b) := by
  induction ha with
  | nil => exact hb
  | raw hquote hslash _ ih => exact .raw hquote hslash ih
  | escaped e _ ih => exact .escaped e ih

theorem Sealed.flatMap {α : Type} {f : α → List Char} (hf : ∀ x, Sealed (f x)) (xs : List α) :
    Sealed (xs.flatMap f) := by
  induction xs with
  | nil => exact .nil
  | cons x xs ih => exact (hf x).append ih

theorem unitText_sealed (unit : Nat) : Sealed (unitText unit) := by
  have hdigit : ∀ d < 16, Nat.digitChar d ≠ '"' ∧ Nat.digitChar d ≠ '\\' := by decide
  have hmod : ∀ n, Nat.digitChar (n % 16) ≠ '"' ∧ Nat.digitChar (n % 16) ≠ '\\' := fun n =>
    hdigit _ (Nat.mod_lt _ (by decide))
  exact .escaped 'u' (.raw (hmod _).1 (hmod _).2 (.raw (hmod _).1 (hmod _).2
    (.raw (hmod _).1 (hmod _).2 (.raw (hmod _).1 (hmod _).2 .nil))))

theorem escape_sealed (c : Char) : Sealed (escape c) := by
  rcases escape_cases c with ⟨e, hc, -⟩ | ⟨-, hc⟩ | ⟨hquote, hslash, -, hc⟩
  · exact hc ▸ .escaped e .nil
  · exact hc ▸ .flatMap unitText_sealed _
  · exact hc ▸ .raw hquote hslash .nil

theorem ascii_sealed (c : Char) : Sealed ((escape c).flatMap asciiText) := by
  rcases escape_ascii_cases c with hc | hc
  · rw [hc]
    exact escape_sealed c
  · rw [hc]
    exact .flatMap unitText_sealed _

/-! ## Reading a value -/

def isBlank (c : Char) : Bool := c == ' ' || c == '\n' || c == '\t' || c == '\r'

def skipBlank (text : List Char) : List Char := text.dropWhile isBlank

def isNumberChar (c : Char) : Bool :=
  c.isDigit || c == '-' || c == '+' || c == '.' || c == 'e' || c == 'E'

/-- The characters up to the quotation mark. -/
def readLiteral : Nat → List Char → Option (List Char × List Char)
  | 0, _ => none
  | fuel + 1, text =>
    if text.head? = some '"' then some ([], text.tail)
    else (readChar text).bind fun (c, rest) =>
      (readLiteral fuel rest).map fun (cs, rest) => (c :: cs, rest)

/-- A string behind its first quotation mark. -/
def readString (text : List Char) : Option (String × List Char) :=
  (readLiteral (text.length + 1) text).map fun (cs, rest) => (String.ofList cs, rest)

def readWord (word : List Char) (value : Json) (text : List Char) : Option (Json × List Char) :=
  if word.isPrefixOf text then some (value, text.drop word.length) else none

/-- A character that must come next, behind blanks. -/
def readMark (mark : Char) (text : List Char) : Option (List Char) :=
  if (skipBlank text).head? = some mark then some (skipBlank text).tail else none

section reader

variable (float : List Char → Option Rat)

def readNumber (text : List Char) : Option JsonNumber :=
  if text = Nat.toDigits 10 (Nat.ofDigitChars 10 text 0) then
    some (.posInt (Nat.ofDigitChars 10 text 0))
  else if text.head? = some '-' ∧
      text.tail = Nat.toDigits 10 (Nat.ofDigitChars 10 text.tail 0) ∧
      Nat.ofDigitChars 10 text.tail 0 ≠ 0 then
    some (.negInt (-(Nat.ofDigitChars 10 text.tail 0 : Int)))
  else (float text).map .float

mutual

def readValue : Nat → List Char → Option (Json × List Char)
  | 0, _ => none
  | fuel + 1, text =>
    match skipBlank text with
    | [] => none
    | c :: rest =>
      if c = '"' then (readString rest).map fun (s, rest) => (string s, rest)
      else if c = '[' then
        match readMark ']' rest with
        | some rest => some (array [], rest)
        | none => (readValue fuel rest).bind fun (x, rest) =>
          (readItems fuel rest).map fun (xs, rest) => (array (x :: xs), rest)
      else if c = '\x7b' then
        match readMark '\x7d' rest with
        | some rest => some (object [], rest)
        | none => (readField fuel rest).bind fun (field, rest) =>
          (readFields fuel rest).map fun (fields, rest) => (object (field :: fields), rest)
      else if c = 'n' then readWord "null".toList null (c :: rest)
      else if c = 't' then readWord "true".toList (bool true) (c :: rest)
      else if c = 'f' then readWord "false".toList (bool false) (c :: rest)
      else (readNumber float ((c :: rest).takeWhile isNumberChar)).map fun n =>
        (.number n, (c :: rest).dropWhile isNumberChar)

/-- The items behind the first one, up to the bracket. -/
def readItems : Nat → List Char → Option (List Json × List Char)
  | 0, _ => none
  | fuel + 1, text =>
    match readMark ']' text with
    | some rest => some ([], rest)
    | none => (readMark ',' text).bind fun rest => (readValue fuel rest).bind fun (x, rest) =>
      (readItems fuel rest).map fun (xs, rest) => (x :: xs, rest)

def readField : Nat → List Char → Option ((String × Json) × List Char)
  | 0, _ => none
  | fuel + 1, text =>
    (readMark '"' text).bind fun rest => (readString rest).bind fun (k, rest) =>
      (readMark ':' rest).bind fun rest =>
        (readValue fuel rest).map fun (v, rest) => ((k, v), rest)

/-- The fields behind the first one, up to the brace. -/
def readFields : Nat → List Char → Option (List (String × Json) × List Char)
  | 0, _ => none
  | fuel + 1, text =>
    match readMark '\x7d' text with
    | some rest => some ([], rest)
    | none => (readMark ',' text).bind fun rest => (readField fuel rest).bind fun (field, rest) =>
      (readFields fuel rest).map fun (fields, rest) => (field :: fields, rest)

end

/-- A value, and nothing but blanks behind it. -/
def parse (text : List Char) : Option Json :=
  (readValue float (text.length + 1) text).bind fun (value, rest) =>
    if skipBlank rest = [] then some value else none

end reader

/-! ## What was written is read -/

def Blank (text : List Char) : Prop := ∀ c ∈ text, isBlank c = true

theorem skipBlank_append {before : List Char} (h : Blank before) {c : Char}
    (hc : isBlank c = false) (rest : List Char) :
    skipBlank (before ++ c :: rest) = c :: rest := by
  unfold skipBlank
  rw [List.dropWhile_append_of_pos h, List.dropWhile_cons_of_neg (by rw [hc]; exact Bool.false_ne_true)]

theorem readMark_eq {before : List Char} (h : Blank before) {mark : Char}
    (hmark : isBlank mark = false) (rest : List Char) :
    readMark mark (before ++ mark :: rest) = some rest := by
  unfold readMark
  rw [skipBlank_append h hmark, List.head?_cons, if_pos rfl, List.tail_cons]

theorem readMark_ne {before : List Char} (h : Blank before) {mark c : Char}
    (hc : isBlank c = false) (hne : c ≠ mark) (rest : List Char) :
    readMark mark (before ++ c :: rest) = none := by
  unfold readMark
  rw [skipBlank_append h hc, if_neg]
  rintro ⟨⟩
  exact hne rfl

theorem readLiteral_eq {char : Char → List Char} (hchar : Readable char) (cs rest : List Char)
    {fuel : Nat} (hfuel : cs.length < fuel) :
    readLiteral fuel (cs.flatMap char ++ '"' :: rest) = some (cs, rest) := by
  induction cs generalizing fuel with
  | nil =>
    obtain ⟨fuel, rfl⟩ := Nat.exists_eq_add_one.2 hfuel
    rfl
  | cons c cs ih =>
    obtain ⟨fuel, rfl⟩ := Nat.exists_eq_add_one.2 (Nat.zero_lt_of_lt hfuel)
    obtain ⟨d, behind, hhead, hquote⟩ := hchar.head c
    have hnot : ¬ ((c :: cs).flatMap char ++ '"' :: rest).head? = some '"' := by
      rw [List.flatMap_cons, hhead]
      rintro ⟨⟩
      exact hquote rfl
    rw [readLiteral, if_neg hnot, List.flatMap_cons, List.append_assoc, hchar.read,
      Option.bind_some]
    show (readLiteral fuel (cs.flatMap char ++ '"' :: rest)).map _ = _
    rw [ih (Nat.lt_of_succ_lt_succ hfuel), Option.map_some]

theorem length_le_flatMap {char : Char → List Char} (hchar : Readable char) (cs : List Char) :
    cs.length ≤ (cs.flatMap char).length := by
  induction cs with
  | nil => exact Nat.le_refl _
  | cons c cs ih =>
    obtain ⟨d, behind, hhead, -⟩ := hchar.head c
    rw [List.flatMap_cons, List.length_append, hhead, List.length_cons, List.length_cons]
    omega

theorem readString_eq {char : Char → List Char} (hchar : Readable char) (s : String)
    (rest : List Char) :
    readString (s.toList.flatMap char ++ '"' :: rest) = some (s, rest) := by
  have hlength := length_le_flatMap hchar s.toList
  unfold readString
  rw [readLiteral_eq hchar s.toList rest (by rw [List.length_append]; omega), Option.map_some]
  show some (String.ofList s.toList, rest) = _
  rw [String.ofList_toList]

/-- A style whose separators are those of JSON with blanks around them. -/
structure Style.Direct (style : Style) : Prop where
  char : Readable style.char
  item : ∃ a b, Blank a ∧ Blank b ∧ style.item = a ++ ',' :: b
  key : ∃ a b, Blank a ∧ Blank b ∧ style.key = a ++ ':' :: b

/-- A number that is read as it is written. -/
structure Layout.Reads (layout : Layout) (float : List Char → Option Rat) (n : JsonNumber) :
    Prop where
  chars : ∀ c ∈ layout.number n, isNumberChar c = true
  ne_nil : layout.number n ≠ []
  read : readNumber float (layout.number n) = some n

mutual

/-- All numbers of a value are of a kind. -/
def Numbers (p : JsonNumber → Prop) : Json → Prop
  | null | bool _ | string _ => True
  | .number n => p n
  | array items => ItemNumbers p items
  | object fields => FieldNumbers p fields

def ItemNumbers (p : JsonNumber → Prop) : List Json → Prop
  | [] => True
  | x :: xs => Numbers p x ∧ ItemNumbers p xs

def FieldNumbers (p : JsonNumber → Prop) : List (String × Json) → Prop
  | [] => True
  | (_, v) :: fields => Numbers p v ∧ FieldNumbers p fields

end

/-- What follows a number ends it. -/
def EndsNumber (rest : List Char) : Prop := ∀ c ∈ rest.head?, isNumberChar c = false

section write

variable {style : Style} {layout : Layout} {float : List Char → Option Rat}

theorem isBlank_of_number {c : Char} (h : isNumberChar c = true) : isBlank c = false := by
  by_contra hnot
  rw [Bool.not_eq_false] at hnot
  simp only [isBlank, Bool.or_eq_true, beq_iff_eq] at hnot
  rcases hnot with ((rfl | rfl) | rfl) | rfl <;> revert h <;> decide

theorem endsNumber_append {before : List Char} (h : Blank before) {c : Char}
    (hc : isNumberChar c = false) (rest : List Char) : EndsNumber (before ++ c :: rest) := by
  cases before with
  | nil =>
    rintro d ⟨⟩
    exact hc
  | cons b before =>
    rintro d ⟨⟩
    have hb := h b List.mem_cons_self
    by_contra hnot
    rw [isBlank_of_number (by simpa using hnot)] at hb
    cases hb

theorem blank_lineBreak (layout : Layout) (depth : Nat) : Blank (layout.lineBreak depth) := by
  unfold Layout.lineBreak
  split
  · exact fun c hc => (nomatch hc)
  · intro c hc
    rcases List.mem_cons.1 hc with rfl | hc
    · rfl
    · rw [List.eq_of_mem_replicate hc]
      rfl

/-- What follows an item, up to the bracket or the brace. -/
theorem endsNumber_behind (hstyle : style.Direct) {tokens : List Token}
    (htokens : tokens = [] ∨ ∃ more, tokens = .item :: more) {after : List Char}
    (hafter : Blank after) {close : Char} (hclose : isNumberChar close = false) (rest : List Char) :
    EndsNumber (style.write tokens ++ (after ++ close :: rest)) := by
  obtain ⟨a, b, ha, -, hitem⟩ := hstyle.item
  rcases htokens with rfl | ⟨more, rfl⟩
  · exact endsNumber_append hafter hclose rest
  · rw [Style.write_cons, Style.text, hitem, List.append_assoc, List.append_assoc, List.cons_append]
    exact endsNumber_append ha rfl _

theorem itemTokens_cases (depth : Nat) (xs : List Json) :
    layout.itemTokens depth xs = [] ∨ ∃ more, layout.itemTokens depth xs = .item :: more := by
  cases xs with
  | nil => exact .inl rfl
  | cons x xs => exact .inr ⟨_, rfl⟩

theorem fieldTokens_cases (depth : Nat) (fields : List (String × Json)) :
    layout.fieldTokens depth fields = [] ∨
      ∃ more, layout.fieldTokens depth fields = .item :: more := by
  cases fields with
  | nil => exact .inl rfl
  | cons field fields => exact .inr ⟨_, rfl⟩

/-- No value starts with a blank or a bracket that closes. -/
theorem write_head {v : Json} (hv : Numbers (layout.Reads float) v) (depth : Nat) :
    ∃ c rest, style.write (layout.tokens depth v) = c :: rest ∧ isBlank c = false ∧ c ≠ ']' := by
  cases v with
  | null => exact ⟨'n', _, rfl, rfl, by decide⟩
  | bool b => cases b <;> exact ⟨_, _, rfl, rfl, by decide⟩
  | number n =>
    obtain ⟨c, rest, hnumber⟩ := List.exists_cons_of_ne_nil (Layout.Reads.ne_nil hv)
    have hc := Layout.Reads.chars hv c (by rw [hnumber]; exact List.mem_cons_self)
    refine ⟨c, rest, ?_, isBlank_of_number hc, ?_⟩
    · simp [Layout.tokens, Style.text, hnumber]
    · rintro rfl
      revert hc
      decide
  | string s => exact ⟨'"', _, rfl, rfl, by decide⟩
  | array items => cases items <;> exact ⟨'[', _, rfl, rfl, by decide⟩
  | object fields => cases fields <;> exact ⟨'\x7b', _, rfl, rfl, by decide⟩

theorem readField_eq (hstyle : style.Direct) {k : String} {v : Json} {fuel : Nat}
    {before text rest : List Char} (hbefore : Blank before)
    (hvalue : ∀ b, Blank b → readValue float fuel (b ++ text) = some (v, rest)) :
    readField float (fuel + 1) (before ++ (style.text (.literal k) ++ (style.key ++ text))) =
      some ((k, v), rest) := by
  obtain ⟨a, b, ha, hb, hkey⟩ := hstyle.key
  have hliteral : style.text (.literal k) ++ (style.key ++ text) =
      '"' :: (k.toList.flatMap style.char ++ '"' :: (a ++ ':' :: (b ++ text))) := by
    rw [Style.text, hkey]
    simp only [List.cons_append, List.append_assoc, List.nil_append]
  rw [readField, hliteral, readMark_eq hbefore rfl, Option.bind_some,
    readString_eq hstyle.char, Option.bind_some]
  show (readMark ':' (a ++ ':' :: (b ++ text)) >>= fun _ => _) = _
  rw [readMark_eq ha rfl]
  show (readValue float fuel (b ++ text)).map _ = _
  rw [hvalue b hb, Option.map_some]

/-- A number is read to its end. -/
theorem readValue_number {n : JsonNumber} (hn : layout.Reads float n) {fuel : Nat}
    {before rest : List Char} (hbefore : Blank before) (hrest : EndsNumber rest) :
    readValue float (fuel + 1) (before ++ (layout.number n ++ rest)) = some (.number n, rest) := by
  obtain ⟨c, digits, hnumber⟩ := List.exists_cons_of_ne_nil hn.ne_nil
  have hc := hn.chars c (by rw [hnumber]; exact List.mem_cons_self)
  have hspan : ((layout.number n ++ rest).takeWhile isNumberChar = layout.number n) ∧
      ((layout.number n ++ rest).dropWhile isNumberChar = rest) := by
    rw [List.takeWhile_append_of_pos hn.chars, List.dropWhile_append_of_pos hn.chars]
    cases rest with
    | nil => exact ⟨List.append_nil _, rfl⟩
    | cons d rest =>
      have hd := hrest d rfl
      rw [List.takeWhile_cons_of_neg (by rw [hd]; exact Bool.false_ne_true),
        List.dropWhile_cons_of_neg (by rw [hd]; exact Bool.false_ne_true), List.append_nil]
      exact ⟨rfl, rfl⟩
  have hother : ∀ d, isNumberChar d = false → c ≠ d := by
    rintro d hd rfl
    rw [hc] at hd
    cases hd
  rw [hnumber, List.cons_append] at hspan
  rw [hnumber, List.cons_append, readValue, skipBlank_append hbefore (isBlank_of_number hc)]
  dsimp only
  rw [if_neg (hother _ rfl), if_neg (hother _ rfl), if_neg (hother _ rfl), if_neg (hother _ rfl),
    if_neg (hother _ rfl), if_neg (hother _ rfl), hspan.1, hspan.2, ← hnumber, hn.read,
    Option.map_some]

theorem readValue_word {word : List Char} {value : Json} (rest : List Char) :
    readWord word value (word ++ rest) = some (value, rest) := by
  unfold readWord
  rw [if_pos (List.isPrefixOf_iff_prefix.2 (List.prefix_append word rest)), List.drop_left]

theorem isNumberChar_digit {c : Char} (h : c.isDigit = true) : isNumberChar c = true := by
  simp only [isNumberChar, h, Bool.true_or]

theorem ofDigitChars_toDigits (n : Nat) : Nat.ofDigitChars 10 (Nat.toDigits 10 n) 0 = n :=
  Nat.ofDigitChars_toDigits (by decide) (by decide)

theorem Layout.reads_posInt (n : Nat) : layout.Reads float (.posInt n) where
  chars c hc := isNumberChar_digit (Nat.isDigit_of_mem_toDigits (by decide) (by decide) hc)
  ne_nil := Nat.toDigits_ne_nil
  read := by
    unfold readNumber Layout.number
    rw [ofDigitChars_toDigits, if_pos rfl]

theorem Layout.reads_negInt {n : Int} (hn : n < 0) : layout.Reads float (.negInt n) where
  chars c hc := by
    rcases List.mem_cons.1 hc with rfl | hc
    · rfl
    · exact isNumberChar_digit (Nat.isDigit_of_mem_toDigits (by decide) (by decide) hc)
  ne_nil := List.cons_ne_nil _ _
  read := by
    have hnot : ¬ '-' :: Nat.toDigits 10 n.natAbs =
        Nat.toDigits 10 (Nat.ofDigitChars 10 ('-' :: Nat.toDigits 10 n.natAbs) 0) := by
      intro heq
      have hdigit : ('-' : Char).isDigit = true := Nat.isDigit_of_mem_toDigits (by decide)
        (by decide) (heq ▸ List.mem_cons_self)
      revert hdigit
      decide
    unfold readNumber Layout.number
    rw [if_neg hnot, List.tail_cons, ofDigitChars_toDigits, if_pos ⟨rfl, rfl, by omega⟩]
    rw [show -(n.natAbs : Int) = n by omega]

/-- A number with a fraction or an exponent, by the reader that is given. -/
theorem Layout.reads_float {value : Rat} (hchars : ∀ c ∈ layout.float value, isNumberChar c = true)
    (hmark : ∃ c ∈ (layout.float value).tail, c.isDigit = false)
    (hread : float (layout.float value) = some value) :
    layout.Reads float (.float value) where
  chars := hchars
  ne_nil hnil := by
    obtain ⟨c, hc, -⟩ := hmark
    rw [show layout.float value = [] from hnil] at hc
    exact absurd hc List.not_mem_nil
  read := by
    obtain ⟨c, hc, hdigit⟩ := hmark
    have hnot : ∀ n, c ∉ Nat.toDigits 10 n := by
      intro n hmem
      rw [Nat.isDigit_of_mem_toDigits (by decide) (by decide) hmem] at hdigit
      cases hdigit
    show readNumber float (layout.float value) = _
    unfold readNumber
    rw [if_neg, if_neg, hread, Option.map_some]
    · rintro ⟨-, htail, -⟩
      rw [htail] at hc
      exact hnot _ hc
    · intro hall
      have hmem := List.mem_of_mem_tail hc
      rw [hall] at hmem
      exact hnot _ hmem

mutual

/-- A value that was written is read, whatever the layout is. -/
theorem readValue_write (hstyle : style.Direct) : ∀ (v : Json) (depth fuel : Nat)
    (before rest : List Char), Numbers (layout.Reads float) v → Blank before → EndsNumber rest →
    (style.write (layout.tokens depth v)).length ≤ fuel →
    readValue float fuel (before ++ (style.write (layout.tokens depth v) ++ rest)) = some (v, rest)
  | v, depth, 0, _, _, hv, _, _, hfuel => by
    obtain ⟨c, text, htext, -⟩ := @write_head style layout float v hv depth
    rw [htext] at hfuel
    cases hfuel
  | null, depth, fuel + 1, before, rest, _, hbefore, _, _ => by
    show readValue float (fuel + 1) (before ++ 'n' :: ("ull".toList ++ rest)) = _
    rw [readValue, skipBlank_append hbefore rfl]
    exact @readValue_word "null".toList null rest
  | bool true, depth, fuel + 1, before, rest, _, hbefore, _, _ => by
    show readValue float (fuel + 1) (before ++ 't' :: ("rue".toList ++ rest)) = _
    rw [readValue, skipBlank_append hbefore rfl]
    exact @readValue_word "true".toList (bool true) rest
  | bool false, depth, fuel + 1, before, rest, _, hbefore, _, _ => by
    show readValue float (fuel + 1) (before ++ 'f' :: ("alse".toList ++ rest)) = _
    rw [readValue, skipBlank_append hbefore rfl]
    exact @readValue_word "false".toList (bool false) rest
  | .number n, depth, fuel + 1, before, rest, hv, hbefore, hrest, _ => by
    rw [show style.write (layout.tokens depth (.number n)) = layout.number n by
      simp [Layout.tokens, Style.text]]
    exact readValue_number hv hbefore hrest
  | string s, depth, fuel + 1, before, rest, _, hbefore, _, _ => by
    rw [show style.write (layout.tokens depth (string s)) ++ rest =
        '"' :: (s.toList.flatMap style.char ++ '"' :: rest) by
      simp [Layout.tokens, Style.text]]
    rw [readValue, skipBlank_append hbefore rfl]
    dsimp only
    rw [if_pos rfl, readString_eq hstyle.char, Option.map_some]
  | array [], depth, fuel + 1, before, rest, _, hbefore, _, _ => by
    show readValue float (fuel + 1) (before ++ '[' :: ([] ++ ']' :: rest)) = _
    rw [readValue, skipBlank_append hbefore rfl]
    dsimp only
    rw [if_neg (by decide), if_pos rfl, readMark_eq (fun c hc => absurd hc List.not_mem_nil) rfl]
  | array (x :: xs), depth, fuel + 1, before, rest, hv, hbefore, _, hfuel => by
    obtain ⟨hx, hxs⟩ := hv
    obtain ⟨c, text, htext, hblank, hclose⟩ := @write_head style layout float x hx (depth + 1)
    have hbreak := blank_lineBreak layout (depth + 1)
    rw [show style.write (layout.tokens depth (array (x :: xs))) ++ rest =
        '[' :: (layout.lineBreak (depth + 1) ++ (style.write (layout.tokens (depth + 1) x) ++
          (style.write (layout.itemTokens (depth + 1) xs) ++
            (layout.lineBreak depth ++ ']' :: rest)))) by
      simp [Layout.tokens, Style.text]]
    have hlength : (style.write (layout.tokens (depth + 1) x)).length +
        (style.write (layout.itemTokens (depth + 1) xs)).length < fuel := by
      simp only [Layout.tokens, Style.write_cons, Style.write_append, Style.text, List.cons_append,
        List.length_cons, List.length_append] at hfuel
      omega
    have hvalue := readValue_write hstyle x (depth + 1) fuel (layout.lineBreak (depth + 1))
      (style.write (layout.itemTokens (depth + 1) xs) ++ (layout.lineBreak depth ++ ']' :: rest)) hx
      hbreak (endsNumber_behind hstyle (itemTokens_cases _ xs) (blank_lineBreak layout depth) rfl
        rest) (by omega)
    have hitems := readItems_write hstyle xs (depth + 1) fuel (layout.lineBreak depth) rest hxs
      (blank_lineBreak layout depth) (by omega)
    rw [readValue, skipBlank_append hbefore rfl]
    dsimp only
    rw [if_neg (by decide), if_pos rfl]
    rw [show readMark ']' (layout.lineBreak (depth + 1) ++
        (style.write (layout.tokens (depth + 1) x) ++ _)) = none by
      rw [htext]
      exact readMark_ne hbreak hblank hclose _]
    dsimp only
    rw [hvalue, Option.bind_some]
    dsimp only
    rw [hitems, Option.map_some]
  | object [], depth, fuel + 1, before, rest, _, hbefore, _, _ => by
    show readValue float (fuel + 1) (before ++ '\x7b' :: ([] ++ '\x7d' :: rest)) = _
    rw [readValue, skipBlank_append hbefore rfl]
    dsimp only
    rw [if_neg (by decide), if_neg (by decide), if_pos rfl,
      readMark_eq (fun c hc => absurd hc List.not_mem_nil) rfl]
  | object ((k, v) :: fields), depth, fuel + 1, before, rest, hv, hbefore, _, hfuel => by
    obtain ⟨hx, hfields⟩ := hv
    have hbreak := blank_lineBreak layout (depth + 1)
    rw [show style.write (layout.tokens depth (object ((k, v) :: fields))) ++ rest =
        '\x7b' :: (layout.lineBreak (depth + 1) ++ (style.text (.literal k) ++ (style.key ++
          (style.write (layout.tokens (depth + 1) v) ++
            (style.write (layout.fieldTokens (depth + 1) fields) ++
              (layout.lineBreak depth ++ '\x7d' :: rest)))))) by
      simp [Layout.tokens, Style.text]]
    have hlength : (style.write (layout.tokens (depth + 1) v)).length + 1 +
        (style.write (layout.fieldTokens (depth + 1) fields)).length < fuel := by
      simp only [Layout.tokens, Style.write_cons, Style.write_append, Style.text, List.cons_append,
        List.length_cons, List.length_append] at hfuel
      omega
    obtain ⟨fuel, rfl⟩ := Nat.exists_eq_add_one.2 (Nat.zero_lt_of_lt hlength)
    have hfield := readField_eq (k := k) hstyle hbreak fun b hb =>
      readValue_write hstyle v (depth + 1) fuel b
        (style.write (layout.fieldTokens (depth + 1) fields) ++ (layout.lineBreak depth ++ '\x7d' :: rest))
        hx hb (endsNumber_behind hstyle (fieldTokens_cases _ fields)
          (blank_lineBreak layout depth) rfl rest) (by omega)
    have hrest := readFields_write hstyle fields (depth + 1) (fuel + 1) (layout.lineBreak depth) rest
      hfields (blank_lineBreak layout depth) (by omega)
    rw [readValue, skipBlank_append hbefore rfl]
    dsimp only
    rw [if_neg (by decide), if_neg (by decide), if_pos rfl]
    rw [show readMark '\x7d' (layout.lineBreak (depth + 1) ++ (style.text (.literal k) ++ _)) = none
      from readMark_ne hbreak rfl (by decide) _]
    dsimp only
    rw [hfield, Option.bind_some]
    dsimp only
    rw [hrest, Option.map_some]

theorem readItems_write (hstyle : style.Direct) : ∀ (xs : List Json) (depth fuel : Nat)
    (after rest : List Char), ItemNumbers (layout.Reads float) xs → Blank after →
    (style.write (layout.itemTokens depth xs)).length < fuel →
    readItems float fuel (style.write (layout.itemTokens depth xs) ++ (after ++ ']' :: rest)) =
      some (xs, rest)
  | _, _, 0, _, _, _, _, hfuel => absurd hfuel (Nat.not_lt_zero _)
  | [], depth, fuel + 1, after, rest, _, hafter, _ => by
    show readItems float (fuel + 1) (after ++ ']' :: rest) = _
    rw [readItems, readMark_eq hafter rfl]
  | x :: xs, depth, fuel + 1, after, rest, hxs, hafter, hfuel => by
    obtain ⟨hx, hxs⟩ := hxs
    obtain ⟨a, b, ha, hb, hitem⟩ := hstyle.item
    have hblank : Blank (b ++ layout.lineBreak depth) := by
      intro c hc
      exact (List.mem_append.1 hc).elim (hb c) (blank_lineBreak layout depth c)
    rw [show style.write (layout.itemTokens depth (x :: xs)) ++ (after ++ ']' :: rest) =
        a ++ ',' :: ((b ++ layout.lineBreak depth) ++ (style.write (layout.tokens depth x) ++
          (style.write (layout.itemTokens depth xs) ++ (after ++ ']' :: rest)))) by
      simp [Layout.itemTokens, Style.text, hitem]]
    have hlength : (style.write (layout.tokens depth x)).length +
        (style.write (layout.itemTokens depth xs)).length < fuel := by
      simp only [Layout.itemTokens, Style.write_cons, Style.write_append, Style.text, hitem,
        List.length_cons, List.length_append] at hfuel
      omega
    have hvalue := readValue_write hstyle x depth fuel (b ++ layout.lineBreak depth)
      (style.write (layout.itemTokens depth xs) ++ (after ++ ']' :: rest)) hx hblank
      (endsNumber_behind hstyle (itemTokens_cases _ xs) hafter rfl rest) (by omega)
    have hitems := readItems_write hstyle xs depth fuel after rest hxs hafter (by omega)
    rw [readItems, readMark_ne ha rfl (by decide)]
    dsimp only
    rw [readMark_eq ha rfl, Option.bind_some, hvalue, Option.bind_some]
    dsimp only
    rw [hitems, Option.map_some]

theorem readFields_write (hstyle : style.Direct) : ∀ (fields : List (String × Json))
    (depth fuel : Nat) (after rest : List Char), FieldNumbers (layout.Reads float) fields →
    Blank after → (style.write (layout.fieldTokens depth fields)).length < fuel →
    readFields float fuel (style.write (layout.fieldTokens depth fields) ++
      (after ++ '\x7d' :: rest)) = some (fields, rest)
  | _, _, 0, _, _, _, _, hfuel => absurd hfuel (Nat.not_lt_zero _)
  | [], depth, fuel + 1, after, rest, _, hafter, _ => by
    show readFields float (fuel + 1) (after ++ '\x7d' :: rest) = _
    rw [readFields, readMark_eq hafter rfl]
  | (k, v) :: fields, depth, fuel + 1, after, rest, hfields, hafter, hfuel => by
    obtain ⟨hx, hfields⟩ := hfields
    obtain ⟨a, b, ha, hb, hitem⟩ := hstyle.item
    have hblank : Blank (b ++ layout.lineBreak depth) := by
      intro c hc
      exact (List.mem_append.1 hc).elim (hb c) (blank_lineBreak layout depth c)
    rw [show style.write (layout.fieldTokens depth ((k, v) :: fields)) ++ (after ++ '\x7d' :: rest) =
        a ++ ',' :: ((b ++ layout.lineBreak depth) ++ (style.text (.literal k) ++ (style.key ++
          (style.write (layout.tokens depth v) ++
            (style.write (layout.fieldTokens depth fields) ++ (after ++ '\x7d' :: rest)))))) by
      simp [Layout.fieldTokens, Style.text, hitem]]
    have hlength : (style.write (layout.tokens depth v)).length + 1 +
        (style.write (layout.fieldTokens depth fields)).length < fuel := by
      simp only [Layout.fieldTokens, Style.write_cons, Style.write_append, Style.text, hitem,
        List.length_cons, List.length_append] at hfuel
      omega
    obtain ⟨fuel, rfl⟩ := Nat.exists_eq_add_one.2 (Nat.zero_lt_of_lt hlength)
    have hfield := readField_eq (k := k) hstyle hblank fun b hb =>
      readValue_write hstyle v depth fuel b
        (style.write (layout.fieldTokens depth fields) ++ (after ++ '\x7d' :: rest)) hx hb
        (endsNumber_behind hstyle (fieldTokens_cases _ fields) hafter rfl rest) (by omega)
    have hrest := readFields_write hstyle fields depth (fuel + 1) after rest hfields hafter (by omega)
    rw [readFields, readMark_ne ha rfl (by decide)]
    dsimp only
    rw [readMark_eq ha rfl, Option.bind_some, hfield, Option.bind_some]
    dsimp only
    rw [hrest, Option.map_some]

end

/-- A value that was written is parsed, with any blanks around its separators. -/
theorem parse_write (hstyle : style.Direct) {v : Json} (hv : Numbers (layout.Reads float) v)
    (depth : Nat) : parse float (style.write (layout.tokens depth v)) = some v := by
  have hread := readValue_write hstyle v depth ((style.write (layout.tokens depth v)).length + 1) []
    [] hv (fun c hc => absurd hc List.not_mem_nil) (fun c hc => nomatch hc) (Nat.le_succ _)
  rw [List.nil_append, List.append_nil] at hread
  unfold parse
  rw [hread]
  rfl

end write

end Json
