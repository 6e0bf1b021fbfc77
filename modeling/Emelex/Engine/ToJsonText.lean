import Emelex.Engine.ToJson

/-!
# What the `tojson` filter writes

* `SerdeJson.Documented` — what is known of `serde_json`.
* `Outside`, `Marks`, `Unambiguous` — what JSON writes outside of its string literals, and separators
  that can be told from it.
* `restoreSeparators` — the separators as a comma and a colon again.

Principal results: `replaceSeparators_write`, `restoreSeparators_write`, `tojson_faithful`.
-/

set_option autoImplicit false

namespace Emelex

open Checks

open Json (Token Layout Style Sealed escape asciiText)

namespace ToJson

/-! ## What stands outside of the literals -/

/-- The characters that are written outside of string literals and separators. -/
def Outside (indent : Option Nat) (c : Char) : Prop :=
  Json.isNumberChar c = true ∨ c ∈ "truefalsn[]\x7b\x7d".toList ∨
    indent.isSome = true ∧ (c = ' ' ∨ c = '\n')

/-- Tokens of a text with such an indent. -/
def Plain (indent : Option Nat) (tokens : List Token) : Prop :=
  ∀ text, Token.plain text ∈ tokens → ∀ c ∈ text, Outside indent c

theorem Plain.nil (indent : Option Nat) : Plain indent [] := fun _ h => absurd h List.not_mem_nil

theorem Plain.append {indent : Option Nat} {ts us : List Token} (ht : Plain indent ts)
    (hu : Plain indent us) : Plain indent (ts ++ us) := fun text h =>
  (List.mem_append.1 h).elim (ht text) (hu text)

theorem Plain.cons {indent : Option Nat} {t : Token} {ts : List Token}
    (ht : ∀ text, t = .plain text → ∀ c ∈ text, Outside indent c) (hts : Plain indent ts) :
    Plain indent (t :: ts) := fun text h =>
  (List.mem_cons.1 h).elim (fun heq => ht text heq.symm) (hts text)

theorem Plain.tail {indent : Option Nat} {t : Token} {ts : List Token}
    (h : Plain indent (t :: ts)) : Plain indent ts := fun text htext =>
  h text (List.mem_cons_of_mem _ htext)

theorem outside_lineBreak (layout : Layout) (depth : Nat) :
    ∀ c ∈ layout.lineBreak depth, Outside layout.indent c := by
  intro c hc
  unfold Layout.lineBreak at hc
  split at hc
  · exact absurd hc List.not_mem_nil
  · rename_i hindent
    refine .inr (.inr ⟨by rw [hindent]; rfl, ?_⟩)
    rcases List.mem_cons.1 hc with rfl | hc
    · exact .inr rfl
    · exact .inl (List.eq_of_mem_replicate hc)

theorem outside_word (indent : Option Nat) {text : List Char}
    (h : ∀ c ∈ text, c ∈ "truefalsn[]\x7b\x7d".toList) : ∀ c ∈ text, Outside indent c :=
  fun c hc => .inr (.inl (h c hc))

section tokens

variable {layout : Layout}

/-- A part that is written as it is, before others. -/
theorem plain_cons {text : List Char} {ts : List Token} (h : ∀ c ∈ text, Outside layout.indent c)
    (hts : Plain layout.indent ts) : Plain layout.indent (.plain text :: ts) :=
  .cons (fun _ heq => Token.plain.inj heq ▸ h) hts

theorem plain_bracket {c : Char} (hc : c ∈ "[]\x7b\x7d".toList) {depth : Nat} :
    (∀ d ∈ c :: layout.lineBreak depth, Outside layout.indent d) ∧
      ∀ d ∈ layout.lineBreak depth ++ [c], Outside layout.indent d := by
  have hbracket : Outside layout.indent c := by
    have hall : ∀ c ∈ "[]\x7b\x7d".toList, c ∈ "truefalsn[]\x7b\x7d".toList := by simp
    exact .inr (.inl (hall c hc))
  refine ⟨fun d hd => ?_, fun d hd => ?_⟩
  · rcases List.mem_cons.1 hd with rfl | hd
    · exact hbracket
    · exact outside_lineBreak layout depth d hd
  · rcases List.mem_append.1 hd with hd | hd
    · exact outside_lineBreak layout depth d hd
    · rw [List.mem_singleton.1 hd]
      exact hbracket

mutual

theorem plain_tokens : ∀ (v : Json) (depth : Nat),
    Json.Numbers (fun n => ∀ c ∈ layout.number n, Json.isNumberChar c = true) v →
    Plain layout.indent (layout.tokens depth v)
  | .null, _, _ => plain_cons (outside_word _ (by simp)) (.nil _)
  | .bool true, _, _ => plain_cons (outside_word _ (by simp)) (.nil _)
  | .bool false, _, _ => plain_cons (outside_word _ (by simp)) (.nil _)
  | .number _, _, hn => plain_cons (fun c hc => .inl (hn c hc)) (.nil _)
  | .string _, _, _ => .cons (fun _ heq => nomatch heq) (.nil _)
  | .array [], _, _ => plain_cons (outside_word _ (by simp)) (.nil _)
  | .array (x :: xs), depth, h =>
    plain_cons (plain_bracket (by decide)).1 (((plain_tokens x (depth + 1) h.1).append
      (plain_itemTokens xs (depth + 1) h.2)).append
        (plain_cons (plain_bracket (by decide)).2 (.nil _)))
  | .object [], _, _ => plain_cons (outside_word _ (by simp)) (.nil _)
  | .object ((_, v) :: fields), depth, h =>
    plain_cons (plain_bracket (by decide)).1 (.cons (fun _ heq => nomatch heq)
      (.cons (fun _ heq => nomatch heq) (((plain_tokens v (depth + 1) h.1).append
        (plain_fieldTokens fields (depth + 1) h.2)).append
          (plain_cons (plain_bracket (by decide)).2 (.nil _)))))

theorem plain_itemTokens : ∀ (xs : List Json) (depth : Nat),
    Json.ItemNumbers (fun n => ∀ c ∈ layout.number n, Json.isNumberChar c = true) xs →
    Plain layout.indent (layout.itemTokens depth xs)
  | [], _, _ => .nil _
  | x :: xs, depth, h => .cons (fun _ heq => nomatch heq)
    (plain_cons (outside_lineBreak layout depth)
      ((plain_tokens x depth h.1).append (plain_itemTokens xs depth h.2)))

theorem plain_fieldTokens : ∀ (fields : List (String × Json)) (depth : Nat),
    Json.FieldNumbers (fun n => ∀ c ∈ layout.number n, Json.isNumberChar c = true) fields →
    Plain layout.indent (layout.fieldTokens depth fields)
  | [], _, _ => .nil _
  | (_, v) :: fields, depth, h => .cons (fun _ heq => nomatch heq)
    (plain_cons (outside_lineBreak layout depth) (.cons (fun _ heq => nomatch heq)
      (.cons (fun _ heq => nomatch heq)
        ((plain_tokens v depth h.1).append (plain_fieldTokens fields depth h.2)))))

end

end tokens

/-! ## Separators are replaced -/

/-- How `serde_json` writes a value. -/
def serdeStyle (indent : Option Nat) : Style where
  char := escape
  item := [',']
  key := match indent with
    | none => [':']
    | some _ => [':', ' ']

/-- The same with other separators. -/
def JsonSeparatorPair.style (separators : JsonSeparatorPair) (char : Char → List Char) : Style where
  char
  item := separators.item
  key := separators.key

theorem not_outside_quote (indent : Option Nat) : ¬ Outside indent '"' := by
  rintro (h | h | ⟨-, h | h⟩) <;> revert h <;> decide

theorem not_outside_comma (indent : Option Nat) : ¬ Outside indent ',' := by
  rintro (h | h | ⟨-, h | h⟩) <;> revert h <;> decide

theorem not_outside_colon (indent : Option Nat) : ¬ Outside indent ':' := by
  rintro (h | h | ⟨-, h | h⟩) <;> revert h <;> decide

section replace

variable {separators : JsonSeparatorPair} {indent : Option Nat}

/-- One step outside of a string. -/
theorem replaceSeparators_outside (c : Char) (rest : List Char) :
    replaceSeparators separators false false (c :: rest) =
      if c = '"' then c :: replaceSeparators separators true false rest
      else if c = ',' then separators.item ++ replaceSeparators separators false false rest
      else if c = ':' then
        separators.key ++
          replaceSeparators separators false false (if rest.head? = some ' ' then rest.tail else rest)
      else c :: replaceSeparators separators false false rest := by
  rw [replaceSeparators.eq_def]
  dsimp only
  split
  · rfl
  split
  · rfl
  split
  · cases rest with
    | nil => rfl
    | cons d rest =>
      by_cases hd : d = ' '
      · subst hd
        rfl
      · rw [List.head?_cons, if_neg fun heq => hd (Option.some.inj heq)]
        split
        · rename_i heq
          exact absurd (List.cons.inj heq).1 hd
        · rfl
  · rfl

theorem replaceSeparators_plain {text : List Char} (h : ∀ c ∈ text, Outside indent c)
    (rest : List Char) :
    replaceSeparators separators false false (text ++ rest) =
      text ++ replaceSeparators separators false false rest := by
  induction text with
  | nil => rfl
  | cons c text ih =>
    obtain ⟨hc, htext⟩ := List.forall_mem_cons.1 h
    have hquote : c ≠ '"' := fun heq => not_outside_quote indent (heq ▸ hc)
    have hcomma : c ≠ ',' := fun heq => not_outside_comma indent (heq ▸ hc)
    have hcolon : c ≠ ':' := fun heq => not_outside_colon indent (heq ▸ hc)
    rw [List.cons_append, replaceSeparators_outside, if_neg hquote, if_neg hcomma, if_neg hcolon,
      ih htext, List.cons_append]

theorem replaceSeparators_sealed {text : List Char} (h : Sealed text) (rest : List Char) :
    replaceSeparators separators true false (text ++ '"' :: rest) =
      text ++ '"' :: replaceSeparators separators false false rest := by
  induction h with
  | nil => rfl
  | @raw c text hquote hslash _ ih =>
    rw [List.cons_append, replaceSeparators, if_neg Bool.false_ne_true, if_neg hslash,
      if_neg hquote, ih, List.cons_append]
  | @escaped e text _ ih =>
    rw [List.cons_append, List.cons_append, replaceSeparators, if_neg Bool.false_ne_true,
      if_pos rfl, replaceSeparators, if_pos rfl, ih, List.cons_append, List.cons_append]

/-- On one line no blank follows a colon. -/
theorem write_head_ne_blank {tokens : List Token} (h : Plain none tokens) :
    ∀ rest, (serdeStyle none).write tokens ≠ ' ' :: rest := by
  induction tokens with
  | nil => exact fun rest => nofun
  | cons t ts ih =>
    intro rest heq
    rw [Style.write_cons] at heq
    cases t with
    | plain text =>
      cases text with
      | nil => exact ih h.tail rest heq
      | cons c text =>
        have hc := h _ List.mem_cons_self c List.mem_cons_self
        rw [(List.cons.inj heq).1] at hc
        rcases hc with hc | hc | ⟨hc, -⟩ <;> revert hc <;> decide
    | literal s => exact absurd (List.cons.inj heq).1 (by decide)
    | item => exact absurd (List.cons.inj heq).1 (by decide)
    | key => exact absurd (List.cons.inj heq).1 (by decide)

/-- What stands behind a colon is scanned from its first character, or from the one behind the
blank of the formatter. -/
theorem replaceSeparators_key {tokens : List Token} (h : Plain indent tokens) :
    replaceSeparators separators false false
        ((serdeStyle indent).key ++ (serdeStyle indent).write tokens) =
      separators.key ++
        replaceSeparators separators false false ((serdeStyle indent).write tokens) := by
  cases indent with
  | none =>
    show replaceSeparators separators false false (':' :: (serdeStyle none).write tokens) = _
    have hhead : ¬ ((serdeStyle none).write tokens).head? = some ' ' := by
      intro heq
      obtain ⟨rest, hrest⟩ := List.head?_eq_some_iff.1 heq
      exact write_head_ne_blank h rest hrest
    rw [replaceSeparators_outside, if_neg (by decide), if_neg (by decide), if_pos rfl,
      if_neg hhead]
  | some n => rfl

/-- The scanner replaces the separators, and leaves all else as it is. -/
theorem replaceSeparators_write {tokens : List Token} (h : Plain indent tokens) :
    replaceSeparators separators false false ((serdeStyle indent).write tokens) =
      (separators.style escape).write tokens := by
  induction tokens with
  | nil => rfl
  | cons t ts ih =>
    rw [Style.write_cons, Style.write_cons]
    cases t with
    | plain text =>
      have hstep := @replaceSeparators_plain separators indent text
        (h text List.mem_cons_self) ((serdeStyle indent).write ts)
      exact hstep.trans (congrArg (text ++ ·) (ih h.tail))
    | literal s =>
      have hsealed : Sealed (s.toList.flatMap escape) := .flatMap Json.escape_sealed _
      have hliteral : ∀ (char : Char → List Char) (rest : List Char),
          '"' :: s.toList.flatMap char ++ ['"'] ++ rest = '"' :: (s.toList.flatMap char ++ '"' :: rest) :=
        fun char rest => by rw [List.append_assoc]; rfl
      show replaceSeparators separators false false ('"' :: s.toList.flatMap escape ++ ['"'] ++
        (serdeStyle indent).write ts) = '"' :: s.toList.flatMap escape ++ ['"'] ++ _
      rw [hliteral, hliteral, replaceSeparators_outside, if_pos rfl,
        replaceSeparators_sealed hsealed, ih h.tail]
    | item =>
      show replaceSeparators separators false false (',' :: (serdeStyle indent).write ts) = _
      rw [replaceSeparators_outside, if_neg (by decide), if_pos rfl, ih h.tail]
      rfl
    | key => exact (replaceSeparators_key h.tail).trans (congrArg (separators.key ++ ·) (ih h.tail))

end replace

/-! ## Separators are restored -/

/-- A comma and a colon for the separators outside of string literals; so many characters are left of a
separator, and the other states are those of the scanner. -/
def restoreScan (separators : JsonSeparatorPair) : Nat → Bool → Bool → List Char → List Char
  | _, _, _, [] => []
  | skip + 1, _, _, _ :: rest => restoreScan separators skip false false rest
  | 0, true, escaped, c :: rest =>
    c :: (if escaped = true then restoreScan separators 0 true false rest
      else if c = '\\' then restoreScan separators 0 true true rest
      else restoreScan separators 0 (c != '"') false rest)
  | 0, false, _, c :: rest =>
    if separators.item.isPrefixOf (c :: rest) = true then
      ',' :: restoreScan separators (separators.item.length - 1) false false rest
    else if separators.key.isPrefixOf (c :: rest) = true then
      ':' :: restoreScan separators (separators.key.length - 1) false false rest
    else c :: restoreScan separators 0 (c == '"') false rest

/-- The item separator as `,` and the key separator as `:` outside of string literals. -/
def restoreSeparators (separators : JsonSeparatorPair) (text : List Char) : List Char :=
  restoreScan separators 0 false false text

/-- A separator has a character that JSON does not write there, and what is before it is no quotation
mark. -/
structure Marks (indent : Option Nat) (separator before : List Char) (mark : Char)
    (behind : List Char) : Prop where
  shape : separator = before ++ mark :: behind
  plain : ∀ c ∈ before, Outside indent c
  foreign : ¬ Outside indent mark
  quote : mark ≠ '"'

/-- Separators that can be told from what JSON writes, and from each other. -/
def Unambiguous (indent : Option Nat) (separators : JsonSeparatorPair) : Prop :=
  ∃ a m b a' m' b', Marks indent separators.item a m b ∧ Marks indent separators.key a' m' b' ∧
    (m ≠ m' ∨ a.length = a'.length ∧ ¬ separators.item <+: separators.key ∧
      ¬ separators.key <+: separators.item)

section restore

variable {separators : JsonSeparatorPair} {indent : Option Nat}

/-- The first character that JSON does not write is in one place only. -/
theorem Marks.unique {separator before behind a b : List Char} {mark c : Char}
    (h : Marks indent separator before mark behind) (ha : ∀ d ∈ a, Outside indent d)
    (hc : ¬ Outside indent c) (hstarts : separator <+: a ++ c :: b) : before = a ∧ mark = c := by
  obtain ⟨rest, hrest⟩ := hstarts
  rw [h.shape, List.append_assoc, List.cons_append] at hrest
  have hbefore := h.plain
  have hmark := h.foreign
  clear h
  induction before generalizing a with
  | nil =>
    cases a with
    | nil => exact ⟨rfl, (List.cons.inj hrest).1⟩
    | cons d a =>
      rw [(List.cons.inj hrest).1] at hmark
      exact absurd (ha d List.mem_cons_self) hmark
  | cons e before ih =>
    cases a with
    | nil =>
      rw [← (List.cons.inj hrest).1] at hc
      exact absurd (hbefore e List.mem_cons_self) hc
    | cons d a =>
      obtain ⟨rfl, htail⟩ := List.cons.inj hrest
      obtain ⟨rfl, hsame⟩ := ih (fun c hc => ha c (List.mem_cons_of_mem _ hc)) htail
        fun c hc => hbefore c (List.mem_cons_of_mem _ hc)
      exact ⟨rfl, hsame⟩

theorem Marks.not_prefix {separator before behind text : List Char} {mark : Char}
    (h : Marks indent separator before mark behind) (htext : ∀ d ∈ text, Outside indent d) :
    ¬ separator <+: text := by
  intro hstarts
  refine h.foreign (htext mark (hstarts.subset ?_))
  rw [h.shape]
  exact List.mem_append_right _ List.mem_cons_self

theorem Marks.ne_nil {separator before behind : List Char} {mark : Char}
    (h : Marks indent separator before mark behind) : separator ≠ [] := by
  rw [h.shape]
  exact List.append_ne_nil_of_right_ne_nil _ (List.cons_ne_nil _ _)

/-- No separator starts in what comes before a text. -/
def Clear (separators : JsonSeparatorPair) (indent : Option Nat) (rest : List Char) : Prop :=
  ∀ text, text ≠ [] → (∀ c ∈ text, Outside indent c) →
    ¬ separators.item <+: text ++ rest ∧ ¬ separators.key <+: text ++ rest

theorem Clear.plain {rest text : List Char} (h : Clear separators indent rest)
    (htext : ∀ c ∈ text, Outside indent c) : Clear separators indent (text ++ rest) := by
  intro before hne hbefore
  rw [← List.append_assoc]
  refine h _ (fun hnil => hne (List.append_eq_nil_iff.1 hnil).1) fun c hc => ?_
  exact (List.mem_append.1 hc).elim (hbefore c) (htext c)

variable (hsep : Unambiguous indent separators)

include hsep

theorem Clear.nil : Clear separators indent [] := by
  obtain ⟨a, m, b, a', m', b', hitem, hkey, -⟩ := hsep
  intro text _ htext
  rw [List.append_nil]
  exact ⟨hitem.not_prefix htext, hkey.not_prefix htext⟩

theorem Clear.quote (rest : List Char) : Clear separators indent ('"' :: rest) := by
  obtain ⟨a, m, b, a', m', b', hitem, hkey, -⟩ := hsep
  intro text _ htext
  exact ⟨fun h => hitem.quote (hitem.unique htext (not_outside_quote indent) h).2,
    fun h => hkey.quote (hkey.unique htext (not_outside_quote indent) h).2⟩

theorem Clear.item (rest : List Char) : Clear separators indent (separators.item ++ rest) := by
  obtain ⟨a, m, b, a', m', b', hitem, hkey, hne⟩ := hsep
  intro text htext houtside
  have hall : ∀ c ∈ text ++ a, Outside indent c := fun c hc =>
    (List.mem_append.1 hc).elim (houtside c) (hitem.plain c)
  have hshape : text ++ (separators.item ++ rest) = (text ++ a) ++ m :: (b ++ rest) := by
    rw [hitem.shape]
    simp only [List.append_assoc, List.cons_append]
  have hlength : 0 < text.length := List.length_pos_iff.2 htext
  rw [hshape]
  refine ⟨fun h => ?_, fun h => ?_⟩
  · have hsame := congrArg List.length (hitem.unique hall hitem.foreign h).1
    rw [List.length_append] at hsame
    omega
  · obtain ⟨hbefore, hmark⟩ := hkey.unique hall hitem.foreign h
    have hsame := congrArg List.length hbefore
    rw [List.length_append] at hsame
    rcases hne with hne | ⟨hequal, -⟩
    · exact hne hmark.symm
    · omega

theorem Clear.key (rest : List Char) : Clear separators indent (separators.key ++ rest) := by
  obtain ⟨a, m, b, a', m', b', hitem, hkey, hne⟩ := hsep
  intro text htext houtside
  have hall : ∀ c ∈ text ++ a', Outside indent c := fun c hc =>
    (List.mem_append.1 hc).elim (houtside c) (hkey.plain c)
  have hshape : text ++ (separators.key ++ rest) = (text ++ a') ++ m' :: (b' ++ rest) := by
    rw [hkey.shape]
    simp only [List.append_assoc, List.cons_append]
  have hlength : 0 < text.length := List.length_pos_iff.2 htext
  rw [hshape]
  refine ⟨fun h => ?_, fun h => ?_⟩
  · obtain ⟨hbefore, hmark⟩ := hitem.unique hall hkey.foreign h
    have hsame := congrArg List.length hbefore
    rw [List.length_append] at hsame
    rcases hne with hne | ⟨hequal, -⟩
    · exact hne hmark
    · omega
  · have hsame := congrArg List.length (hkey.unique hall hkey.foreign h).1
    rw [List.length_append] at hsame
    omega

/-- The item separator is not read where that of a key stands. -/
theorem Unambiguous.item_not_prefix (rest : List Char) :
    ¬ separators.item <+: separators.key ++ rest := by
  obtain ⟨a, m, b, a', m', b', hitem, hkey, hne⟩ := hsep
  intro h
  rcases hne with hne | ⟨-, hitemKey, hkeyItem⟩
  · rw [hkey.shape, List.append_assoc, List.cons_append] at h
    exact hne (hitem.unique hkey.plain hkey.foreign h).2
  · rcases List.prefix_or_prefix_of_prefix h (List.prefix_append _ rest) with hstarts | hstarts
    · exact hitemKey hstarts
    · exact hkeyItem hstarts

omit hsep in
theorem restoreScan_skip (text rest : List Char) :
    restoreScan separators text.length false false (text ++ rest) =
      restoreScan separators 0 false false rest := by
  induction text with
  | nil => rfl
  | cons c text ih => exact ih

theorem restoreScan_item (rest : List Char) :
    restoreScan separators 0 false false (separators.item ++ rest) =
      ',' :: restoreScan separators 0 false false rest := by
  obtain ⟨a, m, b, a', m', b', hitem, hkey, hne⟩ := hsep
  obtain ⟨c, text, htext⟩ := List.exists_cons_of_ne_nil hitem.ne_nil
  have hstarts : separators.item.isPrefixOf (c :: (text ++ rest)) = true :=
    List.isPrefixOf_iff_prefix.2 (htext ▸ List.prefix_append (c :: text) rest)
  rw [show separators.item ++ rest = c :: (text ++ rest) by rw [htext]; rfl, restoreScan,
    if_pos hstarts, htext, List.length_cons, Nat.add_sub_cancel, restoreScan_skip]

theorem restoreScan_key (rest : List Char) :
    restoreScan separators 0 false false (separators.key ++ rest) =
      ':' :: restoreScan separators 0 false false rest := by
  have hnot := Unambiguous.item_not_prefix hsep rest
  obtain ⟨a, m, b, a', m', b', hitem, hkey, hne⟩ := hsep
  obtain ⟨c, text, htext⟩ := List.exists_cons_of_ne_nil hkey.ne_nil
  have hshape : separators.key ++ rest = c :: (text ++ rest) := by
    rw [htext]
    rfl
  rw [hshape] at hnot ⊢
  have hstarts : separators.key.isPrefixOf (c :: (text ++ rest)) = true :=
    List.isPrefixOf_iff_prefix.2 (htext ▸ List.prefix_append (c :: text) rest)
  rw [restoreScan, if_neg (fun h => hnot (List.isPrefixOf_iff_prefix.1 h)), if_pos hstarts, htext,
    List.length_cons, Nat.add_sub_cancel, restoreScan_skip]

omit hsep in
theorem restoreScan_plain {text rest : List Char} (h : ∀ c ∈ text, Outside indent c)
    (hrest : Clear separators indent rest) :
    restoreScan separators 0 false false (text ++ rest) =
      text ++ restoreScan separators 0 false false rest := by
  induction text with
  | nil => rfl
  | cons c text ih =>
    obtain ⟨hc, htext⟩ := List.forall_mem_cons.1 h
    obtain ⟨hitem, hkey⟩ := hrest (c :: text) (List.cons_ne_nil _ _) h
    have hquote : (c == '"') = false := beq_eq_false_iff_ne.2 fun heq =>
      not_outside_quote indent (heq ▸ hc)
    rw [List.cons_append] at hitem hkey ⊢
    rw [restoreScan, if_neg (fun h => hitem (List.isPrefixOf_iff_prefix.1 h)),
      if_neg (fun h => hkey (List.isPrefixOf_iff_prefix.1 h)), hquote, ih htext, List.cons_append]

omit hsep in
theorem restoreScan_sealed {text : List Char} (h : Sealed text) (rest : List Char) :
    restoreScan separators 0 true false (text ++ '"' :: rest) =
      text ++ '"' :: restoreScan separators 0 false false rest := by
  induction h with
  | nil => rfl
  | @raw c text hquote hslash _ ih =>
    rw [List.cons_append, restoreScan, if_neg Bool.false_ne_true, if_neg hslash,
      show (c != '"') = true from bne_iff_ne.2 hquote, ih, List.cons_append]
  | @escaped e text _ ih =>
    rw [List.cons_append, List.cons_append, restoreScan, if_neg Bool.false_ne_true,
      if_pos rfl, restoreScan, if_pos rfl, ih, List.cons_append, List.cons_append]

theorem restoreScan_quote (rest : List Char) :
    restoreScan separators 0 false false ('"' :: rest) =
      '"' :: restoreScan separators 0 true false rest := by
  obtain ⟨a, m, b, a', m', b', hitem, hkey, -⟩ := hsep
  have hquote := not_outside_quote indent
  have hnone : ∀ c ∈ ([] : List Char), Outside indent c := fun c hc => absurd hc List.not_mem_nil
  have hnoItem : ¬ separators.item.isPrefixOf ('"' :: rest) = true := fun h =>
    hitem.quote (hitem.unique hnone hquote (List.isPrefixOf_iff_prefix.1 h)).2
  have hnoKey : ¬ separators.key.isPrefixOf ('"' :: rest) = true := fun h =>
    hkey.quote (hkey.unique hnone hquote (List.isPrefixOf_iff_prefix.1 h)).2
  rw [restoreScan, if_neg hnoItem, if_neg hnoKey]
  rfl

/-- The separators of JSON. -/
def plainSeparators : JsonSeparatorPair := ⟨[','], [':']⟩

/-- What was written with separators that can be told from all else is mapped to what is written with
those of JSON. -/
theorem restoreSeparators_write {char : Char → List Char} (hchar : ∀ c, Sealed (char c))
    {tokens : List Token} (h : Plain indent tokens) :
    Clear separators indent ((separators.style char).write tokens) ∧
      restoreScan separators 0 false false ((separators.style char).write tokens) =
        (plainSeparators.style char).write tokens := by
  induction tokens with
  | nil => exact ⟨.nil hsep, rfl⟩
  | cons t ts ih =>
    obtain ⟨hclear, hscan⟩ := ih h.tail
    rw [Style.write_cons, Style.write_cons]
    cases t with
    | plain text =>
      have htext := h text List.mem_cons_self
      exact ⟨hclear.plain htext,
        (restoreScan_plain htext hclear).trans (congrArg (text ++ ·) hscan)⟩
    | literal s =>
      have hsealed : Sealed (s.toList.flatMap char) := .flatMap hchar _
      have hliteral : ∀ rest : List Char, '"' :: s.toList.flatMap char ++ ['"'] ++ rest =
          '"' :: (s.toList.flatMap char ++ '"' :: rest) :=
        fun rest => by rw [List.append_assoc]; rfl
      refine ⟨.quote hsep _, ?_⟩
      show restoreScan separators 0 false false ('"' :: s.toList.flatMap char ++ ['"'] ++ _) =
        '"' :: s.toList.flatMap char ++ ['"'] ++ _
      rw [hliteral, hliteral, restoreScan_quote hsep, restoreScan_sealed hsealed, hscan]
    | item => exact ⟨.item hsep _, (restoreScan_item hsep _).trans (congrArg (',' :: ·) hscan)⟩
    | key => exact ⟨.key hsep _, (restoreScan_key hsep _).trans (congrArg (':' :: ·) hscan)⟩

end restore

/-! ## ASCII -/

theorem outside_ascii {indent : Option Nat} {c : Char} (h : Outside indent c) : c.toNat < 128 := by
  have hword : ∀ c ∈ "truefalsn[]\x7b\x7d".toList, c.toNat < 128 := by simp
  rcases h with h | h | ⟨-, rfl | rfl⟩
  · simp only [Json.isNumberChar, Bool.or_eq_true, beq_iff_eq] at h
    rcases h with ((((h | rfl) | rfl) | rfl) | rfl) | rfl
    · exact Nat.lt_of_le_of_lt (Char.isDigit_iff_toNat.1 h).2 (by decide)
    all_goals decide
  · exact hword c h
  · decide
  · decide

/-- Only the characters of literals are escaped. -/
theorem write_ascii {separators : JsonSeparatorPair} {indent : Option Nat}
    (hitem : ∀ c ∈ separators.item, c.toNat < 128) (hkey : ∀ c ∈ separators.key, c.toNat < 128)
    {tokens : List Token} (h : Plain indent tokens) :
    ((separators.style escape).write tokens).flatMap asciiText =
      (separators.style fun c => (escape c).flatMap asciiText).write tokens := by
  induction tokens with
  | nil => rfl
  | cons t ts ih =>
    rw [Style.write_cons, Style.write_cons, List.flatMap_append, ih h.tail]
    refine congrArg (· ++ _) ?_
    cases t with
    | plain text =>
      exact Json.flatMap_ascii fun c hc => outside_ascii (h text List.mem_cons_self c hc)
    | literal s =>
      show ('"' :: s.toList.flatMap escape ++ ['"']).flatMap asciiText =
        '"' :: s.toList.flatMap (fun c => (escape c).flatMap asciiText) ++ ['"']
      rw [List.cons_append, List.flatMap_cons, List.flatMap_append, List.flatMap_assoc]
      rfl
    | item => exact Json.flatMap_ascii hitem
    | key => exact Json.flatMap_ascii hkey

/-! ## The filter -/

/-- A number as `serde_json` has it. -/
def ValidNumber (isFloat : Rat → Prop) : JsonNumber → Prop
  | .posInt _ => True
  | .negInt n => n < 0
  | .float x => isFloat x

/-- What is known of `serde_json`: the formats of its serializers; that a value which is read has its
fields in the order of their keys, and its floats as they are read; and that another reader of JSON
reads a float as it is printed. -/
structure SerdeJson.Documented (serde : SerdeJson) (print : Rat → List Char) (reread : Rat → Rat)
    (isFloat : Rat → Prop) (read : List Char → Option Rat) : Prop where
  text : ∀ indent value,
    serde.toText indent value = (serdeStyle indent).write (Layout.tokens ⟨print, indent⟩ 0 value)
  value : ∀ value value', value.Numbers (ValidNumber isFloat) →
    serde.fromStr (serde.toText none value) = .ok value' → value' = value.reread reread
  chars : ∀ x, isFloat x → ∀ c ∈ print x, Json.isNumberChar c = true
  mark : ∀ x, isFloat x → ∃ c ∈ (print x).tail, c.isDigit = false
  read : ∀ x, isFloat x → read (print x) = some x
  reread : ∀ x, isFloat x → isFloat (reread x)

/-- The characters of the literals. -/
def charText (ensureAscii : Bool) (c : Char) : List Char :=
  if ensureAscii = true then (escape c).flatMap asciiText else escape c

/-- A comma and a colon with blanks around them. -/
def Spaced (separators : JsonSeparatorPair) : Prop :=
  ∃ a b a' b', separators.item = List.replicate a ' ' ++ ',' :: List.replicate b ' ' ∧
    separators.key = List.replicate a' ' ' ++ ':' :: List.replicate b' ' '

theorem boundedPrompt_eq_ok {text out : List Char} (h : boundedPrompt text = .ok out) :
    out = text := by
  unfold boundedPrompt at h
  simp only [bind_eq_ok, ensure_eq_ok, pure_eq_ok] at h
  obtain ⟨_, -, rfl⟩ := h
  rfl

theorem jsonSeparatorPair_ascii {values : Option (List String)} {pretty : Bool}
    {separators : JsonSeparatorPair} (h : jsonSeparatorPair values pretty = .ok separators) :
    (∀ c ∈ separators.item, c.toNat < 128) ∧ ∀ c ∈ separators.key, c.toNat < 128 := by
  unfold jsonSeparatorPair at h
  simp only [bind_eq_ok, ensure_eq_ok, pure_eq_ok] at h
  obtain ⟨pair, -, _, hall, rfl⟩ := h
  have hascii : ∀ separator ∈ [pair.item, pair.key], ∀ c ∈ separator, c.toNat < 128 :=
    fun separator hseparator c hc =>
      of_decide_eq_true (List.all_eq_true.1 (hall separator hseparator).2.2.1 c hc)
  exact ⟨hascii _ List.mem_cons_self, hascii _ (List.mem_cons_of_mem _ List.mem_cons_self)⟩

section filter

variable {serde : SerdeJson} {print : Rat → List Char} {reread : Rat → Rat} {isFloat : Rat → Prop}
  {read : List Char → Option Rat}

theorem reads_valid (hchars : ∀ x, isFloat x → ∀ c ∈ print x, Json.isNumberChar c = true)
    (hmark : ∀ x, isFloat x → ∃ c ∈ (print x).tail, c.isDigit = false)
    (hread : ∀ x, isFloat x → read (print x) = some x) (indent : Option Nat) {n : JsonNumber}
    (hn : ValidNumber isFloat n) : Layout.Reads ⟨print, indent⟩ read n := by
  cases n with
  | posInt n => exact Layout.reads_posInt n
  | negInt n => exact Layout.reads_negInt hn
  | float x => exact Layout.reads_float (hchars x hn) (hmark x hn) (hread x hn)

theorem SerdeJson.Documented.reads (hserde : serde.Documented print reread isFloat read)
    (indent : Option Nat) {n : JsonNumber} (hn : ValidNumber isFloat n) :
    Layout.Reads ⟨print, indent⟩ read n :=
  reads_valid hserde.chars hserde.mark hserde.read indent hn

/-- The text before its separators are replaced is that of the value, or of the value as it is read
again. -/
theorem serializedJson_eq_ok (hserde : serde.Documented print reread isFloat read) {value : Json}
    (hvalue : value.Numbers (ValidNumber isFloat)) {kwargs : Kwargs} {text : List Char} (h : serializedJson serde value kwargs = .ok text) :
    text = (serdeStyle kwargs.indent).write (Layout.tokens ⟨print, kwargs.indent⟩ 0
      (if kwargs.sortKeys.getD false = true then value.reread reread else value)) := by
  unfold serializedJson serializeBoundedJson at h
  split at h
  · rename_i hsort
    rw [if_pos hsort]
    simp only [bind_eq_ok] at h
    obtain ⟨compact, hcompact, sorted, hsorted, htext⟩ := h
    rw [boundedPrompt_eq_ok hcompact] at hsorted
    rw [boundedPrompt_eq_ok htext, hserde.value value sorted hvalue hsorted, hserde.text]
  · rename_i hsort
    rw [if_neg hsort, boundedPrompt_eq_ok h, hserde.text]

/-- The text of the filter is that of `serde_json` with other separators, and with all that is not ASCII
escaped where this is asked for. -/
theorem tojson_eq_ok (hserde : serde.Documented print reread isFloat read) {value : Json}
    (hvalue : value.Numbers (ValidNumber isFloat)) {kwargs : Kwargs} {text : List Char}
    (h : tojson serde value kwargs = .ok text) : ∃ separators written,
      jsonSeparatorPair kwargs.separators kwargs.indent.isSome = .ok separators ∧
      written = (if kwargs.sortKeys.getD false = true then value.reread reread else value) ∧
      written.Numbers (ValidNumber isFloat) ∧
      text = (separators.style (charText (kwargs.ensureAscii.getD false))).write
        (Layout.tokens ⟨print, kwargs.indent⟩ 0 written) := by
  unfold tojson at h
  simp only [bind_eq_ok, ensure_eq_ok] at h
  obtain ⟨_, -, separators, hseparators, json, hjson, replaced, hreplaced, htext⟩ := h
  have hwritten : (if kwargs.sortKeys.getD false = true then value.reread reread else value).Numbers
      (ValidNumber isFloat) := by
    split
    · refine Json.numbers_reread (fun n hn => ?_) value hvalue
      cases n with
      | posInt n => trivial
      | negInt n => exact hn
      | float x => exact hserde.reread x hn
    · exact hvalue
  have hplain := @plain_tokens ⟨print, kwargs.indent⟩ _ 0
    (Json.Numbers.imp (fun n hn => (hserde.reads kwargs.indent hn).chars) _ hwritten)
  rw [serializedJson_eq_ok hserde hvalue hjson] at hreplaced
  have hreplaced' := boundedPrompt_eq_ok hreplaced
  rw [replaceSeparators_write hplain] at hreplaced'
  refine ⟨separators, _, hseparators, rfl, hwritten, ?_⟩
  have hascii := jsonSeparatorPair_ascii hseparators
  unfold charText
  split at htext
  · rename_i hensure
    simp only [if_pos hensure]
    rw [boundedPrompt_eq_ok htext, hreplaced', write_ascii hascii.1 hascii.2 hplain]
  · rename_i hensure
    simp only [if_neg hensure]
    rw [← Except.ok.inj htext, hreplaced']

theorem charText_readable (ensureAscii : Bool) : Json.Readable (charText ensureAscii) := by
  cases ensureAscii with
  | false => exact Json.escape_readable
  | true => exact Json.ascii_readable

theorem charText_sealed (ensureAscii : Bool) (c : Char) : Sealed (charText ensureAscii c) := by
  cases ensureAscii with
  | false => exact Json.escape_sealed c
  | true => exact Json.ascii_sealed c

theorem blank_replicate (n : Nat) : Json.Blank (List.replicate n ' ') := fun c hc => by
  rw [List.eq_of_mem_replicate hc]
  rfl

theorem Spaced.direct {separators : JsonSeparatorPair} (h : Spaced separators)
    {char : Char → List Char} (hchar : Json.Readable char) : (separators.style char).Direct := by
  obtain ⟨a, b, a', b', hitem, hkey⟩ := h
  exact ⟨hchar, ⟨_, _, blank_replicate a, blank_replicate b, hitem⟩,
    ⟨_, _, blank_replicate a', blank_replicate b', hkey⟩⟩

/-- `serde_json` writes a comma, and a colon with a blank at most. -/
theorem serdeStyle_direct (indent : Option Nat) : (serdeStyle indent).Direct := by
  refine ⟨Json.escape_readable, ⟨[], [], blank_replicate 0, blank_replicate 0, rfl⟩, ?_⟩
  cases indent with
  | none => exact ⟨[], [], blank_replicate 0, blank_replicate 0, rfl⟩
  | some n => exact ⟨[], [' '], blank_replicate 0, blank_replicate 1, rfl⟩

theorem plainSeparators_spaced : Spaced plainSeparators := ⟨0, 0, 0, 0, rfl, rfl⟩

/-- What the filter writes is the value: once its separators are a comma and a colon again, where they
can be told from the rest, and as it is, where they are a comma and a colon with blanks around them.
The literals are those of `serde_json` but for what is escaped to be ASCII. -/
theorem tojson_faithful (serde : SerdeJson) (print : Rat → List Char) (reread : Rat → Rat)
    (isFloat : Rat → Prop) (read : List Char → Option Rat)
    (hserde : serde.Documented print reread isFloat read) (value : Json)
    (hvalue : value.Numbers (ValidNumber isFloat)) (hdistinct : value.Distinct) (kwargs : Kwargs)
    (text : List Char) (h : tojson serde value kwargs = .ok text) :
    ∃ separators written tokens,
      jsonSeparatorPair kwargs.separators kwargs.indent.isSome = .ok separators ∧
      (kwargs.sortKeys.getD false = false → written = value) ∧
      (kwargs.sortKeys.getD false = true → value.Numbers (fun n => n.reread reread = n) →
        Json.Same value written) ∧
      (Unambiguous kwargs.indent separators →
        Json.parse read (restoreSeparators separators text) = some written) ∧
      (Spaced separators → Json.parse read text = some written) ∧
      serde.toText kwargs.indent written = (serdeStyle kwargs.indent).write tokens ∧
      text = (separators.style (charText (kwargs.ensureAscii.getD false))).write tokens ∧
      (kwargs.ensureAscii.getD false = true → ∀ c ∈ text, c.toNat < 128) := by
  obtain ⟨separators, written, hseparators, hsame, hwritten, htext⟩ := tojson_eq_ok hserde hvalue h
  have hreads := Json.Numbers.imp (fun n hn => hserde.reads kwargs.indent hn) _ hwritten
  have hplain := @plain_tokens ⟨print, kwargs.indent⟩ written 0
    (Json.Numbers.imp (fun n hn => hn.chars) _ hreads)
  have hchar := charText_readable (kwargs.ensureAscii.getD false)
  refine ⟨separators, written, _, hseparators, fun hsort => ?_, fun hsort hfloats => ?_,
    fun hunambiguous => ?_, fun hspaced => ?_, hserde.text _ _, htext, fun hascii => ?_⟩
  · rw [hsame, hsort, if_neg Bool.false_ne_true]
  · rw [hsame, hsort, if_pos rfl]
    exact Json.same_reread value hdistinct hfloats
  · have hrestore := (restoreSeparators_write hunambiguous (charText_sealed (kwargs.ensureAscii.getD false))
      hplain).2
    rw [htext, restoreSeparators, hrestore]
    exact Json.parse_write (plainSeparators_spaced.direct hchar) hreads 0
  · rw [htext]
    exact Json.parse_write (hspaced.direct hchar) hreads 0
  · have hseparatorsAscii := jsonSeparatorPair_ascii hseparators
    rw [hascii] at htext
    have hescaped := write_ascii hseparatorsAscii.1 hseparatorsAscii.2 hplain
    rw [htext]
    intro c hc
    rw [show (separators.style (charText true)) = separators.style
      (fun c => (escape c).flatMap asciiText) from rfl, ← hescaped] at hc
    obtain ⟨d, -, hd⟩ := List.mem_flatMap.1 hc
    exact Json.asciiText_mem d c hd

end filter

/-! ## A filter -/

/-- A `serde_json` for values whose only float is a half. -/
def halfSerde : SerdeJson where
  toText indent value := (serdeStyle indent).write
    (Layout.tokens ⟨fun _ => "0.5".toList, indent⟩ 0 value)
  fromStr text :=
    match Json.parse (fun text => if text = "0.5".toList then some (1 / 2) else none) text with
    | some value => .ok (value.reread id)
    | none => .error "expected value"

theorem halfSerde_documented : halfSerde.Documented (fun _ => "0.5".toList) id (· = 1 / 2)
    fun text => if text = "0.5".toList then some (1 / 2) else none where
  text _ _ := rfl
  value value value' hvalue h := by
    have hreads := Json.Numbers.imp (fun n hn => @reads_valid (fun _ => "0.5".toList) (· = 1 / 2)
      (fun text => if text = "0.5".toList then some (1 / 2) else none) (fun _ _ => by simp [Json.isNumberChar])
      (fun _ _ => ⟨'.', by decide, rfl⟩) (fun x hx => by rw [if_pos rfl, hx]) none n hn) value hvalue
    have hparse := Json.parse_write (serdeStyle_direct none) hreads 0
    unfold halfSerde at h
    dsimp only at h
    rw [hparse] at h
    exact (Except.ok.inj h).symm
  chars _ _ := by simp [Json.isNumberChar]
  mark _ _ := ⟨'.', by decide, rfl⟩
  read x hx := by
    rw [if_pos rfl, hx]
  reread _ hx := hx

/-- An object whose keys are not in order, with a quotation mark, a backslash and a letter that is not
ASCII in its strings. -/
def sample : Json :=
  .object [("b", .array [.number (.float (1 / 2)), .string "\"é,\\"]),
    ("a", .number (.negInt (-3)))]

def sampleKwargs : Kwargs where
  indent := none
  ensureAscii := some true
  sortKeys := some true
  separators := some [";", " = "]

theorem tojson_sample :
    tojson halfSerde sample sampleKwargs =
        .ok "\x7b\"a\" = -3;\"b\" = [0.5;\"\\\"\\u00e9,\\\\\"]\x7d".toList ∧
      ∃ written, Json.Same sample written ∧
        Json.parse (fun text => if text = "0.5".toList then some (1 / 2) else none)
          (restoreSeparators ⟨[';'], " = ".toList⟩
            "\x7b\"a\" = -3;\"b\" = [0.5;\"\\\"\\u00e9,\\\\\"]\x7d".toList) = some written := by
  have hok : tojson halfSerde sample sampleKwargs =
      .ok "\x7b\"a\" = -3;\"b\" = [0.5;\"\\\"\\u00e9,\\\\\"]\x7d".toList := by
    rfl
  have hnumbers : ∀ p : JsonNumber → Prop, p (.float (1 / 2)) → p (.negInt (-3)) →
      sample.Numbers p := fun p hfloat hint => ⟨⟨hfloat, trivial, trivial⟩, hint, trivial⟩
  have hsemicolon : Marks none [';'] [] ';' [] :=
    ⟨rfl, fun c hc => absurd hc List.not_mem_nil, by
      rintro (h | h | ⟨h, -⟩) <;> revert h <;> decide, by decide⟩
  have hblank : Marks none " = ".toList [] ' ' ['=', ' '] :=
    ⟨rfl, fun c hc => absurd hc List.not_mem_nil, by
      rintro (h | h | ⟨h, -⟩) <;> revert h <;> decide, by decide⟩
  obtain ⟨separators, written, -, hseparators, -, hsame, hrestore, -⟩ :=
    tojson_faithful halfSerde _ _ _ _ halfSerde_documented sample (hnumbers _ rfl (show (-3 : Int) < 0 by decide))
      ⟨by decide, ⟨trivial, trivial, trivial⟩, trivial, trivial⟩ sampleKwargs _ hok
  obtain rfl : separators = ⟨[';'], " = ".toList⟩ := (Except.ok.inj hseparators).symm
  exact ⟨hok, written, hsame rfl (hnumbers _ rfl rfl),
    hrestore ⟨_, _, _, _, _, _, hsemicolon, hblank, .inl (by decide)⟩⟩

/-- With a digit for a separator two values have one text, which no reader tells apart. -/
theorem digit_separator_ambiguous : ¬ ∃ reader : JsonSeparatorPair → List Char → Option Json,
    ∀ value kwargs separators text,
      jsonSeparatorPair kwargs.separators kwargs.indent.isSome = .ok separators →
      tojson halfSerde value kwargs = .ok text → kwargs.sortKeys.getD false = false →
      reader separators text = some value := by
  rintro ⟨reader, h⟩
  have hpair := h (.array [.number (.posInt 1), .number (.posInt 1)])
    ⟨none, none, none, some ["1", ":"]⟩ ⟨['1'], [':']⟩ "[111]".toList rfl (by rfl) rfl
  have hone := h (.array [.number (.posInt 111)])
    ⟨none, none, none, some ["1", ":"]⟩ ⟨['1'], [':']⟩ "[111]".toList rfl (by rfl) rfl
  rw [hpair] at hone
  cases hone

end ToJson

end Emelex
