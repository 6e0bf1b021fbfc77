import Emelex.Lib.Text

/-!
# Reasoning spans (`engine/reasoning.rs`)

Detection, extraction and budget of the delimited reasoning span a reply may start with.  A
`str` is the list of its characters; where the source bounds a length in bytes the model takes
`utf8Len`.

* `prefixCandidate` — the reply after at most 64 bytes of leading white space.
* `splitReasoning` — terminal extraction of `(reasoning, answer)`.
* `ReasoningBudget.observe` — the budget that forces the span closed.

Principal results: `splitReasoning_eq` and `opensReasoning_iff` (the split is decided by the
opener the reply starts with), `splitReasoning_lossless` (nothing but markers and leading white space is lost),
`ReasoningBudget.observeAll_length_le` (a budget fires at most once).
-/

set_option autoImplicit false

namespace Emelex

/-- A Rust `str`. -/
abbrev Str := List Char

open Text

/-- `(open, close)` marker pairs, checked in order. -/
def MARKER_PAIRS : List (Str × Str) :=
  [("<think>".toList, "</think>".toList),
    ("<|channel>thought".toList, "<channel|>".toList)]

/-- Maximum leading whitespace retained before a reasoning marker. -/
def MAX_PREFIX_WHITESPACE_BYTES : Nat := 64

/-- Maximum leading whitespace before a duplicated close. -/
def MAX_FORCED_CLOSE_WHITESPACE_BYTES : Nat := 8

/-- The marker candidate after a bounded amount of leading whitespace. -/
def prefixCandidate (text : Str) : Option Str :=
  let candidate := trimStart text
  if utf8Len text - utf8Len candidate ≤ MAX_PREFIX_WHITESPACE_BYTES then some candidate else none

/-- Remove one immediately duplicated post-force close. -/
def stripImmediateForcedClose (text close : Str) : Option Str :=
  let candidate := trimStart text
  let leadingBytes := utf8Len text - utf8Len candidate
  if leadingBytes ≤ MAX_FORCED_CLOSE_WHITESPACE_BYTES then stripPrefix close candidate else none

/-- `(!reasoning.is_empty()).then_some(reasoning)`. -/
def nonemptyReasoning (reasoning : Str) : Option Str :=
  if reasoning = [] then none else some reasoning

/-- The first marker pair whose opener starts `candidate`, with what follows the opener. -/
def openedBy (candidate : Str) : List (Str × Str) → Option (Str × Str × Str)
  | [] => none
  | (opener, close) :: pairs =>
    match stripPrefix opener candidate with
    | some afterOpen => some (opener, close, afterOpen)
    | none => openedBy candidate pairs

/-- `split_reasoning_inner`. -/
def splitReasoningInner (text : Str) (dropImmediateDuplicate : Bool) : Option Str × Str :=
  match prefixCandidate text with
  | none => (none, text)
  | some candidate =>
    match openedBy candidate MARKER_PAIRS with
    | none => (none, text)
    | some (_, close, afterOpen) =>
      match find close afterOpen with
      | some closeAt =>
        let reasoning := afterOpen.take closeAt
        let remainder := afterOpen.drop (closeAt + close.length)
        let answer :=
          if dropImmediateDuplicate then
            (stripImmediateForcedClose remainder close).getD remainder
          else remainder
        (nonemptyReasoning reasoning, answer)
      | none => (nonemptyReasoning afterOpen, [])

/-- `split_reasoning`: a raw reply as `(reasoning, answer)`. -/
def splitReasoning (text : Str) : Option Str × Str := splitReasoningInner text false

/-- `split_reasoning_after_forced_close`. -/
def splitReasoningAfterForcedClose (text : Str) : Option Str × Str :=
  splitReasoningInner text true

/-- `pending_marker`: the pair whose opener ends the rendered prompt. -/
def pendingMarker (prompt : Str) : Option (Str × Str) :=
  let trimmed := trimEnd prompt
  MARKER_PAIRS.find? fun pair => pair.1 <:+ trimmed

/-- `trailing_empty_marker`: a complete empty span at the rendered prompt's end. -/
def trailingEmptyMarker (prompt : Str) : Option (Str × Str) :=
  let trimmed := trimEnd prompt
  MARKER_PAIRS.find? fun pair =>
    match stripSuffix pair.2 trimmed with
    | none => false
    | some beforeClose => pair.1 <:+ trimEnd beforeClose

/-! ## What the split returns -/

/-- The reply opens a reasoning span: the pair and the text after the opener. -/
def opensReasoning (text : Str) : Option (Str × Str × Str) :=
  (prefixCandidate text).bind fun candidate => openedBy candidate MARKER_PAIRS

/-- Reasoning and rest of a span whose opener has been read. -/
def spanOf (close afterOpen : Str) : Str × Str :=
  match find close afterOpen with
  | some closeAt => (afterOpen.take closeAt, afterOpen.drop (closeAt + close.length))
  | none => (afterOpen, [])

theorem nonemptyReasoning_getD (r : Str) : (nonemptyReasoning r).getD [] = r := by
  unfold nonemptyReasoning
  split
  · rename_i h; exact h.symm
  · rfl

theorem prefixCandidate_eq_some {text candidate : Str} :
    prefixCandidate text = some candidate ↔
      candidate = trimStart text ∧
        utf8Len (text.takeWhile isWhitespace) ≤ MAX_PREFIX_WHITESPACE_BYTES := by
  have hlen : utf8Len text = utf8Len (text.takeWhile isWhitespace) + utf8Len (trimStart text) := by
    rw [← utf8Len_append, takeWhile_append_trimStart]
  unfold prefixCandidate
  simp only [hlen, Nat.add_sub_cancel]
  split
  · rename_i h
    constructor
    · intro hc; exact ⟨(Option.some.inj hc).symm, h⟩
    · rintro ⟨rfl, -⟩; rfl
  · rename_i h
    constructor
    · intro hc; cases hc
    · rintro ⟨-, hle⟩; exact absurd hle h

theorem openedBy_eq_some {candidate opener close afterOpen : Str} :
    ∀ {pairs : List (Str × Str)}, openedBy candidate pairs = some (opener, close, afterOpen) →
      (opener, close) ∈ pairs ∧ candidate = opener ++ afterOpen
  | [], h => by cases h
  | (o, c) :: pairs, h => by
    unfold openedBy at h
    split at h
    · rename_i t ht
      cases h
      exact ⟨List.mem_cons_self, stripPrefix_eq_some.1 ht⟩
    · obtain ⟨hm, hc⟩ := openedBy_eq_some h
      exact ⟨List.mem_cons_of_mem _ hm, hc⟩

theorem openedBy_eq_none {candidate : Str} :
    ∀ {pairs : List (Str × Str)}, openedBy candidate pairs = none ↔
      ∀ pair ∈ pairs, ¬ pair.1 <+: candidate
  | [] => by simp [openedBy]
  | (o, c) :: pairs => by
    unfold openedBy
    split
    · rename_i t ht
      have hpre : o <+: candidate := ⟨t, (stripPrefix_eq_some.1 ht).symm⟩
      simp [hpre]
    · rename_i ht
      have hpre := stripPrefix_eq_none.1 ht
      simp [openedBy_eq_none, hpre]

/-- The reasoning the split returns, empty when there is none, and its answer. -/
theorem splitReasoning_eq (text : Str) :
    ((splitReasoning text).1.getD [], (splitReasoning text).2) =
      match opensReasoning text with
      | none => ([], text)
      | some (_, close, afterOpen) => spanOf close afterOpen := by
  unfold splitReasoning splitReasoningInner opensReasoning spanOf
  cases prefixCandidate text with
  | none => rfl
  | some candidate =>
    simp only [Option.bind_some]
    cases openedBy candidate MARKER_PAIRS with
    | none => rfl
    | some opened =>
      obtain ⟨opener, close, afterOpen⟩ := opened
      simp only [Bool.false_eq_true, if_false]
      cases find close afterOpen <;> simp [nonemptyReasoning_getD]

theorem opensReasoning_eq_some {text opener close afterOpen : Str}
    (h : opensReasoning text = some (opener, close, afterOpen)) :
    (opener, close) ∈ MARKER_PAIRS ∧
      text = text.takeWhile isWhitespace ++ opener ++ afterOpen ∧
      utf8Len (text.takeWhile isWhitespace) ≤ MAX_PREFIX_WHITESPACE_BYTES := by
  unfold opensReasoning at h
  obtain ⟨candidate, hc, ho⟩ := Option.bind_eq_some_iff.1 h
  obtain ⟨rfl, hle⟩ := prefixCandidate_eq_some.1 hc
  obtain ⟨hm, ht⟩ := openedBy_eq_some ho
  refine ⟨hm, ?_, hle⟩
  rw [List.append_assoc, ← ht, takeWhile_append_trimStart]

theorem MARKER_PAIRS_nonempty {pair : Str × Str} (h : pair ∈ MARKER_PAIRS) :
    pair.1 ≠ [] ∧ pair.2 ≠ [] := by
  have : ∀ pair ∈ MARKER_PAIRS, pair.1 ≠ [] ∧ pair.2 ≠ [] := by decide
  exact this pair h

theorem MARKER_PAIRS_prefix_free {p q : Str × Str} (hp : p ∈ MARKER_PAIRS)
    (hq : q ∈ MARKER_PAIRS) (h : p.1 <+: q.1) : p = q := by
  have : ∀ p ∈ MARKER_PAIRS, ∀ q ∈ MARKER_PAIRS, p.1 <+: q.1 → p = q := by decide
  exact this p hp q hq h

/-- An opener is not empty and does not start with white space. -/
theorem MARKER_PAIRS_head {pair : Str × Str} (h : pair ∈ MARKER_PAIRS) :
    ∃ c s, pair.1 = c :: s ∧ isWhitespace c = false := by
  have : ∀ pair ∈ MARKER_PAIRS, (pair.1.head?.map isWhitespace) = some false := by decide
  have hh := this pair h
  cases hp : pair.1 with
  | nil => rw [hp] at hh; cases hh
  | cons c s =>
    rw [hp] at hh
    exact ⟨c, s, rfl, Option.some.inj hh⟩

/-- White space before an opener is exactly the leading white space. -/
theorem takeWhile_before_opener {w opener close t : Str} (hm : (opener, close) ∈ MARKER_PAIRS)
    (hw : ∀ c ∈ w, isWhitespace c) :
    (w ++ opener ++ t).takeWhile isWhitespace = w ∧ trimStart (w ++ opener ++ t) = opener ++ t := by
  obtain ⟨c, s, ho, hc⟩ := MARKER_PAIRS_head hm
  simp only at ho
  subst ho
  rw [List.append_assoc]
  constructor
  · rw [List.takeWhile_append_of_pos hw]
    simp [hc]
  · rw [trimStart_of_all hw]
    simp [trimStart, hc]

theorem opensReasoning_iff {text opener close afterOpen : Str} :
    opensReasoning text = some (opener, close, afterOpen) ↔
      (opener, close) ∈ MARKER_PAIRS ∧ ∃ w, text = w ++ opener ++ afterOpen ∧
        (∀ c ∈ w, isWhitespace c) ∧ utf8Len w ≤ MAX_PREFIX_WHITESPACE_BYTES := by
  constructor
  · intro h
    obtain ⟨hm, ht, hle⟩ := opensReasoning_eq_some h
    exact ⟨hm, _, ht, fun c hc => List.mem_takeWhile_imp hc, hle⟩
  · rintro ⟨hm, w, rfl, hw, hle⟩
    obtain ⟨htake, htrim⟩ := takeWhile_before_opener (t := afterOpen) hm hw
    have hc : prefixCandidate (w ++ opener ++ afterOpen) = some (opener ++ afterOpen) :=
      prefixCandidate_eq_some.2 ⟨htrim.symm, by rw [htake]; exact hle⟩
    unfold opensReasoning
    rw [hc, Option.bind_some]
    cases ho : openedBy (opener ++ afterOpen) MARKER_PAIRS with
    | none => exact absurd (List.prefix_append _ _) (openedBy_eq_none.1 ho _ hm)
    | some r =>
      obtain ⟨o, c, t⟩ := r
      obtain ⟨hm', he⟩ := openedBy_eq_some ho
      have hsame : (opener, close) = (o, c) := by
        have h1 : opener <+: opener ++ afterOpen := List.prefix_append _ _
        have h2 : o <+: opener ++ afterOpen := he ▸ List.prefix_append _ _
        rcases Nat.le_total opener.length o.length with hl | hl
        · exact MARKER_PAIRS_prefix_free hm hm' (List.prefix_of_prefix_length_le h1 h2 hl)
        · exact (MARKER_PAIRS_prefix_free hm' hm (List.prefix_of_prefix_length_le h2 h1 hl)).symm
      obtain ⟨rfl, rfl⟩ := Prod.mk.inj hsame
      rw [List.append_cancel_left he]

/-- More text after an opener belongs to the span. -/
theorem opensReasoning_append {text opener close afterOpen : Str}
    (h : opensReasoning text = some (opener, close, afterOpen)) (q : Str) :
    opensReasoning (text ++ q) = some (opener, close, afterOpen ++ q) := by
  obtain ⟨hm, w, rfl, hw, hle⟩ := opensReasoning_iff.1 h
  exact opensReasoning_iff.2 ⟨hm, w, by simp only [List.append_assoc], hw, hle⟩

/-- Text before which no close marker starts belongs to the reasoning. -/
theorem spanOf_append {close s t : Str}
    (h : find close (s ++ t) = (find close t).map (· + s.length)) :
    spanOf close (s ++ t) = (s ++ (spanOf close t).1, (spanOf close t).2) := by
  unfold spanOf
  rw [h]
  cases find close t with
  | none => rfl
  | some i =>
    simp only [Option.map_some]
    rw [Nat.add_comm i, Nat.add_assoc, List.take_length_add_append, List.drop_length_add_append]

theorem spanOf_lossless (close afterOpen : Str) :
    (spanOf close afterOpen).1 ++ (spanOf close afterOpen).2 = afterOpen ∨
      (spanOf close afterOpen).1 ++ close ++ (spanOf close afterOpen).2 = afterOpen := by
  unfold spanOf
  split
  · rename_i i hi
    exact Or.inr (find_split hi).symm
  · exact Or.inl (List.append_nil _)

/-- Reasoning and answer are the reply itself, less one pair of markers and the white space
before the opener. -/
theorem splitReasoning_lossless (text : Str) :
    ∃ w opener close,
      (opener = [] ∨ (opener, close) ∈ MARKER_PAIRS) ∧
      (text = w ++ opener ++ ((splitReasoning text).1.getD [] ++ (splitReasoning text).2) ∨
        text = w ++ opener ++
          ((splitReasoning text).1.getD [] ++ close ++ (splitReasoning text).2)) := by
  have heq := splitReasoning_eq text
  cases ho : opensReasoning text with
  | none =>
    rw [ho] at heq
    obtain ⟨h1, h2⟩ := Prod.mk.inj heq
    exact ⟨[], [], [], Or.inl rfl, Or.inl (by rw [h1, h2]; rfl)⟩
  | some opened =>
    obtain ⟨opener, close, afterOpen⟩ := opened
    rw [ho] at heq
    obtain ⟨hm, ht, -⟩ := opensReasoning_eq_some ho
    refine ⟨text.takeWhile isWhitespace, opener, close, Or.inr hm, ?_⟩
    have h1 := congrArg Prod.fst heq
    have h2 := congrArg Prod.snd heq
    simp only at h1 h2
    rw [h1, h2]
    rcases spanOf_lossless close afterOpen with h | h
    · exact Or.inl (by rw [h]; exact ht)
    · exact Or.inr (by rw [h]; exact ht)

/-! ## The reasoning budget -/

/-- The longest suffix of `text` of at most `cap` bytes. -/
def boundedTail : Str → Nat → Str
  | [], _ => []
  | c :: s, cap => if utf8Len (c :: s) ≤ cap then c :: s else boundedTail s cap

/-- `TAIL_CAP`. -/
def TAIL_CAP : Nat := 64

/-- `ReasoningBudget`. -/
structure ReasoningBudget where
  budget : Nat
  buffer : Str
  openClose : Option (Str × Str)
  closed : Bool
  tokensSinceOpen : Nat
  searchingPrefix : Bool
  deriving DecidableEq, Repr

namespace ReasoningBudget

/-- `ReasoningBudget::new`. -/
def new (budget : Nat) : ReasoningBudget := ⟨budget, [], none, false, 0, true⟩

/-- `seed_open`: the span was opened by the prompt. -/
def seedOpen (b : ReasoningBudget) (pair : Str × Str) : ReasoningBudget :=
  if b.closed = false ∧ b.openClose = none then
    { b with openClose := some pair, searchingPrefix := false, buffer := [] }
  else b

/-- `observe`: feed the decoded text of one token; a returned marker is to be forced. -/
def observe (b : ReasoningBudget) (piece : Str) : ReasoningBudget × Option Str :=
  if b.closed then (b, none)
  else
    let buffer := b.buffer ++ piece
    if b.searchingPrefix then
      match prefixCandidate buffer with
      | none => ({ b with closed := true, buffer := [] }, none)
      | some candidate =>
        match openedBy candidate MARKER_PAIRS with
        | some (opener, close, remainder) =>
          let tail := boundedTail remainder TAIL_CAP
          ({ b with
              openClose := some (opener, close)
              searchingPrefix := false
              buffer := tail
              closed := (find close tail).isSome }, none)
        | none =>
          if candidate = [] ∨ ∃ pair ∈ MARKER_PAIRS, candidate <+: pair.1 then
            ({ b with buffer := buffer }, none)
          else ({ b with closed := true, buffer := [] }, none)
    else
      let buffer := boundedTail buffer TAIL_CAP
      match b.openClose with
      | none => ({ b with buffer := buffer }, none)
      | some (_, close) =>
        if (find close buffer).isSome then ({ b with buffer := buffer, closed := true }, none)
        else
          let tokensSinceOpen := b.tokensSinceOpen + 1
          if tokensSinceOpen ≥ b.budget then
            ({ b with
                buffer := buffer
                tokensSinceOpen := tokensSinceOpen
                closed := true }, some close)
          else ({ b with buffer := buffer, tokensSinceOpen := tokensSinceOpen }, none)

theorem observe_of_closed {b : ReasoningBudget} (h : b.closed = true) (piece : Str) :
    b.observe piece = (b, none) := by
  simp [observe, h]

/-- The observation that returns a marker closes the budget. -/
theorem observe_closes {b : ReasoningBudget} {piece close : Str}
    (h : (b.observe piece).2 = some close) : (b.observe piece).1.closed = true := by
  generalize hr : b.observe piece = r at h ⊢
  unfold observe at hr
  dsimp only at hr
  split at hr
  · subst hr; cases h
  · split at hr
    · split at hr
      · subst hr; cases h
      · split at hr
        · subst hr; cases h
        · split at hr <;> subst hr <;> cases h
    · split at hr
      · subst hr; cases h
      · split at hr
        · subst hr; cases h
        · split at hr
          · subst hr; rfl
          · subst hr; cases h

/-- Feed the pieces of a reply one by one and collect what is forced. -/
def observeAll (b : ReasoningBudget) : List Str → List Str
  | [] => []
  | piece :: pieces =>
    (b.observe piece).2.toList ++ observeAll (b.observe piece).1 pieces

theorem observeAll_of_closed {b : ReasoningBudget} (h : b.closed = true) :
    ∀ pieces : List Str, b.observeAll pieces = []
  | [] => rfl
  | piece :: pieces => by
    unfold observeAll
    rw [observe_of_closed h]
    exact observeAll_of_closed h pieces

/-- A budget fires at most once per generation. -/
theorem observeAll_length_le (b : ReasoningBudget) (pieces : List Str) :
    (b.observeAll pieces).length ≤ 1 := by
  induction pieces generalizing b with
  | nil => simp [observeAll]
  | cons piece pieces ih =>
    unfold observeAll
    cases ho : (b.observe piece).2 with
    | none => simpa using ih _
    | some close => simp [observeAll_of_closed (observe_closes ho)]

end ReasoningBudget

end Emelex
