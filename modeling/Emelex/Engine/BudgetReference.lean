import Emelex.Engine.Reasoning

/-!
# The reasoning budget against its reference (`engine/reasoning.rs`)

`ReasoningBudget` looks for the close marker in the last 64 bytes of the reply.  The reference
looks in the whole of it.

* `firedAt` — what `observe` returns at a piece of a reply.
* `Searching`, `InSpan` — the states of a budget before and after the opener, with the text that
  the reference would hold.
* `observe_searching`, `observe_inSpan` — one observation in each state.

Principal results: `isSome_find_boundedTail` (pieces of at most 55 bytes cannot carry a close
marker past the tail), `firedAt_inSpan`, `budget_agrees_with_reference`.
-/

set_option autoImplicit false

namespace Emelex

open Text

/-! ## The bounded tail -/

theorem boundedTail_of_le {s : Str} {cap : Nat} (h : utf8Len s ≤ cap) : boundedTail s cap = s := by
  cases s with
  | nil => rfl
  | cons c s => exact if_pos h

theorem boundedTail_suffix (cap : Nat) : ∀ s : Str, boundedTail s cap <:+ s
  | [] => List.suffix_refl _
  | c :: s => by
    unfold boundedTail
    split
    · exact List.suffix_refl _
    · exact (boundedTail_suffix cap s).trans (List.suffix_cons c s)

/-- The tail holds every suffix that fits. -/
theorem suffix_boundedTail {cap : Nat} {t : Str} (ht : utf8Len t ≤ cap) :
    ∀ {s : Str}, t <:+ s → t <:+ boundedTail s cap
  | [], h => h
  | c :: s, h => by
    unfold boundedTail
    split
    · exact h
    · rename_i hcap
      rcases List.suffix_cons_iff.1 h with rfl | h
      · exact absurd ht hcap
      · exact suffix_boundedTail ht h

/-- Truncating piece by piece keeps the tail of the whole. -/
theorem boundedTail_append (cap : Nat) (p : Str) :
    ∀ s : Str, boundedTail (boundedTail s cap ++ p) cap = boundedTail (s ++ p) cap
  | [] => rfl
  | c :: s => by
    by_cases h : utf8Len (c :: s) ≤ cap
    · rw [boundedTail_of_le h]
    · have hlong : ¬ utf8Len (c :: (s ++ p)) ≤ cap := by
        rw [← List.cons_append, utf8Len_append]
        omega
      rw [boundedTail, if_neg h, boundedTail_append cap p s, List.cons_append, boundedTail,
        if_neg hlong]

/-- The most bytes of a piece for which the tail misses no close marker. -/
def PIECE_CAP : Nat := 55

theorem MARKER_PAIRS_close_len {pair : Str × Str} (h : pair ∈ MARKER_PAIRS) :
    utf8Len pair.2 ≤ TAIL_CAP - (PIECE_CAP - 1) := by
  have : ∀ pair ∈ MARKER_PAIRS, utf8Len pair.2 ≤ TAIL_CAP - (PIECE_CAP - 1) := by decide
  exact this pair h

theorem utf8Len_pos {s : Str} (h : s ≠ []) : 0 < utf8Len s :=
  Nat.pos_of_ne_zero fun h0 => h (utf8Len_eq_zero.1 h0)

/-- A close marker that a piece completes is in the tail. -/
theorem isSome_find_boundedTail {opener close s piece : Str}
    (hm : (opener, close) ∈ MARKER_PAIRS) (hs : find close s = none)
    (hp : utf8Len piece ≤ PIECE_CAP) :
    (find close (boundedTail (s ++ piece) TAIL_CAP)).isSome = (find close (s ++ piece)).isSome := by
  rw [Bool.eq_iff_iff, find_isSome, find_isSome]
  constructor
  · intro h
    exact h.trans (boundedTail_suffix _ _).isInfix
  · rintro ⟨u, v, huv⟩
    -- the marker ends inside the piece, so that what follows it is shorter than the piece
    have hshort : v.length < piece.length := by
      by_contra hlong
      have hpre : u ++ close <+: s := by
        have h1 : u ++ close <+: s ++ piece := ⟨v, huv⟩
        refine List.prefix_of_prefix_length_le h1 (List.prefix_append s piece) ?_
        have := congrArg List.length huv
        simp only [List.length_append] at this ⊢
        omega
      have hin : close <:+: s := (List.suffix_append u close).isInfix.trans hpre.isInfix
      rw [← find_isSome, hs] at hin
      cases hin
    have hsuffix : v <:+ piece := by
      refine List.suffix_of_suffix_length_le ?_ (List.suffix_append s piece) hshort.le
      exact ⟨u ++ close, huv⟩
    obtain ⟨r, hr⟩ := hsuffix
    have hr0 : r ≠ [] := by
      rintro rfl
      rw [List.nil_append] at hr
      rw [hr] at hshort
      exact lt_irrefl _ hshort
    have hbytes : utf8Len (close ++ v) ≤ TAIL_CAP := by
      have h1 := utf8Len_pos hr0
      have h2 := congrArg utf8Len hr
      have h3 := MARKER_PAIRS_close_len hm
      rw [utf8Len_append] at h2 ⊢
      simp only [PIECE_CAP, TAIL_CAP] at *
      omega
    have htail := suffix_boundedTail hbytes (s := s ++ piece) ⟨u, by rw [← List.append_assoc, huv]⟩
    exact (List.prefix_append close v).isInfix.trans htail.isInfix

/-! ## Where a span opens -/

/-- Text that a further piece can still make open a span. -/
def MayOpen (text : Str) : Prop :=
  ∃ candidate, prefixCandidate text = some candidate ∧
    (candidate = [] ∨ ∃ pair ∈ MARKER_PAIRS, candidate <+: pair.1)

/-- Text that starts an opener after white space may open a span. -/
theorem mayOpen_of_prefix {text w opener close : Str} (hm : (opener, close) ∈ MARKER_PAIRS)
    (hw : ∀ c ∈ w, isWhitespace c) (hle : utf8Len w ≤ MAX_PREFIX_WHITESPACE_BYTES)
    (h : text <+: w ++ opener) : MayOpen text := by
  obtain ⟨t, ht⟩ := h
  rcases List.append_eq_append_iff.1 ht with ⟨a, hwa, -⟩ | ⟨o, rfl, ho⟩
  · -- white space alone
    have hall : ∀ c ∈ text, isWhitespace c := fun c hc => hw c (by rw [hwa]; simp [hc])
    have htake : text.takeWhile isWhitespace = text := List.takeWhile_eq_self_iff.2 hall
    refine ⟨[], prefixCandidate_eq_some.2 ⟨(trimStart_eq_nil.2 hall).symm, ?_⟩, .inl rfl⟩
    rw [htake]
    rw [hwa, utf8Len_append] at hle
    omega
  · cases o with
    | nil =>
      rw [List.append_nil]
      have htake : w.takeWhile isWhitespace = w := List.takeWhile_eq_self_iff.2 hw
      exact ⟨[], prefixCandidate_eq_some.2 ⟨(trimStart_eq_nil.2 hw).symm, by rwa [htake]⟩, .inl rfl⟩
    | cons x o =>
      obtain ⟨y, s, hopener, hy⟩ := MARKER_PAIRS_head hm
      have hx : isWhitespace x = false := by
        rw [show opener = y :: s from hopener] at ho
        rw [← (List.cons.inj ho).1]
        exact hy
      have htake : (w ++ x :: o).takeWhile isWhitespace = w := by
        rw [List.takeWhile_append_of_pos hw]
        simp [hx]
      have htrim : trimStart (w ++ x :: o) = x :: o := by
        rw [trimStart_of_all hw]
        simp [trimStart, hx]
      refine ⟨x :: o, prefixCandidate_eq_some.2 ⟨htrim.symm, by rwa [htake]⟩, .inr ⟨_, hm, ?_⟩⟩
      exact ⟨t, ho.symm⟩

/-- Text that neither opens a span nor may open one is never followed by a span. -/
theorem opensReasoning_never {text : Str} (hnone : opensReasoning text = none)
    (hmay : ¬ MayOpen text) (q : Str) : opensReasoning (text ++ q) = none := by
  by_contra hsome
  obtain ⟨⟨opener, close, afterOpen⟩, h⟩ := Option.ne_none_iff_exists'.1 hsome
  obtain ⟨hm, w, ht, hw, hle⟩ := opensReasoning_iff.1 h
  rcases List.append_eq_append_iff.1 ht with ⟨a, hwa, -⟩ | ⟨r, hr, -⟩
  · exact hmay ( mayOpen_of_prefix hm hw hle ⟨a, hwa.symm⟩)
  · have hopens := opensReasoning_iff.2 ⟨hm, w, hr, hw, hle⟩
    rw [hnone] at hopens
    cases hopens

/-- What follows an opener that a piece completes lies in the piece. -/
theorem afterOpen_suffix {text piece opener close afterOpen : Str}
    (hnone : opensReasoning text = none)
    (h : opensReasoning (text ++ piece) = some (opener, close, afterOpen)) :
    afterOpen <:+ piece := by
  obtain ⟨hm, w, ht, hw, hle⟩ := opensReasoning_iff.1 h
  rcases List.append_eq_append_iff.1 ht with ⟨a, -, hpiece⟩ | ⟨r, hr, -⟩
  · exact ⟨a, hpiece.symm⟩
  · have hopens := opensReasoning_iff.2 ⟨hm, w, hr, hw, hle⟩
    rw [hnone] at hopens
    cases hopens

namespace ReasoningBudget

/-! ## The states of a budget -/

/-- The budget has seen `text` and is still looking for an opener. -/
structure Searching (b : ReasoningBudget) (text : Str) : Prop where
  closed : b.closed = false
  searchingPrefix : b.searchingPrefix = true
  buffer : b.buffer = text
  tokens : b.tokensSinceOpen = 0
  unopened : opensReasoning text = none

/-- The budget is inside a span of which it has seen `s`, without the close marker, and has
not run out. -/
structure InSpan (b : ReasoningBudget) (close s : Str) : Prop where
  closed : b.closed = false
  searchingPrefix : b.searchingPrefix = false
  openClose : ∃ opener, (opener, close) ∈ MARKER_PAIRS ∧ b.openClose = some (opener, close)
  buffer : b.buffer = boundedTail s TAIL_CAP
  inside : find close s = none
  tokens : b.tokensSinceOpen < max b.budget 1

theorem searching_new (budget : Nat) : (new budget).Searching [] :=
  ⟨rfl, rfl, rfl, rfl, by decide⟩

theorem inSpan_seedOpen {pair : Str × Str} (hm : pair ∈ MARKER_PAIRS) (budget : Nat) :
    ((new budget).seedOpen pair).InSpan pair.2 [] := by
  refine ⟨rfl, rfl, ⟨pair.1, hm, rfl⟩, rfl, ?_, ?_⟩
  · exact find_of_length_lt (List.length_pos_iff.2 (MARKER_PAIRS_nonempty hm).2)
  · show 0 < max budget 1
    omega

/-- One observation inside a span: the close marker ends it, the last token of the budget forces
it, and any other piece leaves it open. -/
theorem observe_inSpan {b : ReasoningBudget} {close s : Str} (h : b.InSpan close s) {piece : Str}
    (hp : utf8Len piece ≤ PIECE_CAP) :
    ((find close (s ++ piece)).isSome → (b.observe piece).1.closed = true ∧
      (b.observe piece).2 = none) ∧
    (find close (s ++ piece) = none →
      if b.tokensSinceOpen + 1 = max b.budget 1 then
        (b.observe piece).1.closed = true ∧ (b.observe piece).2 = some close
      else
        (b.observe piece).1.InSpan close (s ++ piece) ∧ (b.observe piece).2 = none ∧
          (b.observe piece).1.tokensSinceOpen = b.tokensSinceOpen + 1 ∧
          (b.observe piece).1.budget = b.budget) := by
  obtain ⟨opener, hm, hoc⟩ := h.openClose
  have htokens := h.tokens
  have htail := isSome_find_boundedTail hm h.inside hp
  have hobs : b.observe piece =
      if (find close (boundedTail (s ++ piece) TAIL_CAP)).isSome then
        ({ b with buffer := boundedTail (s ++ piece) TAIL_CAP, closed := true }, none)
      else if b.tokensSinceOpen + 1 ≥ b.budget then
        ({ b with
            buffer := boundedTail (s ++ piece) TAIL_CAP
            tokensSinceOpen := b.tokensSinceOpen + 1
            closed := true }, some close)
      else
        ({ b with
            buffer := boundedTail (s ++ piece) TAIL_CAP
            tokensSinceOpen := b.tokensSinceOpen + 1 }, none) := by
    unfold observe
    simp only [h.closed, h.searchingPrefix, hoc, h.buffer, boundedTail_append]
    rfl
  rw [hobs, htail]
  constructor
  · intro hsome
    rw [if_pos hsome]
    exact ⟨rfl, rfl⟩
  · intro hnone
    have hfind : ¬ (find close (s ++ piece)).isSome = true := by simp [hnone]
    rw [if_neg hfind]
    by_cases hlast : b.tokensSinceOpen + 1 ≥ b.budget
    · rw [if_pos hlast, if_pos (by omega)]
      exact ⟨rfl, rfl⟩
    · rw [if_neg hlast, if_neg (by omega)]
      exact ⟨⟨h.closed, h.searchingPrefix, ⟨opener, hm, hoc⟩, rfl, hnone, by
        show b.tokensSinceOpen + 1 < max b.budget 1
        omega⟩, rfl, rfl, rfl⟩

/-- One observation before the opener: nothing is forced; the piece completes an opener, may
still start one, or rules every opener out. -/
theorem observe_searching {b : ReasoningBudget} {text : Str} (h : b.Searching text) {piece : Str}
    (hp : utf8Len piece ≤ PIECE_CAP) :
    (b.observe piece).2 = none ∧
      ((∃ opener close s, opensReasoning (text ++ piece) = some (opener, close, s) ∧
          if (find close s).isSome then (b.observe piece).1.closed = true
          else (b.observe piece).1.InSpan close s ∧ (b.observe piece).1.tokensSinceOpen = 0 ∧
            (b.observe piece).1.budget = b.budget) ∨
        (b.observe piece).1.Searching (text ++ piece) ∧
            (b.observe piece).1.budget = b.budget ∨
        (∀ q, opensReasoning (text ++ piece ++ q) = none) ∧
          (b.observe piece).1.closed = true) := by
  have hopens : opensReasoning (text ++ piece) =
      (prefixCandidate (text ++ piece)).bind fun candidate => openedBy candidate MARKER_PAIRS := rfl
  unfold observe
  simp only [h.closed, h.searchingPrefix, h.buffer, if_true, Bool.false_eq_true, if_false]
  cases hc : prefixCandidate (text ++ piece) with
  | none =>
    rw [hc] at hopens
    refine ⟨rfl, .inr (.inr ⟨?_, rfl⟩)⟩
    refine opensReasoning_never hopens ?_
    rintro ⟨candidate, hcandidate, -⟩
    rw [hc] at hcandidate
    cases hcandidate
  | some candidate =>
    rw [hc, Option.bind_some] at hopens
    dsimp only
    cases ho : openedBy candidate MARKER_PAIRS with
    | some found =>
      obtain ⟨opener, close, s⟩ := found
      rw [ho] at hopens
      have hshort : utf8Len s ≤ TAIL_CAP := by
        obtain ⟨r, hr⟩ := afterOpen_suffix h.unopened hopens
        have := congrArg utf8Len hr
        rw [utf8Len_append] at this
        simp only [PIECE_CAP, TAIL_CAP] at *
        omega
      refine ⟨rfl, .inl ⟨opener, close, s, hopens, ?_⟩⟩
      dsimp only
      rw [boundedTail_of_le hshort]
      split
      · rename_i hsome
        exact hsome
      · rename_i hnone
        have hnone : find close s = none := by simpa using hnone
        refine ⟨⟨?_, rfl, ⟨opener, (opensReasoning_eq_some hopens).1, rfl⟩, ?_, hnone, ?_⟩,
          h.tokens, rfl⟩
        · show (find close s).isSome = false
          rw [hnone]
          rfl
        · exact (boundedTail_of_le hshort).symm
        · show b.tokensSinceOpen < max b.budget 1
          rw [h.tokens]
          omega
    | none =>
      rw [ho] at hopens
      dsimp only
      by_cases hmay : candidate = [] ∨ ∃ pair ∈ MARKER_PAIRS, candidate <+: pair.1
      · rw [if_pos hmay]
        exact ⟨rfl, .inr (.inl ⟨⟨rfl, rfl, rfl, h.tokens, hopens⟩, rfl⟩)⟩
      · rw [if_neg hmay]
        refine ⟨rfl, .inr (.inr ⟨opensReasoning_never hopens ?_, rfl⟩)⟩
        rintro ⟨candidate', hcandidate, hmay'⟩
        rw [hc] at hcandidate
        exact hmay (Option.some.inj hcandidate ▸ hmay')

/-! ## A reply -/

/-- What `observe` returns at piece `i` of a reply. -/
def firedAt (b : ReasoningBudget) : List Str → Nat → Option Str
  | [], _ => none
  | piece :: _, 0 => (b.observe piece).2
  | piece :: pieces, i + 1 => (b.observe piece).1.firedAt pieces i

/-- The text up to piece `i`. -/
def textThrough (pieces : List Str) (i : Nat) : Str := (pieces.take (i + 1)).flatten

@[simp] theorem textThrough_cons_succ (piece : Str) (pieces : List Str) (i : Nat) :
    textThrough (piece :: pieces) (i + 1) = piece ++ textThrough pieces i := rfl

@[simp] theorem textThrough_cons_zero (piece : Str) (pieces : List Str) :
    textThrough (piece :: pieces) 0 = piece := by simp [textThrough]

theorem firedAt_of_closed {b : ReasoningBudget} (h : b.closed = true) :
    ∀ (pieces : List Str) (i : Nat), b.firedAt pieces i = none
  | [], _ => rfl
  | piece :: _, 0 => by
    unfold firedAt
    rw [observe_of_closed h]
  | piece :: pieces, i + 1 => by
    unfold firedAt
    rw [observe_of_closed h]
    exact firedAt_of_closed h pieces i

/-- Inside a span the close is forced at the piece that uses up the budget, unless the text so
far contains the close marker. -/
theorem firedAt_inSpan {close : Str} {pieces : List Str} {b : ReasoningBudget} {s : Str}
    (h : b.InSpan close s) (hp : ∀ p ∈ pieces, utf8Len p ≤ PIECE_CAP) (i : Nat) (c : Str) :
    b.firedAt pieces i = some c ↔ i < pieces.length ∧ c = close ∧
      b.tokensSinceOpen + (i + 1) = max b.budget 1 ∧
        find close (s ++ textThrough pieces i) = none := by
  induction pieces generalizing b s i with
  | nil => simp [firedAt]
  | cons piece pieces ih =>
    obtain ⟨hends, hgoes⟩ := observe_inSpan h (hp piece List.mem_cons_self)
    have hrest := fun p hm => hp p (List.mem_cons_of_mem _ hm)
    cases hfind : find close (s ++ piece) with
    | some at_ =>
      obtain ⟨hclosed, hnone⟩ := hends (by rw [hfind]; rfl)
      have hlater : ∀ t, find close (s ++ (piece ++ t)) ≠ none := by
        intro t
        rw [← List.append_assoc, find_append_left hfind]
        exact Option.some_ne_none _
      cases i with
      | zero => simp [firedAt, hnone, hfind]
      | succ i => simp [firedAt, firedAt_of_closed hclosed, hlater]
    | none =>
      have hgoes := hgoes hfind
      split at hgoes
      · rename_i hlast
        obtain ⟨hclosed, hsome⟩ := hgoes
        cases i with
        | zero => simp [firedAt, hsome, hfind, hlast, eq_comm]
        | succ i =>
          have hpast : ¬ b.tokensSinceOpen + (i + 1 + 1) = max b.budget 1 := by omega
          simp [firedAt, firedAt_of_closed hclosed, hpast]
      · rename_i hlast
        obtain ⟨hspan, hnone, htokens, hbudget⟩ := hgoes
        cases i with
        | zero => simp [firedAt, hnone, hlast]
        | succ i =>
          unfold firedAt
          rw [ih hspan hrest, htokens, hbudget, textThrough_cons_succ,
            List.append_assoc, List.length_cons]
          constructor
          · rintro ⟨hi, hc, hn, hf⟩
            exact ⟨by omega, hc, by omega, hf⟩
          · rintro ⟨hi, hc, hn, hf⟩
            exact ⟨by omega, hc, by omega, hf⟩

/-- The reference: at piece `i` the reply has been in a span, opened by piece `j`, for as many
pieces as the budget allows, and its text so far does not contain the close marker `c`. -/
def Due (budget : Nat) (text : Str) (pieces : List Str) (i : Nat) (c : Str) : Prop :=
  ∃ j opener s, j + max budget 1 = i ∧
    opensReasoning (text ++ (pieces.take j).flatten) = none ∧
    (opensReasoning (text ++ textThrough pieces j)).isSome ∧
    opensReasoning (text ++ textThrough pieces i) = some (opener, c, s) ∧ find c s = none

theorem due_zero (budget : Nat) (text : Str) (pieces : List Str) (c : Str) :
    ¬ Due budget text pieces 0 c := by
  rintro ⟨j, opener, s, hj, -⟩
  omega

/-- The reference, one piece on, when that piece does not complete an opener. -/
theorem due_succ {budget : Nat} {text piece : Str} {pieces : List Str} {i : Nat} {c : Str}
    (hnone : opensReasoning (text ++ piece) = none) :
    Due budget text (piece :: pieces) (i + 1) c ↔ Due budget (text ++ piece) pieces i c := by
  constructor
  · rintro ⟨j, opener, s, hj, hbefore, hopens, hopen, hfind⟩
    cases j with
    | zero =>
      rw [textThrough_cons_zero, hnone] at hopens
      cases hopens
    | succ j =>
      refine ⟨j, opener, s, by omega, ?_, ?_, ?_, hfind⟩
      · simpa [List.append_assoc] using hbefore
      · simpa [List.append_assoc] using hopens
      · simpa [List.append_assoc] using hopen
  · rintro ⟨j, opener, s, hj, hbefore, hopens, hopen, hfind⟩
    refine ⟨j + 1, opener, s, by omega, ?_, ?_, ?_, hfind⟩
    · simpa [List.append_assoc] using hbefore
    · simpa [List.append_assoc] using hopens
    · simpa [List.append_assoc] using hopen

/-- The reference, one piece on, when that piece completes an opener. -/
theorem due_opened {budget : Nat} {text piece : Str} {pieces : List Str} {i : Nat}
    {opener close s c : Str} (hbefore : opensReasoning text = none)
    (hopen : opensReasoning (text ++ piece) = some (opener, close, s)) :
    Due budget text (piece :: pieces) (i + 1) c ↔
      c = close ∧ i + 1 = max budget 1 ∧ find close (s ++ textThrough pieces i) = none := by
  have hthrough : opensReasoning (text ++ textThrough (piece :: pieces) (i + 1)) =
      some (opener, close, s ++ textThrough pieces i) := by
    rw [textThrough_cons_succ, ← List.append_assoc]
    exact opensReasoning_append hopen _
  constructor
  · rintro ⟨j, opener', s', hj, hnone, -, hlast, hfind⟩
    cases j with
    | zero =>
      rw [hthrough] at hlast
      cases hlast
      exact ⟨rfl, by omega, hfind⟩
    | succ j =>
      have hsome := opensReasoning_append hopen (pieces.take j).flatten
      rw [List.append_assoc, ← List.flatten_cons, ← List.take_succ_cons, hnone] at hsome
      cases hsome
  · rintro ⟨rfl, hi, hfind⟩
    refine ⟨0, opener, _, by omega, ?_, ?_, hthrough, hfind⟩
    · simpa using hbefore
    · rw [textThrough_cons_zero, hopen]
      rfl

/-- Before the opener, the close is forced exactly when the reference says so. -/
theorem firedAt_searching {pieces : List Str} {b : ReasoningBudget} {text : Str}
    (h : b.Searching text) (hp : ∀ p ∈ pieces, utf8Len p ≤ PIECE_CAP) (i : Nat) (c : Str) :
    b.firedAt pieces i = some c ↔ i < pieces.length ∧ Due b.budget text pieces i c := by
  induction pieces generalizing b text i with
  | nil => simp [firedAt]
  | cons piece pieces ih =>
    obtain ⟨hnone, hcases⟩ := observe_searching h (hp piece List.mem_cons_self)
    have hrest := fun p hm => hp p (List.mem_cons_of_mem _ hm)
    cases i with
    | zero => simp [firedAt, hnone, due_zero]
    | succ i =>
      unfold firedAt
      rw [List.length_cons, Nat.add_lt_add_iff_right]
      rcases hcases with ⟨opener, close, s, hopen, hnext⟩ | ⟨hsearching, hbudget⟩ | ⟨hnever, hclosed⟩
      · rw [due_opened h.unopened hopen]
        cases hfind : find close s with
        | some at_ =>
          rw [hfind] at hnext
          have hclosed : (b.observe piece).1.closed = true := by simpa using hnext
          simp [firedAt_of_closed hclosed, find_append_left hfind]
        | none =>
          rw [hfind] at hnext
          obtain ⟨hspan, htokens, hbudget⟩ := hnext
          rw [firedAt_inSpan hspan hrest, htokens, hbudget, Nat.zero_add]
      · rw [due_succ hsearching.unopened, ih hsearching hrest, hbudget]
      · rw [firedAt_of_closed hclosed]
        refine ⟨fun h => (by cases h), ?_⟩
        rintro ⟨-, j, opener, s, -, -, -, hopen, -⟩
        rw [textThrough_cons_succ, ← List.append_assoc, hnever] at hopen
        cases hopen

/-- Over every reply in pieces of at most 55 bytes the budget forces the close exactly where the
reference does: after an opener that the reply starts with, at the last piece of the budget and
unless the reply closes the span itself; with a span opened by the prompt, at the last piece of
the budget from the start; and once at most. -/
theorem budget_agrees_with_reference (budget : Nat) (pieces : List Str)
    (hp : ∀ p ∈ pieces, utf8Len p ≤ 55) :
    (∀ i c, (new budget).firedAt pieces i = some c ↔
      i < pieces.length ∧ Due budget [] pieces i c) ∧
    (∀ pair ∈ MARKER_PAIRS, ∀ i c, ((new budget).seedOpen pair).firedAt pieces i = some c ↔
      i < pieces.length ∧ c = pair.2 ∧ i + 1 = max budget 1 ∧
        find pair.2 (textThrough pieces i) = none) ∧
    ((new budget).observeAll pieces).length ≤ 1 ∧
    ∀ pair, (((new budget).seedOpen pair).observeAll pieces).length ≤ 1 := by
  refine ⟨firedAt_searching (searching_new budget) hp, ?_, observeAll_length_le _ _,
    fun pair => observeAll_length_le _ _⟩
  intro pair hm i c
  rw [firedAt_inSpan (inSpan_seedOpen hm budget) hp, List.nil_append]
  show _ ∧ _ ∧ 0 + (i + 1) = max budget 1 ∧ _ ↔ _
  rw [Nat.zero_add]

/-- A span of which the second token is the last of the budget. -/
theorem budget_agrees_second :
    (new 2).firedAt ["<think>".toList, "a".toList, "b".toList] 2 = some "</think>".toList ∧
      Due 2 [] ["<think>".toList, "a".toList, "b".toList] 2 "</think>".toList := by
  have hfired : (new 2).firedAt ["<think>".toList, "a".toList, "b".toList] 2 =
      some "</think>".toList := by decide
  exact ⟨hfired, (((budget_agrees_with_reference 2 _ (by decide)).1 2 _).1 hfired).2⟩

end ReasoningBudget

end Emelex
