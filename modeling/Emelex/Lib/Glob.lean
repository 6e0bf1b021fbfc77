import Mathlib.Data.List.Forall2
import Mathlib.Data.List.Basic
import Mathlib.Tactic.Common

/-!
# Wildcard patterns

A pattern is a list of tokens, over any alphabet.

* `Stands` — the strings that a token stands for.
* `Matches` — a string that splits into such strings, one for each token.
* `Row` — a row of a table: the answers for the prefixes of a string, from some prefix on.

Principal results: `matches_append`, `matches_cons`, `nextCells_row`.
-/

set_option autoImplicit false

namespace Emelex

namespace Glob

variable {α : Type}

inductive Token (α : Type) where
  | star
  | any
  | literal (a : α)
deriving DecidableEq

/-- The strings that a token stands for. -/
def Stands : Token α → List α → Prop
  | .star, _ => True
  | .any, part => part.length = 1
  | .literal a, part => part = [a]

/-- The string splits into parts that the tokens stand for. -/
def Matches (tokens : List (Token α)) (value : List α) : Prop :=
  ∃ parts, List.Forall₂ Stands tokens parts ∧ parts.flatten = value

theorem matches_nil {value : List α} : Matches [] value ↔ value = [] := by
  constructor
  · rintro ⟨parts, hparts, rfl⟩
    rw [List.forall₂_nil_left_iff.1 hparts]
    rfl
  · rintro rfl
    exact ⟨[], .nil, rfl⟩

theorem matches_cons {token : Token α} {tokens : List (Token α)} {value : List α} :
    Matches (token :: tokens) value ↔
      ∃ part rest, part ++ rest = value ∧ Stands token part ∧ Matches tokens rest := by
  constructor
  · rintro ⟨parts, hparts, rfl⟩
    obtain ⟨part, rest, hpart, hrest, rfl⟩ := List.forall₂_cons_left_iff.1 hparts
    exact ⟨part, rest.flatten, rfl, hpart, rest, hrest, rfl⟩
  · rintro ⟨part, _, rfl, hpart, rest, hrest, rfl⟩
    exact ⟨part :: rest, .cons hpart hrest, rfl⟩

theorem matches_append {left right : List (Token α)} {value : List α} :
    Matches (left ++ right) value ↔
      ∃ before after, before ++ after = value ∧ Matches left before ∧ Matches right after := by
  induction left generalizing value with
  | nil =>
    simp only [List.nil_append, matches_nil]
    constructor
    · intro h
      exact ⟨[], value, rfl, rfl, h⟩
    · rintro ⟨_, after, rfl, rfl, h⟩
      exact h
  | cons token left ih =>
    simp only [List.cons_append, matches_cons, ih]
    constructor
    · rintro ⟨part, _, rfl, hpart, before, after, rfl, hbefore, hafter⟩
      exact ⟨part ++ before, after, List.append_assoc _ _ _, ⟨part, before, rfl, hpart, hbefore⟩,
        hafter⟩
    · rintro ⟨_, after, rfl, ⟨part, before, rfl, hpart, hbefore⟩, hafter⟩
      exact ⟨part, before ++ after, (List.append_assoc _ _ _).symm, hpart, before, after, rfl,
        hbefore, hafter⟩

theorem matches_singleton {token : Token α} {value : List α} :
    Matches [token] value ↔ Stands token value := by
  rw [matches_cons]
  constructor
  · rintro ⟨part, rest, rfl, hpart, hrest⟩
    rw [matches_nil.1 hrest, List.append_nil]
    exact hpart
  · intro h
    exact ⟨value, [], List.append_nil _, h, matches_nil.2 rfl⟩

theorem matches_literals_append {part : List α} {tokens : List (Token α)} {value : List α} :
    Matches (part.map Token.literal ++ tokens) value ↔
      ∃ rest, part ++ rest = value ∧ Matches tokens rest := by
  induction part generalizing value with
  | nil =>
    constructor
    · exact fun h => ⟨value, rfl, h⟩
    · rintro ⟨_, rfl, h⟩
      exact h
  | cons a part ih =>
    rw [List.map_cons, List.cons_append, matches_cons]
    constructor
    · rintro ⟨_, _, rfl, rfl, h⟩
      obtain ⟨rest, rfl, hrest⟩ := ih.1 h
      exact ⟨rest, rfl, hrest⟩
    · rintro ⟨rest, rfl, h⟩
      exact ⟨[a], part ++ rest, rfl, rfl, ih.2 ⟨rest, rfl, h⟩⟩

/-- A pattern of nothing but question marks. -/
theorem matches_any_iff {n : Nat} {value : List α} :
    Matches (List.replicate n Token.any) value ↔ value.length = n := by
  induction n generalizing value with
  | zero => rw [List.replicate_zero, matches_nil, List.length_eq_zero_iff]
  | succ n ih =>
    rw [List.replicate_succ, matches_cons]
    constructor
    · rintro ⟨part, rest, rfl, hpart, hrest⟩
      rw [List.length_append, show part.length = 1 from hpart, ih.1 hrest, Nat.add_comm]
    · intro hlength
      cases value with
      | nil => cases hlength
      | cons a rest => exact ⟨[a], rest, rfl, rfl, ih.2 (Nat.succ.inj hlength)⟩

/-! ## One token more -/

section snoc

variable {tokens : List (Token α)} {value : List α} {a b : α}

theorem matches_snoc_nil {token : Token α} :
    Matches (tokens ++ [token]) [] ↔ token = .star ∧ Matches tokens [] := by
  simp only [matches_append, matches_singleton, List.append_eq_nil_iff]
  constructor
  · rintro ⟨_, _, ⟨rfl, rfl⟩, hbefore, hafter⟩
    cases token with
    | star => exact ⟨rfl, hbefore⟩
    | any => cases hafter
    | literal a => cases hafter
  · rintro ⟨rfl, h⟩
    exact ⟨[], [], ⟨rfl, rfl⟩, h, trivial⟩

theorem matches_snoc_any :
    Matches (tokens ++ [.any]) (value ++ [a]) ↔ Matches tokens value := by
  simp only [matches_append, matches_singleton]
  constructor
  · rintro ⟨before, after, heq, hbefore, hafter⟩
    obtain ⟨b, rfl⟩ := List.length_eq_one_iff.1 hafter
    rw [← (List.append_inj' heq rfl).1]
    exact hbefore
  · intro h
    exact ⟨value, [a], rfl, h, rfl⟩

theorem matches_snoc_literal :
    Matches (tokens ++ [.literal b]) (value ++ [a]) ↔ Matches tokens value ∧ b = a := by
  simp only [matches_append, matches_singleton]
  constructor
  · rintro ⟨before, _, heq, hbefore, rfl⟩
    obtain ⟨rfl, hlast⟩ := List.append_inj' heq rfl
    exact ⟨hbefore, (List.cons.inj hlast).1⟩
  · rintro ⟨h, rfl⟩
    exact ⟨value, [b], rfl, h, rfl⟩

/-- The last character is the last one of what the star stands for, or the star stands for
nothing. -/
theorem matches_snoc_star :
    Matches (tokens ++ [.star]) (value ++ [a]) ↔
      Matches tokens (value ++ [a]) ∨ Matches (tokens ++ [.star]) value := by
  simp only [matches_append, matches_singleton]
  constructor
  · rintro ⟨before, after, heq, hbefore, -⟩
    rcases List.eq_nil_or_concat after with rfl | ⟨after, last, rfl⟩
    · rw [List.append_nil] at heq
      exact .inl (heq ▸ hbefore)
    · rw [List.concat_eq_append, ← List.append_assoc] at heq
      exact .inr ⟨before, after, (List.append_inj' heq rfl).1, hbefore, trivial⟩
  · rintro (h | ⟨before, after, rfl, hbefore, -⟩)
    · exact ⟨value ++ [a], [], List.append_nil _, h, trivial⟩
    · exact ⟨before, after ++ [a], (List.append_assoc _ _ _).symm, hbefore, trivial⟩

end snoc

/-! ## The table -/

/-- The answers for the prefixes that go on from `before`. -/
inductive Row (p : List α → Prop) : List α → List α → List Bool → Prop
  | nil (before : List α) : Row p before [] []
  | cons {before value : List α} {a : α} {cell : Bool} {cells : List Bool}
    (h : cell = true ↔ p (before ++ [a])) (hrest : Row p (before ++ [a]) value cells) :
    Row p before (a :: value) (cell :: cells)

theorem Row.last {p : List α → Prop} {before value : List α} {first : Bool} {cells : List Bool}
    (hfirst : first = true ↔ p before) (h : Row p before value cells) :
    ((first :: cells).getD value.length false = true ↔ p (before ++ value)) := by
  induction h generalizing first with
  | nil before => simpa using hfirst
  | cons hcell _ ih =>
    rw [List.length_cons, List.getD_cons_succ, ih hcell, List.append_assoc]
    rfl

/-- The first row: nothing but the empty prefix matches. -/
theorem row_nil (before value : List α) :
    Row (Matches []) before value (value.map fun _ => false) := by
  induction value generalizing before with
  | nil => exact .nil before
  | cons a value ih =>
    refine .cons ?_ (ih _)
    rw [matches_nil]
    simp

variable [DecidableEq α]

/-- A cell, from the one above it to the left, the one above it and the one to the left. -/
def nextCell (token : Token α) (a : α) (diagonal above left : Bool) : Bool :=
  match token with
  | .star => above || left
  | .any => diagonal
  | .literal b => diagonal && decide (b = a)

/-- The rest of a row, from the one above. -/
def nextCells (token : Token α) : List α → List Bool → Bool → Bool → List Bool
  | a :: value, above :: aboves, diagonal, left =>
    let cell := nextCell token a diagonal above left
    cell :: nextCells token value aboves above cell
  | _, _, _, _ => []

theorem nextCell_iff {token : Token α} {tokens : List (Token α)} {before : List α} {a : α}
    {diagonal above left : Bool} (hdiagonal : diagonal = true ↔ Matches tokens before)
    (habove : above = true ↔ Matches tokens (before ++ [a]))
    (hleft : left = true ↔ Matches (tokens ++ [token]) before) :
    nextCell token a diagonal above left = true ↔ Matches (tokens ++ [token]) (before ++ [a]) := by
  cases token with
  | star => rw [matches_snoc_star, ← habove, ← hleft, nextCell, Bool.or_eq_true]
  | any => rw [matches_snoc_any, ← hdiagonal, nextCell]
  | literal b =>
    rw [matches_snoc_literal, ← hdiagonal, nextCell, Bool.and_eq_true, decide_eq_true_iff]

theorem nextCells_row {token : Token α} {tokens : List (Token α)} {before value : List α}
    {diagonal left : Bool} {aboves : List Bool} (h : Row (Matches tokens) before value aboves)
    (hdiagonal : diagonal = true ↔ Matches tokens before)
    (hleft : left = true ↔ Matches (tokens ++ [token]) before) :
    Row (Matches (tokens ++ [token])) before value
      (nextCells token value aboves diagonal left) := by
  induction h generalizing diagonal left with
  | nil before => exact .nil before
  | cons habove _ ih =>
    have hcell := nextCell_iff hdiagonal habove hleft
    exact .cons hcell (ih habove hcell)

end Glob

end Emelex
