import Mathlib.Algebra.BigOperators.Group.List.Basic
import Mathlib.Algebra.Field.Rat
import Mathlib.Algebra.Order.Field.Basic
import Mathlib.Algebra.Order.Ring.Unbundled.Rat
import Emelex.Engine.Sampling
import Emelex.Lib.Draws

/-!
# The sampled half of the sampler (`engine/sampling.rs`)

The functions of the source with exact numbers in place of floating-point ones: a row is a list
over an ordered field, every number is finite, and a draw of the random source is a uniform
number of `[0, 1)`.

* `sampleFromProbs` — the walk over the cumulative sums.
* `verifyAcceptInner` — the acceptance decision, with the input checks and the residual row.
* `Uniforms` — a random source that is a stream of numbers; it makes the sampler of the decode
  round executable.

Principal results: `cdfWalk_lt`, `bestIndex_lt` (a sampled token is in the vocabulary),
`validateSpeculativeInputs_ok` (normalized rows of one length and drafts in the vocabulary pass
the checks).
-/

set_option autoImplicit false

namespace Emelex

open Draws

namespace ExactSampling

variable {K : Type} [Field K] [LinearOrder K]

/-- The walk of `sample_from_probs`. -/
def cdfWalk : List K → Nat → K → Option TokenId
  | [], _, _ => none
  | p :: probs, i, draw =>
    -- `0 < p` guards the exact-zero draw
    if 0 < p ∧ draw - p ≤ 0 then some i else cdfWalk probs (i + 1) (draw - p)

/-- `max_by` over the entries from `i` on, when `(m, best)` is the best so far. -/
def bestFrom : List K → Nat → K → TokenId → TokenId
  | [], _, _, best => best
  | p :: probs, i, m, best =>
    if m ≤ p then bestFrom probs (i + 1) p i else bestFrom probs (i + 1) m best

/-- The last of the most probable tokens. -/
def bestIndex : List K → TokenId
  | [] => 0
  | p :: probs => bestFrom probs 1 p 0

/-- The first invalid entry. -/
def firstInvalid : List K → Nat → Option (Nat × K)
  | [], _ => none
  | p :: probs, i => if p < 0 then some (i, p) else firstInvalid probs (i + 1)

theorem cdfWalk_lt : ∀ (probs : List K) (i : Nat) (draw : K) (t : Nat),
    cdfWalk probs i draw = some t → t < i + probs.length
  | [], _, _, _, h => by cases h
  | p :: probs, i, draw, t, h => by
    unfold cdfWalk at h
    split at h
    · cases h
      simp
    · have := cdfWalk_lt probs (i + 1) _ t h
      rw [List.length_cons]
      omega

omit [Field K] in
theorem bestFrom_lt : ∀ (probs : List K) (i : Nat) (m : K) (best : Nat), best < i →
    (bestFrom probs i m best : Nat) < i + probs.length
  | [], _, _, _, h => h
  | p :: probs, i, m, best, h => by
    unfold bestFrom
    rw [List.length_cons, ← Nat.add_assoc, Nat.add_right_comm]
    split
    · exact bestFrom_lt probs (i + 1) p i (Nat.lt_succ_self i)
    · exact bestFrom_lt probs (i + 1) m best (Nat.lt_succ_of_lt h)

omit [Field K] in
theorem bestIndex_lt {probs : List K} (h : probs ≠ []) : bestIndex probs < probs.length := by
  cases probs with
  | nil => exact absurd rfl h
  | cons p probs =>
    rw [List.length_cons, Nat.add_comm]
    exact bestFrom_lt probs 1 p 0 Nat.one_pos

theorem firstInvalid_none : ∀ (probs : List K) (i : Nat), (∀ p ∈ probs, 0 ≤ p) →
    firstInvalid probs i = none
  | [], _, _ => rfl
  | p :: probs, i, h => by
    unfold firstInvalid
    rw [if_neg (not_lt.2 (h p List.mem_cons_self))]
    exact firstInvalid_none probs (i + 1) fun x hx => h x (List.mem_cons_of_mem _ hx)

/-- A normalized row. -/
structure Normalized (vocab : Nat) (row : List K) : Prop where
  length : row.length = vocab
  nonneg : ∀ p ∈ row, 0 ≤ p
  sum : row.sum = 1

variable [ToString K]

/-- `sample_from_probs`. -/
def sampleFromProbs (probs : List K) : Draw K (Except Error TokenId) :=
  if probs = [] then
    pure (.error (specErr "sample_from_probs() requires a non-empty distribution"))
  else
    match firstInvalid probs 0 with
    | some (i, p) =>
      pure (.error (specErr s!"sample_from_probs() got invalid probability {p} at index {i}"))
    | none =>
      let total := probs.sum
      if total ≤ 0 then
        pure (.error (specErr s!"sample_from_probs() invariant violated: total mass is {total}, expected positive and finite"))
      else do
        let u ← .uniform
        pure (.ok ((cdfWalk probs 0 (u * total)).getD (bestIndex probs)))

/-- `AcceptVerdict`. -/
structure AcceptVerdict (K : Type) where
  accepted : Nat
  successorDist : List K

/-- `validate_speculative_rows`, from row `i` on. -/
def validateSpeculativeRows (name : String) (vocab : Nat) (validateValues : Bool) :
    List (List K) → Nat → Except Error Unit
  | [], _ => .ok ()
  | row :: rows, i =>
    let got := row.length
    let sum := row.sum
    if got ≠ vocab then
      .error (specErr s!"speculative verification {name}[{i}] has length {got}, expected {vocab}")
    else if !validateValues then validateSpeculativeRows name vocab validateValues rows (i + 1)
    else
      match firstInvalid row 0 with
      | some (j, v) =>
        .error (specErr s!"speculative verification {name}[{i}][{j}] is {v}, expected finite and non-negative")
      | none =>
        if 1 / 1000 < |sum - 1| then
          .error (specErr s!"speculative verification {name}[{i}] sums to {sum}, expected ~1 (tolerance 1e-3)")
        else validateSpeculativeRows name vocab validateValues rows (i + 1)

/-- The bounds check of the drafts, from position `i` on. -/
def validateDrafts (vocab : Nat) : List TokenId → Nat → Except Error Unit
  | [], _ => .ok ()
  | d :: drafts, i =>
    if vocab ≤ d then
      .error (specErr s!"speculative verification draft token {d} at position {i} is out of bounds for vocab {vocab}")
    else validateDrafts vocab drafts (i + 1)

/-- `validate_speculative_inputs`. -/
def validateSpeculativeInputs (drafts : List TokenId) (draftProbs target : List (List K))
    (validateValues : Bool) : Except Error Nat :=
  let rows := target.length
  let draftRows := draftProbs.length
  let count := drafts.length
  if rows ≠ count + 1 then
    .error (specErr s!"speculative verification expects target.len() == drafts.len() + 1, got {rows} target rows for {count} drafts")
  else if draftRows ≠ count then
    .error (specErr s!"speculative verification expects one draft_probs row per draft, got {draftRows} rows for {count} drafts")
  else
    let vocab := (target.headD []).length
    if vocab = 0 then
      .error (specErr "speculative verification got an empty target distribution")
    else do
      validateSpeculativeRows "target" vocab validateValues target 0
      validateSpeculativeRows "draft_probs" vocab validateValues draftProbs 0
      validateDrafts vocab drafts 0
      pure vocab

/-- The residual of a rejection: `max(0, p - q)`, elementwise. -/
def residual (targetRow draftRow : List K) : List K :=
  List.zipWith (fun p q => max (p - q) 0) targetRow draftRow

/-- The loop of `verify_accept_inner` from position `i` on. -/
def verifyLoop (draftProbs target : List (List K)) :
    Nat → List TokenId → Draw K (Except Error (AcceptVerdict K))
  | i, [] => pure (.ok ⟨i, target.getD i []⟩)
  | i, d :: drafts =>
    let draftRow := draftProbs.getD i []
    let targetRow := target.getD i []
    let q := draftRow.getD d 0
    let p := targetRow.getD d 0
    if q = 0 then
      pure (.error (specErr s!"verify_accept() invariant violated: draft token {d} at position {i} has zero draft probability, but drafts must be sampled from draft_probs"))
    else do
      let u ← .uniform
      if u < min (p / q) 1 then verifyLoop draftProbs target (i + 1) drafts
      else
        let mass := (residual targetRow draftRow).sum
        if mass ≤ 0 then
          pure (.error (specErr s!"verify_accept() invariant violated: residual mass at position {i} is zero; refusing to silently sample the target distribution"))
        else pure (.ok ⟨i, (residual targetRow draftRow).map (· / mass)⟩)

/-- `verify_accept_inner`; `verify_accept` checks the values, `verify_accept_trusted` only in
debug builds. -/
def verifyAcceptInner (validateValues : Bool) (drafts : List TokenId)
    (draftProbs target : List (List K)) : Draw K (Except Error (AcceptVerdict K)) :=
  match validateSpeculativeInputs drafts draftProbs target validateValues with
  | .error e => pure (.error e)
  | .ok _ => verifyLoop draftProbs target 0 drafts

/-- A random source that is a stream of uniform numbers. -/
structure Uniforms (K : Type) where
  stream : Nat → K

/-- The sampler of the decode round in a release build. -/
instance : RowSampler (Uniforms K) where
  Row := List K
  sampleFromProbs row g :=
    let r := (sampleFromProbs row).run g.stream
    (r.1, ⟨r.2⟩)
  verifyAcceptTrusted drafts draftProbs target g :=
    let r := (verifyAcceptInner false drafts draftProbs target).run g.stream
    (r.1.map fun v => (v.accepted, v.successorDist), ⟨r.2⟩)

/-! ## What the checks admit -/

theorem validateDrafts_ok {vocab : Nat} : ∀ (drafts : List TokenId) (i : Nat),
    (∀ d ∈ drafts, d < vocab) → validateDrafts vocab drafts i = .ok ()
  | [], _, _ => rfl
  | d :: drafts, i, h => by
    unfold validateDrafts
    rw [if_neg (Nat.not_le.2 (h d List.mem_cons_self))]
    exact validateDrafts_ok drafts (i + 1) fun x hx => h x (List.mem_cons_of_mem _ hx)

variable [IsStrictOrderedRing K]

theorem validateSpeculativeRows_ok {name : String} {vocab : Nat} {validateValues : Bool} :
    ∀ (rows : List (List K)) (i : Nat), (∀ row ∈ rows, Normalized vocab row) →
      validateSpeculativeRows name vocab validateValues rows i = .ok ()
  | [], _, _ => rfl
  | row :: rows, i, h => by
    have hrow := h row List.mem_cons_self
    have hrest : validateSpeculativeRows name vocab validateValues rows (i + 1) = .ok () :=
      validateSpeculativeRows_ok rows (i + 1) fun x hx => h x (List.mem_cons_of_mem _ hx)
    unfold validateSpeculativeRows
    simp only [hrow.length, hrow.sum, firstInvalid_none row 0 hrow.nonneg, sub_self, abs_zero]
    rw [if_neg (by simp), hrest]
    split
    · rfl
    · exact if_neg (not_lt.2 (by positivity))

/-- Normalized rows of one length and drafts in the vocabulary pass the checks. -/
theorem validateSpeculativeInputs_ok {vocab : Nat} {validateValues : Bool}
    {drafts : List TokenId} {draftProbs target : List (List K)}
    (hdrafts : ∀ d ∈ drafts, d < vocab) (hq : draftProbs.length = drafts.length)
    (hp : target.length = drafts.length + 1) (hqrows : ∀ row ∈ draftProbs, Normalized vocab row)
    (hprows : ∀ row ∈ target, Normalized vocab row) :
    validateSpeculativeInputs drafts draftProbs target validateValues = .ok vocab := by
  obtain ⟨row, rows, rfl⟩ : ∃ row rows, target = row :: rows := by
    cases target with
    | nil => simp at hp
    | cons row rows => exact ⟨row, rows, rfl⟩
  have hrow := hprows row List.mem_cons_self
  have hvocab : vocab ≠ 0 := by
    rintro rfl
    have hsum := hrow.sum
    rw [List.length_eq_zero_iff.1 hrow.length, List.sum_nil] at hsum
    exact zero_ne_one hsum
  unfold validateSpeculativeInputs
  simp only [hp, hq, ne_eq, not_true_eq_false, if_false, List.headD_cons, hrow.length, hvocab]
  rw [validateSpeculativeRows_ok _ 0 hprows, validateSpeculativeRows_ok _ 0 hqrows,
    validateDrafts_ok _ 0 hdrafts]
  rfl

end ExactSampling

end Emelex
