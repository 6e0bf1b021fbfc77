import Mathlib.Algebra.BigOperators.Ring.Finset
import Mathlib.Data.List.GetD
import Emelex.Engine.ExactSampling

/-!
# Speculative sampling preserves the target distribution

The decode round in exact arithmetic over ideal uniforms: `k` drafts, each drawn from the row of
the draft model after the tokens before it, the acceptance decision, and the successor drawn from
the row of the verdict.  A row family gives the row after a token prefix.

* `ancestral` — tokens drawn one after the other, each from the row after those before it.  The
  draft loop is ancestral sampling of the draft rows.
* `speculate` — drafts, decision, successor: the accepted drafts and the successor.
* `specLaw` — the weight of the emitted tokens: a token is accepted with the smaller of both
  probabilities, and ends the round with the excess of the target probability.

Principal results: `expect_sampleFromProbs` (the walk draws a token with its probability),
`expect_speculate` (the law of a round is `specLaw`), `specLaw_ancestral` (extended by ancestral
sampling, the emitted tokens are an ancestral sample of the target).
-/

set_option autoImplicit false

namespace Emelex

open Draws Draw MeasureTheory Set
open Finset (range)
open scoped ENNReal

namespace ExactSampling

section Program

variable {K : Type} [Field K] [LinearOrder K] [ToString K]

/-- `n` more tokens after `emitted`, each drawn from the row after those before it. -/
def ancestral (rows : List TokenId → List K) :
    Nat → List TokenId → Draw K (Except Error (List TokenId))
  | 0, emitted => pure (.ok emitted)
  | n + 1, emitted => do
    match ← sampleFromProbs (rows emitted) with
    | .error e => pure (.error e)
    | .ok t => ancestral rows n (emitted ++ [t])

/-- The rows before each of `ids`. -/
def rowsAlong (rows : List TokenId → List K) (emitted : List TokenId) :
    List TokenId → List (List K)
  | [] => []
  | t :: ids => rows emitted :: rowsAlong rows (emitted ++ [t]) ids

/-- The draw of the successor after the accepted drafts. -/
def emitSuccessor (accepted : List TokenId) (row : List K) :
    Draw K (Except Error (List TokenId)) := do
  match ← sampleFromProbs row with
  | .error e => pure (.error e)
  | .ok t => pure (.ok (accepted ++ [t]))

/-- What follows the acceptance decision. -/
def finish (drafts : List TokenId) :
    Except Error (AcceptVerdict K) → Draw K (Except Error (List TokenId))
  | .error e => pure (.error e)
  | .ok v => emitSuccessor (drafts.take v.accepted) v.successorDist

/-- The decision on the drafts, and the successor. -/
def judge (validateValues : Bool) (p q : List TokenId → List K) (drafts : List TokenId) :
    Draw K (Except Error (List TokenId)) :=
  verifyAcceptInner validateValues drafts (rowsAlong q [] drafts)
    (rowsAlong p [] drafts ++ [p drafts]) >>= finish drafts

/-- One speculative round with `k` drafts: what it emits. -/
def speculate (validateValues : Bool) (p q : List TokenId → List K) (k : Nat) :
    Draw K (Except Error (List TokenId)) := do
  match ← ancestral q k [] with
  | .error e => pure (.error e)
  | .ok drafts => judge validateValues p q drafts

/-- Ancestral sampling up to `total` tokens after what a round has emitted. -/
def completeTo (p : List TokenId → List K) (total : Nat) :
    Except Error (List TokenId) → Draw K (Except Error (List TokenId))
  | .error e => pure (.error e)
  | .ok emitted => ancestral p (total - emitted.length) emitted

omit [Field K] [LinearOrder K] [ToString K] in
theorem rowsAlong_length (rows : List TokenId → List K) (emitted ids : List TokenId) :
    (rowsAlong rows emitted ids).length = ids.length := by
  induction ids generalizing emitted with
  | nil => rfl
  | cons t ids ih => simp [rowsAlong, ih]

omit [Field K] [LinearOrder K] [ToString K] in
theorem rowsAlong_append (rows : List TokenId → List K) (emitted a b : List TokenId) :
    rowsAlong rows emitted (a ++ b) =
      rowsAlong rows emitted a ++ rowsAlong rows (emitted ++ a) b := by
  induction a generalizing emitted with
  | nil => simp [rowsAlong]
  | cons t a ih => simp [rowsAlong, ih]

end Program

/-! ## One draw -/

section Laws

theorem sum_getD (row : List ℝ) : row.sum = ∑ t ∈ range row.length, row.getD t 0 := by
  induction row with
  | nil => rfl
  | cons p row ih =>
    rw [List.sum_cons, List.length_cons, Finset.sum_range_succ', ih, add_comm]
    rfl

/-- The part of the unit interval on which the walk stops at each entry. -/
theorem lintegral_cdfWalk {T : ℝ} (hT : 0 < T) (F : Option TokenId → ℝ≥0∞) :
    ∀ (row : List ℝ) (i : Nat) (s : ℝ), (∀ p ∈ row, 0 ≤ p) →
      (∫⁻ u in Ioc (s / T) ((s + row.sum) / T), F (cdfWalk row i (u * T - s))) =
        ∑ j ∈ range row.length, ENNReal.ofReal (row.getD j 0 / T) * F (some (i + j))
  | [], i, s, _ => by simp
  | p :: row, i, s, h => by
    have hp : 0 ≤ p := h p List.mem_cons_self
    have hrow : ∀ x ∈ row, 0 ≤ x := fun x hx => h x (List.mem_cons_of_mem _ hx)
    have ih := lintegral_cdfWalk hT F row (i + 1) (s + p) hrow
    have hab : s / T ≤ (s + p) / T := by gcongr; linarith
    have hbc : (s + p) / T ≤ (s + (p :: row).sum) / T := by
      rw [List.sum_cons]
      have := List.sum_nonneg hrow
      gcongr
      linarith
    -- at most `p` past `s` the walk stops here
    have hstop : ∀ u ∈ Ioc (s / T) ((s + p) / T),
        F (cdfWalk (p :: row) i (u * T - s)) = F (some i) := by
      rintro u ⟨hlo, hhi⟩
      rw [div_lt_iff₀ hT] at hlo
      rw [le_div_iff₀ hT] at hhi
      rw [cdfWalk, if_pos ⟨by linarith, by linarith⟩]
    have hgo : ∀ u ∈ Ioc ((s + p) / T) ((s + (p :: row).sum) / T),
        F (cdfWalk (p :: row) i (u * T - s)) = F (cdfWalk row (i + 1) (u * T - (s + p))) := by
      rintro u ⟨hlo, -⟩
      rw [div_lt_iff₀ hT] at hlo
      rw [cdfWalk, if_neg (fun hc => by linarith [hc.2]), sub_sub]
    rw [lintegral_step hab hbc hstop hgo, List.sum_cons, ← add_assoc, ih, List.length_cons,
      Finset.sum_range_succ', add_comm]
    congr 1
    · refine Finset.sum_congr rfl fun j _ => ?_
      rw [List.getD_cons_succ, add_assoc, add_comm 1 j]
    · rw [List.getD_cons_zero, ← sub_div, add_sub_cancel_left]
      rfl

/-! ## Row families -/

variable {vocab : Nat} {p q : List TokenId → List ℝ}

/-- Normalized rows after every prefix. -/
def NormalizedRows (vocab : Nat) (rows : List TokenId → List ℝ) : Prop :=
  ∀ emitted, Normalized vocab (rows emitted)

/-- The probability of token `t` after `emitted`. -/
noncomputable def prob (rows : List TokenId → List ℝ) (emitted : List TokenId) (t : TokenId) : ℝ :=
  (rows emitted).getD t 0

theorem prob_nonneg {rows : List TokenId → List ℝ} (h : NormalizedRows vocab rows)
    (emitted : List TokenId) (t : TokenId) : 0 ≤ prob rows emitted t := by
  unfold prob
  rw [List.getD_eq_getElem?_getD]
  cases hr : (rows emitted)[t]? with
  | none => exact le_rfl
  | some x => exact (h emitted).nonneg x (List.mem_of_getElem? hr)

theorem sum_prob {rows : List TokenId → List ℝ} (h : NormalizedRows vocab rows)
    (emitted : List TokenId) : ∑ t ∈ range vocab, prob rows emitted t = 1 := by
  rw [← (h emitted).sum, sum_getD, (h emitted).length]
  rfl

/-- The probability of `ids` after `emitted`: the product of the conditionals. -/
noncomputable def jointProb (rows : List TokenId → List ℝ) (emitted : List TokenId) :
    List TokenId → ℝ
  | [] => 1
  | t :: ids => prob rows emitted t * jointProb rows (emitted ++ [t]) ids

theorem residual_getD : ∀ (a b : List ℝ) (t : Nat), a.length = b.length →
    (residual a b).getD t 0 = max (a.getD t 0 - b.getD t 0) 0
  | [], [], _, _ => by simp [residual]
  | x :: a, y :: b, 0, _ => rfl
  | x :: a, y :: b, t + 1, h => residual_getD a b t (by simpa using h)

theorem residual_length (a b : List ℝ) (h : a.length = b.length) :
    (residual a b).length = b.length := by
  unfold residual
  rw [List.length_zipWith, h, Nat.min_self]

/-- The excess of the target probability over the draft probability. -/
noncomputable def excess (p q : List TokenId → List ℝ) (emitted : List TokenId) (t : TokenId) : ℝ :=
  max (prob p emitted t - prob q emitted t) 0

/-- The mass of the residual. -/
noncomputable def excessMass (p q : List TokenId → List ℝ) (vocab : Nat) (emitted : List TokenId) :
    ℝ :=
  ∑ t ∈ range vocab, excess p q emitted t

theorem residual_sum (hp : NormalizedRows vocab p) (hq : NormalizedRows vocab q)
    (emitted : List TokenId) :
    (residual (p emitted) (q emitted)).sum = excessMass p q vocab emitted := by
  have hlen : (p emitted).length = (q emitted).length :=
    (hp emitted).length.trans (hq emitted).length.symm
  rw [sum_getD, residual_length _ _ hlen, (hq emitted).length]
  exact Finset.sum_congr rfl fun t _ => residual_getD _ _ t hlen

/-- Both models exceed the other by the same mass. -/
theorem excessMass_comm (hp : NormalizedRows vocab p) (hq : NormalizedRows vocab q)
    (emitted : List TokenId) : excessMass p q vocab emitted = excessMass q p vocab emitted := by
  have hdiff : ∀ t, excess p q emitted t - excess q p emitted t =
      prob p emitted t - prob q emitted t := by
    intro t
    unfold excess
    rcases le_total (prob p emitted t) (prob q emitted t) with hle | hle
    · rw [max_eq_right (by linarith), max_eq_left (by linarith)]
      ring
    · rw [max_eq_left (by linarith), max_eq_right (by linarith)]
      ring
  have hsum : excessMass p q vocab emitted - excessMass q p vocab emitted = 0 := by
    unfold excessMass
    rw [← Finset.sum_sub_distrib, Finset.sum_congr rfl fun t _ => hdiff t,
      Finset.sum_sub_distrib, sum_prob hp, sum_prob hq, sub_self]
  linarith

theorem excess_le_mass (p q : List TokenId → List ℝ) (emitted : List TokenId) {t : TokenId}
    (ht : t < vocab) : excess p q emitted t ≤ excessMass p q vocab emitted :=
  Finset.single_le_sum (f := excess p q emitted) (fun _ _ => le_max_right _ _)
    (Finset.mem_range.2 ht)

/-- A probability `q` accepted with `min(1, p / q)` is the smaller of both. -/
theorem mul_accept {p q : ℝ} (hq : 0 < q) : q * min (p / q) 1 = min p q := by
  rw [mul_min_of_nonneg _ _ hq.le, mul_div_cancel₀ _ hq.ne', mul_one]

/-- The smaller of both and the excess of the target make up the target probability. -/
theorem min_add_excess (p q : List TokenId → List ℝ) (emitted : List TokenId) (t : TokenId) :
    min (prob p emitted t) (prob q emitted t) + excess p q emitted t = prob p emitted t := by
  unfold excess
  rcases le_total (prob p emitted t) (prob q emitted t) with hle | hle
  · rw [min_eq_left hle, max_eq_right (by linarith), add_zero]
  · rw [min_eq_right hle, max_eq_left (by linarith), add_sub_cancel]

theorem getD_div (row : List ℝ) (m : ℝ) (t : Nat) :
    (row.map (· / m)).getD t 0 = row.getD t 0 / m := by
  rw [← List.getD_map (f := (· / m)), zero_div]

/-- The row of a rejection. -/
theorem normalized_residual (hp : NormalizedRows vocab p) (hq : NormalizedRows vocab q)
    {emitted : List TokenId} (hmass : 0 < excessMass p q vocab emitted) :
    Normalized vocab ((residual (p emitted) (q emitted)).map
      (· / (residual (p emitted) (q emitted)).sum)) := by
  have hlen : (p emitted).length = (q emitted).length :=
    (hp emitted).length.trans (hq emitted).length.symm
  rw [residual_sum hp hq]
  refine ⟨?_, ?_, ?_⟩
  · rw [List.length_map, residual_length _ _ hlen, (hq emitted).length]
  · intro x hx
    obtain ⟨r, hr, rfl⟩ := List.mem_map.1 hx
    obtain ⟨t, ht⟩ := List.mem_iff_getElem?.1 hr
    have hget : (residual (p emitted) (q emitted)).getD t 0 = r := by
      rw [List.getD_eq_getElem?_getD, ht, Option.getD_some]
    rw [residual_getD _ _ t hlen] at hget
    rw [← hget]
    positivity
  · simp only [div_eq_mul_inv]
    rw [List.sum_map_mul_right, List.map_id', residual_sum hp hq, mul_inv_cancel₀ hmass.ne']

/-! ## The weights of a round -/

/-- The expected weight of what a round emits after `emitted`, with `n` drafts to come. -/
noncomputable def specLaw (p q : List TokenId → List ℝ) (vocab : Nat)
    (F : List TokenId → ℝ≥0∞) : Nat → List TokenId → ℝ≥0∞
  | 0, emitted => ∑ t ∈ range vocab, ENNReal.ofReal (prob p emitted t) * F (emitted ++ [t])
  | n + 1, emitted => ∑ t ∈ range vocab,
      (ENNReal.ofReal (min (prob p emitted t) (prob q emitted t)) *
          specLaw p q vocab F n (emitted ++ [t]) +
        ENNReal.ofReal (excess p q emitted t) * F (emitted ++ [t]))

theorem rowsAlong_getD (rows : List TokenId → List ℝ) (emitted ids : List TokenId) (d : TokenId)
    (more : List (List ℝ)) :
    (rowsAlong rows [] (emitted ++ d :: ids) ++ more).getD emitted.length [] = rows emitted := by
  have hlen : (rowsAlong rows [] emitted).length = emitted.length := rowsAlong_length _ _ _
  rw [rowsAlong_append, List.append_assoc, List.getD_eq_getElem?_getD,
    List.getElem?_append_right (by rw [hlen]), hlen, Nat.sub_self]
  rfl

theorem ofReal_min_add_excess (hp : NormalizedRows vocab p) (hq : NormalizedRows vocab q)
    (emitted : List TokenId) (t : TokenId) :
    ENNReal.ofReal (min (prob p emitted t) (prob q emitted t)) +
      ENNReal.ofReal (excess p q emitted t) = ENNReal.ofReal (prob p emitted t) := by
  have hexcess : 0 ≤ excess p q emitted t := le_max_right _ _
  rw [← ENNReal.ofReal_add (le_min (prob_nonneg hp emitted t) (prob_nonneg hq emitted t)) hexcess,
    min_add_excess]

/-- The first token a round emits is drawn from the target row. -/
theorem specLaw_first (hp : NormalizedRows vocab p) (hq : NormalizedRows vocab q)
    {F : List TokenId → ℝ≥0∞} : ∀ (n : Nat) (emitted : List TokenId) (c : TokenId → ℝ≥0∞),
    (∀ t ids, F (emitted ++ t :: ids) = c t) →
    specLaw p q vocab F n emitted =
      ∑ t ∈ range vocab, ENNReal.ofReal (prob p emitted t) * c t
  | 0, emitted, c, hF => Finset.sum_congr rfl fun t _ => by rw [hF t []]
  | n + 1, emitted, c, hF => by
    refine Finset.sum_congr rfl fun t _ => ?_
    have hrest : specLaw p q vocab F n (emitted ++ [t]) = c t := by
      have hF' : ∀ t' ids, F ((emitted ++ [t]) ++ t' :: ids) = c t := by
        intro t' ids
        rw [← List.append_cons]
        exact hF t (t' :: ids)
      rw [specLaw_first hp hq n (emitted ++ [t]) (fun _ => c t) hF', ← Finset.sum_mul,
        ← ENNReal.ofReal_sum_of_nonneg fun t' _ => prob_nonneg hp (emitted ++ [t]) t', sum_prob hp,
        ENNReal.ofReal_one, one_mul]
    rw [hrest, hF t [], ← add_mul, ofReal_min_add_excess hp hq]

/-- A round emits something. -/
theorem specLaw_const (hp : NormalizedRows vocab p) (hq : NormalizedRows vocab q)
    {F : List TokenId → ℝ≥0∞} {c : ℝ≥0∞} (n : Nat) (emitted : List TokenId)
    (hF : ∀ t ids, F (emitted ++ t :: ids) = c) : specLaw p q vocab F n emitted = c := by
  rw [specLaw_first hp hq n emitted (fun _ => c) hF, ← Finset.sum_mul,
    ← ENNReal.ofReal_sum_of_nonneg fun t _ => prob_nonneg hp emitted t, sum_prob hp,
    ENNReal.ofReal_one, one_mul]

/-- Weight one on the emitted tokens with the property, zero elsewhere and on an error. -/
noncomputable def weightOf (P : List TokenId → Prop) : Except Error (List TokenId) → ℝ≥0∞
  | .error _ => 0
  | .ok ids => open Classical in if P ids then 1 else 0

theorem weightOf_ok_true {P : List TokenId → Prop} {ids : List TokenId} (h : P ids) :
    weightOf P (.ok ids) = 1 := if_pos h

theorem weightOf_ok_false {P : List TokenId → Prop} {ids : List TokenId} (h : ¬ P ids) :
    weightOf P (.ok ids) = 0 := if_neg h

/-- `prior` has been emitted, and something after it. -/
def Extends (prior ids : List TokenId) : Prop := prior <+: ids ∧ prior.length < ids.length

/-- The token after `prior`, given that there is one, is drawn from the target row. -/
theorem specLaw_next (hp : NormalizedRows vocab p) (hq : NormalizedRows vocab q) {t : TokenId}
    (ht : t < vocab) : ∀ (prior : List TokenId) (n : Nat) (emitted : List TokenId),
    specLaw p q vocab (fun ids => weightOf (emitted ++ prior ++ [t] <+: ·) (.ok ids)) n emitted =
      specLaw p q vocab (fun ids => weightOf (Extends (emitted ++ prior)) (.ok ids)) n emitted *
        ENNReal.ofReal (prob p (emitted ++ prior) t)
  | [], n, emitted => by
    have hsome : specLaw p q vocab (fun ids => weightOf (Extends emitted) (.ok ids)) n emitted = 1 := by
      refine specLaw_const hp hq n emitted fun t' ids => ?_
      refine weightOf_ok_true ⟨List.prefix_append _ _, ?_⟩
      rw [List.length_append, List.length_cons]
      omega
    have hfirst : ∀ t' ids, weightOf (emitted ++ [t] <+: ·) (.ok (emitted ++ t' :: ids)) =
        if t' = t then 1 else 0 := by
      intro t' ids
      by_cases heq : t' = t
      · rw [if_pos heq, heq]
        exact weightOf_ok_true ((List.prefix_append_right_inj emitted).2 ⟨ids, rfl⟩)
      · rw [if_neg heq]
        refine weightOf_ok_false fun hpre => heq ?_
        exact (List.cons_prefix_cons.1 ((List.prefix_append_right_inj emitted).1 hpre)).1.symm
    rw [List.append_nil, hsome, one_mul, specLaw_first hp hq n emitted _ hfirst,
      Finset.sum_eq_single t]
    · rw [if_pos rfl, mul_one]
    · intro t' _ hne
      rw [if_neg hne, mul_zero]
    · intro hnot
      exact absurd (Finset.mem_range.2 ht) hnot
  | d :: prior, n, emitted => by
    -- tokens that do not start with `d`, or stop there, have weight zero on both sides
    have hleft : ∀ t' ids, t' ≠ d ∨ ids = [] →
        weightOf (emitted ++ d :: prior ++ [t] <+: ·) (.ok (emitted ++ t' :: ids)) = 0 := by
      intro t' ids hcase
      refine weightOf_ok_false fun hpre => ?_
      rw [List.append_assoc, List.prefix_append_right_inj, List.cons_append,
        List.cons_prefix_cons] at hpre
      rcases hcase with hne | rfl
      · exact hne hpre.1.symm
      · simp at hpre
    have hright : ∀ t' ids, t' ≠ d ∨ ids = [] →
        weightOf (Extends (emitted ++ d :: prior)) (.ok (emitted ++ t' :: ids)) = 0 := by
      intro t' ids hcase
      refine weightOf_ok_false fun hpre => ?_
      obtain ⟨hpre, hlen⟩ := hpre
      rw [List.prefix_append_right_inj, List.cons_prefix_cons] at hpre
      rcases hcase with hne | rfl
      · exact hne hpre.1.symm
      · simp at hlen
    cases n with
    | zero =>
      unfold specLaw
      rw [Finset.sum_mul]
      refine Finset.sum_congr rfl fun t' _ => ?_
      rw [hleft t' [] (Or.inr rfl), hright t' [] (Or.inr rfl), mul_zero, zero_mul]
    | succ n =>
      rw [specLaw, specLaw, Finset.sum_mul]
      refine Finset.sum_congr rfl fun t' _ => ?_
      rw [hleft t' [] (Or.inr rfl), hright t' [] (Or.inr rfl), mul_zero, add_zero, add_zero,
        mul_assoc]
      congr 1
      by_cases heq : t' = d
      · rw [heq]
        have ih := specLaw_next hp hq ht prior n (emitted ++ [d])
        rwa [← List.append_cons] at ih
      · rw [specLaw_const hp hq (c := 0) n (emitted ++ [t']),
          specLaw_const hp hq (c := 0) n (emitted ++ [t']), zero_mul]
        · intro x ids
          rw [← List.append_cons]
          exact hright t' (x :: ids) (Or.inl heq)
        · intro x ids
          rw [← List.append_cons]
          exact hleft t' (x :: ids) (Or.inl heq)

/-! ## The laws of the programs -/

variable [ToString ℝ]

/-- `sample_from_probs` draws a token with its share of the mass. -/
theorem expect_sampleFromProbs {row : List ℝ} (hnonneg : ∀ p ∈ row, 0 ≤ p) (hsum : 0 < row.sum)
    (F : Except Error TokenId → ℝ≥0∞) :
    (sampleFromProbs row).expect F =
      ∑ t ∈ range row.length, ENNReal.ofReal (row.getD t 0 / row.sum) * F (.ok t) := by
  have hne : row ≠ [] := by
    rintro rfl
    simp at hsum
  have hwalk := lintegral_cdfWalk hsum (fun o => F (.ok (o.getD (bestIndex row)))) row 0 0 hnonneg
  rw [zero_div, zero_add, div_self hsum.ne'] at hwalk
  unfold sampleFromProbs
  rw [if_neg hne, firstInvalid_none row 0 hnonneg]
  dsimp only
  rw [if_neg (not_le.2 hsum)]
  show (∫⁻ u in Ico (0 : ℝ) 1, F (.ok ((cdfWalk row 0 (u * row.sum)).getD (bestIndex row)))) = _
  rw [setLIntegral_congr Ico_ae_eq_Ioc]
  simp only [sub_zero, zero_add, Option.getD_some] at hwalk
  exact hwalk

theorem expect_sample_normalized {vocab : Nat} {row : List ℝ} (h : Normalized vocab row)
    (F : Except Error TokenId → ℝ≥0∞) :
    (sampleFromProbs row).expect F =
      ∑ t ∈ range vocab, ENNReal.ofReal (row.getD t 0) * F (.ok t) := by
  rw [expect_sampleFromProbs h.nonneg (by rw [h.sum]; exact one_pos), h.length]
  simp only [h.sum, div_one]

/-! ## Ancestral sampling -/

theorem expect_ancestral_succ {rows : List TokenId → List ℝ} (h : NormalizedRows vocab rows)
    (n : Nat) (emitted : List TokenId) (F : Except Error (List TokenId) → ℝ≥0∞) :
    (ancestral rows (n + 1) emitted).expect F =
      ∑ t ∈ range vocab, ENNReal.ofReal (prob rows emitted t) *
        (ancestral rows n (emitted ++ [t])).expect F := by
  rw [ancestral, expect_bind, expect_sample_normalized (h emitted)]
  rfl

/-- Only the outcomes of ancestral sampling matter. -/
theorem expect_ancestral_congr {rows : List TokenId → List ℝ} (h : NormalizedRows vocab rows)
    {F F' : Except Error (List TokenId) → ℝ≥0∞} :
    ∀ (n : Nat) (emitted : List TokenId),
      (∀ ids, ids.length = n → (∀ t ∈ ids, t < vocab) →
        F (.ok (emitted ++ ids)) = F' (.ok (emitted ++ ids))) →
      (ancestral rows n emitted).expect F = (ancestral rows n emitted).expect F'
  | 0, emitted, hF => by
    have := hF [] rfl (by simp)
    rw [List.append_nil] at this
    exact this
  | n + 1, emitted, hF => by
    rw [expect_ancestral_succ h, expect_ancestral_succ h]
    refine Finset.sum_congr rfl fun t ht => ?_
    congr 1
    refine expect_ancestral_congr h n (emitted ++ [t]) fun ids hlen hids => ?_
    have := hF (t :: ids) (by simp [hlen]) (by
      intro x hx
      rcases List.mem_cons.1 hx with rfl | hx
      · exact Finset.mem_range.1 ht
      · exact hids x hx)
    rwa [List.append_cons] at this

theorem expect_ancestral_const {rows : List TokenId → List ℝ} (h : NormalizedRows vocab rows)
    (n : Nat) (emitted : List TokenId) {F : Except Error (List TokenId) → ℝ≥0∞} {c : ℝ≥0∞}
    (hF : ∀ ids, F (.ok (emitted ++ ids)) = c) : (ancestral rows n emitted).expect F = c := by
  have hcongr : (ancestral rows n emitted).expect F = (ancestral rows n emitted).expect fun _ => c :=
    expect_ancestral_congr h n emitted fun ids _ _ => hF ids
  rw [hcongr, expect_const]

/-- Ancestral sampling yields `ids` with the product of the conditionals. -/
theorem expect_ancestral_eq {rows : List TokenId → List ℝ} (h : NormalizedRows vocab rows) :
    ∀ (ids emitted : List TokenId), (∀ t ∈ ids, t < vocab) →
      (ancestral rows ids.length emitted).expect
          (fun r => if r = .ok (emitted ++ ids) then 1 else 0) =
        ENNReal.ofReal (jointProb rows emitted ids)
  | [], emitted, _ => by simp [ancestral, jointProb]
  | t :: ids, emitted, hids => by
    have happ : emitted ++ t :: ids = (emitted ++ [t]) ++ ids := List.append_cons emitted t ids
    rw [List.length_cons, expect_ancestral_succ h, Finset.sum_eq_single t]
    · rw [happ, expect_ancestral_eq h ids (emitted ++ [t])
        (fun x hx => hids x (List.mem_cons_of_mem _ hx)),
        ← ENNReal.ofReal_mul (prob_nonneg h emitted t)]
      rfl
    · intro x _ hx
      -- another first token
      have hzero : ∀ ids' : List TokenId,
          (if (Except.ok (emitted ++ [x] ++ ids') : Except Error _) = .ok (emitted ++ t :: ids) then
            (1 : ℝ≥0∞) else 0) = 0 := by
        intro ids'
        rw [if_neg]
        intro heq
        have heq := List.append_cancel_left ((List.append_cons emitted x ids').trans
          (Except.ok.inj heq))
        exact hx (List.cons.inj heq).1
      rw [expect_ancestral_const h ids.length (emitted ++ [x]) hzero, mul_zero]
    · intro ht
      exact absurd (Finset.mem_range.2 (hids t List.mem_cons_self)) ht

/-! ## The acceptance decision -/

theorem expect_emitSuccessor {row : List ℝ} (h : Normalized vocab row) (accepted : List TokenId)
    (F : Except Error (List TokenId) → ℝ≥0∞) :
    (emitSuccessor accepted row).expect F =
      ∑ t ∈ range vocab, ENNReal.ofReal (row.getD t 0) * F (.ok (accepted ++ [t])) := by
  rw [emitSuccessor, expect_bind, expect_sample_normalized h]
  rfl

/-- One position of the acceptance loop. -/
theorem expect_verifyLoop_cons (hp : NormalizedRows vocab p) (hq : NormalizedRows vocab q)
    {draftProbs target : List (List ℝ)} {emitted drafts ds : List TokenId} {d i : Nat}
    (hqrow : draftProbs.getD i [] = q emitted) (hprow : target.getD i [] = p emitted)
    (htake : drafts.take i = emitted) (hd : d < vocab) (hpos : 0 < prob q emitted d)
    (F : Except Error (List TokenId) → ℝ≥0∞) :
    (verifyLoop draftProbs target i (d :: ds) >>= finish drafts).expect F =
      ENNReal.ofReal (min (prob p emitted d / prob q emitted d) 1) *
          (verifyLoop draftProbs target (i + 1) ds >>= finish drafts).expect F +
        ENNReal.ofReal (1 - min (prob p emitted d / prob q emitted d) 1) *
          ∑ t ∈ range vocab, ENNReal.ofReal (excess p q emitted t / excessMass p q vocab emitted) *
            F (.ok (emitted ++ [t])) := by
  have hlen : (p emitted).length = (q emitted).length :=
    (hp emitted).length.trans (hq emitted).length.symm
  have h0 : 0 ≤ min (prob p emitted d / prob q emitted d) 1 :=
    le_min (div_nonneg (prob_nonneg hp emitted d) hpos.le) zero_le_one
  set a := min (prob p emitted d / prob q emitted d) 1 with ha
  rw [verifyLoop, hqrow, hprow]
  dsimp only
  rw [if_neg (show ¬ (q emitted).getD d 0 = 0 from hpos.ne')]
  set rejected : Draw ℝ (Except Error (AcceptVerdict ℝ)) :=
    if (residual (p emitted) (q emitted)).sum ≤ 0 then
      pure (.error (specErr s!"verify_accept() invariant violated: residual mass at position {i} is zero; refusing to silently sample the target distribution"))
    else pure (.ok ⟨i, (residual (p emitted) (q emitted)).map
      (· / (residual (p emitted) (q emitted)).sum)⟩) with hrejected
  have hdraw : ∀ u : ℝ, ((if u < a then verifyLoop draftProbs target (i + 1) ds else rejected) >>=
      finish drafts).expect F =
      if u < a then (verifyLoop draftProbs target (i + 1) ds >>= finish drafts).expect F
      else (rejected >>= finish drafts).expect F := by
    intro u
    split
    · rfl
    · rfl
  show (∫⁻ u in Ico (0 : ℝ) 1, ((if u < a then verifyLoop draftProbs target (i + 1) ds
    else rejected) >>= finish drafts).expect F) = _
  rw [lintegral_congr hdraw, lintegral_below h0 (min_le_right _ _)]
  congr 1
  rcases eq_or_lt_of_le (min_le_right (prob p emitted d / prob q emitted d) 1) with h1 | h1
  · rw [ha, h1, sub_self, ENNReal.ofReal_zero, zero_mul, zero_mul]
  · congr 1
    have hlt : prob p emitted d < prob q emitted d := by
      rcases min_lt_iff.1 h1 with h | h
      · exact (div_lt_one hpos).1 h
      · exact absurd h (lt_irrefl _)
    have hmass : 0 < excessMass p q vocab emitted := by
      rw [excessMass_comm hp hq]
      refine lt_of_lt_of_le ?_ (excess_le_mass q p emitted hd)
      exact lt_max_of_lt_left (by linarith)
    rw [hrejected, if_neg (by rw [residual_sum hp hq]; exact not_le.2 hmass)]
    show (emitSuccessor (drafts.take i) _).expect F = _
    rw [htake, expect_emitSuccessor (normalized_residual hp hq hmass)]
    refine Finset.sum_congr rfl fun t _ => ?_
    congr 2
    rw [getD_div, residual_getD _ _ t hlen, residual_sum hp hq]
    rfl

/-! ## The law of a round -/

/-- The weight of the decision on `drafts` from position `i` on. -/
noncomputable def judgedFrom (p q : List TokenId → List ℝ)
    (F : Except Error (List TokenId) → ℝ≥0∞) (i : Nat) :
    Except Error (List TokenId) → ℝ≥0∞
  | .error e => F (.error e)
  | .ok drafts =>
    (verifyLoop (rowsAlong q [] drafts) (rowsAlong p [] drafts ++ [p drafts]) i (drafts.drop i) >>=
      finish drafts).expect F

theorem expect_judgedFrom (hp : NormalizedRows vocab p) (hq : NormalizedRows vocab q)
    (F : Except Error (List TokenId) → ℝ≥0∞) : ∀ (n : Nat) (emitted : List TokenId),
    (ancestral q n emitted).expect (judgedFrom p q F emitted.length) =
      specLaw p q vocab (fun ids => F (.ok ids)) n emitted
  | 0, emitted => by
    have hlen : (rowsAlong p [] emitted).length = emitted.length := rowsAlong_length _ _ _
    show (verifyLoop _ _ emitted.length (emitted.drop emitted.length) >>= finish emitted).expect F = _
    rw [List.drop_length, verifyLoop]
    show (emitSuccessor (emitted.take emitted.length) _).expect F = _
    rw [List.take_length, List.getD_eq_getElem?_getD, List.getElem?_append_right (by rw [hlen]), hlen,
      Nat.sub_self]
    exact expect_emitSuccessor (hp emitted) emitted F
  | n + 1, emitted => by
    set R := ∑ t ∈ range vocab, ENNReal.ofReal (excess p q emitted t / excessMass p q vocab emitted) *
      F (.ok (emitted ++ [t])) with hR
    -- the draft `d` at this position, accepted or not
    have hdraft : ∀ d ∈ range vocab, ENNReal.ofReal (prob q emitted d) *
        (ancestral q n (emitted ++ [d])).expect (judgedFrom p q F emitted.length) =
        ENNReal.ofReal (min (prob p emitted d) (prob q emitted d)) *
            specLaw p q vocab (fun ids => F (.ok ids)) n (emitted ++ [d]) +
          ENNReal.ofReal (excess q p emitted d) * R := by
      intro d hd
      have hd : d < vocab := Finset.mem_range.1 hd
      rcases eq_or_lt_of_le (prob_nonneg hq emitted d) with hzero | hpos
      · rw [← hzero, min_eq_right (prob_nonneg hp emitted d)]
        unfold excess
        rw [← hzero, max_eq_right (by linarith [prob_nonneg hp emitted d]), ENNReal.ofReal_zero,
          zero_mul, zero_mul, zero_mul, zero_add]
      · set a := min (prob p emitted d / prob q emitted d) 1 with ha
        have h0 : 0 ≤ a := le_min (div_nonneg (prob_nonneg hp emitted d) hpos.le) zero_le_one
        have hstep : (ancestral q n (emitted ++ [d])).expect (judgedFrom p q F emitted.length) =
            (ancestral q n (emitted ++ [d])).expect fun r =>
              ENNReal.ofReal a * judgedFrom p q F (emitted ++ [d]).length r +
                ENNReal.ofReal (1 - a) * R := by
          refine expect_ancestral_congr hq n (emitted ++ [d]) fun ids _ _ => ?_
          rw [← List.append_cons]
          have hqrow : (rowsAlong q [] (emitted ++ d :: ids)).getD emitted.length [] = q emitted := by
            have := rowsAlong_getD q emitted ids d []
            rwa [List.append_nil] at this
          have hprow := rowsAlong_getD p emitted ids d [p (emitted ++ d :: ids)]
          have hdrop : (emitted ++ d :: ids).drop (emitted ++ [d]).length = ids := by
            rw [List.append_cons emitted d ids, List.drop_left]
          unfold judgedFrom
          dsimp only
          rw [List.drop_left, hdrop, List.length_append]
          exact expect_verifyLoop_cons hp hq hqrow hprow List.take_left hd hpos F
        rw [hstep, expect_affine _ ENNReal.ofReal_ne_top, expect_judgedFrom hp hq F n,
          mul_add, ← mul_assoc, ← mul_assoc, ← ENNReal.ofReal_mul hpos.le,
          ← ENNReal.ofReal_mul hpos.le, mul_accept hpos]
        congr 3
        unfold excess
        rw [mul_sub, mul_one, mul_accept hpos]
        rcases le_total (prob p emitted d) (prob q emitted d) with hle | hle
        · rw [min_eq_left hle, max_eq_left (by linarith)]
        · rw [min_eq_right hle, max_eq_right (by linarith), sub_self]
    -- the rejected mass of the drafts is the mass of the residual
    have hreject : (∑ d ∈ range vocab, ENNReal.ofReal (excess q p emitted d)) * R =
        ∑ t ∈ range vocab, ENNReal.ofReal (excess p q emitted t) * F (.ok (emitted ++ [t])) := by
      have hmass : (∑ d ∈ range vocab, ENNReal.ofReal (excess q p emitted d)) =
          ENNReal.ofReal (excessMass p q vocab emitted) := by
        rw [excessMass_comm hp hq]
        exact (ENNReal.ofReal_sum_of_nonneg fun _ _ => le_max_right _ _).symm
      rw [hmass, hR, Finset.mul_sum]
      refine Finset.sum_congr rfl fun t ht => ?_
      have h0 : 0 ≤ excess p q emitted t := le_max_right _ _
      have hle := excess_le_mass p q emitted (Finset.mem_range.1 ht)
      rw [← mul_assoc, ← ENNReal.ofReal_mul (h0.trans hle)]
      rcases eq_or_lt_of_le (h0.trans hle) with hzero | hpos
      · rw [← hzero] at hle ⊢
        rw [le_antisymm hle h0, zero_mul]
      · rw [mul_div_cancel₀ _ hpos.ne']
    rw [expect_ancestral_succ hq, Finset.sum_congr rfl hdraft, Finset.sum_add_distrib,
      ← Finset.sum_mul, hreject, ← Finset.sum_add_distrib]
    rfl

/-- The checks of the decision pass on what the draft loop can yield. -/
theorem judge_eq (hp : NormalizedRows vocab p) (hq : NormalizedRows vocab q)
    (validateValues : Bool) {drafts : List TokenId} (hdrafts : ∀ t ∈ drafts, t < vocab)
    (F : Except Error (List TokenId) → ℝ≥0∞) :
    (judge validateValues p q drafts).expect F = judgedFrom p q F 0 (.ok drafts) := by
  have hrows : ∀ {rows : List TokenId → List ℝ}, NormalizedRows vocab rows →
      ∀ ids emitted, ∀ row ∈ rowsAlong rows emitted ids, Normalized vocab row := by
    intro rows h ids
    induction ids with
    | nil => intro emitted row hrow; cases hrow
    | cons t ids ih =>
      intro emitted row hrow
      rcases List.mem_cons.1 hrow with rfl | hrow
      · exact h emitted
      · exact ih _ row hrow
  unfold judge verifyAcceptInner
  rw [validateSpeculativeInputs_ok hdrafts (rowsAlong_length q [] drafts)
    (by rw [List.length_append, rowsAlong_length]; rfl) (hrows hq drafts [])]
  · rfl
  · intro row hrow
    rcases List.mem_append.1 hrow with hrow | hrow
    · exact hrows hp drafts [] row hrow
    · rw [List.mem_singleton.1 hrow]
      exact hp drafts

/-- The law of a round. -/
theorem expect_speculate (hp : NormalizedRows vocab p) (hq : NormalizedRows vocab q)
    (validateValues : Bool) (k : Nat) (F : Except Error (List TokenId) → ℝ≥0∞) :
    (speculate validateValues p q k).expect F = specLaw p q vocab (fun ids => F (.ok ids)) k [] := by
  rw [← expect_judgedFrom hp hq F k []]
  unfold speculate
  rw [expect_bind]
  refine expect_ancestral_congr hq k [] fun ids _ hids => ?_
  exact judge_eq hp hq validateValues (by simpa using hids) F

/-- Extended by ancestral sampling, the emitted tokens are an ancestral sample. -/
theorem specLaw_ancestral (hp : NormalizedRows vocab p) (hq : NormalizedRows vocab q)
    {total : Nat} (F : Except Error (List TokenId) → ℝ≥0∞) : ∀ (n : Nat) (emitted : List TokenId),
    emitted.length + n + 1 = total →
    specLaw p q vocab (fun ids => (completeTo p total (.ok ids)).expect F) n emitted =
      (ancestral p (n + 1) emitted).expect F
  | 0, emitted, htotal => by
    rw [expect_ancestral_succ hp]
    refine Finset.sum_congr rfl fun t _ => ?_
    show _ * (ancestral p (total - (emitted ++ [t]).length) (emitted ++ [t])).expect F = _
    rw [List.length_append, List.length_singleton, ← htotal, Nat.add_zero, Nat.sub_self]
  | n + 1, emitted, htotal => by
    rw [expect_ancestral_succ hp]
    refine Finset.sum_congr rfl fun t _ => ?_
    have hlen : (emitted ++ [t]).length + n + 1 = total := by
      rw [List.length_append, List.length_singleton]
      omega
    rw [specLaw_ancestral hp hq F n (emitted ++ [t]) hlen]
    show _ + _ * (ancestral p (total - (emitted ++ [t]).length) (emitted ++ [t])).expect F = _
    rw [show total - (emitted ++ [t]).length = n + 1 by omega, ← add_mul,
      ofReal_min_add_excess hp hq]

/-- Speculative sampling preserves the target distribution, for every vocabulary, every number of
drafts and every history-dependent rows: extended by ancestral sampling to `k + 1` tokens, what a
round emits has the law of ancestral sampling from the target, the product of its conditionals;
each emitted token, given the ones before it and that the round goes on, is drawn from the target
row; and the error branches have probability zero. -/
theorem speculative_sampling_preserves_target (hp : NormalizedRows vocab p)
    (hq : NormalizedRows vocab q) (validateValues : Bool) (k : Nat) :
    (∀ F, (speculate validateValues p q k >>= completeTo p (k + 1)).expect F =
        (ancestral p (k + 1) []).expect F) ∧
      (∀ ids : List TokenId, ids.length = k + 1 → (∀ t ∈ ids, t < vocab) →
        (speculate validateValues p q k >>= completeTo p (k + 1)).expect (weightOf (· = ids)) =
          ENNReal.ofReal (jointProb p [] ids)) ∧
      (∀ (prior : List TokenId) (t : TokenId), t < vocab →
        (speculate validateValues p q k).expect (weightOf (prior ++ [t] <+: ·)) =
          (speculate validateValues p q k).expect (weightOf (Extends prior)) *
            ENNReal.ofReal (prob p prior t)) ∧
      (speculate validateValues p q k).expect (fun r => if r.isOk then 0 else 1) = 0 := by
  have hlaw : ∀ F, (speculate validateValues p q k >>= completeTo p (k + 1)).expect F =
      (ancestral p (k + 1) []).expect F := by
    intro F
    rw [expect_bind, expect_speculate hp hq]
    exact specLaw_ancestral hp hq F k [] (by simp)
  refine ⟨hlaw, ?_, ?_, ?_⟩
  · intro ids hlen hids
    rw [hlaw, ← hlen, ← expect_ancestral_eq hp ids [] hids]
    refine expect_ancestral_congr hp ids.length [] fun ids' _ _ => ?_
    rw [List.nil_append, List.nil_append]
    by_cases heq : ids' = ids
    · rw [weightOf_ok_true (P := (· = ids)) heq, if_pos (by rw [heq])]
    · rw [weightOf_ok_false (P := (· = ids)) heq, if_neg (fun h => heq (Except.ok.inj h))]
  · intro prior t ht
    rw [expect_speculate hp hq, expect_speculate hp hq]
    exact specLaw_next hp hq ht prior k []
  · rw [expect_speculate hp hq]
    exact specLaw_const hp hq k [] fun _ _ => rfl

end Laws

/-- A fair target and a skewed draft model over two tokens: with one draft, a round followed by
ancestral sampling yields `[1, 0]` with probability 1/4. -/
theorem speculative_sampling_fair_coin :
    letI : ToString ℝ := ⟨fun _ => "p"⟩
    (speculate true (fun _ => [1 / 2, 1 / 2]) (fun _ => [1 / 4, 3 / 4]) 1 >>=
        completeTo (fun _ => [1 / 2, 1 / 2]) 2).expect (weightOf (· = [1, 0])) =
      ENNReal.ofReal (1 / 2 * (1 / 2 * 1)) := by
  let _ : ToString ℝ := ⟨fun _ => "p"⟩
  have hp : NormalizedRows 2 (fun _ => [(1 : ℝ) / 2, 1 / 2]) := by
    intro emitted
    refine ⟨rfl, ?_, by norm_num⟩
    intro x hx
    simp only [List.mem_cons, List.not_mem_nil, or_false, or_self] at hx
    rw [hx]
    norm_num
  have hq : NormalizedRows 2 (fun _ => [(1 : ℝ) / 4, 3 / 4]) := by
    intro emitted
    refine ⟨rfl, ?_, by norm_num⟩
    intro x hx
    simp only [List.mem_cons, List.not_mem_nil, or_false] at hx
    rcases hx with rfl | rfl
    · norm_num
    · norm_num
  exact (speculative_sampling_preserves_target hp hq true 1).2.1 [1, 0] rfl (by decide)

end ExactSampling

end Emelex
