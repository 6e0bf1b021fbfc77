import Emelex.Engine.SamplerFilters
import Emelex.Engine.SpeculativeSampling

/-!
# One-shot and staged sampling

`sample` draws from the filtered row as it is, and the staged sampler normalizes the row (`probs`)
before it draws (`sample_from_probs`).  With exact numbers both walk to the same token.

* `cdfWalk_spec` — where the walk stops.
* `cdfWalk_div` — the walk does not depend on the scale.

Principal results: `sample_eq` (the one-shot sampler is a draw from the filtered row), `probs_eq`
(the row of the staged sampler) and `samplers_agree`.
-/

set_option autoImplicit false

namespace Emelex

open Draws
open scoped ENNReal

namespace ExactSampling

variable {K : Type} [Field K]

theorem sum_map_div (row : List K) (c : K) : (row.map (· / c)).sum = row.sum / c := by
  simp only [div_eq_mul_inv]
  rw [List.sum_map_mul_right, List.map_id']

variable [LinearOrder K]

section walk

variable [IsStrictOrderedRing K]

/-! ## The walk -/

/-- The walk stops at an entry with mass, where the cumulative sum passes the number. -/
theorem cdfWalk_spec (row : List K) (i : Nat) (d : K) (hrow : ∀ p ∈ row, 0 ≤ p)
    (hsum : 0 < row.sum) (hd0 : 0 ≤ d) (hd : d ≤ row.sum) :
    ∃ t p, cdfWalk row i d = some (i + t) ∧ row[t]? = some p ∧ 0 < p ∧
      (row.take t).sum ≤ d ∧ d ≤ (row.take (t + 1)).sum := by
  induction row generalizing i d with
  | nil => exact absurd hsum (lt_irrefl _)
  | cons p row ih =>
    rw [List.sum_cons] at hsum hd
    unfold cdfWalk
    split
    · rename_i hstop
      refine ⟨0, p, rfl, rfl, hstop.1, hd0, ?_⟩
      rw [List.take_succ_cons, List.take_zero, List.sum_singleton]
      linarith [hstop.2]
    · rename_i hgo
      have hp := hrow p List.mem_cons_self
      -- the entry has no mass, or the number lies beyond it
      have hnext : 0 ≤ d - p ∧ 0 < row.sum := by
        rcases hp.eq_or_lt with hzero | hpos
        · rw [← hzero] at hsum ⊢
          rw [zero_add] at hsum
          exact ⟨by rwa [sub_zero], hsum⟩
        · have hlt : 0 < d - p := not_le.1 fun hle => hgo ⟨hpos, hle⟩
          exact ⟨hlt.le, by linarith⟩
      obtain ⟨t, q, hwalk, hq, hq0, hlow, hhigh⟩ := ih (i + 1) (d - p)
        (fun x hx => hrow x (List.mem_cons_of_mem _ hx)) hnext.2 hnext.1 (by linarith)
      refine ⟨t + 1, q, by rw [hwalk, Nat.add_assoc, Nat.add_comm 1 t], hq, hq0, ?_, ?_⟩
      · rw [List.take_succ_cons, List.sum_cons]
        linarith
      · rw [List.take_succ_cons, List.sum_cons]
        linarith

/-- The walk over a scaled row with a scaled number is the same. -/
theorem cdfWalk_div {c : K} (hc : 0 < c) (row : List K) (i : Nat) (d : K) :
    cdfWalk (row.map (· / c)) i (d / c) = cdfWalk row i d := by
  induction row generalizing i d with
  | nil => rfl
  | cons p row ih =>
    have hstop : (0 < p / c ∧ d / c - p / c ≤ 0) ↔ (0 < p ∧ d - p ≤ 0) := by
      rw [← sub_div, div_pos_iff_of_pos_right hc, div_le_iff₀ hc, zero_mul]
    rw [List.map_cons]
    unfold cdfWalk
    simp only [hstop]
    rw [← sub_div, ih]

end walk

/-! ## The samplers as draws -/

variable [ToString K] {Logits : Type} {ops : LogitOps K Logits} {config : SamplingConfig K}
  {logits : Logits} {row : List K}

theorem validateProbabilityMass_ok {caller stage : String} (hrow : ∀ p ∈ row, 0 ≤ p)
    (hsum : 0 < row.sum) : validateProbabilityMass row caller stage = .ok row.sum := by
  unfold validateProbabilityMass
  rw [firstInvalid_none row 0 hrow]
  exact if_neg (not_le.2 hsum)

theorem sampleFromProbs_eq (hrow : ∀ p ∈ row, 0 ≤ p) (hsum : 0 < row.sum) :
    sampleFromProbs row = Draw.uniform >>= fun u =>
      pure (.ok ((cdfWalk row 0 (u * row.sum)).getD (bestIndex row))) := by
  have hne : row ≠ [] := by
    rintro rfl
    exact lt_irrefl _ hsum
  unfold sampleFromProbs
  rw [if_neg hne, firstInvalid_none row 0 hrow]
  exact if_neg (not_le.2 hsum)

variable [IsStrictOrderedRing K]

/-- What both samplers need of the softmax row. -/
structure SoftmaxRow (ops : LogitOps K Logits) (config : SamplingConfig K) (logits : Logits)
    (row : List K) : Prop where
  sampled : 0 < config.temperature
  softmax : ops.softmax (1 / config.temperature) logits = .ok row
  nonneg : ∀ p ∈ row, 0 ≤ p
  mass : 0 < row.sum

omit [ToString K] [IsStrictOrderedRing K] in
theorem SoftmaxRow.exists_pos (h : SoftmaxRow ops config logits row) : ∃ p ∈ row, 0 < p := by
  by_contra hno
  have hzero : row.sum = 0 := List.sum_eq_zero fun p hp =>
    le_antisymm (not_lt.1 fun hp0 => hno ⟨p, hp, hp0⟩) (h.nonneg p hp)
  exact absurd h.mass (not_lt.2 hzero.le)

omit [ToString K] in
theorem SoftmaxRow.filtered (h : SoftmaxRow ops config logits row) :
    (∀ p ∈ config.filter row, 0 ≤ p) ∧ 0 < (config.filter row).sum := by
  obtain ⟨keep, hmask, htop⟩ := filter_spec config h.exists_pos
  exact ⟨hmask.nonneg h.nonneg, hmask.sum_pos htop h.nonneg h.exists_pos⟩

/-- The one-shot sampler draws from the filtered row. -/
theorem sample_eq (h : SoftmaxRow ops config logits row) :
    sample ops config logits = sampleFromProbs (config.filter row) := by
  obtain ⟨hnonneg, hsum⟩ := h.filtered
  rw [sampleFromProbs_eq hnonneg hsum]
  unfold sample
  rw [if_neg (not_le.2 h.sampled), h.softmax]
  dsimp only
  rw [validateProbabilityMass_ok h.nonneg h.mass]
  exact if_neg (not_le.2 hsum)

/-- The staged sampler normalizes the filtered row. -/
theorem probs_eq (h : SoftmaxRow ops config logits row) (hshape : (ops.shape logits).length = 1) :
    probs ops config logits =
      .ok ((config.filter row).map (· / (config.filter row).sum)) := by
  obtain ⟨hnonneg, hsum⟩ := h.filtered
  unfold probs
  dsimp only
  rw [if_neg (not_le.2 h.sampled), if_neg (not_not.2 hshape), h.softmax]
  unfold filterAndNormalizeProbabilityRow
  show (validateProbabilityMass row "probs()" "softmax" >>= fun _ => _) = _
  rw [validateProbabilityMass_ok h.nonneg h.mass]
  show (validateProbabilityMass (config.filter row) "probs()" "post-filter" >>= fun _ => _) = _
  rw [validateProbabilityMass_ok hnonneg hsum]
  rfl

/-! ## Agreement -/

/-- A token that a number picks: it has mass, and the number lies in its share of the cumulative
mass. -/
structure Picked (kept : List K) (u : K) (t : TokenId) (p : K) : Prop where
  entry : kept[t]? = some p
  mass : 0 < p
  before : (kept.take t).sum ≤ u * kept.sum
  through : u * kept.sum ≤ (kept.take (t + 1)).sum

/-- Both samplers pick the same token with the same number. -/
theorem SoftmaxRow.run_eq (h : SoftmaxRow ops config logits row) (g : Nat → K) (h0 : 0 ≤ g 0)
    (h1 : g 0 < 1) :
    ∃ t p, Picked (config.filter row) (g 0) t p ∧
      (sample ops config logits).run g = (.ok t, fun n => g (n + 1)) ∧
      (sampleFromProbs ((config.filter row).map (· / (config.filter row).sum))).run g =
        (.ok t, fun n => g (n + 1)) := by
  obtain ⟨hnonneg, hsum⟩ := h.filtered
  have hone : ((config.filter row).map (· / (config.filter row).sum)).sum = 1 := by
    rw [sum_map_div, div_self hsum.ne']
  obtain ⟨t, p, hwalk, hp, hp0, hlow, hhigh⟩ := cdfWalk_spec (config.filter row) 0
    (g 0 * (config.filter row).sum) hnonneg hsum (mul_nonneg h0 hsum.le)
    (mul_le_of_le_one_left hsum.le h1.le)
  rw [Nat.zero_add] at hwalk
  have hscaled : cdfWalk ((config.filter row).map (· / (config.filter row).sum)) 0 (g 0 * 1) =
      some t := by
    have hdiv := cdfWalk_div hsum (config.filter row) 0 (g 0 * (config.filter row).sum)
    rw [mul_div_assoc, div_self hsum.ne', hwalk] at hdiv
    exact hdiv
  refine ⟨t, p, ⟨hp, hp0, hlow, hhigh⟩, ?_, ?_⟩
  · rw [sample_eq h, sampleFromProbs_eq hnonneg hsum, Draw.run_bind]
    show (Except.ok ((cdfWalk _ 0 (g 0 * _)).getD _), _) = _
    rw [hwalk]
    rfl
  · rw [sampleFromProbs_eq (fun q hq => ?_) (by rw [hone]; exact one_pos), Draw.run_bind, hone]
    · show (Except.ok ((cdfWalk _ 0 (g 0 * 1)).getD _), _) = _
      rw [hscaled]
      rfl
    · obtain ⟨r, hr, rfl⟩ := List.mem_map.1 hq
      exact div_nonneg (hnonneg r hr) hsum.le

open Finset in
/-- On every softmax row with mass and for all filters: what is kept holds the most probable token
and is closed upwards, so that it has mass; both samplers pick the same token with every number, a
token that is kept; and they draw a token with its share of what is kept. -/
theorem samplers_agree {Logits : Type} [ToString ℝ] {ops : LogitOps ℝ Logits}
    {config : SamplingConfig ℝ} {logits : Logits} {row : List ℝ}
    (h : SoftmaxRow ops config logits row) (hshape : (ops.shape logits).length = 1) :
    (∃ keep, Masked keep row (config.filter row) ∧ KeepsTop keep row) ∧
      0 < (config.filter row).sum ∧
      probs ops config logits =
        .ok ((config.filter row).map (· / (config.filter row).sum)) ∧
      (∀ g : Nat → ℝ, 0 ≤ g 0 → g 0 < 1 → ∃ t p, Picked (config.filter row) (g 0) t p ∧
        (sample ops config logits).run g = (.ok t, fun n => g (n + 1)) ∧
        (sampleFromProbs ((config.filter row).map (· / (config.filter row).sum))).run g =
          (.ok t, fun n => g (n + 1))) ∧
      ∀ F : Except Error TokenId → ℝ≥0∞,
        (sample ops config logits).expect F =
          ∑ t ∈ range row.length,
            ENNReal.ofReal ((config.filter row).getD t 0 / (config.filter row).sum) * F (.ok t) ∧
        (sampleFromProbs ((config.filter row).map (· / (config.filter row).sum))).expect F =
          (sample ops config logits).expect F := by
  obtain ⟨keep, hmask, htop⟩ := filter_spec config h.exists_pos
  obtain ⟨hnonneg, hsum⟩ := h.filtered
  have hlaw : ∀ F : Except Error TokenId → ℝ≥0∞, (sample ops config logits).expect F =
      ∑ t ∈ range row.length,
        ENNReal.ofReal ((config.filter row).getD t 0 / (config.filter row).sum) * F (.ok t) := by
    intro F
    rw [sample_eq h, expect_sampleFromProbs hnonneg hsum, hmask.length]
  refine ⟨⟨keep, hmask, htop⟩, hsum, probs_eq h hshape, h.run_eq, fun F => ⟨hlaw F, ?_⟩⟩
  have hone : ((config.filter row).map (· / (config.filter row).sum)).sum = 1 := by
    rw [sum_map_div, div_self hsum.ne']
  rw [hlaw, expect_sampleFromProbs (fun q hq => ?_) (by rw [hone]; exact one_pos), List.length_map,
    hmask.length]
  · simp only [getD_div, hone, div_one]
  · obtain ⟨r, hr, rfl⟩ := List.mem_map.1 hq
    exact div_nonneg (hnonneg r hr) hsum.le

/-- Two tied tokens above a third, with both filters on. -/
theorem samplers_agree_ties :
    letI : ToString ℝ := ⟨fun _ => "p"⟩
    let config : SamplingConfig ℝ := ⟨1, 1 / 2, some 2⟩
    let row : List ℝ := [1 / 5, 2 / 5, 2 / 5]
    0 < (config.filter row).sum ∧
      probs (⟨fun _ => [3], fun _ => .ok 1, fun _ _ => .ok row⟩ : LogitOps ℝ Unit) config () =
        .ok ((config.filter row).map (· / (config.filter row).sum)) := by
  let _ : ToString ℝ := ⟨fun _ => "p"⟩
  have h := @samplers_agree Unit _ ⟨fun _ => [3], fun _ => .ok 1, fun _ _ => .ok [1 / 5, 2 / 5, 2 / 5]⟩
    ⟨1, 1 / 2, some 2⟩ () [1 / 5, 2 / 5, 2 / 5] ⟨one_pos, rfl, by simp; norm_num, by norm_num⟩ rfl
  exact ⟨h.2.1, h.2.2.1⟩

end ExactSampling

end Emelex
