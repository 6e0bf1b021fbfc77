import Mathlib.Algebra.Order.BigOperators.Group.List
import Mathlib.Data.List.Nodup
import Mathlib.Tactic.Linarith
import Emelex.Engine.ExactSampling

/-!
# The filters of the sampler (`engine/sampling.rs`)

The one-shot sampler and the staged one, from the logits on.  The device operations are a
parameter; the filters and the walk are the source's, with exact numbers.

* `topKFilter`, `topPFilter` — zeroing by the `k`-th largest entry, and by the sorted cumulative
  mass.
* `sample` — the one-shot sampler; `probs` — the row that `sample_from_probs` is given.
* `Masked`, `KeepsTop` — a row with zeros outside a set, and a set that holds the first most
  probable token and everything above what it holds.

Principal results: `topKFilter_spec`, `topPFilter_spec` and `filter_spec` (the filters keep such a
set), `filter_sum_pos` (mass is left).
-/

set_option autoImplicit false

namespace Emelex

open Draws

namespace ExactSampling

/-! ## The filters -/

section ranks

variable {α : Type} [LinearOrder α]

/-- The order of `top_p_filter`. -/
def moreProbable (a b : α × Nat) : Bool := decide (b.1 ≤ a.1)

/-- The entries in decreasing order, with their indices; the sort is stable. -/
def ranked (probs : List α) : List (α × Nat) := probs.zipIdx.mergeSort moreProbable

end ranks

variable {K : Type} [Field K] [LinearOrder K]

/-- `top_k_filter`; the selection is that of position `k - 1` in decreasing order. -/
def topKFilter (probs : List K) (k : Nat) : List K :=
  if k = 0 ∨ probs.length ≤ k then probs
  else
    let threshold := (probs.mergeSort fun a b => decide (b ≤ a)).getD (k - 1) 0
    probs.map fun p => if p < threshold then 0 else p

/-- The ranks before the cutoff of `top_p_filter`, from rank `rank` on. -/
def cutoff (topP total : K) : List (K × Nat) → K → Nat → Nat
  | [], _, rank => rank
  | (p, _) :: rest, cumulative, rank =>
    let cumulative := cumulative + p / total
    if topP ≤ cumulative then rank + 1 else cutoff topP total rest cumulative (rank + 1)

/-- `top_p_filter`. -/
def topPFilter (probs : List K) (topP : K) : List K :=
  let indexed := ranked probs
  let total := probs.sum
  if total ≤ 0 then probs
  else
    let keep := (indexed.take (cutoff topP total indexed 0 0)).map Prod.snd
    probs.zipIdx.map fun x => if x.2 ∈ keep then x.1 else 0

/-- `SamplingConfig`, with exact numbers and without the seed. -/
structure SamplingConfig (K : Type) where
  temperature : K
  topP : K
  topK : Option Int

/-- The filters as both samplers apply them. -/
def SamplingConfig.filter (config : SamplingConfig K) (probs : List K) : List K :=
  let probs :=
    match config.topK with
    | some k => if 0 < k then topKFilter probs k.toNat else probs
    | none => probs
  if config.topP < 1 then topPFilter probs config.topP else probs

/-! ## What a filter keeps -/

section masks

variable {α : Type}

section

variable [Zero α]

/-- `kept` is `row` with zeros outside `keep`. -/
structure Masked (keep : Nat → Prop) (row kept : List α) : Prop where
  length : kept.length = row.length
  at_keep : ∀ i p, keep i → row[i]? = some p → kept[i]? = some p
  off_keep : ∀ i p, ¬ keep i → row[i]? = some p → kept[i]? = some 0

theorem Masked.refl (row : List α) : Masked (fun _ => True) row row :=
  ⟨rfl, fun _ _ _ h => h, fun _ _ h => absurd trivial h⟩

/-- An entry of a masked row is an entry of the row or zero. -/
theorem Masked.mem {keep : Nat → Prop} {row kept : List α} (h : Masked keep row kept) {p : α}
    (hp : p ∈ kept) : p ∈ row ∨ p = 0 := by
  obtain ⟨i, hi⟩ := List.getElem?_of_mem hp
  obtain ⟨q, hq⟩ : ∃ q, row[i]? = some q :=
    ⟨_, List.getElem?_eq_getElem (h.length ▸ (List.getElem?_eq_some_iff.1 hi).1)⟩
  by_cases hk : keep i
  · have hkept := h.at_keep i q hk hq
    rw [hi] at hkept
    obtain rfl := Option.some.inj hkept
    exact .inl (List.mem_of_getElem? hq)
  · have hzero := h.off_keep i q hk hq
    rw [hi] at hzero
    exact .inr (Option.some.inj hzero)

theorem Masked.trans {keep₁ keep₂ : Nat → Prop} {row row₁ row₂ : List α}
    (h₁ : Masked keep₁ row row₁) (h₂ : Masked keep₂ row₁ row₂) :
    Masked (fun i => keep₁ i ∧ keep₂ i) row row₂ where
  length := h₂.length.trans h₁.length
  at_keep i p hk hp := h₂.at_keep i p hk.2 (h₁.at_keep i p hk.1 hp)
  off_keep i p hk hp := by
    by_cases hk₁ : keep₁ i
    · exact h₂.off_keep i p (fun hk₂ => hk ⟨hk₁, hk₂⟩) (h₁.at_keep i p hk₁ hp)
    · have hzero := h₁.off_keep i p hk₁ hp
      by_cases hk₂ : keep₂ i
      · exact h₂.at_keep i 0 hk₂ hzero
      · exact h₂.off_keep i 0 hk₂ hzero

end

section

variable [LinearOrder α]

/-- The first index of the largest entry. -/
def FirstMax (row : List α) (i : Nat) : Prop :=
  ∃ m, row[i]? = some m ∧ (∀ p ∈ row, p ≤ m) ∧ ∀ j p, j < i → row[j]? = some p → p < m

/-- The set holds the first most probable token, and with a token every one that is strictly more
probable. -/
structure KeepsTop (keep : Nat → Prop) (row : List α) : Prop where
  argmax : ∀ i, FirstMax row i → keep i
  upward : ∀ i j p q, keep i → row[i]? = some p → row[j]? = some q → p < q → keep j

theorem KeepsTop.all (row : List α) : KeepsTop (fun _ => True) row :=
  ⟨fun _ _ => trivial, fun _ _ _ _ _ _ _ _ => trivial⟩

/-- A non-empty row has a first largest entry. -/
theorem exists_firstMax {row : List α} (h : row ≠ []) : ∃ i, FirstMax row i := by
  induction row with
  | nil => exact absurd rfl h
  | cons p row ih =>
    by_cases hrow : row = []
    · subst hrow
      refine ⟨0, p, rfl, fun q hq => ?_, fun j q hj => absurd hj (Nat.not_lt_zero j)⟩
      rw [List.mem_singleton.1 hq]
    · obtain ⟨i, m, hm, hmax, hfirst⟩ := ih hrow
      by_cases hp : m ≤ p
      · refine ⟨0, p, rfl, fun q hq => ?_, fun j q hj => absurd hj (Nat.not_lt_zero j)⟩
        rcases List.mem_cons.1 hq with rfl | hq
        · exact le_refl _
        · exact (hmax q hq).trans hp
      · have hlt := not_le.1 hp
        refine ⟨i + 1, m, hm, fun q hq => ?_, fun j q hj hq => ?_⟩
        · rcases List.mem_cons.1 hq with rfl | hq
          · exact hlt.le
          · exact hmax q hq
        · cases j with
          | zero => exact (Option.some.inj hq) ▸ hlt
          | succ j => exact hfirst j q (Nat.lt_of_succ_lt_succ hj) hq

end

variable [Zero α] [LinearOrder α]

theorem Masked.nonneg {keep : Nat → Prop} {row kept : List α} (h : Masked keep row kept)
    (hrow : ∀ p ∈ row, 0 ≤ p) : ∀ p ∈ kept, 0 ≤ p := by
  intro p hp
  rcases h.mem hp with hp | rfl
  · exact hrow p hp
  · exact le_refl _

/-- A filter after a filter. -/
theorem KeepsTop.trans {keep₁ keep₂ : Nat → Prop} {row row₁ : List α} (h₁ : KeepsTop keep₁ row)
    (hmask : Masked keep₁ row row₁) (h₂ : KeepsTop keep₂ row₁)
    (hpos : ∃ p ∈ row, 0 < p) : KeepsTop (fun i => keep₁ i ∧ keep₂ i) row where
  argmax i hi := by
    have hk₁ := h₁.argmax i hi
    obtain ⟨m, hm, hmax, hfirst⟩ := hi
    obtain ⟨p, hp, hp0⟩ := hpos
    have hm0 : 0 < m := hp0.trans_le (hmax p hp)
    refine ⟨hk₁, h₂.argmax i ⟨m, hmask.at_keep i m hk₁ hm, fun q hq => ?_, fun j q hj hq => ?_⟩⟩
    · rcases hmask.mem hq with hq | rfl
      · exact hmax q hq
      · exact hm0.le
    · obtain ⟨r, hr⟩ : ∃ r, row[j]? = some r :=
        ⟨_, List.getElem?_eq_getElem (hmask.length ▸ (List.getElem?_eq_some_iff.1 hq).1)⟩
      by_cases hk : keep₁ j
      · rw [hmask.at_keep j r hk hr] at hq
        exact Option.some.inj hq ▸ hfirst j r hj hr
      · rw [hmask.off_keep j r hk hr] at hq
        exact Option.some.inj hq ▸ hm0
  upward i j p q hk hp hq hlt :=
    have hj := h₁.upward i j p q hk.1 hp hq hlt
    ⟨hj, h₂.upward i j p q hk.2 (hmask.at_keep i p hk.1 hp) (hmask.at_keep j q hj hq) hlt⟩

end masks

/-- What a filter leaves of a row with mass has mass. -/
theorem Masked.sum_pos [IsStrictOrderedRing K] {keep : Nat → Prop} {row kept : List K}
    (h : Masked keep row kept) (htop : KeepsTop keep row) (hrow : ∀ p ∈ row, 0 ≤ p)
    (hpos : ∃ p ∈ row, 0 < p) : 0 < kept.sum := by
  obtain ⟨p, hp, hp0⟩ := hpos
  obtain ⟨i, hi⟩ := exists_firstMax (List.ne_nil_of_mem hp)
  have hk := htop.argmax i hi
  obtain ⟨m, hm, hmax, -⟩ := hi
  have hmem := List.mem_of_getElem? (h.at_keep i m hk hm)
  exact (hp0.trans_le (hmax p hp)).trans_le (List.single_le_sum (h.nonneg hrow) m hmem)

/-! ### Top-k -/

omit [Field K] in
theorem KeepsTop.threshold {row : List K} {t : K} (ht : t ∈ row) :
    KeepsTop (fun i => ∀ p, row[i]? = some p → t ≤ p) row where
  argmax i hi := by
    obtain ⟨m, hm, hmax, -⟩ := hi
    intro p hp
    rw [hm] at hp
    exact Option.some.inj hp ▸ hmax t ht
  upward i j p q hk hp hq hlt := by
    intro r hr
    rw [hq] at hr
    exact Option.some.inj hr ▸ (hk p hp).trans hlt.le

theorem topKFilter_spec (row : List K) (k : Nat) :
    ∃ keep, Masked keep row (topKFilter row k) ∧ KeepsTop keep row := by
  unfold topKFilter
  split
  · exact ⟨_, Masked.refl row, KeepsTop.all row⟩
  · rename_i hk
    rw [not_or, Nat.not_le] at hk
    dsimp only
    generalize ht : (row.mergeSort fun a b => decide (b ≤ a)).getD (k - 1) 0 = t
    have hmem : t ∈ row := by
      have hlt : k - 1 < (row.mergeSort fun a b => decide (b ≤ a)).length := by
        rw [List.length_mergeSort]
        omega
      rw [List.getD_eq_getElem?_getD, List.getElem?_eq_getElem hlt, Option.getD_some] at ht
      exact List.mem_mergeSort.1 (ht ▸ List.getElem_mem hlt)
    refine ⟨_, ⟨List.length_map _, fun i p hkeep hp => ?_, fun i p hkeep hp => ?_⟩,
      KeepsTop.threshold hmem⟩
    · rw [List.getElem?_map, hp, Option.map_some, if_neg (not_lt.2 (hkeep p hp))]
    · have hlt : p < t := by
        by_contra hle
        refine hkeep fun q hq => ?_
        rw [hp] at hq
        exact Option.some.inj hq ▸ not_lt.1 hle
      rw [List.getElem?_map, hp, Option.map_some, if_pos hlt]

/-! ### Top-p -/

section ranks

variable {α : Type} [LinearOrder α]

theorem mem_ranked {row : List α} {p : α} {i : Nat} :
    (p, i) ∈ ranked row ↔ row[i]? = some p := by
  unfold ranked
  rw [List.mem_mergeSort, List.mem_zipIdx_iff_getElem?]

theorem moreProbable_trans (a b c : α × Nat) (hab : moreProbable a b = true)
    (hbc : moreProbable b c = true) : moreProbable a c = true :=
  decide_eq_true ((of_decide_eq_true hbc).trans (of_decide_eq_true hab))

theorem moreProbable_total (a b : α × Nat) : (moreProbable a b || moreProbable b a) = true := by
  unfold moreProbable
  rw [Bool.or_eq_true, decide_eq_true_iff, decide_eq_true_iff]
  exact (le_total a.1 b.1).symm

theorem ranked_pairwise (row : List α) : (ranked row).Pairwise fun a b => b.1 ≤ a.1 :=
  (List.pairwise_mergeSort moreProbable_trans moreProbable_total _).imp fun h => of_decide_eq_true h

theorem ranked_nodup (row : List α) : (ranked row).Nodup := by
  unfold ranked
  rw [(List.mergeSort_perm _ _).nodup_iff]
  refine List.Nodup.of_map Prod.snd ?_
  rw [List.zipIdx_map_snd]
  exact List.nodup_range'

omit [LinearOrder α] in
/-- An earlier element and a later one are a sublist. -/
theorem pair_sublist {l : List α} {i j : Nat} {a b : α} (hij : i < j)
    (ha : l[i]? = some a) (hb : l[j]? = some b) : [a, b].Sublist l := by
  have hbefore : a ∈ l.take j := List.mem_of_getElem? (by rw [List.getElem?_take_of_lt hij]; exact ha)
  have hafter : b ∈ l.drop j := List.mem_of_getElem? (i := 0) (by
    rw [List.getElem?_drop, Nat.add_zero]
    exact hb)
  rw [← List.take_append_drop j l]
  exact (List.singleton_sublist.2 hbefore).append (List.singleton_sublist.2 hafter)

/-- The first most probable token has rank 0, since the sort is stable. -/
theorem ranked_head {row : List α} {i : Nat} {m : α} (hm : row[i]? = some m)
    (hmax : ∀ p ∈ row, p ≤ m) (hfirst : ∀ j p, j < i → row[j]? = some p → p < m) :
    ∃ rest, ranked row = (m, i) :: rest := by
  have hmem : (m, i) ∈ ranked row := mem_ranked.2 hm
  have hsorted := ranked_pairwise row
  have hnodup := ranked_nodup row
  cases hr : ranked row with
  | nil =>
    rw [hr] at hmem
    cases hmem
  | cons x rest =>
    obtain ⟨q, j⟩ := x
    rw [hr] at hmem hsorted hnodup
    rcases List.mem_cons.1 hmem with heq | hrest
    · exact ⟨rest, by rw [heq]⟩
    · exfalso
      have hq : row[j]? = some q := mem_ranked.1 (by rw [hr]; exact List.mem_cons_self)
      have hqm : m ≤ q := (List.pairwise_cons.1 hsorted).1 _ hrest
      have hne : (m, i) ≠ (q, j) := fun h =>
        (List.nodup_cons.1 hnodup).1 (h ▸ hrest)
      have hij : i < j := by
        rcases Nat.lt_trichotomy i j with h | h | h
        · exact h
        · subst h
          rw [hm] at hq
          exact absurd (by rw [Option.some.inj hq]) hne
        · exact absurd hqm (not_le.2 (hfirst j q h hq))
      have hpair : [(m, i), (q, j)].Sublist (ranked row) := by
        apply List.pair_sublist_mergeSort moreProbable_trans moreProbable_total
        · exact decide_eq_true (hmax q (List.mem_of_getElem? hq))
        · exact pair_sublist hij (by rw [List.getElem?_zipIdx, hm]; simp)
            (by rw [List.getElem?_zipIdx, hq]; simp)
      rw [hr] at hpair
      rcases List.cons_sublist_cons'.1 hpair with h | ⟨h, -⟩
      · exact (List.nodup_cons.1 hnodup).1 (h.subset (by simp))
      · exact hne h

end ranks

theorem lt_cutoff {topP total : K} : ∀ (l : List (K × Nat)) (cumulative : K) (rank : Nat),
    l ≠ [] → rank < cutoff topP total l cumulative rank
  | [], _, _, h => absurd rfl h
  | x :: l, cumulative, rank, _ => by
    unfold cutoff
    dsimp only
    split
    · exact Nat.lt_succ_self rank
    · cases l with
      | nil => exact Nat.lt_succ_self rank
      | cons y l => exact (Nat.lt_succ_self rank).trans (lt_cutoff (y :: l) _ _ (by simp))

theorem topPFilter_spec (row : List K) (topP : K) :
    ∃ keep, Masked keep row (topPFilter row topP) ∧ KeepsTop keep row := by
  unfold topPFilter
  dsimp only
  split
  · exact ⟨_, Masked.refl row, KeepsTop.all row⟩
  · generalize hc : cutoff topP row.sum (ranked row) 0 0 = c
    have hat : ∀ {i : Nat} {p : K}, row[i]? = some p → row.zipIdx[i]? = some (p, i) := by
      intro i p hp
      rw [List.getElem?_zipIdx, hp, Option.map_some, Nat.zero_add]
    refine ⟨fun i => i ∈ ((ranked row).take c).map Prod.snd,
      ⟨by rw [List.length_map, List.length_zipIdx], fun i p hk hp => ?_, fun i p hk hp => ?_⟩,
      ⟨fun i hi => ?_, fun i j p q hk hp hq hlt => ?_⟩⟩
    · rw [List.getElem?_map, hat hp, Option.map_some, if_pos hk]
    · rw [List.getElem?_map, hat hp, Option.map_some, if_neg hk]
    · obtain ⟨m, hm, hmax, hfirst⟩ := hi
      obtain ⟨rest, hrest⟩ := ranked_head hm hmax hfirst
      have hpos : 0 < c := hc ▸ lt_cutoff _ _ _ (by rw [hrest]; exact List.cons_ne_nil _ _)
      refine List.mem_map.2 ⟨(m, i), ?_, rfl⟩
      rw [hrest, List.take_cons hpos]
      exact List.mem_cons_self
    · -- the ranks after the cutoff are at most as probable as those before it
      obtain ⟨⟨r, j'⟩, hr, rfl⟩ := List.mem_map.1 hk
      have hr' := mem_ranked.1 (List.mem_of_mem_take hr)
      dsimp only at hr' hp
      rw [hp] at hr'
      obtain rfl := Option.some.inj hr'
      have hsorted := ranked_pairwise row
      rw [← List.take_append_drop c (ranked row), List.pairwise_append] at hsorted
      have hj : (q, j) ∈ (ranked row).take c ++ (ranked row).drop c := by
        rw [List.take_append_drop]
        exact mem_ranked.2 hq
      rcases List.mem_append.1 hj with hj | hj
      · exact List.mem_map.2 ⟨_, hj, rfl⟩
      · exact absurd (hsorted.2.2 _ hr _ hj) (not_le.2 hlt)

/-- What the filters of a configuration keep. -/
theorem filter_spec (config : SamplingConfig K) {row : List K} (hpos : ∃ p ∈ row, 0 < p) :
    ∃ keep, Masked keep row (config.filter row) ∧ KeepsTop keep row := by
  obtain ⟨keep, row', hrow', hmask, htop⟩ : ∃ keep, ∃ row',
      config.filter row = (if config.topP < 1 then topPFilter row' config.topP else row') ∧
        Masked keep row row' ∧ KeepsTop keep row := by
    unfold SamplingConfig.filter
    cases config.topK with
    | none => exact ⟨_, row, rfl, Masked.refl row, KeepsTop.all row⟩
    | some k =>
      dsimp only
      by_cases hk : 0 < k
      · rw [if_pos hk]
        obtain ⟨keep, hmask, htop⟩ := topKFilter_spec row k.toNat
        exact ⟨keep, _, rfl, hmask, htop⟩
      · rw [if_neg hk]
        exact ⟨_, row, rfl, Masked.refl row, KeepsTop.all row⟩
  rw [hrow']
  split
  · obtain ⟨keep', hmask', htop'⟩ := topPFilter_spec row' config.topP
    exact ⟨_, hmask.trans hmask', htop.trans hmask htop' hpos⟩
  · exact ⟨keep, hmask, htop⟩

/-! ## The samplers -/

/-- The device operations on the logits of one step. -/
structure LogitOps (K Logits : Type) where
  shape : Logits → List Nat
  /-- `argmax_axis` and the read of its one entry. -/
  argmax : Logits → Except Error TokenId
  /-- `scale_by`, `softmax_axis` and the read of the row. -/
  softmax : K → Logits → Except Error (List K)

variable [ToString K] {Logits : Type}

/-- `validate_probability_mass`. -/
def validateProbabilityMass (probs : List K) (caller stage : String) : Except Error K :=
  match firstInvalid probs 0 with
  | some (i, p) =>
    .error (specErr s!"{caller} produced invalid {stage} probability {p} at index {i}")
  | none =>
    let total := probs.sum
    if total ≤ 0 then
      .error (specErr s!"{caller} invariant violated: {stage} mass is {total}, expected positive and finite")
    else .ok total

/-- `Sampler::sample`. -/
def sample (ops : LogitOps K Logits) (config : SamplingConfig K) (logits : Logits) :
    Draw K (Except Error TokenId) :=
  if config.temperature ≤ 0 then pure (ops.argmax logits)
  else
    match ops.softmax (1 / config.temperature) logits with
    | .error e => pure (.error e)
    | .ok row =>
      match validateProbabilityMass row "sample()" "softmax" with
      | .error e => pure (.error e)
      | .ok _ =>
        let probs := config.filter row
        let total := probs.sum
        if total ≤ 0 then
          pure (.error (specErr s!"sample() invariant violated: post-filter mass is {total}, expected positive and finite"))
        else do
          let u ← .uniform
          pure (.ok ((cdfWalk probs 0 (u * total)).getD (bestIndex probs)))

/-- `filter_and_normalize_probability_row`. -/
def filterAndNormalizeProbabilityRow (config : SamplingConfig K) (probs : List K)
    (caller : String) : Except Error (List K) := do
  let _ ← validateProbabilityMass probs caller "softmax"
  let probs := config.filter probs
  let total ← validateProbabilityMass probs caller "post-filter"
  pure (probs.map (· / total))

/-- `Sampler::probs`. -/
def probs (ops : LogitOps K Logits) (config : SamplingConfig K) (logits : Logits) :
    Except Error (List K) :=
  let shape := ops.shape logits
  if config.temperature ≤ 0 then
    .error (specErr "probs() requires temperature > 0; greedy decoding has no sampling distribution")
  else if shape.length ≠ 1 then
    .error (specErr s!"probs() expects 1-D logits, got shape {shape}")
  else do
    let row ← ops.softmax (1 / config.temperature) logits
    filterAndNormalizeProbabilityRow config row "probs()"

end ExactSampling

end Emelex
