import Emelex.Engine.Error
import Emelex.Lib.Checks
import Emelex.Lib.Scatter
import Mathlib.Algebra.BigOperators.Ring.List

/-!
# Media features in the embeddings of a prompt (`engine/models/base.rs`)

An array is its values in order, with its shape where it is read by rows. The operations are those
of the array library: a dimension is an `i32`, nothing is taken from an empty array, and nothing is
joined from no arrays.

* `Rows` — an array `[1, count, hidden]`.
* `maskedScatter` — the values of `source` at the marked places, one after the other.
* `spliceMediaFeatures` — the rows of the features at the places of a placeholder.
* `Spliced` — what the result is to be.

Principal results: `maskedScatter_getElem?`, `splice_spliced`, `splice_ok`.
-/

set_option autoImplicit false

namespace Emelex

open Checks Scatter

namespace Media

def I32_MAX : ℕ := 2147483647

/-- An array `[1, count, hidden]`. -/
structure Rows (R : Type) (hidden : ℕ) where
  count : ℕ
  values : List R
  size : values.length = count * hidden

/-- A value by its row and column. -/
def Rows.entry {R : Type} {hidden : ℕ} (rows : Rows R hidden) (row column : ℕ) : Option R :=
  rows.values[row * hidden + column]?

section operations

variable {R S : Type} {hidden : ℕ}

/-- `reshape` to one dimension. -/
def flat (values : List R) : Except Error (List R) := do
  ensure (values.length ≤ I32_MAX) (.mlx "[reshape] the dimension does not fit in 32 bits")
  return values

/-- `reshape` to rows. -/
def reshape (count hidden : ℕ) (values : List R) : Except Error (Rows R hidden) :=
  if size : values.length = count * hidden then .ok { count, values, size }
  else .error (.mlx "[reshape] the size of the array does not match the shape")

/-- `concatenate` along the rows. -/
def concatenate : List (Rows S hidden) → Except Error (Rows S hidden)
  | [] => .error (.mlx "[concatenate] no arrays provided")
  | features => reshape (features.map Rows.count).sum hidden (features.flatMap Rows.values)

/-- The features of all items. -/
def joinFeatures : List (Rows S hidden) → Except Error (Rows S hidden)
  | [features] => .ok features
  | features => concatenate features

/-- `take` of one index. -/
def take (source : List R) (index : ℤ) : Except Error R :=
  required (.mlx "[take] cannot do a non-empty take from an empty array") source[index.toNat]?

/-- `where_cond`. -/
def whereCond (condition : List Bool) (a b : List R) : List R :=
  List.zipWith (fun mark (pair : R × R) => if mark then pair.1 else pair.2) condition (a.zip b)

/-- A count that is read as an `f32`: 24 bits of it, rounded to the nearest, in a tie to the even
one. -/
def roundF32 (n : ℕ) : ℕ :=
  if n < 2 ^ 24 then n
  else
    let unit := 2 ^ (Nat.log2 n - 23)
    let quotient := n / unit
    let remainder := n % unit
    if 2 * remainder < unit ∨ (2 * remainder = unit ∧ quotient % 2 = 0) then quotient * unit
    else (quotient + 1) * unit

/-- `masked_scatter`. -/
def maskedScatter (input : List R) (mask : List Bool) (source : List R) :
    Except Error (List R) := do
  let maskFlat ← flat (mask.map ofMark)
  let inputFlat ← flat input
  let sourceFlat ← flat source
  let sourceSize : ℤ := sourceFlat.length
  let idx := (cumsum maskFlat).map fun i => i - 1
  let idx := idx.map fun i => max i 0
  let idx := idx.map fun i => min i (max (sourceSize - 1) 0)
  let aligned ← idx.mapM (take sourceFlat)
  let maskBool := maskFlat.map fun mark => decide (mark ≠ 0)
  return whereCond maskBool aligned inputFlat

/-- `splice_media_features`; `astype` casts to the type of the embeddings. -/
def spliceMediaFeatures (astype : S → R) (h : Rows R hidden) (inputIds : List ℕ)
    (features : List (Rows S hidden)) (placeholderTokenId : ℕ) (modality : String) :
    Except Error (Rows R hidden) := do
  let features ← joinFeatures features
  let source := features.values.map astype
  let mask := inputIds.map fun id => decide (id = placeholderTokenId)
  let maskCount := roundF32 (mask.count true)
  let featureCount := features.count
  ensure (maskCount = featureCount)
    (.model (s!"{modality} token count ({maskCount}) does not match {modality} " ++
      s!"feature count ({featureCount}); check that {modality} placeholder " ++
      "expansion produced the right number of tokens"))
  ensure (inputIds.length = h.count) (.mlx "[broadcast_to] the shapes do not match")
  let maskExpanded := broadcast hidden mask
  let result ← maskedScatter h.values maskExpanded source
  reshape h.count hidden result

end operations

/-! ## Specification -/

section spec

variable {R S : Type} {hidden : ℕ}

/-- The `j`-th row of the features stands at the `j`-th placeholder, and all other rows are as they
were. -/
structure Spliced (astype : S → R) (h out : Rows R hidden) (inputIds : List ℕ)
    (features : List (Rows S hidden)) (placeholderTokenId : ℕ) : Prop where
  count : out.count = h.count
  entries : ∀ row column, row < h.count → column < hidden →
    out.entry row column = if inputIds[row]? = some placeholderTokenId then
      ((features.flatMap Rows.values)[
        (inputIds.take row).count placeholderTokenId * hidden + column]?).map astype
    else h.entry row column

/-! ## The scatter -/

theorem flat_eq_ok {values result : List R} :
    flat values = .ok result ↔ values.length ≤ I32_MAX ∧ values = result := by
  unfold flat
  simp only [bind_eq_ok, ensure_eq_ok, pure_eq_ok, exists_and_left, exists_const]

theorem reshape_eq_ok {count : ℕ} {values : List R} {rows : Rows R hidden} :
    reshape count hidden values = .ok rows ↔ rows.count = count ∧ rows.values = values := by
  unfold reshape
  split
  · rename_i hsize
    rw [Except.ok.injEq]
    constructor
    · rintro rfl
      exact ⟨rfl, rfl⟩
    · rintro ⟨rfl, rfl⟩
      rfl
  · rename_i hsize
    simp only [reduceCtorEq, false_iff, not_and]
    rintro rfl rfl
    exact hsize rows.size

/-- What is taken, index by index. -/
theorem mapM_take {source aligned : List R} {idx : List ℤ}
    (h : idx.mapM (take source) = .ok aligned) :
    aligned.length = idx.length ∧
      ∀ (i : ℕ) (index : ℤ), idx[i]? = some index → aligned[i]? = source[index.toNat]? := by
  have hall := mapM_eq_ok.1 h
  refine ⟨hall.length_eq.symm, fun i index hindex => ?_⟩
  obtain ⟨hi, rfl⟩ := List.getElem?_eq_some_iff.1 hindex
  have hi' : i < aligned.length := hall.length_eq ▸ hi
  have htake := hall.get hi hi'
  rw [take, required_eq_ok] at htake
  rw [List.getElem?_eq_getElem hi']
  exact htake.symm

/-- The index of a marked place, in the range of the source. -/
theorem index_marked {mask : List Bool} {n i : ℕ} (hmark : mask[i]? = some true)
    (hcount : mask.count true = n) :
    ((((cumsum (mask.map ofMark)).map fun i => i - 1).map fun i => max i 0).map
      fun i => min i (max ((n : ℤ) - 1) 0))[i]? = some (rank mask i : ℤ) := by
  obtain ⟨hi, hvalue⟩ := List.getElem?_eq_some_iff.1 hmark
  have hlt := rank_lt hmark
  have hsum : ((mask.map ofMark).take (i + 1)).sum = rank mask i + 1 := by
    rw [sum_take_ofMark, rank, List.take_add_one, hmark, List.count_append]
    simp [rank]
  rw [List.getElem?_map, List.getElem?_map, List.getElem?_map,
    cumsum_getElem? (by rwa [List.length_map]), hsum]
  simp only [Option.map_some, Option.some.injEq]
  omega

/-- The scatter puts the values of the source at the marked places, one after the other. -/
theorem maskedScatter_getElem? {input source out : List R} {mask : List Bool}
    (h : maskedScatter input mask source = .ok out) (hlength : mask.length = input.length)
    (hcount : mask.count true = source.length) :
    out.length = input.length ∧ ∀ i < input.length,
      out[i]? = if mask[i]? = some true then source[rank mask i]? else input[i]? := by
  unfold maskedScatter at h
  simp only [bind_eq_ok, flat_eq_ok, pure_eq_ok] at h
  obtain ⟨_, ⟨-, rfl⟩, _, ⟨-, rfl⟩, _, ⟨-, rfl⟩, aligned, haligned, rfl⟩ := h
  obtain ⟨hlen, htaken⟩ := mapM_take haligned
  simp only [List.length_map, cumsum_length] at hlen
  refine ⟨?_, fun i hi => ?_⟩
  · simp only [whereCond, List.length_zipWith, List.length_map, List.length_zip]
    omega
  · have himask : i < mask.length := hlength ▸ hi
    have hialigned : i < aligned.length := by omega
    have hmark : ((mask.map ofMark).map fun mark => decide (mark ≠ 0))[i]? = some mask[i] := by
      rw [List.getElem?_map, List.getElem?_map, List.getElem?_eq_getElem himask]
      cases mask[i] <;> rfl
    have hpair : (aligned.zip input)[i]? = some (aligned[i], input[i]) :=
      List.getElem?_zip_eq_some.2
        ⟨List.getElem?_eq_getElem hialigned, List.getElem?_eq_getElem hi⟩
    rw [whereCond, List.getElem?_zipWith, hmark, hpair, List.getElem?_eq_getElem himask]
    cases hvalue : mask[i] with
    | false =>
      rw [if_neg (by simp), List.getElem?_eq_getElem hi]
      rfl
    | true =>
      have hmarked : mask[i]? = some true := by rw [List.getElem?_eq_getElem himask, hvalue]
      have hindex := htaken i _ (index_marked hmarked hcount)
      rw [List.getElem?_eq_getElem hialigned, Int.toNat_natCast] at hindex
      rw [if_pos rfl, ← hindex]
      rfl

/-- The scatter succeeds on arrays that can be flattened, from a source with values. -/
theorem maskedScatter_ok {input source : List R} {mask : List Bool}
    (hmask : mask.length ≤ I32_MAX) (hinput : input.length ≤ I32_MAX)
    (hsource : source.length ≤ I32_MAX) (hpos : 0 < source.length) :
    ∃ out, maskedScatter input mask source = .ok out := by
  unfold maskedScatter
  have htake : ∀ idx : List ℤ, (∀ index ∈ idx, index.toNat < source.length) →
      ∃ aligned, idx.mapM (take source) = .ok aligned := by
    intro idx hidx
    induction idx with
    | nil => exact ⟨[], rfl⟩
    | cons index idx ih =>
      obtain ⟨hindex, hrest⟩ := List.forall_mem_cons.1 hidx
      obtain ⟨aligned, haligned⟩ := ih hrest
      refine ⟨source[index.toNat] :: aligned, ?_⟩
      rw [List.mapM_cons, haligned, take, List.getElem?_eq_getElem hindex]
      rfl
  obtain ⟨aligned, haligned⟩ := htake ((((cumsum (mask.map ofMark)).map fun i => i - 1).map
      fun i => max i 0).map fun i => min i (max ((source.length : ℤ) - 1) 0)) fun index hindex => by
    obtain ⟨bounded, -, rfl⟩ := List.mem_map.1 hindex
    omega
  simp only [bind_eq_ok, flat_eq_ok, pure_eq_ok]
  exact ⟨_, _, ⟨by rwa [List.length_map], rfl⟩, _, ⟨hinput, rfl⟩, _, ⟨hsource, rfl⟩,
    aligned, haligned, rfl⟩

/-! ## The features -/

theorem joinFeatures_eq {features : List (Rows S hidden)} {joined : Rows S hidden}
    (h : joinFeatures features = .ok joined) :
    joined.count = (features.map Rows.count).sum ∧
      joined.values = features.flatMap Rows.values := by
  match features with
  | [] => cases h
  | [only] =>
    cases h
    simp
  | first :: second :: rest => exact reshape_eq_ok.1 h

theorem joinFeatures_ok {features : List (Rows S hidden)} (hne : features ≠ []) :
    ∃ joined, joinFeatures features = .ok joined := by
  have hsize : (features.flatMap Rows.values).length = (features.map Rows.count).sum * hidden := by
    rw [List.length_flatMap, ← List.sum_map_mul_right]
    exact congrArg List.sum (List.map_congr_left fun rows _ => rows.size)
  match features with
  | [] => exact absurd rfl hne
  | [only] => exact ⟨only, rfl⟩
  | first :: second :: rest => exact ⟨⟨_, _, hsize⟩, reshape_eq_ok.2 ⟨rfl, rfl⟩⟩

theorem count_mask (ids : List ℕ) (placeholder : ℕ) :
    (ids.map fun id => decide (id = placeholder)).count true = ids.count placeholder := by
  rw [List.count_eq_countP, List.countP_map, List.count_eq_countP]
  refine List.countP_congr fun id _ => ?_
  simp

/-- A marked place of the mask is a place of the placeholder. -/
theorem mask_getElem? (ids : List ℕ) (placeholder row : ℕ) :
    (ids.map fun id => decide (id = placeholder))[row]? = some true ↔
      ids[row]? = some placeholder := by
  rw [List.getElem?_map]
  cases ids[row]? <;> simp

theorem rank_mask (ids : List ℕ) (placeholder row : ℕ) :
    rank (ids.map fun id => decide (id = placeholder)) row = (ids.take row).count placeholder := by
  rw [rank, ← List.map_take, count_mask]

/-- Whatever is spliced in stands in its place, where a count is exact as an `f32`. -/
theorem splice_spliced {astype : S → R} {h out : Rows R hidden} {ids : List ℕ}
    {features : List (Rows S hidden)} {placeholder : ℕ} {modality : String}
    (hok : spliceMediaFeatures astype h ids features placeholder modality = .ok out)
    (hcount : ids.count placeholder < 2 ^ 24) :
    Spliced astype h out ids features placeholder := by
  unfold spliceMediaFeatures at hok
  simp only [bind_eq_ok, ensure_eq_ok, reshape_eq_ok] at hok
  obtain ⟨joined, hjoined, _, hcounts, _, hlength, result, hresult, hout, hvalues⟩ := hok
  obtain ⟨hjoinedCount, hjoinedValues⟩ := joinFeatures_eq hjoined
  rw [count_mask, roundF32, if_pos hcount] at hcounts
  have hmaskLength : (broadcast hidden (ids.map fun id => decide (id = placeholder))).length =
      h.values.length := by
    rw [broadcast_length, List.length_map, hlength, h.size]
  have hmaskCount : (broadcast hidden (ids.map fun id => decide (id = placeholder))).count true =
      (joined.values.map astype).length := by
    rw [count_broadcast, count_mask, List.length_map, joined.size, hcounts]
  obtain ⟨-, hentries⟩ := maskedScatter_getElem? hresult hmaskLength hmaskCount
  refine ⟨hout, fun row column hrow hcolumn => ?_⟩
  have hplace : row * hidden + column < h.values.length := by
    rw [h.size]
    calc row * hidden + column < (row + 1) * hidden := by
          rw [Nat.add_mul]
          omega
      _ ≤ h.count * hidden := Nat.mul_le_mul_right _ hrow
  rw [Rows.entry, hvalues, hentries _ hplace, broadcast_getElem? hcolumn]
  simp only [mask_getElem?]
  by_cases hid : ids[row]? = some placeholder
  · rw [if_pos hid, if_pos hid, rank_broadcast ((mask_getElem? _ _ _).2 hid) hcolumn, rank_mask,
      List.getElem?_map, hjoinedValues]
  · rw [if_neg hid, if_neg hid, Rows.entry]

/-- As many features as placeholders are spliced in. -/
theorem splice_ok {astype : S → R} {h : Rows R hidden} {ids : List ℕ}
    {features : List (Rows S hidden)} {placeholder : ℕ} (modality : String)
    (hids : ids.length = h.count) (hne : features ≠ []) (hhidden : 0 < hidden)
    (hpos : 0 < ids.count placeholder) (hexact : ids.count placeholder < 2 ^ 24)
    (hcount : (features.map Rows.count).sum = ids.count placeholder)
    (hsize : h.values.length ≤ I32_MAX) :
    ∃ out, spliceMediaFeatures astype h ids features placeholder modality = .ok out := by
  obtain ⟨joined, hjoined⟩ := joinFeatures_ok hne
  obtain ⟨hjoinedCount, -⟩ := joinFeatures_eq hjoined
  have hsource : (joined.values.map astype).length = ids.count placeholder * hidden := by
    rw [List.length_map, joined.size, hjoinedCount, hcount]
  have hle : ids.count placeholder * hidden ≤ h.values.length := by
    rw [h.size, ← hids]
    exact Nat.mul_le_mul_right _ List.count_le_length
  have hmask : (broadcast hidden (ids.map fun id => decide (id = placeholder))).length =
      h.values.length := by
    rw [broadcast_length, List.length_map, hids, h.size]
  obtain ⟨result, hresult⟩ := maskedScatter_ok (hmask ▸ hsize) hsize
    (hsource ▸ hle.trans hsize) (hsource ▸ Nat.mul_pos hpos hhidden)
  have hresultLength : result.length = h.count * hidden := by
    have hmaskCount : (broadcast hidden (ids.map fun id => decide (id = placeholder))).count
        true = (joined.values.map astype).length := by
      rw [count_broadcast, count_mask, hsource]
    rw [(maskedScatter_getElem? hresult hmask hmaskCount).1, h.size]
  unfold spliceMediaFeatures
  simp only [bind_eq_ok, ensure_eq_ok, reshape_eq_ok]
  refine ⟨⟨h.count, result, hresultLength⟩, joined, hjoined, (), ?_, (), hids, result, hresult,
    rfl, rfl⟩
  rw [count_mask, roundF32, if_pos hexact, hjoinedCount, hcount]

end spec

end Media

end Emelex
