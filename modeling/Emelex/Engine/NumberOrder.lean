import Emelex.Engine.ToolSchema
import Emelex.Lib.JsonOrder
import Mathlib.Data.List.Sort
import Mathlib.Data.String.Basic
import Mathlib.Order.Compare
import Mathlib.Tactic.Linarith

/-!
# The order of numbers, and the equality of values (`engine/tools.rs`)

A float stands for its exact value.

* `JsonNumber.value` — what a number stands for.
* `JsonNumber.Held` — a number that fits the type it is held in.
* `Json.canonical` — a value with the numbers it stands for, its fields in the order of their keys.

Principal results: `numberCmp_eq`, `jsonEqual_iff`, `number_order_exact`.
-/

set_option autoImplicit false

/-- The exact value. -/
def JsonNumber.value : JsonNumber → Rat
  | .posInt n => n
  | .negInt i => i
  | .float value => value

/-- Integers that are not negative are `u64`, the others `i64`. -/
def JsonNumber.Held : JsonNumber → Prop
  | .posInt n => n < 2 ^ 64
  | .negInt i => -2 ^ 63 ≤ i ∧ i < 0
  | .float _ => True

namespace Json

mutual

/-- The exact values of its numbers, and the fields of its objects in the order of their keys. -/
def canonical : Json → Json
  | null => null
  | bool b => bool b
  | number n => .number (.float n.value)
  | string s => string s
  | array items => array (canonicalItems items)
  | object fields => object (sortFields (canonicalFields fields))

def canonicalItems : List Json → List Json
  | [] => []
  | x :: xs => canonical x :: canonicalItems xs

def canonicalFields : List (String × Json) → List (String × Json)
  | [] => []
  | (k, v) :: fields => (k, canonical v) :: canonicalFields fields

end

theorem canonicalFields_keys (fields : List (String × Json)) :
    (canonicalFields fields).map Prod.fst = fields.map Prod.fst := by
  induction fields with
  | nil => rfl
  | cons field fields ih => rw [canonicalFields, List.map_cons, List.map_cons, ih]

theorem length_canonicalFields (fields : List (String × Json)) :
    (canonicalFields fields).length = fields.length := by
  rw [← List.length_map Prod.fst, canonicalFields_keys, List.length_map]

theorem length_canonicalItems (xs : List Json) : (canonicalItems xs).length = xs.length := by
  induction xs with
  | nil => rfl
  | cons x xs ih => rw [canonicalItems, List.length_cons, List.length_cons, ih]

theorem lookup_canonicalFields (k : String) (fields : List (String × Json)) :
    (canonicalFields fields).lookup k = (fields.lookup k).map canonical := by
  induction fields with
  | nil => rfl
  | cons field fields ih =>
    rw [canonicalFields, List.lookup_cons, List.lookup_cons, ih]
    split <;> rfl

/-- A value as it is held: its numbers fit their types, and no key occurs twice. -/
structure WellFormed (v : Json) : Prop where
  distinct : v.Distinct
  numbers : v.Numbers JsonNumber.Held

structure ItemsWellFormed (xs : List Json) : Prop where
  distinct : ItemsDistinct xs
  numbers : ItemNumbers JsonNumber.Held xs

structure FieldsWellFormed (fields : List (String × Json)) : Prop where
  distinct : FieldsDistinct fields
  numbers : FieldNumbers JsonNumber.Held fields

theorem FieldsWellFormed.lookup {fields : List (String × Json)} (h : FieldsWellFormed fields)
    {k : String} {v : Json} (hlookup : fields.lookup k = some v) : v.WellFormed := by
  induction fields with
  | nil => cases hlookup
  | cons field fields ih =>
    rw [List.lookup_cons] at hlookup
    split at hlookup
    · cases hlookup
      exact ⟨h.distinct.1, h.numbers.1⟩
    · exact ih ⟨h.distinct.2, h.numbers.2⟩ hlookup

end Json

namespace Emelex

namespace ToolSchema

/-! ## Truncation -/

theorem trunc_add_fract (float : Rat) : float = trunc float + fract float := by
  unfold fract
  ring

/-- Below the integer part is below the number. -/
theorem lt_of_lt_trunc {i : Int} {float : Rat} (h : i < trunc float) : (i : Rat) < float := by
  unfold trunc at h
  split_ifs at h with hfloat
  · exact lt_of_lt_of_le (Int.cast_lt.2 h) (Int.floor_le float)
  · exact Int.lt_ceil.1 h

theorem lt_of_trunc_lt {i : Int} {float : Rat} (h : trunc float < i) : float < i := by
  unfold trunc at h
  split_ifs at h with hfloat
  · exact Int.floor_lt.1 h
  · exact lt_of_le_of_lt (Int.le_ceil float) (Int.cast_lt.2 h)

theorem trunc_nonneg {float : Rat} (h : 0 ≤ float) : 0 ≤ trunc float := by
  unfold trunc
  rw [if_pos h]
  exact Int.floor_nonneg.2 h

theorem fract_nonneg {float : Rat} (h : 0 ≤ float) : 0 ≤ fract float := by
  unfold fract trunc
  rw [if_pos h]
  exact sub_nonneg.2 (Int.floor_le float)

/-! ## Comparing -/

theorem signedFloatCmp_eq {i : Int} {float : Rat} (hlower : -9223372036854775808 ≤ i)
    (hupper : i < 9223372036854775808) :
    signedFloatCmp i float = some (compare (i : Rat) float) := by
  have hlower' : (-9223372036854775808 : Rat) ≤ i := by exact_mod_cast hlower
  have hupper' : (i : Rat) < 9223372036854775808 := by exact_mod_cast hupper
  unfold signedFloatCmp
  by_cases hbelow : float < -9223372036854775808
  · rw [if_pos hbelow, compare_gt_iff_gt.2 (lt_of_lt_of_le hbelow hlower')]
  by_cases habove : 9223372036854775808 ≤ float
  · rw [if_neg hbelow, if_pos habove, compare_lt_iff_lt.2 (lt_of_lt_of_le hupper' habove)]
  rw [if_neg hbelow, if_neg habove]
  have hsum := trunc_add_fract float
  rcases lt_trichotomy i (trunc float) with h | h | h
  · rw [compare_lt_iff_lt.2 h, compare_lt_iff_lt.2 (lt_of_lt_trunc h)]
  · -- the fraction decides
    rw [← h] at hsum
    rw [compare_eq_iff_eq.2 h]
    dsimp only
    split_ifs with hpos hneg
    · rw [compare_lt_iff_lt.2 (by linarith)]
    · rw [compare_gt_iff_gt.2 (by linarith)]
    · rw [compare_eq_iff_eq.2 (by linarith)]
  · rw [compare_gt_iff_gt.2 h, compare_gt_iff_gt.2 (lt_of_trunc_lt h)]

theorem unsignedFloatCmp_eq {n : Nat} {float : Rat} (hupper : n < 18446744073709551616) :
    unsignedFloatCmp n float = some (compare (n : Rat) float) := by
  have hupper' : (n : Rat) < 18446744073709551616 := by exact_mod_cast hupper
  unfold unsignedFloatCmp
  by_cases hbelow : float < 0
  · rw [if_pos hbelow, compare_gt_iff_gt.2 (lt_of_lt_of_le hbelow (Nat.cast_nonneg n))]
  by_cases habove : 18446744073709551616 ≤ float
  · rw [if_neg hbelow, if_pos habove, compare_lt_iff_lt.2 (lt_of_lt_of_le hupper' habove)]
  rw [if_neg hbelow, if_neg habove]
  rw [not_lt] at hbelow
  have hsum := trunc_add_fract float
  have hfract := fract_nonneg hbelow
  have htrunc := Int.toNat_of_nonneg (trunc_nonneg hbelow)
  rcases lt_trichotomy n (trunc float).toNat with h | h | h
  · have hlt : ((n : Int) : Rat) < float := lt_of_lt_trunc (by omega)
    rw [compare_lt_iff_lt.2 h, compare_lt_iff_lt.2 (by exact_mod_cast hlt)]
  · have heq : ((n : Int) : Rat) + fract float = float := by
      rw [h, htrunc]
      exact hsum.symm
    rw [Int.cast_natCast] at heq
    rw [compare_eq_iff_eq.2 h]
    dsimp only
    split_ifs with hpos
    · rw [compare_lt_iff_lt.2 (by linarith)]
    · rw [compare_eq_iff_eq.2 (by linarith)]
  · have hlt : float < ((n : Int) : Rat) := lt_of_trunc_lt (by omega)
    rw [compare_gt_iff_gt.2 h, compare_gt_iff_gt.2 (by exact_mod_cast hlt)]

theorem compare_intCast (i j : Int) : compare (i : Rat) j = compare i j := by
  rw [← cmp_eq_compare, ← cmp_eq_compare]
  exact (Int.cast_strictMono (R := Rat)).cmp_map_eq i j

theorem compare_natCast (m n : Nat) : compare (m : Rat) n = compare m n := by
  rw [← cmp_eq_compare, ← cmp_eq_compare]
  exact (Nat.strictMono_cast (α := Rat)).cmp_map_eq m n

theorem compare_swap (p q : Rat) : (compare p q).swap = compare q p := by
  rw [← cmp_eq_compare, ← cmp_eq_compare, cmp_swap]

/-- What an exact number stands for. -/
def ExactNumber.value : ExactNumber → Rat
  | .signed i => i
  | .unsigned n => n
  | .float value => value

/-- The bounds of `i64` and `u64`. -/
def ExactNumber.Held : ExactNumber → Prop
  | .signed i => -9223372036854775808 ≤ i ∧ i < 9223372036854775808
  | .unsigned n => n < 18446744073709551616
  | .float _ => True

theorem exactNumber_value (n : JsonNumber) : (exactNumber n).value = n.value := by
  unfold exactNumber
  split
  · split_ifs
    · exact Int.cast_natCast _
    · rfl
  · rfl
  · rfl

theorem exactNumber_held {n : JsonNumber} (h : n.Held) : (exactNumber n).Held := by
  unfold exactNumber
  split
  · have hlt : _ < 2 ^ 64 := h
    split_ifs with hsmall
    · exact ⟨by omega, by omega⟩
    · exact hlt
  · have hbounds : _ ∧ _ := h
    exact ⟨by omega, by omega⟩
  · trivial

/-- The order of the exact values. -/
theorem numberCmp_eq {m n : JsonNumber} (hm : m.Held) (hn : n.Held) :
    numberCmp m n = some (compare m.value n.value) := by
  have hm := exactNumber_held hm
  have hn := exactNumber_held hn
  rw [← exactNumber_value m, ← exactNumber_value n]
  unfold numberCmp
  cases hleft : exactNumber m with
  | signed i =>
    rw [hleft] at hm
    cases hright : exactNumber n with
    | signed j => exact congrArg some (compare_intCast i j).symm
    | unsigned k =>
      show some (if i < 0 then Ordering.lt else compare i.toNat k) = some (compare (i : Rat) k)
      split_ifs with hneg
      · have hlt : (i : Rat) < k := lt_of_lt_of_le (Int.cast_lt_zero.2 hneg) (Nat.cast_nonneg k)
        rw [compare_lt_iff_lt.2 hlt]
      · have hcast : ((i.toNat : Nat) : Rat) = i := by
          exact_mod_cast congrArg (Int.cast (R := Rat)) (Int.toNat_of_nonneg (not_lt.1 hneg))
        rw [← hcast, compare_natCast]
    | float q => exact signedFloatCmp_eq hm.1 hm.2
  | unsigned k =>
    rw [hleft] at hm
    cases hright : exactNumber n with
    | signed j =>
      show some (if j < 0 then Ordering.gt else compare k j.toNat) = some (compare (k : Rat) j)
      split_ifs with hneg
      · have hlt : (j : Rat) < k := lt_of_lt_of_le (Int.cast_lt_zero.2 hneg) (Nat.cast_nonneg k)
        rw [compare_gt_iff_gt.2 hlt]
      · have hcast : ((j.toNat : Nat) : Rat) = j := by
          exact_mod_cast congrArg (Int.cast (R := Rat)) (Int.toNat_of_nonneg (not_lt.1 hneg))
        rw [← hcast, compare_natCast]
    | unsigned l => exact congrArg some (compare_natCast k l).symm
    | float q => exact unsignedFloatCmp_eq hm
  | float q =>
    cases hright : exactNumber n with
    | signed j =>
      rw [hright] at hn
      show (signedFloatCmp j q).map Ordering.swap = some (compare q (j : Rat))
      rw [signedFloatCmp_eq hn.1 hn.2, Option.map_some, compare_swap]
    | unsigned l =>
      rw [hright] at hn
      show (unsignedFloatCmp l q).map Ordering.swap = some (compare q (l : Rat))
      rw [unsignedFloatCmp_eq hn, Option.map_some, compare_swap]
    | float r => rfl

/-! ## Equality -/

theorem numberCmp_eq_eq {m n : JsonNumber} (hm : m.Held) (hn : n.Held) :
    (numberCmp m n == some .eq) = true ↔ m.value = n.value := by
  rw [numberCmp_eq hm hn, beq_iff_eq, Option.some.injEq, compare_eq_iff_eq]

mutual

theorem jsonEqual_iff : ∀ {v w : Json}, v.WellFormed → w.WellFormed →
    (jsonEqual v w = true ↔ v.canonical = w.canonical)
  | .null, w, _, _ => by cases w <;> simp [jsonEqual, Json.canonical]
  | .bool _, w, _, _ => by cases w <;> simp [jsonEqual, Json.canonical]
  | .string _, w, _, _ => by cases w <;> simp [jsonEqual, Json.canonical]
  | .number m, w, hv, hw => by
    cases w with
    | number n =>
      rw [jsonEqual, numberCmp_eq_eq hv.numbers hw.numbers]
      simp [Json.canonical]
    | _ => simp [jsonEqual, Json.canonical]
  | .array xs, w, hv, hw => by
    cases w with
    | array ys =>
      rw [jsonEqual, Bool.and_eq_true, beq_iff_eq, Json.canonical, Json.canonical, Json.array.injEq]
      constructor
      · rintro ⟨hlength, h⟩
        exact (jsonEqualItems_iff ⟨hv.distinct, hv.numbers⟩ ⟨hw.distinct, hw.numbers⟩ hlength).1 h
      · intro h
        have hlength : xs.length = ys.length := by
          rw [← Json.length_canonicalItems xs, h, Json.length_canonicalItems]
        exact ⟨hlength, (jsonEqualItems_iff ⟨hv.distinct, hv.numbers⟩
          ⟨hw.distinct, hw.numbers⟩ hlength).2 h⟩
    | _ => simp [jsonEqual, Json.canonical]
  | .object fields, w, hv, hw => by
    cases w with
    | object fields' =>
      have hkeys : ((Json.canonicalFields fields).map Prod.fst).Nodup := by
        rw [Json.canonicalFields_keys]
        exact hv.distinct.1
      have hkeys' : ((Json.canonicalFields fields').map Prod.fst).Nodup := by
        rw [Json.canonicalFields_keys]
        exact hw.distinct.1
      rw [jsonEqual, Bool.and_eq_true, beq_iff_eq, Json.canonical, Json.canonical,
        Json.object.injEq, Json.sortFields_eq_iff hkeys hkeys', Json.perm_iff_lookup hkeys hkeys',
        Json.length_canonicalFields, Json.length_canonicalFields,
        jsonEqualFields_iff ⟨hv.distinct.2, hv.numbers⟩ ⟨hw.distinct.2, hw.numbers⟩]
    | _ => simp [jsonEqual, Json.canonical]

theorem jsonEqualItems_iff : ∀ {xs ys : List Json}, Json.ItemsWellFormed xs →
    Json.ItemsWellFormed ys → xs.length = ys.length →
    (jsonEqualItems xs ys = true ↔ Json.canonicalItems xs = Json.canonicalItems ys)
  | [], [], _, _, _ => by simp [jsonEqualItems, Json.canonicalItems]
  | x :: xs, y :: ys, hxs, hys, hlength => by
    rw [jsonEqualItems, Bool.and_eq_true, Json.canonicalItems, Json.canonicalItems,
      List.cons.injEq,
      jsonEqual_iff ⟨hxs.distinct.1, hxs.numbers.1⟩ ⟨hys.distinct.1, hys.numbers.1⟩,
      jsonEqualItems_iff ⟨hxs.distinct.2, hxs.numbers.2⟩ ⟨hys.distinct.2, hys.numbers.2⟩
        (Nat.succ.inj hlength)]

theorem jsonEqualFields_iff : ∀ {fields fields' : List (String × Json)},
    Json.FieldsWellFormed fields → Json.FieldsWellFormed fields' →
    (jsonEqualFields fields fields' = true ↔
      ∀ field ∈ Json.canonicalFields fields,
        (Json.canonicalFields fields').lookup field.1 = some field.2)
  | [], _, _, _ => by simp [jsonEqualFields, Json.canonicalFields]
  | (k, v) :: fields, fields', h, h' => by
    rw [jsonEqualFields, Bool.and_eq_true, Json.canonicalFields, List.forall_mem_cons,
      jsonEqualFields_iff ⟨h.distinct.2, h.numbers.2⟩ h', Json.lookup_canonicalFields]
    refine and_congr_left fun _ => ?_
    cases hlookup : fields'.lookup k with
    | none => simp
    | some w =>
      rw [Option.any_some, Option.map_some, Option.some.injEq,
        jsonEqual_iff ⟨h.distinct.1, h.numbers.1⟩ (h'.lookup hlookup)]
      exact eq_comm

end

/-- At most, as the comparison has it. -/
def numberLe (m n : JsonNumber) : Prop := numberCmp m n ≠ some .gt

theorem numberLe_iff {m n : JsonNumber} (hm : m.Held) (hn : n.Held) :
    numberLe m n ↔ m.value ≤ n.value := by
  unfold numberLe
  rw [numberCmp_eq hm hn, Ne, Option.some.injEq, compare_gt_iff_gt, not_lt]

/-! ## The keywords that compare values -/

theorem hasDuplicate_eq_false_iff {values previous : List Json}
    (hvalues : ∀ v ∈ values, v.WellFormed) (hprevious : ∀ v ∈ previous, v.WellFormed) :
    hasDuplicate previous values = false ↔
      (values.map Json.canonical).Nodup ∧
        ∀ v ∈ previous, v.canonical ∉ values.map Json.canonical := by
  induction values generalizing previous with
  | nil => simp [hasDuplicate]
  | cons value values ih =>
    obtain ⟨hvalue, hvalues⟩ := List.forall_mem_cons.1 hvalues
    have hnext : ∀ v ∈ previous ++ [value], v.WellFormed :=
      List.forall_mem_append.2 ⟨hprevious, List.forall_mem_singleton.2 hvalue⟩
    have hany : previous.any (fun previous => jsonEqual previous value) = false ↔
        ∀ v ∈ previous, v.canonical ≠ value.canonical := by
      rw [List.any_eq_false]
      exact forall₂_congr fun v hv => not_congr (jsonEqual_iff (hprevious v hv) hvalue)
    rw [hasDuplicate, Bool.or_eq_false_iff, ih hvalues hnext, hany, List.map_cons,
      List.nodup_cons, List.forall_mem_append, List.forall_mem_singleton]
    simp only [List.mem_cons, not_or, forall_and]
    constructor
    · rintro ⟨hne, hnodup, hnot, hvalue⟩
      exact ⟨⟨hvalue, hnodup⟩, hne, hnot⟩
    · rintro ⟨⟨hvalue, hnodup⟩, hne, hnot⟩
      exact ⟨hne, hnodup, hnot, hvalue⟩

theorem acceptsValue_const {schema : Fields} {inst expected : Json}
    (h : acceptsValue schema inst = true) (hexpected : schema.lookup "const" = some expected)
    (hwf : expected.WellFormed) (hinst : inst.WellFormed) :
    expected.canonical = inst.canonical := by
  simp only [acceptsValue, Bool.not_eq_true', Bool.or_eq_false_iff, hexpected, Option.any_some,
    Bool.not_eq_false'] at h
  exact (jsonEqual_iff hwf hinst).1 h.1.1

theorem acceptsValue_enum {schema : Fields} {inst : Json} {values : List Json}
    (h : acceptsValue schema inst = true) (henum : schema.lookup "enum" = some (.array values))
    (hwf : ∀ v ∈ values, v.WellFormed) (hinst : inst.WellFormed) :
    inst.canonical ∈ values.map Json.canonical := by
  simp only [acceptsValue, Bool.not_eq_true', Bool.or_eq_false_iff, henum, Option.any_some,
    Json.asArray, Option.all_some, Bool.not_eq_false'] at h
  obtain ⟨v, hv, heq⟩ := List.any_eq_true.1 h.1.2
  exact List.mem_map.2 ⟨v, hv, (jsonEqual_iff (hwf v hv) hinst).1 heq⟩

/-- Numbers compare as their exact values do, whatever they are held as, and values are equal just
where they are with these at every depth. -/
theorem number_order_exact :
    (∀ m n : JsonNumber, m.Held → n.Held →
      numberCmp m n = some (compare m.value n.value) ∧
      numberCmp n m = (numberCmp m n).map Ordering.swap ∧
      (numberLe m n ∨ numberLe n m) ∧
      (numberLe m n → numberLe n m → m.value = n.value)) ∧
    (∀ m n k : JsonNumber, m.Held → n.Held → k.Held →
      numberLe m n → numberLe n k → numberLe m k) ∧
    (∀ v w : Json, v.WellFormed → w.WellFormed →
      (jsonEqual v w = true ↔ v.canonical = w.canonical)) ∧
    Equivalence (fun v w : { v : Json // v.WellFormed } => jsonEqual v.1 w.1 = true) ∧
    (∀ values : List Json, (∀ v ∈ values, v.WellFormed) →
      (hasDuplicate [] values = false ↔ (values.map Json.canonical).Nodup)) ∧
    ∀ (schema : Fields) (inst : Json), inst.WellFormed → acceptsValue schema inst = true →
      (∀ expected, schema.lookup "const" = some expected → expected.WellFormed →
        expected.canonical = inst.canonical) ∧
      ∀ values, schema.lookup "enum" = some (.array values) → (∀ v ∈ values, v.WellFormed) →
        inst.canonical ∈ values.map Json.canonical := by
  refine ⟨?_, ?_, fun v w => jsonEqual_iff, ?_, ?_, ?_⟩
  · intro m n hm hn
    refine ⟨numberCmp_eq hm hn, ?_, ?_, ?_⟩
    · rw [numberCmp_eq hm hn, numberCmp_eq hn hm, Option.map_some, compare_swap]
    · rw [numberLe_iff hm hn, numberLe_iff hn hm]
      exact le_total _ _
    · rw [numberLe_iff hm hn, numberLe_iff hn hm]
      exact le_antisymm
  · intro m n k hm hn hk hmn hnk
    rw [numberLe_iff hm hn] at hmn
    rw [numberLe_iff hn hk] at hnk
    exact (numberLe_iff hm hk).2 (hmn.trans hnk)
  · exact {
      refl := fun v => (jsonEqual_iff v.2 v.2).2 rfl
      symm := fun {v w} h => (jsonEqual_iff w.2 v.2).2 ((jsonEqual_iff v.2 w.2).1 h).symm
      trans := fun {u v w} huv hvw => (jsonEqual_iff u.2 w.2).2
        (((jsonEqual_iff u.2 v.2).1 huv).trans ((jsonEqual_iff v.2 w.2).1 hvw)) }
  · intro values hvalues
    rw [hasDuplicate_eq_false_iff hvalues (by simp)]
    simp
  · intro schema inst hinst h
    exact ⟨fun expected hexpected hwf => acceptsValue_const h hexpected hwf hinst,
      fun values hvalues hwf => acceptsValue_enum h hvalues hwf hinst⟩

theorem number_order_adjacent :
    jsonEqual (.number (.posInt 9007199254740993)) (.number (.posInt 9007199254740992)) ≠ true ∧
    numberCmp (.negInt (-9223372036854775808)) (.float (-18446744073709551617 / 2)) = some .gt := by
  obtain ⟨hcmp, -, hequal, -⟩ := number_order_exact
  constructor
  · have hwf : ∀ n < 2 ^ 64, (Json.number (.posInt n)).WellFormed := fun n hn => ⟨trivial, hn⟩
    rw [Ne, hequal _ _ (hwf _ (by norm_num)) (hwf _ (by norm_num))]
    norm_num [Json.canonical, JsonNumber.value]
  · rw [(hcmp (.negInt (-9223372036854775808)) (.float (-18446744073709551617 / 2))
      (by norm_num [JsonNumber.Held]) trivial).1, Option.some.injEq, compare_gt_iff_gt]
    norm_num [JsonNumber.value]

end ToolSchema

end Emelex
