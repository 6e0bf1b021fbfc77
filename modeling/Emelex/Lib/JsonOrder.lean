import Emelex.Lib.JsonText
import Mathlib.Data.List.Nodup
import Mathlib.Data.List.Perm.Subperm

/-!
# The order of the fields

* `Json.reread` — a value that was read into maps ordered by key, with its floats as they were read.
* `Json.Same` — the same value, the order of the fields aside.

Principal results: `sortFields_eq_iff`, `perm_iff_lookup`, `same_reread`, `numbers_reread`.
-/

set_option autoImplicit false

namespace Json

variable {V : Type}

/-- A field in a map ordered by key. -/
def insertField (k : String) (v : V) : List (String × V) → List (String × V)
  | [] => [(k, v)]
  | field :: fields =>
    if k = field.1 then (k, v) :: fields
    else
      -- the instance that can be evaluated
      @ite _ (k < field.1) (String.decidableLT k field.1) ((k, v) :: field :: fields)
        (field :: insertField k v fields)

/-- The fields in the order of their keys; of a key that occurs twice the last one. -/
def sortFields (fields : List (String × V)) : List (String × V) :=
  fields.foldl (fun map field => insertField field.1 field.2 map) []

theorem insertField_perm {k : String} {v : V} {fields : List (String × V)}
    (h : k ∉ fields.map Prod.fst) : (insertField k v fields).Perm ((k, v) :: fields) := by
  induction fields with
  | nil => exact .refl _
  | cons field fields ih =>
    rw [List.map_cons, List.mem_cons, not_or] at h
    rw [insertField, if_neg h.1]
    split
    · exact .refl _
    · exact ((ih h.2).cons field).trans (.swap _ _ _)

theorem mem_insertField {k : String} {v : V} {fields : List (String × V)} {field : String × V}
    (h : field ∈ insertField k v fields) : field = (k, v) ∨ field ∈ fields := by
  induction fields with
  | nil => exact .inl (List.mem_singleton.1 h)
  | cons first fields ih =>
    rw [insertField] at h
    split at h
    · rcases List.mem_cons.1 h with rfl | h
      · exact .inl rfl
      · exact .inr (List.mem_cons_of_mem _ h)
    split at h
    · exact List.mem_cons.1 h
    · rcases List.mem_cons.1 h with rfl | h
      · exact .inr List.mem_cons_self
      · exact (ih h).imp_right (List.mem_cons_of_mem _)

theorem foldl_insertField_perm {fields map : List (String × V)}
    (h : ((map ++ fields).map Prod.fst).Nodup) :
    (fields.foldl (fun map field => insertField field.1 field.2 map) map).Perm (map ++ fields) := by
  induction fields generalizing map with
  | nil => rw [List.append_nil]; exact .refl _
  | cons field fields ih =>
    have hnot : field.1 ∉ map.map Prod.fst := by
      rw [List.map_append, List.nodup_append] at h
      intro hmem
      exact h.2.2 _ hmem _ List.mem_cons_self rfl
    have hperm : (insertField field.1 field.2 map ++ fields).Perm (map ++ field :: fields) :=
      ((insertField_perm hnot).append_right fields).trans List.perm_middle.symm
    exact (ih ((hperm.map Prod.fst).nodup_iff.2 h)).trans hperm

/-- Where the keys are distinct only the order changes. -/
theorem sortFields_perm {fields : List (String × V)} (h : (fields.map Prod.fst).Nodup) :
    (sortFields fields).Perm fields := foldl_insertField_perm h

theorem mem_sortFields {fields : List (String × V)} {field : String × V}
    (h : field ∈ sortFields fields) : field ∈ fields := by
  have hall : ∀ (fields map : List (String × V)),
      field ∈ fields.foldl (fun map field => insertField field.1 field.2 map) map →
      field ∈ map ∨ field ∈ fields := by
    intro fields
    induction fields with
    | nil => exact fun map hmem => .inl hmem
    | cons first fields ih =>
      intro map hmem
      rcases ih _ hmem with hmem | hmem
      · rcases mem_insertField hmem with rfl | hmem
        · exact .inr List.mem_cons_self
        · exact .inl hmem
      · exact .inr (List.mem_cons_of_mem _ hmem)
  exact (hall fields [] h).resolve_left List.not_mem_nil

/-! ## Keys -/

theorem insertField_sorted {k : String} {v : V} {fields : List (String × V)}
    (h : fields.Pairwise fun a b => a.1 < b.1) :
    (insertField k v fields).Pairwise fun a b => a.1 < b.1 := by
  induction fields with
  | nil => exact List.pairwise_singleton _ _
  | cons first fields ih =>
    obtain ⟨hfirst, hfields⟩ := List.pairwise_cons.1 h
    rw [insertField]
    split_ifs with heq hlt
    · subst heq
      exact List.pairwise_cons.2 ⟨hfirst, hfields⟩
    · refine List.pairwise_cons.2 ⟨fun field hfield => ?_, h⟩
      rcases List.mem_cons.1 hfield with rfl | hfield
      · exact hlt
      · exact String.lt_trans hlt (hfirst field hfield)
    · have hgt : first.1 < k :=
        String.not_le.1 fun hle => heq (String.le_antisymm hle (String.not_lt.1 hlt))
      refine List.pairwise_cons.2 ⟨fun field hfield => ?_, ih hfields⟩
      rcases mem_insertField hfield with rfl | hfield
      · exact hgt
      · exact hfirst field hfield

theorem sortFields_sorted (fields : List (String × V)) :
    (sortFields fields).Pairwise fun a b => a.1 < b.1 := by
  have hall : ∀ (fields map : List (String × V)), (map.Pairwise fun a b => a.1 < b.1) →
      (fields.foldl (fun map field => insertField field.1 field.2 map) map).Pairwise
        fun a b => a.1 < b.1 := by
    intro fields
    induction fields with
    | nil => exact fun _ h => h
    | cons field fields ih => exact fun map h => ih _ (insertField_sorted h)
  exact hall fields [] .nil

/-- Fields in the order of their keys, of two lists, are the same fields. -/
theorem sortFields_eq_iff {fields fields' : List (String × V)}
    (h : (fields.map Prod.fst).Nodup) (h' : (fields'.map Prod.fst).Nodup) :
    sortFields fields = sortFields fields' ↔ fields.Perm fields' := by
  have hperm := sortFields_perm h
  have hperm' := sortFields_perm h'
  constructor
  · intro heq
    rw [heq] at hperm
    exact hperm.symm.trans hperm'
  · intro hsame
    refine ((hperm.trans hsame).trans hperm'.symm).eq_of_pairwise ?_ (sortFields_sorted fields)
      (sortFields_sorted fields')
    exact fun a b _ _ hab hba => absurd (String.lt_trans hab hba) (String.lt_irrefl _)

theorem lookup_eq_some_iff_mem {fields : List (String × V)} (h : (fields.map Prod.fst).Nodup)
    {k : String} {v : V} : fields.lookup k = some v ↔ (k, v) ∈ fields := by
  induction fields with
  | nil => exact ⟨fun h => (by cases h), fun h => absurd h List.not_mem_nil⟩
  | cons field fields ih =>
    obtain ⟨hfield, hfields⟩ := List.nodup_cons.1 h
    rw [List.lookup_cons, List.mem_cons]
    by_cases heq : k = field.1
    · subst heq
      rw [beq_self_eq_true]
      constructor
      · rintro ⟨⟩
        exact .inl rfl
      · rintro (hsame | hmem)
        · exact congrArg some (congrArg Prod.snd hsame).symm
        · exact absurd (List.mem_map_of_mem hmem) hfield
    · rw [beq_false_of_ne heq]
      refine (ih hfields).trans ?_
      constructor
      · exact .inr
      · rintro (rfl | hmem)
        · exact absurd rfl heq
        · exact hmem

/-- As many fields, and each of one list is one of the other. -/
theorem perm_iff_lookup {fields fields' : List (String × V)}
    (h : (fields.map Prod.fst).Nodup) (h' : (fields'.map Prod.fst).Nodup) :
    fields.Perm fields' ↔ fields.length = fields'.length ∧
      ∀ field ∈ fields, fields'.lookup field.1 = some field.2 := by
  constructor
  · intro hperm
    exact ⟨hperm.length_eq, fun field hfield =>
      (lookup_eq_some_iff_mem h').2 (hperm.mem_iff.1 hfield)⟩
  · rintro ⟨hlength, hall⟩
    have hsub : fields ⊆ fields' := fun field hfield =>
      (lookup_eq_some_iff_mem h').1 (hall field hfield)
    have hnodup : fields.Nodup := List.Nodup.of_map Prod.fst h
    exact (List.subperm_of_subset hnodup hsub).perm_of_length_le hlength.ge

end Json

def JsonNumber.reread (float : Rat → Rat) : JsonNumber → JsonNumber
  | .float value => .float (float value)
  | n => n

namespace Json

section reread

variable (float : Rat → Rat)

mutual

def reread : Json → Json
  | null => null
  | bool b => bool b
  | .number n => .number (n.reread float)
  | string s => string s
  | array items => array (rereadItems items)
  | object fields => object (sortFields (rereadFields fields))

def rereadItems : List Json → List Json
  | [] => []
  | x :: xs => reread x :: rereadItems xs

def rereadFields : List (String × Json) → List (String × Json)
  | [] => []
  | (k, v) :: fields => (k, reread v) :: rereadFields fields

end

end reread

mutual

/-- No key occurs twice in an object. -/
def Distinct : Json → Prop
  | null | bool _ | .number _ | string _ => True
  | array items => ItemsDistinct items
  | object fields => (fields.map Prod.fst).Nodup ∧ FieldsDistinct fields

def ItemsDistinct : List Json → Prop
  | [] => True
  | x :: xs => Distinct x ∧ ItemsDistinct xs

def FieldsDistinct : List (String × Json) → Prop
  | [] => True
  | (_, v) :: fields => Distinct v ∧ FieldsDistinct fields

end

mutual

/-- The same value, the order of the fields aside. -/
inductive Same : Json → Json → Prop
  | null : Same null null
  | bool (b : Bool) : Same (bool b) (bool b)
  | number (n : JsonNumber) : Same (.number n) (.number n)
  | string (s : String) : Same (string s) (string s)
  | array {xs ys : List Json} (h : SameItems xs ys) : Same (array xs) (array ys)
  | object {fields fields' fields'' : List (String × Json)} (h : SameFields fields fields')
    (hperm : fields''.Perm fields') : Same (object fields) (object fields'')

inductive SameItems : List Json → List Json → Prop
  | nil : SameItems [] []
  | cons {x y : Json} {xs ys : List Json} (hx : Same x y) (h : SameItems xs ys) :
    SameItems (x :: xs) (y :: ys)

inductive SameFields : List (String × Json) → List (String × Json) → Prop
  | nil : SameFields [] []
  | cons {k : String} {v w : Json} {fields fields' : List (String × Json)} (hv : Same v w)
    (h : SameFields fields fields') : SameFields ((k, v) :: fields) ((k, w) :: fields')

end

theorem rereadFields_keys (float : Rat → Rat) (fields : List (String × Json)) :
    (rereadFields float fields).map Prod.fst = fields.map Prod.fst := by
  induction fields with
  | nil => rfl
  | cons field fields ih => rw [rereadFields, List.map_cons, List.map_cons, ih]

section reread

variable {float : Rat → Rat}

mutual

/-- What is read again is the same value, where its floats are read as they are. -/
theorem same_reread : ∀ v : Json, Distinct v → Numbers (fun n => n.reread float = n) v →
    Same v (reread float v)
  | null, _, _ => .null
  | bool b, _, _ => .bool b
  | .number n, _, hn => by
    rw [reread, show n.reread float = n from hn]
    exact .number n
  | string s, _, _ => .string s
  | array items, hdistinct, hnumbers => .array (sameItems_reread items hdistinct hnumbers)
  | object fields, hdistinct, hnumbers =>
    .object (sameFields_reread fields hdistinct.2 hnumbers)
      (sortFields_perm (by rw [rereadFields_keys]; exact hdistinct.1))

theorem sameItems_reread : ∀ xs : List Json, ItemsDistinct xs →
    ItemNumbers (fun n => n.reread float = n) xs → SameItems xs (rereadItems float xs)
  | [], _, _ => .nil
  | x :: xs, hdistinct, hnumbers =>
    .cons (same_reread x hdistinct.1 hnumbers.1) (sameItems_reread xs hdistinct.2 hnumbers.2)

theorem sameFields_reread : ∀ fields : List (String × Json), FieldsDistinct fields →
    FieldNumbers (fun n => n.reread float = n) fields →
    SameFields fields (rereadFields float fields)
  | [], _, _ => .nil
  | (_, v) :: fields, hdistinct, hnumbers =>
    .cons (same_reread v hdistinct.1 hnumbers.1) (sameFields_reread fields hdistinct.2 hnumbers.2)

end

theorem fieldNumbers_iff {p : JsonNumber → Prop} {fields : List (String × Json)} :
    FieldNumbers p fields ↔ ∀ field ∈ fields, Numbers p field.2 := by
  induction fields with
  | nil => exact ⟨fun _ field h => absurd h List.not_mem_nil, fun _ => trivial⟩
  | cons field fields ih => rw [FieldNumbers, ih, List.forall_mem_cons]

mutual

theorem numbers_reread {p q : JsonNumber → Prop} (h : ∀ n, p n → q (n.reread float)) :
    ∀ v : Json, Numbers p v → Numbers q (reread float v)
  | null, _ | bool _, _ | string _, _ => trivial
  | .number n, hn => h n hn
  | array items, hitems => itemNumbers_reread h items hitems
  | object fields, hfields => by
    have hall := fieldNumbers_iff.1 (fieldNumbers_reread h fields hfields)
    exact fieldNumbers_iff.2 fun field hfield => hall field (mem_sortFields hfield)

theorem itemNumbers_reread {p q : JsonNumber → Prop} (h : ∀ n, p n → q (n.reread float)) :
    ∀ xs : List Json, ItemNumbers p xs → ItemNumbers q (rereadItems float xs)
  | [], _ => trivial
  | x :: xs, hxs => ⟨numbers_reread h x hxs.1, itemNumbers_reread h xs hxs.2⟩

theorem fieldNumbers_reread {p q : JsonNumber → Prop} (h : ∀ n, p n → q (n.reread float)) :
    ∀ fields : List (String × Json), FieldNumbers p fields →
      FieldNumbers q (rereadFields float fields)
  | [], _ => trivial
  | (_, v) :: fields, hfields =>
    ⟨numbers_reread h v hfields.1, fieldNumbers_reread h fields hfields.2⟩

end

mutual

theorem Numbers.imp {p q : JsonNumber → Prop} (h : ∀ n, p n → q n) :
    ∀ v : Json, Numbers p v → Numbers q v
  | null, _ | bool _, _ | string _, _ => trivial
  | .number n, hn => h n hn
  | array items, hitems => ItemNumbers.imp h items hitems
  | object fields, hfields => FieldNumbers.imp h fields hfields

theorem ItemNumbers.imp {p q : JsonNumber → Prop} (h : ∀ n, p n → q n) :
    ∀ xs : List Json, ItemNumbers p xs → ItemNumbers q xs
  | [], _ => trivial
  | x :: xs, hxs => ⟨Numbers.imp h x hxs.1, ItemNumbers.imp h xs hxs.2⟩

theorem FieldNumbers.imp {p q : JsonNumber → Prop} (h : ∀ n, p n → q n) :
    ∀ fields : List (String × Json), FieldNumbers p fields → FieldNumbers q fields
  | [], _ => trivial
  | (_, v) :: fields, hfields => ⟨Numbers.imp h v hfields.1, FieldNumbers.imp h fields hfields.2⟩

end

end reread

end Json
