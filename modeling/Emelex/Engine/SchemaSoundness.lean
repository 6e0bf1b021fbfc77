import Emelex.Engine.SchemaSemantics
import Emelex.Lib.Budget

/-!
# The checker and the meaning of a schema

* `decides_accepts` — a check takes at most the product of the two sizes, and while something of the
  budget is left, it answers what the schema means.
* `sound_accepts` — without negation an acceptance is right also where the budget is exhausted.

Principal results: `arguments_decided`, `positive_arguments_sound`.
-/

set_option autoImplicit false

namespace Emelex

namespace ToolSchema

open Budget (Spends Decides Answers Sound Always)

/-! ## The checker's computations -/

theorem consume_eq : consume = Budget.unit := rfl

theorem andAlso_eq (m k : StateM Nat Bool) : andAlso m k = Budget.both m k := rfl

theorem countM_eq {α : Type} (test : α → StateM Nat Bool) (as : List α) :
    countM test as = Budget.count test as := by
  induction as with
  | nil => rfl
  | cons a as ih => rw [countM, ih, Budget.count]

/-! ## The children of a schema -/

/-- The size of some children. -/
def weight (children : List Json) : Nat := (children.map schemaNodes).sum

theorem schemaNodes_le_weight {child : Json} {children : List Json} (h : child ∈ children) :
    schemaNodes child ≤ weight children :=
  List.single_le_sum (fun _ _ => Nat.zero_le _) _ (List.mem_map_of_mem h)

/-- The weight of a schema's children, keyword by keyword. -/
theorem weight_subschemas (schema : Fields) : weight (subschemas schema) =
    weight (arrayChildren schema "allOf") + weight (arrayChildren schema "anyOf") +
      weight (arrayChildren schema "oneOf") + weight (arrayChildren schema "prefixItems") +
      (weight (onlyChildren schema "not") + weight (onlyChildren schema "if") +
        weight (onlyChildren schema "then") + weight (onlyChildren schema "else") +
        weight (onlyChildren schema "items") + weight (onlyChildren schema "contains") +
        weight (onlyChildren schema "propertyNames") +
        weight (onlyChildren schema "additionalProperties")) +
      (weight ((namedChildren schema "properties").map Prod.snd) +
        weight ((namedChildren schema "dependentSchemas").map Prod.snd)) := by
  simp only [weight, subschemas, List.flatMap_cons, List.flatMap_nil, List.append_nil,
    List.map_append, List.sum_append]
  omega

theorem mem_array {schema : Fields} {child : Json} (keyword : String)
    (hkeyword : keyword ∈ ["allOf", "anyOf", "oneOf", "prefixItems"])
    (h : child ∈ arrayChildren schema keyword) : child ∈ subschemas schema := by
  unfold subschemas
  simp only [List.mem_append, List.mem_flatMap]
  exact .inl (.inl ⟨keyword, hkeyword, h⟩)

theorem mem_only {schema : Fields} {child : Json} (keyword : String)
    (hkeyword : keyword ∈ ["not", "if", "then", "else", "items", "contains", "propertyNames",
      "additionalProperties"])
    (h : schema.lookup keyword = some child) : child ∈ subschemas schema := by
  unfold subschemas
  simp only [List.mem_append, List.mem_flatMap]
  exact .inl (.inr ⟨keyword, hkeyword, Option.mem_toList.2 h⟩)

theorem mem_named {schema : Fields} {child : String × Json} (keyword : String)
    (hkeyword : keyword ∈ ["properties", "dependentSchemas"])
    (h : child ∈ namedChildren schema keyword) : child.2 ∈ subschemas schema := by
  unfold subschemas
  simp only [List.mem_append, List.mem_flatMap]
  exact .inr ⟨keyword, hkeyword, List.mem_map_of_mem h⟩

theorem mem_of_lookup {fields : Fields} {key : String} {value : Json}
    (h : fields.lookup key = some value) : ∃ name, (name, value) ∈ fields := by
  induction fields with
  | nil => cases h
  | cons field fields ih =>
    rw [List.lookup_cons] at h
    cases hkey : (key == field.1) with
    | true =>
      rw [hkey] at h
      cases h
      exact ⟨field.1, List.mem_cons_self⟩
    | false =>
      rw [hkey] at h
      obtain ⟨name, hmem⟩ := ih h
      exact ⟨name, List.mem_cons_of_mem _ hmem⟩

/-! ## What the keywords take and answer -/

section children

variable {accepts : Json → Json → StateM Nat Bool} {V : Json → Json → Prop} {schema : Fields}

/-- The check of a child takes the product of the sizes, and answers what the child means; matches
are counted in 64 bits. -/
def ChildrenDecided (accepts : Json → Json → StateM Nat Bool) (V : Json → Json → Prop)
    (schema : Fields) : Prop :=
  ∀ child ∈ subschemas schema, ∀ inst, instanceNodes inst < 2 ^ 64 →
    Decides (accepts child inst) (schemaNodes child * instanceNodes inst) (V child inst)

theorem sum_mul_right {α : Type} (f : α → Nat) (as : List α) (n : Nat) :
    (as.map fun a => f a * n).sum = (as.map f).sum * n := by
  induction as with
  | nil => simp
  | cons a as ih => simp [ih, Nat.add_mul]

theorem sum_mul_left {α : Type} (f : α → Nat) (as : List α) (n : Nat) :
    (as.map fun a => n * f a).sum = n * (as.map f).sum := by
  induction as with
  | nil => simp
  | cons a as ih => simp [ih, Nat.mul_add]

/-- The costs of some children on one instance. -/
theorem weight_mul (children : List Json) (n : Nat) :
    weight children * n = (children.map fun child => schemaNodes child * n).sum :=
  (sum_mul_right schemaNodes children n).symm

theorem arrayChildren_none {keyword : String} (h : childSchemas schema keyword = none) :
    arrayChildren schema keyword = [] := by
  unfold childSchemas at h
  rw [arrayChildren, h, Option.getD_none]

theorem arrayChildren_some {keyword : String} {children : List Json}
    (h : childSchemas schema keyword = some children) :
    arrayChildren schema keyword = children := by
  unfold childSchemas at h
  rw [arrayChildren, h, Option.getD_some]

theorem onlyChildren_some {keyword : String} {child : Json}
    (h : schema.lookup keyword = some child) : weight (onlyChildren schema keyword) =
      schemaNodes child := by
  rw [onlyChildren, h, weight, Option.toList_some, List.map_singleton, List.sum_singleton]

open Classical in
/-- The keywords for every instance. -/
theorem decides_applicators (h : ChildrenDecided accepts V schema) (inst : Json)
    (hinst : instanceNodes inst < 2 ^ 64) :
    Decides (schemaAcceptsApplicators accepts schema inst)
      (weight (arrayChildren schema "allOf") * instanceNodes inst +
        (weight (arrayChildren schema "anyOf") * instanceNodes inst +
          (weight (arrayChildren schema "oneOf") * instanceNodes inst +
            (weight (onlyChildren schema "not") * instanceNodes inst +
              (weight (onlyChildren schema "if") * instanceNodes inst +
                (weight (onlyChildren schema "then") + weight (onlyChildren schema "else")) *
                  instanceNodes inst)))))
      (Applicators V schema inst) := by
  have hchildren : ∀ keyword ∈ ["allOf", "anyOf", "oneOf", "prefixItems"],
      ∀ child ∈ arrayChildren schema keyword,
        Decides (accepts child inst) (schemaNodes child * instanceNodes inst) (V child inst) :=
    fun keyword hkeyword child hchild =>
      h child (mem_array keyword hkeyword hchild) inst hinst
  have honly : ∀ keyword ∈ ["not", "if", "then", "else", "items", "contains", "propertyNames",
      "additionalProperties"], ∀ child, schema.lookup keyword = some child →
        Decides (accepts child inst)
          (weight (onlyChildren schema keyword) * instanceNodes inst) (V child inst) := by
    intro keyword hkeyword child hchild
    rw [onlyChildren_some hchild]
    exact h child (mem_only keyword hkeyword hchild) inst hinst
  unfold schemaAcceptsApplicators Applicators
  simp only [andAlso_eq, countM_eq]
  apply Decides.both
  · rw [weight_mul]
    cases hall : childSchemas schema "allOf" with
    | none =>
      rw [arrayChildren_none hall]
      apply Budget.answers_pure
      simp
    | some children =>
      have hmem := hchildren "allOf" (by simp)
      rw [arrayChildren_some hall] at hmem ⊢
      exact Budget.decides_allM hmem
  apply Decides.both
  · rw [weight_mul]
    cases hany : childSchemas schema "anyOf" with
    | none =>
      apply Budget.answers_pure
      simp
    | some children =>
      have hmem := hchildren "anyOf" (by simp)
      rw [arrayChildren_some hany] at hmem ⊢
      apply (Budget.decides_anyM hmem).congr (Nat.le_refl _)
      simp
  apply Decides.both
  · rw [weight_mul]
    cases hone : childSchemas schema "oneOf" with
    | none =>
      apply Budget.answers_pure
      simp
    | some children =>
      have hmem := hchildren "oneOf" (by simp)
      rw [arrayChildren_some hone] at hmem ⊢
      have hcount := Budget.answers_count (p := fun child => decide (V child inst))
        fun child hchild => (hmem child hchild).congr (Nat.le_refl _) decide_eq_true_iff.symm
      apply hcount.map
      intro matching hmatching
      rw [hmatching]
      simp
  apply Decides.both
  · cases hnot : schema.lookup "not" with
    | none =>
      apply Budget.answers_pure
      simp
    | some child =>
      apply Answers.map (honly "not" (by simp) child hnot) fun accepted => !accepted
      intro accepted haccepted
      simp [← haccepted]
  · cases hif : schema.lookup "if" with
    | none =>
      apply Budget.answers_pure
      simp
    | some condition =>
      -- the branch that is not taken is weighed as well
      have hthen : ∀ child, schema.lookup "then" = some child → Decides (accepts child inst)
          ((weight (onlyChildren schema "then") + weight (onlyChildren schema "else")) *
            instanceNodes inst) (V child inst) := by
        intro child hchild
        apply (honly "then" (by simp) child hchild).congr _ Iff.rfl
        exact Nat.mul_le_mul_right _ (Nat.le_add_right _ _)
      have helse : ∀ child, schema.lookup "else" = some child → Decides (accepts child inst)
          ((weight (onlyChildren schema "then") + weight (onlyChildren schema "else")) *
            instanceNodes inst) (V child inst) := by
        intro child hchild
        apply (honly "else" (by simp) child hchild).congr _ Iff.rfl
        exact Nat.mul_le_mul_right _ (Nat.le_add_left _ _)
      apply Answers.bind (honly "if" (by simp) condition hif)
      · intro matching
        cases matching with
        | true =>
          cases hchild : schema.lookup "then" with
          | none => simpa [hchild] using Budget.spends_pure true _
          | some child => simpa [hchild] using (hthen child hchild).spends
        | false =>
          cases hchild : schema.lookup "else" with
          | none => simpa [hchild] using Budget.spends_pure true _
          | some child => simpa [hchild] using (helse child hchild).spends
      · intro matching hmatching
        cases matching with
        | true =>
          have hV := hmatching.1 rfl
          cases hchild : schema.lookup "then" with
          | none =>
            simp only [if_true, hchild]
            apply Budget.answers_pure
            simp [hV]
          | some child =>
            simp only [if_true, hchild]
            apply (hthen child hchild).congr (Nat.le_refl _)
            simp [hV]
        | false =>
          have hV : ¬ V condition inst := fun hV => Bool.false_ne_true (hmatching.2 hV)
          cases hchild : schema.lookup "else" with
          | none =>
            simp only [Bool.false_eq_true, if_false, hchild]
            apply Budget.answers_pure
            simp [hV]
          | some child =>
            simp only [Bool.false_eq_true, if_false, hchild]
            apply (helse child hchild).congr (Nat.le_refl _)
            simp [hV]

/-- A child that is the same for all values. -/
theorem decides_each (h : ChildrenDecided accepts V schema) {child : Json}
    (hchild : child ∈ subschemas schema) (values : List Json)
    (hvalues : ∀ value ∈ values, instanceNodes value < 2 ^ 64) :
    Decides (values.allM fun value => accepts child value)
      (schemaNodes child * itemNodes values) (∀ value ∈ values, V child value) := by
  rw [itemNodes_eq, ← sum_mul_left]
  apply Budget.decides_allM
  intro value hvalue
  exact h child hchild value (hvalues value hvalue)

theorem properties_lookup (name : String) :
    (((schema.lookup "properties").bind Json.asObject).bind
      fun properties => properties.lookup name) =
      (namedChildren schema "properties").lookup name := by
  unfold namedChildren
  cases (schema.lookup "properties").bind Json.asObject <;> rfl

theorem decides_object (h : ChildrenDecided accepts V schema) (inst : Fields)
    (hinst : instanceNodes (.object inst) < 2 ^ 64) :
    Decides (schemaAcceptsObject accepts schema inst)
      (weight (onlyChildren schema "propertyNames") * inst.length +
        ((weight ((namedChildren schema "properties").map Prod.snd) +
          weight (onlyChildren schema "additionalProperties")) *
            (inst.map fun field => instanceNodes field.2).sum +
        weight ((namedChildren schema "dependentSchemas").map Prod.snd) *
          instanceNodes (.object inst)))
      (ObjectKeywords V schema inst) := by
  unfold schemaAcceptsObject ObjectKeywords
  split
  · rename_i hbounds
    apply Budget.answers_pure
    simp only [Bool.not_eq_true'] at hbounds
    simp [hbounds]
  rename_i hbounds
  split
  · rename_i hrequired
    apply Budget.answers_pure
    simp [hrequired]
  rename_i hrequired
  simp only [Bool.not_eq_true', Bool.not_eq_false] at hbounds hrequired
  simp only [andAlso_eq, properties_lookup, hbounds, hrequired, true_and]
  apply Decides.both
  · cases hnames : schema.lookup "propertyNames" with
    | none =>
      apply Budget.answers_pure
      simp
    | some names =>
      have hchild := mem_only "propertyNames" (by simp) hnames
      have hall : Decides (inst.allM fun field => accepts names (.string field.1)) _
          (∀ field ∈ inst, V names (.string field.1)) :=
        Budget.decides_allM fun field _ =>
          h names hchild (.string field.1) (by simp [instanceNodes])
      apply hall.congr
      · simp [onlyChildren_some hnames, instanceNodes, Nat.mul_comm]
      · simp
  apply Decides.both
  · rw [← sum_mul_left]
    apply Budget.decides_allM
    intro field hfield
    have hvalue : instanceNodes field.2 < 2 ^ 64 := by
      have hle := field_le_fieldNodes hfield
      rw [instanceNodes] at hinst
      omega
    cases hproperty : (namedChildren schema "properties").lookup field.1 with
    | some property =>
      obtain ⟨name, hmem⟩ := mem_of_lookup hproperty
      apply (h property (mem_named "properties" (by simp) hmem) field.2 hvalue).congr
      · apply Nat.mul_le_mul_right
        have hweight := schemaNodes_le_weight (List.mem_map_of_mem (f := Prod.snd) hmem)
        exact Nat.le_trans hweight (Nat.le_add_right _ _)
      · simp
    | none =>
      cases hadditional : schema.lookup "additionalProperties" with
      | some additional =>
        apply (h additional (mem_only "additionalProperties" (by simp) hadditional) field.2
          hvalue).congr
        · apply Nat.mul_le_mul_right
          rw [onlyChildren_some hadditional]
          exact Nat.le_add_left _ _
        · simp
      | none =>
        apply Budget.answers_pure
        simp
  · unfold namedChildren
    split
    · rename_i hdependent
      apply Budget.answers_pure
      simp [hdependent]
    · rename_i hdependent
      simp only [Bool.not_eq_true] at hdependent
      simp only [hdependent, true_and]
      rw [weight_mul, List.map_map]
      apply Budget.decides_allM
      intro field hfield
      cases hpresent : (inst.lookup field.1).isSome with
      | true =>
        apply (h field.2 (mem_named "dependentSchemas" (by simp) hfield) (.object inst)
          hinst).congr
        · exact Nat.le_refl _
        · simp
      | false =>
        apply Budget.answers_pure
        simp

theorem itemNodes_drop_le (values : List Json) (n : Nat) :
    itemNodes (values.drop n) ≤ itemNodes values := by
  rw [itemNodes_eq, itemNodes_eq]
  exact ((List.drop_sublist n values).map _).sum_le_sum fun _ _ => Nat.zero_le _

/-- Each child of a tuple is weighed against the whole array. -/
theorem zip_cost_le (children : List Json) (values : List Json) :
    ((values.zip children).map fun pair => schemaNodes pair.2 * instanceNodes pair.1).sum ≤
      weight children * itemNodes values := by
  induction values generalizing children with
  | nil => simp
  | cons value values ih =>
    cases children with
    | nil => simp
    | cons child children =>
      have hrest := ih children
      simp only [List.zip_cons_cons, List.map_cons, List.sum_cons, weight, itemNodes] at hrest ⊢
      nlinarith [Nat.zero_le (schemaNodes child * itemNodes values),
        Nat.zero_le ((children.map schemaNodes).sum * instanceNodes value)]

open Classical in
theorem decides_array (h : ChildrenDecided accepts V schema) (inst : List Json)
    (hinst : instanceNodes (.array inst) < 2 ^ 64) :
    Decides (schemaAcceptsArray accepts schema inst)
      (weight (arrayChildren schema "prefixItems") * itemNodes inst +
        (weight (onlyChildren schema "items") * itemNodes inst +
          weight (onlyChildren schema "contains") * itemNodes inst))
      (ArrayKeywords V schema inst) := by
  have hvalues : ∀ value ∈ inst, instanceNodes value < 2 ^ 64 := by
    intro value hvalue
    have hle := item_le_itemNodes hvalue
    rw [instanceNodes] at hinst
    omega
  unfold schemaAcceptsArray ArrayKeywords
  dsimp only
  split
  · rename_i hhead
    apply Budget.answers_pure
    simp only [Bool.or_eq_true, Bool.not_eq_true'] at hhead
    rcases hhead with hbounds | hunique
    · simp [hbounds]
    · simp [hunique]
  rename_i hhead
  simp only [Bool.or_eq_true, Bool.not_eq_true', not_or, Bool.not_eq_false, Bool.not_eq_true]
    at hhead
  simp only [andAlso_eq, countM_eq, hhead.1, hhead.2, true_and]
  apply Decides.both
  · have hprefix : Decides
        ((inst.zip (arrayChildren schema "prefixItems")).allM fun pair => accepts pair.2 pair.1) _
        (∀ pair ∈ inst.zip (arrayChildren schema "prefixItems"), V pair.2 pair.1) :=
      Budget.decides_allM fun pair hpair =>
        h pair.2 (mem_array "prefixItems" (by simp) (List.of_mem_zip hpair).2) pair.1
          (hvalues pair.1 (List.of_mem_zip hpair).1)
    exact hprefix.congr (zip_cost_le _ _) Iff.rfl
  apply Decides.both
  · cases hitems : schema.lookup "items" with
    | none =>
      apply Budget.answers_pure
      simp
    | some items =>
      have hrest : ∀ value ∈ inst.drop (arrayChildren schema "prefixItems").length,
          instanceNodes value < 2 ^ 64 :=
        fun value hvalue => hvalues value (List.mem_of_mem_drop hvalue)
      apply (decides_each h (mem_only "items" (by simp) hitems) _ hrest).congr
      · rw [onlyChildren_some hitems]
        exact Nat.mul_le_mul_left _ (itemNodes_drop_le inst _)
      · simp [arrayChildren]
  · cases hcontains : schema.lookup "contains" with
    | none =>
      apply Budget.answers_pure
      simp
    | some contains =>
      rw [onlyChildren_some hcontains, itemNodes_eq, ← sum_mul_left]
      have hcount := Budget.answers_count (p := fun value => decide (V contains value))
        fun value (hvalue : value ∈ inst) =>
          (h contains (mem_only "contains" (by simp) hcontains) value (hvalues value hvalue)).congr
            (Nat.le_refl _) decide_eq_true_iff.symm
      apply hcount.map
      intro matching hmatching
      rw [hmatching]
      cases hmaximum : (schema.lookup "maxContains").bind Json.asU64 with
      | some maximum => simp
      | none =>
        have hlength := length_le_itemNodes inst
        have hle := List.countP_le_length (p := fun value => decide (V contains value)) (l := inst)
        rw [instanceNodes] at hinst
        simp only [Option.getD_none, Bool.and_eq_true, decide_eq_true_eq]
        constructor
        · rintro ⟨hminimum, -⟩ contains' hcontains'
          cases hcontains'
          refine ⟨hminimum, ?_⟩
          intro maximum hnone
          cases hnone
        · intro hall
          exact ⟨(hall contains rfl).1, by omega⟩

/-- The weights of all keywords make up the size of the schema. -/
theorem decides_object_cost (inst : Fields) :
    weight (onlyChildren schema "propertyNames") * inst.length +
        ((weight ((namedChildren schema "properties").map Prod.snd) +
          weight (onlyChildren schema "additionalProperties")) *
            (inst.map fun field => instanceNodes field.2).sum +
        weight ((namedChildren schema "dependentSchemas").map Prod.snd) *
          instanceNodes (.object inst)) ≤
      (weight (onlyChildren schema "propertyNames") +
        (weight ((namedChildren schema "properties").map Prod.snd) +
          weight (onlyChildren schema "additionalProperties")) +
        weight ((namedChildren schema "dependentSchemas").map Prod.snd)) *
          instanceNodes (.object inst) := by
  have hnodes : instanceNodes (.object inst) =
      1 + (inst.length + (inst.map fun field => instanceNodes field.2).sum) := by
    rw [instanceNodes, fieldNodes_eq]
  have hnames := Nat.mul_le_mul_left (weight (onlyChildren schema "propertyNames"))
    (show inst.length ≤ instanceNodes (.object inst) by omega)
  have hvalues := Nat.mul_le_mul_left (weight ((namedChildren schema "properties").map Prod.snd) +
      weight (onlyChildren schema "additionalProperties"))
    (show (inst.map fun field => instanceNodes field.2).sum ≤ instanceNodes (.object inst) by omega)
  simp only [Nat.add_mul] at hvalues ⊢
  omega

/-- The keywords for the kind of the instance come last. -/
theorem decides_keywords (h : ChildrenDecided accepts V schema) {inst : Json}
    (hinst : instanceNodes inst < 2 ^ 64)
    {kind : StateM Nat Bool} {cost : Nat} (hkind : Decides kind cost (KindKeywords V schema inst))
    (hcost : cost ≤ (weight (arrayChildren schema "prefixItems") +
        (weight (onlyChildren schema "items") + weight (onlyChildren schema "contains") +
          weight (onlyChildren schema "propertyNames") +
          weight (onlyChildren schema "additionalProperties")) +
        (weight ((namedChildren schema "properties").map Prod.snd) +
          weight ((namedChildren schema "dependentSchemas").map Prod.snd))) * instanceNodes inst) :
    Decides (andAlso consume (if acceptsValue schema inst then
        andAlso (schemaAcceptsApplicators accepts schema inst) kind else pure false))
      (schemaNodes (.object schema) * instanceNodes inst) (Keywords V schema inst) := by
  have hpos := instanceNodes_pos inst
  have hnodes : schemaNodes (.object schema) = 1 + weight (subschemas schema) :=
    schemaNodes_object schema
  have hboth := (decides_applicators h inst hinst).both hkind
  rw [andAlso_eq, consume_eq, andAlso_eq]
  have hrest : Decides (if acceptsValue schema inst then
      Budget.both (schemaAcceptsApplicators accepts schema inst) kind else pure false)
      (weight (subschemas schema) * instanceNodes inst) (Keywords V schema inst) := by
    unfold Keywords
    split
    · rename_i hvalue
      apply hboth.congr
      · rw [weight_subschemas]
        simp only [Nat.add_mul] at hcost ⊢
        omega
      · simp [hvalue]
    · rename_i hvalue
      apply Budget.answers_pure
      simp [hvalue]
  apply (Budget.decides_unit.both hrest).congr
  · rw [hnodes, Nat.add_mul]
    omega
  · simp

end children

/-! ## Nesting -/

/-- The schema is nested less deeply than `levels`. -/
def NestedWithin : Nat → Json → Prop
  | 0, _ => False
  | levels + 1, .object fields => ∀ child ∈ subschemas fields, NestedWithin levels child
  | _ + 1, _ => True

/-- **A check takes at most the product of the sizes, and answers what the schema means.** -/
theorem decides_accepts (levels : Nat) (schema : Json) (h : NestedWithin levels schema)
    (inst : Json) (hinst : instanceNodes inst < 2 ^ 64) :
    Decides (schemaAccepts levels schema inst) (schemaNodes schema * instanceNodes inst)
      (Valid schema inst) := by
  induction levels generalizing schema inst with
  | zero => cases h
  | succ levels ih =>
    cases schema with
    | object fields =>
      have hchildren : ChildrenDecided (schemaAccepts levels)
          (fun child value => ∃ _ : child ∈ subschemas fields, Valid child value) fields := by
        intro child hchild value hvalue
        apply (ih child (h child hchild) value hvalue).congr (Nat.le_refl _)
        exact ⟨fun hvalid => ⟨hchild, hvalid⟩, fun ⟨_, hvalid⟩ => hvalid⟩
      rw [Valid]
      unfold schemaAccepts
      cases inst with
      | object values =>
        apply decides_keywords hchildren hinst (decides_object hchildren values hinst)
        apply (decides_object_cost values).trans
        apply Nat.mul_le_mul_right
        omega
      | array values =>
        apply decides_keywords hchildren hinst (decides_array hchildren values hinst)
        have hitems : itemNodes values ≤ instanceNodes (.array values) := by
          rw [instanceNodes]
          omega
        rw [← Nat.add_mul, ← Nat.add_mul]
        apply Nat.mul_le_mul _ hitems
        omega
      | string value =>
        exact decides_keywords hchildren hinst (Budget.answers_pure 0 Iff.rfl) (Nat.zero_le _)
      | number value =>
        exact decides_keywords hchildren hinst (Budget.answers_pure 0 Iff.rfl) (Nat.zero_le _)
      | null | bool _ =>
        exact decides_keywords hchildren hinst (Budget.answers_pure 0 (by simp [KindKeywords]))
          (Nat.zero_le _)
    | bool accepts =>
      have hanswer : Decides (pure accepts) 0 (Valid (.bool accepts) inst) := by
        unfold Valid
        exact Budget.answers_pure 0 Iff.rfl
      unfold schemaAccepts
      rw [andAlso_eq, consume_eq]
      apply (Budget.decides_unit.both hanswer).congr _ (by simp)
      exact Nat.mul_le_mul (schemaNodes_pos _) (instanceNodes_pos inst)
    | null | number _ | string _ | array _ =>
      have hrefused : Decides (pure false) 0 False := Budget.answers_pure 0 (by simp)
      unfold Valid schemaAccepts
      rw [andAlso_eq, consume_eq]
      apply (Budget.decides_unit.both hrefused).congr _ (by simp)
      exact Nat.mul_le_mul (schemaNodes_pos _) (instanceNodes_pos inst)

/-! ## Checked schemas are not nested too deeply -/

theorem bind_ok {α β : Type} {m : Validation α} {k : α → Validation β} {budget : Nat}
    {r : β × Nat} (h : (m >>= k) budget = .ok r) :
    ∃ a rest, m budget = .ok (a, rest) ∧ k a rest = .ok r := by
  cases hm : m budget with
  | error e =>
    have herror : (m >>= k) budget = .error e := by
      show (m budget >>= _) = _
      rw [hm]
      rfl
    rw [herror] at h
    cases h
  | ok p =>
    refine ⟨p.1, p.2, rfl, ?_⟩
    have hok : (m >>= k) budget = k p.1 p.2 := by
      show (m budget >>= _) = _
      rw [hm]
      rfl
    rw [← hok]
    exact h

theorem forM_ok {α : Type} {f : α → Validation Unit} {as : List α} {budget : Nat}
    {r : Unit × Nat} (h : as.forM f budget = .ok r) :
    ∀ a ∈ as, ∃ budget r, f a budget = .ok r := by
  induction as generalizing budget with
  | nil => simp
  | cons a as ih =>
    obtain ⟨u, rest, hhead, htail⟩ := bind_ok h
    intro b hb
    rcases List.mem_cons.1 hb with rfl | hb
    · exact ⟨budget, _, hhead⟩
    · exact ih htail b hb

theorem lift_ok {α : Type} {m : Except String α} {budget : Nat} {r : α × Nat}
    (h : (liftM m : Validation α) budget = .ok r) : m = .ok r.1 := by
  cases m with
  | error e => cases h
  | ok a =>
    cases h
    rfl

theorem schemaArray_ok {schema : Fields} {keyword : String} {children : List Json}
    (h : schemaArray schema keyword = .ok children) :
    arrayChildren schema keyword = children := by
  unfold schemaArray at h
  unfold arrayChildren
  cases hlookup : schema.lookup keyword with
  | none =>
    rw [hlookup] at h
    cases h
    rfl
  | some value =>
    rw [hlookup] at h
    dsimp only at h
    split at h
    · cases h
    · rename_i items hfilter
      cases h
      rw [Option.filter_eq_some_iff] at hfilter
      rw [Option.bind_some, hfilter.1, Option.getD_some]

theorem schemaFields_ok {schema : Fields} {keyword : String} {children : List Json}
    (h : schemaFields schema keyword = .ok children) :
    (namedChildren schema keyword).map Prod.snd = children := by
  unfold schemaFields at h
  unfold namedChildren
  cases hlookup : schema.lookup keyword with
  | none =>
    rw [hlookup] at h
    cases h
    rfl
  | some value =>
    rw [hlookup] at h
    dsimp only at h
    split at h
    · cases h
    · rename_i items hobject
      cases h
      rw [Option.bind_some, hobject, Option.getD_some]

theorem prefixSchemas_ok {schema : Fields} {children : List Json}
    (h : prefixSchemas schema = .ok children) : arrayChildren schema "prefixItems" = children := by
  unfold prefixSchemas at h
  unfold arrayChildren
  cases hlookup : schema.lookup "prefixItems" with
  | none =>
    rw [hlookup] at h
    cases h
    rfl
  | some value =>
    rw [hlookup] at h
    dsimp only at h
    split at h
    · cases h
    · rename_i items harray
      cases h
      rw [Option.bind_some, harray, Option.getD_some]

theorem underKeyword_ok {keyword : String} {validation : Validation Unit} {budget : Nat}
    {r : Unit × Nat} (h : underKeyword keyword validation budget = .ok r) :
    validation budget = .ok r := by
  unfold underKeyword at h
  cases hv : validation budget with
  | error e =>
    rw [hv] at h
    cases h
  | ok p =>
    rw [hv] at h
    exact h

/-- A check visits every child. -/
theorem validate_children {levels : Nat} {schema : Fields} {budget : Nat} {r : Unit × Nat}
    (h : validateSchemaNode (levels + 1) (.object schema) budget = .ok r) :
    ∀ child ∈ subschemas schema, ∃ budget r, validateSchemaNode levels child budget = .ok r := by
  unfold validateSchemaNode at h
  obtain ⟨left, budget₁, _, h⟩ := bind_ok h
  cases left with
  | false => cases h
  | true =>
    obtain ⟨_, budget₂, _, h⟩ := bind_ok h
    obtain ⟨_, budget₃, harrays, h⟩ := bind_ok h
    obtain ⟨_, budget₄, honly, h⟩ := bind_ok h
    obtain ⟨_, budget₅, hnamed, h⟩ := bind_ok h
    obtain ⟨children, budget₆, hprefix, h⟩ := bind_ok h
    obtain ⟨_, budget₇, hitems, _⟩ := bind_ok h
    intro child hchild
    unfold subschemas at hchild
    simp only [List.mem_append, List.mem_flatMap] at hchild
    rcases hchild with (⟨keyword, hkeyword, hchild⟩ | ⟨keyword, hkeyword, hchild⟩) |
      ⟨keyword, hkeyword, hchild⟩
    · by_cases hprefixItems : keyword = "prefixItems"
      · subst hprefixItems
        rw [prefixSchemas_ok (lift_ok hprefix)] at hchild
        exact forM_ok hitems child hchild
      · have hkeyword : keyword ∈ ["allOf", "anyOf", "oneOf"] := by
          simp only [List.mem_cons, List.not_mem_nil, or_false] at hkeyword ⊢
          tauto
        obtain ⟨budget', r', hvisit⟩ := forM_ok harrays keyword hkeyword
        obtain ⟨schemas, budget'', hschemas, hall⟩ := bind_ok hvisit
        rw [schemaArray_ok (lift_ok hschemas)] at hchild
        exact forM_ok hall child hchild
    · obtain ⟨budget', r', hvisit⟩ := forM_ok honly keyword hkeyword
      obtain ⟨budget'', r'', hchecked⟩ := forM_ok hvisit child hchild
      exact ⟨budget'', r'', underKeyword_ok hchecked⟩
    · obtain ⟨budget', r', hvisit⟩ := forM_ok hnamed keyword hkeyword
      obtain ⟨schemas, budget'', hschemas, hall⟩ := bind_ok hvisit
      rw [schemaFields_ok (lift_ok hschemas)] at hchild
      exact forM_ok hall child hchild

theorem nestedWithin_of_validate (levels : Nat) (schema : Json) {budget : Nat} {r : Unit × Nat}
    (h : validateSchemaNode levels schema budget = .ok r) : NestedWithin levels schema := by
  induction levels generalizing schema budget r with
  | zero => cases h
  | succ levels ih =>
    cases schema with
    | object fields =>
      intro child hchild
      obtain ⟨budget', r', hchecked⟩ := validate_children h child hchild
      exact ih child hchecked
    | null | bool _ | number _ | string _ | array _ => trivial

/-! ## Schemas without negation -/

section positive

variable {accepts : Json → Json → StateM Nat Bool} {V : Json → Json → Prop} {schema : Fields}

/-- An acceptance of a child means that the instance is valid under it. -/
def ChildrenSound (accepts : Json → Json → StateM Nat Bool) (V : Json → Json → Prop)
    (schema : Fields) : Prop :=
  ∀ child ∈ subschemas schema, ∀ inst, Sound (accepts child inst) (V child inst)

theorem sound_applicators (h : ChildrenSound accepts V schema)
    (hpositive : ∀ keyword ∈ ["oneOf", "not", "if", "maxContains"], schema.lookup keyword = none)
    (inst : Json) :
    Sound (schemaAcceptsApplicators accepts schema inst) (Applicators V schema inst) := by
  have hone : childSchemas schema "oneOf" = none := by
    rw [childSchemas, hpositive "oneOf" (by simp), Option.bind_none]
  have hnot := hpositive "not" (by simp)
  have hif := hpositive "if" (by simp)
  unfold schemaAcceptsApplicators Applicators
  simp only [andAlso_eq, hone, hnot, hif]
  apply Sound.both
  · cases hall : childSchemas schema "allOf" with
    | none =>
      rw [arrayChildren_none hall]
      apply Budget.always_pure
      simp
    | some children =>
      have hmem := fun child hchild => h child (mem_array "allOf" (by simp) hchild) inst
      rw [arrayChildren_some hall] at hmem ⊢
      exact Budget.sound_allM hmem
  apply Sound.both
  · cases hany : childSchemas schema "anyOf" with
    | none =>
      apply Budget.always_pure
      simp
    | some children =>
      have hmem := fun child hchild => h child (mem_array "anyOf" (by simp) hchild) inst
      rw [arrayChildren_some hany] at hmem ⊢
      exact (Budget.sound_anyM hmem).imp fun hvalid _ => hvalid
  -- the keywords that are left are absent
  · have htrue : Sound (Budget.both (pure true) (Budget.both (pure true) (pure true))) True :=
      fun _ _ => trivial
    exact htrue.imp fun _ => by simp

theorem sound_object (h : ChildrenSound accepts V schema) (inst : Fields) :
    Sound (schemaAcceptsObject accepts schema inst) (ObjectKeywords V schema inst) := by
  unfold schemaAcceptsObject ObjectKeywords
  split
  · apply Budget.always_pure
    simp
  rename_i hbounds
  split
  · apply Budget.always_pure
    simp
  rename_i hrequired
  simp only [Bool.not_eq_true', Bool.not_eq_false] at hbounds hrequired
  simp only [andAlso_eq, properties_lookup, hbounds, hrequired, true_and]
  apply Sound.both
  · cases hnames : schema.lookup "propertyNames" with
    | none =>
      apply Budget.always_pure
      simp
    | some names =>
      have hchild := mem_only "propertyNames" (by simp) hnames
      have hall : Sound (inst.allM fun field => accepts names (.string field.1))
          (∀ field ∈ inst, V names (.string field.1)) :=
        Budget.sound_allM fun field _ => h names hchild (.string field.1)
      refine hall.imp ?_
      simp
  apply Sound.both
  · refine Budget.sound_allM fun field _ => ?_
    cases hproperty : (namedChildren schema "properties").lookup field.1 with
    | some property =>
      obtain ⟨name, hmem⟩ := mem_of_lookup hproperty
      refine (h property (mem_named "properties" (by simp) hmem) field.2).imp ?_
      simp
    | none =>
      cases hadditional : schema.lookup "additionalProperties" with
      | some additional =>
        refine (h additional (mem_only "additionalProperties" (by simp) hadditional) field.2).imp ?_
        simp
      | none =>
        apply Budget.always_pure
        simp
  · unfold namedChildren
    split
    · apply Budget.always_pure
      simp
    · rename_i hdependent
      simp only [Bool.not_eq_true] at hdependent
      simp only [hdependent, true_and]
      refine Budget.sound_allM fun field hfield => ?_
      cases hpresent : (inst.lookup field.1).isSome with
      | true =>
        refine (h field.2 (mem_named "dependentSchemas" (by simp) hfield) (.object inst)).imp ?_
        simp
      | false =>
        apply Budget.always_pure
        simp

open Classical in
theorem sound_array (h : ChildrenSound accepts V schema)
    (hmaximum : schema.lookup "maxContains" = none) (inst : List Json) :
    Sound (schemaAcceptsArray accepts schema inst) (ArrayKeywords V schema inst) := by
  unfold schemaAcceptsArray ArrayKeywords
  dsimp only
  split
  · apply Budget.always_pure
    simp
  rename_i hhead
  simp only [Bool.or_eq_true, Bool.not_eq_true', not_or, Bool.not_eq_false, Bool.not_eq_true]
    at hhead
  simp only [andAlso_eq, countM_eq, hhead.1, hhead.2, true_and]
  apply Sound.both
  · exact Budget.sound_allM fun pair hpair =>
      h pair.2 (mem_array "prefixItems" (by simp) (List.of_mem_zip hpair).2) pair.1
  apply Sound.both
  · cases hitems : schema.lookup "items" with
    | none =>
      apply Budget.always_pure
      simp
    | some items =>
      have hall : Sound ((inst.drop (arrayChildren schema "prefixItems").length).allM
          fun value => accepts items value) _ :=
        Budget.sound_allM fun value _ => h items (mem_only "items" (by simp) hitems) value
      refine hall.imp ?_
      simp
  · cases hcontains : schema.lookup "contains" with
    | none =>
      apply Budget.always_pure
      simp
    | some contains =>
      have hcount := Budget.always_count (p := fun value => decide (V contains value))
        fun value (_ : value ∈ inst) =>
          (h contains (mem_only "contains" (by simp) hcontains) value).imp decide_eq_true
      refine Always.bind hcount ?_
      intro matching hmatching
      apply Budget.always_pure
      simp only [hmaximum, Option.bind_none, Bool.and_eq_true, decide_eq_true_eq]
      rintro ⟨hminimum, -⟩ contains' hcontains'
      cases hcontains'
      refine ⟨Nat.le_trans hminimum hmatching, ?_⟩
      intro maximum hmaximum
      cases hmaximum

end positive

/-- **Without negation an acceptance is right**, also where the budget is exhausted or the schema is
nested too deeply. -/
theorem sound_accepts (levels : Nat) (schema : Json) (h : Positive schema) (inst : Json) :
    Sound (schemaAccepts levels schema inst) (Valid schema inst) := by
  induction levels generalizing schema inst with
  | zero => exact Budget.always_pure fun haccepts => absurd haccepts Bool.false_ne_true
  | succ levels ih =>
    cases schema with
    | object fields =>
      unfold Positive at h
      obtain ⟨habsent, hpositive⟩ := h
      have hchildren : ChildrenSound (schemaAccepts levels)
          (fun child value => ∃ _ : child ∈ subschemas fields, Valid child value) fields := by
        intro child hchild value
        exact (ih child (hpositive child hchild) value).imp fun hvalid => ⟨hchild, hvalid⟩
      have hunit : Sound Budget.unit True := fun _ _ => trivial
      have happlicators := sound_applicators hchildren habsent inst
      have hkeywords : ∀ kind : StateM Nat Bool, Sound kind (KindKeywords
          (fun child value => ∃ _ : child ∈ subschemas fields, Valid child value) fields inst) →
          Sound (andAlso consume (if acceptsValue fields inst then
            andAlso (schemaAcceptsApplicators (schemaAccepts levels) fields inst) kind
            else pure false)) (Valid (.object fields) inst) := by
        intro kind hkind
        unfold Valid
        refine (hunit.both ?_).imp And.right
        unfold Keywords
        split
        · rename_i hvalue
          exact (happlicators.both hkind).imp fun hboth => ⟨hvalue, hboth⟩
        · exact Budget.always_pure fun haccepts => absurd haccepts Bool.false_ne_true
      unfold schemaAccepts
      cases inst with
      | object values => exact hkeywords _ (sound_object hchildren values)
      | array values =>
        exact hkeywords _ (sound_array hchildren (habsent "maxContains" (by simp)) values)
      | string value => exact hkeywords _ (Budget.always_pure id)
      | number value => exact hkeywords _ (Budget.always_pure id)
      | null | bool _ => exact hkeywords _ (Budget.always_pure fun _ => trivial)
    | bool accepts =>
      have hunit : Sound Budget.unit True := fun _ _ => trivial
      unfold schemaAccepts Valid
      exact (hunit.both (Budget.always_pure id)).imp And.right
    | null | number _ | string _ | array _ =>
      have hunit : Sound Budget.unit True := fun _ _ => trivial
      unfold schemaAccepts
      refine (hunit.both (Q := False) ?_).imp fun hfalse => hfalse.2.elim
      exact Budget.always_pure fun haccepts => absurd haccepts Bool.false_ne_true

/-! ## Arguments -/

theorem argumentsSatisfySchema_iff (schema arguments : Json) :
    argumentsSatisfySchema schema arguments = true ↔
      (∃ u, validateToolSchema schema = .ok u) ∧ (∃ fields, arguments = .object fields) ∧
        withinLimits arguments = true ∧
        (schemaAccepts (MAX_SCHEMA_DEPTH + 1) schema arguments MAX_INSTANCE_NODES).1 = true := by
  have hvalid : (validateToolSchema schema).toOption.isSome = true ↔
      ∃ u, validateToolSchema schema = .ok u := by
    cases validateToolSchema schema <;> simp [Except.toOption]
  have hobject : arguments.asObject.isSome = true ↔ ∃ fields, arguments = .object fields := by
    rw [Option.isSome_iff_exists]
    exact exists_congr fun fields => Json.asObject_eq_some
  unfold argumentsSatisfySchema
  simp only [Bool.and_eq_true, hvalid, hobject, and_assoc]

/-- **Arguments are checked exactly.** Where the sizes of a schema and of some arguments multiply to
less than the budget, the arguments are accepted if and only if the schema is a supported one, they
are an object within the limits, and they are valid under the schema. -/
theorem arguments_decided (schema arguments : Json)
    (hsize : schemaNodes schema * instanceNodes arguments < MAX_INSTANCE_NODES) :
    argumentsSatisfySchema schema arguments = true ↔
      (∃ u, validateToolSchema schema = .ok u) ∧ (∃ fields, arguments = .object fields) ∧
        withinLimits arguments = true ∧ Valid schema arguments := by
  rw [argumentsSatisfySchema_iff]
  apply and_congr_right
  rintro ⟨u, hvalidated⟩
  apply and_congr_right'
  apply and_congr_right'
  have hnested : NestedWithin (MAX_SCHEMA_DEPTH + 1) schema := by
    unfold validateToolSchema at hvalidated
    cases hcheck : validateSchemaNode (MAX_SCHEMA_DEPTH + 1) schema MAX_SCHEMA_NODES with
    | error message =>
      rw [hcheck] at hvalidated
      cases hvalidated
    | ok r => exact nestedWithin_of_validate _ schema hcheck
  have hsmall : instanceNodes arguments < 2 ^ 64 := by
    have hle := Nat.mul_le_mul_right (instanceNodes arguments) (schemaNodes_pos schema)
    unfold MAX_INSTANCE_NODES at hsize
    omega
  have hdecides := decides_accepts _ schema hnested arguments hsmall
  apply hdecides.holds
  have hspends := (hdecides.spends MAX_INSTANCE_NODES).2
  omega

/-- A path that is no empty string. -/
def pathProperty : Fields := [("type", .string "string"), ("minLength", .number (.posInt 1))]

/-- A tool that takes a path and nothing else. -/
def pathFields : Fields := [
  ("type", .string "object"),
  ("properties", .object [("path", .object pathProperty)]),
  ("required", .array [.string "path"]),
  ("additionalProperties", .bool false)]

theorem subschemas_pathFields :
    subschemas pathFields = [.bool false, .object pathProperty] := by
  rfl

theorem subschemas_pathProperty : subschemas pathProperty = [] := by
  rfl

theorem arguments_decided_path :
    schemaNodes (.object pathFields) * instanceNodes (.object [("path", .string "src")]) <
        MAX_INSTANCE_NODES ∧
      (argumentsSatisfySchema (.object pathFields) (.object [("path", .string "src")]) = true ↔
        (∃ u, validateToolSchema (.object pathFields) = .ok u) ∧
          (∃ fields, Json.object [("path", .string "src")] = .object fields) ∧
          withinLimits (.object [("path", .string "src")]) = true ∧
          Valid (.object pathFields) (.object [("path", .string "src")])) := by
  have hnodes : schemaNodes (.object pathFields) = 3 := by
    rw [schemaNodes_object, subschemas_pathFields, List.map_cons, List.map_cons, List.map_nil,
      schemaNodes_object, subschemas_pathProperty, schemaNodes]
    · rfl
    · simp
  have hsize : schemaNodes (.object pathFields) *
      instanceNodes (.object [("path", .string "src")]) < MAX_INSTANCE_NODES := by
    rw [hnodes]
    decide
  exact ⟨hsize, arguments_decided _ _ hsize⟩

/-- **Without negation the check fails closed.** Under a schema without `not`, `oneOf`, `if` and
`maxContains` accepted arguments are valid, however much the check has to do. -/
theorem positive_arguments_sound (schema arguments : Json) (hpositive : Positive schema)
    (h : argumentsSatisfySchema schema arguments = true) : Valid schema arguments := by
  obtain ⟨-, -, -, haccepts⟩ := (argumentsSatisfySchema_iff schema arguments).1 h
  exact sound_accepts _ schema hpositive arguments _ haccepts

theorem positive_path_sound :
    Valid (.object pathFields) (.object [("path", .string "src")]) := by
  have hproperty : Positive (.object pathProperty) := by
    unfold Positive
    rw [subschemas_pathProperty]
    simp [pathProperty, List.lookup_cons]
  have habsent : ∀ keyword ∈ ["oneOf", "not", "if", "maxContains"],
      pathFields.lookup keyword = none := by
    decide
  have hpositive : Positive (.object pathFields) := by
    unfold Positive
    rw [subschemas_pathFields]
    refine ⟨habsent, ?_⟩
    intro child hchild
    simp only [List.mem_cons, List.not_mem_nil, or_false] at hchild
    rcases hchild with rfl | rfl
    · simp [Positive]
    · exact hproperty
  exact positive_arguments_sound _ _ hpositive (by decide +kernel)

end ToolSchema

end Emelex
