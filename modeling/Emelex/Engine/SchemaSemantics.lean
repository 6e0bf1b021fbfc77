import Emelex.Engine.ToolSchema
import Mathlib.Algebra.Order.BigOperators.Group.List

/-!
# What a tool schema means

The meaning of the supported vocabulary, without a budget and without a bound on the depth. The
keywords that have no children (`acceptsValue`, the bounds on numbers, strings and sizes) are those
of the checker; what is said here is what the keywords with children mean.

* `subschemas` — the children of a schema.
* `Keywords` — what the keywords of a schema ask, given the meaning of the children.
* `Valid` — the instance is valid under the schema.
* `schemaNodes`, `instanceNodes` — the sizes of a schema and of an instance.
* `Positive` — no keyword of the schema turns a refusal into an acceptance.

Principal definition: `Valid`.
-/

set_option autoImplicit false

namespace Emelex

namespace ToolSchema

/-! ## Children -/

/-- The schemas of an array keyword. -/
def arrayChildren (schema : Fields) (keyword : String) : List Json :=
  ((schema.lookup keyword).bind Json.asArray).getD []

/-- The schemas of an object keyword, with their names. -/
def namedChildren (schema : Fields) (keyword : String) : Fields :=
  ((schema.lookup keyword).bind Json.asObject).getD []

/-- The schemas of a keyword that holds one. -/
def onlyChildren (schema : Fields) (keyword : String) : List Json := (schema.lookup keyword).toList

/-- The children of a schema, keyword by keyword. -/
def subschemas (schema : Fields) : List Json :=
  ["allOf", "anyOf", "oneOf", "prefixItems"].flatMap (arrayChildren schema) ++
  ["not", "if", "then", "else", "items", "contains", "propertyNames",
    "additionalProperties"].flatMap (onlyChildren schema) ++
  ["properties", "dependentSchemas"].flatMap fun keyword =>
    (namedChildren schema keyword).map Prod.snd

theorem sizeOf_lookup_lt {fields : Fields} {key : String} {value : Json}
    (h : fields.lookup key = some value) : sizeOf value < sizeOf (Json.object fields) := by
  have hmem : ∃ key', (key', value) ∈ fields := by
    induction fields with
    | nil => cases h
    | cons field fields ih =>
      rw [List.lookup_cons] at h
      cases hkey : (key == field.1) with
      | true =>
        rw [hkey] at h
        cases h
        exact ⟨field.1, List.mem_cons_self⟩
      | false =>
        rw [hkey] at h
        obtain ⟨key', hmem⟩ := ih h
        exact ⟨key', List.mem_cons_of_mem _ hmem⟩
  obtain ⟨key', hmem⟩ := hmem
  have hfield := List.sizeOf_lt_of_mem hmem
  simp only [Prod.mk.sizeOf_spec, Json.object.sizeOf_spec] at hfield ⊢
  omega

theorem sizeOf_arrayChild_lt {fields : Fields} {key : String} {child : Json}
    (h : child ∈ arrayChildren fields key) : sizeOf child < sizeOf (Json.object fields) := by
  unfold arrayChildren at h
  cases hlookup : fields.lookup key with
  | none =>
    rw [hlookup] at h
    cases h
  | some value =>
    rw [hlookup] at h
    cases value with
    | array items =>
      have hvalue := sizeOf_lookup_lt hlookup
      have hitem := List.sizeOf_lt_of_mem (show child ∈ items from h)
      simp only [Json.array.sizeOf_spec] at hvalue
      omega
    | null | bool _ | number _ | string _ | object _ => cases h

theorem sizeOf_namedChild_lt {fields : Fields} {key : String} {child : String × Json}
    (h : child ∈ namedChildren fields key) : sizeOf child.2 < sizeOf (Json.object fields) := by
  unfold namedChildren at h
  cases hlookup : fields.lookup key with
  | none =>
    rw [hlookup] at h
    cases h
  | some value =>
    rw [hlookup] at h
    cases value with
    | object items =>
      have hvalue := sizeOf_lookup_lt hlookup
      have hitem := List.sizeOf_lt_of_mem (show child ∈ items from h)
      obtain ⟨name, child⟩ := child
      simp only [Prod.mk.sizeOf_spec, Json.object.sizeOf_spec] at hvalue hitem ⊢
      omega
    | null | bool _ | number _ | string _ | array _ => cases h

theorem sizeOf_subschema_lt {fields : Fields} {child : Json} (h : child ∈ subschemas fields) :
    sizeOf child < sizeOf (Json.object fields) := by
  unfold subschemas at h
  simp only [List.mem_append, List.mem_flatMap] at h
  rcases h with (⟨key, -, h⟩ | ⟨key, -, h⟩) | ⟨key, -, h⟩
  · exact sizeOf_arrayChild_lt h
  · exact sizeOf_lookup_lt (Option.mem_toList.1 h)
  · obtain ⟨named, hnamed, rfl⟩ := List.mem_map.1 h
    exact sizeOf_namedChild_lt hnamed

/-! ## Meaning -/

section meaning

variable (V : Json → Json → Prop)

open Classical in
/-- What the keywords for every instance ask, where `V` is the meaning of the children. -/
def Applicators (schema : Fields) (inst : Json) : Prop :=
  (∀ child ∈ arrayChildren schema "allOf", V child inst) ∧
  (childSchemas schema "anyOf" ≠ none → ∃ child ∈ arrayChildren schema "anyOf", V child inst) ∧
  (childSchemas schema "oneOf" ≠ none →
    (arrayChildren schema "oneOf").countP (fun child => decide (V child inst)) = 1) ∧
  (∀ child, schema.lookup "not" = some child → ¬ V child inst) ∧
  ∀ condition, schema.lookup "if" = some condition →
    (V condition inst → ∀ child, schema.lookup "then" = some child → V child inst) ∧
    (¬ V condition inst → ∀ child, schema.lookup "else" = some child → V child inst)

/-- What the keywords for objects ask. -/
def ObjectKeywords (schema inst : Fields) : Prop :=
  withinUsizeBounds inst.length (schema.lookup "minProperties")
    (schema.lookup "maxProperties") = true ∧
  (schema.lookup "required").any (missesSome inst) = false ∧
  (∀ names, schema.lookup "propertyNames" = some names →
    ∀ field ∈ inst, V names (.string field.1)) ∧
  (∀ field ∈ inst,
    (∀ property, (namedChildren schema "properties").lookup field.1 = some property →
      V property field.2) ∧
    ((namedChildren schema "properties").lookup field.1 = none →
      ∀ additional, schema.lookup "additionalProperties" = some additional →
        V additional field.2)) ∧
  (namedChildren schema "dependentRequired").any
    (fun field => (inst.lookup field.1).isSome && missesSome inst field.2) = false ∧
  ∀ field ∈ namedChildren schema "dependentSchemas",
    (inst.lookup field.1).isSome = true → V field.2 (.object inst)

open Classical in
/-- What the keywords for arrays ask. -/
def ArrayKeywords (schema : Fields) (inst : List Json) : Prop :=
  withinUsizeBounds inst.length (schema.lookup "minItems") (schema.lookup "maxItems") = true ∧
  (((schema.lookup "uniqueItems").bind Json.asBool).getD false && hasDuplicate [] inst) = false ∧
  (∀ pair ∈ inst.zip (arrayChildren schema "prefixItems"), V pair.2 pair.1) ∧
  (∀ items, schema.lookup "items" = some items →
    ∀ value ∈ inst.drop (arrayChildren schema "prefixItems").length, V items value) ∧
  ∀ contains, schema.lookup "contains" = some contains →
    ((schema.lookup "minContains").bind Json.asU64).getD 1 ≤
      inst.countP (fun value => decide (V contains value)) ∧
    ∀ maximum, (schema.lookup "maxContains").bind Json.asU64 = some maximum →
      inst.countP (fun value => decide (V contains value)) ≤ maximum

/-- What the keywords for the kind of the instance ask. -/
def KindKeywords (schema : Fields) : Json → Prop
  | .object values => ObjectKeywords V schema values
  | .array values => ArrayKeywords V schema values
  | .string value => schemaAcceptsString schema value = true
  | .number value => schemaAcceptsNumber schema value = true
  | _ => True

/-- What a schema asks. -/
def Keywords (schema : Fields) (inst : Json) : Prop :=
  acceptsValue schema inst = true ∧ Applicators V schema inst ∧ KindKeywords V schema inst

end meaning

/-- The instance is valid under the schema. -/
def Valid (schema inst : Json) : Prop :=
  match schema with
  | .bool accepts => accepts = true
  | .object fields =>
    Keywords (fun child value => ∃ _ : child ∈ subschemas fields, Valid child value) fields inst
  | _ => False
termination_by sizeOf schema
decreasing_by exact sizeOf_subschema_lt (by assumption)

/-! ## Sizes -/

/-- The schemas that a schema consists of. -/
def schemaNodes (schema : Json) : Nat :=
  match schema with
  | .object fields => 1 + ((subschemas fields).attach.map fun child => schemaNodes child.1).sum
  | _ => 1
termination_by sizeOf schema
decreasing_by exact sizeOf_subschema_lt child.2

theorem schemaNodes_object (fields : Fields) :
    schemaNodes (.object fields) = 1 + ((subschemas fields).map schemaNodes).sum := by
  rw [schemaNodes]
  congr 2
  exact List.attach_map_val

theorem schemaNodes_pos (schema : Json) : 1 ≤ schemaNodes schema := by
  unfold schemaNodes
  split <;> omega

mutual

/-- The values and the names that an instance consists of. -/
def instanceNodes : Json → Nat
  | .array values => 1 + itemNodes values
  | .object values => 1 + fieldNodes values
  | _ => 1

def itemNodes : List Json → Nat
  | [] => 0
  | value :: values => instanceNodes value + itemNodes values

def fieldNodes : List (String × Json) → Nat
  | [] => 0
  | (_, value) :: values => 1 + instanceNodes value + fieldNodes values

end

theorem itemNodes_eq (values : List Json) : itemNodes values = (values.map instanceNodes).sum := by
  induction values with
  | nil => rfl
  | cons value values ih => rw [itemNodes, ih, List.map_cons, List.sum_cons]

theorem fieldNodes_eq (values : Fields) :
    fieldNodes values = values.length + (values.map fun field => instanceNodes field.2).sum := by
  induction values with
  | nil => rfl
  | cons field values ih =>
    rw [fieldNodes, ih, List.map_cons, List.sum_cons, List.length_cons]
    omega

theorem instanceNodes_pos (inst : Json) : 1 ≤ instanceNodes inst := by
  cases inst <;> simp [instanceNodes]

theorem item_le_itemNodes {values : List Json} {value : Json} (h : value ∈ values) :
    instanceNodes value ≤ itemNodes values := by
  rw [itemNodes_eq]
  exact List.single_le_sum (fun _ _ => Nat.zero_le _) _ (List.mem_map_of_mem h)

theorem field_le_fieldNodes {values : Fields} {field : String × Json} (h : field ∈ values) :
    instanceNodes field.2 ≤ fieldNodes values := by
  rw [fieldNodes_eq]
  have hle := List.single_le_sum (fun _ _ => Nat.zero_le _) _
    (List.mem_map_of_mem (f := fun field => instanceNodes field.2) h)
  omega

theorem length_le_itemNodes (values : List Json) : values.length ≤ itemNodes values := by
  induction values with
  | nil => exact Nat.zero_le _
  | cons value values ih =>
    have := instanceNodes_pos value
    rw [itemNodes, List.length_cons]
    omega

/-! ## Schemas without negation -/

/-- No keyword turns a refusal into an acceptance. -/
def Positive (schema : Json) : Prop :=
  match schema with
  | .object fields =>
    (∀ keyword ∈ ["oneOf", "not", "if", "maxContains"], fields.lookup keyword = none) ∧
      ∀ child, ∀ _ : child ∈ subschemas fields, Positive child
  | _ => True
termination_by sizeOf schema
decreasing_by exact sizeOf_subschema_lt (by assumption)

end ToolSchema

end Emelex
