import Mathlib.Data.Rat.Floor
import Emelex.Lib.Json
import Emelex.Lib.Text

/-!
# Tool schemas (`engine/tools.rs`)

The bounded JSON Schema vocabulary of executable tools: what a schema must look like, and which
instances it accepts.  A depth counts down from `MAX_SCHEMA_DEPTH`, and the node budget is the
state of the computation.  A name in an error stands between quotes; its escapes are not modelled.

* `numberCmp`, `jsonEqual` — exact comparison of numbers, and equality of values up to it.
* `validateToolSchema` — the checks of a schema.
* `schemaAccepts`, `argumentsSatisfySchema` — the checks of an instance.

Principal definitions: `validateToolSchema`, `argumentsSatisfySchema`.
-/

set_option autoImplicit false

namespace Emelex

/-- The most calls that are taken from one text. -/
def MAX_TOOL_CALLS : Nat := 64

/-- The most opening markers that are tried in one text. -/
def MAX_TOOL_MARKERS : Nat := 256

/-- The most entries of one container of arguments. -/
def MAX_TOOL_ARGUMENTS : Nat := 256

/-- The most values of an `enum`. -/
def MAX_SCHEMA_ENUM_VALUES : Nat := 256

/-- The deepest nesting of a schema or an instance. -/
def MAX_SCHEMA_DEPTH : Nat := 64

/-- The most nodes of a schema. -/
def MAX_SCHEMA_NODES : Nat := 4096

/-- The most nodes of an instance. -/
def MAX_INSTANCE_NODES : Nat := 8192

namespace ToolSchema

/-! ## Numbers and values -/

/-- `ExactNumber`. -/
inductive ExactNumber where
  | signed (value : Int)
  | unsigned (value : Nat)
  | float (value : Rat)

/-- `exact_number`. -/
def exactNumber : JsonNumber → ExactNumber
  | .posInt n => if n < 2 ^ 63 then .signed n else .unsigned n
  | .negInt i => .signed i
  | .float value => .float value

/-- `f64::trunc`. -/
def trunc (float : Rat) : Int := if 0 ≤ float then ⌊float⌋ else ⌈float⌉

/-- `f64::fract`. -/
def fract (float : Rat) : Rat := float - trunc float

/-- `signed_float_cmp`; every float is finite. -/
def signedFloatCmp (integer : Int) (float : Rat) : Option Ordering :=
  if float < -9223372036854775808 then some .gt
  else if 9223372036854775808 ≤ float then some .lt
  else
    match compare integer (trunc float) with
    | .eq =>
      if 0 < fract float then some .lt else if fract float < 0 then some .gt else some .eq
    | ordering => some ordering

/-- `unsigned_float_cmp`. -/
def unsignedFloatCmp (integer : Nat) (float : Rat) : Option Ordering :=
  if float < 0 then some .gt
  else if 18446744073709551616 ≤ float then some .lt
  else
    match compare integer (trunc float).toNat with
    | .eq => if 0 < fract float then some .lt else some .eq
    | ordering => some ordering

/-- `number_cmp`. -/
def numberCmp (left right : JsonNumber) : Option Ordering :=
  match exactNumber left, exactNumber right with
  | .signed left, .signed right => some (compare left right)
  | .unsigned left, .unsigned right => some (compare left right)
  | .signed left, .unsigned right =>
    some (if left < 0 then .lt else compare left.toNat right)
  | .unsigned left, .signed right =>
    some (if right < 0 then .gt else compare left right.toNat)
  | .signed left, .float right => signedFloatCmp left right
  | .float left, .signed right => (signedFloatCmp right left).map Ordering.swap
  | .unsigned left, .float right => unsignedFloatCmp left right
  | .float left, .unsigned right => (unsignedFloatCmp right left).map Ordering.swap
  | .float left, .float right => some (compare left right)

mutual

/-- `json_equal`. -/
def jsonEqual : Json → Json → Bool
  | .number left, .number right => numberCmp left right == some .eq
  | .array left, .array right => left.length == right.length && jsonEqualItems left right
  | .object left, .object right => left.length == right.length && jsonEqualFields left right
  | .null, .null => true
  | .bool left, .bool right => left == right
  | .string left, .string right => left == right
  | _, _ => false

/-- The items of two arrays. -/
def jsonEqualItems : List Json → List Json → Bool
  | left :: lefts, right :: rights => jsonEqual left right && jsonEqualItems lefts rights
  | _, _ => true

/-- The fields of an object, against the fields of another. -/
def jsonEqualFields : List (String × Json) → List (String × Json) → Bool
  | [], _ => true
  | (key, left) :: lefts, rights =>
    (rights.lookup key).any (fun right => jsonEqual left right) && jsonEqualFields lefts rights

end

/-! ## Budgets -/

/-- `ValidationBudget::consume`. -/
def consume : StateM Nat Bool := fun remaining =>
  match remaining with
  | 0 => (false, 0)
  | remaining + 1 => (true, remaining)

/-- `a && b`. -/
def andAlso (a b : StateM Nat Bool) : StateM Nat Bool := do
  if ← a then b else pure false

/-- `bounded_instance`; `levels` are the depths that are left. -/
def boundedInstance : Nat → Json → StateM Nat Bool
  | 0, _ => pure false
  | levels + 1, value => andAlso consume <|
    match value with
    | .array values =>
      if values.length ≤ MAX_TOOL_ARGUMENTS then values.allM (boundedInstance levels) else pure false
    | .object values =>
      if values.length ≤ MAX_TOOL_ARGUMENTS then
        values.allM fun field => boundedInstance levels field.2
      else pure false
    | _ => pure true

/-- A value within the limits of an instance. -/
def withinLimits (value : Json) : Bool :=
  (boundedInstance (MAX_SCHEMA_DEPTH + 1) value MAX_INSTANCE_NODES).1

/-! ## The checks of a schema -/

/-- The fields of an object. -/
abbrev Fields := List (String × Json)

/-- `supported_schema_keyword`. -/
def supportedSchemaKeywords : List String :=
  ["type", "enum", "const", "allOf", "anyOf", "oneOf", "not", "if", "then", "else", "properties",
    "required", "additionalProperties", "propertyNames", "minProperties", "maxProperties",
    "dependentRequired", "dependentSchemas", "prefixItems", "items", "contains", "minContains",
    "maxContains", "minItems", "maxItems", "uniqueItems", "minLength", "maxLength", "minimum",
    "maximum", "exclusiveMinimum", "exclusiveMaximum", "title", "description", "default",
    "examples", "$comment", "deprecated", "readOnly", "writeOnly"]

/-- `valid_schema_type`. -/
def validSchemaTypes : List String :=
  ["null", "boolean", "object", "array", "number", "string", "integer"]

/-- A field, if there is one, that must satisfy a test. -/
def checkField (object : Fields) (keyword : String) (test : Json → Bool) (message : String) :
    Except String Unit :=
  if (object.lookup keyword).any fun value => !test value then .error s!"{keyword} {message}"
  else .ok ()

/-- The entries of `type`, after those in `seen`. -/
def validateTypeEntries : List Json → List String → Except String Unit
  | [], _ => .ok ()
  | kind :: kinds, seen =>
    match kind.asStr with
    | none => .error "type array entries must be strings"
    | some kind =>
      if kind ∉ validSchemaTypes then .error s!"unknown schema type {kind.quote}"
      else if kind ∈ seen then .error "type array entries must be unique"
      else validateTypeEntries kinds (seen ++ [kind])

/-- `validate_schema_types`. -/
def validateSchemaTypes (types : Json) : Except String Unit :=
  match types.asStr with
  | some kind =>
    if kind ∈ validSchemaTypes then .ok () else .error s!"unknown schema type {kind.quote}"
  | none =>
    match types.asArray.filter fun kinds => !kinds.isEmpty && decide (kinds.length ≤ 7) with
    | none => .error "type must be a string or non-empty array"
    | some kinds => validateTypeEntries kinds []

/-- The entries of a string array, after those in `seen`. -/
def validateStringEntries (keyword : String) (unique : Bool) :
    List Json → List String → Except String Unit
  | [], _ => .ok ()
  | value :: values, seen =>
    match value.asStr with
    | none => .error s!"{keyword} entries must be strings"
    | some value =>
      if unique && decide (value ∈ seen) then .error s!"{keyword} entries must be unique"
      else validateStringEntries keyword unique values (seen ++ [value])

/-- `validate_string_array_keyword`. -/
def validateStringArrayKeyword (object : Fields) (keyword : String) (unique : Bool) :
    Except String Unit :=
  match object.lookup keyword with
  | none => .ok ()
  | some values =>
    match values.asArray.filter fun values => decide (values.length ≤ MAX_TOOL_ARGUMENTS) with
    | none => .error s!"{keyword} must be an array"
    | some values => validateStringEntries keyword unique values []

/-- `validate_dependent_required`. -/
def validateDependentRequired (object : Fields) : Except String Unit :=
  match object.lookup "dependentRequired" with
  | none => .ok ()
  | some dependencies =>
    match dependencies.asObject with
    | none => .error "dependentRequired must be an object"
    | some dependencies =>
      dependencies.forM fun field =>
        validateStringArrayKeyword [("required", field.2)] "required" true

/-- `validate_min_max_pair`. -/
def validateMinMaxPair (object : Fields) (minimum maximum : String) : Except String Unit :=
  match (object.lookup minimum).bind Json.asU64, (object.lookup maximum).bind Json.asU64 with
  | some minimum, some maximum =>
    if maximum < minimum then .error "minimum constraint exceeds maximum constraint" else .ok ()
  | _, _ => .ok ()

/-- A number. -/
def asNumber : Json → Option JsonNumber
  | .number n => some n
  | _ => none

/-- A number as the errors write it. -/
def numberText : JsonNumber → String
  | .posInt n => toString n
  | .negInt i => toString i
  | .float value => toString value

/-- The bounds of `validate_numeric_bounds`. -/
def validateNumericPair (object : Fields) (minimum maximum : String) : Except String Unit :=
  match (object.lookup minimum).bind asNumber, (object.lookup maximum).bind asNumber with
  | some minimum, some maximum =>
    if numberCmp minimum maximum = some .gt then
      let minimum := numberText minimum
      let maximum := numberText maximum
      .error s!"{minimum} exceeds {maximum}"
    else .ok ()
  | _, _ => .ok ()

/-- `validate_schema_annotations`. -/
def validateSchemaAnnotations (object : Fields) : Except String Unit := do
  ["title", "description", "$comment"].forM fun keyword =>
    checkField object keyword (fun value => value.asStr.isSome) "must be a string"
  checkField object "examples" (fun value => value.asArray.isSome) "must be an array"
  let examples := ((object.lookup "examples").bind Json.asArray).getD []
  if (examples ++ (object.lookup "default").toList).all withinLimits then
    ["deprecated", "readOnly", "writeOnly"].forM fun keyword =>
      checkField object keyword (fun value => value.asBool.isSome) "must be a boolean"
  else .error "schema annotation value exceeds structural limits"

/-- The values of `enum`, after those in `previous`. -/
def validateEnumValues : List Json → List Json → Except String Unit
  | [], _ => .ok ()
  | value :: values, previous =>
    if !withinLimits value then .error "enum value exceeds structural limits"
    else if previous.any fun previous => jsonEqual previous value then
      .error "enum values must be unique"
    else validateEnumValues values (previous ++ [value])

/-- The checks of a schema node before its children. -/
def validateNodeHead (object : Fields) : Except String Unit := do
  object.forM fun field =>
    if field.1 ∈ supportedSchemaKeywords then .ok ()
    else .error s!"schema keyword {field.1.quote} is not supported for executable tools"
  match object.lookup "type" with
  | none => pure ()
  | some types => validateSchemaTypes types
  match object.lookup "enum" with
  | none => pure ()
  | some values =>
    match values.asArray.filter fun values =>
        !values.isEmpty && decide (values.length ≤ MAX_SCHEMA_ENUM_VALUES) with
    | none => .error "enum must be a non-empty array"
    | some values => validateEnumValues values []
  match object.lookup "const" with
  | none => pure ()
  | some value =>
    if withinLimits value then pure () else .error "const value exceeds structural limits"

/-- The checks of a schema node after its children. -/
def validateNodeTail (object : Fields) : Except String Unit := do
  validateStringArrayKeyword object "required" true
  validateDependentRequired object
  ["minLength", "maxLength", "minItems", "maxItems", "minContains", "maxContains",
      "minProperties", "maxProperties"].forM fun keyword =>
    checkField object keyword (fun value => value.asU64.isSome) "must be a non-negative integer"
  checkField object "uniqueItems" (fun value => value.asBool.isSome) "must be a boolean"
  ["minimum", "maximum", "exclusiveMinimum", "exclusiveMaximum"].forM fun keyword =>
    checkField object keyword (fun value => (asNumber value).isSome) "must be a number"
  validateMinMaxPair object "minLength" "maxLength"
  validateMinMaxPair object "minItems" "maxItems"
  validateMinMaxPair object "minContains" "maxContains"
  validateMinMaxPair object "minProperties" "maxProperties"
  validateNumericPair object "minimum" "maximum"
  validateNumericPair object "exclusiveMinimum" "exclusiveMaximum"
  validateSchemaAnnotations object

/-- A validation that may fail, over the budget. -/
abbrev Validation := StateT Nat (Except String)

/-- `map_err` with the keyword in front. -/
def underKeyword (keyword : String) (validation : Validation Unit) : Validation Unit :=
  fun budget => (validation budget).mapError fun error => s!"{keyword}: {error}"

/-- The schemas of a keyword that holds a non-empty array of them. -/
def schemaArray (object : Fields) (keyword : String) : Except String (List Json) :=
  match object.lookup keyword with
  | none => .ok []
  | some schemas =>
    match schemas.asArray.filter fun schemas => !schemas.isEmpty with
    | none => .error s!"{keyword} must be a non-empty array"
    | some schemas => .ok schemas

/-- The schemas of a keyword that holds an object of them. -/
def schemaFields (object : Fields) (keyword : String) : Except String (List Json) :=
  match object.lookup keyword with
  | none => .ok []
  | some children =>
    match children.asObject with
    | none => .error s!"{keyword} must be an object"
    | some children => .ok (children.map Prod.snd)

/-- The schemas of `prefixItems`. -/
def prefixSchemas (object : Fields) : Except String (List Json) :=
  match object.lookup "prefixItems" with
  | none => .ok []
  | some children =>
    match children.asArray with
    | none => .error "prefixItems must be an array"
    | some children => .ok children

/-- `validate_schema_node`; `levels` are the depths that are left. -/
def validateSchemaNode : Nat → Json → Validation Unit
  | 0, _ => throw "schema exceeds structural limits"
  | levels + 1, schema => do
    if ← (fun budget => .ok (consume budget)) then
      match schema with
      | .bool _ => pure ()
      | .object object =>
        validateNodeHead object
        ["allOf", "anyOf", "oneOf"].forM fun keyword => do
          (← schemaArray object keyword).forM (validateSchemaNode levels)
        ["not", "if", "then", "else", "items", "contains", "propertyNames",
            "additionalProperties"].forM fun keyword =>
          (object.lookup keyword).toList.forM fun child =>
            underKeyword keyword (validateSchemaNode levels child)
        ["properties", "dependentSchemas"].forM fun keyword => do
          (← schemaFields object keyword).forM (validateSchemaNode levels)
        (← prefixSchemas object).forM (validateSchemaNode levels)
        validateNodeTail object
      | _ => throw "schema nodes must be objects or booleans"
    else throw "schema exceeds structural limits"

/-- `validate_tool_schema`. -/
def validateToolSchema (schema : Json) : Except String Unit :=
  (validateSchemaNode (MAX_SCHEMA_DEPTH + 1) schema MAX_SCHEMA_NODES).map Prod.fst

/-! ## The checks of an instance -/

/-- `schema_type_matches`. -/
def schemaTypeMatches (kind : String) (inst : Json) : Bool :=
  match kind, inst with
  | "null", .null => true
  | "boolean", .bool _ => true
  | "object", .object _ => true
  | "array", .array _ => true
  | "number", .number _ => true
  | "string", .string _ => true
  | "integer", .number (.float value) => fract value = 0
  | "integer", .number _ => true
  | _, _ => false

/-- `schema_type_accepts`. -/
def schemaTypeAccepts (types inst : Json) : Bool :=
  match types with
  | .string kind => schemaTypeMatches kind inst
  | .array types => types.any fun kind => kind.asStr.any fun kind => schemaTypeMatches kind inst
  | _ => false

/-- `within_usize_bounds`. -/
def withinUsizeBounds (value : Nat) (minimum maximum : Option Json) : Bool :=
  !(minimum.bind Json.asU64).any (fun minimum => decide (value < minimum)) &&
    !(maximum.bind Json.asU64).any fun maximum => decide (maximum < value)

/-- A numeric bound that an instance violates. -/
def violates (schema : Fields) (keyword : String) (inst : JsonNumber)
    (orderings : List Ordering) : Bool :=
  ((schema.lookup keyword).bind asNumber).any fun bound =>
    (numberCmp inst bound).any fun ordering => decide (ordering ∈ orderings)

/-- `schema_accepts_number`. -/
def schemaAcceptsNumber (schema : Fields) (inst : JsonNumber) : Bool :=
  !(violates schema "minimum" inst [.lt] || violates schema "maximum" inst [.gt] ||
    violates schema "exclusiveMinimum" inst [.lt, .eq] ||
    violates schema "exclusiveMaximum" inst [.gt, .eq])

/-- `schema_accepts_string`. -/
def schemaAcceptsString (schema : Fields) (inst : String) : Bool :=
  withinUsizeBounds inst.length (schema.lookup "minLength") (schema.lookup "maxLength")

/-- Names, some of which are missing from the instance or no strings. -/
def missesSome (inst : Fields) (required : Json) : Bool :=
  match required.asArray with
  | none => true
  | some required =>
    required.any fun name => name.asStr.all fun name => (inst.lookup name).isNone

/-- The number of values that a test passes. -/
def countM {α : Type} (test : α → StateM Nat Bool) : List α → StateM Nat Nat
  | [] => pure 0
  | a :: as => do
    let passed ← test a
    let rest ← countM test as
    pure (if passed then rest + 1 else rest)

/-- A value that occurs again. -/
def hasDuplicate : List Json → List Json → Bool
  | _, [] => false
  | previous, value :: values =>
    previous.any (fun previous => jsonEqual previous value) ||
      hasDuplicate (previous ++ [value]) values

section children

variable (accepts : Json → Json → StateM Nat Bool)

/-- `schema_accepts_object`. -/
def schemaAcceptsObject (schema inst : Fields) : StateM Nat Bool :=
  if !withinUsizeBounds inst.length (schema.lookup "minProperties")
      (schema.lookup "maxProperties") then pure false
  else if (schema.lookup "required").any (missesSome inst) then pure false
  else
    andAlso
      (match schema.lookup "propertyNames" with
      | none => pure true
      | some propertyNames => inst.allM fun field => accepts propertyNames (.string field.1)) <|
    andAlso
      (inst.allM fun field =>
        match ((schema.lookup "properties").bind Json.asObject).bind
            fun properties => properties.lookup field.1 with
        | some property => accepts property field.2
        | none =>
          match schema.lookup "additionalProperties" with
          | some additional => accepts additional field.2
          | none => pure true) <|
    if (((schema.lookup "dependentRequired").bind Json.asObject).getD []).any fun field =>
        (inst.lookup field.1).isSome && missesSome inst field.2 then pure false
    else
      (((schema.lookup "dependentSchemas").bind Json.asObject).getD []).allM fun field =>
        if (inst.lookup field.1).isSome then accepts field.2 (.object inst) else pure true

/-- `schema_accepts_array`. -/
def schemaAcceptsArray (schema : Fields) (inst : List Json) : StateM Nat Bool :=
  let schemas := ((schema.lookup "prefixItems").bind Json.asArray).getD []
  if !withinUsizeBounds inst.length (schema.lookup "minItems") (schema.lookup "maxItems") ||
      (((schema.lookup "uniqueItems").bind Json.asBool).getD false && hasDuplicate [] inst) then
    pure false
  else
    andAlso ((inst.zip schemas).allM fun pair => accepts pair.2 pair.1) <|
    andAlso
      (match schema.lookup "items" with
      | none => pure true
      | some items => (inst.drop schemas.length).allM fun value => accepts items value) <|
    match schema.lookup "contains" with
    | none => pure true
    | some contains => do
      let matching ← countM (fun value => accepts contains value) inst
      let minimum := ((schema.lookup "minContains").bind Json.asU64).getD 1
      let maximum := ((schema.lookup "maxContains").bind Json.asU64).getD (2 ^ 64 - 1)
      pure (decide (minimum ≤ matching) && decide (matching ≤ maximum))

/-- The schemas of `allOf`, `anyOf`, `oneOf`; a value that is no array is passed over. -/
def childSchemas (schema : Fields) (keyword : String) : Option (List Json) :=
  (schema.lookup keyword).bind Json.asArray

/-- The keywords of `schema_accepts` that apply to every instance and have children. -/
def schemaAcceptsApplicators (schema : Fields) (inst : Json) : StateM Nat Bool :=
  andAlso
    (match childSchemas schema "allOf" with
    | none => pure true
    | some schemas => schemas.allM fun child => accepts child inst) <|
  andAlso
    (match childSchemas schema "anyOf" with
    | none => pure true
    | some schemas => schemas.anyM fun child => accepts child inst) <|
  andAlso
    (match childSchemas schema "oneOf" with
    | none => pure true
    | some schemas => do
      let matching ← countM (fun child => accepts child inst) schemas
      pure (matching == 1)) <|
  andAlso
    (match schema.lookup "not" with
    | none => pure true
    | some child => do
      let accepted ← accepts child inst
      pure !accepted) <|
  match schema.lookup "if" with
  | none => pure true
  | some condition => do
    let conditionMatches ← accepts condition inst
    match schema.lookup (if conditionMatches then "then" else "else") with
    | none => pure true
    | some child => accepts child inst

end children

/-- The keywords of `schema_accepts` without children. -/
def acceptsValue (schema : Fields) (inst : Json) : Bool :=
  !((schema.lookup "const").any (fun expected => !jsonEqual expected inst) ||
    (schema.lookup "enum").any (fun values =>
      values.asArray.all fun values => !values.any fun value => jsonEqual value inst) ||
    (schema.lookup "type").any fun types => !schemaTypeAccepts types inst)

/-- `schema_accepts`; `levels` are the depths that are left. -/
def schemaAccepts : Nat → Json → Json → StateM Nat Bool
  | 0, _, _ => pure false
  | levels + 1, schema, inst => andAlso consume <|
    match schema with
    | .bool accepts => pure accepts
    | .object object =>
      if acceptsValue object inst then
        andAlso (schemaAcceptsApplicators (schemaAccepts levels) object inst) <|
        match inst with
        | .object values => schemaAcceptsObject (schemaAccepts levels) object values
        | .array values => schemaAcceptsArray (schemaAccepts levels) object values
        | .string value => pure (schemaAcceptsString object value)
        | .number value => pure (schemaAcceptsNumber object value)
        | _ => pure true
      else pure false
    | _ => pure false

/-- `arguments_satisfy_schema`. -/
def argumentsSatisfySchema (schema arguments : Json) : Bool :=
  (validateToolSchema schema).toOption.isSome && arguments.asObject.isSome &&
    withinLimits arguments &&
    (schemaAccepts (MAX_SCHEMA_DEPTH + 1) schema arguments MAX_INSTANCE_NODES).1

end ToolSchema

end Emelex
