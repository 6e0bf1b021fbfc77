import Mathlib.Logic.Basic
import Mathlib.Data.Rat.Defs

/-!
# JSON values

* `Json` — a value; an object is the list of its fields.
* `get`, `asObject`, `asArray`, `asStr`, `asBool`, `asU64` — how a reader looks into a value.

Principal definition: `Json`.
-/

set_option autoImplicit false

/-- A number as it was written: not negative, negative, or with a fraction or an exponent. -/
inductive JsonNumber where
  | posInt (n : Nat)
  | negInt (n : Int)
  | float (value : Rat)
deriving DecidableEq

/-- A JSON value. -/
inductive Json where
  | null
  | bool (b : Bool)
  | number (n : JsonNumber)
  | string (s : String)
  | array (items : List Json)
  | object (fields : List (String × Json))

namespace Json

def asObject : Json → Option (List (String × Json))
  | object fields => some fields
  | _ => none

def asArray : Json → Option (List Json)
  | array items => some items
  | _ => none

def asStr : Json → Option String
  | string s => some s
  | _ => none

def asBool : Json → Option Bool
  | bool b => some b
  | _ => none

/-- An integer that is not negative. -/
def asU64 : Json → Option Nat
  | number (.posInt n) => some n
  | _ => none

theorem asObject_eq_some {value : Json} {fields : List (String × Json)} :
    value.asObject = some fields ↔ value = .object fields := by
  cases value <;> simp [asObject]

theorem asArray_eq_some {value : Json} {items : List Json} :
    value.asArray = some items ↔ value = .array items := by
  cases value <;> simp [asArray]

theorem asStr_eq_some {value : Json} {s : String} :
    value.asStr = some s ↔ value = .string s := by
  cases value <;> simp [asStr]

theorem asU64_eq_some {value : Json} {n : Nat} :
    value.asU64 = some n ↔ value = .number (.posInt n) := by
  unfold asU64
  split <;> simp_all

/-- The field of an object. -/
def get (key : String) : Json → Option Json
  | object fields => List.lookup key fields
  | _ => none

end Json
