import Mathlib.Data.List.Basic

/-!
# Engine errors (`engine/error.rs`)

The error type shared by the modelled engine functions.  `Io` is left out: no modelled
function touches the file system.
-/

set_option autoImplicit false

namespace Emelex

/-- `engine::error::Error`. -/
inductive Error where
  | mlx (message : String)
  | config (message : String)
  | model (message : String)
  | tokenizer (message : String)
  | template (message : String)
  | contextExceeded (promptTokens maxOutputTokens limit : Nat)
  | capabilityUnavailable (capability reason : String)
  | cancelled
  deriving DecidableEq, Repr

end Emelex
