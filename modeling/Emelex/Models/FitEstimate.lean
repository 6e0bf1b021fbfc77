import Emelex.Lib.Bisection
import Emelex.Lib.CheckedNat
import Emelex.Lib.Checks
import Emelex.Lib.Json

/-!
# How much memory a model needs (`model/compatibility.rs`)

* `estimateRuntimeState` — the bytes of the caches of a model, by architecture.
* `estimateFit` — what a load needs in all, and whether it is within a budget.
* `maximumFittingContext` — the largest context that fits.

A `u64` is a natural number with checked operations; `usize` is as wide.

Principal definitions: `estimateRuntimeState`, `estimateFit`, `maximumFittingContext`.
-/

set_option autoImplicit false

namespace Emelex

open Checks

namespace Fit

def U64_LIMIT : Nat := 18446744073709551616
def DEFAULT_MAX_ENTRIES : Nat := 4
def DEFAULT_MAX_TOTAL_TOKENS : Nat := 16384
def MLX_FREED_BUFFER_CACHE_BYTES : Nat := 2147483648

def checkedAdd (left right : Nat) : Option Nat := Checked.checkedAdd U64_LIMIT left right

def checkedProduct (values : List Nat) : Option Nat := Checked.checkedProduct U64_LIMIT values

/-- `integer`: a number above `u64` is no integer. -/
def integer (config : Json) (key : String) : Option Nat :=
  ((config.get key).bind Json.asU64).filter (· < U64_LIMIT)

def requiredInteger (config : Json) (key : String) : Except String Nat :=
  required s!"missing positive {key} for fit estimation" ((integer config key).filter (0 < ·))

/-- `WorkloadProfile`. -/
structure WorkloadProfile where
  batchSize : Nat
  contextTokens : Nat
  batch_pos : 0 < batchSize
  context_pos : 0 < contextTokens
deriving DecidableEq

def WorkloadProfile.new (batchSize contextTokens : Nat) : Except String WorkloadProfile :=
  if hbatch : 0 < batchSize then
    if hcontext : 0 < contextTokens then .ok ⟨batchSize, contextTokens, hbatch, hcontext⟩
    else .error "workload context tokens must be positive"
  else .error "workload batch size must be positive"

structure RuntimeState where
  kvCacheBytes : Nat
  recurrentBytes : Nat
deriving DecidableEq

/-- The heads of the attention layers. -/
structure Geometry where
  layers : Nat
  hidden : Nat
  kvHeads : Nat
  headDim : Nat

/-! ## The caches -/

def attentionCacheBytes (layers kvHeads headDim context batch : Nat) : Except String Nat :=
  required "KV-cache estimate overflow"
    (checkedProduct [2, layers, kvHeads, headDim, context, batch, 2])

/-- The start of `estimate_runtime_state`. -/
def attentionGeometry (config : Json) : Except String Geometry := do
  let layers ← requiredInteger config "num_hidden_layers"
  let hidden ← requiredInteger config "hidden_size"
  let heads ← requiredInteger config "num_attention_heads"
  let kvHeads := (integer config "num_key_value_heads").getD heads
  let headDim := (integer config "head_dim").getD (hidden / heads)
  ensure (kvHeads ≠ 0 ∧ headDim ≠ 0) "incomplete attention geometry for fit estimation"
  return { layers, hidden, kvHeads, headDim }

/-- The recurrent state of the linear layers of Qwen. -/
def qwenRecurrentBytes (config : Json) (batch linearLayers : Nat) : Except String Nat := do
  let valueHeads := (integer config "linear_num_value_heads").getD 64
  let keyHeads := (integer config "linear_num_key_heads").getD 16
  let keyDim := (integer config "linear_key_head_dim").getD 192
  let valueDim := (integer config "linear_value_head_dim").getD 128
  let kernel := (integer config "linear_conv_kernel_dim").getD 4
  let keys ← required "Qwen linear-cache estimate overflow" (checkedProduct [keyHeads, keyDim, 2])
  let values ← required "Qwen linear-cache estimate overflow"
    (checkedProduct [valueHeads, valueDim])
  let convDim ← required "Qwen linear-cache estimate overflow" (checkedAdd keys values)
  let convolution ← required "Qwen convolution-state estimate overflow"
    (checkedProduct [batch, kernel - 1, convDim, 2])
  let recurrent ← required "Qwen recurrent-state estimate overflow"
    (checkedProduct [batch, valueHeads, valueDim, keyDim, 4])
  let perLayer ← required "Qwen recurrent-state estimate overflow"
    (checkedAdd convolution recurrent)
  required "Qwen recurrent-state estimate overflow" (checkedProduct [linearLayers, perLayer])

/-- The layers of `nemotron_h`: those with attention, and those with a state. -/
def nemotronLayers (config : Json) (layers : Nat) : Except String (Nat × Nat) := do
  let pattern ← required "nemotron_h lacks hybrid_override_pattern"
    ((config.get "hybrid_override_pattern").bind Json.asStr)
  ensure (pattern.toList.length = layers ∧
      pattern.toList.all (fun kind => kind ∈ ['M', '*', '-']) = true)
    "invalid nemotron_h hybrid_override_pattern"
  return (pattern.toList.countP (· = '*'), pattern.toList.countP (· = 'M'))

/-- The recurrent state of the Mamba layers. -/
def nemotronRecurrentBytes (config : Json) (batch mambaLayers : Nat) : Except String Nat := do
  let mambaHeads ← requiredInteger config "mamba_num_heads"
  let mambaHeadDim ← requiredInteger config "mamba_head_dim"
  let stateSize ← requiredInteger config "ssm_state_size"
  let groups := (integer config "n_groups").getD 1
  ensure (groups ≠ 0) "nemotron_h n_groups must be positive"
  let kernel := (integer config "conv_kernel").getD 4
  let heads ← required "Nemotron convolution-state estimate overflow"
    (checkedProduct [mambaHeads, mambaHeadDim])
  let states ← required "Nemotron convolution-state estimate overflow"
    (checkedProduct [2, groups, stateSize])
  let convDim ← required "Nemotron convolution-state estimate overflow" (checkedAdd heads states)
  let recurrent ← required "Nemotron recurrent-state estimate overflow"
    (checkedProduct [batch, mambaHeads, mambaHeadDim, stateSize, 4])
  let convolution ← required "Nemotron convolution-state estimate overflow"
    (checkedProduct [batch, kernel - 1, convDim, 2])
  let perLayer ← required "Nemotron state estimate overflow" (checkedAdd recurrent convolution)
  required "Nemotron state estimate overflow" (checkedProduct [mambaLayers, perLayer])

/-- The sum of what the layers hold. -/
def sumTokens (overflow : String) (total : Nat) (tokens : List Nat) : Except String Nat :=
  tokens.foldlM (fun total tokens => required overflow (checkedAdd total tokens)) total

/-- What a layer of `layer_types` holds. -/
def kindTokens (key : String) (context slidingWindow : Nat) (kind : Json) : Except String Nat :=
  match kind.asStr with
  | some "full_attention" => .ok context
  | some "sliding_attention" => .ok (min context slidingWindow)
  | _ => .error s!"unsupported {key} layer type"

/-- The loop over `layer_types`; `name` stands at the start of a message, `key` within one. -/
def typedTokenLayers (name key : String) (context slidingWindow : Nat) :
    Nat → List Json → Except String Nat
  | total, [] => .ok total
  | total, kind :: kinds => do
    let tokens ← kindTokens key context slidingWindow kind
    let total ← required s!"{name} fit estimate overflow" (checkedAdd total tokens)
    typedTokenLayers name key context slidingWindow total kinds

/-- `layer_types`, as long as there are layers. -/
def layerTypes (name key : String) (layers : Nat) (kinds : List Json) : Except String Unit := do
  ensure (kinds.length < U64_LIMIT) s!"{name} layer count overflow"
  ensure (kinds.length = layers) s!"{key} layer_types length mismatch"

/-- The bytes of layers that hold so many tokens in all. -/
def tokenLayerBytes (name : String) (geometry : Geometry) (tokenLayers batch : Nat) :
    Except String Nat :=
  required s!"{name} KV estimate overflow"
    (checkedProduct [2, tokenLayers, geometry.kvHeads, geometry.headDim, batch, 2])

def gemmaTokenLayers (config : Json) (layers context : Nat) : Except String Nat := do
  let slidingWindow := (integer config "sliding_window").getD 1024
  let pattern := ((integer config "_sliding_window_pattern").or
    (integer config "sliding_window_pattern")).getD 6
  ensure (pattern ≠ 0) "gemma3 sliding_window_pattern must be positive"
  match (config.get "layer_types").bind Json.asArray with
  | some kinds => do
    layerTypes "gemma3" "gemma3" layers kinds
    typedTokenLayers "gemma3" "gemma3" context slidingWindow 0 kinds
  | none =>
    sumTokens "gemma3 fit estimate overflow" 0 ((List.range layers).map fun index =>
      if (index + 1) % pattern = 0 then context else min context slidingWindow)

def lagunaTokenLayers (config : Json) (layers context : Nat) : Except String Nat := do
  let slidingWindow := (integer config "sliding_window").getD 512
  match (config.get "layer_types").bind Json.asArray with
  | some kinds => do
    layerTypes "Laguna" "laguna" layers kinds
    typedTokenLayers "Laguna" "laguna" context slidingWindow 0 kinds
  | none => required "Laguna fit estimate overflow" (checkedProduct [layers, context])

/-- The arm of Qwen: a layer in `full_attention_interval` has attention. -/
def qwenState (config : Json) (geometry : Geometry) (context batch : Nat) :
    Except String RuntimeState := do
  let interval := (integer config "full_attention_interval").getD 4
  ensure (interval ≠ 0) "full_attention_interval must be positive"
  let attentionLayers := geometry.layers / interval
  let kvCacheBytes ←
    attentionCacheBytes attentionLayers geometry.kvHeads geometry.headDim context batch
  let recurrentBytes ← qwenRecurrentBytes config batch (geometry.layers - attentionLayers)
  return { kvCacheBytes, recurrentBytes }

def nemotronState (config : Json) (geometry : Geometry) (context batch : Nat) :
    Except String RuntimeState := do
  let (attentionLayers, mambaLayers) ← nemotronLayers config geometry.layers
  let kvCacheBytes ←
    attentionCacheBytes attentionLayers geometry.kvHeads geometry.headDim context batch
  let recurrentBytes ← nemotronRecurrentBytes config batch mambaLayers
  return { kvCacheBytes, recurrentBytes }

def gemmaState (config : Json) (geometry : Geometry) (context batch : Nat) :
    Except String RuntimeState := do
  let tokenLayers ← gemmaTokenLayers config geometry.layers context
  let kvCacheBytes ← tokenLayerBytes "gemma3" geometry tokenLayers batch
  return { kvCacheBytes, recurrentBytes := 0 }

def lagunaState (config : Json) (geometry : Geometry) (context batch : Nat) :
    Except String RuntimeState := do
  let tokenLayers ← lagunaTokenLayers config geometry.layers context
  let kvCacheBytes ← tokenLayerBytes "Laguna" geometry tokenLayers batch
  return { kvCacheBytes, recurrentBytes := 0 }

/-- The arm of every other architecture: each layer has attention. -/
def attentionState (geometry : Geometry) (context batch : Nat) : Except String RuntimeState := do
  let kvCacheBytes ←
    attentionCacheBytes geometry.layers geometry.kvHeads geometry.headDim context batch
  return { kvCacheBytes, recurrentBytes := 0 }

/-- The arms of `estimate_runtime_state`. -/
def runtimeState (modelType : Option String) (config : Json) (geometry : Geometry)
    (context batch : Nat) : Except String RuntimeState :=
  if modelType.any (· ∈ ["qwen3_5", "qwen3_5_text", "qwen3_5_moe", "qwen3_5_moe_text"]) then
    qwenState config geometry context batch
  else if modelType = some "nemotron_h" then
    nemotronState config geometry context batch
  else if modelType.any (· ∈ ["gemma3", "gemma3_text"]) then
    gemmaState config geometry context batch
  else if modelType = some "laguna" then
    lagunaState config geometry context batch
  else
    attentionState geometry context batch

/-- The bytes of the caches of a model at a context. -/
def estimateRuntimeState (modelType : Option String) (config : Json) (workload : WorkloadProfile) :
    Except String RuntimeState := do
  let geometry ← attentionGeometry config
  runtimeState modelType config geometry workload.contextTokens workload.batchSize

/-! ## The fit -/

structure FitReport where
  budgetBytes : Nat
  weightsBytes : Nat
  kvCacheBytes : Nat
  promptCacheBytes : Nat
  runtimeCacheBytes : Nat
  persistentBytes : Nat
  marginBytes : Nat
  requiredBytes : Nat
  workload : WorkloadProfile
  fits : Bool
deriving DecidableEq

/-- What the runtime holds beside the caches of the attention. -/
def persistentBytes (config : Json) (state : RuntimeState) (workload : WorkloadProfile) :
    Except String Nat := do
  let activations ← required "activation-memory estimate overflow" (checkedProduct
    [workload.contextTokens, (integer config "hidden_size").getD 0, workload.batchSize, 2])
  let state ← required "persistent-memory estimate overflow"
    (checkedAdd state.recurrentBytes activations)
  required "persistent-memory estimate overflow" (checkedAdd 67108864 state)

/-- What the prompt cache may hold. -/
def promptCacheBytes (config : Json) (modelType : Option String) (batch promptCacheTokens : Nat) :
    Except String Nat :=
  if 0 < promptCacheTokens then do
    let cachedWorkload ← WorkloadProfile.new batch promptCacheTokens
    let cached ← estimateRuntimeState modelType config cachedWorkload
    let recurrent ← required "prompt-cache state estimate overflow"
      (checkedProduct [cached.recurrentBytes, DEFAULT_MAX_ENTRIES])
    required "prompt-cache estimate overflow" (checkedAdd cached.kvCacheBytes recurrent)
  else .ok 0

/-- The sum of all parts. -/
def requiredBytes (weights kvCache promptCache persistent margin : Nat) : Except String Nat := do
  let sum ← required "fit estimate overflow" (checkedAdd persistent margin)
  let sum ← required "fit estimate overflow" (checkedAdd MLX_FREED_BUFFER_CACHE_BYTES sum)
  let sum ← required "fit estimate overflow" (checkedAdd promptCache sum)
  let sum ← required "fit estimate overflow" (checkedAdd kvCache sum)
  required "fit estimate overflow" (checkedAdd weights sum)

/-- `estimate_fit_from_config_with_prompt_cache_tokens`. -/
def estimateFit (config : Json) (modelType : Option String) (weightsBytes : Nat)
    (workload : WorkloadProfile) (budgetBytes promptCacheTokens : Nat) :
    Except String FitReport := do
  let state ← estimateRuntimeState modelType config workload
  let persistentBytes ← persistentBytes config state workload
  let promptCacheBytes ←
    promptCacheBytes config modelType workload.batchSize promptCacheTokens
  let marginBytes := max 536870912 (weightsBytes / 10)
  let requiredBytes ←
    requiredBytes weightsBytes state.kvCacheBytes promptCacheBytes persistentBytes marginBytes
  return {
    budgetBytes
    weightsBytes
    kvCacheBytes := state.kvCacheBytes
    promptCacheBytes
    runtimeCacheBytes := MLX_FREED_BUFFER_CACHE_BYTES
    persistentBytes
    marginBytes
    requiredBytes
    workload
    fits := requiredBytes ≤ budgetBytes }

/-- The test of the search. -/
def contextFits (config : Json) (modelType : Option String)
    (weightsBytes budgetBytes promptCacheTokenCeiling contextTokens : Nat) :
    Except String Bool := do
  let workload ← WorkloadProfile.new 1 contextTokens
  let fit ← estimateFit config modelType weightsBytes workload budgetBytes
    (min contextTokens promptCacheTokenCeiling)
  return fit.fits

/-- `maximum_fitting_context_from_config`. -/
def maximumFittingContext (config : Json) (modelType : Option String)
    (weightsBytes maximumContextTokens budgetBytes promptCacheTokenCeiling : Nat) :
    Except String (Option Nat) := do
  let fits := contextFits config modelType weightsBytes budgetBytes promptCacheTokenCeiling
  if maximumContextTokens = 0 then return none
  if !(← fits 1) then return none
  if ← fits maximumContextTokens then return some maximumContextTokens
  let fitting ← Bisection.bisect fits 1 maximumContextTokens
  return some fitting

end Fit

end Emelex
