import Emelex.Models.FitEstimate

/-!
# The policy of a load (`models/mod.rs`, `model/compatibility.rs`)

* `inspectDirectory` — whether a model can be loaded for a workload, and why not.
* `certify` — the traits that an import keeps of an inspection.
* `resolveInstalledLoadPolicy` — the policy of a load, from the configuration, the options of the
  load and the traits of the model; it may look for the largest context that fits.
* `validateLoadCompatibility` — inspects the model again, for the policy.

Of the inspection of a directory, what does not depend on the workload is data of the directory:
whether its configuration is one of a checkpoint, and what its tokenizer, its weights and its
templates are.  Of the traits, only what a policy reads is kept.  A path is left out of an error.

Principal definitions: `inspectDirectory`, `resolveInstalledLoadPolicy`,
`validateLoadCompatibility`.
-/

set_option autoImplicit false

namespace Emelex

open Checks

namespace Load

open Fit (WorkloadProfile FitReport)

def MAX_FIXED_CONTEXT_TOKENS : Nat := 1048576
def MAX_LOAD_CONTEXT_TOKENS : Nat := 16777216

/-! ## Settings -/

/-- A 32-bit float, by its value. -/
inductive F32 where
  | nan
  | infinite (negative : Bool)
  | finite (value : Rat)
deriving DecidableEq, Repr

def F32.isFinite : F32 → Bool
  | .finite _ => true
  | _ => false

/-- `(low..=high).contains`. -/
def F32.within (low high : Rat) : F32 → Bool
  | .finite value => low ≤ value && value ≤ high
  | _ => false

inductive ThinkingMode where
  | auto
  | on
  | off
deriving DecidableEq, Repr

/-- `InferenceConfig`. -/
structure InferenceConfig where
  maxTokens : Nat
  contextTokens : Nat
  temperature : F32
  topP : F32
  topK : Option Nat
  seed : Option Nat
  thinking : ThinkingMode
  mtp : Bool
  speculativeTokens : Nat
  promptCache : Bool

inductive LoadOverride (α : Type) where
  | inherit
  | set (value : α)
  | clear

structure ModelLoadOptions where
  queueCapacity : Option Nat
  maxTokens : Option Nat
  contextTokens : Option Nat
  maximumContext : Bool
  temperature : LoadOverride F32
  topP : LoadOverride F32
  topK : LoadOverride Nat
  seed : LoadOverride Nat
  promptCache : Option Bool
  speculativeTokens : Option Nat
  thinking : Option ThinkingMode
  reasoningBudgetTokens : LoadOverride Nat

/-- `ModelLoadOptions::default`. -/
def ModelLoadOptions.default : ModelLoadOptions where
  queueCapacity := none
  maxTokens := none
  contextTokens := none
  maximumContext := false
  temperature := .inherit
  topP := .inherit
  topK := .inherit
  seed := .inherit
  promptCache := none
  speculativeTokens := none
  thinking := none
  reasoningBudgetTokens := .inherit

inductive ContextSelectionProvenance where
  | configured
  | maximumMachineFit
deriving DecidableEq, Repr

structure ModelLoadPolicy where
  queueCapacity : Nat
  maxTokens : Nat
  contextTokens : Nat
  contextSelection : ContextSelectionProvenance
  temperature : F32
  topP : F32
  topK : Option Nat
  seed : Option Nat
  thinking : ThinkingMode
  reasoningBudgetTokens : Option Nat
  promptCache : Bool
  promptCacheTokens : Nat
  speculativeTokens : Nat
deriving DecidableEq

inductive MtpSupport where
  | absent
  | advertised
  | runtimeVerified
deriving DecidableEq, Repr

structure ModelSizing where
  weightsBytes : Option Nat
  estimatedResidencyBytes : Option Nat
  evaluatedContextTokens : Option Nat
  maxContextTokens : Option Nat
deriving DecidableEq

/-- `ModelTraits`. -/
structure ModelTraits where
  sizing : Option ModelSizing
  chat : Bool
  translation : Bool
  mtp : MtpSupport
deriving DecidableEq

inductive InspectionError where
  | read
  | json (message : String)
  | config (message : String)
  | layout (message : String)
deriving DecidableEq, Repr

/-- `ModelsError`. -/
inductive ModelsError where
  | configuration (message : String)
  | incompatible (reasons : List String)
  | inspection (error : InspectionError)
  | engine (message : String)
deriving DecidableEq, Repr

/-! ## The inspection -/

/-- What the weight files of a directory are. -/
structure Inventory where
  hasFiles : Bool
  weightsBytes : Nat
  mtpWeights : Bool

/-- What the templates of a directory can do. -/
structure Capabilities where
  chat : Bool
  translation : Bool

/-- A model directory, as it is inspected. -/
structure Runtime where
  config : Except InspectionError Json
  /-- The error of `validate_checkpoint_config`. -/
  checkpointConfig : Option String
  /-- The reason why there is no tokenizer. -/
  tokenizer : Except InspectionError (Option String)
  inventory : Except InspectionError Inventory
  /-- The reason why the quantization is not supported. -/
  quantization : Option String
  templates : Except InspectionError Capabilities

structure CompatibilityReport where
  compatible : Bool
  modelType : Option String
  traits : ModelTraits
  fit : FitReport
  reasons : List String

def SUPPORTED_MODEL_TYPES : List String :=
  ["dhara_ar", "gemma3", "gemma3_text", "gemma4", "gemma4_text", "gemma4_unified",
    "gemma4_unified_text", "laguna", "llama", "nemotron_h", "qwen2", "qwen3", "qwen3_5",
    "qwen3_5_moe", "qwen3_5_moe_text", "qwen3_5_text"]

def modelType (config : Json) : Option String := (config.get "model_type").bind Json.asStr

/-- The part of the configuration that says how large the model is. -/
def textConfig (config : Json) : Json := (config.get "text_config").getD config

/-- Why an architecture is not supported. -/
def architectureReasons : Option String → List String
  | none => ["config.json has no string model_type"]
  | some "qwen3_5_mtp" => ["standalone qwen3_5_mtp sidecars have no loadable backbone"]
  | some value =>
    if value ∈ SUPPORTED_MODEL_TYPES then [] else [s!"unsupported model_type \"{value}\""]

def declaredMaxContext (config : Json) : Option Nat :=
  (["max_position_embeddings", "max_sequence_length", "seq_length", "model_max_length"].filterMap
    (Fit.integer config)).min?.filter (0 < ·)

/-- The report on a model that cannot be sized. -/
def failedFit (weightsBytes budgetBytes : Nat) (workload : WorkloadProfile) : FitReport where
  budgetBytes := budgetBytes
  weightsBytes := weightsBytes
  kvCacheBytes := 0
  promptCacheBytes := 0
  runtimeCacheBytes := Fit.MLX_FREED_BUFFER_CACHE_BYTES
  persistentBytes := 0
  marginBytes := 0
  requiredBytes := Fit.U64_LIMIT - 1
  workload := workload
  fits := false

/-- The estimate, and why it does not fit. -/
def inspectFit (config : Json) (weightsBytes : Nat) (workload : WorkloadProfile)
    (budgetBytes promptCacheTokens : Nat) : FitReport × List String :=
  let (fit, reasons) := match Fit.estimateFit (textConfig config) (modelType config) weightsBytes
      workload budgetBytes promptCacheTokens with
    | .ok fit => (fit, [])
    | .error reason => (failedFit weightsBytes budgetBytes workload, [reason])
  (fit, reasons ++ if fit.fits then [] else
    [s!"estimated residency {fit.requiredBytes} exceeds Metal budget {budgetBytes}"])

/-- `derive_traits`. -/
def deriveTraits (config : Json) (inventory : Inventory) (fit : FitReport)
    (workload : WorkloadProfile) (capabilities : Capabilities) : ModelTraits where
  sizing := some {
    weightsBytes := some inventory.weightsBytes
    estimatedResidencyBytes := some fit.requiredBytes
    evaluatedContextTokens := some workload.contextTokens
    maxContextTokens := declaredMaxContext (textConfig config) }
  chat := capabilities.chat
  translation := capabilities.translation
  mtp :=
    if 0 < (Fit.integer (textConfig config) "num_nextn_predict_layers").getD 0 ∨
        0 < (Fit.integer (textConfig config) "mtp_num_hidden_layers").getD 0 ∨
        inventory.mtpWeights = true then
      .advertised
    else .absent

/-- Where the architecture is supported, the configuration is checked. -/
def validateArchitecture (runtime : Runtime) (config : Json) :
    Except InspectionError (List String) :=
  let reasons := architectureReasons (modelType config)
  match runtime.checkpointConfig with
  | some message => if reasons = [] then .error (.config message) else .ok reasons
  | none => .ok reasons

/-- `inspect_directory_with_prompt_cache_tokens`. -/
def inspectDirectory (runtime : Runtime) (workload : WorkloadProfile)
    (budgetBytes promptCacheTokens : Nat) : Except InspectionError CompatibilityReport := do
  let config ← runtime.config
  let architecture ← validateArchitecture runtime config
  let tokenizer ← runtime.tokenizer
  let inventory ← runtime.inventory
  let weights := if inventory.hasFiles then [] else ["no runnable safetensors weights"]
  let quantization :=
    runtime.quantization.map fun message => s!"unsupported quantization: {message}"
  let fit := inspectFit config inventory.weightsBytes workload budgetBytes promptCacheTokens
  let capabilities ← runtime.templates
  let traits := deriveTraits config inventory fit.1 workload capabilities
  let templates := if traits.chat || traits.translation then [] else
    ["no supported chat template in chat_template.jinja, chat_templates/default.jinja, " ++
      "tokenizer_config.json, or processor_config.json"]
  let reasons :=
    architecture ++ tokenizer.toList ++ weights ++ quantization.toList ++ fit.2 ++ templates
  return {
    compatible := reasons.isEmpty
    modelType := modelType config
    traits
    fit := fit.1
    reasons }

/-- `maximum_fitting_context`. -/
def maximumFittingContext (runtime : Runtime)
    (weightsBytes maximumContextTokens budgetBytes promptCacheTokenCeiling : Nat) :
    Except InspectionError (Option Nat) := do
  let config ← runtime.config
  (Fit.maximumFittingContext (textConfig config) (modelType config) weightsBytes
    maximumContextTokens budgetBytes promptCacheTokenCeiling).mapError .config

/-! ## The policy -/

/-- `resolve_override`. -/
def resolveOverride {α : Type} (setting : LoadOverride α) (inherited cleared : α) : α :=
  match setting with
  | .inherit => inherited
  | .set value => value
  | .clear => cleared

/-- `resolve_optional_override`. -/
def resolveOptionalOverride {α : Type} (setting : LoadOverride α) (inherited : Option α) :
    Option α :=
  match setting with
  | .inherit => inherited
  | .set value => some value
  | .clear => none

def validateLoadPolicy (policy : ModelLoadPolicy) (traits : ModelTraits) :
    Except ModelsError Unit := do
  ensure (1 ≤ policy.queueCapacity ∧ policy.queueCapacity ≤ 64)
    (ModelsError.configuration "effective queue_capacity must be in 1..=64")
  ensure (policy.maxTokens ≠ 0 ∧ policy.maxTokens ≤ 1048576)
    (ModelsError.configuration "effective max_tokens must be in 1..=1048576")
  ensure (policy.contextTokens ≠ 0 ∧ policy.contextTokens ≤ MAX_LOAD_CONTEXT_TOKENS)
    (ModelsError.configuration "effective context_tokens must be in 1..=16777216")
  ensure (policy.promptCacheTokens ≠ 0 ∧ policy.promptCacheTokens ≤ policy.contextTokens)
    (ModelsError.configuration "effective prompt_cache_tokens must be in 1..=context_tokens")
  ensure (policy.maxTokens ≤ policy.contextTokens)
    (ModelsError.configuration "effective max_tokens cannot exceed context_tokens")
  ensure (policy.temperature.isFinite = true ∧ policy.temperature.within 0 2 = true)
    (ModelsError.configuration "effective temperature must be finite and in 0..=2")
  ensure (policy.topP.isFinite = true ∧ policy.topP.within 0 1 = true)
    (ModelsError.configuration "effective top_p must be finite and in 0..=1")
  ensure (¬ policy.topK.any (fun value => value = 0 ∨ 2147483647 < value) = true)
    (ModelsError.configuration "effective top_k must be in 1..=2147483647")
  ensure (policy.speculativeTokens ≤ 8)
    (ModelsError.configuration "effective speculative_tokens must be at most 8")
  ensure (¬ policy.reasoningBudgetTokens.any (fun value => value = 0 ∨ policy.maxTokens < value) =
      true)
    (ModelsError.configuration "effective reasoning budget must be in 1..=max_tokens")
  ensure (policy.reasoningBudgetTokens.isSome = true → policy.thinking = .on)
    (ModelsError.configuration "reasoning budget requires thinking to be on")
  ensure (0 < policy.speculativeTokens → traits.mtp = .runtimeVerified)
    (ModelsError.configuration "nonzero speculative_tokens requires runtime-verified MTP")

/-- The policy of `resolve_load_policy`, before it is checked. -/
def effectivePolicy (inference : InferenceConfig) (traits : ModelTraits)
    (options : ModelLoadOptions) : ModelLoadPolicy :=
  let requestedContext := options.contextTokens.getD inference.contextTokens
  let contextTokens := match traits.sizing.bind (·.maxContextTokens) with
    | some limit => min requestedContext limit
    | none => requestedContext
  {
    queueCapacity := options.queueCapacity.getD 8
    maxTokens := min (options.maxTokens.getD inference.maxTokens) contextTokens
    contextTokens
    contextSelection := .configured
    temperature := resolveOverride options.temperature inference.temperature (.finite 0)
    topP := resolveOverride options.topP inference.topP (.finite 1)
    topK := resolveOptionalOverride options.topK inference.topK
    seed := resolveOptionalOverride options.seed inference.seed
    thinking := options.thinking.getD inference.thinking
    reasoningBudgetTokens := match options.reasoningBudgetTokens with
      | .inherit | .clear => none
      | .set value => some value
    promptCache := options.promptCache.getD inference.promptCache
    promptCacheTokens := contextTokens
    speculativeTokens := options.speculativeTokens.getD
      (if inference.mtp then inference.speculativeTokens else 0) }

/-- `ModelManager`. -/
structure ModelManager where
  inference : InferenceConfig
  metalBudgetBytes : Nat

def resolveLoadPolicy (manager : ModelManager) (traits : ModelTraits) (options : ModelLoadOptions) :
    Except ModelsError ModelLoadPolicy := do
  let policy := effectivePolicy manager.inference traits options
  validateLoadPolicy policy traits
  return policy

/-! ## Installed models -/

/-- `certify_local_runtime`; `load` is what the engine says of the loaded model. -/
def certify (manager : ModelManager) (runtime : Runtime)
    (load : ModelLoadPolicy → Except ModelsError Bool) : Except ModelsError ModelTraits := do
  let workload ← (WorkloadProfile.new 1 manager.inference.contextTokens).mapError .configuration
  let report ← (inspectDirectory runtime workload manager.metalBudgetBytes
    workload.contextTokens).mapError .inspection
  ensure (report.compatible = true) (ModelsError.incompatible report.reasons)
  let policy ← resolveLoadPolicy manager report.traits { ModelLoadOptions.default with
    speculativeTokens := some 0
    thinking := some .off
    reasoningBudgetTokens := .clear }
  let supportsMtp ← load policy
  return {
    report.traits with
    mtp := if supportsMtp && report.traits.mtp = .advertised then .runtimeVerified
      else report.traits.mtp }

/-- An installed model: its manifest has the traits that its import has certified. -/
structure InstalledModel where
  runtime : Runtime
  traits : ModelTraits
  certified : ∃ manager load, certify manager runtime load = .ok traits

/-- The policy for the largest context, from what the manifest says of the size of the model. -/
def resolveMaximumPolicy (manager : ModelManager) (installed : InstalledModel)
    (options : ModelLoadOptions) (weightsBytes maximumContextTokens : Nat) :
    Except ModelsError ModelLoadPolicy := do
  let context ← (maximumFittingContext installed.runtime weightsBytes
    (min maximumContextTokens MAX_LOAD_CONTEXT_TOKENS) manager.metalBudgetBytes
    Fit.DEFAULT_MAX_TOTAL_TOKENS).mapError .inspection
  let contextTokens ← required (.incompatible
    [s!"no positive context fits the active Metal budget {manager.metalBudgetBytes}"]) context
  let policy ← resolveLoadPolicy manager installed.traits
    { options with maximumContext := false, contextTokens := some contextTokens }
  return {
    policy with
    contextSelection := .maximumMachineFit
    promptCacheTokens := min policy.contextTokens Fit.DEFAULT_MAX_TOTAL_TOKENS }

/-- `resolve_installed_load_policy`. -/
def resolveInstalledLoadPolicy (manager : ModelManager) (installed : InstalledModel)
    (options : ModelLoadOptions) : Except ModelsError ModelLoadPolicy :=
  if options.maximumContext then do
    ensure (options.contextTokens = none) (ModelsError.configuration
      "maximum_context conflicts with a fixed context_tokens override")
    match installed.traits.sizing with
    | some { weightsBytes := some weightsBytes, maxContextTokens := some maximum, .. } =>
      resolveMaximumPolicy manager installed options weightsBytes maximum
    | _ => resolveLoadPolicy manager installed.traits options
  else do
    let policy ← resolveLoadPolicy manager installed.traits options
    ensure (policy.contextTokens ≤ MAX_FIXED_CONTEXT_TOKENS)
      (ModelsError.configuration "fixed context_tokens must be in 1..=1048576")
    return policy

/-- `validate_load_compatibility`. -/
def validateLoadCompatibility (manager : ModelManager) (installed : InstalledModel)
    (policy : ModelLoadPolicy) : Except ModelsError Unit := do
  let workload ← (WorkloadProfile.new 1 policy.contextTokens).mapError .configuration
  let compatibility ← (inspectDirectory installed.runtime workload manager.metalBudgetBytes
    policy.promptCacheTokens).mapError .inspection
  ensure (compatibility.compatible = true) (ModelsError.incompatible compatibility.reasons)

end Load

end Emelex
