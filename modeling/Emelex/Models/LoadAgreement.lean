import Emelex.Models.FitSearch
import Emelex.Models.LoadPolicy

/-!
# A policy for the largest context is accepted

* `Loadable` — what an inspection asks of a directory, apart from the workload.

Principal results: `inspectDirectory_compatible`, `resolvedPolicy_accepted`,
`largest_context_loads`.
-/

set_option autoImplicit false

namespace Emelex

open Checks

namespace Load

open Fit (WorkloadProfile FitReport)

/-! ## The inspection -/

/-- What an inspection finds in a directory of a model that can be loaded. -/
structure Loadable (runtime : Runtime) (config : Json) (inventory : Inventory)
    (capabilities : Capabilities) : Prop where
  config_eq : runtime.config = .ok config
  architecture : validateArchitecture runtime config = .ok []
  tokenizer : runtime.tokenizer = .ok none
  inventory_eq : runtime.inventory = .ok inventory
  hasFiles : inventory.hasFiles = true
  quantization : runtime.quantization = none
  templates : runtime.templates = .ok capabilities
  task : (capabilities.chat || capabilities.translation) = true

theorem inspectFit_reasons {config : Json} {weightsBytes budgetBytes promptCacheTokens : Nat}
    {workload : WorkloadProfile} :
    (inspectFit config weightsBytes workload budgetBytes promptCacheTokens).2 = [] ↔
      ∃ fit, Fit.estimateFit (textConfig config) (modelType config) weightsBytes workload
        budgetBytes promptCacheTokens = .ok fit ∧ fit.fits = true := by
  unfold inspectFit
  cases Fit.estimateFit (textConfig config) (modelType config) weightsBytes workload budgetBytes
      promptCacheTokens with
  | error reason => simp
  | ok fit => cases hfits : fit.fits <;> simp [hfits]

theorem ite_singleton_eq_nil {α : Type} {condition : Prop} [Decidable condition] {a : α} :
    (if condition then [] else [a]) = [] ↔ condition := by
  split <;> simp_all

section Inspection

variable {runtime : Runtime} {workload : WorkloadProfile} {budgetBytes promptCacheTokens : Nat}

/-- A compatible report: the directory can be loaded, and its traits are derived from it. -/
theorem inspectDirectory_loadable {report : CompatibilityReport}
    (h : inspectDirectory runtime workload budgetBytes promptCacheTokens = .ok report)
    (hcompatible : report.compatible = true) :
    ∃ config inventory capabilities, Loadable runtime config inventory capabilities ∧
      report.traits = deriveTraits config inventory report.fit workload capabilities := by
  obtain ⟨config, hconfig, h⟩ := Checks.bind_eq_ok.1 h
  obtain ⟨architecture, harchitecture, h⟩ := Checks.bind_eq_ok.1 h
  obtain ⟨tokenizer, htokenizer, h⟩ := Checks.bind_eq_ok.1 h
  obtain ⟨inventory, hinventory, h⟩ := Checks.bind_eq_ok.1 h
  obtain ⟨capabilities, htemplates, h⟩ := Checks.bind_eq_ok.1 h
  obtain rfl := Checks.pure_eq_ok.1 h
  simp only [List.isEmpty_iff, List.append_eq_nil_iff, ite_singleton_eq_nil] at hcompatible
  obtain ⟨⟨⟨⟨⟨rfl, htokens⟩, hfiles⟩, hquantization⟩, hfit⟩, htask⟩ := hcompatible
  refine ⟨config, inventory, capabilities, ?_, rfl⟩
  exact {
    config_eq := hconfig
    architecture := harchitecture
    tokenizer := Option.toList_eq_nil_iff.1 htokens ▸ htokenizer
    inventory_eq := hinventory
    hasFiles := hfiles
    quantization := Option.map_eq_none_iff.1 (Option.toList_eq_nil_iff.1 hquantization)
    templates := htemplates
    task := htask }

/-- A directory that can be loaded is compatible with every workload that fits. -/
theorem inspectDirectory_compatible {config : Json} {inventory : Inventory}
    {capabilities : Capabilities} (h : Loadable runtime config inventory capabilities)
    {fit : FitReport} (hfit : Fit.estimateFit (textConfig config) (modelType config)
      inventory.weightsBytes workload budgetBytes promptCacheTokens = .ok fit)
    (hfits : fit.fits = true) :
    ∃ report, inspectDirectory runtime workload budgetBytes promptCacheTokens = .ok report ∧
      report.compatible = true := by
  refine ⟨_, Checks.bind_eq_ok.2 ⟨config, h.config_eq, Checks.bind_eq_ok.2 ⟨[], h.architecture,
    Checks.bind_eq_ok.2 ⟨none, h.tokenizer, Checks.bind_eq_ok.2 ⟨inventory, h.inventory_eq,
      Checks.bind_eq_ok.2 ⟨capabilities, h.templates, rfl⟩⟩⟩⟩⟩, ?_⟩
  have hreasons := inspectFit_reasons.2 ⟨fit, hfit, hfits⟩
  simp [h.hasFiles, h.quantization, hreasons, deriveTraits, h.task]

end Inspection

/-! ## The policy -/

theorem mapError_eq_ok {α ε ε' : Type} {x : Except ε α} {f : ε → ε'} {a : α} :
    x.mapError f = .ok a ↔ x = .ok a := by
  cases x <;> simp [Except.mapError]

/-- The import of an installed model has inspected its directory. -/
theorem InstalledModel.loadable (installed : InstalledModel) :
    ∃ config inventory capabilities sizing,
      Loadable installed.runtime config inventory capabilities ∧
      installed.traits.sizing = some sizing ∧
      sizing.weightsBytes = some inventory.weightsBytes := by
  obtain ⟨manager, load, hcertified⟩ := installed.certified
  obtain ⟨workload, hworkload, hcertified⟩ := Checks.bind_eq_ok.1 hcertified
  obtain ⟨report, hreport, hcertified⟩ := Checks.bind_eq_ok.1 hcertified
  obtain ⟨_, hcompatible, hcertified⟩ := Checks.bind_eq_ok.1 hcertified
  obtain ⟨policy, hpolicy, hcertified⟩ := Checks.bind_eq_ok.1 hcertified
  obtain ⟨supportsMtp, hload, hcertified⟩ := Checks.bind_eq_ok.1 hcertified
  have htraits := Checks.pure_eq_ok.1 hcertified
  obtain ⟨config, inventory, capabilities, hloadable, hderived⟩ :=
    inspectDirectory_loadable (mapError_eq_ok.1 hreport) (ensure_eq_ok.1 hcompatible)
  have hsizing : installed.traits.sizing = (deriveTraits config inventory report.fit workload
      capabilities).sizing := by
    rw [← htraits, ← hderived]
  exact ⟨config, inventory, capabilities, _, hloadable, hsizing, rfl⟩

section Policy

variable {manager : ModelManager} {installed : InstalledModel} {options : ModelLoadOptions}
  {policy : ModelLoadPolicy}

theorem resolveLoadPolicy_eq_ok {traits : ModelTraits}
    (h : resolveLoadPolicy manager traits options = .ok policy) :
    policy = effectivePolicy manager.inference traits options := by
  obtain ⟨_, -, h⟩ := Checks.bind_eq_ok.1 h
  exact (Checks.pure_eq_ok.1 h).symm

/-- A context within the limit of the model is not clamped. -/
theorem effectivePolicy_context {inference : InferenceConfig} {traits : ModelTraits}
    {sizing : ModelSizing} {limit context : Nat} (hsizing : traits.sizing = some sizing)
    (hlimit : sizing.maxContextTokens = some limit) (hle : context ≤ limit)
    (hcontext : options.contextTokens = some context) :
    (effectivePolicy inference traits options).contextTokens = context := by
  simp only [effectivePolicy, hsizing, hcontext, Option.bind_some, hlimit, Option.getD_some]
  exact Nat.min_eq_left hle

/-- The policy for the largest context: the search has found it, and it is not clamped any more. -/
theorem resolveMaximumPolicy_eq_ok {sizing : ModelSizing} {weightsBytes maximum : Nat}
    (hsizing : installed.traits.sizing = some sizing)
    (hmaximum : sizing.maxContextTokens = some maximum)
    (h : resolveMaximumPolicy manager installed options weightsBytes maximum = .ok policy) :
    maximumFittingContext installed.runtime weightsBytes (min maximum MAX_LOAD_CONTEXT_TOKENS)
        manager.metalBudgetBytes Fit.DEFAULT_MAX_TOTAL_TOKENS = .ok (some policy.contextTokens) ∧
      policy.promptCacheTokens = min policy.contextTokens Fit.DEFAULT_MAX_TOTAL_TOKENS := by
  obtain ⟨context, hcontext, h⟩ := Checks.bind_eq_ok.1 h
  obtain ⟨contextTokens, hrequired, h⟩ := Checks.bind_eq_ok.1 h
  obtain ⟨resolved, hresolved, h⟩ := Checks.bind_eq_ok.1 h
  obtain rfl := Checks.pure_eq_ok.1 h
  obtain rfl := required_eq_ok.1 hrequired
  have hfound := mapError_eq_ok.1 hcontext
  have hle : contextTokens ≤ maximum := by
    obtain ⟨config, hconfig, hsearch⟩ := Checks.bind_eq_ok.1 hfound
    obtain ⟨-, hle, -⟩ := Fit.maximumFittingContext_fits (mapError_eq_ok.1 hsearch)
    exact hle.trans (Nat.min_le_left _ _)
  have hresult : resolved.contextTokens = contextTokens := by
    rw [resolveLoadPolicy_eq_ok hresolved]
    exact effectivePolicy_context hsizing hmaximum hle rfl
  exact ⟨hresult ▸ hfound, rfl⟩

theorem resolveLoadPolicy_configured {traits : ModelTraits}
    (h : resolveLoadPolicy manager traits options = .ok policy) :
    policy.contextSelection = .configured := by
  rw [resolveLoadPolicy_eq_ok h]
  rfl

/-- Only the search gives a policy its provenance. -/
theorem resolveInstalledLoadPolicy_maximum
    (h : resolveInstalledLoadPolicy manager installed options = .ok policy)
    (hselection : policy.contextSelection = .maximumMachineFit) :
    ∃ sizing weightsBytes maximum, installed.traits.sizing = some sizing ∧
      sizing.weightsBytes = some weightsBytes ∧ sizing.maxContextTokens = some maximum ∧
      resolveMaximumPolicy manager installed options weightsBytes maximum = .ok policy := by
  unfold resolveInstalledLoadPolicy at h
  split at h
  · obtain ⟨_, -, h⟩ := Checks.bind_eq_ok.1 h
    split at h
    · rename_i weightsBytes residency evaluated maximum hsizing
      exact ⟨_, weightsBytes, maximum, hsizing, rfl, rfl, h⟩
    · rw [resolveLoadPolicy_configured h] at hselection
      cases hselection
  · obtain ⟨resolved, hresolved, h⟩ := Checks.bind_eq_ok.1 h
    obtain ⟨_, -, h⟩ := Checks.bind_eq_ok.1 h
    obtain rfl := Checks.pure_eq_ok.1 h
    rw [resolveLoadPolicy_configured hresolved] at hselection
    cases hselection

/-- The second inspection is made for the context and the prompt cache that the search has
tested. -/
theorem resolvedPolicy_accepted
    (h : resolveInstalledLoadPolicy manager installed options = .ok policy)
    (hselection : policy.contextSelection = .maximumMachineFit) :
    (∃ sizing weightsBytes maximum, installed.traits.sizing = some sizing ∧
      sizing.weightsBytes = some weightsBytes ∧ sizing.maxContextTokens = some maximum ∧
      maximumFittingContext installed.runtime weightsBytes (min maximum MAX_LOAD_CONTEXT_TOKENS)
        manager.metalBudgetBytes Fit.DEFAULT_MAX_TOTAL_TOKENS = .ok (some policy.contextTokens)) ∧
      validateLoadCompatibility manager installed policy = .ok () := by
  obtain ⟨sizing, weightsBytes, maximum, hsizing, hweights, hmaximum, h⟩ :=
    resolveInstalledLoadPolicy_maximum h hselection
  obtain ⟨hfound, hcache⟩ := resolveMaximumPolicy_eq_ok hsizing hmaximum h
  refine ⟨⟨sizing, weightsBytes, maximum, hsizing, hweights, hmaximum, hfound⟩, ?_⟩
  obtain ⟨config, inventory, capabilities, sizing', hloadable, hsizing', hweights'⟩ :=
    installed.loadable
  obtain rfl := Option.some.inj (hsizing.symm.trans hsizing')
  obtain rfl := Option.some.inj (hweights.symm.trans hweights')
  obtain ⟨config', hconfig, hsearch⟩ := Checks.bind_eq_ok.1 hfound
  obtain rfl := Except.ok.inj (hconfig.symm.trans hloadable.config_eq)
  obtain ⟨-, -, fit, hestimate, hfits⟩ := Fit.maximumFittingContext_fits (mapError_eq_ok.1 hsearch)
  obtain ⟨workload, hworkload, hestimate⟩ := Checks.bind_eq_ok.1 hestimate
  obtain ⟨report, hreport, hcompatible⟩ := inspectDirectory_compatible hloadable hestimate hfits
  refine Checks.bind_eq_ok.2 ⟨workload, mapError_eq_ok.2 hworkload, Checks.bind_eq_ok.2
    ⟨report, mapError_eq_ok.2 ?_, ensure_eq_ok.2 hcompatible⟩⟩
  rw [hcache]
  exact hreport

end Policy

/-! ## The largest context -/

/-- The search is right for budgets of up to 2^39 bytes, and what it finds can be loaded. -/
theorem largest_context_loads {config : Json} {modelType : Option String}
    {weightsBytes maximumContextTokens budgetBytes promptCacheTokenCeiling : Nat} {fit : FitReport}
    (hmaximum : maximumContextTokens ≤ MAX_LOAD_CONTEXT_TOKENS)
    (hbudget : budgetBytes ≤ 549755813888)
    (h : Fit.estimateAt config modelType weightsBytes budgetBytes promptCacheTokenCeiling 1 =
      .ok fit) :
    (∃ result, Fit.maximumFittingContext config modelType weightsBytes maximumContextTokens
        budgetBytes promptCacheTokenCeiling = .ok result ∧
      (∀ context, result = some context → IsGreatest { n | 0 < n ∧ n ≤ maximumContextTokens ∧
        Fit.Fits config modelType weightsBytes budgetBytes promptCacheTokenCeiling n } context) ∧
      (result = none ↔ maximumContextTokens = 0 ∨
        ¬ Fit.Fits config modelType weightsBytes budgetBytes promptCacheTokenCeiling 1)) ∧
    ∀ manager installed options policy,
      resolveInstalledLoadPolicy manager installed options = .ok policy →
      policy.contextSelection = .maximumMachineFit →
      (∃ sizing weightsBytes maximum, installed.traits.sizing = some sizing ∧
        sizing.weightsBytes = some weightsBytes ∧ sizing.maxContextTokens = some maximum ∧
        maximumFittingContext installed.runtime weightsBytes (min maximum MAX_LOAD_CONTEXT_TOKENS)
          manager.metalBudgetBytes Fit.DEFAULT_MAX_TOTAL_TOKENS =
            .ok (some policy.contextTokens)) ∧
        validateLoadCompatibility manager installed policy = .ok () := by
  refine ⟨Fit.maximumFittingContext_largest ?_ h, fun _ _ _ _ hpolicy hselection =>
    resolvedPolicy_accepted hpolicy hselection⟩
  calc maximumContextTokens * budgetBytes
      ≤ MAX_LOAD_CONTEXT_TOKENS * 549755813888 := Nat.mul_le_mul hmaximum hbudget
    _ < Fit.U64_LIMIT := by decide

/-- The configuration of a small model. -/
def smallConfig : Json :=
  .object [("model_type", .string "llama"), ("num_hidden_layers", .number (.posInt 2)),
    ("hidden_size", .number (.posInt 64)), ("num_attention_heads", .number (.posInt 4)),
    ("max_position_embeddings", .number (.posInt 2048))]

def smallRuntime : Runtime where
  config := .ok smallConfig
  checkpointConfig := none
  tokenizer := .ok none
  inventory := .ok { hasFiles := true, weightsBytes := 4096, mtpWeights := false }
  quantization := none
  templates := .ok { chat := true, translation := false }

/-- `InferenceConfig::default`, with a budget of 4 GiB. -/
def smallManager : ModelManager where
  inference := {
    maxTokens := 4096
    contextTokens := 16384
    temperature := .finite 0
    topP := .finite 1
    topK := none
    seed := none
    thinking := .auto
    mtp := false
    speculativeTokens := 4
    promptCache := true }
  metalBudgetBytes := 4294967296

def smallInstalled : InstalledModel where
  runtime := smallRuntime
  traits := {
    sizing := some ⟨some 4096, some 2770341888, some 16384, some 2048⟩
    chat := true
    translation := false
    mtp := .absent }
  certified := ⟨smallManager, fun _ => .ok false, by decide +kernel⟩

/-- The options of a load with the largest context. -/
def maximumOptions : ModelLoadOptions := { ModelLoadOptions.default with maximumContext := true }

def smallPolicy : ModelLoadPolicy where
  queueCapacity := 8
  maxTokens := 2048
  contextTokens := 2048
  contextSelection := .maximumMachineFit
  temperature := .finite 0
  topP := .finite 1
  topK := none
  seed := none
  thinking := .auto
  reasoningBudgetTokens := none
  promptCache := true
  promptCacheTokens := 2048
  speculativeTokens := 0

/-- The small model is loaded with all of the context that it declares. -/
theorem small_context_loads :
    IsGreatest { n | 0 < n ∧ n ≤ 2048 ∧
        Fit.Fits smallConfig (some "llama") 4096 4294967296 16384 n } 2048 ∧
      resolveInstalledLoadPolicy smallManager smallInstalled maximumOptions = .ok smallPolicy ∧
      validateLoadCompatibility smallManager smallInstalled smallPolicy = .ok () := by
  obtain ⟨fit, hfit, -⟩ : Fit.Fits smallConfig (some "llama") 4096 4294967296 16384 1 :=
    Fit.fits_iff.2 (by decide +kernel)
  have hsearch : Fit.maximumFittingContext smallConfig (some "llama") 4096 2048 4294967296 16384 =
      .ok (some 2048) := by decide +kernel
  have hpolicy : resolveInstalledLoadPolicy smallManager smallInstalled maximumOptions =
      .ok smallPolicy := by decide +kernel
  obtain ⟨⟨result, hresult, hgreatest, -⟩, hloads⟩ :=
    @largest_context_loads smallConfig (some "llama") 4096 2048 4294967296 16384 fit (by decide)
      (by decide) hfit
  obtain rfl := Except.ok.inj (hresult.symm.trans hsearch)
  exact ⟨hgreatest 2048 rfl, hpolicy, (hloads _ _ _ _ hpolicy rfl).2⟩

/-- Where the ceiling is zero there is no result, whatever fits. -/
theorem zero_ceiling :
    Fit.Fits smallConfig (some "llama") 4096 549755813888 16384 1 ∧
      Fit.maximumFittingContext smallConfig (some "llama") 4096 0 549755813888 16384 = .ok none :=
  ⟨Fit.fits_iff.2 (by decide +kernel), rfl⟩

end Load

end Emelex
