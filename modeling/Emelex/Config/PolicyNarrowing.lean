import Emelex.Config.ProjectNarrowing
import Emelex.Models.LoadAgreement

/-!
# A project can only narrow the policy of a load

The settings of a configuration reach a model through the policy of its load, together with the
options of the load and the traits of the model.

* `effectivePolicy_narrower` — narrower settings give a narrower policy, whatever the options.
* `resolveInstalledLoadPolicy_cases` — the two ways to a policy.
* `resolveInstalledLoadPolicy_narrower` — also the search for the largest context keeps the order.

Principal result: `project_policy_narrows`.
-/

set_option autoImplicit false

namespace Emelex

open Checks

namespace Configuration

open Load

/-- What the one policy lets a model do, the other does, too. -/
structure PolicyNarrower (narrow wide : ModelLoadPolicy) : Prop where
  queueCapacity : narrow.queueCapacity = wide.queueCapacity
  maxTokens : narrow.maxTokens ≤ wide.maxTokens
  contextTokens : narrow.contextTokens ≤ wide.contextTokens
  contextSelection : narrow.contextSelection = wide.contextSelection
  temperature : narrow.temperature.AtMost wide.temperature
  topP : narrow.topP.AtMost wide.topP
  topK : candidates narrow.topK ≤ candidates wide.topK
  seed : narrow.seed = wide.seed
  thinking : narrow.thinking = wide.thinking ∨ narrow.thinking = .off
  reasoningBudgetTokens : narrow.reasoningBudgetTokens = wide.reasoningBudgetTokens
  promptCache : narrow.promptCache = true → wide.promptCache = true
  promptCacheTokens : narrow.promptCacheTokens ≤ wide.promptCacheTokens
  speculativeTokens : narrow.speculativeTokens ≤ wide.speculativeTokens

/-! ## Overrides -/

section overrides

variable {α : Type}

/-- An option takes the place of both settings, so that it keeps their order. -/
theorem getD_related {r : α → α → Prop} (refl : ∀ a, r a a) {narrow wide : α}
    (h : r narrow wide) (option : Option α) : r (option.getD narrow) (option.getD wide) := by
  cases option with
  | none => exact h
  | some value => exact refl value

theorem resolveOverride_related {r : α → α → Prop} (refl : ∀ a, r a a) {narrow wide : α}
    (h : r narrow wide) (setting : LoadOverride α) (cleared : α) :
    r (resolveOverride setting narrow cleared) (resolveOverride setting wide cleared) := by
  cases setting with
  | inherit => exact h
  | set value => exact refl value
  | clear => exact refl cleared

theorem resolveOptionalOverride_related {r : Option α → Option α → Prop} (refl : ∀ a, r a a)
    {narrow wide : Option α} (h : r narrow wide) (setting : LoadOverride α) :
    r (resolveOptionalOverride setting narrow) (resolveOptionalOverride setting wide) := by
  cases setting with
  | inherit => exact h
  | set value => exact refl (some value)
  | clear => exact refl none

end overrides

/-! ## Policies -/

theorem effectivePolicy_contextTokens_le {narrow wide : InferenceConfig}
    (h : InferenceNarrower narrow wide) (traits : ModelTraits) (options : ModelLoadOptions) :
    (effectivePolicy narrow traits options).contextTokens ≤
      (effectivePolicy wide traits options).contextTokens := by
  have hrequested := getD_related Nat.le_refl h.contextTokens options.contextTokens
  cases hlimit : traits.sizing.bind (·.maxContextTokens) with
  | none => simpa only [effectivePolicy, hlimit] using hrequested
  | some limit =>
    simp only [effectivePolicy, hlimit]
    exact Nat.le_min.2 ⟨(Nat.min_le_left _ _).trans hrequested, Nat.min_le_right _ _⟩

theorem draft_le {narrow wide : InferenceConfig} (h : InferenceNarrower narrow wide) :
    (if narrow.mtp then narrow.speculativeTokens else 0) ≤
      if wide.mtp then wide.speculativeTokens else 0 := by
  cases hmtp : narrow.mtp with
  | false => exact Nat.zero_le _
  | true =>
    rw [h.mtp hmtp]
    exact h.speculativeTokens

theorem effectivePolicy_narrower {narrow wide : InferenceConfig}
    (h : InferenceNarrower narrow wide) (traits : ModelTraits) (options : ModelLoadOptions) :
    PolicyNarrower (effectivePolicy narrow traits options)
      (effectivePolicy wide traits options) where
  queueCapacity := rfl
  maxTokens := by
    have hmax := getD_related Nat.le_refl h.maxTokens options.maxTokens
    have hcontext := effectivePolicy_contextTokens_le h traits options
    exact Nat.le_min.2 ⟨(Nat.min_le_left _ _).trans hmax, (Nat.min_le_right _ _).trans hcontext⟩
  contextTokens := effectivePolicy_contextTokens_le h traits options
  contextSelection := rfl
  temperature := resolveOverride_related F32.AtMost.refl h.temperature _ _
  topP := resolveOverride_related F32.AtMost.refl h.topP _ _
  topK := resolveOptionalOverride_related (r := fun a b => candidates a ≤ candidates b)
    (fun _ => le_refl _) h.topK _
  seed := resolveOptionalOverride_related (r := fun a b => a = b) (fun _ => rfl) h.seed _
  thinking := getD_related (r := fun a b => a = b ∨ a = ThinkingMode.off) (fun _ => .inl rfl)
    h.thinking _
  reasoningBudgetTokens := rfl
  promptCache := getD_related (r := fun a b => a = true → b = true) (fun _ => id) h.promptCache _
  promptCacheTokens := effectivePolicy_contextTokens_le h traits options
  speculativeTokens := getD_related Nat.le_refl (draft_le h) _

/-- The search has the context of a model whose manifest says how large it is. -/
def Searched (installed : InstalledModel) (options : ModelLoadOptions)
    (weightsBytes maximum : Nat) : Prop :=
  options.maximumContext = true ∧ ∃ sizing, installed.traits.sizing = some sizing ∧
    sizing.weightsBytes = some weightsBytes ∧ sizing.maxContextTokens = some maximum

theorem Searched.unique {installed : InstalledModel} {options : ModelLoadOptions}
    {weightsBytes weightsBytes' maximum maximum' : Nat}
    (h : Searched installed options weightsBytes maximum)
    (h' : Searched installed options weightsBytes' maximum') :
    weightsBytes = weightsBytes' ∧ maximum = maximum' := by
  obtain ⟨-, sizing, hsizing, hweights, hmaximum⟩ := h
  obtain ⟨-, sizing', hsizing', hweights', hmaximum'⟩ := h'
  obtain rfl := Option.some.inj (hsizing.symm.trans hsizing')
  exact ⟨Option.some.inj (hweights.symm.trans hweights'),
    Option.some.inj (hmaximum.symm.trans hmaximum')⟩

theorem resolveInstalledLoadPolicy_cases {manager : ModelManager} {installed : InstalledModel}
    {options : ModelLoadOptions} {policy : ModelLoadPolicy}
    (h : resolveInstalledLoadPolicy manager installed options = .ok policy) :
    (∃ weightsBytes maximum, Searched installed options weightsBytes maximum ∧
      resolveMaximumPolicy manager installed options weightsBytes maximum = .ok policy) ∨
    ((∀ weightsBytes maximum, ¬ Searched installed options weightsBytes maximum) ∧
      resolveLoadPolicy manager installed.traits options = .ok policy) := by
  unfold resolveInstalledLoadPolicy at h
  split at h
  · rename_i hmaximum
    obtain ⟨_, -, h⟩ := Checks.bind_eq_ok.1 h
    split at h
    · rename_i weightsBytes residency evaluated maximum hsizing
      exact .inl ⟨weightsBytes, maximum, ⟨hmaximum, _, hsizing, rfl, rfl⟩, h⟩
    · rename_i hnone
      refine .inr ⟨?_, h⟩
      rintro weightsBytes maximum ⟨-, ⟨weights, residency, evaluated, limit⟩, hsizing, hw, hm⟩
      subst hw hm
      exact hnone _ _ _ _ hsizing
  · rename_i hmaximum
    obtain ⟨resolved, hresolved, h⟩ := Checks.bind_eq_ok.1 h
    obtain ⟨_, -, h⟩ := Checks.bind_eq_ok.1 h
    obtain rfl := Checks.pure_eq_ok.1 h
    exact .inr ⟨fun _ _ hsearched => hmaximum hsearched.1, hresolved⟩

/-- The search does not look at the settings, so that it finds the same context. -/
theorem resolveMaximumPolicy_narrower {narrow wide : InferenceConfig}
    (h : InferenceNarrower narrow wide) {budgetBytes weightsBytes maximum : Nat}
    {installed : InstalledModel} {options : ModelLoadOptions} {policy policy' : ModelLoadPolicy}
    (hnarrow : resolveMaximumPolicy ⟨narrow, budgetBytes⟩ installed options weightsBytes maximum =
      .ok policy)
    (hwide : resolveMaximumPolicy ⟨wide, budgetBytes⟩ installed options weightsBytes maximum =
      .ok policy') :
    PolicyNarrower policy policy' := by
  obtain ⟨found, hfound, hnarrow⟩ := Checks.bind_eq_ok.1 hnarrow
  obtain ⟨context, hcontext, hnarrow⟩ := Checks.bind_eq_ok.1 hnarrow
  obtain ⟨resolved, hresolved, hnarrow⟩ := Checks.bind_eq_ok.1 hnarrow
  obtain ⟨found', hfound', hwide⟩ := Checks.bind_eq_ok.1 hwide
  obtain ⟨context', hcontext', hwide⟩ := Checks.bind_eq_ok.1 hwide
  obtain ⟨resolved', hresolved', hwide⟩ := Checks.bind_eq_ok.1 hwide
  obtain rfl := Except.ok.inj (hfound.symm.trans hfound')
  obtain rfl := Except.ok.inj (hcontext.symm.trans hcontext')
  obtain rfl := resolveLoadPolicy_eq_ok hresolved
  obtain rfl := resolveLoadPolicy_eq_ok hresolved'
  obtain rfl := Checks.pure_eq_ok.1 hnarrow
  obtain rfl := Checks.pure_eq_ok.1 hwide
  have heffective := effectivePolicy_narrower h installed.traits
    { options with maximumContext := false, contextTokens := some context }
  exact { heffective with
    contextSelection := rfl
    promptCacheTokens := Nat.le_min.2
      ⟨(Nat.min_le_left _ _).trans heffective.contextTokens, Nat.min_le_right _ _⟩ }

theorem resolveInstalledLoadPolicy_narrower {narrow wide : InferenceConfig}
    (h : InferenceNarrower narrow wide) {budgetBytes : Nat} {installed : InstalledModel}
    {options : ModelLoadOptions} {policy policy' : ModelLoadPolicy}
    (hnarrow : resolveInstalledLoadPolicy ⟨narrow, budgetBytes⟩ installed options = .ok policy)
    (hwide : resolveInstalledLoadPolicy ⟨wide, budgetBytes⟩ installed options = .ok policy') :
    PolicyNarrower policy policy' := by
  rcases resolveInstalledLoadPolicy_cases hnarrow with
    ⟨weightsBytes, maximum, hsearched, hnarrow⟩ | ⟨hnot, hnarrow⟩
  · rcases resolveInstalledLoadPolicy_cases hwide with
      ⟨weightsBytes', maximum', hsearched', hwide⟩ | ⟨hnot, -⟩
    · obtain ⟨rfl, rfl⟩ := hsearched.unique hsearched'
      exact resolveMaximumPolicy_narrower h hnarrow hwide
    · exact absurd hsearched (hnot _ _)
  · rcases resolveInstalledLoadPolicy_cases hwide with ⟨_, _, hsearched, -⟩ | ⟨-, hwide⟩
    · exact absurd hsearched (hnot _ _)
    · rw [resolveLoadPolicy_eq_ok hnarrow, resolveLoadPolicy_eq_ok hwide]
      exact effectivePolicy_narrower h installed.traits options

/-- Where a model can be loaded with the settings of a project and with those of the global file,
for the same options, the first load allows no more than the second. -/
theorem project_policy_narrows {files : Files} {globalPath : String} {projectRoot : Option String}
    {loadProject : Bool} {loaded : LoadedConfig} {global : Option ConfigPatch}
    (h : loadForEmelex files globalPath projectRoot loadProject = .ok loaded)
    (hglobal : files.read globalPath = .ok global) {budgetBytes : Nat}
    {installed : InstalledModel} {options : ModelLoadOptions} {policy policy' : ModelLoadPolicy}
    (hnarrow : resolveInstalledLoadPolicy ⟨loaded.config.inference, budgetBytes⟩ installed options =
      .ok policy)
    (hwide : resolveInstalledLoadPolicy ⟨(Config.resolved global none).inference, budgetBytes⟩
      installed options = .ok policy') :
    PolicyNarrower policy policy' :=
  resolveInstalledLoadPolicy_narrower (loaded_narrower h hglobal).inference hnarrow hwide

theorem project_policy_narrows_repository :
    ∃ loaded global policy policy',
      loadForEmelex repositoryFiles "/home/config.toml" (some "/repository") true = .ok loaded ∧
      repositoryFiles.read "/home/config.toml" = .ok global ∧
      resolveInstalledLoadPolicy ⟨loaded.config.inference, 4294967296⟩ smallInstalled
        ModelLoadOptions.default = .ok policy ∧
      resolveInstalledLoadPolicy ⟨(Config.resolved global none).inference, 4294967296⟩
        smallInstalled ModelLoadOptions.default = .ok policy' ∧
      PolicyNarrower policy policy' :=
  ⟨_, _, _, _, rfl, rfl, rfl, rfl,
    @project_policy_narrows repositoryFiles "/home/config.toml" (some "/repository") true _ _ rfl
      rfl 4294967296 smallInstalled ModelLoadOptions.default _ _ rfl rfl⟩

end Configuration

end Emelex
