import Emelex.Models.Binding
import Emelex.Models.LoadPolicy

/-!
# Configuration files (`config/mod.rs`)

* `Config` — the settings of one invocation, and their defaults.
* `ConfigPatch` — what one file sets; `apply` copies the settings of the global file and lets those
  of a project only tighten what is there.
* `Config.validate` — the bounds that resolved settings have to meet.
* `loadForEmelex` — the defaults, the global file and then the file of the project.

What a file holds once it is parsed is a parameter, and so is whether a path is a file.  The wire
form of a patch is left out, as is the scope that is derived from a token.

Principal definitions: `ConfigPatch.apply`, `ConfigPatch.validateProject`, `Config.validate`,
`loadForEmelex`.
-/

set_option autoImplicit false

namespace Emelex

open Checks

namespace Load

/-- `f32::min`: a value that is not a number gives way to the other. -/
def F32.min : F32 → F32 → F32
  | .nan, b => b
  | a, .nan => a
  | .infinite true, _ => .infinite true
  | .infinite false, b => b
  | .finite _, .infinite true => .infinite true
  | .finite x, .infinite false => .finite x
  | .finite x, .finite y => if x ≤ y then .finite x else .finite y

/-- `f32::max`. -/
def F32.max : F32 → F32 → F32
  | .nan, b => b
  | a, .nan => a
  | .infinite true, b => b
  | .infinite false, _ => .infinite false
  | .finite x, .infinite true => .finite x
  | .finite _, .infinite false => .infinite false
  | .finite x, .finite y => if x ≤ y then .finite y else .finite x

end Load

namespace Configuration

open Load (F32 InferenceConfig ThinkingMode)
open Binding (ModelRef)

def MAX_AGENT_MODEL_ROUNDS : Nat := 20
def MAX_SHELL_TIMEOUT_SECONDS : Nat := 20 * 60
def MAX_SHELL_OUTPUT_BYTES : Nat := 512 * 1024
def MAX_WEB_RESPONSE_BYTES : Nat := 1024 * 1024

/-! ## Settings -/

structure TranslateConfig where
  source : Option String
  target : Option String
deriving DecidableEq

structure AgentConfig where
  systemPrompt : Option String
  maxTurns : Nat
  web : Bool
  files : Bool
  shell : Bool
  shellTimeoutSeconds : Nat
  shellOutputBytes : Nat
  webResponseBytes : Nat
deriving DecidableEq

structure HubConfig where
  results : Nat
  scanLimit : Nat
  metadataConcurrency : Nat
  requestTimeoutSeconds : Nat
  retries : Nat
deriving DecidableEq

structure MemoryConfig where
  retentionDays : Nat
  model : Option ModelRef
  recallEntries : Nat
  recallBytes : Nat
  confidenceThreshold : F32
deriving DecidableEq

structure Config where
  defaultModel : Option ModelRef
  inference : InferenceConfig
  agent : AgentConfig
  hub : HubConfig
  memory : MemoryConfig
  translate : TranslateConfig

/-- `InferenceConfig::default`. -/
def InferenceConfig.default : InferenceConfig where
  maxTokens := 4096
  contextTokens := 16384
  temperature := .finite 0
  topP := .finite 1
  topK := none
  seed := none
  thinking := .auto
  mtp := false
  speculativeTokens := 4
  promptCache := true

def AgentConfig.default : AgentConfig where
  systemPrompt := none
  maxTurns := 20
  web := true
  files := true
  shell := true
  shellTimeoutSeconds := 120
  shellOutputBytes := MAX_SHELL_OUTPUT_BYTES
  webResponseBytes := MAX_WEB_RESPONSE_BYTES

def HubConfig.default : HubConfig where
  results := 20
  scanLimit := 200
  metadataConcurrency := 8
  requestTimeoutSeconds := 30
  retries := 3

/-- `MemoryConfig::default`; the threshold is the float closest to `0.70`. -/
def MemoryConfig.default : MemoryConfig where
  retentionDays := 30
  model := none
  recallEntries := 8
  recallBytes := 6 * 1024
  confidenceThreshold := .finite (mkRat 11744051 16777216)

def Config.default : Config where
  defaultModel := none
  inference := InferenceConfig.default
  agent := AgentConfig.default
  hub := HubConfig.default
  memory := MemoryConfig.default
  translate := ⟨none, none⟩

/-! ## Bounds of resolved settings -/

inductive ConfigError where
  | read (path : String)
  | parse (path message : String)
  | invalid (message : String)
deriving DecidableEq, Repr

def HubConfig.validate (hub : HubConfig) : Except ConfigError Unit :=
  ensure
    (¬ (hub.results = 0 ∨ hub.results > 100 ∨ hub.scanLimit < hub.results ∨ hub.scanLimit > 1000 ∨
      hub.metadataConcurrency = 0 ∨ hub.metadataConcurrency > 32 ∨
      ¬ (1 ≤ hub.requestTimeoutSeconds ∧ hub.requestTimeoutSeconds ≤ 300) ∨ hub.retries > 10))
    (ConfigError.invalid ("Hub limits require results 1..=100, scan_limit between results " ++
      "and 1000, metadata_concurrency 1..=32, request timeout 1..=300 " ++
      "seconds, and retries at most 10"))

/-- `Config::validate`. -/
def Config.validate (config : Config) : Except ConfigError Unit := do
  ensure
    ((1 ≤ config.inference.maxTokens ∧ config.inference.maxTokens ≤ 2 ^ 20) ∧
      (1 ≤ config.inference.contextTokens ∧ config.inference.contextTokens ≤ 2 ^ 20) ∧
      config.inference.speculativeTokens ≤ 8)
    (ConfigError.invalid ("inference token limits must be in 1..=1048576 and " ++
      "speculative_tokens at most 8"))
  ensure (config.inference.maxTokens ≤ config.inference.contextTokens)
    (ConfigError.invalid "inference.max_tokens must not exceed inference.context_tokens")
  ensure
    (config.inference.temperature.isFinite = true ∧ config.inference.topP.isFinite = true ∧
      config.inference.temperature.within 0 2 = true ∧ config.inference.topP.within 0 1 = true)
    (ConfigError.invalid "temperature must be 0..=2 and top_p must be 0..=1")
  ensure
    ((1 ≤ config.agent.maxTurns ∧ config.agent.maxTurns ≤ MAX_AGENT_MODEL_ROUNDS) ∧
      (1 ≤ config.agent.shellTimeoutSeconds ∧
        config.agent.shellTimeoutSeconds ≤ MAX_SHELL_TIMEOUT_SECONDS) ∧
      (1 ≤ config.agent.shellOutputBytes ∧
        config.agent.shellOutputBytes ≤ MAX_SHELL_OUTPUT_BYTES) ∧
      (1 ≤ config.agent.webResponseBytes ∧
        config.agent.webResponseBytes ≤ MAX_WEB_RESPONSE_BYTES))
    (ConfigError.invalid ("agent bounds require max_turns 1..=20, shell timeout 1..=1200 " ++
      "seconds, shell output 1..=524288 bytes, and web response 1..=1048576 bytes"))
  config.hub.validate
  ensure
    ((1 ≤ config.memory.retentionDays ∧ config.memory.retentionDays ≤ 3650) ∧
      (1 ≤ config.memory.recallEntries ∧ config.memory.recallEntries ≤ 100) ∧
      (1 ≤ config.memory.recallBytes ∧ config.memory.recallBytes ≤ 1048576) ∧
      config.memory.confidenceThreshold.isFinite = true ∧
      config.memory.confidenceThreshold.within 0 1 = true)
    (ConfigError.invalid ("memory bounds require retention_days 1..=3650, recall_entries " ++
      "1..=100, recall_bytes 1..=1048576, and confidence_threshold 0..=1"))

theorem Config.default_valid : Config.default.validate = .ok () :=
  rfl

/-! ## Patches -/

inductive PatchAuthority where
  | global
  | project
deriving DecidableEq, Repr

/-- `PatchValue`: a setting to take over, or one to clear. -/
inductive PatchValue (α : Type) where
  | set (value : α)
  | clear
deriving DecidableEq, Repr

def PatchValue.intoOption {α : Type} : PatchValue α → Option α
  | .set value => some value
  | .clear => none

/-- A setting that a patch may set or clear. -/
def replaced {α : Type} (patch : Option (PatchValue α)) (current : Option α) : Option α :=
  patch.elim current PatchValue.intoOption

/-- A setting that a project tightens with its own, where it has one. -/
def tightened {α : Type} (meet : α → α → α) (patch : Option α) (current : α) : α :=
  patch.elim current (meet current)

structure TranslatePatch where
  source : Option (PatchValue String)
  target : Option (PatchValue String)

structure InferencePatch where
  maxTokens : Option Nat
  contextTokens : Option Nat
  temperature : Option F32
  topP : Option F32
  topK : Option (PatchValue Nat)
  seed : Option (PatchValue Nat)
  thinking : Option ThinkingMode
  mtp : Option Bool
  speculativeTokens : Option Nat
  promptCache : Option Bool

structure AgentPatch where
  systemPrompt : Option (PatchValue String)
  maxTurns : Option Nat
  web : Option Bool
  files : Option Bool
  shell : Option Bool
  shellTimeoutSeconds : Option Nat
  shellOutputBytes : Option Nat
  webResponseBytes : Option Nat

structure HubPatch where
  results : Option Nat
  scanLimit : Option Nat
  metadataConcurrency : Option Nat
  requestTimeoutSeconds : Option Nat
  retries : Option Nat
  token : Option (PatchValue String)

structure MemoryPatch where
  retentionDays : Option Nat
  model : Option (PatchValue ModelRef)
  recallEntries : Option Nat
  recallBytes : Option Nat
  confidenceThreshold : Option F32

structure ConfigPatch where
  defaultModel : Option (PatchValue ModelRef)
  inference : Option InferencePatch
  agent : Option AgentPatch
  hub : Option HubPatch
  memory : Option MemoryPatch
  translate : Option TranslatePatch

/-- `TranslatePatch::apply`: the language pair is the same for both kinds of file. -/
def TranslatePatch.apply (patch : TranslatePatch) (target : TranslateConfig) :
    TranslateConfig where
  source := replaced patch.source target.source
  target := replaced patch.target target.target

/-- The cutoff of a project: it can only be set, and never above the one that is there. -/
def tightenedTopK (patch : Option (PatchValue Nat)) (current : Option Nat) : Option Nat :=
  (patch.bind PatchValue.intoOption).elim current
    fun value => some (current.elim value (min · value))

/-- `InferencePatch::apply`. -/
def InferencePatch.apply (patch : InferencePatch) (target : InferenceConfig) :
    PatchAuthority → InferenceConfig
  | .project =>
    { target with
      maxTokens := tightened min patch.maxTokens target.maxTokens
      contextTokens := tightened min patch.contextTokens target.contextTokens
      temperature := tightened F32.min patch.temperature target.temperature
      topP := tightened F32.min patch.topP target.topP
      topK := tightenedTopK patch.topK target.topK
      thinking := if patch.thinking = some .off then .off else target.thinking
      mtp := tightened and patch.mtp target.mtp
      speculativeTokens := tightened min patch.speculativeTokens target.speculativeTokens
      promptCache := tightened and patch.promptCache target.promptCache }
  | .global =>
    { maxTokens := patch.maxTokens.getD target.maxTokens
      contextTokens := patch.contextTokens.getD target.contextTokens
      temperature := patch.temperature.getD target.temperature
      topP := patch.topP.getD target.topP
      topK := replaced patch.topK target.topK
      seed := replaced patch.seed target.seed
      thinking := patch.thinking.getD target.thinking
      mtp := patch.mtp.getD target.mtp
      speculativeTokens := patch.speculativeTokens.getD target.speculativeTokens
      promptCache := patch.promptCache.getD target.promptCache }

/-- `AgentPatch::apply`. -/
def AgentPatch.apply (patch : AgentPatch) (target : AgentConfig) : PatchAuthority → AgentConfig
  | .project =>
    { target with
      maxTurns := tightened min patch.maxTurns target.maxTurns
      web := tightened and patch.web target.web
      files := tightened and patch.files target.files
      shell := tightened and patch.shell target.shell
      shellTimeoutSeconds := tightened min patch.shellTimeoutSeconds target.shellTimeoutSeconds
      shellOutputBytes := tightened min patch.shellOutputBytes target.shellOutputBytes
      webResponseBytes := tightened min patch.webResponseBytes target.webResponseBytes }
  | .global =>
    { systemPrompt := replaced patch.systemPrompt target.systemPrompt
      maxTurns := patch.maxTurns.getD target.maxTurns
      web := patch.web.getD target.web
      files := patch.files.getD target.files
      shell := patch.shell.getD target.shell
      shellTimeoutSeconds := patch.shellTimeoutSeconds.getD target.shellTimeoutSeconds
      shellOutputBytes := patch.shellOutputBytes.getD target.shellOutputBytes
      webResponseBytes := patch.webResponseBytes.getD target.webResponseBytes }

/-- `HubPatch::apply`; the token is no setting. -/
def HubPatch.apply (patch : HubPatch) (target : HubConfig) : PatchAuthority → HubConfig
  | .project =>
    { results := tightened min patch.results target.results
      scanLimit := tightened min patch.scanLimit target.scanLimit
      metadataConcurrency := tightened min patch.metadataConcurrency target.metadataConcurrency
      requestTimeoutSeconds :=
        tightened min patch.requestTimeoutSeconds target.requestTimeoutSeconds
      retries := tightened min patch.retries target.retries }
  | .global =>
    { results := patch.results.getD target.results
      scanLimit := patch.scanLimit.getD target.scanLimit
      metadataConcurrency := patch.metadataConcurrency.getD target.metadataConcurrency
      requestTimeoutSeconds := patch.requestTimeoutSeconds.getD target.requestTimeoutSeconds
      retries := patch.retries.getD target.retries }

/-- `MemoryPatch::apply`; the threshold of a project can only rise. -/
def MemoryPatch.apply (patch : MemoryPatch) (target : MemoryConfig) :
    PatchAuthority → MemoryConfig
  | .project =>
    { target with
      recallEntries := tightened min patch.recallEntries target.recallEntries
      recallBytes := tightened min patch.recallBytes target.recallBytes
      confidenceThreshold :=
        tightened F32.max patch.confidenceThreshold target.confidenceThreshold }
  | .global =>
    { retentionDays := patch.retentionDays.getD target.retentionDays
      model := replaced patch.model target.model
      recallEntries := patch.recallEntries.getD target.recallEntries
      recallBytes := patch.recallBytes.getD target.recallBytes
      confidenceThreshold := patch.confidenceThreshold.getD target.confidenceThreshold }

/-- `ConfigPatch::apply`. -/
def ConfigPatch.apply (patch : ConfigPatch) (config : Config) (authority : PatchAuthority) :
    Config where
  defaultModel :=
    if authority = .global then replaced patch.defaultModel config.defaultModel
    else config.defaultModel
  inference := patch.inference.elim config.inference (·.apply config.inference authority)
  agent := patch.agent.elim config.agent (·.apply config.agent authority)
  hub := patch.hub.elim config.hub (·.apply config.hub authority)
  memory := patch.memory.elim config.memory (·.apply config.memory authority)
  translate := patch.translate.elim config.translate (·.apply config.translate)

/-! ## Authority -/

/-- A field that a project may not set. -/
def named (isSet : Bool) (field : String) : List String :=
  if isSet then [field] else []

/-- The fields of the file of a project that are not its own to set, as the error names them. -/
def ConfigPatch.forbidden (patch : ConfigPatch) : List String :=
  named patch.defaultModel.isSome "default_model" ++
  patch.inference.elim [] (fun inference =>
    named inference.seed.isSome "inference.seed" ++
    named (inference.topK = some .clear) "inference.top_k clear" ++
    named (inference.topK = some (.set 0)) "inference.top_k = 0" ++
    named (inference.thinking.any (· != .off)) "inference.thinking on/auto") ++
  named (patch.agent.any (·.systemPrompt.isSome)) "agent.system_prompt" ++
  named (patch.hub.any (·.token.isSome)) "hub.token" ++
  patch.memory.elim [] (fun memory =>
    named memory.model.isSome "memory.model" ++
    named memory.retentionDays.isSome "memory.retention_days")

/-- `validate_project`. -/
def ConfigPatch.validateProject (patch : ConfigPatch) (path : String) :
    Except ConfigError Unit :=
  ensure (patch.forbidden = [])
    (ConfigError.parse path ("project configuration cannot set authority-bearing field(s): " ++
      String.intercalate ", " patch.forbidden))

def HUB_TOKEN_REQUIREMENT : String :=
  "Hugging Face token must contain 1..=4096 visible ASCII bytes"

/-- `HubCredentials`: the value of the authorization header. -/
structure HubCredentials where
  authorization : String
deriving DecidableEq

/-- `HubCredentials::bearer_token`; the header takes every visible ASCII byte. -/
def HubCredentials.bearerToken (token : String) : Except String HubCredentials := do
  ensure
    (token ≠ "" ∧ token.utf8ByteSize ≤ 4096 ∧
      token.toList.all (fun c => 33 ≤ c.toNat ∧ c.toNat ≤ 126) = true)
    HUB_TOKEN_REQUIREMENT
  pure ⟨"Bearer " ++ token⟩

/-- `global_hub_credentials`. -/
def ConfigPatch.globalHubCredentials (patch : ConfigPatch) (path : String) :
    Except ConfigError (Option HubCredentials) :=
  ((patch.hub.bind HubPatch.token).bind PatchValue.intoOption).elim (.ok none) fun token =>
    ((HubCredentials.bearerToken token).map some).mapError
      fun _ => ConfigError.parse path HUB_TOKEN_REQUIREMENT

/-! ## Loading -/

structure ConfigSources where
  global : Option String
  project : Option String
deriving DecidableEq

structure LoadedConfig where
  config : Config
  sources : ConfigSources
  hubCredentials : Option HubCredentials

/-- What the file system holds of configuration files. -/
structure Files where
  /-- `read_optional_patch`. -/
  read : String → Except ConfigError (Option ConfigPatch)
  isFile : String → Bool

/-- The settings of the global file and of the project, over the defaults. -/
def Config.resolved (global project : Option ConfigPatch) : Config :=
  let config := global.elim Config.default (·.apply Config.default .global)
  project.elim config (·.apply config .project)

/-- The file of the project, once it is checked. -/
def Files.projectPatch (files : Files) (path : String) :
    Except ConfigError (Option ConfigPatch) := do
  let patch ← files.read path
  patch.elim (pure ()) (·.validateProject path)
  pure patch

/-- `Config::load_for_emelex`; the project is the directory above the invocation that has one. -/
def loadForEmelex (files : Files) (globalPath : String) (projectRoot : Option String)
    (loadProject : Bool) : Except ConfigError LoadedConfig := do
  let global ← files.read globalPath
  let hubCredentials ← global.elim (pure none) (·.globalHubCredentials globalPath)
  let projectPath :=
    if loadProject then projectRoot.map (· ++ "/.emelex.toml") else none
  let project ← projectPath.elim (pure none) files.projectPatch
  let config := Config.resolved global project
  config.validate
  pure
    { config
      sources :=
        { global := if files.isFile globalPath then some globalPath else none
          project := projectPath.filter files.isFile }
      hubCredentials }

end Configuration

end Emelex
