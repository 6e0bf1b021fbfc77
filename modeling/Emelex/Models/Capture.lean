import Emelex.Models.LocalImport

/-!
# Capturing a checkpoint (`model/layout.rs`)

The loader reads the directory of a model once, and compares what it has read with the manifest.

* `captureRuntimeMetadata` — the tokenizer, the templates and the configurations that are loaded.
* `validateExpectedSnapshot` — the manifest lists all of it, with the same contents.
* `openVerified` — `CheckpointSnapshot::open_verified_in`.

A weight file is cloned and hashed; the clone has the bytes of the file.

Principal definitions: `captureRuntimeMetadata`, `validateExpectedSnapshot`, `openVerified`.
-/

set_option autoImplicit false

namespace Emelex

open Checks Snapshot

namespace Import

def MAX_MODEL_CONFIG_BYTES : Nat := 16777216
def MAX_TOKENIZER_BYTES : Nat := 268435456
def MAX_TOKENIZER_CONFIG_BYTES : Nat := 16777216
def MAX_CHAT_TEMPLATE_BYTES : Nat := 1048576

def TOKENIZER_CONFIG : PathName := "tokenizer_config.json".toList
def PROCESSOR_CONFIG : PathName := "processor_config.json".toList
def GENERATION_CONFIG : PathName := "generation_config.json".toList

/-- The names that `capture_runtime_metadata` reads. -/
def CAPTURED : List PathName :=
  [TOKENIZER, TOKENIZER_CONFIG, PROCESSOR_CONFIG, TEMPLATE_JSON, TEMPLATE, TOOL_TEMPLATE,
    GENERATION_CONFIG]

/-- `captured_runtime_metadata_limit`. -/
def capturedRuntimeMetadataLimit (name : PathName) : Option Nat :=
  if name = TOKENIZER then some MAX_TOKENIZER_BYTES
  else if name = TOKENIZER_CONFIG ∨ name = PROCESSOR_CONFIG then some MAX_TOKENIZER_CONFIG_BYTES
  else if name = TEMPLATE ∨ name = TOOL_TEMPLATE then some MAX_CHAT_TEMPLATE_BYTES
  else if name = TEMPLATE_JSON then some MAX_TOKENIZER_CONFIG_BYTES
  else if name = GENERATION_CONFIG then some MAX_MODEL_CONFIG_BYTES
  else none

/-- Read what was opened, if it could be. -/
def captureLeaf (path : PathName) (message : String) (limit : Nat) :
    Leaf → Except LayoutError Bytes
  | .symlink => .error ⟨path, message⟩
  | .special => .error ⟨path, s!"file exceeds {limit} bytes"⟩
  | .file bytes => do
    ensure (bytes.length ≤ limit) ⟨path, s!"file exceeds {limit} bytes"⟩
    return bytes

/-- One name of the loop of `capture_runtime_metadata`. -/
def captureFile (d : Directory) (name : PathName) :
    Except LayoutError (Option (PathName × Bytes)) :=
  let limit := (capturedRuntimeMetadataLimit name).getD 0
  match d.get name with
  | none => .ok none
  | some (.directory _) => .error ⟨name, s!"file exceeds {limit} bytes"⟩
  | some (.leaf leaf) =>
    (captureLeaf name "cannot capture runtime metadata: symbolic link" limit leaf).map
      fun bytes => some (name, bytes)

/-- `capture_nested_runtime_metadata`. -/
def captureNestedRuntimeMetadata (d : Directory) (name directory : PathName) :
    Except LayoutError (Option Bytes) :=
  match d.get directory with
  | none => .ok none
  | some (.leaf .symlink) =>
    .error ⟨directory, "cannot capture named chat templates: symbolic link"⟩
  | some (.leaf _) => .error ⟨directory, "named chat template path is not a directory"⟩
  | some (.directory entries) =>
    match entries.get name with
    | none => .ok none
    | some leaf =>
      (captureLeaf (join directory name) "cannot capture named chat template: symbolic link"
        MAX_CHAT_TEMPLATE_BYTES leaf).map some

/-- `capture_normalized_template`. -/
def captureNormalizedTemplate (captured : List (PathName × Bytes)) (target : PathName)
    (named : List Bytes) (label : String) : Except LayoutError (List (PathName × Bytes)) := do
  ensure ((List.lookup target captured).isSome = true → named = [])
    ⟨[], s!"root and named {label} chat templates map to the same runtime file"⟩
  match named with
  | [] => return captured
  | [bytes] => return captured ++ [(target, bytes)]
  | _ => .error ⟨[], s!"multiple named {label} chat templates are present"⟩

/-- `capture_runtime_metadata`. -/
def captureRuntimeMetadata (d : Directory) : Except LayoutError (List (PathName × Bytes)) := do
  let captured := (← CAPTURED.mapM (captureFile d)).filterMap id
  let defaults := (← TEMPLATE_DIRS.mapM (captureNestedRuntimeMetadata d DEFAULT_NAME)).filterMap id
  let tools := (← TEMPLATE_DIRS.mapM (captureNestedRuntimeMetadata d TOOL_USE_NAME)).filterMap id
  ensure ((List.lookup TEMPLATE_JSON captured).isSome = true → defaults = [] ∧ tools = [])
    ⟨[], "chat_template.json conflicts with named chat template files"⟩
  let captured ← captureNormalizedTemplate captured TEMPLATE defaults "default"
  captureNormalizedTemplate captured TOOL_TEMPLATE tools "tool-use"

/-- A weight file that was cloned. -/
structure OpenedShard where
  name : PathName
  content : FileContent
deriving DecidableEq

/-- The files of the plan are opened again, compared with the plan, and cloned. -/
def openShard (codec : Codec) (d : Directory) (planned : PathName × PlannedShard) :
    Except LayoutError OpenedShard := do
  let name := planned.1
  let node ← openAt d name
  let bytes ← openRegular name "checkpoint shard is not a regular file" node
  let actual ← inspectSafetensorsLayout codec name bytes
  ensure (actual = planned.2) ⟨name, "checkpoint shard changed after immutable plan was created"⟩
  return ⟨name, contentOf codec bytes⟩

/-- `validate_expected_content`. -/
def validateExpectedContent (actual : FileContent) (expected : ModelFile) :
    Except LayoutError Unit :=
  ensure (actual.bytes = expected.size ∧ actual.sha256 = expected.sha256)
    ⟨expected.path.toList, "captured file differs from installed manifest"⟩

/-- The runtime-influential files. -/
def requiredFiles (plan : CheckpointPlan) (metadata : List (PathName × Bytes)) : List PathName :=
  CONFIG :: metadata.map Prod.fst ++ plan.files ++
    if plan.indexContent.isSome then [INDEX_NAME] else []

/-- What was read under a name of the manifest. -/
def actualContent (codec : Codec) (d : Directory) (plan : CheckpointPlan) (config : Bytes)
    (metadata : List (PathName × Bytes)) (shards : List OpenedShard) (path : PathName) :
    Except LayoutError FileContent :=
  if path = CONFIG then .ok (contentOf codec config)
  else
    match List.lookup path metadata with
    | some bytes => .ok (contentOf codec bytes)
    | none =>
      if (capturedRuntimeMetadataLimit path).isSome then
        .error ⟨path, "installed manifest runtime metadata was absent from the captured snapshot"⟩
      else if path = INDEX_NAME then
        required ⟨path, "installed manifest records an absent checkpoint index"⟩ plan.indexContent
      else if hasSafetensorsSuffix path then
        required ⟨path, "installed manifest shard is absent from the captured checkpoint"⟩
          ((shards.find? fun shard => shard.name = path).map (·.content))
      else do
        let node ← openAt d path
        let bytes ← openRegular path "installed runtime file is not regular" node
        return contentOf codec bytes

/-- `validate_expected_snapshot`. -/
def validateExpectedSnapshot (codec : Codec) (d : Directory) (plan : CheckpointPlan)
    (config : Bytes) (metadata : List (PathName × Bytes)) (shards : List OpenedShard)
    (expected : List ModelFile) : Except LayoutError Unit := do
  ensure (∀ file ∈ expected, safeSingleComponent file.path.toList = true)
    ⟨[], "installed manifest file must be a root-level runtime file"⟩
  ensure (expected.map (·.path)).Nodup
    ⟨[], "installed manifest contains a duplicate runtime file"⟩
  ensure (∀ name ∈ requiredFiles plan metadata, name ∈ expected.map fun file => file.path.toList)
    ⟨[], "runtime-influential file is absent from the installed manifest"⟩
  let _ ← expected.mapM fun file => do
    let actual ← actualContent codec d plan config metadata shards file.path.toList
    validateExpectedContent actual file

/-- `CheckpointSnapshot`. -/
structure CheckpointSnapshot where
  configBytes : Bytes
  runtimeMetadata : List (PathName × Bytes)
  shards : List OpenedShard
deriving DecidableEq

/-- `CheckpointSnapshot::open_verified_in`. -/
def openVerified (codec : Codec) (d : Directory) (expected : List ModelFile) :
    Except LayoutError CheckpointSnapshot := do
  let plan ← checkpointPlan codec d
  let node ← openAt d CONFIG
  let configBytes ← readBounded CONFIG MAX_MODEL_CONFIG_BYTES node
  let runtimeMetadata ← captureRuntimeMetadata d
  let shards ← plan.snapshots.mapM (openShard codec d)
  validateExpectedSnapshot codec d plan configBytes runtimeMetadata shards expected
  return { configBytes, runtimeMetadata, shards }

/-! ## What is captured -/

/-- The files that are captured from a directory, under the names that they are loaded as. -/
def capturedFiles (d : Directory) : List (PathName × Bytes) :=
  (CAPTURED.filterMap fun name => (d.content name).map (name, ·)) ++
    ((nestedPaths d DEFAULT_NAME).filterMap (sourceContent d)).map (TEMPLATE, ·) ++
    ((nestedPaths d TOOL_USE_NAME).filterMap (sourceContent d)).map (TOOL_TEMPLATE, ·)

theorem captured_metadata : ∀ name ∈ CAPTURED, isMetadata name = true := by decide +kernel

theorem config_not_captured : CONFIG ∉ CAPTURED := by decide +kernel

theorem template_captured : TEMPLATE ∈ CAPTURED ∧ TOOL_TEMPLATE ∈ CAPTURED := by
  simp [CAPTURED]

theorem captured_limit {name : PathName} :
    (capturedRuntimeMetadataLimit name).isSome = true ↔ name ∈ CAPTURED := by
  constructor
  · intro h
    by_contra hnot
    simp only [CAPTURED, List.mem_cons, not_or] at hnot
    simp [capturedRuntimeMetadataLimit, hnot] at h
  · revert name
    decide +kernel

theorem captureLeaf_eq_ok {path : PathName} {message : String} {limit : Nat} {leaf : Leaf}
    {bytes : Bytes} : captureLeaf path message limit leaf = .ok bytes ↔
      leaf = .file bytes ∧ bytes.length ≤ limit := by
  cases leaf with
  | symlink => simp [captureLeaf]
  | special => simp [captureLeaf]
  | file read =>
    simp only [captureLeaf, bind_eq_ok, ensure_eq_ok, pure_eq_ok, Leaf.file.injEq]
    constructor
    · rintro ⟨-, hlimit, rfl⟩
      exact ⟨rfl, hlimit⟩
    · rintro ⟨rfl, hlimit⟩
      exact ⟨(), hlimit, rfl⟩

theorem map_eq_ok {ε α β : Type} {x : Except ε α} {f : α → β} {b : β} :
    x.map f = .ok b ↔ ∃ a, x = .ok a ∧ f a = b := by
  cases x <;> simp [Except.map]

theorem captureFile_eq_ok {d : Directory} (hd : Regular d) {name : PathName}
    (hname : isMetadata name = true) (found : Option (PathName × Bytes)) :
    captureFile d name = .ok found ↔
      (∀ bytes, d.content name = some bytes →
        bytes.length ≤ (capturedRuntimeMetadataLimit name).getD 0) ∧
      found = (d.content name).map (name, ·) := by
  cases hget : d.get name with
  | none =>
    have hcontent : d.content name = none := by rw [Directory.content, hget]
    simp [captureFile, hget, hcontent, eq_comm]
  | some node =>
    obtain ⟨read, rfl⟩ := hd.root name node hget hname
    have hcontent : d.content name = some read := Directory.content_eq_some.2 hget
    simp only [captureFile, hget, hcontent, map_eq_ok, captureLeaf_eq_ok, Leaf.file.injEq,
      Option.some.injEq, Option.map_some]
    constructor
    · rintro ⟨bytes, ⟨rfl, hlimit⟩, rfl⟩
      exact ⟨fun bytes h => h ▸ hlimit, rfl⟩
    · rintro ⟨hlimit, rfl⟩
      exact ⟨read, ⟨rfl, hlimit read rfl⟩, rfl⟩

theorem captureNested_eq_ok {d : Directory} (hd : Regular d) (name : PathName)
    (hname : name ∈ [DEFAULT_NAME, TOOL_USE_NAME]) {directory : PathName}
    (hdirectory : directory ∈ TEMPLATE_DIRS) (found : Option Bytes) :
    captureNestedRuntimeMetadata d name directory = .ok found ↔
      (∀ bytes, sourceContent d (join directory name) = some bytes →
        bytes.length ≤ MAX_CHAT_TEMPLATE_BYTES) ∧
      found = sourceContent d (join directory name) := by
  have hslash := templateDirs_slash _ hdirectory
  rcases hd.nested directory hdirectory with hnone | ⟨entries, hentries, hfiles⟩
  · have hcontent : sourceContent d (join directory name) = none := by
      rw [sourceContent, sourceLeaf_join hslash, hnone]
    simp [captureNestedRuntimeMetadata, hnone, hcontent, eq_comm]
  · have hleaf : sourceLeaf d (join directory name) = entries.get name := by
      rw [sourceLeaf_join hslash, hentries]
    rcases hfiles name hname with hnone | ⟨read, hread⟩
    · have hcontent : sourceContent d (join directory name) = none := by
        rw [sourceContent, hleaf, hnone]
      simp [captureNestedRuntimeMetadata, hentries, hnone, hcontent, eq_comm]
    · have hcontent : sourceContent d (join directory name) = some read := by
        rw [sourceContent, hleaf, hread]
      simp only [captureNestedRuntimeMetadata, hentries, hread, hcontent, map_eq_ok,
        captureLeaf_eq_ok, Leaf.file.injEq, Option.some.injEq]
      constructor
      · rintro ⟨bytes, ⟨rfl, hlimit⟩, rfl⟩
        exact ⟨fun bytes h => h ▸ hlimit, rfl⟩
      · rintro ⟨hlimit, rfl⟩
        exact ⟨read, ⟨rfl, hlimit read rfl⟩, rfl⟩

theorem captureNormalizedTemplate_eq_ok {captured result : List (PathName × Bytes)}
    {target : PathName} {named : List Bytes} {label : String} :
    captureNormalizedTemplate captured target named label = .ok result ↔
      ((List.lookup target captured).isSome = true → named = []) ∧ named.length ≤ 1 ∧
        result = captured ++ named.map (target, ·) := by
  simp only [captureNormalizedTemplate, bind_eq_ok, ensure_eq_ok]
  rcases named with _ | ⟨bytes, _ | ⟨second, rest⟩⟩
  · constructor
    · rintro ⟨-, hroot, h⟩
      cases h
      simp
    · rintro ⟨hroot, -, rfl⟩
      exact ⟨(), hroot, by simp [pure, Except.pure]⟩
  · constructor
    · rintro ⟨-, hroot, h⟩
      cases h
      exact ⟨hroot, by simp, rfl⟩
    · rintro ⟨hroot, -, rfl⟩
      exact ⟨(), hroot, rfl⟩
  · simp

/-- What is found under the names of a list. -/
theorem lookup_filterMap {content : PathName → Option Bytes} {names : List PathName}
    {name : PathName} (hname : name ∈ names) :
    List.lookup name (names.filterMap fun name => (content name).map (name, ·)) = content name := by
  induction names with
  | nil => cases hname
  | cons first names ih =>
    by_cases hrest : name ∈ names
    · have hfound := ih hrest
      cases hcontent : content first with
      | none => simpa [List.filterMap_cons, hcontent] using hfound
      | some bytes =>
        rw [List.filterMap_cons_some (by rw [hcontent]; rfl), List.lookup_cons]
        by_cases hfirst : name = first
        · simp [hfirst, hcontent]
        · rw [beq_false_of_ne hfirst]
          exact hfound
    · obtain rfl : name = first := (List.mem_cons.1 hname).resolve_right hrest
      cases hcontent : content name with
      | none =>
        rw [List.filterMap_cons_none (by simp [hcontent]), List.lookup_eq_none_iff]
        rintro ⟨other, bytes⟩ hother
        obtain ⟨other', hmem, heq⟩ := List.mem_filterMap.1 hother
        obtain ⟨_, -, hpair⟩ := Option.map_eq_some_iff.1 heq
        cases hpair
        have hother : name ≠ other := fun h => hrest (h ▸ hmem)
        simpa using hother
      | some bytes => simp [hcontent]

/-- Templates of a name in the two directories, in their order. -/
theorem nested_filterMap {d : Directory} {name : PathName} :
    (TEMPLATE_DIRS.map fun directory => sourceContent d (join directory name)).filterMap id =
      (nestedPaths d name).filterMap (sourceContent d) := by
  rw [nestedPaths, List.filterMap_filter, List.filterMap_map, List.filterMap_map]
  refine List.filterMap_congr fun directory _ => ?_
  simp only [Function.comp, id]
  cases sourceContent d (join directory name) <;> rfl

/-- A nested template is read under its limit. -/
theorem nested_limit {d : Directory} {name : PathName} {limit : Nat} :
    (∀ directory ∈ TEMPLATE_DIRS, ∀ bytes,
      sourceContent d (join directory name) = some bytes → bytes.length ≤ limit) ↔
      ∀ bytes ∈ (nestedPaths d name).filterMap (sourceContent d), bytes.length ≤ limit := by
  simp only [← nested_filterMap, List.mem_filterMap, List.mem_map, id, exists_eq_right]
  exact ⟨fun h bytes ⟨directory, hdirectory, hbytes⟩ => h directory hdirectory bytes hbytes,
    fun h directory hdirectory bytes hbytes => h bytes ⟨directory, hdirectory, hbytes⟩⟩

/-- The limits of all the files that are captured. -/
theorem capturedFiles_limit {d : Directory} :
    (∀ file ∈ capturedFiles d,
      file.2.length ≤ (capturedRuntimeMetadataLimit file.1).getD 0) ↔
    (∀ name ∈ CAPTURED, ∀ bytes, d.content name = some bytes →
      bytes.length ≤ (capturedRuntimeMetadataLimit name).getD 0) ∧
    (∀ bytes ∈ (nestedPaths d DEFAULT_NAME).filterMap (sourceContent d),
      bytes.length ≤ MAX_CHAT_TEMPLATE_BYTES) ∧
    ∀ bytes ∈ (nestedPaths d TOOL_USE_NAME).filterMap (sourceContent d),
      bytes.length ≤ MAX_CHAT_TEMPLATE_BYTES := by
  have htemplate : (capturedRuntimeMetadataLimit TEMPLATE).getD 0 = MAX_CHAT_TEMPLATE_BYTES := by
    decide +kernel
  have htool : (capturedRuntimeMetadataLimit TOOL_TEMPLATE).getD 0 = MAX_CHAT_TEMPLATE_BYTES := by
    decide +kernel
  simp only [capturedFiles, List.forall_mem_append, List.forall_mem_map, htemplate, htool,
    and_assoc]
  refine and_congr_left fun _ => ?_
  simp only [List.mem_filterMap, Option.map_eq_some_iff]
  constructor
  · intro h name hname bytes hbytes
    exact h (name, bytes) ⟨name, hname, bytes, hbytes, rfl⟩
  · rintro h _ ⟨name, hname, bytes, hbytes, rfl⟩
    exact h name hname bytes hbytes

/-- The capture of a directory without conflicts fails only for a file that is too large. -/
theorem captureRuntimeMetadata_eq_ok {d : Directory} (hd : Regular d) (hone : Consistent d)
    {captured : List (PathName × Bytes)} :
    captureRuntimeMetadata d = .ok captured ↔
      (∀ file ∈ capturedFiles d,
        file.2.length ≤ (capturedRuntimeMetadataLimit file.1).getD 0) ∧
      captured = capturedFiles d := by
  have hroot := mapM_eq_ok_map fun name hname found =>
    captureFile_eq_ok hd (captured_metadata name hname) found
  have hdefaults := mapM_eq_ok_map fun directory hdirectory found =>
    captureNested_eq_ok hd DEFAULT_NAME (by simp) hdirectory found
  have htools := mapM_eq_ok_map fun directory hdirectory found =>
    captureNested_eq_ok hd TOOL_USE_NAME (by simp) hdirectory found
  have hfound : (CAPTURED.map fun name => (d.content name).map (name, ·)).filterMap id =
      CAPTURED.filterMap fun name => (d.content name).map (name, ·) := by
    rw [List.filterMap_map, Function.id_comp]
  have hlookup : ∀ name ∈ CAPTURED, List.lookup name
      (CAPTURED.filterMap fun name => (d.content name).map (name, ·)) = d.content name :=
    fun name hname => lookup_filterMap hname
  simp only [captureRuntimeMetadata, bind_eq_ok, ensure_eq_ok, hroot, hdefaults, htools,
    captureNormalizedTemplate_eq_ok, nested_limit, capturedFiles_limit]
  constructor
  · rintro ⟨_, ⟨hlimit, rfl⟩, _, ⟨hlimit', rfl⟩, _, ⟨hlimit'', rfl⟩, -, -, _, ⟨-, -, rfl⟩, -, -, rfl⟩
    refine ⟨⟨hlimit, hlimit', hlimit''⟩, ?_⟩
    rw [hfound, nested_filterMap, nested_filterMap]
    rfl
  · rintro ⟨⟨hlimit, hlimit', hlimit''⟩, rfl⟩
    have hnil : ∀ {paths : List PathName}, paths = [] →
        paths.filterMap (sourceContent d) = [] := fun h => h ▸ rfl
    have hother : ∀ contents : List Bytes,
        List.lookup TOOL_TEMPLATE (contents.map (TEMPLATE, ·)) = none := by
      intro contents
      rw [List.lookup_eq_none_iff]
      rintro _ hfile
      obtain ⟨bytes, -, rfl⟩ := List.mem_map.1 hfile
      exact bne_iff_ne.2 (show TOOL_TEMPLATE ≠ TEMPLATE by decide)
    refine ⟨_, ⟨hlimit, rfl⟩, _, ⟨hlimit', rfl⟩, _, ⟨hlimit'', rfl⟩, (), ?_, _,
      ⟨?_, ?_, rfl⟩, ?_, ?_, ?_⟩
    · rw [hfound, hlookup _ (by decide), nested_filterMap, nested_filterMap]
      exact fun h => ⟨hnil (hone.json h).1, hnil (hone.json h).2⟩
    · rw [hfound, hlookup _ (by decide), nested_filterMap]
      exact fun h => hnil (hone.root h)
    · rw [nested_filterMap]
      exact (List.length_filterMap_le _ _).trans hone.one
    · rw [hfound, nested_filterMap, List.lookup_append, hlookup _ (by decide), hother,
        Option.or_none, nested_filterMap]
      exact fun h => hnil (hone.rootTools h)
    · rw [nested_filterMap]
      exact (List.length_filterMap_le _ _).trans hone.oneTools
    · rw [hfound, nested_filterMap, nested_filterMap]
      rfl

end Import

end Emelex
