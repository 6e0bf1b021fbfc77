import Mathlib.Data.List.Dedup
import Emelex.Models.Checkpoint

/-!
# Local imports (`models/mod.rs`)

* `localRuntimePlan` — which files of a source directory are imported.
* `snapshotRuntimeFiles`, `copyRuntimeFiles` — the manifest of a linked and of a copied import.

Principal definitions: `localRuntimePlan`, `snapshotRuntimeFiles`, `copyRuntimeFiles`.
-/

set_option autoImplicit false

namespace Emelex

open Checks Snapshot

namespace Import

/-- `ModelsError`, as far as these functions raise it. -/
inductive ModelsError where
  | inspection (error : LayoutError)
  | incompatible (reasons : List String)
  | unsafeInstall (path : PathName)
  | configuration (message : String)
  | io (path : PathName)
  | unsafePath (path : PathName)
  | invalidDigest (path : PathName) (digest : String)
deriving DecidableEq, Repr

def CONFIG : PathName := "config.json".toList
def TOKENIZER : PathName := "tokenizer.json".toList
def TEMPLATE_JSON : PathName := "chat_template.json".toList
def TEMPLATE : PathName := "chat_template.jinja".toList
def TOOL_TEMPLATE : PathName := "chat_template_tool_use.jinja".toList

/-- `CURRENT_CHAT_TEMPLATE_DIR` and `LEGACY_CHAT_TEMPLATE_DIR`. -/
def TEMPLATE_DIRS : List PathName :=
  ["additional_chat_templates".toList, "chat_templates".toList]

def DEFAULT_NAME : PathName := "default.jinja".toList
def TOOL_USE_NAME : PathName := "tool_use.jinja".toList

/-- `Path::join`. -/
def join (directory name : PathName) : PathName := directory ++ '/' :: name

/-! ## The plan -/

/-- The loop over the entries of the source: metadata and the index must be regular files. -/
def selectMetadata : List (PathName × Node) → Except ModelsError (List PathName)
  | [] => .ok []
  | (name, node) :: entries => do
    if runtimeMetadataFileName name ∨ name = INDEX_NAME then
      match node with
      | .leaf (.file _) => return name :: (← selectMetadata entries)
      | _ => .error (.unsafeInstall name)
    else selectMetadata entries

/-- `local_named_chat_template`. -/
def localNamedChatTemplate (entries : Table PathName Leaf) (directory name : PathName) :
    Except ModelsError (List PathName) :=
  match entries.get name with
  | none => .ok []
  | some (.file _) => .ok [join directory name]
  | some _ => .error (.unsafeInstall (join directory name))

/-- One directory of `local_named_chat_templates`. -/
def localNamedDirectory (d : Directory) (directory : PathName) :
    Except ModelsError (List PathName × List PathName) :=
  match d.get directory with
  | none => .ok ([], [])
  | some (.leaf _) => .error (.unsafeInstall directory)
  | some (.directory entries) => do
    let defaults ← localNamedChatTemplate entries directory DEFAULT_NAME
    let tools ← localNamedChatTemplate entries directory TOOL_USE_NAME
    return (defaults, tools)

/-- `local_named_chat_templates`. -/
def localNamedChatTemplates (d : Directory) : Except ModelsError (List PathName × List PathName) := do
  let found ← TEMPLATE_DIRS.mapM (localNamedDirectory d)
  return ((found.map Prod.fst).flatten, (found.map Prod.snd).flatten)

/-- The chat templates of the plan: `chat_template.json` takes the place of all others. -/
def resolveTemplates (selected defaults tools : List PathName) :
    Except ModelsError (List PathName) := do
  if TEMPLATE_JSON ∈ selected then
    ensure (defaults = [] ∧ tools = [])
      (.configuration "chat_template.json conflicts with named chat template files")
    return selected.filter fun name => name ≠ TEMPLATE ∧ name ≠ TOOL_TEMPLATE
  else
    ensure (TEMPLATE ∈ selected → defaults = [])
      (.configuration "root and named default chat templates map to the same runtime file")
    ensure (TOOL_TEMPLATE ∈ selected → tools = [])
      (.configuration "root and named tool-use chat templates map to the same runtime file")
    ensure (defaults.length ≤ 1)
      (.configuration "multiple named default chat templates are present")
    ensure (tools.length ≤ 1)
      (.configuration "multiple named tool-use chat templates are present")
    return selected ++ defaults ++ tools

/-- `local_runtime_plan`. -/
def localRuntimePlan (codec : Codec) (source : Directory) : Except ModelsError (List PathName) := do
  let checkpoint ← (checkpointPlan codec source).mapError .inspection
  ensure (checkpoint.files ≠ [])
    (.incompatible ["local checkpoint has no unambiguous runnable weights"])
  let metadata ← selectMetadata source.entries
  let (defaults, tools) ← localNamedChatTemplates source
  let selected ← resolveTemplates (checkpoint.files ++ metadata) defaults tools
  ensure (CONFIG ∈ selected ∧ TOKENIZER ∈ selected)
    (.incompatible ["local checkpoint lacks config.json or tokenizer.json"])
  return selected.dedup.insertionSort fun a b => a ≤ b

/-! ## Manifests -/

/-- `runtime_file_name`. -/
def runtimeFileName (name : PathName) : Bool :=
  safeRelativePath name && (components name).length = 1 && decide (Text.utf8Len name ≤ 255) &&
    (hasSafetensorsSuffix name || name = INDEX_NAME || runtimeMetadataFileName name)

/-- The names of chat templates in directories of their own. -/
def NAMED_TEMPLATES : List PathName :=
  ["additional_chat_templates/default.jinja", "additional_chat_templates/tool_use.jinja",
    "chat_templates/default.jinja", "chat_templates/tool_use.jinja"].map String.toList

/-- `runtime_source_file_name`. -/
def runtimeSourceFileName (name : PathName) : Bool :=
  runtimeFileName name || decide (name ∈ NAMED_TEMPLATES)

/-- The file under a path of at most two components. -/
def sourceLeaf (source : Directory) (path : PathName) : Option Leaf :=
  if '/' ∈ path then
    match source.get (path.takeWhile (· ≠ '/')) with
    | some (.directory entries) => entries.get ((path.dropWhile (· ≠ '/')).drop 1)
    | _ => none
  else
    match source.get path with
    | some (.leaf leaf) => some leaf
    | some (.directory _) => some .special
    | none => none

/-- `open_regular` and what is read; the file does not change while it is hashed. -/
def readPlanned (source : Directory) (path : PathName) : Except ModelsError Bytes :=
  match sourceLeaf source path with
  | some (.file bytes) => .ok bytes
  | some .special => .error (.unsafeInstall path)
  | some .symlink | none => .error (.io path)

/-- `ModelFile::new`. -/
def newModelFile (path : PathName) (size : Nat) (sha256 : String) : Except ModelsError ModelFile := do
  let sha256 := String.ofList (sha256.toList.map Char.toLower)
  ensure (safeRelativePath path = true) (.unsafePath path)
  ensure (sha256.toList.length = 64 ∧ sha256.toList.all isLowerHex = true)
    (.invalidDigest path sha256)
  return ⟨String.ofList path, size, sha256⟩

/-- A file of the plan: its name in the runtime directory, its bytes and its record. -/
structure Planned where
  path : PathName
  bytes : Bytes
  file : ModelFile
deriving DecidableEq

/-- The loop over the plan, with the destinations so far. -/
def recordEach (codec : Codec) (source : Directory) :
    List PathName → List PathName → Except ModelsError (List Planned)
  | _, [] => .ok []
  | destinations, name :: plan => do
    ensure (runtimeSourceFileName name = true) (.unsafeInstall name)
    let path := localRuntimePath name
    let quoted := (String.ofList name).quote
    ensure (path ∉ destinations)
      (.configuration s!"runtime paths collide after normalization: {quoted}")
    let bytes ← readPlanned source name
    let file ← newModelFile path bytes.length (codec.sha256 bytes).text
    let rest ← recordEach codec source (path :: destinations) plan
    return ⟨path, bytes, file⟩ :: rest

/-- The records in the order of their paths. -/
def manifestOf (planned : List Planned) : List ModelFile :=
  (planned.map (·.file)).insertionSort fun a b => a.path.toList ≤ b.path.toList

/-- `snapshot_runtime_files`. -/
def snapshotRuntimeFiles (codec : Codec) (source : Directory) (plan : List PathName) :
    Except ModelsError (List ModelFile) :=
  (recordEach codec source [] plan).map manifestOf

/-- The files that a copy creates in an empty directory. -/
def stagingOf (planned : List Planned) : Directory :=
  planned.foldl (fun d p => d.insert p.path (.leaf (.file p.bytes))) Table.empty

/-- `copy_runtime_files` into an empty directory. -/
def copyRuntimeFiles (codec : Codec) (source : Directory) (plan : List PathName) :
    Except ModelsError (List ModelFile × Directory) :=
  (recordEach codec source [] plan).map fun planned => (manifestOf planned, stagingOf planned)

/-- How a source is imported. -/
inductive ImportKind where
  | copy
  | symlink
deriving DecidableEq, Repr

/-- The manifest of an import and the directory that it is loaded from. -/
def importSource (codec : Codec) (kind : ImportKind) (source : Directory) (plan : List PathName) :
    Except ModelsError (List ModelFile × Directory) :=
  match kind with
  | .symlink => (snapshotRuntimeFiles codec source plan).map (·, source)
  | .copy => copyRuntimeFiles codec source plan

/-! ## What a plan selects -/

/-- The bytes under a path of at most two components. -/
def sourceContent (d : Directory) (path : PathName) : Option Bytes :=
  match sourceLeaf d path with
  | some (.file bytes) => some bytes
  | _ => none

/-- What the loop over the entries selects besides the weights. -/
def isMetadata (name : PathName) : Bool := runtimeMetadataFileName name || name = INDEX_NAME

/-- The names of metadata. -/
def METADATA : List PathName :=
  INDEX_NAME :: ["added_tokens.json", "chat_template.json", "chat_template.jinja",
    "chat_template_tool_use.jinja", "config.json", "generation_config.json", "merges.txt",
    "preprocessor_config.json", "processor_config.json", "special_tokens_map.json",
    "tokenizer.json", "tokenizer.model", "tokenizer_config.json", "video_preprocessor_config.json",
    "vocab.json", "vocab.txt"].map String.toList

theorem isMetadata_iff {name : PathName} : isMetadata name = true ↔ name ∈ METADATA := by
  rw [isMetadata, runtimeMetadataFileName, Bool.or_eq_true_iff, decide_eq_true_iff,
    decide_eq_true_iff, METADATA, List.mem_cons, or_comm]

theorem isMetadata_index : isMetadata INDEX_NAME = true := by
  rw [isMetadata_iff]
  exact List.mem_cons_self

theorem isMetadata_templates :
    isMetadata CONFIG = true ∧ isMetadata TEMPLATE_JSON = true ∧ isMetadata TEMPLATE = true ∧
      isMetadata TOOL_TEMPLATE = true := by
  decide +kernel

/-- Metadata is at the root, and neither weights nor a variant of the index. -/
theorem metadata_shape : ∀ name ∈ METADATA, hasSafetensorsSuffix name = false ∧ '/' ∉ name ∧
    isAlternateIndex name = false ∧ name ∉ NAMED_TEMPLATES := by
  decide +kernel

/-- The chat templates of a name in directories of their own. -/
def nestedPaths (d : Directory) (name : PathName) : List PathName :=
  (TEMPLATE_DIRS.map fun directory => join directory name).filter fun path =>
    (sourceContent d path).isSome

/-- `chat_template.json` takes the place of the other templates at the root. -/
def Superseded (d : Directory) (name : PathName) : Prop :=
  (d.content TEMPLATE_JSON).isSome = true ∧ (name = TEMPLATE ∨ name = TOOL_TEMPLATE)

/-- Where a file with metadata may be, there is a regular file or nothing. -/
structure Regular (d : Directory) : Prop where
  root : ∀ name node, d.get name = some node → isMetadata name = true →
    ∃ bytes, node = .leaf (.file bytes)
  nested : ∀ directory ∈ TEMPLATE_DIRS, d.get directory = none ∨
    ∃ entries, d.get directory = some (.directory entries) ∧
      ∀ name ∈ [DEFAULT_NAME, TOOL_USE_NAME], entries.get name = none ∨
        ∃ bytes, entries.get name = some (.file bytes)

/-- No two chat templates stand for the same one. -/
structure Consistent (d : Directory) : Prop where
  json : (d.content TEMPLATE_JSON).isSome = true →
    nestedPaths d DEFAULT_NAME = [] ∧ nestedPaths d TOOL_USE_NAME = []
  root : (d.content TEMPLATE).isSome = true → nestedPaths d DEFAULT_NAME = []
  rootTools : (d.content TOOL_TEMPLATE).isSome = true → nestedPaths d TOOL_USE_NAME = []
  one : (nestedPaths d DEFAULT_NAME).length ≤ 1
  oneTools : (nestedPaths d TOOL_USE_NAME).length ≤ 1

theorem sourceContent_root {d : Directory} {name : PathName} (h : '/' ∉ name) :
    sourceContent d name = d.content name := by
  simp only [sourceContent, sourceLeaf, if_neg h, Directory.content]
  cases d.get name with
  | none => rfl
  | some node =>
    cases node with
    | leaf leaf => cases leaf <;> rfl
    | directory entries => rfl

theorem sourceLeaf_join {d : Directory} {directory name : PathName} (h : '/' ∉ directory) :
    sourceLeaf d (join directory name) =
      match d.get directory with
      | some (.directory entries) => entries.get name
      | _ => none := by
  have hother : ∀ c ∈ directory, (decide (c ≠ '/')) = true := by
    intro c hc
    exact decide_eq_true fun heq => h (heq ▸ hc)
  have hhead : (join directory name).takeWhile (fun c => decide (c ≠ '/')) = directory := by
    rw [join, List.takeWhile_append_of_pos hother]
    simp
  have hrest : ((join directory name).dropWhile (fun c => decide (c ≠ '/'))).drop 1 = name := by
    rw [join, List.dropWhile_append_of_pos hother]
    simp
  rw [sourceLeaf, if_pos (by simp [join]), hhead, hrest]

theorem selectMetadata_eq_ok {entries : List (PathName × Node)} {names : List PathName}
    (h : selectMetadata entries = .ok names) :
    names = (entries.map Prod.fst).filter isMetadata ∧
      ∀ entry ∈ entries, isMetadata entry.1 = true → ∃ bytes, entry.2 = .leaf (.file bytes) := by
  induction entries generalizing names with
  | nil =>
    cases h
    exact ⟨rfl, by simp⟩
  | cons entry entries ih =>
    obtain ⟨name, node⟩ := entry
    unfold selectMetadata at h
    split at h
    · rename_i hmetadata
      have hname : isMetadata name = true := by simpa [isMetadata] using hmetadata
      split at h
      · rename_i bytes
        simp only [bind_eq_ok, pure_eq_ok] at h
        obtain ⟨rest, hrest, rfl⟩ := h
        obtain ⟨hnames, hregular⟩ := ih hrest
        refine ⟨by simp [hname, hnames], ?_⟩
        rintro entry (_ | ⟨_, hentry⟩)
        · exact fun _ => ⟨bytes, rfl⟩
        · exact hregular entry hentry
      · cases h
    · rename_i hmetadata
      have hname : isMetadata name = false := by simpa [isMetadata] using hmetadata
      obtain ⟨hnames, hregular⟩ := ih h
      refine ⟨by simp [hname, hnames], ?_⟩
      rintro entry (_ | ⟨_, hentry⟩)
      · exact fun h => absurd h (by simp [hname])
      · exact hregular entry hentry

theorem localNamedChatTemplate_eq_ok {entries : Table PathName Leaf} {directory name : PathName}
    {found : List PathName} (h : localNamedChatTemplate entries directory name = .ok found) :
    (entries.get name = none ∧ found = []) ∨
      ∃ bytes, entries.get name = some (.file bytes) ∧ found = [join directory name] := by
  unfold localNamedChatTemplate at h
  split at h
  · rename_i hnone
    cases h
    exact .inl ⟨hnone, rfl⟩
  · rename_i bytes hfile
    cases h
    exact .inr ⟨bytes, hfile, rfl⟩
  · cases h

/-- The templates of one directory that are found. -/
theorem localNamedDirectory_eq_ok {d : Directory} {directory : PathName}
    {found : List PathName × List PathName} (hslash : '/' ∉ directory)
    (h : localNamedDirectory d directory = .ok found) :
    (d.get directory = none ∨ ∃ entries, d.get directory = some (.directory entries) ∧
      ∀ name ∈ [DEFAULT_NAME, TOOL_USE_NAME], entries.get name = none ∨
        ∃ bytes, entries.get name = some (.file bytes)) ∧
      found.1 = [join directory DEFAULT_NAME].filter (fun path => (sourceContent d path).isSome) ∧
      found.2 = [join directory TOOL_USE_NAME].filter fun path =>
        (sourceContent d path).isSome := by
  unfold localNamedDirectory at h
  split at h
  · rename_i hnone
    cases h
    refine ⟨.inl hnone, ?_, ?_⟩ <;> simp [sourceContent, sourceLeaf_join hslash, hnone]
  · cases h
  · rename_i entries hentries
    simp only [bind_eq_ok, pure_eq_ok] at h
    obtain ⟨defaults, hdefaults, tools, htools, rfl⟩ := h
    have hcontent : ∀ name found, localNamedChatTemplate entries directory name = .ok found →
        found = [join directory name].filter fun path => (sourceContent d path).isSome := by
      intro name found hfound
      have hleaf : sourceLeaf d (join directory name) = entries.get name := by
        rw [sourceLeaf_join hslash, hentries]
      rcases localNamedChatTemplate_eq_ok hfound with ⟨hnone, rfl⟩ | ⟨bytes, hfile, rfl⟩
      · simp [sourceContent, hleaf, hnone]
      · simp [sourceContent, hleaf, hfile]
    refine ⟨.inr ⟨entries, hentries, ?_⟩, hcontent _ _ hdefaults, hcontent _ _ htools⟩
    intro name hname
    rcases List.mem_pair.1 hname with rfl | rfl
    · exact (localNamedChatTemplate_eq_ok hdefaults).imp And.left (Exists.imp fun _ => And.left)
    · exact (localNamedChatTemplate_eq_ok htools).imp And.left (Exists.imp fun _ => And.left)

theorem templateDirs_slash : ∀ directory ∈ TEMPLATE_DIRS, '/' ∉ directory := by decide +kernel

/-- All templates in directories of their own. -/
theorem localNamedChatTemplates_eq_ok {d : Directory} {defaults tools : List PathName}
    (h : localNamedChatTemplates d = .ok (defaults, tools)) :
    (∀ directory ∈ TEMPLATE_DIRS, d.get directory = none ∨
      ∃ entries, d.get directory = some (.directory entries) ∧
        ∀ name ∈ [DEFAULT_NAME, TOOL_USE_NAME], entries.get name = none ∨
          ∃ bytes, entries.get name = some (.file bytes)) ∧
      defaults = nestedPaths d DEFAULT_NAME ∧ tools = nestedPaths d TOOL_USE_NAME := by
  simp only [localNamedChatTemplates, bind_eq_ok, pure_eq_ok, mapM_eq_ok] at h
  obtain ⟨found, hfound, heq⟩ := h
  cases heq
  simp only [TEMPLATE_DIRS, List.forall₂_cons_left_iff, List.forall₂_nil_left_iff] at hfound
  obtain ⟨current, rest, hcurrent, ⟨legacy, _, hlegacy, rfl, rfl⟩, rfl⟩ := hfound
  have hslash := templateDirs_slash
  simp only [TEMPLATE_DIRS, List.forall_mem_cons] at hslash
  obtain ⟨hshape, hdefaults, htools⟩ := localNamedDirectory_eq_ok hslash.1 hcurrent
  obtain ⟨hshape', hdefaults', htools'⟩ := localNamedDirectory_eq_ok hslash.2.1 hlegacy
  refine ⟨?_, ?_, ?_⟩
  · intro directory hdirectory
    rcases List.mem_pair.1 hdirectory with rfl | rfl
    · exact hshape
    · exact hshape'
  · simp only [List.map_cons, List.map_nil, List.flatten_cons, List.flatten_nil, hdefaults,
      hdefaults', nestedPaths, TEMPLATE_DIRS, List.append_nil, ← List.filter_append]
    rfl
  · simp only [List.map_cons, List.map_nil, List.flatten_cons, List.flatten_nil, htools, htools',
      nestedPaths, TEMPLATE_DIRS, List.append_nil, ← List.filter_append]
    rfl

theorem Regular.isSome_content {d : Directory} (hd : Regular d) {name : PathName}
    (hname : isMetadata name = true) :
    (d.content name).isSome = true ↔ name ∈ d.entries.map Prod.fst := by
  constructor
  · intro h
    obtain ⟨bytes, hbytes⟩ := Option.isSome_iff_exists.1 h
    have hentry := Table.get_eq_some.1 (Directory.content_eq_some.1 hbytes)
    exact List.mem_map.2 ⟨_, hentry, rfl⟩
  · intro h
    obtain ⟨⟨_, node⟩, hentry, rfl⟩ := List.mem_map.1 h
    have hget := Table.get_eq_some.2 hentry
    obtain ⟨bytes, rfl⟩ := hd.root _ _ hget hname
    exact Option.isSome_iff_exists.2 ⟨bytes, Directory.content_eq_some.2 hget⟩

/-- A name that ends as a weight file is no metadata. -/
theorem suffix_not_metadata {name : PathName} (h : hasSafetensorsSuffix name = true) :
    isMetadata name = false := by
  by_contra hmetadata
  rw [(metadata_shape name (isMetadata_iff.1 (by simpa using hmetadata))).1] at h
  cases h

/-- What is selected once the chat templates are resolved, from consistent templates. -/
theorem resolveTemplates_eq_ok {d : Directory} {selected resolved : List PathName}
    (hjson : TEMPLATE_JSON ∈ selected ↔ (d.content TEMPLATE_JSON).isSome = true)
    (hroot : TEMPLATE ∈ selected ↔ (d.content TEMPLATE).isSome = true)
    (htool : TOOL_TEMPLATE ∈ selected ↔ (d.content TOOL_TEMPLATE).isSome = true)
    (h : resolveTemplates selected (nestedPaths d DEFAULT_NAME) (nestedPaths d TOOL_USE_NAME) =
      .ok resolved) :
    Consistent d ∧ ∀ name, name ∈ resolved ↔
      (name ∈ selected ∧ ¬ Superseded d name) ∨ name ∈ nestedPaths d DEFAULT_NAME ∨
        name ∈ nestedPaths d TOOL_USE_NAME := by
  unfold resolveTemplates at h
  split at h
  · rename_i hpresent
    simp only [bind_eq_ok, ensure_eq_ok, pure_eq_ok] at h
    obtain ⟨-, ⟨hdefaults, htools⟩, rfl⟩ := h
    refine ⟨⟨fun _ => ⟨hdefaults, htools⟩, fun _ => hdefaults, fun _ => htools, ?_, ?_⟩, ?_⟩
    · simp [hdefaults]
    · simp [htools]
    · intro name
      simp [hdefaults, htools, Superseded, hjson.1 hpresent]
  · rename_i habsent
    simp only [bind_eq_ok, ensure_eq_ok, pure_eq_ok] at h
    obtain ⟨-, hdefaults, -, htools, -, hone, -, honeTools, rfl⟩ := h
    have hnone : ¬ (d.content TEMPLATE_JSON).isSome = true := fun h => habsent (hjson.2 h)
    refine ⟨⟨fun h => absurd h hnone, fun h => hdefaults (hroot.2 h),
      fun h => htools (htool.2 h), hone, honeTools⟩, ?_⟩
    intro name
    simp [Superseded, hnone]

/-- What a plan says of its source. -/
structure PlanOf (codec : Codec) (source : Directory) (plan : List PathName)
    (checkpoint : CheckpointPlan) : Prop where
  weights : checkpointPlan codec source = .ok checkpoint
  regular : Regular source
  consistent : Consistent source
  config : CONFIG ∈ plan
  tokenizer : TOKENIZER ∈ plan
  nodup : plan.Nodup
  mem : ∀ name, name ∈ plan ↔ name ∈ checkpoint.files ∨
    (isMetadata name = true ∧ (source.content name).isSome = true ∧ ¬ Superseded source name) ∨
    name ∈ nestedPaths source DEFAULT_NAME ∨ name ∈ nestedPaths source TOOL_USE_NAME

theorem CheckpointPlan.mem_files {codec : Codec} {d : Directory} {plan : CheckpointPlan}
    (h : checkpointPlan codec d = .ok plan) {name : PathName} (hname : name ∈ plan.files) :
    hasSafetensorsSuffix name = true ∧ safeSingleComponent name = true ∧
      (d.content name).isSome = true := by
  obtain ⟨shard, hshard, rfl⟩ := List.mem_map.1 hname
  obtain ⟨entry, hentry, hsame, hsafe, bytes, hnode, -⟩ :=
    exists_of_mem_right (checkpointPlan_eq_ok h).2.1 hshard
  obtain ⟨hmem, hsuffix⟩ := List.mem_filter.1 hentry
  have hget := Directory.mem_sorted.1 hmem
  rw [hnode, ← hsame, ← Directory.content_eq_some] at hget
  exact ⟨hsame ▸ hsuffix, hsame ▸ hsafe, Option.isSome_iff_exists.2 ⟨bytes, hget⟩⟩

theorem localRuntimePlan_eq_ok {codec : Codec} {source : Directory} {plan : List PathName}
    (h : localRuntimePlan codec source = .ok plan) :
    ∃ checkpoint, PlanOf codec source plan checkpoint := by
  simp only [localRuntimePlan, bind_eq_ok, ensure_eq_ok, pure_eq_ok] at h
  obtain ⟨checkpoint, hcheckpoint, -, -, metadata, hmetadata, ⟨defaults, tools⟩, hnamed, resolved,
    hresolved, -, ⟨hconfig, htokenizer⟩, rfl⟩ := h
  have hweights : checkpointPlan codec source = .ok checkpoint := by
    cases hplan : checkpointPlan codec source with
    | error error => simp [hplan, Except.mapError] at hcheckpoint
    | ok plan => simpa [hplan, Except.mapError] using hcheckpoint
  obtain ⟨hnames, hfiles⟩ := selectMetadata_eq_ok hmetadata
  obtain ⟨hnested, hdefaults, htools⟩ := localNamedChatTemplates_eq_ok hnamed
  subst hdefaults htools
  have hregular : Regular source :=
    ⟨fun name node hget => hfiles (name, node) (Table.get_eq_some.1 hget), hnested⟩
  have hselected : ∀ name, isMetadata name = true →
      (name ∈ checkpoint.files ++ metadata ↔ (source.content name).isSome = true) := by
    intro name hname
    have hweight : name ∉ checkpoint.files := by
      intro hfile
      have := suffix_not_metadata (CheckpointPlan.mem_files hweights hfile).1
      simp [hname] at this
    rw [List.mem_append, hnames, List.mem_filter, hregular.isSome_content hname]
    simp [hweight, hname]
  obtain ⟨hconsistent, hmem⟩ := resolveTemplates_eq_ok (hselected _ isMetadata_templates.2.1)
    (hselected _ isMetadata_templates.2.2.1) (hselected _ isMetadata_templates.2.2.2) hresolved
  have hplan : ∀ name, name ∈ resolved.dedup.insertionSort (fun a b => a ≤ b) ↔
      name ∈ resolved := by
    intro name
    rw [List.mem_insertionSort, List.mem_dedup]
  refine ⟨checkpoint, hweights, hregular, hconsistent, (hplan _).2 hconfig, (hplan _).2 htokenizer,
    (List.perm_insertionSort _ _).nodup_iff.2 (List.nodup_dedup _), fun name => ?_⟩
  rw [hplan, hmem]
  by_cases hname : isMetadata name = true
  · have hweight : name ∉ checkpoint.files := by
      intro hfile
      have := suffix_not_metadata (CheckpointPlan.mem_files hweights hfile).1
      simp [hname] at this
    rw [hselected name hname]
    simp [hweight, hname]
  · have hroot : ¬ Superseded source name := by
      rintro ⟨-, rfl | rfl⟩
      · exact hname isMetadata_templates.2.2.1
      · exact hname isMetadata_templates.2.2.2
    simp [hnames, hname, hroot]

/-! ## What is recorded -/

/-- The lowercase of a digest is the digest. -/
theorem Digest.map_toLower (digest : Digest) :
    String.ofList (digest.text.toList.map Char.toLower) = digest.text := by
  have hlower : ∀ c : Char, isLowerHex c = true → c.toLower = c := by
    intro c hc
    have hrange : ¬ (c.val ≥ 'A'.val ∧ c.val ≤ 'Z'.val) := by
      rintro ⟨hlow, hhigh⟩
      simp only [isLowerHex, Char.isDigit, Bool.or_eq_true, Bool.and_eq_true, decide_eq_true_eq,
        Char.le_def, UInt32.le_iff_toNat_le] at hc hlow hhigh
      simp at hc hlow hhigh
      omega
    exact dif_neg hrange
  have hhex := digest.hex
  rw [List.all_eq_true] at hhex
  rw [List.map_congr_left fun c hc => hlower c (hhex c hc), List.map_id', String.ofList_toList]

/-- A record of a file of the source. -/
structure Recorded (codec : Codec) (source : Directory) (name : PathName) (p : Planned) : Prop where
  isSource : runtimeSourceFileName name = true
  path : p.path = localRuntimePath name
  bytes : sourceContent source name = some p.bytes
  file : p.file = ⟨String.ofList p.path, p.bytes.length, (codec.sha256 p.bytes).text⟩

theorem readPlanned_eq_ok {source : Directory} {path : PathName} {bytes : Bytes} :
    readPlanned source path = .ok bytes ↔ sourceContent source path = some bytes := by
  unfold readPlanned sourceContent
  cases sourceLeaf source path with
  | none => simp
  | some leaf => cases leaf <;> simp

theorem newModelFile_eq_ok {codec : Codec} {path : PathName} {bytes : Bytes} {file : ModelFile}
    (h : newModelFile path bytes.length (codec.sha256 bytes).text = .ok file) :
    file = ⟨String.ofList path, bytes.length, (codec.sha256 bytes).text⟩ := by
  simp only [newModelFile, bind_eq_ok, ensure_eq_ok, pure_eq_ok, Digest.map_toLower] at h
  obtain ⟨-, -, -, -, rfl⟩ := h
  rfl

theorem recordEach_eq_ok {codec : Codec} {source : Directory} {destinations plan : List PathName}
    {planned : List Planned} (h : recordEach codec source destinations plan = .ok planned) :
    List.Forall₂ (Recorded codec source) plan planned ∧ (planned.map (·.path)).Nodup ∧
      ∀ p ∈ planned, p.path ∉ destinations := by
  induction plan generalizing destinations planned with
  | nil =>
    cases h
    simp
  | cons name plan ih =>
    simp only [recordEach, bind_eq_ok, ensure_eq_ok, pure_eq_ok, readPlanned_eq_ok] at h
    obtain ⟨-, hname, -, hfresh, bytes, hbytes, file, hfile, rest, hrest, rfl⟩ := h
    obtain ⟨hall, hnodup, houtside⟩ := ih hrest
    refine ⟨.cons ⟨hname, rfl, hbytes, newModelFile_eq_ok hfile⟩ hall, ?_, ?_⟩
    · rw [List.map_cons, List.nodup_cons]
      refine ⟨fun hmem => ?_, hnodup⟩
      obtain ⟨p, hp, hpath⟩ := List.mem_map.1 hmem
      exact houtside p hp (hpath ▸ List.mem_cons_self)
    · intro p hp
      rcases List.mem_cons.1 hp with rfl | hp
      · exact hfresh
      · exact fun hmem => houtside p hp (List.mem_cons_of_mem _ hmem)

/-- A copy has the planned files and no others. -/
theorem get_stagingOf {planned : List Planned} (hnodup : (planned.map (·.path)).Nodup)
    (path : PathName) (node : Node) :
    (stagingOf planned).get path = some node ↔
      ∃ p ∈ planned, p.path = path ∧ node = .leaf (.file p.bytes) := by
  have hfold : ∀ d : Directory, (∀ p ∈ planned, d.get p.path = none) →
      ((planned.foldl (fun d p => d.insert p.path (.leaf (.file p.bytes))) d).get path = some node ↔
        d.get path = some node ∨ ∃ p ∈ planned, p.path = path ∧ node = .leaf (.file p.bytes)) := by
    induction planned with
    | nil => simp
    | cons p planned ih =>
      intro d hfree
      have hp := hfree p List.mem_cons_self
      rw [List.map_cons, List.nodup_cons] at hnodup
      rw [List.foldl_cons, ih hnodup.2]
      · rw [Table.get_insert _ _ _ _ hp, List.exists_mem_cons_iff]
        split
        · rename_i hpath
          rw [hpath, hp]
          simp [eq_comm]
        · rename_i hpath
          simp [eq_comm, hpath]
      · intro q hq
        have hother : q.path ≠ p.path := fun heq =>
          hnodup.1 (List.mem_map.2 ⟨q, hq, heq⟩)
        rw [Table.get_insert _ _ _ _ hp, if_neg hother]
        exact hfree q (List.mem_cons_of_mem _ hq)
  rw [stagingOf, hfold _ fun _ _ => Table.get_empty _]
  simp

theorem mem_manifestOf {planned : List Planned} {file : ModelFile} :
    file ∈ manifestOf planned ↔ ∃ p ∈ planned, p.file = file := by
  rw [manifestOf, List.mem_insertionSort, List.mem_map]

/-- A character is the separator or in one of the parts. -/
theorem mem_splitOn (separator : Char) {c : Char} {path : PathName} (h : c ∈ path) :
    c = separator ∨ ∃ part ∈ path.splitOn separator, c ∈ part := by
  induction path with
  | nil => cases h
  | cons x path ih =>
    rw [List.splitOn_cons_eq_if_modifyHead]
    split
    · rename_i hx
      rcases List.mem_cons.1 h with rfl | h
      · exact .inl (eq_of_beq hx)
      · exact (ih h).imp id fun ⟨part, hpart, hc⟩ => ⟨part, List.mem_cons_of_mem _ hpart, hc⟩
    · obtain ⟨part, parts, hparts⟩ := List.exists_cons_of_ne_nil
        (List.splitOn_ne_nil separator path)
      rw [hparts, List.modifyHead_cons]
      rcases List.mem_cons.1 h with rfl | h
      · exact .inr ⟨_, List.mem_cons_self, List.mem_cons_self⟩
      · refine (ih h).imp id fun ⟨part', hpart', hc⟩ => ?_
        rw [hparts] at hpart'
        rcases List.mem_cons.1 hpart' with rfl | hpart'
        · exact ⟨_, List.mem_cons_self, List.mem_cons_of_mem _ hc⟩
        · exact ⟨part', List.mem_cons_of_mem _ hpart', hc⟩

/-- A weight file is in the directory itself. -/
theorem shard_slash {name : PathName} (hsafe : safeSingleComponent name = true)
    (hsuffix : hasSafetensorsSuffix name = true) : '/' ∉ name := by
  intro hslash
  obtain ⟨first, rest, rfl, hfirst⟩ := List.eq_append_cons_of_mem hslash
  have hone : (components (first ++ '/' :: rest)).length = 1 := by
    simpa using (Bool.and_eq_true_iff.1 hsafe).2
  rw [components, List.splitOn_append_cons_self_of_not_mem hfirst] at hone
  -- The part before the first slash is a component, so no part after it is one.
  have hparts : (rest.splitOn '/').filterMap innerComponent = [] := by
    have hhead : ∀ parts : List Component,
        ((if first = [] then if first ++ '/' :: rest = [] then [] else [.rootDir]
          else if first = ".".toList then [.curDir]
          else (innerComponent first).toList) ++ parts).length = 1 → parts = [] := by
      intro parts
      unfold innerComponent
      split_ifs <;> simp_all
    exact hhead _ hone
  -- The last character is in such a part.
  have hlast : 's' ∈ '/' :: rest := by
    obtain ⟨before, hbefore⟩ := of_decide_eq_true hsuffix
    have hlast : (first ++ '/' :: rest).getLast? = some 's' := by
      rw [← hbefore, List.getLast?_append]
      rfl
    rw [List.getLast?_append, List.getLast?_cons, Option.some_or, ← List.getLast?_cons] at hlast
    exact List.mem_of_getLast? hlast
  rcases List.mem_cons.1 hlast with hs | hs
  · revert hs
    decide
  rcases mem_splitOn '/' hs with hs | ⟨part, hpart, hs⟩
  · revert hs
    decide
  have hskip := List.filterMap_eq_nil_iff.1 hparts part hpart
  unfold innerComponent at hskip
  split_ifs at hskip with hdot
  rcases hdot with rfl | rfl
  · cases hs
  · revert hs
    decide

end Import

end Emelex
