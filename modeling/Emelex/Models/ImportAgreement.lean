import Emelex.Models.Capture

/-!
# Imports that load (`models/mod.rs`, `model/layout.rs`)

The importer selects files by its own list, and the loader by another.  What the loader reads is
what the importer planned, except that the importer leaves `chat_template.jinja` and
`chat_template_tool_use.jinja` out beside `chat_template.json`: a copy then lacks them, but the
loader still finds them in a directory that is linked, and refuses what the manifest does not list.

* `Serving` — a directory has the planned files under the names that they are loaded as.
* `openVerified_eq_ok` — such a directory loads unless a file is too large.
* `serving_link`, `serving_copy` — the source and a copy of it are such directories.

Principal results: `openVerified_eq_ok`, `imports_load`.
-/

set_option autoImplicit false

namespace Emelex

open Checks Snapshot

namespace Import

/-! ## Names -/

theorem localRuntimePath_of_not_named {name : PathName} (h : name ∉ NAMED_TEMPLATES) :
    localRuntimePath name = name := by
  simp only [NAMED_TEMPLATES, List.map_cons, List.map_nil, List.mem_cons, not_or] at h
  obtain ⟨hcurrent, hcurrentTool, hlegacy, hlegacyTool, -⟩ := h
  rw [localRuntimePath, if_neg (not_or.2 ⟨hcurrent, hlegacy⟩),
    if_neg (not_or.2 ⟨hcurrentTool, hlegacyTool⟩)]

theorem not_named_of_metadata {name : PathName} (h : isMetadata name = true) :
    name ∉ NAMED_TEMPLATES :=
  (metadata_shape name (isMetadata_iff.1 h)).2.2.2

theorem metadata_slash {name : PathName} (h : isMetadata name = true) : '/' ∉ name :=
  (metadata_shape name (isMetadata_iff.1 h)).2.1

/-- The templates in directories of their own: they are loaded as the ones at the root. -/
theorem named_shape : ∀ name ∈ NAMED_TEMPLATES, hasSafetensorsSuffix name = false ∧
    name ≠ TEMPLATE ∧ name ≠ TOOL_TEMPLATE ∧ safeSingleComponent (localRuntimePath name) = true := by
  decide +kernel

theorem default_shape : ∀ path ∈ TEMPLATE_DIRS.map fun directory => join directory DEFAULT_NAME,
    path ∈ NAMED_TEMPLATES ∧ localRuntimePath path = TEMPLATE := by
  decide +kernel

theorem tool_shape : ∀ path ∈ TEMPLATE_DIRS.map fun directory => join directory TOOL_USE_NAME,
    path ∈ NAMED_TEMPLATES ∧ localRuntimePath path = TOOL_TEMPLATE := by
  decide +kernel

theorem nested_default {d : Directory} {path : PathName} (h : path ∈ nestedPaths d DEFAULT_NAME) :
    path ∈ NAMED_TEMPLATES ∧ localRuntimePath path = TEMPLATE :=
  default_shape path (List.mem_filter.1 h).1

theorem nested_tool {d : Directory} {path : PathName} (h : path ∈ nestedPaths d TOOL_USE_NAME) :
    path ∈ NAMED_TEMPLATES ∧ localRuntimePath path = TOOL_TEMPLATE :=
  tool_shape path (List.mem_filter.1 h).1

theorem not_named_of_suffix {name : PathName} (h : hasSafetensorsSuffix name = true) :
    name ∉ NAMED_TEMPLATES := by
  intro hname
  rw [(named_shape name hname).1] at h
  cases h

/-- A name that ends as a weight file, or the index, is no chat template. -/
theorem not_template {name : PathName}
    (h : hasSafetensorsSuffix name = true ∨ name = INDEX_NAME) :
    name ≠ TEMPLATE ∧ name ≠ TOOL_TEMPLATE := by
  have hnone : ∀ name ∈ [TEMPLATE, TOOL_TEMPLATE],
      ¬ (hasSafetensorsSuffix name = true ∨ name = INDEX_NAME) := by decide +kernel
  exact ⟨fun heq => hnone TEMPLATE (by simp) (heq ▸ h),
    fun heq => hnone TOOL_TEMPLATE (by simp) (heq ▸ h)⟩

/-- What the loader reads under its own names. -/
theorem mem_capturedFiles {d : Directory} {path : PathName} {bytes : Bytes} :
    (path, bytes) ∈ capturedFiles d ↔
      (path ∈ CAPTURED ∧ d.content path = some bytes) ∨
      (path = TEMPLATE ∧ ∃ name ∈ nestedPaths d DEFAULT_NAME, sourceContent d name = some bytes) ∨
      path = TOOL_TEMPLATE ∧
        ∃ name ∈ nestedPaths d TOOL_USE_NAME, sourceContent d name = some bytes := by
  simp only [capturedFiles, List.mem_append, List.mem_filterMap, List.mem_map,
    Option.map_eq_some_iff, Prod.mk.injEq, or_assoc]
  refine or_congr ?_ (or_congr ?_ ?_)
  · constructor
    · rintro ⟨name, hname, read, hread, rfl, rfl⟩
      exact ⟨hname, hread⟩
    · rintro ⟨hname, hread⟩
      exact ⟨path, hname, bytes, hread, rfl, rfl⟩
  · constructor
    · rintro ⟨read, ⟨name, hname, hread⟩, rfl, rfl⟩
      exact ⟨rfl, name, hname, hread⟩
    · rintro ⟨rfl, name, hname, hread⟩
      exact ⟨bytes, ⟨name, hname, hread⟩, rfl, rfl⟩
  · constructor
    · rintro ⟨read, ⟨name, hname, hread⟩, rfl, rfl⟩
      exact ⟨rfl, name, hname, hread⟩
    · rintro ⟨rfl, name, hname, hread⟩
      exact ⟨bytes, ⟨name, hname, hread⟩, rfl, rfl⟩

/-! ## The weights -/

/-- The weight files of a directory are those of its plan. -/
theorem CheckpointPlan.mem_files_iff {codec : Codec} {d : Directory} {plan : CheckpointPlan}
    (h : checkpointPlan codec d = .ok plan) {name : PathName} :
    name ∈ plan.files ↔ hasSafetensorsSuffix name = true ∧ ∃ node, d.get name = some node := by
  constructor
  · intro hname
    obtain ⟨hsuffix, -, hcontent⟩ := CheckpointPlan.mem_files h hname
    obtain ⟨bytes, hbytes⟩ := Option.isSome_iff_exists.1 hcontent
    exact ⟨hsuffix, _, Directory.content_eq_some.1 hbytes⟩
  · rintro ⟨hsuffix, node, hnode⟩
    have hmem : (name, node) ∈ d.sorted.filter fun entry => hasSafetensorsSuffix entry.1 :=
      List.mem_filter.2 ⟨Directory.mem_sorted.2 hnode, hsuffix⟩
    obtain ⟨shard, hshard, hsame, -⟩ := exists_of_mem_left (checkpointPlan_eq_ok h).2.1 hmem
    exact List.mem_map.2 ⟨shard, hshard, hsame⟩

/-- The files of a plan as they are opened again. -/
def openedShards (codec : Codec) (d : Directory) (plan : CheckpointPlan) : List OpenedShard :=
  plan.snapshots.map fun shard => ⟨shard.1, contentOf codec ((d.content shard.1).getD [])⟩

/-- The files of the plan of a directory are opened as they were planned. -/
theorem openShards_eq_ok {codec : Codec} {d : Directory} {plan : CheckpointPlan}
    (h : checkpointPlan codec d = .ok plan) {shards : List OpenedShard} :
    plan.snapshots.mapM (openShard codec d) = .ok shards ↔ shards = openedShards codec d plan := by
  have hopen : ∀ shard ∈ plan.snapshots, ∀ opened, openShard codec d shard = .ok opened ↔
      True ∧ opened = ⟨shard.1, contentOf codec ((d.content shard.1).getD [])⟩ := by
    intro shard hshard opened
    obtain ⟨entry, hentry, hsame, -, bytes, hnode, hinspect⟩ :=
      exists_of_mem_right (checkpointPlan_eq_ok h).2.1 hshard
    have hget := Directory.mem_sorted.1 (List.mem_filter.1 hentry).1
    rw [hnode, ← hsame] at hget
    have hcontent := Directory.content_eq_some.2 hget
    rw [← hsame] at hinspect
    simp only [openShard, bind_eq_ok, openAt_eq_ok, openRegular_eq_ok, ensure_eq_ok, pure_eq_ok,
      hcontent, Option.getD_some, true_and]
    constructor
    · rintro ⟨node, hnode', read, rfl, -, -, -, -, rfl⟩
      rw [hget] at hnode'
      cases hnode'
      rfl
    · rintro rfl
      exact ⟨_, hget, bytes, rfl, _, hinspect, (), rfl, rfl⟩
  rw [mapM_eq_ok_map hopen]
  simp [openedShards]

/-- The shard under the name of a file of the plan. -/
theorem find_openedShards {codec : Codec} {d : Directory} {plan : CheckpointPlan}
    {name : PathName} (h : name ∈ plan.files) :
    ((openedShards codec d plan).find? fun shard => shard.name = name).map (·.content) =
      some (contentOf codec ((d.content name).getD [])) := by
  obtain ⟨shard, hfind⟩ : ∃ shard,
      (openedShards codec d plan).find? (fun shard => shard.name = name) = some shard := by
    rw [← Option.isSome_iff_exists, List.find?_isSome]
    obtain ⟨planned, hplanned, rfl⟩ := List.mem_map.1 h
    exact ⟨_, List.mem_map.2 ⟨planned, hplanned, rfl⟩, by simp⟩
  have hname : shard.name = name := by simpa using List.find?_some hfind
  obtain ⟨planned, -, rfl⟩ := List.mem_map.1 (List.mem_of_find?_eq_some hfind)
  rw [hfind, Option.map_some, ← hname]

/-! ## Directories that are loaded -/

/-- The records of distinct files under safe names. -/
structure Recordings (codec : Codec) (planned : List Planned) : Prop where
  nodup : (planned.map (·.path)).Nodup
  safe : ∀ p ∈ planned, safeSingleComponent p.path = true
  file : ∀ p ∈ planned, p.file = ⟨String.ofList p.path, p.bytes.length, (codec.sha256 p.bytes).text⟩

/-- A directory has the planned files under the names that they are loaded as. -/
structure Serving (codec : Codec) (checkpoint : CheckpointPlan) (planned : List Planned)
    (d : Directory) : Prop extends Recordings codec planned where
  weights : checkpointPlan codec d = .ok checkpoint
  regular : Regular d
  consistent : Consistent d
  captured : ∀ path bytes, (path, bytes) ∈ capturedFiles d ↔
    path ∈ CAPTURED ∧ ∃ p ∈ planned, p.path = path ∧ p.bytes = bytes
  root : ∀ p ∈ planned, p.path ∉ CAPTURED → d.content p.path = some p.bytes
  config : ∃ p ∈ planned, p.path = CONFIG
  shards : ∀ name ∈ checkpoint.files, ∃ p ∈ planned, p.path = name
  index : checkpoint.indexContent.isSome = true → ∃ p ∈ planned, p.path = INDEX_NAME

section

variable {codec : Codec} {checkpoint : CheckpointPlan} {planned : List Planned} {d : Directory}

theorem Recordings.unique (h : Recordings codec planned) {p q : Planned} (hp : p ∈ planned)
    (hq : q ∈ planned) (hpath : p.path = q.path) : p = q :=
  List.inj_on_of_nodup_map h.nodup hp hq hpath

/-- A captured file is found under its name. -/
theorem Serving.lookup (h : Serving codec checkpoint planned d) {p : Planned} (hp : p ∈ planned) :
    List.lookup p.path (capturedFiles d) =
      if p.path ∈ CAPTURED then some p.bytes else none := by
  cases hfound : List.lookup p.path (capturedFiles d) with
  | none =>
    rw [List.lookup_eq_none_iff] at hfound
    split
    · rename_i hcaptured
      have hmem := (h.captured p.path p.bytes).2 ⟨hcaptured, p, hp, rfl, rfl⟩
      simpa using hfound _ hmem
    · rfl
  | some bytes =>
    obtain ⟨before, after, hsplit, -⟩ := List.lookup_eq_some_iff.1 hfound
    have hmem : (p.path, bytes) ∈ capturedFiles d := by simp [hsplit]
    obtain ⟨hcaptured, q, hq, hpath, rfl⟩ := (h.captured _ _).1 hmem
    rw [if_pos hcaptured, h.unique hq hp hpath]

/-- What the loader has read under a name of the manifest is what was recorded. -/
theorem Serving.actualContent_eq (h : Serving codec checkpoint planned d) {config : Bytes}
    (hconfig : d.content CONFIG = some config) {p : Planned} (hp : p ∈ planned) :
    actualContent codec d checkpoint config (capturedFiles d) (openedShards codec d checkpoint)
      p.path = .ok (contentOf codec p.bytes) := by
  unfold actualContent
  have hcaptured := config_not_captured
  split
  · rename_i hpath
    have hroot := h.root p hp (hpath ▸ hcaptured)
    rw [hpath, hconfig] at hroot
    cases hroot
    rfl
  · rw [h.lookup hp]
    by_cases hin : p.path ∈ CAPTURED
    · rw [if_pos hin]
    · have hroot := h.root p hp hin
      have hget := Directory.content_eq_some.1 hroot
      simp only [if_neg hin, if_neg (mt captured_limit.1 hin)]
      split
      · rename_i hindex
        rw [hindex] at hroot hget
        rcases (checkpointPlan_eq_ok h.weights).2.2 with ⟨hnone, -⟩ | ⟨bytes, hbytes, hcontent⟩
        · rw [hnone] at hget
          cases hget
        · rw [hroot] at hbytes
          cases hbytes
          rw [hcontent]
          rfl
      · split
        · rename_i hsuffix
          have hfile := (CheckpointPlan.mem_files_iff h.weights).2 ⟨hsuffix, _, hget⟩
          rw [find_openedShards hfile, hroot]
          rfl
        · simp only [bind_eq_ok, openAt_eq_ok, openRegular_eq_ok, pure_eq_ok]
          exact ⟨_, hget, p.bytes, rfl, rfl⟩

theorem mem_manifest_paths {planned : List Planned} (h : Recordings codec planned)
    {path : PathName} : path ∈ (manifestOf planned).map (fun file => file.path.toList) ↔
      ∃ p ∈ planned, p.path = path := by
  simp only [List.mem_map, mem_manifestOf]
  constructor
  · rintro ⟨_, ⟨p, hp, rfl⟩, rfl⟩
    exact ⟨p, hp, by rw [h.file p hp, String.toList_ofList]⟩
  · rintro ⟨p, hp, rfl⟩
    exact ⟨_, ⟨p, hp, rfl⟩, by rw [h.file p hp, String.toList_ofList]⟩

/-- The manifest of the planned files is accepted. -/
theorem Serving.validate (h : Serving codec checkpoint planned d) {config : Bytes}
    (hconfig : d.content CONFIG = some config) :
    validateExpectedSnapshot codec d checkpoint config (capturedFiles d)
      (openedShards codec d checkpoint) (manifestOf planned) = .ok () := by
  have hpath : ∀ p ∈ planned, p.file.path.toList = p.path := by
    intro p hp
    rw [h.file p hp, String.toList_ofList]
  simp only [validateExpectedSnapshot, bind_eq_ok, ensure_eq_ok, pure_eq_ok]
  refine ⟨(), ?safe, (), ?nodup, (), ?required, ?_⟩
  case safe =>
    intro file hfile
    obtain ⟨p, hp, rfl⟩ := mem_manifestOf.1 hfile
    rw [hpath p hp]
    exact h.safe p hp
  case nodup =>
    have hperm := (List.perm_insertionSort (fun a b => a.path.toList ≤ b.path.toList)
      (planned.map (·.file))).map fun file : ModelFile => file.path
    refine hperm.nodup_iff.2 (List.Nodup.of_map String.toList ?_)
    have hsame : ((planned.map (·.file)).map (·.path)).map String.toList =
        planned.map (·.path) := by
      rw [List.map_map, List.map_map]
      exact List.map_congr_left hpath
    rw [hsame]
    exact h.nodup
  case required =>
    intro name hname
    rw [mem_manifest_paths h.toRecordings]
    simp only [requiredFiles, List.mem_append, List.mem_cons] at hname
    rcases hname with ((rfl | hname) | hname) | hname
    · exact h.config
    · obtain ⟨⟨path, bytes⟩, hfile, rfl⟩ := List.mem_map.1 hname
      obtain ⟨-, p, hp, hpath, -⟩ := (h.captured _ _).1 hfile
      exact ⟨p, hp, hpath⟩
    · exact h.shards name hname
    · split at hname
      · rename_i hindex
        rw [List.mem_singleton.1 hname]
        exact h.index hindex
      · cases hname
  have hcheck : ∀ file ∈ manifestOf planned, ∀ u : Unit, (do
      let actual ← actualContent codec d checkpoint config (capturedFiles d)
        (openedShards codec d checkpoint) file.path.toList
      validateExpectedContent actual file) = .ok u ↔ True ∧ u = () := by
    intro file hfile u
    obtain ⟨p, hp, rfl⟩ := mem_manifestOf.1 hfile
    rw [hpath p hp, h.actualContent_eq hconfig hp, h.file p hp]
    simp [validateExpectedContent, contentOf, bind, Except.bind, ensure]
  exact ⟨_, (mapM_eq_ok_map hcheck _).2 ⟨fun _ _ => trivial, rfl⟩, trivial⟩

/-- The limit of a file that is loaded. -/
def loadedLimit (path : PathName) : Option Nat :=
  if path = CONFIG then some MAX_MODEL_CONFIG_BYTES else capturedRuntimeMetadataLimit path

/-- A directory that has the planned files loads unless one of them is too large. -/
theorem openVerified_eq_ok (h : Serving codec checkpoint planned d)
    {snapshot : CheckpointSnapshot} :
    openVerified codec d (manifestOf planned) = .ok snapshot ↔
      (∀ p ∈ planned, ∀ limit, loadedLimit p.path = some limit → p.bytes.length ≤ limit) ∧
        d.content CONFIG = some snapshot.configBytes ∧
        snapshot.runtimeMetadata = capturedFiles d ∧
        snapshot.shards = openedShards codec d checkpoint := by
  have hcaptured := config_not_captured
  have hlimits : ∀ config, d.content CONFIG = some config →
      ((∀ p ∈ planned, ∀ limit, loadedLimit p.path = some limit → p.bytes.length ≤ limit) ↔
        config.length ≤ MAX_MODEL_CONFIG_BYTES ∧ ∀ file ∈ capturedFiles d,
          file.2.length ≤ (capturedRuntimeMetadataLimit file.1).getD 0) := by
    intro config hconfig
    obtain ⟨c, hc, hcpath⟩ := h.config
    have hroot := h.root c hc (hcpath ▸ hcaptured)
    rw [hcpath, hconfig, Option.some.injEq] at hroot
    constructor
    · intro hall
      refine ⟨hroot ▸ hall c hc _ (by rw [hcpath]; rfl), ?_⟩
      rintro ⟨path, bytes⟩ hfile
      obtain ⟨hin, p, hp, rfl, rfl⟩ := (h.captured _ _).1 hfile
      obtain ⟨limit, hlimit⟩ := Option.isSome_iff_exists.1 (captured_limit.2 hin)
      have hother : p.path ≠ CONFIG := fun heq => hcaptured (heq ▸ hin)
      rw [hlimit]
      exact hall p hp limit (by rw [loadedLimit, if_neg hother, hlimit])
    · rintro ⟨hle, hfiles⟩ p hp limit hlimit
      unfold loadedLimit at hlimit
      split at hlimit
      · rename_i hpath
        rw [h.unique hp hc (hpath.trans hcpath.symm), ← hroot]
        cases hlimit
        exact hle
      · have hin : p.path ∈ CAPTURED := captured_limit.1 (by rw [hlimit]; rfl)
        have hfile := hfiles _ ((h.captured p.path p.bytes).2 ⟨hin, p, hp, rfl, rfl⟩)
        rwa [hlimit] at hfile
  simp only [openVerified, bind_eq_ok, openAt_eq_ok, readBounded_eq_ok, pure_eq_ok,
    captureRuntimeMetadata_eq_ok h.regular h.consistent]
  constructor
  · rintro ⟨plan, hplan, node, hnode, config, ⟨rfl, hle⟩, captured, ⟨hfiles, rfl⟩, shards, hshards,
      -, -, rfl⟩
    rw [h.weights] at hplan
    cases hplan
    have hconfig := Directory.content_eq_some.2 hnode
    exact ⟨(hlimits _ hconfig).2 ⟨hle, hfiles⟩, hconfig, rfl,
      (openShards_eq_ok h.weights).1 hshards⟩
  · obtain ⟨config, captured, shards⟩ := snapshot
    rintro ⟨hall, hconfig, rfl, rfl⟩
    obtain ⟨hle, hfiles⟩ := (hlimits _ hconfig).1 hall
    exact ⟨_, h.weights, _, Directory.content_eq_some.1 hconfig, _, ⟨rfl, hle⟩, _, ⟨hfiles, rfl⟩, _,
      (openShards_eq_ok h.weights).2 rfl, (), h.validate hconfig, rfl⟩

end

/-! ## What an import records -/

section

variable {codec : Codec} {source : Directory} {plan : List PathName} {checkpoint : CheckpointPlan}
variable {planned : List Planned}

/-- The records of a plan are of its files. -/
theorem recorded_iff (hall : List.Forall₂ (Recorded codec source) plan planned) {path : PathName}
    {bytes : Bytes} : (∃ p ∈ planned, p.path = path ∧ p.bytes = bytes) ↔
      ∃ name ∈ plan, localRuntimePath name = path ∧ sourceContent source name = some bytes := by
  constructor
  · rintro ⟨p, hp, rfl, rfl⟩
    obtain ⟨name, hname, hrecorded⟩ := exists_of_mem_right hall hp
    exact ⟨name, hname, hrecorded.path.symm, hrecorded.bytes⟩
  · rintro ⟨name, hname, rfl, hbytes⟩
    obtain ⟨p, hp, hrecorded⟩ := exists_of_mem_left hall hname
    have hsame := hrecorded.bytes
    rw [hbytes, Option.some.injEq] at hsame
    exact ⟨p, hp, hrecorded.path, hsame.symm⟩

theorem recordings (hall : List.Forall₂ (Recorded codec source) plan planned)
    (hnodup : (planned.map (·.path)).Nodup) : Recordings codec planned := by
  refine ⟨hnodup, fun p hp => ?_, fun p hp => ?_⟩
  · obtain ⟨name, -, hrecorded⟩ := exists_of_mem_right hall hp
    rw [hrecorded.path]
    by_cases hnamed : name ∈ NAMED_TEMPLATES
    · exact (named_shape name hnamed).2.2.2
    · have hsource : runtimeFileName name = true := by
        simpa [runtimeSourceFileName, hnamed] using hrecorded.isSource
      rw [localRuntimePath_of_not_named hnamed]
      simp only [runtimeFileName, Bool.and_eq_true] at hsource
      simpa [safeSingleComponent] using hsource.1.1
  · obtain ⟨name, -, hrecorded⟩ := exists_of_mem_right hall hp
    exact hrecorded.file

/-- The names of a plan besides the chat templates: weight files and metadata. -/
theorem PlanOf.cases (h : PlanOf codec source plan checkpoint) {name : PathName}
    (hname : name ∈ plan) :
    (name ∉ NAMED_TEMPLATES ∧ (hasSafetensorsSuffix name = true ∨
      (isMetadata name = true ∧ ¬ Superseded source name)) ∧
        sourceContent source name = source.content name) ∨
    (name ∈ nestedPaths source DEFAULT_NAME ∧ localRuntimePath name = TEMPLATE) ∨
    name ∈ nestedPaths source TOOL_USE_NAME ∧ localRuntimePath name = TOOL_TEMPLATE := by
  rcases (h.mem name).1 hname with hfile | ⟨hmetadata, -, hnot⟩ | hdefault | htool
  · obtain ⟨hsuffix, hsafe, -⟩ := CheckpointPlan.mem_files h.weights hfile
    exact .inl ⟨not_named_of_suffix hsuffix, .inl hsuffix,
      sourceContent_root (shard_slash hsafe hsuffix)⟩
  · exact .inl ⟨not_named_of_metadata hmetadata, .inr ⟨hmetadata, hnot⟩,
      sourceContent_root (metadata_slash hmetadata)⟩
  · exact .inr (.inl ⟨hdefault, (nested_default hdefault).2⟩)
  · exact .inr (.inr ⟨htool, (nested_tool htool).2⟩)

/-- Under a name that no template has, the records are the files of the source. -/
theorem recorded_root (h : PlanOf codec source plan checkpoint)
    (hall : List.Forall₂ (Recorded codec source) plan planned) {path : PathName}
    (hroot : hasSafetensorsSuffix path = true ∨ isMetadata path = true)
    (hdefault : path ≠ TEMPLATE) (htool : path ≠ TOOL_TEMPLATE) {node : Node} :
    (∃ p ∈ planned, p.path = path ∧ node = .leaf (.file p.bytes)) ↔
      source.get path = some node := by
  constructor
  · rintro ⟨p, hp, rfl, rfl⟩
    obtain ⟨name, hname, hpath, hbytes⟩ := (recorded_iff hall).1 ⟨p, hp, rfl, rfl⟩
    rcases h.cases hname with ⟨hnamed, -, hcontent⟩ | ⟨-, htemplate⟩ | ⟨-, htemplate⟩
    · rw [localRuntimePath_of_not_named hnamed] at hpath
      rw [hcontent, hpath] at hbytes
      exact Directory.content_eq_some.1 hbytes
    · exact absurd (hpath.symm.trans htemplate) hdefault
    · exact absurd (hpath.symm.trans htemplate) htool
  · intro hget
    obtain ⟨bytes, rfl⟩ : ∃ bytes, node = .leaf (.file bytes) := by
      rcases hroot with hsuffix | hmetadata
      · have hfile := (CheckpointPlan.mem_files_iff h.weights).2 ⟨hsuffix, node, hget⟩
        obtain ⟨-, -, hcontent⟩ := CheckpointPlan.mem_files h.weights hfile
        obtain ⟨bytes, hbytes⟩ := Option.isSome_iff_exists.1 hcontent
        rw [Directory.content_eq_some, hget, Option.some.injEq] at hbytes
        exact ⟨bytes, hbytes⟩
      · exact h.regular.root path node hget hmetadata
    have hcontent := Directory.content_eq_some.2 hget
    have hplan : path ∈ plan ∧ path ∉ NAMED_TEMPLATES ∧ '/' ∉ path := by
      rcases hroot with hsuffix | hmetadata
      · have hfile := (CheckpointPlan.mem_files_iff h.weights).2 ⟨hsuffix, _, hget⟩
        obtain ⟨-, hsafe, -⟩ := CheckpointPlan.mem_files h.weights hfile
        exact ⟨(h.mem path).2 (.inl hfile), not_named_of_suffix hsuffix,
          shard_slash hsafe hsuffix⟩
      · have hnot : ¬ Superseded source path := fun hsuperseded =>
          hsuperseded.2.elim hdefault htool
        exact ⟨(h.mem path).2 (.inr (.inl ⟨hmetadata, by rw [hcontent]; rfl, hnot⟩)),
          not_named_of_metadata hmetadata, metadata_slash hmetadata⟩
    obtain ⟨hmem, hnamed, hslash⟩ := hplan
    obtain ⟨p, hp, hpath, rfl⟩ := (recorded_iff hall).2
      ⟨path, hmem, localRuntimePath_of_not_named hnamed, (sourceContent_root hslash).trans hcontent⟩
    exact ⟨p, hp, hpath, rfl⟩

/-- A record is a weight file, or metadata. -/
theorem recorded_kind (h : PlanOf codec source plan checkpoint)
    (hall : List.Forall₂ (Recorded codec source) plan planned) {p : Planned} (hp : p ∈ planned) :
    hasSafetensorsSuffix p.path = true ∨ isMetadata p.path = true := by
  obtain ⟨name, hname, hrecorded⟩ := exists_of_mem_right hall hp
  rcases h.cases hname with ⟨hnamed, hkind, -⟩ | ⟨-, htemplate⟩ | ⟨-, htemplate⟩
  · rw [hrecorded.path, localRuntimePath_of_not_named hnamed]
    exact hkind.imp id And.left
  · rw [hrecorded.path, htemplate]
    exact .inr isMetadata_templates.2.2.1
  · rw [hrecorded.path, htemplate]
    exact .inr isMetadata_templates.2.2.2

/-- What the loader requires of every manifest is recorded. -/
theorem recorded_required (h : PlanOf codec source plan checkpoint)
    (hall : List.Forall₂ (Recorded codec source) plan planned) :
    (∃ p ∈ planned, p.path = CONFIG) ∧ (∀ name ∈ checkpoint.files, ∃ p ∈ planned, p.path = name) ∧
      (checkpoint.indexContent.isSome = true → ∃ p ∈ planned, p.path = INDEX_NAME) := by
  refine ⟨?_, fun name hfile => ?_, fun hindex => ?_⟩
  · obtain ⟨p, hp, hrecorded⟩ := exists_of_mem_left hall h.config
    exact ⟨p, hp, hrecorded.path⟩
  · obtain ⟨hsuffix, -⟩ := CheckpointPlan.mem_files h.weights hfile
    obtain ⟨p, hp, hrecorded⟩ := exists_of_mem_left hall ((h.mem name).2 (.inl hfile))
    exact ⟨p, hp, hrecorded.path.trans
      (localRuntimePath_of_not_named (not_named_of_suffix hsuffix))⟩
  · rcases (checkpointPlan_eq_ok h.weights).2.2 with ⟨-, hnone⟩ | ⟨bytes, hbytes, -⟩
    · rw [hnone] at hindex
      cases hindex
    · obtain ⟨hdefault, htool⟩ := not_template (.inr rfl)
      obtain ⟨p, hp, hpath, -⟩ := (recorded_root h hall (.inr isMetadata_index) hdefault htool).2
        (Directory.content_eq_some.1 hbytes)
      exact ⟨p, hp, hpath⟩

/-- A captured file is one of the plan, unless `chat_template.json` takes its place. -/
theorem mem_plan_of_captured (h : PlanOf codec source plan checkpoint) {path : PathName}
    {bytes : Bytes} (hcaptured : (path, bytes) ∈ capturedFiles source)
    (hnot : ¬ Superseded source path) :
    path ∈ CAPTURED ∧ ∃ name ∈ plan, localRuntimePath name = path ∧
      sourceContent source name = some bytes := by
  rcases mem_capturedFiles.1 hcaptured with
    ⟨hin, hbytes⟩ | ⟨rfl, name, hname, hbytes⟩ | ⟨rfl, name, hname, hbytes⟩
  · have hmetadata := captured_metadata path hin
    refine ⟨hin, path, (h.mem path).2 (.inr (.inl ⟨hmetadata, by rw [hbytes]; rfl, hnot⟩)),
      localRuntimePath_of_not_named (not_named_of_metadata hmetadata), ?_⟩
    rw [sourceContent_root (metadata_slash hmetadata), hbytes]
  · exact ⟨template_captured.1, name, (h.mem name).2 (.inr (.inr (.inl hname))),
      (nested_default hname).2, hbytes⟩
  · exact ⟨template_captured.2, name, (h.mem name).2 (.inr (.inr (.inr hname))),
      (nested_tool hname).2, hbytes⟩

/-- A linked source is loaded as it was planned, without templates that the plan left out. -/
theorem serving_link (h : PlanOf codec source plan checkpoint)
    (hall : List.Forall₂ (Recorded codec source) plan planned)
    (hnodup : (planned.map (·.path)).Nodup)
    (hnot : ∀ name, (source.content name).isSome = true → ¬ Superseded source name) :
    Serving codec checkpoint planned source := by
  obtain ⟨hconfig, hshards, hindex⟩ := recorded_required h hall
  refine
    { recordings hall hnodup with
      weights := h.weights
      regular := h.regular
      consistent := h.consistent
      captured := fun path bytes => ?_
      root := fun p hp hroot => ?_
      config := hconfig
      shards := hshards
      index := hindex }
  · rw [recorded_iff hall]
    constructor
    · intro hfile
      refine mem_plan_of_captured h hfile fun hsuperseded => ?_
      rcases mem_capturedFiles.1 hfile with ⟨-, hbytes⟩ | ⟨-, name, hname, -⟩ | ⟨-, name, hname, -⟩
      · exact hnot path (by rw [hbytes]; rfl) hsuperseded
      · rw [(h.consistent.json hsuperseded.1).1] at hname
        cases hname
      · rw [(h.consistent.json hsuperseded.1).2] at hname
        cases hname
    · rintro ⟨hin, name, hname, rfl, hbytes⟩
      rcases h.cases hname with ⟨hnamed, -, hcontent⟩ | ⟨hnested, htemplate⟩ | ⟨hnested, htemplate⟩
      · rw [localRuntimePath_of_not_named hnamed] at hin ⊢
        exact mem_capturedFiles.2 (.inl ⟨hin, hcontent ▸ hbytes⟩)
      · exact mem_capturedFiles.2 (.inr (.inl ⟨htemplate, name, hnested, hbytes⟩))
      · exact mem_capturedFiles.2 (.inr (.inr ⟨htemplate, name, hnested, hbytes⟩))
  · refine Directory.content_eq_some.2 ((recorded_root h hall (recorded_kind h hall hp) ?_ ?_).1
      ⟨p, hp, rfl, rfl⟩)
    · exact fun hpath => hroot (hpath ▸ template_captured.1)
    · exact fun hpath => hroot (hpath ▸ template_captured.2)

/-- A copy has no directories of chat templates. -/
theorem staging_nested (h : PlanOf codec source plan checkpoint)
    (hall : List.Forall₂ (Recorded codec source) plan planned)
    (hnodup : (planned.map (·.path)).Nodup) {directory : PathName}
    (hdirectory : directory ∈ TEMPLATE_DIRS) : (stagingOf planned).get directory = none := by
  have hnone : ∀ directory ∈ TEMPLATE_DIRS,
      hasSafetensorsSuffix directory = false ∧ isMetadata directory = false := by decide +kernel
  rw [Option.eq_none_iff_forall_ne_some]
  intro node hnode
  obtain ⟨p, hp, rfl, -⟩ := (get_stagingOf hnodup _ _).1 hnode
  obtain ⟨hsuffix, hmetadata⟩ := hnone _ hdirectory
  rcases recorded_kind h hall hp with hkind | hkind
  · rw [hsuffix] at hkind
    cases hkind
  · rw [hmetadata] at hkind
    cases hkind

/-- A copy is loaded as it was planned. -/
theorem serving_copy (h : PlanOf codec source plan checkpoint)
    (hall : List.Forall₂ (Recorded codec source) plan planned)
    (hnodup : (planned.map (·.path)).Nodup) :
    Serving codec checkpoint planned (stagingOf planned) := by
  obtain ⟨hconfig, hshards, hindex⟩ := recorded_required h hall
  have hget := get_stagingOf hnodup
  have hnested : ∀ name, nestedPaths (stagingOf planned) name = [] := by
    intro name
    rw [nestedPaths, List.filter_eq_nil_iff]
    intro path hpath
    obtain ⟨directory, hdirectory, rfl⟩ := List.mem_map.1 hpath
    simp [sourceContent, sourceLeaf_join (templateDirs_slash _ hdirectory),
      staging_nested h hall hnodup hdirectory]
  have hcontent : ∀ path bytes, (stagingOf planned).content path = some bytes ↔
      ∃ p ∈ planned, p.path = path ∧ p.bytes = bytes := by
    intro path bytes
    rw [Directory.content_eq_some, hget]
    simp only [Node.leaf.injEq, Leaf.file.injEq, eq_comm]
  have hroot : ∀ name, hasSafetensorsSuffix name = true ∨ name = INDEX_NAME →
      (stagingOf planned).get name = source.get name := by
    intro name hname
    obtain ⟨hdefault, htool⟩ := not_template hname
    have hkind : hasSafetensorsSuffix name = true ∨ isMetadata name = true := by
      refine hname.imp id fun hindex => ?_
      rw [hindex]
      exact isMetadata_index
    refine Option.ext fun node => ?_
    rw [hget, recorded_root h hall hkind hdefault htool]
  refine
    { recordings hall hnodup with
      weights := checkpointPlan_congr h.weights (fun entry hentry => ?_) hroot
      regular := ⟨fun name node hnode _ => ?_, fun directory hdirectory =>
        .inl (staging_nested h hall hnodup hdirectory)⟩
      consistent := ⟨fun _ => ⟨hnested _, hnested _⟩, fun _ => hnested _, fun _ => hnested _,
        by simp [hnested], by simp [hnested]⟩
      captured := fun path bytes => ?_
      root := fun p hp _ => (hcontent _ _).2 ⟨p, hp, rfl, rfl⟩
      config := hconfig
      shards := hshards
      index := hindex }
  · have hnode := Directory.mem_sorted.1 hentry
    obtain ⟨p, hp, hpath, -⟩ := (hget _ _).1 hnode
    rcases recorded_kind h hall hp with hsuffix | hmetadata
    · rw [hpath] at hsuffix
      rw [hroot _ (.inl hsuffix)] at hnode
      exact (checkpointPlan_eq_ok h.weights).1 entry (Directory.mem_sorted.2 hnode)
    · exact (metadata_shape _ (isMetadata_iff.1 (hpath ▸ hmetadata))).2.2.1
  · obtain ⟨p, -, -, rfl⟩ := (hget _ _).1 hnode
    exact ⟨p.bytes, rfl⟩
  · rw [mem_capturedFiles, hcontent]
    simp [hnested]

/-! ## Imports that load -/

/-- The loader reads what was planned, and nothing besides. -/
structure LoadsPlanned (codec : Codec) (source : Directory) (plan : List PathName)
    (files : List ModelFile) (snapshot : CheckpointSnapshot) : Prop where
  config : source.content CONFIG = some snapshot.configBytes
  listed : ∀ file ∈ snapshot.runtimeMetadata, file.1 ∈ files.map fun file => file.path.toList
  metadata : ∀ path bytes, (path, bytes) ∈ snapshot.runtimeMetadata ↔
    path ∈ CAPTURED ∧ ∃ name ∈ plan, localRuntimePath name = path ∧
      sourceContent source name = some bytes
  shards : ∀ shard, shard ∈ snapshot.shards ↔
    ∃ name ∈ plan, hasSafetensorsSuffix name = true ∧
      ∃ bytes, sourceContent source name = some bytes ∧ shard = ⟨name, contentOf codec bytes⟩

/-- The files that are loaded are within the limits of the loader. -/
def WithinLimits (source : Directory) : Prop :=
  ∀ name bytes limit, sourceContent source name = some bytes → ¬ Superseded source name →
    loadedLimit (localRuntimePath name) = some limit → bytes.length ≤ limit

/-- `chat_template.json` takes the place of a template that is there. -/
def HasSuperseded (source : Directory) : Prop :=
  ∃ name, (source.content name).isSome = true ∧ Superseded source name

/-- A plan has no template that `chat_template.json` takes the place of. -/
theorem not_superseded_of_mem (h : PlanOf codec source plan checkpoint) {name : PathName}
    (hname : name ∈ plan) : ¬ Superseded source name := by
  intro hsuperseded
  have htemplate := hsuperseded.2
  rcases h.cases hname with ⟨-, hsuffix | ⟨-, hnot⟩, -⟩ | ⟨hnested, -⟩ | ⟨hnested, -⟩
  · exact htemplate.elim (not_template (.inl hsuffix)).1 (not_template (.inl hsuffix)).2
  · exact hnot hsuperseded
  · have hshape := named_shape name (nested_default hnested).1
    exact htemplate.elim hshape.2.1 hshape.2.2.1
  · have hshape := named_shape name (nested_tool hnested).1
    exact htemplate.elim hshape.2.1 hshape.2.2.1

/-- A file that is loaded is one of the plan. -/
theorem mem_plan_of_limit (h : PlanOf codec source plan checkpoint) {name : PathName}
    {bytes : Bytes} (hbytes : sourceContent source name = some bytes)
    (hnot : ¬ Superseded source name)
    (hlimit : (loadedLimit (localRuntimePath name)).isSome = true) : name ∈ plan := by
  have hcontent : (sourceContent source name).isSome = true := by rw [hbytes]; rfl
  by_cases hnamed : name ∈ NAMED_TEMPLATES
  · have hdirectories : ∀ name ∈ NAMED_TEMPLATES,
        name ∈ TEMPLATE_DIRS.map (fun directory => join directory DEFAULT_NAME) ∨
        name ∈ TEMPLATE_DIRS.map (fun directory => join directory TOOL_USE_NAME) := by
      decide +kernel
    refine (h.mem name).2 (.inr (.inr ?_))
    exact (hdirectories name hnamed).imp (fun hmem => List.mem_filter.2 ⟨hmem, hcontent⟩)
      fun hmem => List.mem_filter.2 ⟨hmem, hcontent⟩
  · rw [localRuntimePath_of_not_named hnamed, loadedLimit] at hlimit
    have hmetadata : isMetadata name = true := by
      split at hlimit
      · rename_i hconfig
        rw [hconfig]
        exact isMetadata_templates.1
      · exact captured_metadata name (captured_limit.1 hlimit)
    rw [sourceContent_root (metadata_slash hmetadata)] at hcontent
    exact (h.mem name).2 (.inr (.inl ⟨hmetadata, hcontent, hnot⟩))

/-- The limits of what is recorded are those of the source. -/
theorem limits_iff (h : PlanOf codec source plan checkpoint)
    (hall : List.Forall₂ (Recorded codec source) plan planned) :
    (∀ p ∈ planned, ∀ limit, loadedLimit p.path = some limit → p.bytes.length ≤ limit) ↔
      WithinLimits source := by
  constructor
  · intro hlimits name bytes limit hbytes hnot hlimit
    have hname := mem_plan_of_limit h hbytes hnot (by rw [hlimit]; rfl)
    obtain ⟨p, hp, hpath, rfl⟩ := (recorded_iff hall).2 ⟨name, hname, rfl, hbytes⟩
    exact hlimits p hp limit (hpath ▸ hlimit)
  · intro hlimits p hp limit hlimit
    obtain ⟨name, hname, hpath, hbytes⟩ := (recorded_iff hall).1 ⟨p, hp, rfl, rfl⟩
    exact hlimits name p.bytes limit hbytes (not_superseded_of_mem h hname) (hpath ▸ hlimit)

/-- A directory that has the planned files loads them unless one of them is too large. -/
theorem serving_loads {d : Directory} (h : PlanOf codec source plan checkpoint)
    (hall : List.Forall₂ (Recorded codec source) plan planned)
    (hserving : Serving codec checkpoint planned d) :
    (∃ snapshot, openVerified codec d (manifestOf planned) = .ok snapshot ∧
      LoadsPlanned codec source plan (manifestOf planned) snapshot) ↔ WithinLimits source := by
  -- What is not captured has the same bytes in both directories.
  have hsame : ∀ name, (∃ p ∈ planned, p.path = name) → name ∉ CAPTURED →
      (hasSafetensorsSuffix name = true ∨ isMetadata name = true) →
      ∃ bytes, d.content name = some bytes ∧ source.content name = some bytes := by
    rintro _ ⟨p, hp, rfl⟩ hroot hkind
    have hdefault : p.path ≠ TEMPLATE := fun hpath => hroot (hpath ▸ template_captured.1)
    have htool : p.path ≠ TOOL_TEMPLATE := fun hpath => hroot (hpath ▸ template_captured.2)
    exact ⟨p.bytes, hserving.root p hp hroot, Directory.content_eq_some.2
      ((recorded_root h hall hkind hdefault htool).1 ⟨p, hp, rfl, rfl⟩)⟩
  obtain ⟨config, hconfig, hconfig'⟩ := hsame CONFIG hserving.config config_not_captured
    (.inr isMetadata_templates.1)
  have hshards : ∀ shard, shard ∈ openedShards codec d checkpoint ↔
      ∃ name ∈ plan, hasSafetensorsSuffix name = true ∧
        ∃ bytes, sourceContent source name = some bytes ∧ shard = ⟨name, contentOf codec bytes⟩ := by
    intro shard
    have hfound : ∀ name ∈ checkpoint.files, ∃ bytes, d.content name = some bytes ∧
        sourceContent source name = some bytes := by
      intro name hfile
      obtain ⟨hsuffix, hsafe, -⟩ := CheckpointPlan.mem_files h.weights hfile
      have hroot : name ∉ CAPTURED := fun hin => by
        have hmetadata := captured_metadata name hin
        rw [suffix_not_metadata hsuffix] at hmetadata
        cases hmetadata
      rw [sourceContent_root (shard_slash hsafe hsuffix)]
      exact hsame name (hserving.shards name hfile) hroot (.inl hsuffix)
    rw [openedShards, List.mem_map]
    constructor
    · rintro ⟨planned, hplanned, rfl⟩
      have hfile : planned.1 ∈ checkpoint.files := List.mem_map.2 ⟨planned, hplanned, rfl⟩
      obtain ⟨bytes, hbytes, hbytes'⟩ := hfound planned.1 hfile
      exact ⟨planned.1, (h.mem _).2 (.inl hfile), (CheckpointPlan.mem_files h.weights hfile).1,
        bytes, hbytes', by rw [hbytes]; rfl⟩
    · rintro ⟨name, hname, hsuffix, bytes, hbytes, rfl⟩
      have hfile : name ∈ checkpoint.files := by
        rcases (h.mem name).1 hname with hfile | ⟨hmetadata, -⟩ | hnested | hnested
        · exact hfile
        · rw [suffix_not_metadata hsuffix] at hmetadata
          cases hmetadata
        · exact absurd (nested_default hnested).1 (not_named_of_suffix hsuffix)
        · exact absurd (nested_tool hnested).1 (not_named_of_suffix hsuffix)
      obtain ⟨read, hread, hread'⟩ := hfound name hfile
      rw [hbytes, Option.some.injEq] at hread'
      obtain ⟨planned, hplanned, rfl⟩ := List.mem_map.1 hfile
      exact ⟨planned, hplanned, by rw [hread, hread']; rfl⟩
  constructor
  · rintro ⟨snapshot, hopen, -⟩
    exact (limits_iff h hall).1 ((openVerified_eq_ok hserving).1 hopen).1
  · intro hlimits
    refine ⟨⟨config, capturedFiles d, openedShards codec d checkpoint⟩,
      (openVerified_eq_ok hserving).2 ⟨(limits_iff h hall).2 hlimits, hconfig, rfl, rfl⟩,
      hconfig', fun file hfile => ?_, fun path bytes => ?_, hshards⟩
    · obtain ⟨-, p, hp, hpath, -⟩ := (hserving.captured _ _).1 hfile
      exact (mem_manifest_paths hserving.toRecordings).2 ⟨p, hp, hpath⟩
    · rw [hserving.captured, recorded_iff hall]

/-- The loader refuses a linked source with a template that the plan left out. -/
theorem link_refused (h : PlanOf codec source plan checkpoint)
    (hall : List.Forall₂ (Recorded codec source) plan planned)
    (hnodup : (planned.map (·.path)).Nodup) (hsuperseded : HasSuperseded source)
    {snapshot : CheckpointSnapshot} :
    openVerified codec source (manifestOf planned) ≠ .ok snapshot := by
  intro hopen
  obtain ⟨path, hpresent, hpath⟩ := hsuperseded
  obtain ⟨bytes, hbytes⟩ := Option.isSome_iff_exists.1 hpresent
  simp only [openVerified, bind_eq_ok, pure_eq_ok, validateExpectedSnapshot, ensure_eq_ok,
    captureRuntimeMetadata_eq_ok h.regular h.consistent] at hopen
  obtain ⟨cp, -, -, -, -, -, captured, ⟨-, rfl⟩, -, -, -, ⟨-, -, -, -, -, hrequired, -⟩, -⟩ := hopen
  have hcaptured : path ∈ CAPTURED := by
    rcases hpath.2 with rfl | rfl
    · exact template_captured.1
    · exact template_captured.2
  have hmem : path ∈ requiredFiles cp (capturedFiles source) := by
    have hfile := mem_capturedFiles.2 (.inl ⟨hcaptured, hbytes⟩)
    simp only [requiredFiles, List.mem_append, List.mem_cons]
    exact .inl (.inl (.inr (List.mem_map.2 ⟨_, hfile, rfl⟩)))
  obtain ⟨p, hp, rfl⟩ := (mem_manifest_paths (recordings hall hnodup)).1 (hrequired path hmem)
  obtain ⟨name, hname, hlocal, -⟩ := (recorded_iff hall).1 ⟨p, hp, rfl, rfl⟩
  rcases h.cases hname with ⟨hnamed, -, -⟩ | ⟨hnested, -⟩ | ⟨hnested, -⟩
  · rw [localRuntimePath_of_not_named hnamed] at hlocal
    exact not_superseded_of_mem h hname (hlocal ▸ hpath)
  · rw [(h.consistent.json hpath.1).1] at hnested
    cases hnested
  · rw [(h.consistent.json hpath.1).2] at hnested
    cases hnested

/-- The manifest of an import and its directory. -/
theorem importSource_eq_ok {kind : ImportKind} {files : List ModelFile} {d : Directory}
    (h : importSource codec kind source plan = .ok (files, d)) :
    ∃ planned, recordEach codec source [] plan = .ok planned ∧ files = manifestOf planned ∧
      ((kind = .symlink ∧ d = source) ∨ kind = .copy ∧ d = stagingOf planned) := by
  cases kind with
  | symlink =>
    simp only [importSource, snapshotRuntimeFiles, map_eq_ok] at h
    obtain ⟨_, ⟨planned, hplanned, rfl⟩, heq⟩ := h
    cases heq
    exact ⟨planned, hplanned, rfl, .inl ⟨rfl, rfl⟩⟩
  | copy =>
    simp only [importSource, copyRuntimeFiles, map_eq_ok] at h
    obtain ⟨planned, hplanned, heq⟩ := h
    cases heq
    exact ⟨planned, hplanned, rfl, .inr ⟨rfl, rfl⟩⟩

end

/-- An import loads what was planned just where the files are within the limits of the loader and
no source is linked that has templates beside `chat_template.json`. -/
theorem imports_load (codec : Codec) (kind : ImportKind) (source : Directory)
    (plan : List PathName) (files : List ModelFile) (d : Directory)
    (hplan : localRuntimePlan codec source = .ok plan)
    (himport : importSource codec kind source plan = .ok (files, d)) :
    (∃ snapshot, openVerified codec d files = .ok snapshot ∧
      LoadsPlanned codec source plan files snapshot) ↔
    WithinLimits source ∧ (kind = .symlink → ¬ HasSuperseded source) := by
  obtain ⟨checkpoint, h⟩ := localRuntimePlan_eq_ok hplan
  obtain ⟨planned, hplanned, rfl, hkind⟩ := importSource_eq_ok himport
  obtain ⟨hall, hnodup, -⟩ := recordEach_eq_ok hplanned
  rcases hkind with ⟨rfl, rfl⟩ | ⟨rfl, rfl⟩
  · by_cases hsuperseded : HasSuperseded d
    · refine iff_of_false ?_ fun hfits => hfits.2 rfl hsuperseded
      rintro ⟨snapshot, hopen, -⟩
      exact link_refused h hall hnodup hsuperseded hopen
    · have hnot : ∀ name, (d.content name).isSome = true → ¬ Superseded d name :=
        fun name hpresent hname => hsuperseded ⟨name, hpresent, hname⟩
      rw [serving_loads h hall (serving_link h hall hnodup hnot)]
      exact ⟨fun hlimits => ⟨hlimits, fun _ => hsuperseded⟩, And.left⟩
  · rw [serving_loads h hall (serving_copy h hall hnodup)]
    exact ⟨fun hlimits => ⟨hlimits, nofun⟩, And.left⟩

/-! ## A directory with one tensor -/

/-- The header of a weight file with one tensor. -/
def tinyHeader : Bytes :=
  "\x7b\"w\":\x7b\"dtype\":\"U8\",\"shape\":[1],\"data_offsets\":[0,1]\x7d\x7d".toList.map fun c =>
    UInt8.ofNat c.toNat

def tinyShard : Bytes := [53, 0, 0, 0, 0, 0, 0, 0] ++ tinyHeader ++ [7]

def tinyText : Bytes := "{}".toList.map fun c => UInt8.ofNat c.toNat

/-- The parser and the digests, on these texts. -/
def tinyCodec : Codec where
  parseJson bytes :=
    if bytes = tinyHeader then
      .ok (.object [("w", .object [("dtype", .string "U8"),
        ("shape", .array [.number (.posInt 1)]),
        ("data_offsets", .array [.number (.posInt 0), .number (.posInt 1)])])])
    else if bytes = tinyText then .ok (.object [])
    else .error "expected value"
  sha256 bytes :=
    if bytes = tinyHeader then
      ⟨"3cd6092ac27cc8ab1424a000f35efebafa15b983d84be1cbcde368533334a66d", by decide +kernel,
        by decide +kernel⟩
    else if bytes = tinyShard then
      ⟨"258072311b19998453646ae09fb919af1535ed9e1e66b6d11904602f3c2e08d2", by decide +kernel,
        by decide +kernel⟩
    else
      ⟨"44136fa355b3678a1146ad16f7e8649e94fb4fc21fe77e8310c060f61caaff8a", by decide +kernel,
        by decide +kernel⟩

/-- A directory with these files at its root. -/
def tinySource (names : List PathName) (h : (SINGLE_NAME :: names).Nodup) : Directory where
  entries := (SINGLE_NAME, .leaf (.file tinyShard)) ::
    names.map fun name => (name, .leaf (.file tinyText))
  nodup := by simpa [List.map_map, Function.comp_def] using h

/-- Both a `chat_template.json` and a template that it takes the place of. -/
def bothTemplates : Directory :=
  tinySource [CONFIG, TOKENIZER, TEMPLATE_JSON, TEMPLATE] (by decide +kernel)

def oneTemplate : Directory := tinySource [CONFIG, TOKENIZER, TEMPLATE] (by decide +kernel)

/-- The manifest of such a directory with a template under a name. -/
def tinyFiles (template : String) : List ModelFile :=
  [⟨template, 2, (tinyCodec.sha256 tinyText).text⟩,
    ⟨"config.json", 2, (tinyCodec.sha256 tinyText).text⟩,
    ⟨"model.safetensors", 62, (tinyCodec.sha256 tinyShard).text⟩,
    ⟨"tokenizer.json", 2, (tinyCodec.sha256 tinyText).text⟩]

theorem imports_load_linked :
    ∃ snapshot, openVerified tinyCodec oneTemplate (tinyFiles "chat_template.jinja") = .ok snapshot ∧
      LoadsPlanned tinyCodec oneTemplate [TEMPLATE, CONFIG, SINGLE_NAME, TOKENIZER]
        (tinyFiles "chat_template.jinja") snapshot := by
  have hlength : ∀ name node, oneTemplate.get name = some node →
      ∃ bytes, node = .leaf (.file bytes) ∧ bytes.length ≤ 62 := by
    intro name node hnode
    have hall : ∀ entry ∈ oneTemplate.entries,
        entry.2 = .leaf (.file tinyShard) ∨ entry.2 = .leaf (.file tinyText) := by
      simp [oneTemplate, tinySource]
    rcases hall _ (Table.get_eq_some.1 hnode) with rfl | rfl
    · exact ⟨tinyShard, rfl, by decide +kernel⟩
    · exact ⟨tinyText, rfl, by decide +kernel⟩
  have himport : importSource tinyCodec .symlink oneTemplate
      [TEMPLATE, CONFIG, SINGLE_NAME, TOKENIZER] =
        .ok (tinyFiles "chat_template.jinja", oneTemplate) := by
    have hfiles : snapshotRuntimeFiles tinyCodec oneTemplate
        [TEMPLATE, CONFIG, SINGLE_NAME, TOKENIZER] = .ok (tinyFiles "chat_template.jinja") := by
      decide +kernel
    rw [importSource, hfiles]
    rfl
  refine (imports_load tinyCodec .symlink oneTemplate [TEMPLATE, CONFIG, SINGLE_NAME, TOKENIZER]
    (tinyFiles "chat_template.jinja") oneTemplate (by decide +kernel) himport).2 ⟨?_, ?_⟩
  · intro name bytes limit hbytes _ hlimit
    have hshort : bytes.length ≤ 62 := by
      unfold sourceContent at hbytes
      split at hbytes
      · rename_i read hleaf
        cases hbytes
        unfold sourceLeaf at hleaf
        split at hleaf
        · split at hleaf
          · rename_i entries hget
            obtain ⟨_, hfile, -⟩ := hlength _ _ hget
            cases hfile
          · cases hleaf
        · split at hleaf
          · rename_i leaf hget
            obtain ⟨file, hfile, hshort⟩ := hlength _ _ hget
            cases hleaf
            cases hfile
            exact hshort
          · cases hleaf
          · cases hleaf
      · cases hbytes
    have hlong : 62 ≤ limit := by
      unfold loadedLimit capturedRuntimeMetadataLimit at hlimit
      split_ifs at hlimit <;> cases hlimit <;> decide
    exact hshort.trans hlong
  · rintro - ⟨name, -, hjson, -⟩
    exact absurd hjson (by decide +kernel)

/-- The loader refuses the manifest of a linked directory with both templates. -/
theorem linked_template_refused :
    ¬ ∀ (codec : Codec) (kind : ImportKind) (source : Directory) (plan : List PathName)
      (files : List ModelFile) (d : Directory), localRuntimePlan codec source = .ok plan →
      importSource codec kind source plan = .ok (files, d) →
      ∃ snapshot, openVerified codec d files = .ok snapshot := by
  intro h
  have hfiles : snapshotRuntimeFiles tinyCodec bothTemplates
      [TEMPLATE_JSON, CONFIG, SINGLE_NAME, TOKENIZER] = .ok (tinyFiles "chat_template.json") := by
    decide +kernel
  obtain ⟨snapshot, hopen⟩ := h tinyCodec .symlink bothTemplates
    [TEMPLATE_JSON, CONFIG, SINGLE_NAME, TOKENIZER] (tinyFiles "chat_template.json") bothTemplates
    (by decide +kernel) (by rw [importSource, hfiles]; rfl)
  have hrefused : openVerified tinyCodec bothTemplates (tinyFiles "chat_template.json") =
      .error ⟨[], "runtime-influential file is absent from the installed manifest"⟩ := by
    decide +kernel
  rw [hrefused] at hopen
  cases hopen

end Import

end Emelex
