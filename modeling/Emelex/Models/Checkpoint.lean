import Mathlib.Algebra.Order.Ring.Nat
import Mathlib.Data.Char
import Mathlib.Data.List.Lex
import Emelex.Lib.Checks
import Emelex.Lib.Json
import Emelex.Lib.Table
import Emelex.Models.RuntimeFiles
import Emelex.Models.SnapshotStamp

/-!
# The files of a checkpoint (`model/layout.rs`)

Which weight files of a directory are loaded: the index names them, or there is `model.safetensors`
alone.  Every weight file is inspected.

* `Directory` — the entries of a model directory: files, and directories of chat templates.
* `inspectSafetensorsLayout` — the header of a weight file.
* `checkpointPlan` — the selected files.

JSON texts are parsed and contents hashed by functions from elsewhere.  Nothing changes the
directory, so the device and inode of a file, which only tell whether it has changed, are left out;
of the plan so are the sizes and the kinds of weights.  An error of the file system is a fixed text.

Principal definitions: `inspectSafetensorsLayout`, `checkpointPlan`.
-/

set_option autoImplicit false

namespace Emelex

open Checks

namespace Import

abbrev Bytes := List UInt8

/-! ## Directories -/

/-- An entry without entries of its own. -/
inductive Leaf where
  | file (bytes : Bytes)
  | symlink
  /-- A socket, a pipe or a device. -/
  | special
deriving DecidableEq

/-- An entry of a model directory. -/
inductive Node where
  | leaf (leaf : Leaf)
  | directory (entries : Table PathName Leaf)

abbrev Directory := Table PathName Node

namespace Directory

/-- The bytes of a regular file. -/
def content (d : Directory) (name : PathName) : Option Bytes :=
  match d.get name with
  | some (.leaf (.file bytes)) => some bytes
  | _ => none

/-- The entries in the order of their names. -/
def sorted (d : Directory) : List (PathName × Node) :=
  d.entries.insertionSort fun a b => a.1 ≤ b.1

end Directory

/-! ## Errors and limits -/

/-- `CheckpointLayoutError`; the path is relative to the model directory. -/
structure LayoutError where
  path : PathName
  message : String
deriving DecidableEq, Repr

def MAX_INDEX_BYTES : Nat := 67108864
def MAX_SAFETENSORS_HEADER_BYTES : Nat := 67108864
def MAX_AGGREGATE_HEADER_BYTES : Nat := 268435456
def MAX_CHECKPOINT_SHARDS : Nat := 1024
def MAX_CHECKPOINT_TENSORS : Nat := 1000000
def MAX_TENSOR_NAME_BYTES : Nat := 4096
def MAX_TENSOR_RANK : Nat := 32
def U64_LIMIT : Nat := 18446744073709551616
def I32_MAX : Nat := 2147483647

/-- `open_no_follow_at` and what is read from the descriptor: only regular files have content. -/
def openRegular (path : PathName) (message : String) : Node → Except LayoutError Bytes
  | .leaf (.file bytes) => .ok bytes
  | .leaf .symlink =>
    .error ⟨path, "cannot open relative to immutable model directory: symbolic link"⟩
  | .leaf .special | .directory _ => .error ⟨path, message⟩

/-! ## Weight files -/

/-- A lowercase hexadecimal digit. -/
def isLowerHex (c : Char) : Bool := c.isDigit || ('a' ≤ c && c ≤ 'f')

/-- A SHA-256 digest as `hex::encode` writes it. -/
structure Digest where
  text : String
  length : text.toList.length = 64
  hex : text.toList.all isLowerHex = true
deriving DecidableEq

/-- What comes from elsewhere: `serde_json::from_slice` and `hex::encode(Sha256::digest(..))`. -/
structure Codec where
  parseJson : Bytes → Except String Json
  sha256 : Bytes → Digest

/-- `PlannedShard`. -/
structure PlannedShard where
  names : List String
  bytes : Nat
  headerBytes : Nat
  headerSha256 : String
deriving DecidableEq

/-- `u64::from_le_bytes`. -/
def littleEndian (bytes : Bytes) : Nat := bytes.foldr (fun b n => b.toNat + 256 * n) 0

/-- `tensor_byte_width`. -/
def tensorByteWidth (dtype : String) : Option Nat :=
  if dtype ∈ ["BOOL", "U8", "I8", "F8_E4M3"] then some 1
  else if dtype ∈ ["U16", "I16", "F16", "BF16"] then some 2
  else if dtype ∈ ["U32", "I32", "F32"] then some 4
  else if dtype ∈ ["U64", "I64", "C64"] then some 8
  else none

/-- `validate_tensor_name`. -/
def validateTensorName (path : PathName) (name : String) : Except LayoutError Unit :=
  ensure (name ≠ "" ∧ name.utf8ByteSize ≤ MAX_TENSOR_NAME_BYTES ∧ '\x00' ∉ name.toList)
    ⟨path, s!"tensor name must contain 1..={MAX_TENSOR_NAME_BYTES} bytes and no NUL"⟩

/-- The number of elements of a shape. -/
def shapeElements (path : PathName) (name : String) (product : Nat) (dimension : Json) :
    Except LayoutError Nat := do
  let name := name.quote
  let dimension ← required ⟨path, s!"tensor {name} shape contains a non-integer dimension"⟩
    dimension.asU64
  ensure (dimension ≤ I32_MAX) ⟨path, s!"tensor {name} dimension exceeds MLX i32 shape range"⟩
  ensure (product * dimension < U64_LIMIT) ⟨path, s!"tensor {name} element count overflows"⟩
  return product * dimension

/-- One tensor of a header: the range of its payload. -/
def inspectTensor (path : PathName) (payloadLen : Nat) (name : String) (descriptor : Json) :
    Except LayoutError (Nat × Nat) := do
  validateTensorName path name
  let tensor := name
  let name := name.quote
  let _ ← required ⟨path, s!"tensor {name} descriptor is not an object"⟩ descriptor.asObject
  let offsets ← required ⟨path, s!"tensor {name} has no data_offsets"⟩
    ((descriptor.get "data_offsets").bind Json.asArray)
  ensure (offsets.length = 2) ⟨path, s!"tensor {name} has invalid offsets"⟩
  let start ← required ⟨path, s!"tensor {name} has invalid offsets"⟩
    ((offsets[0]?).bind Json.asU64)
  let stop ← required ⟨path, s!"tensor {name} has invalid offsets"⟩
    ((offsets[1]?).bind Json.asU64)
  ensure (start ≤ stop ∧ stop ≤ payloadLen) ⟨path, s!"tensor {name} has invalid offsets"⟩
  let dtype ← required ⟨path, s!"tensor {name} lacks dtype"⟩
    ((descriptor.get "dtype").bind Json.asStr)
  let shown := dtype.quote
  let width ← required ⟨path, s!"tensor {name} has unsupported dtype {shown}"⟩
    (tensorByteWidth dtype)
  let shape ← required ⟨path, s!"tensor {name} lacks shape"⟩
    ((descriptor.get "shape").bind Json.asArray)
  ensure (shape.length ≤ MAX_TENSOR_RANK) ⟨path, s!"tensor {name} rank exceeds {MAX_TENSOR_RANK}"⟩
  let elements ← shape.foldlM (shapeElements path tensor) 1
  let expected := elements * width
  ensure (expected < U64_LIMIT) ⟨path, s!"tensor {name} byte count overflows"⟩
  let actual := stop - start
  ensure (actual = expected)
    ⟨path, s!"tensor {name} payload has {actual} bytes but dtype/shape require {expected}"⟩
  return (start, stop)

/-- One field of a header; `__metadata__` is no tensor. -/
def inspectField (path : PathName) (payloadLen : Nat) (field : String × Json) :
    Except LayoutError (Option (String × Nat × Nat)) := do
  if field.1 = "__metadata__" then
    let metadata ← required ⟨path, "__metadata__ must be an object"⟩ field.2.asObject
    ensure (metadata.all fun value => value.2.asStr.isSome)
      ⟨path, "__metadata__ values must all be strings"⟩
    return none
  else
    let range ← inspectTensor path payloadLen field.1 field.2
    return some (field.1, range)

/-- Neighbouring ranges do not overlap. -/
def ensureApart (path : PathName) : List (String × Nat × Nat) → Except LayoutError Unit
  | previous :: next :: rest => do
    let before := previous.1.quote
    let after := next.1.quote
    ensure (previous.2.2 ≤ next.2.1) ⟨path, s!"tensor payloads {before} and {after} overlap"⟩
    ensureApart path (next :: rest)
  | _ => .ok ()

/-- `inspect_open_safetensors_layout`. -/
def inspectSafetensorsLayout (codec : Codec) (path : PathName) (bytes : Bytes) :
    Except LayoutError PlannedShard := do
  let fileLen := bytes.length
  ensure (8 ≤ fileLen) ⟨path, "cannot read header length"⟩
  let headerLen := littleEndian (bytes.take 8)
  ensure (headerLen ≠ 0 ∧ headerLen ≤ MAX_SAFETENSORS_HEADER_BYTES ∧ headerLen ≤ fileLen - 8)
    ⟨path, "invalid safetensors header length"⟩
  let header := (bytes.drop 8).take headerLen
  let value ← (codec.parseJson header).mapError fun error =>
    ⟨path, s!"invalid safetensors header JSON: {error}"⟩
  let object ← required ⟨path, "safetensors header must be an object"⟩ value.asObject
  ensure (object.length ≤ MAX_CHECKPOINT_TENSORS + 1)
    ⟨path, s!"safetensors header exceeds {MAX_CHECKPOINT_TENSORS} tensors"⟩
  let tensors ← object.mapM (inspectField path (fileLen - 8 - headerLen))
  let ranges := tensors.filterMap id
  ensure (ranges ≠ []) ⟨path, "safetensors file contains no tensors"⟩
  ensureApart path (ranges.insertionSort fun a b => a.2.1 ≤ b.2.1)
  return {
    names := ranges.map Prod.fst
    bytes := fileLen
    headerBytes := headerLen
    headerSha256 := (codec.sha256 header).text }

/-! ## The plan -/

/-- `FileContent`. -/
structure FileContent where
  bytes : Nat
  sha256 : String
deriving DecidableEq, Repr

/-- `content_of`. -/
def contentOf (codec : Codec) (bytes : Bytes) : FileContent :=
  ⟨bytes.length, (codec.sha256 bytes).text⟩

/-- `CheckpointPlan`: the selected files with what was found in them, and the index. -/
structure CheckpointPlan where
  snapshots : List (PathName × PlannedShard)
  indexContent : Option FileContent
deriving DecidableEq

/-- The selected files. -/
def CheckpointPlan.files (plan : CheckpointPlan) : List PathName := plan.snapshots.map Prod.fst

def INDEX_NAME : PathName := "model.safetensors.index.json".toList
def SINGLE_NAME : PathName := "model.safetensors".toList

/-- `has_safetensors_suffix`. -/
def hasSafetensorsSuffix (name : PathName) : Bool := ".safetensors".toList <:+ name

/-- `safe_single_component`. -/
def safeSingleComponent (value : PathName) : Bool :=
  safeRelativePath value && (components value).length = 1

/-- The accumulators of the loop over the entries. -/
structure Listing where
  shards : List (PathName × PlannedShard)
  tensorOwner : List (String × PathName)
  aggregateHeaderBytes : Nat
  alternateIndexes : List PathName

/-- The tensors of a file are its own. -/
def ownTensors (name : PathName) : List (String × PathName) → List String →
    Except LayoutError (List (String × PathName))
  | owner, [] => .ok owner
  | owner, tensor :: tensors => do
    let quoted := tensor.quote
    let other := (String.ofList ((List.lookup tensor owner).getD [])).quote
    let current := (String.ofList name).quote
    ensure (List.lookup tensor owner = none)
      ⟨name, s!"tensor {quoted} appears in both {other} and {current}"⟩
    ownTensors name ((tensor, name) :: owner) tensors

/-- A variant of the index. -/
def isAlternateIndex (name : PathName) : Bool :=
  ".safetensors.index.json".toList <:+ name && name ≠ INDEX_NAME

/-- One turn of the loop over the entries. -/
def scanEntry (codec : Codec) (listing : Listing) (entry : PathName × Node) :
    Except LayoutError Listing := do
  let (name, node) := entry
  let listing := if isAlternateIndex name then
    { listing with alternateIndexes := listing.alternateIndexes ++ [name] } else listing
  if hasSafetensorsSuffix name = false then return listing
  else
    ensure (listing.shards.length ≠ MAX_CHECKPOINT_SHARDS)
      ⟨[], s!"checkpoint exceeds {MAX_CHECKPOINT_SHARDS} shards"⟩
    ensure (safeSingleComponent name = true) ⟨name, "unsafe checkpoint filename"⟩
    let bytes ← openRegular name "checkpoint shard is not a regular file" node
    let snapshot ← inspectSafetensorsLayout codec name bytes
    let aggregate := listing.aggregateHeaderBytes + snapshot.headerBytes
    ensure (aggregate ≤ MAX_AGGREGATE_HEADER_BYTES)
      ⟨[], s!"aggregate safetensors headers exceed {MAX_AGGREGATE_HEADER_BYTES} bytes"⟩
    ensure (listing.tensorOwner.length + snapshot.names.length ≤ MAX_CHECKPOINT_TENSORS)
      ⟨[], s!"checkpoint exceeds {MAX_CHECKPOINT_TENSORS} tensors"⟩
    let owner ← ownTensors name listing.tensorOwner snapshot.names
    return { listing with
      shards := listing.shards ++ [(name, snapshot)]
      tensorOwner := owner
      aggregateHeaderBytes := aggregate }

/-- `open_no_follow_at`. -/
def openAt (d : Directory) (path : PathName) : Except LayoutError Node :=
  required ⟨path, "cannot open relative to immutable model directory: not found"⟩ (d.get path)

/-- `read_stable_bounded_file`; the file does not change between its two readings. -/
def readBounded (path : PathName) (limit : Nat) (node : Node) : Except LayoutError Bytes := do
  let bytes ← openRegular path s!"file exceeds {limit} bytes" node
  ensure (bytes.length ≤ limit) ⟨path, s!"file exceeds {limit} bytes"⟩
  return bytes

/-- One entry of the `weight_map`: the tensor is in the file that it names. -/
def indexEntry (shards : List (PathName × PlannedShard)) (entry : String × Json) :
    Except LayoutError (String × PathName) := do
  let tensor := entry.1
  validateTensorName INDEX_NAME tensor
  let quoted := tensor.quote
  let value ← required ⟨INDEX_NAME, "weight_map values must be strings"⟩ entry.2.asStr
  let shard := value.toList
  let shown := value.quote
  ensure (safeSingleComponent shard = true ∧ hasSafetensorsSuffix shard = true)
    ⟨INDEX_NAME, s!"unsafe shard path {shown}"⟩
  let snapshot ← required ⟨INDEX_NAME, s!"index references missing shard {shown}"⟩
    (List.lookup shard shards)
  ensure (tensor ∈ snapshot.names) ⟨INDEX_NAME, s!"tensor {quoted} is absent from shard {shown}"⟩
  return (tensor, shard)

/-- Every tensor of a selected file is indexed. -/
def ensureIndexed (indexed : List (String × PathName)) (entry : PathName × PlannedShard) :
    Except LayoutError Unit := do
  let shown := (String.ofList entry.1).quote
  let missing := ((entry.2.names.find? fun tensor => tensor ∉ indexed.map Prod.fst).getD "").quote
  ensure (∀ tensor ∈ entry.2.names, tensor ∈ indexed.map Prod.fst)
    ⟨INDEX_NAME, s!"selected shard {shown} contains unindexed tensor {missing}"⟩

/-- The files that an index selects: all of them. -/
def selectIndexed (codec : Codec) (shards : List (PathName × PlannedShard)) (bytes : Bytes) :
    Except LayoutError (List (PathName × PlannedShard)) := do
  let index ← (codec.parseJson bytes).mapError fun error => ⟨INDEX_NAME, s!"invalid JSON: {error}"⟩
  let weightMap ← required ⟨INDEX_NAME, "missing object weight_map"⟩
    ((index.get "weight_map").bind Json.asObject)
  ensure (weightMap ≠ []) ⟨INDEX_NAME, "weight_map is empty"⟩
  ensure (weightMap.length ≤ MAX_CHECKPOINT_TENSORS)
    ⟨INDEX_NAME, s!"weight_map exceeds {MAX_CHECKPOINT_TENSORS} tensors"⟩
  let indexed ← weightMap.mapM (indexEntry shards)
  let selected := shards.filter fun entry => entry.1 ∈ indexed.map Prod.snd
  let _ ← selected.mapM (ensureIndexed indexed)
  let unselected := shards.find? fun entry => entry.1 ∉ indexed.map Prod.snd
  ensure (unselected = none) ⟨(unselected.map Prod.fst).getD [],
    "unindexed safetensors file makes the runnable checkpoint ambiguous"⟩
  return selected

/-- The files that are selected without an index. -/
def selectSingle (shards : List (PathName × PlannedShard)) :
    Except LayoutError (List (PathName × PlannedShard)) := do
  ensure (shards.map Prod.fst = [SINGLE_NAME] ∨ shards = [])
    ⟨[], "checkpoint without an index must contain only model.safetensors"⟩
  return shards

/-- `checkpoint_plan` after the loop: `index` is the entry under the name of the index. -/
def selectShards (codec : Codec) (listing : Listing) (index : Option Node) :
    Except LayoutError CheckpointPlan := do
  ensure (listing.alternateIndexes = []) ⟨listing.alternateIndexes.head?.getD [],
    "multiple or variant safetensors indexes make the runnable checkpoint ambiguous"⟩
  match index with
  | some node =>
    let bytes ← readBounded INDEX_NAME MAX_INDEX_BYTES node
    let selected ← selectIndexed codec listing.shards bytes
    ensure ((selected.map (·.2.bytes)).sum < U64_LIMIT) ⟨[], "weight byte count overflow"⟩
    return { snapshots := selected, indexContent := some (contentOf codec bytes) }
  | none =>
    let selected ← selectSingle listing.shards
    ensure ((selected.map (·.2.bytes)).sum < U64_LIMIT) ⟨[], "weight byte count overflow"⟩
    return { snapshots := selected, indexContent := none }

/-- `checkpoint_plan`. -/
def checkpointPlan (codec : Codec) (d : Directory) : Except LayoutError CheckpointPlan := do
  let listing ← d.sorted.foldlM (scanEntry codec) ⟨[], [], 0, []⟩
  selectShards codec listing (d.get INDEX_NAME)

/-! ## What a plan says of its directory -/

theorem openRegular_eq_ok {path : PathName} {message : String} {node : Node} {bytes : Bytes} :
    openRegular path message node = .ok bytes ↔ node = .leaf (.file bytes) := by
  cases node with
  | directory entries => simp [openRegular]
  | leaf leaf => cases leaf <;> simp [openRegular]

theorem openAt_eq_ok {d : Directory} {path : PathName} {node : Node} :
    openAt d path = .ok node ↔ d.get path = some node := by
  simp [openAt]

theorem readBounded_eq_ok {path : PathName} {limit : Nat} {node : Node} {bytes : Bytes} :
    readBounded path limit node = .ok bytes ↔
      node = .leaf (.file bytes) ∧ bytes.length ≤ limit := by
  simp only [readBounded, bind_eq_ok, openRegular_eq_ok, ensure_eq_ok, pure_eq_ok]
  constructor
  · rintro ⟨read, hread, -, hlimit, rfl⟩
    exact ⟨hread, hlimit⟩
  · rintro ⟨hread, hlimit⟩
    exact ⟨bytes, hread, (), hlimit, rfl⟩

theorem Directory.content_eq_some {d : Directory} {name : PathName} {bytes : Bytes} :
    d.content name = some bytes ↔ d.get name = some (.leaf (.file bytes)) := by
  unfold Directory.content
  split
  · rename_i read hget
    rw [hget, Option.some.injEq, Option.some.injEq, Node.leaf.injEq, Leaf.file.injEq]
  · rename_i hnone
    constructor
    · intro h
      cases h
    · intro h
      exact absurd h (hnone bytes)

theorem Directory.mem_sorted {d : Directory} {entry : PathName × Node} :
    entry ∈ d.sorted ↔ d.get entry.1 = some entry.2 := by
  rw [Table.get_eq_some]
  exact List.mem_insertionSort _

/-- The entries of some names are the same, in the same order, where their contents are. -/
theorem Directory.filter_sorted_congr {d d' : Directory} {p : PathName → Bool}
    (h : ∀ name, p name = true → d'.get name = d.get name) :
    (d'.sorted.filter fun entry => p entry.1) = d.sorted.filter fun entry => p entry.1 := by
  have hsorted : ∀ d : Directory,
      (d.sorted.filter fun entry => p entry.1).Pairwise fun a b => a.1 ≤ b.1 := by
    intro d
    have : Std.Total fun a b : PathName × Node => a.1 ≤ b.1 := ⟨fun a b => le_total a.1 b.1⟩
    have : IsTrans (PathName × Node) fun a b => a.1 ≤ b.1 := ⟨fun _ _ _ => le_trans⟩
    exact (List.pairwise_insertionSort _ _).filter _
  have hnodup : ∀ d : Directory, (d.sorted.filter fun entry => p entry.1).Nodup := by
    intro d
    have hentries := List.Nodup.of_map Prod.fst d.nodup
    exact ((List.perm_insertionSort _ _).nodup_iff.2 hentries).filter _
  have hmem : ∀ entry, entry ∈ (d'.sorted.filter fun entry => p entry.1) ↔
      entry ∈ d.sorted.filter fun entry => p entry.1 := by
    intro entry
    rw [List.mem_filter, List.mem_filter, mem_sorted, mem_sorted]
    exact and_congr_left fun hp => by rw [h entry.1 hp]
  refine List.Perm.eq_of_pairwise ?_ (hsorted d') (hsorted d)
    ((List.perm_ext_iff_of_nodup (hnodup d') (hnodup d)).2 hmem)
  intro a b ha hb hab hba
  have hname : a.1 = b.1 := le_antisymm hab hba
  have ha' := mem_sorted.1 (List.mem_filter.1 ((hmem a).1 ha)).1
  have hb' := mem_sorted.1 (List.mem_filter.1 hb).1
  rw [hname, hb', Option.some.injEq] at ha'
  exact Prod.ext hname ha'.symm

/-- What one turn of the loop adds to the listing. -/
theorem scanEntry_eq_ok {codec : Codec} {listing listing' : Listing} {entry : PathName × Node}
    (h : scanEntry codec listing entry = .ok listing') :
    listing'.alternateIndexes = listing.alternateIndexes ++ [entry.1].filter isAlternateIndex ∧
      ((hasSafetensorsSuffix entry.1 = false ∧ listing'.shards = listing.shards) ∨
        ∃ bytes shard, hasSafetensorsSuffix entry.1 = true ∧ safeSingleComponent entry.1 = true ∧
          entry.2 = .leaf (.file bytes) ∧
          inspectSafetensorsLayout codec entry.1 bytes = .ok shard ∧
          listing'.shards = listing.shards ++ [(entry.1, shard)]) := by
  obtain ⟨name, node⟩ := entry
  simp only [scanEntry] at h
  split at h
  · rename_i hsuffix
    cases (pure_eq_ok.1 h)
    refine ⟨?_, .inl ⟨hsuffix, ?_⟩⟩
    · by_cases halternate : isAlternateIndex name = true <;> simp [halternate]
    · split <;> rfl
  · rename_i hsuffix
    simp only [bind_eq_ok, ensure_eq_ok, openRegular_eq_ok, pure_eq_ok] at h
    obtain ⟨-, -, -, hsafe, bytes, hnode, shard, hshard, -, -, -, -, owner, -, rfl⟩ := h
    refine ⟨?_, .inr ⟨bytes, shard, by simpa using hsuffix, hsafe, hnode, hshard, ?_⟩⟩
    · by_cases halternate : isAlternateIndex name = true <;> simp [halternate]
    · split <;> rfl

/-- The weight files of a directory and what is read from them. -/
def Inspected (codec : Codec) (entry : PathName × Node) (shard : PathName × PlannedShard) : Prop :=
  shard.1 = entry.1 ∧ safeSingleComponent entry.1 = true ∧
    ∃ bytes, entry.2 = .leaf (.file bytes) ∧
      inspectSafetensorsLayout codec entry.1 bytes = .ok shard.2

/-- What the loop over the entries adds: the weight files in their order. -/
theorem scan_eq_ok {codec : Codec} {listing listing' : Listing}
    {entries : List (PathName × Node)}
    (h : entries.foldlM (scanEntry codec) listing = .ok listing') :
    listing'.alternateIndexes =
        listing.alternateIndexes ++ (entries.map Prod.fst).filter isAlternateIndex ∧
      ∃ found, listing'.shards = listing.shards ++ found ∧
        List.Forall₂ (Inspected codec)
          (entries.filter fun entry => hasSafetensorsSuffix entry.1) found := by
  induction entries generalizing listing with
  | nil =>
    cases (pure_eq_ok.1 h)
    exact ⟨by simp, [], by simp, by simp⟩
  | cons entry entries ih =>
    rw [List.foldlM_cons, bind_eq_ok] at h
    obtain ⟨mid, hentry, hrest⟩ := h
    obtain ⟨halternate, hfound⟩ := scanEntry_eq_ok hentry
    obtain ⟨halternates, found, hshards, hall⟩ := ih hrest
    refine ⟨?_, ?_⟩
    · rw [halternates, halternate, List.append_assoc, ← List.filter_append]
      rfl
    · rcases hfound with ⟨hsuffix, hsame⟩ | ⟨bytes, shard, hsuffix, hsafe, hnode, hshard, hnew⟩
      · exact ⟨found, by rw [hshards, hsame], by simpa [hsuffix] using hall⟩
      · refine ⟨(entry.1, shard) :: found, by rw [hshards, hnew, List.append_assoc]; rfl, ?_⟩
        rw [List.filter_cons_of_pos (by simpa using hsuffix)]
        exact .cons ⟨rfl, hsafe, bytes, hnode, hshard⟩ hall

/-- Entries that are neither weight files nor indexes change nothing. -/
theorem scan_filter {codec : Codec} {entries : List (PathName × Node)}
    (halternate : ∀ entry ∈ entries, isAlternateIndex entry.1 = false) (listing : Listing) :
    entries.foldlM (scanEntry codec) listing =
      (entries.filter fun entry => hasSafetensorsSuffix entry.1).foldlM
        (scanEntry codec) listing := by
  induction entries generalizing listing with
  | nil => rfl
  | cons entry entries ih =>
    have hrest := ih fun e he => halternate e (List.mem_cons_of_mem _ he)
    by_cases hsuffix : hasSafetensorsSuffix entry.1 = true
    · rw [List.filter_cons_of_pos (by simpa using hsuffix), List.foldlM_cons, List.foldlM_cons]
      exact congrArg _ (funext hrest)
    · have hskip : scanEntry codec listing entry = .ok listing := by
        have hno := halternate entry List.mem_cons_self
        simp [scanEntry, hno, Bool.eq_false_iff.2 hsuffix, pure, Except.pure]
      rw [List.filter_cons_of_neg (by simpa using hsuffix), List.foldlM_cons, hskip]
      exact hrest listing

/-- The index of a plan is the one of its directory, and the selected files are all there are. -/
theorem selectShards_eq_ok {codec : Codec} {listing : Listing} {index : Option Node}
    {plan : CheckpointPlan} (h : selectShards codec listing index = .ok plan) :
    listing.alternateIndexes = [] ∧ plan.snapshots = listing.shards ∧
      ((index = none ∧ plan.indexContent = none) ∨
        ∃ bytes, index = some (.leaf (.file bytes)) ∧
          plan.indexContent = some (contentOf codec bytes)) := by
  simp only [selectShards, bind_eq_ok, ensure_eq_ok] at h
  obtain ⟨-, halternate, h⟩ := h
  refine ⟨halternate, ?_⟩
  cases index with
  | none =>
    simp only [selectSingle, bind_eq_ok, ensure_eq_ok, pure_eq_ok] at h
    obtain ⟨selected, ⟨-, -, rfl⟩, -, -, rfl⟩ := h
    exact ⟨rfl, .inl ⟨rfl, rfl⟩⟩
  | some node =>
    simp only [selectIndexed, bind_eq_ok, ensure_eq_ok, pure_eq_ok, readBounded_eq_ok] at h
    obtain ⟨bytes, ⟨rfl, -⟩, selected, hselected, -, -, rfl⟩ := h
    obtain ⟨-, -, -, -, -, -, -, -, indexed, -, -, -, -, hall, rfl⟩ := hselected
    refine ⟨List.filter_eq_self.2 fun entry hentry => ?_, .inr ⟨bytes, rfl, rfl⟩⟩
    simpa using List.find?_eq_none.1 hall entry hentry

/-- What a plan says of its directory. -/
theorem checkpointPlan_eq_ok {codec : Codec} {d : Directory} {plan : CheckpointPlan}
    (h : checkpointPlan codec d = .ok plan) :
    (∀ entry ∈ d.sorted, isAlternateIndex entry.1 = false) ∧
      List.Forall₂ (Inspected codec)
        (d.sorted.filter fun entry => hasSafetensorsSuffix entry.1) plan.snapshots ∧
      ((d.get INDEX_NAME = none ∧ plan.indexContent = none) ∨
        ∃ bytes, d.content INDEX_NAME = some bytes ∧
          plan.indexContent = some (contentOf codec bytes)) := by
  rw [checkpointPlan, bind_eq_ok] at h
  obtain ⟨listing, hscan, hselect⟩ := h
  obtain ⟨halternates, found, hshards, hall⟩ := scan_eq_ok hscan
  obtain ⟨hnone, hsnapshots, hindex⟩ := selectShards_eq_ok hselect
  refine ⟨fun entry hentry => ?_, ?_, ?_⟩
  · rw [halternates, List.nil_append, List.filter_eq_nil_iff] at hnone
    simpa using hnone entry.1 (List.mem_map.2 ⟨entry, hentry, rfl⟩)
  · rw [hsnapshots, hshards]
    exact hall
  · simpa only [Directory.content_eq_some] using hindex

/-- The plan depends on the weight files and the index of the directory. -/
theorem checkpointPlan_congr {codec : Codec} {d d' : Directory} {plan : CheckpointPlan}
    (h : checkpointPlan codec d = .ok plan)
    (halternate : ∀ entry ∈ d'.sorted, isAlternateIndex entry.1 = false)
    (hsame : ∀ name, hasSafetensorsSuffix name = true ∨ name = INDEX_NAME →
      d'.get name = d.get name) : checkpointPlan codec d' = .ok plan := by
  have hnone := (checkpointPlan_eq_ok h).1
  rw [checkpointPlan, scan_filter hnone] at h
  rw [checkpointPlan, scan_filter halternate,
    Directory.filter_sorted_congr fun name hname => hsame name (.inl hname),
    hsame INDEX_NAME (.inr rfl)]
  exact h

end Import

end Emelex
