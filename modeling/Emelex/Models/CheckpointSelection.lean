import Emelex.Models.Checkpoint
import Mathlib.Data.List.Pairwise

/-!
# The checkpoint that is selected is the whole one

* `Whole` — every weight file of a directory is a good one, and no tensor is in two of them.
* `Indexes` — the weight map is the table of which file owns which tensor.
* `Counted` — what the accumulators of the loop say of the files that were inspected.

Principal result: `checkpoint_planned_iff`.
-/

set_option autoImplicit false

namespace Emelex

open Checks

namespace Import

variable {codec : Codec} {d : Directory} {shards : List (PathName × PlannedShard)}
  {listing listing' : Listing} {entry : PathName × Node}

/-! ## Specification -/

/-- The file that owns a tensor. -/
def Owns (shards : List (PathName × PlannedShard)) (tensor : String) (name : PathName) : Prop :=
  ∃ shard, (name, shard) ∈ shards ∧ tensor ∈ shard.names

/-- The names of all tensors. -/
def allTensors (shards : List (PathName × PlannedShard)) : List String :=
  shards.flatMap fun shard => shard.2.names

/-- The limits of a checkpoint, and that its files have no tensor in common. -/
structure Bounded (shards : List (PathName × PlannedShard)) : Prop where
  count : shards.length ≤ MAX_CHECKPOINT_SHARDS
  headers : (shards.map fun shard => shard.2.headerBytes).sum ≤ MAX_AGGREGATE_HEADER_BYTES
  tensors : (allTensors shards).length ≤ MAX_CHECKPOINT_TENSORS
  apart : (allTensors shards).Nodup

/-- The files are those of the directory, in the order of their names, and there is one index at
most. -/
structure Whole (codec : Codec) (d : Directory) (shards : List (PathName × PlannedShard)) :
    Prop where
  variants : ∀ entry ∈ d.sorted, isAlternateIndex entry.1 = false
  inspected : List.Forall₂ (Inspected codec)
    (d.sorted.filter fun entry => hasSafetensorsSuffix entry.1) shards
  bounded : Bounded shards
  bytes : (shards.map fun shard => shard.2.bytes).sum < U64_LIMIT

/-- The weight map of an index is the table of the owners. -/
structure Indexes (codec : Codec) (shards : List (PathName × PlannedShard)) (bytes : Bytes)
    (weightMap : List (String × Json)) : Prop where
  parsed : ∃ index, codec.parseJson bytes = .ok index ∧
    (index.get "weight_map").bind Json.asObject = some weightMap
  some : weightMap ≠ []
  count : weightMap.length ≤ MAX_CHECKPOINT_TENSORS
  owners : ∀ tensor value, (tensor, value) ∈ weightMap ↔
    ∃ name, value = .string (String.ofList name) ∧ Owns shards tensor name

/-- What the accumulators of the loop say of the files that were inspected. -/
structure Counted (listing : Listing) : Prop where
  headers : listing.aggregateHeaderBytes =
    (listing.shards.map fun shard => shard.2.headerBytes).sum
  owned : (listing.tensorOwner.map Prod.fst).Perm (allTensors listing.shards)

/-- What is known of the files that were inspected. -/
structure Sound (shards : List (PathName × PlannedShard)) : Prop where
  names : (shards.map Prod.fst).Nodup
  safe : ∀ shard ∈ shards, safeSingleComponent shard.1 = true ∧
    hasSafetensorsSuffix shard.1 = true
  tensors : ∀ shard ∈ shards, shard.2.names ≠ [] ∧ ∀ path, ∀ tensor ∈ shard.2.names,
    validateTensorName path tensor = .ok ()

/-! ## The loop over the entries -/

theorem allTensors_append (xs ys : List (PathName × PlannedShard)) :
    allTensors (xs ++ ys) = allTensors xs ++ allTensors ys :=
  List.flatMap_append

theorem lookup_eq_none {tensor : String} {owner : List (String × PathName)} :
    List.lookup tensor owner = none ↔ tensor ∉ owner.map Prod.fst := by
  rw [List.lookup_eq_none_iff]
  simp only [bne_iff_ne, ne_eq, List.mem_map, not_exists, not_and]
  constructor
  · rintro hnone entry hentry rfl
    exact hnone entry hentry rfl
  · rintro hnone entry hentry rfl
    exact hnone entry hentry rfl

/-- The tensors of a file are its own where they are new, and each is named once. -/
theorem ownTensors_eq_ok {name : PathName} {owner owner' : List (String × PathName)}
    {tensors : List String} : ownTensors name owner tensors = .ok owner' ↔
      tensors.Nodup ∧ (∀ tensor ∈ tensors, tensor ∉ owner.map Prod.fst) ∧
        owner' = (tensors.map fun tensor => (tensor, name)).reverse ++ owner := by
  induction tensors generalizing owner with
  | nil =>
    simp only [ownTensors]
    constructor
    · rintro ⟨⟩
      exact ⟨List.nodup_nil, fun tensor h => absurd h List.not_mem_nil, rfl⟩
    · rintro ⟨-, -, rfl⟩
      rfl
  | cons tensor tensors ih =>
    simp only [ownTensors, bind_eq_ok, ensure_eq_ok, lookup_eq_none, ih]
    constructor
    · rintro ⟨-, hnew, hnodup, hothers, rfl⟩
      refine ⟨List.nodup_cons.2 ⟨?_, hnodup⟩, ?_, ?_⟩
      · intro hmem
        exact hothers tensor hmem List.mem_cons_self
      · intro other hother
        rcases List.mem_cons.1 hother with rfl | hother
        · exact hnew
        · exact fun hmem => hothers other hother (List.mem_cons_of_mem _ hmem)
      · simp
    · rintro ⟨hnodup, hnew, rfl⟩
      obtain ⟨hfirst, hnodup⟩ := List.nodup_cons.1 hnodup
      refine ⟨(), hnew tensor List.mem_cons_self, hnodup, ?_, ?_⟩
      · intro other hother hmem
        rcases List.mem_cons.1 hmem with rfl | hmem
        · exact hfirst hother
        · exact hnew other (List.mem_cons_of_mem _ hother) hmem
      · simp

/-- The listing with a name that may be a variant of the index. -/
def mark (listing : Listing) (name : PathName) : Listing :=
  if isAlternateIndex name then
    { listing with alternateIndexes := listing.alternateIndexes ++ [name] } else listing

theorem mark_shards (listing : Listing) (name : PathName) :
    (mark listing name).shards = listing.shards := by
  unfold mark
  split <;> rfl

theorem mark_tensorOwner (listing : Listing) (name : PathName) :
    (mark listing name).tensorOwner = listing.tensorOwner := by
  unfold mark
  split <;> rfl

theorem mark_aggregateHeaderBytes (listing : Listing) (name : PathName) :
    (mark listing name).aggregateHeaderBytes = listing.aggregateHeaderBytes := by
  unfold mark
  split <;> rfl

theorem Counted.mark (hcounted : Counted listing) (name : PathName) :
    Counted (mark listing name) := by
  unfold Import.mark
  split
  · exact ⟨hcounted.headers, hcounted.owned⟩
  · exact hcounted

/-- One turn of the loop at an entry that is no weight file. -/
theorem scanEntry_other (hsuffix : hasSafetensorsSuffix entry.1 = false) :
    scanEntry codec listing entry = .ok (mark listing entry.1) := by
  obtain ⟨name, node⟩ := entry
  exact if_pos hsuffix

/-- One turn of the loop at a weight file. -/
theorem scanEntry_weights (hsuffix : hasSafetensorsSuffix entry.1 = true) :
    scanEntry codec listing entry = .ok listing' ↔ ∃ shard,
      Inspected codec entry (entry.1, shard) ∧
      listing.shards.length ≠ MAX_CHECKPOINT_SHARDS ∧
      listing.aggregateHeaderBytes + shard.headerBytes ≤ MAX_AGGREGATE_HEADER_BYTES ∧
      listing.tensorOwner.length + shard.names.length ≤ MAX_CHECKPOINT_TENSORS ∧
      shard.names.Nodup ∧ (∀ tensor ∈ shard.names, tensor ∉ listing.tensorOwner.map Prod.fst) ∧
      listing' = {
        shards := listing.shards ++ [(entry.1, shard)]
        tensorOwner :=
          (shard.names.map fun tensor => (tensor, entry.1)).reverse ++ listing.tensorOwner
        aggregateHeaderBytes := listing.aggregateHeaderBytes + shard.headerBytes
        alternateIndexes := (mark listing entry.1).alternateIndexes } := by
  obtain ⟨name, node⟩ := entry
  have hnot : ¬ hasSafetensorsSuffix name = false := by
    rw [hsuffix]
    exact Bool.noConfusion
  rw [show scanEntry codec listing (name, node) = _ from if_neg hnot,
    show (if isAlternateIndex name = true then
      { listing with alternateIndexes := listing.alternateIndexes ++ [name] } else listing) =
        mark listing name from rfl]
  simp only [bind_eq_ok, ensure_eq_ok, openRegular_eq_ok, pure_eq_ok, ownTensors_eq_ok,
    mark_shards, mark_tensorOwner, mark_aggregateHeaderBytes]
  constructor
  · rintro ⟨-, hcount, -, hsafe, bytes, hnode, shard, hshard, -, hheaders, -, htensors, owner,
      ⟨hnodup, hnew, rfl⟩, rfl⟩
    exact ⟨shard, ⟨rfl, hsafe, bytes, hnode, hshard⟩, hcount, hheaders, htensors, hnodup, hnew, rfl⟩
  · rintro ⟨shard, ⟨-, hsafe, bytes, hnode, hshard⟩, hcount, hheaders, htensors, hnodup, hnew, rfl⟩
    exact ⟨(), hcount, (), hsafe, bytes, hnode, shard, hshard, (), hheaders, (), htensors, _,
      ⟨hnodup, hnew, rfl⟩, rfl⟩

theorem Bounded.left {xs ys : List (PathName × PlannedShard)} (h : Bounded (xs ++ ys)) :
    Bounded xs := by
  obtain ⟨hcount, hheaders, htensors, hapart⟩ := h
  rw [List.length_append] at hcount
  rw [List.map_append, List.sum_append] at hheaders
  rw [allTensors_append] at htensors hapart
  rw [List.length_append] at htensors
  exact ⟨by omega, by omega, by omega, hapart.of_append_left⟩

/-- The limits are checked for what has been listed, one file at a time. -/
theorem bounded_snoc (hcounted : Counted listing) {name : PathName} {shard : PlannedShard}
    (hbounded : Bounded listing.shards) :
    Bounded (listing.shards ++ [(name, shard)]) ↔
      listing.shards.length ≠ MAX_CHECKPOINT_SHARDS ∧
      listing.aggregateHeaderBytes + shard.headerBytes ≤ MAX_AGGREGATE_HEADER_BYTES ∧
      listing.tensorOwner.length + shard.names.length ≤ MAX_CHECKPOINT_TENSORS ∧
      shard.names.Nodup ∧ ∀ tensor ∈ shard.names, tensor ∉ listing.tensorOwner.map Prod.fst := by
  have hlength : listing.tensorOwner.length = (allTensors listing.shards).length := by
    rw [← hcounted.owned.length_eq, List.length_map]
  have hall : allTensors (listing.shards ++ [(name, shard)]) =
      allTensors listing.shards ++ shard.names := by
    rw [allTensors_append]
    simp [allTensors]
  have hcount := hbounded.count
  constructor
  · rintro ⟨hcount', hheaders, htensors, hapart⟩
    rw [hall] at htensors hapart
    rw [List.length_append] at hcount' htensors
    rw [List.map_append, List.sum_append] at hheaders
    simp only [List.length_singleton, List.map_cons, List.map_nil, List.sum_cons,
      List.sum_nil] at hcount' hheaders
    refine ⟨by omega, ?_, by omega, hapart.of_append_right, ?_⟩
    · rw [hcounted.headers]
      omega
    · intro tensor hmem howned
      exact List.disjoint_of_nodup_append hapart (hcounted.owned.mem_iff.1 howned) hmem
  · rintro ⟨hroom, hheaders, htensors, hnodup, hnew⟩
    rw [hcounted.headers] at hheaders
    refine ⟨?_, ?_, ?_, ?_⟩
    · rw [List.length_append, List.length_singleton]
      omega
    · rw [List.map_append, List.sum_append]
      simpa using hheaders
    · rw [hall, List.length_append]
      omega
    · rw [hall]
      refine hbounded.apart.append hnodup ?_
      intro tensor howned hmem
      exact hnew tensor hmem (hcounted.owned.mem_iff.2 howned)

/-- The accumulators after one more file. -/
theorem counted_snoc (hcounted : Counted listing) (name : PathName) (shard : PlannedShard)
    (alternateIndexes : List PathName) : Counted {
      shards := listing.shards ++ [(name, shard)]
      tensorOwner := (shard.names.map fun tensor => (tensor, name)).reverse ++ listing.tensorOwner
      aggregateHeaderBytes := listing.aggregateHeaderBytes + shard.headerBytes
      alternateIndexes } := by
  constructor
  · simp [hcounted.headers]
  · have hnames : ((shard.names.map fun tensor => (tensor, name)).reverse ++
        listing.tensorOwner).map Prod.fst = shard.names.reverse ++
          listing.tensorOwner.map Prod.fst := by
      simp [Function.comp_def]
    have hall : allTensors (listing.shards ++ [(name, shard)]) =
        allTensors listing.shards ++ shard.names := by
      rw [allTensors_append]
      simp [allTensors]
    rw [hnames, hall]
    exact ((List.reverse_perm _).append hcounted.owned).trans List.perm_append_comm

/-- The loop leaves a listing within the limits. -/
theorem scan_bounded {entries : List (PathName × Node)} (hcounted : Counted listing)
    (hbounded : Bounded listing.shards)
    (h : entries.foldlM (scanEntry codec) listing = .ok listing') : Bounded listing'.shards := by
  induction entries generalizing listing with
  | nil =>
    cases (pure_eq_ok.1 h)
    exact hbounded
  | cons entry entries ih =>
    rw [List.foldlM_cons, bind_eq_ok] at h
    obtain ⟨mid, hentry, hrest⟩ := h
    by_cases hsuffix : hasSafetensorsSuffix entry.1 = true
    · obtain ⟨shard, -, hroom, hheaders, htensors, hnodup, hnew, rfl⟩ :=
        (scanEntry_weights hsuffix).1 hentry
      exact ih (counted_snoc hcounted _ _ _)
        ((bounded_snoc hcounted hbounded).2 ⟨hroom, hheaders, htensors, hnodup, hnew⟩) hrest
    · rw [scanEntry_other (Bool.eq_false_iff.2 hsuffix)] at hentry
      cases hentry
      refine ih (hcounted.mark _) ?_ hrest
      rw [mark_shards]
      exact hbounded

/-- Good files within the limits are listed. -/
theorem scan_of_bounded {entries : List (PathName × Node)}
    {found : List (PathName × PlannedShard)} (hcounted : Counted listing)
    (hinspected : List.Forall₂ (Inspected codec)
      (entries.filter fun entry => hasSafetensorsSuffix entry.1) found)
    (hbounded : Bounded (listing.shards ++ found)) :
    ∃ listing', entries.foldlM (scanEntry codec) listing = .ok listing' := by
  induction entries generalizing listing found with
  | nil => exact ⟨listing, rfl⟩
  | cons entry entries ih =>
    by_cases hsuffix : hasSafetensorsSuffix entry.1 = true
    · rw [List.filter_cons_of_pos (by simpa using hsuffix)] at hinspected
      obtain ⟨⟨name, shard⟩, rest, hfirst, hrest, rfl⟩ := List.forall₂_cons_left_iff.1 hinspected
      obtain rfl : name = entry.1 := hfirst.1
      have hsplit : listing.shards ++ (entry.1, shard) :: rest =
          (listing.shards ++ [(entry.1, shard)]) ++ rest := by simp
      rw [hsplit] at hbounded
      obtain ⟨hroom, hheaders, htensors, hnodup, hnew⟩ :=
        (bounded_snoc hcounted hbounded.left.left).1 hbounded.left
      obtain ⟨mid, hscan, hmid, hshards⟩ : ∃ mid, scanEntry codec listing entry = .ok mid ∧
          Counted mid ∧ mid.shards = listing.shards ++ [(entry.1, shard)] :=
        ⟨_, (scanEntry_weights hsuffix).2 ⟨shard, hfirst, hroom, hheaders, htensors, hnodup, hnew,
          rfl⟩, counted_snoc hcounted _ _ _, rfl⟩
      rw [← hshards] at hbounded
      obtain ⟨listing', hlisting'⟩ := ih hmid hrest hbounded
      refine ⟨listing', ?_⟩
      rw [List.foldlM_cons, bind_eq_ok]
      exact ⟨mid, hscan, hlisting'⟩
    · rw [List.filter_cons_of_neg (by simpa using hsuffix)] at hinspected
      have hmarked : Bounded ((mark listing entry.1).shards ++ found) := by
        rw [mark_shards]
        exact hbounded
      obtain ⟨listing', hlisting'⟩ := ih (hcounted.mark entry.1) hinspected hmarked
      refine ⟨listing', ?_⟩
      rw [List.foldlM_cons, bind_eq_ok]
      exact ⟨_, scanEntry_other (Bool.eq_false_iff.2 hsuffix), hlisting'⟩

/-! ## The files that were inspected -/

/-- The tensors of a file have names. -/
theorem named_of_inspected {path : PathName} {bytes : Bytes} {shard : PlannedShard}
    (h : inspectSafetensorsLayout codec path bytes = .ok shard) :
    shard.names ≠ [] ∧ ∀ path, ∀ tensor ∈ shard.names, validateTensorName path tensor = .ok () := by
  simp only [inspectSafetensorsLayout, bind_eq_ok, ensure_eq_ok, required_eq_ok, pure_eq_ok] at h
  obtain ⟨-, -, -, -, value, -, object, -, -, -, tensors, htensors, -, hne, -, -, rfl⟩ := h
  constructor
  · simpa using hne
  · intro path' tensor htensor
    obtain ⟨range, hrange, rfl⟩ := List.mem_map.1 htensor
    obtain ⟨found, hfound, hsome⟩ := List.mem_filterMap.1 hrange
    obtain ⟨field, -, hfield⟩ := exists_of_mem_right (mapM_eq_ok.1 htensors) hfound
    obtain rfl : found = some range := hsome
    simp only [inspectField] at hfield
    split at hfield
    · simp only [bind_eq_ok, pure_eq_ok] at hfield
      obtain ⟨-, -, -, -, hnone⟩ := hfield
      cases hnone
    · simp only [inspectTensor, bind_eq_ok, pure_eq_ok] at hfield
      obtain ⟨span, ⟨_, hname, _⟩, hsame⟩ := hfield
      cases hsame
      unfold validateTensorName at hname ⊢
      rw [ensure_eq_ok] at hname ⊢
      exact hname

theorem names_of_inspected {entries : List (PathName × Node)}
    (h : List.Forall₂ (Inspected codec) entries shards) :
    shards.map Prod.fst = entries.map Prod.fst := by
  induction h with
  | nil => rfl
  | cons hfirst _ ih => rw [List.map_cons, List.map_cons, ih, hfirst.1]

theorem sound_of_inspected (hinspected : List.Forall₂ (Inspected codec)
    (d.sorted.filter fun entry => hasSafetensorsSuffix entry.1) shards) : Sound shards := by
  constructor
  · rw [names_of_inspected hinspected]
    have hkeys : (d.sorted.map Prod.fst).Nodup :=
      ((List.perm_insertionSort _ d.entries).map Prod.fst).nodup_iff.2 d.nodup
    exact hkeys.sublist (List.filter_sublist.map Prod.fst)
  · intro shard hshard
    obtain ⟨entry, hentry, hname, hsafe, -⟩ := exists_of_mem_right hinspected hshard
    rw [hname]
    exact ⟨hsafe, (List.mem_filter.1 hentry).2⟩
  · intro shard hshard
    obtain ⟨entry, -, -, -, bytes, -, hlayout⟩ := exists_of_mem_right hinspected hshard
    exact named_of_inspected hlayout

/-- Of files with different names, the one under a name. -/
theorem lookup_eq_some {name : PathName} {shard : PlannedShard}
    (hnames : (shards.map Prod.fst).Nodup) :
    List.lookup name shards = some shard ↔ (name, shard) ∈ shards := by
  induction shards with
  | nil => simp
  | cons first rest ih =>
    obtain ⟨hfirst, hrest⟩ := List.nodup_cons.1 hnames
    rw [List.lookup_cons, List.mem_cons]
    by_cases hname : name = first.1
    · subst hname
      simp only [beq_self_eq_true, Option.some.injEq]
      constructor
      · rintro rfl
        exact .inl rfl
      · rintro (hsame | hmem)
        · exact congrArg Prod.snd hsame.symm
        · exact absurd (List.mem_map.2 ⟨_, hmem, rfl⟩) hfirst
    · rw [beq_false_of_ne hname]
      dsimp only
      rw [ih hrest]
      constructor
      · exact .inr
      · rintro (hsame | hmem)
        · exact absurd (congrArg Prod.fst hsame) hname
        · exact hmem

/-- No tensor is in two files. -/
theorem Owns.unique (happart : (allTensors shards).Nodup) {tensor : String} {a b : PathName}
    (ha : Owns shards tensor a) (hb : Owns shards tensor b) : a = b := by
  obtain ⟨first, hfirst, hin⟩ := ha
  obtain ⟨second, hsecond, hin'⟩ := hb
  by_contra hne
  have hdisjoint := (List.nodup_flatMap.1 happart).2
  have hsymmetric : Std.Symm (Function.onFun List.Disjoint
      fun shard : PathName × PlannedShard => shard.2.names) :=
    ⟨fun _ _ h _ hright hleft => h hleft hright⟩
  refine hdisjoint.forall hfirst hsecond ?_ hin hin'
  intro hsame
  exact hne (congrArg Prod.fst hsame)

/-! ## The index -/

/-- One entry of the weight map names the file that owns the tensor. -/
theorem indexEntry_eq_ok (hsound : Sound shards) {entry : String × Json}
    {found : String × PathName} : indexEntry shards entry = .ok found ↔
      (∃ name, entry.2 = .string (String.ofList name) ∧ Owns shards entry.1 name) ∧
        found = (entry.1, (entry.2.asStr.getD "").toList) := by
  simp only [indexEntry, bind_eq_ok, ensure_eq_ok, required_eq_ok, pure_eq_ok,
    Json.asStr_eq_some, lookup_eq_some hsound.names]
  constructor
  · rintro ⟨-, -, text, htext, -, -, shard, hshard, -, howned, rfl⟩
    refine ⟨⟨text.toList, ?_, shard, hshard, howned⟩, ?_⟩
    · rw [htext, String.ofList_toList]
    · rw [htext]
      rfl
  · rintro ⟨⟨name, hvalue, shard, hshard, howned⟩, rfl⟩
    have htext : (String.ofList name).toList = name := String.toList_ofList
    refine ⟨(), (hsound.tensors _ hshard).2 _ _ howned, _, hvalue, (), ?_, shard, ?_, (), howned,
      ?_⟩
    · rw [htext]
      exact hsound.safe _ hshard
    · rw [htext]
      exact hshard
    · rw [hvalue]
      rfl

theorem ensureIndexed_eq_ok {indexed : List (String × PathName)}
    {shard : PathName × PlannedShard} {u : Unit} : ensureIndexed indexed shard = .ok u ↔
      (∀ tensor ∈ shard.2.names, tensor ∈ indexed.map Prod.fst) ∧ u = () := by
  simp [ensureIndexed]

theorem parse_eq_ok {bytes : Bytes} {f : String → LayoutError} {value : Json} :
    (codec.parseJson bytes).mapError f = .ok value ↔ codec.parseJson bytes = .ok value := by
  cases codec.parseJson bytes <;> simp [Except.mapError]

/-- An index is accepted where its weight map is the table of the owners. -/
theorem selectIndexed_eq_ok (hsound : Sound shards) (happart : (allTensors shards).Nodup)
    {bytes : Bytes} {selected : List (PathName × PlannedShard)} :
    selectIndexed codec shards bytes = .ok selected ↔
      (∃ weightMap, Indexes codec shards bytes weightMap) ∧ selected = shards := by
  have hloop : ∀ (weightMap : List (String × Json)) indexed,
      weightMap.mapM (indexEntry shards) = .ok indexed ↔
      (∀ entry ∈ weightMap, ∃ name, entry.2 = .string (String.ofList name) ∧
        Owns shards entry.1 name) ∧
      indexed = weightMap.map fun entry => (entry.1, (entry.2.asStr.getD "").toList) :=
    fun _ => mapM_eq_ok_map fun _ _ _ => indexEntry_eq_ok hsound
  have hcheck : ∀ indexed (files : List (PathName × PlannedShard)) units,
      files.mapM (ensureIndexed indexed) = .ok units ↔
        (∀ shard ∈ files, ∀ tensor ∈ shard.2.names, tensor ∈ indexed.map Prod.fst) ∧
          units = files.map fun _ => () :=
    fun _ _ => mapM_eq_ok_map fun _ _ _ => ensureIndexed_eq_ok
  simp only [selectIndexed, bind_eq_ok, parse_eq_ok, required_eq_ok, ensure_eq_ok, pure_eq_ok,
    hloop, hcheck]
  constructor
  · rintro ⟨index, hparse, weightMap, hmap, -, hsome, -, hcount, indexed, ⟨hentries, rfl⟩, units,
      ⟨hcovered, -⟩, -, hunselected, rfl⟩
    have hall := fun shard hshard => List.find?_eq_none.1 hunselected shard hshard
    simp only [decide_not, Bool.not_eq_true', Bool.not_eq_false, decide_eq_true_eq] at hall
    refine ⟨⟨weightMap, ⟨index, hparse, hmap⟩, hsome, hcount, ?_⟩, List.filter_eq_self.2 ?_⟩
    · intro tensor value
      constructor
      · exact fun hmem => hentries (tensor, value) hmem
      · rintro ⟨name, rfl, shard, hshard, howned⟩
        have hmem := hcovered (name, shard)
          (List.mem_filter.2 ⟨hshard, decide_eq_true (hall _ hshard)⟩) tensor howned
        rw [List.map_map] at hmem
        obtain ⟨entry, hentry, rfl⟩ := List.mem_map.1 hmem
        obtain ⟨other, hvalue, howns⟩ := hentries entry hentry
        obtain rfl := howns.unique happart ⟨shard, hshard, howned⟩
        rw [← hvalue]
        exact hentry
    · exact fun shard hshard => decide_eq_true (hall shard hshard)
  · rintro ⟨⟨weightMap, ⟨index, hparse, hmap⟩, hsome, hcount, howners⟩, rfl⟩
    have howner : ∀ shard ∈ selected, ∀ tensor ∈ shard.2.names, (tensor, shard.1) ∈
        weightMap.map fun entry => (entry.1, (entry.2.asStr.getD "").toList) := by
      intro shard hshard tensor howned
      refine List.mem_map.2 ⟨(tensor, .string (String.ofList shard.1)),
        (howners _ _).2 ⟨shard.1, rfl, shard.2, hshard, howned⟩, ?_⟩
      exact congrArg (Prod.mk tensor) String.toList_ofList
    have hall : ∀ shard ∈ selected, shard.1 ∈
        (weightMap.map fun entry => (entry.1, (entry.2.asStr.getD "").toList)).map Prod.snd := by
      intro shard hshard
      obtain ⟨tensor, howned⟩ := List.exists_mem_of_ne_nil _ (hsound.tensors shard hshard).1
      exact List.mem_map.2 ⟨_, howner shard hshard tensor howned, rfl⟩
    refine ⟨index, hparse, weightMap, hmap, (), hsome, (), hcount, _,
      ⟨fun entry hentry => (howners entry.1 entry.2).1 hentry, rfl⟩, _, ⟨?_, rfl⟩, (), ?_, ?_⟩
    · intro shard hshard tensor howned
      exact List.mem_map.2 ⟨_, howner shard (List.mem_filter.1 hshard).1 tensor howned, rfl⟩
    · refine List.find?_eq_none.2 ?_
      intro shard hshard
      simpa using hall shard hshard
    · exact List.filter_eq_self.2 fun shard hshard => decide_eq_true (hall shard hshard)

theorem counted_nil : Counted ⟨[], [], 0, []⟩ := ⟨rfl, List.Perm.refl _⟩

theorem bounded_nil : Bounded [] := by
  refine ⟨?_, ?_, ?_, List.nodup_nil⟩ <;> exact Nat.zero_le _

/-- What is read from a file is one thing. -/
theorem inspected_unique {found : List (PathName × PlannedShard)}
    {entries : List (PathName × Node)} (h : List.Forall₂ (Inspected codec) entries shards)
    (h' : List.Forall₂ (Inspected codec) entries found) : shards = found := by
  induction h generalizing found with
  | nil => exact (List.forall₂_nil_left_iff.1 h').symm
  | cons hfirst _ ih =>
    obtain ⟨other, rest, hother, hrest, rfl⟩ := List.forall₂_cons_left_iff.1 h'
    obtain ⟨hname, -, bytes, hnode, hlayout⟩ := hfirst
    obtain ⟨hname', -, bytes', hnode', hlayout'⟩ := hother
    rw [hnode] at hnode'
    cases hnode'
    rw [hlayout] at hlayout'
    rw [ih hrest, Prod.ext (hname.trans hname'.symm) (Except.ok.inj hlayout')]

/-- **The selected checkpoint is the whole one.** There is a plan exactly where every weight file of
the directory is a good one, no two have a tensor in common, there is no variant of the index, and
the index, if there is one, is the table of the owners; without it there is one file at most. -/
theorem checkpoint_planned_iff (codec : Codec) (d : Directory) (plan : CheckpointPlan) :
    checkpointPlan codec d = .ok plan ↔ Whole codec d plan.snapshots ∧
      ((d.get INDEX_NAME = none ∧ plan.indexContent = none ∧
          (plan.files = [SINGLE_NAME] ∨ plan.snapshots = [])) ∨
        ∃ bytes weightMap, d.content INDEX_NAME = some bytes ∧ bytes.length ≤ MAX_INDEX_BYTES ∧
          plan.indexContent = some (contentOf codec bytes) ∧
          Indexes codec plan.snapshots bytes weightMap) := by
  constructor
  · intro h
    obtain ⟨hvariants, hinspected, -⟩ := checkpointPlan_eq_ok h
    rw [checkpointPlan, bind_eq_ok] at h
    obtain ⟨listing, hscan, hselect⟩ := h
    have hshards := (selectShards_eq_ok hselect).2.1
    have hbounded := scan_bounded counted_nil bounded_nil hscan
    have hsound := sound_of_inspected hinspected
    rw [← hshards] at hbounded
    simp only [selectShards, bind_eq_ok, ensure_eq_ok] at hselect
    obtain ⟨-, -, hselect⟩ := hselect
    cases hget : d.get INDEX_NAME with
    | none =>
      rw [hget] at hselect
      simp only [selectSingle, bind_eq_ok, ensure_eq_ok, pure_eq_ok] at hselect
      obtain ⟨selected, ⟨-, hsingle, rfl⟩, -, hbytes, rfl⟩ := hselect
      exact ⟨⟨hvariants, hinspected, hbounded, hbytes⟩, .inl ⟨rfl, rfl, hsingle⟩⟩
    | some node =>
      rw [hget] at hselect
      simp only [bind_eq_ok, ensure_eq_ok, pure_eq_ok, readBounded_eq_ok] at hselect
      obtain ⟨bytes, ⟨rfl, hlimit⟩, selected, hselected, -, hbytes, rfl⟩ := hselect
      rw [← hshards] at hselected
      obtain ⟨⟨weightMap, hindexes⟩, -⟩ := (selectIndexed_eq_ok hsound hbounded.apart).1 hselected
      exact ⟨⟨hvariants, hinspected, hbounded, hbytes⟩, .inr ⟨bytes, weightMap,
        Directory.content_eq_some.2 hget, hlimit, rfl, hindexes⟩⟩
  · rintro ⟨⟨hvariants, hinspected, hbounded, hbytes⟩, hindex⟩
    obtain ⟨snapshots, indexContent⟩ := plan
    dsimp only at hinspected hbounded hbytes hindex
    have hsound := sound_of_inspected hinspected
    obtain ⟨listing, hscan⟩ := scan_of_bounded counted_nil hinspected hbounded
    obtain ⟨halternates, found, hfound, hall⟩ := scan_eq_ok hscan
    obtain rfl := inspected_unique hinspected hall
    have hshards : listing.shards = snapshots := hfound
    have hnone : listing.alternateIndexes = [] := by
      rw [halternates, List.nil_append, List.filter_eq_nil_iff]
      intro name hname
      obtain ⟨entry, hentry, rfl⟩ := List.mem_map.1 hname
      rw [hvariants entry hentry]
      exact Bool.false_ne_true
    rw [checkpointPlan, bind_eq_ok]
    refine ⟨listing, hscan, ?_⟩
    simp only [selectShards, bind_eq_ok, ensure_eq_ok, hshards]
    refine ⟨(), hnone, ?_⟩
    rcases hindex with ⟨hget, rfl, hsingle⟩ | ⟨bytes, weightMap, hcontent, hlimit, rfl, hindexes⟩
    · rw [hget]
      simp only [selectSingle, bind_eq_ok, ensure_eq_ok, pure_eq_ok]
      exact ⟨snapshots, ⟨(), hsingle, rfl⟩, (), hbytes, rfl⟩
    · rw [Directory.content_eq_some.1 hcontent]
      simp only [bind_eq_ok, ensure_eq_ok, pure_eq_ok, readBounded_eq_ok]
      exact ⟨bytes, ⟨rfl, hlimit⟩, snapshots,
        (selectIndexed_eq_ok hsound hbounded.apart).2 ⟨⟨weightMap, hindexes⟩, rfl⟩, (), hbytes, rfl⟩

end Import

end Emelex
