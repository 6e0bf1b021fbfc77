import Emelex.Lib.Ranges
import Emelex.Models.Checkpoint
import Mathlib.Algebra.BigOperators.Group.List.Basic

/-!
# Well-formed weight files

* `Tensor`, `Describes` — what a field of a header says of a tensor.
* `Described` — the tensors of a file, each of them right on its own.
* `WellFormed` — there are tensors, and no two of them share a byte.
* `Slips` — a shape that overflows before a zero, or an empty tensor within another.

Principal results: `accepted_iff_wellFormed`, `layout_accepted_iff`.
-/

set_option autoImplicit false

namespace Emelex

open Checks

namespace Import

/-! ## Tensors -/

/-- A tensor of a header. -/
structure Tensor where
  name : String
  start : Nat
  stop : Nat
  width : Nat
  dims : List Nat

/-- A field of a header that describes a tensor with a payload of so many bytes. -/
structure Describes (payloadLen : Nat) (field : String × Json) (t : Tensor) : Prop where
  name : t.name = field.1
  named : t.name ≠ "" ∧ t.name.utf8ByteSize ≤ MAX_TENSOR_NAME_BYTES ∧ '\x00' ∉ t.name.toList
  offsets : field.2.get "data_offsets" =
    some (.array [.number (.posInt t.start), .number (.posInt t.stop)])
  dtype : ∃ dtype, field.2.get "dtype" = some (.string dtype) ∧ tensorByteWidth dtype = some t.width
  shape : field.2.get "shape" = some (.array (t.dims.map fun d => .number (.posInt d)))
  rank : t.dims.length ≤ MAX_TENSOR_RANK
  dims : ∀ d ∈ t.dims, d ≤ I32_MAX
  range : t.start ≤ t.stop ∧ t.stop ≤ payloadLen
  bytes : t.dims.prod * t.width < U64_LIMIT ∧ t.stop - t.start = t.dims.prod * t.width

/-- Some first dimensions have a product of `2 ^ 64` or more. -/
def Tensor.Overflows (t : Tensor) : Prop := ∃ k, U64_LIMIT ≤ (t.dims.take k).prod

/-- The product of a shape, dimension by dimension. -/
theorem shape_foldlM_eq_ok {path : PathName} {name : String} {shape : List Json} {product n : Nat}
    (hproduct : product < U64_LIMIT) :
    shape.foldlM (shapeElements path name) product = .ok n ↔
      ∃ dims : List Nat, shape = dims.map (fun d => Json.number (.posInt d)) ∧
        (∀ d ∈ dims, d ≤ I32_MAX) ∧ (∀ k, product * (dims.take k).prod < U64_LIMIT) ∧
        n = product * dims.prod := by
  induction shape generalizing product with
  | nil =>
    rw [List.foldlM_nil, pure_eq_ok]
    constructor
    · rintro rfl
      exact ⟨[], rfl, fun d hd => absurd hd List.not_mem_nil, fun k => by simpa using hproduct,
        by simp⟩
    · rintro ⟨dims, hshape, -, -, rfl⟩
      obtain rfl := List.map_eq_nil_iff.1 hshape.symm
      simp
  | cons first shape ih =>
    simp only [List.foldlM_cons, bind_eq_ok, shapeElements, required_eq_ok, ensure_eq_ok,
      pure_eq_ok]
    constructor
    · rintro ⟨next, ⟨d, hd, _, hmax, _, hnext, rfl⟩, hrest⟩
      obtain ⟨dims, rfl, hdims, hproducts, rfl⟩ := (ih hnext).1 hrest
      refine ⟨d :: dims, ?_, List.forall_mem_cons.2 ⟨hmax, hdims⟩, fun k => ?_, ?_⟩
      · rw [List.map_cons, Json.asU64_eq_some.1 hd]
      · cases k with
        | zero => simpa using hproduct
        | succ k =>
          rw [List.take_succ_cons, List.prod_cons, ← Nat.mul_assoc]
          exact hproducts k
      · rw [List.prod_cons, Nat.mul_assoc]
    · rintro ⟨dims, hshape, hdims, hproducts, rfl⟩
      cases dims with
      | nil => cases hshape
      | cons d dims =>
        obtain ⟨rfl, rfl⟩ := List.cons.inj hshape
        have hnext : product * d < U64_LIMIT := by simpa using hproducts 1
        refine ⟨product * d, ⟨d, rfl, (), hdims d List.mem_cons_self, (), hnext, rfl⟩, ?_⟩
        refine (ih hnext).2 ⟨dims, rfl, fun d' hd' => hdims d' (List.mem_cons_of_mem _ hd'),
          fun k => ?_, ?_⟩
        · have hk := hproducts (k + 1)
          rwa [List.take_succ_cons, List.prod_cons, ← Nat.mul_assoc] at hk
        · rw [List.prod_cons, Nat.mul_assoc]

/-- A tensor is accepted where it is described and its shape does not overflow. -/
theorem inspectTensor_eq_ok {path : PathName} {payloadLen : Nat} {field : String × Json}
    {range : Nat × Nat} :
    inspectTensor path payloadLen field.1 field.2 = .ok range ↔
      ∃ t, Describes payloadLen field t ∧ ¬ t.Overflows ∧ range = (t.start, t.stop) := by
  obtain ⟨name, descriptor⟩ := field
  simp only [inspectTensor, validateTensorName, bind_eq_ok, ensure_eq_ok, required_eq_ok,
    pure_eq_ok, Option.bind_eq_some_iff, Json.asArray_eq_some, Json.asStr_eq_some,
    Json.asU64_eq_some, Json.asObject_eq_some]
  constructor
  · rintro ⟨_, hname, fields, hobject, offsets, ⟨_, hoffsets, rfl⟩, _, htwo, start,
      ⟨_, hstart, rfl⟩, stop, ⟨_, hstop, rfl⟩, _, hrange, dtype, ⟨_, hdtype, rfl⟩, width, hwidth,
      shape, ⟨_, hshape, rfl⟩, _, hrank, elements, helements, _, hlimit, _, hbytes, rfl⟩
    obtain ⟨dims, rfl, hdims, hproducts, rfl⟩ := (shape_foldlM_eq_ok (by decide)).1 helements
    rw [Nat.one_mul] at hlimit hbytes
    refine ⟨⟨name, start, stop, width, dims⟩, ⟨rfl, hname, ?_, ⟨dtype, hdtype, hwidth⟩, hshape,
      by rwa [List.length_map] at hrank, hdims, hrange, hlimit, hbytes⟩, ?_, rfl⟩
    · obtain ⟨a, b, rfl⟩ := List.length_eq_two.1 htwo
      rw [hoffsets, Option.some.inj hstart, Option.some.inj hstop]
    · rintro ⟨k, hk⟩
      have hproduct := hproducts k
      rw [Nat.one_mul] at hproduct
      exact absurd hproduct (Nat.not_lt.2 hk)
  · rintro ⟨t, ht, hoverflows, rfl⟩
    obtain ⟨dtype, hdtype, hwidth⟩ := ht.dtype
    have hname : t.name = name := ht.name
    have hobject : ∃ fields, descriptor = .object fields := by
      have hoffsets := ht.offsets
      cases descriptor with
      | object fields => exact ⟨fields, rfl⟩
      | _ => cases hoffsets
    obtain ⟨fields, hobject⟩ := hobject
    refine ⟨(), hname ▸ ht.named, fields, hobject, _, ⟨_, ht.offsets, rfl⟩, (), rfl, t.start,
      ⟨_, rfl, rfl⟩, t.stop, ⟨_, rfl, rfl⟩, (), ht.range, dtype, ⟨_, hdtype, rfl⟩, t.width, hwidth,
      _, ⟨_, ht.shape, rfl⟩, (), by rw [List.length_map]; exact ht.rank, t.dims.prod, ?_, (),
      ht.bytes.1, (), ht.bytes.2, rfl⟩
    refine (shape_foldlM_eq_ok (by decide)).2 ⟨t.dims, rfl, ht.dims, fun k => ?_, ?_⟩
    · rw [Nat.one_mul]
      exact Nat.not_le.1 fun hk => hoverflows ⟨k, hk⟩
    · rw [Nat.one_mul]

/-! ## Files -/

/-- The number of bytes of the header. -/
def headerLength (bytes : Bytes) : Nat := littleEndian (bytes.take 8)

/-- The header. -/
def headerBytes (bytes : Bytes) : Bytes := (bytes.drop 8).take (headerLength bytes)

/-- Metadata is an object of strings. -/
def IsMetadata (value : Json) : Prop :=
  ∃ entries, value = .object entries ∧ ∀ entry ∈ entries, ∃ s, entry.2 = .string s

/-- The fields of a header that are tensors. -/
def tensorFields (fields : List (String × Json)) : List (String × Json) :=
  fields.filter fun field => field.1 ≠ "__metadata__"

/-- A file with a header that describes some tensors. -/
structure Described (codec : Codec) (bytes : Bytes) (tensors : List Tensor) : Prop where
  prefixed : 8 ≤ bytes.length
  length : headerLength bytes ≠ 0 ∧ headerLength bytes ≤ MAX_SAFETENSORS_HEADER_BYTES ∧
    headerLength bytes ≤ bytes.length - 8
  object : ∃ fields, codec.parseJson (headerBytes bytes) = .ok (.object fields) ∧
    fields.length ≤ MAX_CHECKPOINT_TENSORS + 1 ∧
    (∀ field ∈ fields, field.1 = "__metadata__" → IsMetadata field.2) ∧
    List.Forall₂ (Describes (bytes.length - 8 - headerLength bytes)) (tensorFields fields) tensors

/-- The bytes that a tensor takes up. -/
def Tensor.span (t : Tensor) : Set Nat := Set.Ico t.start t.stop

/-- A header that describes tensors, of which no two share a byte. -/
def WellFormed (codec : Codec) (bytes : Bytes) : Prop :=
  ∃ tensors, Described codec bytes tensors ∧ tensors ≠ [] ∧
    tensors.Pairwise fun a b => Disjoint a.span b.span

/-- The file is accepted. -/
def Accepted (codec : Codec) (path : PathName) (bytes : Bytes) : Prop :=
  ∃ shard, inspectSafetensorsLayout codec path bytes = .ok shard

/-- What is collected of a tensor. -/
def Tensor.entry (t : Tensor) : String × Nat × Nat := (t.name, t.start, t.stop)

theorem inspectField_metadata {path : PathName} {payloadLen : Nat} {field : String × Json}
    (h : field.1 = "__metadata__") {range : Option (String × Nat × Nat)} :
    inspectField path payloadLen field = .ok range ↔ IsMetadata field.2 ∧ range = none := by
  unfold inspectField IsMetadata
  rw [if_pos h]
  simp only [bind_eq_ok, ensure_eq_ok, required_eq_ok, pure_eq_ok, Json.asObject_eq_some,
    List.all_eq_true, Option.isSome_iff_exists, Json.asStr_eq_some]
  constructor
  · rintro ⟨entries, hobject, _, hstrings, rfl⟩
    exact ⟨⟨entries, hobject, hstrings⟩, rfl⟩
  · rintro ⟨⟨entries, hobject, hstrings⟩, rfl⟩
    exact ⟨entries, hobject, (), hstrings, rfl⟩

theorem inspectField_tensor {path : PathName} {payloadLen : Nat} {field : String × Json}
    (h : field.1 ≠ "__metadata__") {range : Option (String × Nat × Nat)} :
    inspectField path payloadLen field = .ok range ↔
      ∃ t, Describes payloadLen field t ∧ ¬ t.Overflows ∧ range = some t.entry := by
  unfold inspectField
  rw [if_neg h]
  simp only [bind_eq_ok, pure_eq_ok, inspectTensor_eq_ok]
  constructor
  · rintro ⟨_, ⟨t, ht, hoverflows, rfl⟩, rfl⟩
    exact ⟨t, ht, hoverflows, by rw [Tensor.entry, ht.name]⟩
  · rintro ⟨t, ht, hoverflows, rfl⟩
    exact ⟨_, ⟨t, ht, hoverflows, rfl⟩, by rw [Tensor.entry, ht.name]⟩

/-- The loop over the fields of a header. -/
theorem fields_eq_ok {path : PathName} {payloadLen : Nat} {fields : List (String × Json)}
    {ranges : List (String × Nat × Nat)} :
    (∃ tensors, fields.mapM (inspectField path payloadLen) = .ok tensors ∧
      tensors.filterMap id = ranges) ↔
    (∀ field ∈ fields, field.1 = "__metadata__" → IsMetadata field.2) ∧
    ∃ tensors, List.Forall₂ (Describes payloadLen) (tensorFields fields) tensors ∧
      (∀ t ∈ tensors, ¬ t.Overflows) ∧ ranges = tensors.map Tensor.entry := by
  induction fields generalizing ranges with
  | nil =>
    rw [List.mapM_nil]
    constructor
    · rintro ⟨_, hnil, rfl⟩
      obtain rfl := pure_eq_ok.1 hnil
      exact ⟨fun field hfield => absurd hfield List.not_mem_nil, [], .nil,
        fun t ht => absurd ht List.not_mem_nil, rfl⟩
    · rintro ⟨-, tensors, htensors, -, rfl⟩
      obtain rfl := List.forall₂_nil_left_iff.1 htensors
      exact ⟨[], rfl, rfl⟩
  | cons field fields ih =>
    simp only [List.mapM_cons, bind_eq_ok, pure_eq_ok]
    by_cases hmetadata : field.1 = "__metadata__"
    · have htensors : tensorFields (field :: fields) = tensorFields fields :=
        List.filter_cons_of_neg (by simpa using hmetadata)
      rw [htensors]
      constructor
      · rintro ⟨_, ⟨_, hfirst, rest, hrest, rfl⟩, hranges⟩
        obtain ⟨hfield, rfl⟩ := (inspectField_metadata hmetadata).1 hfirst
        obtain ⟨hall, htensors⟩ := ih.1 ⟨rest, hrest, hranges⟩
        exact ⟨List.forall_mem_cons.2 ⟨fun _ => hfield, hall⟩, htensors⟩
      · rintro ⟨hall, htensors⟩
        obtain ⟨hfield, hall⟩ := List.forall_mem_cons.1 hall
        obtain ⟨rest, hrest, hranges⟩ := ih.2 ⟨hall, htensors⟩
        exact ⟨none :: rest, ⟨none, (inspectField_metadata hmetadata).2 ⟨hfield hmetadata, rfl⟩,
          rest, hrest, rfl⟩, hranges⟩
    · have htensors : tensorFields (field :: fields) = field :: tensorFields fields :=
        List.filter_cons_of_pos (by simpa using hmetadata)
      rw [htensors]
      constructor
      · rintro ⟨_, ⟨_, hfirst, rest, hrest, rfl⟩, rfl⟩
        obtain ⟨t, ht, hoverflows, rfl⟩ := (inspectField_tensor hmetadata).1 hfirst
        obtain ⟨hall, tensors, htensors, hno, hranges⟩ := ih.1 ⟨rest, hrest, rfl⟩
        refine ⟨List.forall_mem_cons.2 ⟨fun h => absurd h hmetadata, hall⟩, t :: tensors,
          .cons ht htensors, List.forall_mem_cons.2 ⟨hoverflows, hno⟩, ?_⟩
        rw [List.map_cons, ← hranges]
        rfl
      · rintro ⟨hall, tensors, htensors, hno, rfl⟩
        obtain ⟨t, others, ht, hothers, rfl⟩ := List.forall₂_cons_left_iff.1 htensors
        obtain ⟨rest, hrest, hranges⟩ := ih.2 ⟨(List.forall_mem_cons.1 hall).2, others, hothers,
          (List.forall_mem_cons.1 hno).2, rfl⟩
        refine ⟨some t.entry :: rest, ⟨_, (inspectField_tensor hmetadata).2
          ⟨t, ht, (List.forall_mem_cons.1 hno).1, rfl⟩, rest, hrest, rfl⟩, ?_⟩
        rw [List.map_cons, ← hranges]
        rfl

/-- The scan of the sorted ranges. -/
theorem ensureApart_eq_ok {path : PathName} {ranges : List (String × Nat × Nat)} {u : Unit} :
    ensureApart path ranges = .ok u ↔ ranges.IsChain fun a b => a.2.2 ≤ b.2.1 := by
  fun_induction ensureApart path ranges with
  | case1 previous next rest _ _ ih =>
    simp only [bind_eq_ok, ensure_eq_ok, ih, List.isChain_cons_cons, exists_const]
  | case2 ranges h =>
    refine ⟨fun _ => ?_, fun _ => rfl⟩
    rcases ranges with _ | ⟨a, _ | ⟨b, rest⟩⟩
    · exact .nil
    · exact .singleton a
    · exact absurd rfl (h a b rest)

theorem byStart_entries (tensors : List Tensor) :
    (tensors.map Tensor.entry).insertionSort (fun a b => a.2.1 ≤ b.2.1) =
      (Ranges.byStart Tensor.start tensors).map Tensor.entry :=
  (List.map_insertionSort _ _ Tensor.entry tensors fun _ _ _ _ => Iff.rfl).symm

/-- A file is accepted where its tensors are described, no shape overflows, and the scan of the
neighbours finds no overlap. -/
theorem accepted_iff {codec : Codec} {path : PathName} {bytes : Bytes} :
    Accepted codec path bytes ↔ ∃ tensors, Described codec bytes tensors ∧ tensors ≠ [] ∧
      (∀ t ∈ tensors, ¬ t.Overflows) ∧
      (Ranges.byStart Tensor.start tensors).IsChain fun a b => a.stop ≤ b.start := by
  unfold Accepted inspectSafetensorsLayout
  simp only [bind_eq_ok, ensure_eq_ok, required_eq_ok, pure_eq_ok, Json.asObject_eq_some,
    ensureApart_eq_ok]
  constructor
  · rintro ⟨_, _, hlong, _, hlength, value, hparse, fields, rfl, _, hcount, entries, hentries, _,
      hne, _, hchain, rfl⟩
    obtain ⟨hmetadata, tensors, htensors, hno, hranges⟩ := fields_eq_ok.1 ⟨entries, hentries, rfl⟩
    have hparse' : codec.parseJson (headerBytes bytes) = .ok (.object fields) := by
      unfold headerBytes headerLength
      cases hjson : codec.parseJson ((bytes.drop 8).take (littleEndian (bytes.take 8))) with
      | ok value =>
        rw [hjson] at hparse
        rw [show value = .object fields from Except.ok.inj hparse]
      | error error =>
        rw [hjson] at hparse
        cases hparse
    rw [hranges] at hne hchain
    rw [byStart_entries, List.isChain_map] at hchain
    exact ⟨tensors, ⟨hlong, hlength, fields, hparse', hcount, hmetadata, htensors⟩,
      fun hnil => hne (by rw [hnil]; rfl), hno, hchain⟩
  · rintro ⟨tensors, ⟨hlong, hlength, fields, hparse, hcount, hmetadata, htensors⟩, hne, hno,
      hchain⟩
    obtain ⟨entries, hentries, hranges⟩ := fields_eq_ok.2 ⟨hmetadata, tensors, htensors, hno, rfl⟩
    unfold headerBytes headerLength at hparse
    refine ⟨_, (), hlong, (), hlength, .object fields, by rw [hparse]; rfl, fields, rfl, (),
      hcount, entries, hentries, (), ?_, (), ?_, rfl⟩
    · rw [hranges]
      exact fun hnil => hne (List.map_eq_nil_iff.1 hnil)
    · rw [hranges, byStart_entries, List.isChain_map]
      exact hchain

/-! ## When just the well-formed files are accepted -/

/-- A header where the product of some first dimensions is too large although a later one is zero, or
where an empty tensor starts within another, or where a tensor starts that comes before it. -/
def Slips (codec : Codec) (bytes : Bytes) : Prop :=
  ∃ tensors, Described codec bytes tensors ∧
    ((∃ t ∈ tensors, t.Overflows) ∨ Ranges.HidesEmpty Tensor.start Tensor.stop tensors)

theorem Describes.unique {payloadLen : Nat} {field : String × Json} {t u : Tensor}
    (ht : Describes payloadLen field t) (hu : Describes payloadLen field u) : t = u := by
  obtain ⟨name, start, stop, width, dims⟩ := t
  obtain ⟨name', start', stop', width', dims'⟩ := u
  obtain ⟨dtype, hdtype, hwidth⟩ := ht.dtype
  obtain ⟨dtype', hdtype', hwidth'⟩ := hu.dtype
  have hname : name = name' := ht.name.trans hu.name.symm
  have hoffsets := ht.offsets.symm.trans hu.offsets
  have hshape := ht.shape.symm.trans hu.shape
  simp only [Option.some.injEq, Json.array.injEq, List.cons.injEq, Json.number.injEq,
    JsonNumber.posInt.injEq, and_true] at hoffsets hshape
  have hinj : Function.Injective fun d => Json.number (.posInt d) := fun d d' h => by
    simpa using h
  have hdims : dims = dims' := List.map_injective_iff.2 hinj hshape
  obtain rfl : dtype = dtype' := by
    simpa using hdtype.symm.trans hdtype'
  have hwidths : width = width' := Option.some.inj (hwidth.symm.trans hwidth')
  rw [hname, hoffsets.1, hoffsets.2, hdims, hwidths]

/-- A header describes one list of tensors. -/
theorem Described.unique {codec : Codec} {bytes : Bytes} {tensors tensors' : List Tensor}
    (h : Described codec bytes tensors) (h' : Described codec bytes tensors') :
    tensors = tensors' := by
  obtain ⟨fields, hparse, -, -, htensors⟩ := h.object
  obtain ⟨fields', hparse', -, -, htensors'⟩ := h'.object
  obtain rfl : fields = fields' := by
    simpa using hparse.symm.trans hparse'
  have hunique : Relator.RightUnique (Describes (bytes.length - 8 - headerLength bytes)) :=
    fun _ _ _ => Describes.unique
  exact hunique.forall₂ htensors htensors'

theorem Described.valid {codec : Codec} {bytes : Bytes} {tensors : List Tensor}
    (h : Described codec bytes tensors) : ∀ t ∈ tensors, t.start ≤ t.stop := by
  obtain ⟨fields, -, -, -, htensors⟩ := h.object
  intro t ht
  obtain ⟨field, -, hfield⟩ := exists_of_mem_right htensors ht
  exact hfield.range.1

/-- The files that are accepted: well-formed ones without a slip. -/
theorem accepted_iff_wellFormed {codec : Codec} {path : PathName} {bytes : Bytes} :
    Accepted codec path bytes ↔ WellFormed codec bytes ∧ ¬ Slips codec bytes := by
  rw [accepted_iff]
  constructor
  · rintro ⟨tensors, htensors, hne, hno, hchain⟩
    obtain ⟨hdisjoint, hhidden⟩ := (Ranges.isChain_byStart_iff htensors.valid).1 hchain
    refine ⟨⟨tensors, htensors, hne, hdisjoint⟩, ?_⟩
    rintro ⟨tensors', htensors', hslip⟩
    obtain rfl := htensors.unique htensors'
    rcases hslip with ⟨t, ht, hoverflows⟩ | hhides
    · exact hno t ht hoverflows
    · exact hhidden hhides
  · rintro ⟨⟨tensors, htensors, hne, hdisjoint⟩, hslips⟩
    refine ⟨tensors, htensors, hne, fun t ht hoverflows => ?_, ?_⟩
    · exact hslips ⟨tensors, htensors, .inl ⟨t, ht, hoverflows⟩⟩
    · refine (Ranges.isChain_byStart_iff htensors.valid).2 ⟨hdisjoint, fun hhides => ?_⟩
      exact hslips ⟨tensors, htensors, .inr hhides⟩

/-- Accepting a file says that it is well formed, just where a well-formed file has no slip. -/
theorem layout_accepted_iff (codec : Codec) (path : PathName) (bytes : Bytes) :
    (Accepted codec path bytes ↔ WellFormed codec bytes) ↔
      (WellFormed codec bytes → ¬ Slips codec bytes) := by
  rw [accepted_iff_wellFormed]
  exact ⟨fun h hwell => (h.2 hwell).2, fun h => ⟨fun hboth => hboth.1, fun hwell =>
    ⟨hwell, h hwell⟩⟩⟩

/-! ### An empty tensor behind another of the same start -/

/-- The header of a tensor of one byte, and of an empty one. -/
def emptyHeader : List Char :=
  ("\x7b\"a\":\x7b\"dtype\":\"U8\",\"shape\":[1],\"data_offsets\":[0,1]\x7d," ++
    "\"b\":\x7b\"dtype\":\"U8\",\"shape\":[0],\"data_offsets\":[0,0]\x7d\x7d").toList

/-- The file with a payload of one byte. -/
def emptyShard : Bytes :=
  [105, 0, 0, 0, 0, 0, 0, 0] ++ emptyHeader.map (fun c => UInt8.ofNat c.toNat) ++ [7]

/-- The descriptor of a tensor of bytes. -/
def byteTensor (start stop : Nat) : Json :=
  .object [("data_offsets", .array [.number (.posInt start), .number (.posInt stop)]),
    ("dtype", .string "U8"), ("shape", .array [.number (.posInt (stop - start))])]

/-- What is made of the header. -/
def emptyCodec : Codec where
  parseJson _ := .ok (.object [("a", byteTensor 0 1), ("b", byteTensor 0 0)])
  sha256 _ := ⟨"ff9327ea6ac040f7d1bf06e4aad8535313014a5ed5674a8f511bc8a3d5217dad", by decide, by decide⟩

theorem emptyShard_described :
    Described emptyCodec emptyShard [⟨"a", 0, 1, 1, [1]⟩, ⟨"b", 0, 0, 1, [0]⟩] where
  prefixed := by decide +kernel
  length := by decide +kernel
  object := by
    have hpayload : emptyShard.length - 8 - headerLength emptyShard = 1 := by decide +kernel
    rw [hpayload]
    refine ⟨_, rfl, by decide, ?_, .cons ?_ (.cons ?_ .nil)⟩
    · intro field hfield hname
      simp only [List.mem_cons, List.not_mem_nil, or_false] at hfield
      rcases hfield with rfl | rfl <;> exact absurd hname (by decide)
    · exact ⟨rfl, by decide, rfl, ⟨"U8", rfl, rfl⟩, rfl, by decide, by decide, by decide,
        by decide⟩
    · exact ⟨rfl, by decide, rfl, ⟨"U8", rfl, rfl⟩, rfl, by decide, by decide, by decide,
        by decide⟩

theorem empty_shard_refused : ¬ ∀ (codec : Codec) (path : PathName) (bytes : Bytes),
    Accepted codec path bytes ↔ WellFormed codec bytes := by
  intro h
  have hwell : WellFormed emptyCodec emptyShard := by
    refine ⟨_, emptyShard_described, List.cons_ne_nil _ _, ?_⟩
    refine List.pairwise_pair.2 ?_
    exact (Set.disjoint_empty _).mono_right (Set.Ico_self 0).le
  have haccepted := (h emptyCodec SINGLE_NAME emptyShard).2 hwell
  refine (accepted_iff_wellFormed.1 haccepted).2 ⟨_, emptyShard_described, .inr ?_⟩
  exact ⟨⟨"a", 0, 1, 1, [1]⟩, ⟨"b", 0, 0, 1, [0]⟩, rfl, Nat.zero_lt_one,
    .inr ⟨List.Sublist.refl _, rfl⟩⟩

end Import

end Emelex
