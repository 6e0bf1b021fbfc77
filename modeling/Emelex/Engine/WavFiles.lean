import Emelex.Engine.Wav

/-!
# The files that are accepted

* `Chunk`, `WavFile` — the bytes of a file in their parts.
* `WavFile.Valid` — the chunks and the header of a file that can be decoded.

Principal results: `walkChunks_eq`, `walkChunks_ok`, `parseWav_iff`, `parseWav_gives`.
-/

set_option autoImplicit false

namespace Emelex

open Checks

namespace Audio

/-! ## Specification -/

/-- A chunk: its id, its size, its body, and a byte more where the size is odd. -/
structure Chunk where
  id : List UInt8
  size : List UInt8
  body : List UInt8
  pad : List UInt8
  idLength : id.length = 4
  sizeLength : size.length = 4
  declared : fromLeBytes size = body.length
  padded : pad.length = body.length % 2

def Chunk.bytes (chunk : Chunk) : List UInt8 := chunk.id ++ chunk.size ++ chunk.body ++ chunk.pad

/-- A RIFF file: its size, and the chunks one after the other. -/
structure WavFile where
  size : List UInt8
  chunks : List Chunk
  sizeLength : size.length = 4

def WavFile.bytes (file : WavFile) : List UInt8 :=
  RIFF ++ file.size ++ WAVE ++ file.chunks.flatMap Chunk.bytes

/-- The fields of a body. -/
def formatOf (body : List UInt8) : WavFormat where
  audioFormat := fromLeBytes (body.take 2)
  numChannels := fromLeBytes ((body.drop 2).take 2)
  sampleRate := fromLeBytes ((body.drop 4).take 4)
  byteRate := fromLeBytes ((body.drop 8).take 4)
  blockAlign := fromLeBytes ((body.drop 12).take 2)
  bitsPerSample := fromLeBytes ((body.drop 14).take 2)

/-- A header whose fields are in range and fit together, for this much data. -/
structure WavFormat.Describes (format : WavFormat) (encoding : WavEncoding)
    (data : List UInt8) : Prop where
  codec : encodingOf format.audioFormat format.bitsPerSample = some encoding
  channels : 0 < format.numChannels ∧ format.numChannels ≤ 32
  rate : 0 < format.sampleRate ∧ format.sampleRate ≤ 384000
  align : format.blockAlign = format.numChannels * encoding.bytesPerSample
  byteRate : format.byteRate = format.sampleRate * format.blockAlign
  frames : ∃ frames, 0 < frames ∧ frames ≤ MAX_AUDIO_SECONDS * format.sampleRate ∧
    data.length = frames * format.blockAlign

/-- What is read from such a file. -/
def WavFormat.wav (format : WavFormat) (encoding : WavEncoding) (data : List UInt8) : Wav where
  encoding := some encoding
  channels := format.numChannels
  sampleRate := format.sampleRate
  frameBytes := format.blockAlign
  data := data

/-- A file with one `fmt ` chunk and one `data` chunk among others, and a header that describes the
data. -/
structure WavFile.Valid (file : WavFile) (format : WavFormat) (encoding : WavEncoding)
    (data : List UInt8) : Prop where
  riff : fromLeBytes file.size + 8 = file.bytes.length
  formats : ∃ chunk, file.chunks.filter (·.id = FMT) = [chunk] ∧ 16 ≤ chunk.body.length ∧
    format = formatOf chunk.body
  datas : ∃ chunk, file.chunks.filter (·.id = DATA) = [chunk] ∧ data = chunk.body
  describes : format.Describes encoding data

/-! ## Reads -/

theorem slice_eq {α : Type} {items : List α} {start stop : ℕ} (h : start ≤ stop)
    (hstop : stop ≤ items.length) :
    slice items start stop = .ok ((items.drop start).take (stop - start)) :=
  if_pos ⟨h, hstop⟩

theorem slice_append {α : Type} {before part after : List α} {start stop : ℕ}
    (hstart : start = before.length) (hstop : stop = before.length + part.length) :
    slice (before ++ (part ++ after)) start stop = .ok part := by
  subst hstart hstop
  rw [slice_eq (Nat.le_add_right _ _) (by simp), List.drop_left, Nat.add_sub_cancel_left,
    List.take_left]

theorem readFormat_eq {body : List UInt8} (h : 16 ≤ body.length) :
    readFormat body = .ok (formatOf body) := by
  unfold readFormat
  rw [slice_eq (by decide) (by omega), slice_eq (by decide) (by omega),
    slice_eq (by decide) (by omega), slice_eq (by decide) (by omega),
    slice_eq (by decide) (by omega), slice_eq (by decide) (by omega)]
  rfl

theorem checkedUsize_eq_ok {value result : ℕ} {message : String} :
    checkedUsize value message = .ok result ↔ value ≤ USIZE_MAX ∧ value = result := by
  unfold checkedUsize
  simp only [bind_eq_ok, ensure_eq_ok, pure_eq_ok, exists_const]

theorem checkedUsize_eq {value : ℕ} (h : value ≤ USIZE_MAX) (message : String) :
    checkedUsize value message = .ok value := checkedUsize_eq_ok.2 ⟨h, rfl⟩

/-! ## One chunk -/

/-- The chunks one after the other. -/
def visitAll (found : Found) (chunks : List Chunk) : Except Stop Found :=
  chunks.foldlM (fun found chunk => visitChunk found chunk.id chunk.body) found

section options

variable {α : Type} {a b : Option α}

theorem toList_eq_append_singleton {x : α} :
    b.toList = a.toList ++ [x] ↔ a = none ∧ b = some x := by
  cases a <;> cases b <;> simp

theorem toList_eq_append_nil : b.toList = a.toList ++ [] ↔ b = a := by
  cases a <;> cases b <;> simp

/-- The beginning of an option's list is one. -/
theorem exists_toList_eq {before after : List α} (h : b.toList = before ++ after) :
    ∃ o : Option α, o.toList = before := by
  cases before with
  | nil => exact ⟨none, rfl⟩
  | cons x rest =>
    cases b with
    | none => cases h
    | some y =>
      have hrest : rest ++ after = [] := (List.cons.inj h).2.symm
      rw [(List.append_eq_nil_iff.1 hrest).1]
      exact ⟨some x, rfl⟩

/-- The first of some items that are kept, and the others. -/
theorem map_filter_cons {β : Type} (p : α → Prop) [DecidablePred p] (f : α → β) (x : α)
    (xs : List α) : ((x :: xs).filter (fun x => decide (p x))).map f =
      (if p x then [f x] else []) ++ (xs.filter (fun x => decide (p x))).map f := by
  rw [List.filter_cons]
  by_cases hx : p x <;> simp [hx]

end options

/-- What a chunk adds to what was found before. -/
theorem visitChunk_eq_ok {found found' : Found} {chunkId body : List UInt8} :
    visitChunk found chunkId body = .ok found' ↔ (chunkId = FMT → 16 ≤ body.length) ∧
      found'.format.toList =
        found.format.toList ++ (if chunkId = FMT then [formatOf body] else []) ∧
      found'.data.toList = found.data.toList ++ (if chunkId = DATA then [body] else []) := by
  have hne : FMT ≠ DATA := by decide
  obtain ⟨format', data'⟩ := found'
  obtain ⟨format, data⟩ := found
  unfold visitChunk
  by_cases hfmt : chunkId = FMT
  · subst hfmt
    simp only [if_true, if_neg hne, toList_eq_append_singleton, toList_eq_append_nil, bind_eq_ok,
      ensure_eq_ok, pure_eq_ok, exists_const, Found.mk.injEq, forall_const]
    constructor
    · rintro ⟨hnone, hlength, _, hread, hformat, hdata⟩
      rw [readFormat_eq hlength] at hread
      cases hread
      exact ⟨hlength, ⟨hnone, hformat.symm⟩, hdata.symm⟩
    · rintro ⟨hlength, ⟨hnone, hformat⟩, hdata⟩
      exact ⟨hnone, hlength, _, readFormat_eq hlength, hformat.symm, hdata.symm⟩
  · by_cases hdata : chunkId = DATA
    · subst hdata
      simp only [if_true, if_neg hne.symm, toList_eq_append_singleton, toList_eq_append_nil,
        bind_eq_ok, ensure_eq_ok, pure_eq_ok, exists_const, Found.mk.injEq]
      constructor
      · rintro ⟨hnone, hformat, hbody⟩
        exact ⟨fun h => absurd h.symm hne, hformat.symm, hnone, hbody.symm⟩
      · rintro ⟨-, hformat, hnone, hbody⟩
        exact ⟨hnone, hformat.symm, hbody.symm⟩
    · simp only [if_neg hfmt, if_neg hdata, toList_eq_append_nil, pure_eq_ok, Found.mk.injEq]
      constructor
      · rintro ⟨hformat, hbody⟩
        exact ⟨fun h => absurd h hfmt, hformat.symm, hbody.symm⟩
      · rintro ⟨-, hformat, hbody⟩
        exact ⟨hformat.symm, hbody.symm⟩

/-- The chunks add their formats and their data; there is at most one of each. -/
theorem visitAll_eq_ok {found found' : Found} {chunks : List Chunk} :
    visitAll found chunks = .ok found' ↔
      (∀ chunk ∈ chunks, chunk.id = FMT → 16 ≤ chunk.body.length) ∧
      found'.format.toList = found.format.toList ++
        (chunks.filter (·.id = FMT)).map (formatOf ·.body) ∧
      found'.data.toList = found.data.toList ++
        (chunks.filter (·.id = DATA)).map (·.body) := by
  induction chunks generalizing found with
  | nil =>
    have hnil : visitAll found [] = .ok found := rfl
    rw [hnil, List.filter_nil, List.filter_nil, List.map_nil, List.map_nil, toList_eq_append_nil,
      toList_eq_append_nil]
    obtain ⟨format, data⟩ := found
    obtain ⟨format', data'⟩ := found'
    simp only [Except.ok.injEq, Found.mk.injEq, List.not_mem_nil, false_implies, implies_true,
      true_and]
    exact and_congr eq_comm eq_comm
  | cons chunk chunks ih =>
    have hcons : visitAll found (chunk :: chunks) =
        visitChunk found chunk.id chunk.body >>= fun found => visitAll found chunks := rfl
    rw [hcons, bind_eq_ok]
    simp only [ih, visitChunk_eq_ok, List.forall_mem_cons,
      map_filter_cons (·.id = FMT) (formatOf ·.body) chunk chunks,
      map_filter_cons (·.id = DATA) (·.body) chunk chunks]
    constructor
    · rintro ⟨middle, ⟨hlong, hformat, hdata⟩, hlongs, hformats, hdatas⟩
      rw [hformat, List.append_assoc] at hformats
      rw [hdata, List.append_assoc] at hdatas
      exact ⟨⟨hlong, hlongs⟩, hformats, hdatas⟩
    · rintro ⟨⟨hlong, hlongs⟩, hformats, hdatas⟩
      rw [← List.append_assoc] at hformats hdatas
      obtain ⟨format, hformat⟩ := exists_toList_eq hformats
      obtain ⟨data, hdata⟩ := exists_toList_eq hdatas
      refine ⟨⟨format, data⟩, ⟨hlong, hformat, hdata⟩, hlongs, ?_, ?_⟩
      · rw [hformats, hformat]
      · rw [hdatas, hdata]

/-! ## The walk -/

theorem Chunk.bytes_length (chunk : Chunk) :
    chunk.bytes.length = 8 + chunk.body.length + chunk.body.length % 2 := by
  simp only [Chunk.bytes, List.length_append, chunk.idLength, chunk.sizeLength, chunk.padded]

theorem Chunk.pos (chunk : Chunk) : 8 ≤ chunk.bytes.length := by
  rw [chunk.bytes_length]
  omega

theorem drop_eq_append {α : Type} (items : List α) (start n : ℕ) :
    items.drop start = (items.drop start).take n ++ items.drop (start + n) := by
  rw [← List.drop_drop, List.take_append_drop]

section walk

variable {bytes : List UInt8} (hsize : bytes.length + 2 ^ 33 ≤ USIZE_MAX)
include hsize

/-- A turn of the walk at a chunk. -/
theorem walkChunks_chunk {before rest : List UInt8} {chunk : Chunk} {fuel : ℕ} (found : Found)
    (hbytes : bytes = before ++ (chunk.bytes ++ rest)) :
    walkChunks bytes (fuel + 1) before.length found =
      visitChunk found chunk.id chunk.body >>= fun found =>
        walkChunks bytes fuel (before ++ chunk.bytes).length found := by
  have hlength : bytes.length = before.length + (chunk.bytes.length + rest.length) := by
    rw [hbytes, List.length_append, List.length_append]
  have hchunk := chunk.bytes_length
  have hid : slice bytes before.length (before.length + 4) = .ok chunk.id := by
    rw [hbytes]
    simp only [Chunk.bytes, List.append_assoc]
    exact slice_append rfl (by rw [chunk.idLength])
  have hsizeField : slice bytes (before.length + 4) (before.length + 8) = .ok chunk.size := by
    have hsplit : bytes = (before ++ chunk.id) ++
        (chunk.size ++ (chunk.body ++ chunk.pad ++ rest)) := by
      rw [hbytes]
      simp only [Chunk.bytes, List.append_assoc]
    rw [hsplit]
    exact slice_append (by rw [List.length_append, chunk.idLength])
      (by rw [List.length_append, chunk.idLength, chunk.sizeLength])
  have hbody : slice bytes (before.length + 8) (before.length + 8 + chunk.body.length) =
      .ok chunk.body := by
    have hsplit : bytes = (before ++ chunk.id ++ chunk.size) ++
        (chunk.body ++ (chunk.pad ++ rest)) := by
      rw [hbytes]
      simp only [Chunk.bytes, List.append_assoc]
    have hstart : before.length + 8 = (before ++ chunk.id ++ chunk.size).length := by
      rw [List.length_append, List.length_append, chunk.idLength, chunk.sizeLength]
    rw [hsplit, hstart]
    exact slice_append rfl rfl
  have hend : before.length + 8 + chunk.body.length + chunk.body.length % 2 =
      (before ++ chunk.bytes).length := by
    rw [List.length_append]
    omega
  conv_lhs => unfold walkChunks
  rw [if_pos (by omega), hid]
  show (slice _ _ _ >>= fun _ => _) = _
  rw [hsizeField]
  show (checkedUsize (_ + fromLeBytes chunk.size) _ >>= fun _ => _) = _
  rw [chunk.declared, checkedUsize_eq (by omega)]
  show (ensure _ _ >>= fun _ => slice _ _ _ >>= fun _ => _) = _
  rw [ensure, if_pos (by omega), hbody]
  show (visitChunk _ _ _ >>= fun _ => _) = _
  cases visitChunk found chunk.id chunk.body with
  | error error => rfl
  | ok found' =>
    show (checkedUsize _ _ >>= fun _ => _) = _
    rw [checkedUsize_eq (by omega), hend]
    show (ensure _ _ >>= fun _ => _) = _
    rw [ensure, if_pos (by omega)]
    rfl

/-- The walk over chunks visits them one after the other. -/
theorem walkChunks_eq {chunks : List Chunk} {before : List UInt8} {fuel : ℕ} (found : Found)
    (hbytes : bytes = before ++ chunks.flatMap Chunk.bytes) (hfuel : chunks.length < fuel) :
    walkChunks bytes fuel before.length found = visitAll found chunks := by
  obtain ⟨fuel, rfl⟩ := Nat.exists_eq_add_of_lt hfuel
  induction chunks generalizing before found with
  | nil =>
    rw [List.flatMap_nil, List.append_nil] at hbytes
    subst hbytes
    unfold walkChunks
    rw [if_neg (by omega), ensure, if_pos rfl]
    rfl
  | cons chunk chunks ih =>
    rw [List.flatMap_cons] at hbytes
    have hfuel' : (chunk :: chunks).length + fuel + 1 = (chunks.length + fuel + 1) + 1 := by
      rw [List.length_cons]
      omega
    rw [hfuel', walkChunks_chunk hsize found hbytes]
    show _ = visitChunk found chunk.id chunk.body >>= fun found => visitAll found chunks
    congr 1
    funext found'
    rw [← List.append_assoc] at hbytes
    exact ih found' hbytes (by omega)

omit hsize

/-- A walk that ends well has gone over chunks that are the rest of the file. -/
theorem walkChunks_ok {fuel pos : ℕ} {found found' : Found} (hpos : pos ≤ bytes.length)
    (h : walkChunks bytes fuel pos found = .ok found') :
    ∃ chunks : List Chunk, bytes.drop pos = chunks.flatMap Chunk.bytes ∧
      visitAll found chunks = .ok found' := by
  induction fuel generalizing pos found with
  | zero => cases h
  | succ fuel ih =>
    unfold walkChunks at h
    by_cases hmore : pos + 8 ≤ bytes.length
    · rw [if_pos hmore] at h
      simp only [bind_eq_ok, ensure_eq_ok, checkedUsize_eq_ok] at h
      obtain ⟨chunkId, hid, size, hsize, bodyEnd, ⟨-, rfl⟩, -, hend, body, hbody, middle, hvisit,
        next, ⟨-, rfl⟩, -, hnext, hrest⟩ := h
      rw [slice_eq (by omega) (by omega), Nat.add_sub_cancel_left] at hid
      rw [slice_eq (by omega) (by omega), Nat.add_sub_add_left] at hsize
      rw [slice_eq (by omega) hend, Nat.add_sub_cancel_left] at hbody
      cases hid
      cases hsize
      cases hbody
      obtain ⟨n, hn⟩ : ∃ n, fromLeBytes ((bytes.drop (pos + 4)).take (8 - 4)) = n := ⟨_, rfl⟩
      rw [hn] at hend hvisit hnext hrest
      let chunk : Chunk := {
        id := (bytes.drop pos).take 4
        size := (bytes.drop (pos + 4)).take (8 - 4)
        body := (bytes.drop (pos + 8)).take n
        pad := (bytes.drop (pos + 8 + n)).take (n % 2)
        idLength := by rw [List.length_take, List.length_drop]; omega
        sizeLength := by rw [List.length_take, List.length_drop]; omega
        declared := by rw [hn, List.length_take, List.length_drop]; omega
        padded := by
          rw [List.length_take, List.length_drop, List.length_take, List.length_drop]
          omega }
      obtain ⟨chunks, hdrop, hall⟩ := ih hnext hrest
      refine ⟨chunk :: chunks, ?_, ?_⟩
      · calc bytes.drop pos
            = chunk.id ++ (chunk.size ++ (chunk.body ++ (chunk.pad ++
                bytes.drop (pos + 8 + n + n % 2)))) := by
              rw [drop_eq_append bytes pos 4, drop_eq_append bytes (pos + 4) 4,
                drop_eq_append bytes (pos + 4 + 4) n,
                drop_eq_append bytes (pos + 4 + 4 + n) (n % 2)]
          _ = (chunk :: chunks).flatMap Chunk.bytes := by
              rw [hdrop, List.flatMap_cons]
              simp only [Chunk.bytes, List.append_assoc]
      · show visitChunk found chunk.id chunk.body >>= (fun found => visitAll found chunks) = _
        exact bind_eq_ok.2 ⟨middle, hvisit, hall⟩
    · rw [if_neg hmore] at h
      simp only [bind_eq_ok, ensure_eq_ok, pure_eq_ok] at h
      obtain ⟨-, hlast, rfl⟩ := h
      exact ⟨[], by rw [hlast, List.drop_length]; rfl, rfl⟩

end walk

/-! ## Reads out of bounds -/

/-- An error of the function, not a read out of bounds or a loop without end. -/
def IsError (stop : Stop) : Prop := ∃ error, stop = .error error

theorem isError_model (message : String) : IsError (model message) := ⟨_, rfl⟩

theorem gives_check {condition : Prop} [Decidable condition] (message : String) :
    Gives (fun _ => condition) IsError (ensure condition (model message)) :=
  gives_ensure fun _ => isError_model message

theorem gives_checkedUsize (value : ℕ) (message : String) :
    Gives (fun result => result = value) IsError (checkedUsize value message) :=
  (gives_check message).bind fun _ _ => .ok rfl

theorem visitChunk_gives (found : Found) (chunkId body : List UInt8) :
    Gives (fun _ => True) IsError (visitChunk found chunkId body) := by
  unfold visitChunk
  split
  · refine (gives_check _).bind fun _ _ => (gives_check _).bind fun _ hlength => ?_
    exact .bind_ok (readFormat_eq hlength) (.ok trivial)
  · split
    · exact (gives_check _).bind fun _ _ => .ok trivial
    · exact .ok trivial

/-- The walk ends, and it stays in the file. -/
theorem walkChunks_gives (bytes : List UInt8) {fuel pos : ℕ} (found : Found)
    (hpos : pos ≤ bytes.length) (hfuel : bytes.length - pos < fuel) :
    Gives (fun _ => True) IsError (walkChunks bytes fuel pos found) := by
  induction fuel generalizing pos found with
  | zero => exact absurd hfuel (Nat.not_lt_zero _)
  | succ fuel ih =>
    unfold walkChunks
    split
    · rename_i hmore
      refine .bind_ok (slice_eq (by omega) (by omega)) ?_
      refine .bind_ok (slice_eq (by omega) (by omega)) ?_
      refine (gives_checkedUsize _ _).bind fun bodyEnd hend => ?_
      refine (gives_check _).bind fun _ hbody => ?_
      refine .bind_ok (slice_eq (by omega) hbody) ?_
      refine (visitChunk_gives _ _ _).bind fun found' _ => ?_
      refine (gives_checkedUsize _ _).bind fun next hnext => ?_
      refine (gives_check _).bind fun _ hle => ?_
      exact ih found' hle (by omega)
    · exact (gives_check _).bind fun _ _ => .ok trivial

theorem checkHeader_gives (format : WavFormat) (data : List UInt8) :
    Gives (fun _ => True) IsError (checkHeader format data) := by
  unfold checkHeader
  refine (gives_check _).bind fun _ _ => ?_
  split
  · exact .ok trivial
  · refine (gives_checkedUsize _ _).bind fun _ _ => (gives_check _).bind fun _ _ => ?_
    refine (gives_check _).bind fun _ _ => (gives_check _).bind fun _ _ => ?_
    refine (gives_check _).bind fun _ _ => (gives_check _).bind fun _ _ => ?_
    exact (gives_checkedUsize _ _).bind fun _ _ => (gives_check _).bind fun _ _ => .ok trivial

theorem gives_required {α : Type} (message : String) (o : Option α) :
    Gives (fun _ => True) IsError (required (model message) o) := by
  cases o with
  | none => exact .error (isError_model message)
  | some a => exact .ok trivial

/-- `parse_wav` ends, and it stays in the file. -/
theorem parseWav_gives (bytes : List UInt8) :
    Gives (fun _ => True) IsError (parseWav bytes) := by
  unfold parseWav
  refine (gives_check _).bind fun _ hlength => ?_
  refine .bind_ok (slice_eq (by decide) (by omega)) ?_
  refine .bind_ok (slice_eq (by decide) (by omega)) ?_
  refine (gives_check _).bind fun _ _ => .bind_ok (slice_eq (by decide) (by omega)) ?_
  refine (gives_checkedUsize _ _).bind fun _ _ => (gives_check _).bind fun _ _ => ?_
  refine (walkChunks_gives bytes _ hlength (by omega)).bind fun found _ => ?_
  refine (gives_required _ _).bind fun _ _ => (gives_required _ _).bind fun _ _ => ?_
  exact checkHeader_gives _ _

/-! ## The header -/

theorem encodingOf_bytes (encoding : WavEncoding) :
    encoding.bytesPerSample = 2 ∨ encoding.bytesPerSample = 4 := by
  cases encoding
  · exact .inl rfl
  · exact .inr rfl

/-- The header is accepted with a codec just where it describes the data. -/
theorem checkHeader_iff {format : WavFormat} {data : List UInt8} {wav : Wav}
    {encoding : WavEncoding} :
    checkHeader format data = .ok wav ∧ wav.encoding = some encoding ↔
      format.Describes encoding data ∧ wav = format.wav encoding data := by
  unfold checkHeader
  constructor
  · rintro ⟨hwav, hencoding⟩
    simp only [bind_eq_ok, ensure_eq_ok] at hwav
    obtain ⟨_, ⟨hchannels, hchannels', hrate, hrate'⟩, hwav⟩ := hwav
    split at hwav
    · cases hwav
      cases hencoding
    · rename_i encoding' hcodec
      simp only [bind_eq_ok, ensure_eq_ok, checkedUsize_eq_ok, pure_eq_ok] at hwav
      obtain ⟨_, ⟨-, rfl⟩, _, halign, _, -, _, -, _, hbyteRate, _, ⟨hdata, hwhole⟩, _, ⟨-, rfl⟩,
        _, hduration, rfl⟩ := hwav
      obtain rfl := Option.some.inj hencoding
      rw [← halign] at hbyteRate hwhole hduration ⊢
      have hdiv := Nat.div_add_mod data.length format.blockAlign
      rw [hwhole, Nat.add_zero, Nat.mul_comm] at hdiv
      have hpos := List.length_pos_iff.2 hdata
      refine ⟨⟨hcodec, ⟨by omega, hchannels'⟩, ⟨by omega, hrate'⟩, halign, hbyteRate,
        data.length / format.blockAlign, ?_, hduration, hdiv.symm⟩, rfl⟩
      rw [Nat.pos_iff_ne_zero]
      intro hzero
      rw [hzero, Nat.zero_mul] at hdiv
      omega
  · rintro ⟨⟨hcodec, ⟨hchannels, hchannels'⟩, ⟨hrate, hrate'⟩, halign, hbyteRate, frames,
      hpositive, hduration, hdata⟩, rfl⟩
    refine ⟨?_, rfl⟩
    have hwidth := encodingOf_bytes encoding
    have halignPos : 0 < format.blockAlign := by
      rw [halign]
      exact Nat.mul_pos hchannels (by omega)
    have halignLe : format.blockAlign ≤ 128 := by
      rw [halign]
      exact (Nat.mul_le_mul hchannels' (show _ ≤ 4 by omega)).trans (by decide)
    have hproduct : format.sampleRate * format.blockAlign ≤ 384000 * 128 :=
      Nat.mul_le_mul hrate' halignLe
    have hdataPos : 0 < data.length := by
      rw [hdata]
      exact Nat.mul_pos hpositive halignPos
    simp only [bind_eq_ok, ensure_eq_ok, hcodec, checkedUsize_eq_ok, pure_eq_ok, ← halign]
    refine ⟨(), ⟨by omega, hchannels', by omega, hrate'⟩, _, ⟨?_, rfl⟩, (), rfl, (), ?_, (), ?_,
      (), hbyteRate, (), ⟨List.length_pos_iff.1 hdataPos, ?_⟩, _, ⟨?_, rfl⟩, (), ?_, rfl⟩
    · exact halignLe.trans (by decide)
    · exact halignLe.trans (by decide)
    · exact hproduct.trans (by decide)
    · rw [hdata, Nat.mul_mod_left]
    · exact (Nat.mul_le_mul_left _ hrate').trans (by decide)
    · rw [hdata, Nat.mul_div_cancel _ halignPos]
      exact hduration

/-! ## Files -/

/-- What the walk over the chunks finds: one format and one body. -/
theorem visitAll_iff {chunks : List Chunk} {format : WavFormat} {data : List UInt8} :
    visitAll { format := none, data := none } chunks =
        .ok { format := some format, data := some data } ↔
      (∃ chunk, chunks.filter (·.id = FMT) = [chunk] ∧ 16 ≤ chunk.body.length ∧
        format = formatOf chunk.body) ∧
      ∃ chunk, chunks.filter (·.id = DATA) = [chunk] ∧ data = chunk.body := by
  simp only [visitAll_eq_ok, Option.toList_none, Option.toList_some, List.nil_append]
  constructor
  · rintro ⟨hlong, hformats, hdatas⟩
    obtain ⟨chunk, hchunk, hformat⟩ := List.map_eq_singleton_iff.1 hformats.symm
    obtain ⟨body, hbody, hdata⟩ := List.map_eq_singleton_iff.1 hdatas.symm
    have hmem : chunk ∈ chunks.filter (·.id = FMT) := by
      rw [hchunk]
      exact List.mem_singleton_self chunk
    obtain ⟨hmem, hid⟩ := List.mem_filter.1 hmem
    exact ⟨⟨chunk, hchunk, hlong chunk hmem (of_decide_eq_true hid), hformat.symm⟩, body, hbody,
      hdata.symm⟩
  · rintro ⟨⟨chunk, hchunk, hlong, rfl⟩, body, hbody, rfl⟩
    refine ⟨fun other hmem hid => ?_, by rw [hchunk]; rfl, by rw [hbody]; rfl⟩
    have hother : other ∈ chunks.filter (·.id = FMT) :=
      List.mem_filter.2 ⟨hmem, decide_eq_true hid⟩
    rw [hchunk, List.mem_singleton] at hother
    rw [hother]
    exact hlong

theorem length_le_flatMap (chunks : List Chunk) :
    chunks.length ≤ (chunks.flatMap Chunk.bytes).length := by
  induction chunks with
  | nil => exact Nat.le_refl _
  | cons chunk chunks ih =>
    have hpos := chunk.pos
    rw [List.length_cons, List.flatMap_cons, List.length_append]
    omega

/-- `parse_wav` gives a stream of a codec just for the valid files, and it gives their data. -/
theorem parseWav_iff {bytes : List UInt8} (hlimit : bytes.length ≤ MAX_ENCODED_MEDIA_BYTES)
    {wav : Wav} {encoding : WavEncoding} :
    parseWav bytes = .ok wav ∧ wav.encoding = some encoding ↔
      ∃ (file : WavFile) (format : WavFormat) (data : List UInt8), file.bytes = bytes ∧
        file.Valid format encoding data ∧ wav = format.wav encoding data := by
  have hmax : bytes.length + 2 ^ 33 ≤ USIZE_MAX := by
    simp only [MAX_ENCODED_MEDIA_BYTES, USIZE_MAX] at hlimit ⊢
    omega
  constructor
  · rintro ⟨hwav, hencoding⟩
    simp only [parseWav, bind_eq_ok, ensure_eq_ok, checkedUsize_eq_ok, required_eq_ok] at hwav
    obtain ⟨_, hlength, riff, hriff, wave, hwave, _, ⟨hriffEq, hwaveEq⟩, size, hsize, _,
      ⟨-, rfl⟩, _, hdeclared, found, hwalk, format, hformat, data, hdata, hheader⟩ := hwav
    rw [slice_eq (by decide) (by omega)] at hriff hwave hsize
    cases hriff
    cases hwave
    cases hsize
    obtain ⟨chunks, hchunks, hall⟩ := walkChunks_ok hlength hwalk
    obtain ⟨found, found'⟩ := found
    obtain rfl := hformat
    obtain rfl := hdata
    obtain ⟨hformats, hdatas⟩ := visitAll_iff.1 hall
    obtain ⟨hdescribes, hwav⟩ := checkHeader_iff.1 ⟨hheader, hencoding⟩
    let file : WavFile := {
      size := (bytes.drop 4).take 4
      chunks
      sizeLength := by rw [List.length_take, List.length_drop]; omega }
    have hbytes : file.bytes = bytes := by
      show RIFF ++ (bytes.drop 4).take 4 ++ WAVE ++ chunks.flatMap Chunk.bytes = bytes
      rw [← hchunks, ← hriffEq, ← hwaveEq]
      calc bytes.take 4 ++ (bytes.drop 4).take 4 ++ (bytes.drop 8).take 4 ++ bytes.drop 12
          = bytes.take 4 ++ ((bytes.drop 4).take 4 ++ bytes.drop 8) := by
            rw [List.append_assoc, List.append_assoc, ← drop_eq_append bytes 8 4]
        _ = bytes := by rw [← drop_eq_append bytes 4 4, List.take_append_drop]
    refine ⟨file, format, data, hbytes, ⟨?_, hformats, hdatas, hdescribes⟩, hwav⟩
    rw [hbytes]
    exact hdeclared
  · rintro ⟨file, format, data, rfl, ⟨hriff, hformats, hdatas, hdescribes⟩, hwav⟩
    obtain ⟨hheader, hencoding⟩ := checkHeader_iff.2 ⟨hdescribes, hwav⟩
    refine ⟨?_, hencoding⟩
    obtain ⟨size, chunks, hsize⟩ := file
    have hlength : (WavFile.mk size chunks hsize).bytes.length =
        12 + (chunks.flatMap Chunk.bytes).length := by
      simp only [WavFile.bytes, List.length_append, hsize]
      rfl
    have hbefore : (RIFF ++ size ++ WAVE).length = 12 := by
      rw [List.length_append, List.length_append, hsize]
      rfl
    have hdeclared : fromLeBytes size + 8 = (WavFile.mk size chunks hsize).bytes.length := hriff
    have hfuel : chunks.length < (WavFile.mk size chunks hsize).bytes.length + 1 := by
      have hcount := length_le_flatMap chunks
      omega
    have hwalk : walkChunks (WavFile.mk size chunks hsize).bytes
        ((WavFile.mk size chunks hsize).bytes.length + 1) 12 { format := none, data := none } =
        .ok { format := some format, data := some data } := by
      rw [← hbefore, walkChunks_eq hmax { format := none, data := none } rfl hfuel]
      exact visitAll_iff.2 ⟨hformats, hdatas⟩
    have hriffSlice : slice (WavFile.mk size chunks hsize).bytes 0 4 = .ok RIFF := by
      simp only [WavFile.bytes, List.append_assoc]
      show slice ([] ++ (RIFF ++ _)) 0 4 = _
      exact slice_append rfl rfl
    have hsizeSlice : slice (WavFile.mk size chunks hsize).bytes 4 8 = .ok size := by
      simp only [WavFile.bytes, List.append_assoc]
      exact slice_append rfl (by rw [hsize]; rfl)
    have hwaveSlice : slice (WavFile.mk size chunks hsize).bytes 8 12 = .ok WAVE := by
      have hsplit : (WavFile.mk size chunks hsize).bytes =
          (RIFF ++ size) ++ (WAVE ++ chunks.flatMap Chunk.bytes) := by
        simp only [WavFile.bytes, List.append_assoc]
      have hstart : (RIFF ++ size).length = 8 := by
        rw [List.length_append, hsize]
        rfl
      rw [hsplit]
      exact slice_append hstart.symm (by rw [hstart]; rfl)
    simp only [parseWav, bind_eq_ok, ensure_eq_ok, checkedUsize_eq_ok, required_eq_ok]
    exact ⟨(), by omega, RIFF, hriffSlice, WAVE, hwaveSlice, (), ⟨rfl, rfl⟩, size, hsizeSlice, _,
      ⟨by omega, rfl⟩, (), hriff, _, hwalk, format, rfl, data, rfl, hheader⟩

end Audio

end Emelex
