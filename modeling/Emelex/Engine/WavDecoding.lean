import Emelex.Engine.WavFiles
import Mathlib.Algebra.Order.Floor.Div
import Mathlib.Algebra.Order.Floor.Semifield
import Mathlib.Data.List.GetD
import Mathlib.Data.Rat.Floor
import Mathlib.Tactic.FieldSimp
import Mathlib.Tactic.Linarith

/-!
# What is decoded

* `frameSample`, `frameMean` — the samples of a file by frame and channel, and the mean of a frame.
* `IsSignal` — the linear interpolation of the means at 16 kHz.
* `Read` — the frames that the interpolation reads.
* `WavSpec` — accepted are the valid files, and nothing of their audio is lost.

Principal results: `downmix_eq`, `resamplePcm_eq`, `logMelSpectrogram_frames`, `wav_decoding_iff`.
-/

set_option autoImplicit false

namespace Emelex

open Checks

namespace Audio

variable {encoding : WavEncoding} {channels rate frames : ℕ} {data : List UInt8}

/-! ## Specification -/

/-- The sample of a channel in a frame. -/
def frameSample (encoding : WavEncoding) (channels : ℕ) (data : List UInt8) (frame channel : ℕ) :
    Sample :=
  decodeSample encoding ((data.drop ((frame * channels + channel) * encoding.bytesPerSample)).take
    encoding.bytesPerSample)

/-- The mean of the channels in a frame. -/
def frameMean (encoding : WavEncoding) (channels : ℕ) (data : List UInt8) (frame : ℕ) : Sample :=
  divSample (sumSamples ((List.range channels).map (frameSample encoding channels data frame)))
    channels

/-- The frames of the data. -/
def frameCount (encoding : WavEncoding) (channels : ℕ) (data : List UInt8) : ℕ :=
  data.length / (channels * encoding.bytesPerSample)

/-- The linear interpolation of the means at 16 kHz, all of them finite. -/
structure IsSignal (encoding : WavEncoding) (channels rate : ℕ) (data : List UInt8)
    (pcm : List Sample) : Prop where
  length : pcm.length = frameCount encoding channels data * AUDIO_SAMPLE_RATE ⌈/⌉ rate
  value : ∀ (index : ℕ) (position : ℚ), index < pcm.length →
    position = (index * rate : ℚ) / AUDIO_SAMPLE_RATE → ∃ first second : ℚ,
      frameMean encoding channels data ⌊position⌋₊ = some first ∧
      frameMean encoding channels data
        (min (⌊position⌋₊ + 1) (frameCount encoding channels data - 1)) = some second ∧
      pcm[index]? = some (some (first + (second - first) * Int.fract position))

/-- The interpolation reads the frame. -/
def Read (rate frames frame : ℕ) : Prop :=
  rate = AUDIO_SAMPLE_RATE ∨ ∃ index < frames * AUDIO_SAMPLE_RATE ⌈/⌉ rate,
    index * rate / AUDIO_SAMPLE_RATE = frame ∨ index * rate / AUDIO_SAMPLE_RATE + 1 = frame

/-- A frame with a sample that is not finite. -/
def Broken (encoding : WavEncoding) (channels : ℕ) (data : List UInt8) (frame : ℕ) : Prop :=
  frame < frameCount encoding channels data ∧
    ∃ channel < channels, frameSample encoding channels data frame channel = none

/-- Where a valid file has broken frames, the interpolation reads one of them. -/
def BrokenRead (bytes : List UInt8) : Prop :=
  ∀ (file : WavFile) (format : WavFormat) (encoding : WavEncoding) (data : List UInt8),
    file.bytes = bytes → file.Valid format encoding data →
    (∃ frame, Broken encoding format.numChannels data frame) →
    ∃ frame, Broken encoding format.numChannels data frame ∧
      Read format.sampleRate (frameCount encoding format.numChannels data) frame

/-- Accepted are the valid files; both entries agree; no read is out of bounds; what is decoded is
the whole signal; every chunk of samples gives all of its frames. -/
structure WavSpec (bytes : List UInt8) : Prop where
  accepted : ∀ encoding, (∃ wav, parseWav bytes = .ok wav ∧ wav.encoding = some encoding) ↔
    ∃ (file : WavFile) (format : WavFormat) (data : List UInt8), file.bytes = bytes ∧
      file.Valid format encoding data
  parsed : Gives (fun _ => True) IsError (parseWav bytes)
  validated : Gives (fun _ => True) IsError (validateAudioBytes bytes)
  decoded : Gives (fun pcm => ∃ (file : WavFile) (format : WavFormat) (encoding : WavEncoding)
    (data : List UInt8), file.bytes = bytes ∧ file.Valid format encoding data ∧
      IsSignal encoding format.numChannels format.sampleRate data pcm) IsError
    (decodeAudioBytes bytes)
  agree : validateAudioBytes bytes = .ok () ↔ ∃ pcm, decodeAudioBytes bytes = .ok pcm
  melFrames : ∀ {μ : Type} (melFrame : List Sample → List μ) (chunk : List Sample),
    ∃ result, logMelSpectrogram melFrame chunk = .ok result ∧
      (result.length : ℤ) = max 0 (((chunk.length : ℤ) - 161) / 160 + 1)

/-! ## Error values -/

theorem addSample_eq_none {a b : Sample} : addSample a b = none ↔ a = none ∨ b = none := by
  cases a <;> cases b <;> simp [addSample]

theorem foldl_addSample_eq_none {samples : List Sample} {start : Sample} :
    samples.foldl addSample start = none ↔ start = none ∨ none ∈ samples := by
  induction samples generalizing start with
  | nil => simp
  | cons sample samples ih =>
    rw [List.foldl_cons, ih, addSample_eq_none, List.mem_cons, or_assoc]
    simp only [eq_comm]

/-- A mean is an error value just where one of its samples is. -/
theorem frameMean_eq_none {frame : ℕ} : frameMean encoding channels data frame = none ↔
    ∃ channel < channels, frameSample encoding channels data frame channel = none := by
  unfold frameMean divSample sumSamples
  rw [Option.map_eq_none_iff, foldl_addSample_eq_none]
  simp [List.mem_map]

theorem interpolate_eq_none {first second : Sample} {fraction : ℚ} :
    interpolate first second fraction = none ↔ first = none ∨ second = none := by
  cases first <;> cases second <;> simp [interpolate]

/-! ## The mean of the channels -/

theorem take_drop_take {α : Type} (items : List α) {start n inner m : ℕ} (h : inner + m ≤ n) :
    (((items.drop start).take n).drop inner).take m = (items.drop (start + inner)).take m := by
  rw [List.drop_take, List.take_take, List.drop_drop, Nat.min_eq_left (by omega)]

/-- What is resampled are the means of the frames. -/
theorem downmix_eq {wav : Wav} (hchannels : 0 < wav.channels)
    (hframe : wav.frameBytes = wav.channels * encoding.bytesPerSample)
    (hwhole : wav.data.length = frames * wav.frameBytes) :
    downmix wav encoding = (List.range frames).map (frameMean encoding wav.channels wav.data) := by
  have hwidth := encodingOf_bytes encoding
  have hpos : 0 < encoding.bytesPerSample := by omega
  unfold downmix
  split
  · rename_i hmono
    rw [hmono, Nat.one_mul] at hframe
    rw [chunksExact, hwhole, hframe, Nat.mul_div_cancel _ hpos, List.map_map, hmono]
    refine List.map_congr_left fun frame _ => ?_
    simp [frameMean, frameSample, sumSamples, addSample, divSample]
  · rw [chunksExact, hwhole, hframe,
      Nat.mul_div_cancel _ (Nat.mul_pos hchannels hpos), List.map_map]
    refine List.map_congr_left fun frame hmem => ?_
    have hlt := List.mem_range.1 hmem
    have hinside : frame * (wav.channels * encoding.bytesPerSample) +
        wav.channels * encoding.bytesPerSample ≤ wav.data.length := by
      rw [hwhole, hframe, ← Nat.succ_mul]
      exact Nat.mul_le_mul_right _ hlt
    have hlength : ((wav.data.drop (frame * (wav.channels * encoding.bytesPerSample))).take
        (wav.channels * encoding.bytesPerSample)).length =
        wav.channels * encoding.bytesPerSample := by
      rw [List.length_take, List.length_drop]
      omega
    show divSample (sumSamples ((chunksExact encoding.bytesPerSample _).map _)) _ = _
    rw [chunksExact, hlength, Nat.mul_div_cancel _ hpos, List.map_map]
    unfold frameMean
    congr 2
    refine List.map_congr_left fun channel hchannel => ?_
    have hle : channel * encoding.bytesPerSample + encoding.bytesPerSample ≤
        wav.channels * encoding.bytesPerSample := by
      rw [← Nat.succ_mul]
      exact Nat.mul_le_mul_right _ (List.mem_range.1 hchannel)
    show decodeSample encoding ((((wav.data.drop _).take _).drop _).take _) =
      decodeSample encoding _
    rw [take_drop_take _ hle, Nat.add_mul, Nat.mul_assoc]

/-! ## Resampling -/

/-- What the loop puts out at an index. -/
def resampled (input : List Sample) (rate index : ℕ) : Sample :=
  interpolate (input.getD (index * rate / AUDIO_SAMPLE_RATE) none)
    (input.getD (min (index * rate / AUDIO_SAMPLE_RATE + 1) (input.length - 1)) none)
    ((index * rate % AUDIO_SAMPLE_RATE : ℕ) / AUDIO_SAMPLE_RATE)

/-- The loop does not break off where all positions are in the input. -/
theorem resampleLoop_eq {input : List Sample} {indices : List ℕ}
    (h : ∀ index ∈ indices, index * rate ≤ USIZE_MAX ∧
      index * rate / AUDIO_SAMPLE_RATE < input.length) :
    resampleLoop input rate indices = .ok (indices.map (resampled input rate)) := by
  induction indices with
  | nil => rfl
  | cons index indices ih =>
    obtain ⟨⟨hmax, hlt⟩, hrest⟩ := List.forall_mem_cons.1 h
    unfold resampleLoop
    rw [checkedUsize_eq hmax, ih hrest]
    simp only [bind, Except.bind, List.getElem?_eq_getElem hlt, pure, Except.pure]
    rw [List.map_cons]
    congr 2
    unfold resampled
    generalize index * rate / AUDIO_SAMPLE_RATE = left at hlt ⊢
    congr 1
    · rw [List.getD_eq_getElem _ _ hlt]
    · by_cases hnext : left + 1 < input.length
      · rw [List.getElem?_eq_getElem hnext, Nat.min_eq_left (by omega),
          List.getD_eq_getElem _ _ hnext]
        rfl
      · rw [List.getElem?_eq_none (Nat.not_lt.1 hnext), Nat.min_eq_right (by omega),
          List.getD_eq_getElem _ _ (by omega)]
        show input[left] = _
        congr 1
        omega

theorem outputLen_eq (hrate : 0 < rate) (n : ℕ) :
    (n * AUDIO_SAMPLE_RATE + (rate - 1)) / rate = n * AUDIO_SAMPLE_RATE ⌈/⌉ rate := by
  rw [Nat.ceilDiv_eq_add_pred_div, Nat.add_sub_assoc hrate]

/-- A position of the output is in the input. -/
theorem position_lt (hrate : 0 < rate) {n index : ℕ} (h : index < n * AUDIO_SAMPLE_RATE ⌈/⌉ rate) :
    index * rate < n * AUDIO_SAMPLE_RATE := by
  rw [← outputLen_eq hrate, Nat.lt_iff_add_one_le, Nat.le_div_iff_mul_le hrate, Nat.add_mul] at h
  omega

/-- Resampling never breaks off, and it never refuses what the walk has accepted. -/
theorem resamplePcm_eq {input : List Sample} (hne : input ≠ []) (hrate : 0 < rate)
    (hrate' : rate ≤ 384000) (hlength : input.length ≤ MAX_AUDIO_SECONDS * rate) :
    resamplePcm input rate = .ok (if rate = AUDIO_SAMPLE_RATE then input
      else (List.range (input.length * AUDIO_SAMPLE_RATE ⌈/⌉ rate)).map (resampled input rate)) ∧
      input.length * AUDIO_SAMPLE_RATE ⌈/⌉ rate ≤ MAX_AUDIO_SAMPLES := by
  have hsize : input.length ≤ 230400000 :=
    hlength.trans ((Nat.mul_le_mul_left _ hrate').trans (by decide))
  have hscaled : input.length * AUDIO_SAMPLE_RATE ≤ 3686400000000 := by
    simp only [AUDIO_SAMPLE_RATE]
    omega
  have hbound : input.length * AUDIO_SAMPLE_RATE ⌈/⌉ rate ≤ MAX_AUDIO_SAMPLES := by
    rw [ceilDiv_le_iff_le_mul hrate]
    calc input.length * AUDIO_SAMPLE_RATE ≤ MAX_AUDIO_SECONDS * rate * AUDIO_SAMPLE_RATE :=
          Nat.mul_le_mul_right _ hlength
      _ = rate * MAX_AUDIO_SAMPLES := by
          rw [MAX_AUDIO_SAMPLES]
          ring
  refine ⟨?_, hbound⟩
  unfold resamplePcm
  by_cases hsame : rate = AUDIO_SAMPLE_RATE
  · rw [if_pos (.inl hsame), if_pos hsame]
    rfl
  · rw [if_neg (by simp [hsame, hne]), if_neg hsame]
    rw [checkedUsize_eq (hscaled.trans (by decide))]
    show (checkedUsize _ _ >>= fun _ => _) = _
    rw [checkedUsize_eq (show _ ≤ USIZE_MAX by simp only [USIZE_MAX]; omega)]
    show (ensure _ _ >>= fun _ => resampleLoop _ _ _) = _
    rw [outputLen_eq hrate, ensure, if_pos hbound]
    refine resampleLoop_eq fun index hmem => ?_
    have hlt := position_lt hrate (List.mem_range.1 hmem)
    exact ⟨(hlt.le.trans hscaled).trans (by decide),
      (Nat.div_lt_iff_lt_mul (by decide)).2 hlt⟩

/-! ## Entries -/

section entries

variable {bytes : List UInt8} {file : WavFile} {format : WavFormat}

/-- What is known of the data of a valid file. -/
theorem WavFormat.Describes.data_length (h : format.Describes encoding data) :
    0 < frameCount encoding format.numChannels data ∧
      frameCount encoding format.numChannels data ≤ MAX_AUDIO_SECONDS * format.sampleRate ∧
      data.length = frameCount encoding format.numChannels data * format.blockAlign := by
  obtain ⟨frames, hpositive, hduration, hdata⟩ := h.frames
  have hwidth := encodingOf_bytes encoding
  have hpos : 0 < format.numChannels * encoding.bytesPerSample :=
    Nat.mul_pos h.channels.1 (by omega)
  have hcount : frameCount encoding format.numChannels data = frames := by
    unfold frameCount
    rw [hdata, h.align, Nat.mul_div_cancel _ hpos]
  rw [hcount]
  exact ⟨hpositive, hduration, hdata⟩

/-- The means of a file at 16 kHz. -/
def signal (encoding : WavEncoding) (channels rate : ℕ) (data : List UInt8) : List Sample :=
  let means := (List.range (frameCount encoding channels data)).map
    (frameMean encoding channels data)
  if rate = AUDIO_SAMPLE_RATE then means
  else (List.range (frameCount encoding channels data * AUDIO_SAMPLE_RATE ⌈/⌉ rate)).map
    (resampled means rate)

theorem means_length : ((List.range (frameCount encoding channels data)).map
    (frameMean encoding channels data)).length = frameCount encoding channels data := by
  rw [List.length_map, List.length_range]

theorem means_getD {frame : ℕ} (h : frame < frameCount encoding channels data) :
    ((List.range (frameCount encoding channels data)).map
      (frameMean encoding channels data)).getD frame none =
      frameMean encoding channels data frame := by
  rw [List.getD_eq_getElem _ _ (by rwa [means_length]), List.getElem_map, List.getElem_range]

theorem ceilDiv_self (n : ℕ) : n * AUDIO_SAMPLE_RATE ⌈/⌉ AUDIO_SAMPLE_RATE = n := by
  rw [Nat.ceilDiv_eq_add_pred_div]
  simp only [AUDIO_SAMPLE_RATE]
  omega

theorem signal_length : (signal encoding channels rate data).length =
    frameCount encoding channels data * AUDIO_SAMPLE_RATE ⌈/⌉ rate := by
  unfold signal
  split
  · rename_i hrate
    rw [hrate, ceilDiv_self, means_length]
  · rw [List.length_map, List.length_range]

/-- A valid file is decoded to its signal. -/
theorem decodeWav_valid (hlimit : bytes.length ≤ MAX_ENCODED_MEDIA_BYTES)
    (hbytes : file.bytes = bytes) (hvalid : file.Valid format encoding data) :
    decodeWav bytes = .ok (some (signal encoding format.numChannels format.sampleRate data)) ∧
      (signal encoding format.numChannels format.sampleRate data).length ≤ MAX_AUDIO_SAMPLES := by
  obtain ⟨hwav, -⟩ := (parseWav_iff hlimit).2 ⟨file, format, data, hbytes, hvalid, rfl⟩
  have hdescribes := hvalid.describes
  obtain ⟨hpositive, hduration, hdata⟩ := hdescribes.data_length
  have hmeans : downmix (format.wav encoding data) encoding =
      (List.range (frameCount encoding format.numChannels data)).map
        (frameMean encoding format.numChannels data) :=
    downmix_eq hdescribes.channels.1 hdescribes.align hdata
  have hne : (List.range (frameCount encoding format.numChannels data)).map
      (frameMean encoding format.numChannels data) ≠ [] := by
    rw [← List.length_pos_iff, means_length]
    exact hpositive
  obtain ⟨hresampled, hbound⟩ := resamplePcm_eq hne hdescribes.rate.1 hdescribes.rate.2
    (by rwa [means_length])
  rw [means_length] at hresampled hbound
  refine ⟨?_, by rwa [signal_length]⟩
  unfold decodeWav
  rw [hwav]
  show some <$> resamplePcm (downmix (format.wav encoding data) encoding) format.sampleRate = _
  rw [hmeans, hresampled]
  rfl

/-- The signal has an error value just where a broken frame is read. -/
theorem none_mem_signal (hrate : 0 < rate) : none ∈ signal encoding channels rate data ↔
    ∃ frame, Broken encoding channels data frame ∧
      Read rate (frameCount encoding channels data) frame := by
  unfold signal
  by_cases hsame : rate = AUDIO_SAMPLE_RATE
  · rw [if_pos hsame, List.mem_map]
    constructor
    · rintro ⟨frame, hframe, hnone⟩
      exact ⟨frame, ⟨List.mem_range.1 hframe, frameMean_eq_none.1 hnone⟩, .inl hsame⟩
    · rintro ⟨frame, ⟨hframe, hnone⟩, -⟩
      exact ⟨frame, List.mem_range.2 hframe, frameMean_eq_none.2 hnone⟩
  · rw [if_neg hsame, List.mem_map]
    have hleft : ∀ index < frameCount encoding channels data * AUDIO_SAMPLE_RATE ⌈/⌉ rate,
        index * rate / AUDIO_SAMPLE_RATE < frameCount encoding channels data := fun index hindex =>
      (Nat.div_lt_iff_lt_mul (by decide)).2 (position_lt hrate hindex)
    constructor
    · rintro ⟨index, hindex, hnone⟩
      have hindex := List.mem_range.1 hindex
      have hlt := hleft index hindex
      have hsecond : min (index * rate / AUDIO_SAMPLE_RATE + 1)
          (frameCount encoding channels data - 1) < frameCount encoding channels data :=
        (Nat.min_le_right _ _).trans_lt (Nat.sub_lt (Nat.zero_lt_of_lt hlt) Nat.one_pos)
      rw [resampled, interpolate_eq_none, means_getD hlt, means_length,
        means_getD hsecond] at hnone
      rcases hnone with hnone | hnone
      · exact ⟨_, ⟨hlt, frameMean_eq_none.1 hnone⟩, .inr ⟨index, hindex, .inl rfl⟩⟩
      · refine ⟨_, ⟨hsecond, frameMean_eq_none.1 hnone⟩, .inr ⟨index, hindex, ?_⟩⟩
        generalize index * rate / AUDIO_SAMPLE_RATE = left at hlt ⊢
        omega
    · rintro ⟨frame, ⟨hframe, hnone⟩, hread⟩
      rcases hread with hread | ⟨index, hindex, hread⟩
      · exact absurd hread hsame
      · have hlt := hleft index hindex
        have hsecond : min (index * rate / AUDIO_SAMPLE_RATE + 1)
            (frameCount encoding channels data - 1) < frameCount encoding channels data :=
          (Nat.min_le_right _ _).trans_lt (Nat.sub_lt (Nat.zero_lt_of_lt hlt) Nat.one_pos)
        refine ⟨index, List.mem_range.2 hindex, ?_⟩
        rw [resampled, interpolate_eq_none, means_getD hlt, means_length, means_getD hsecond]
        rcases hread with rfl | rfl
        · exact .inl (frameMean_eq_none.2 hnone)
        · rw [Nat.min_eq_left (by omega)]
          exact .inr (frameMean_eq_none.2 hnone)

/-- A finite signal is the linear interpolation of the means. -/
theorem isSignal_signal (hrate : 0 < rate) (hfinite : none ∉ signal encoding channels rate data) :
    IsSignal encoding channels rate data (signal encoding channels rate data) := by
  refine ⟨signal_length, fun index position hindex hposition => ?_⟩
  rw [signal_length] at hindex
  have hcast : position = ((index * rate : ℕ) : ℚ) / AUDIO_SAMPLE_RATE := by
    rw [hposition, Nat.cast_mul]
  have hleft : index * rate / AUDIO_SAMPLE_RATE < frameCount encoding channels data :=
    (Nat.div_lt_iff_lt_mul (by decide)).2 (position_lt hrate hindex)
  have hsecond : min (index * rate / AUDIO_SAMPLE_RATE + 1)
      (frameCount encoding channels data - 1) < frameCount encoding channels data :=
    (Nat.min_le_right _ _).trans_lt (Nat.sub_lt (Nat.zero_lt_of_lt hleft) Nat.one_pos)
  rw [hcast, Nat.floor_div_eq_div, Int.fract_div_natCast_eq_div_natCast_mod]
  have hnone := mt (none_mem_signal hrate).2 hfinite
  by_cases hsame : rate = AUDIO_SAMPLE_RATE
  · have hmean : ∀ frame < frameCount encoding channels data,
        ∃ mean, frameMean encoding channels data frame = some mean := fun frame hframe =>
      Option.ne_none_iff_exists'.1 fun h =>
        hnone ⟨frame, ⟨hframe, frameMean_eq_none.1 h⟩, .inl hsame⟩
    obtain ⟨first, hfirst⟩ := hmean _ hleft
    obtain ⟨second, hsecond⟩ := hmean _ hsecond
    refine ⟨first, second, hfirst, hsecond, ?_⟩
    rw [hsame, Nat.mul_div_cancel _ (by decide)] at hfirst hleft
    unfold signal
    rw [if_pos hsame, List.getElem?_map, List.getElem?_range hleft, hsame, Nat.mul_mod_left]
    show some (frameMean encoding channels data index) = _
    rw [hfirst, Nat.cast_zero, zero_div, mul_zero, add_zero]
  · have hvalue : (signal encoding channels rate data)[index]? = some (resampled
        ((List.range (frameCount encoding channels data)).map (frameMean encoding channels data))
        rate index) := by
      unfold signal
      rw [if_neg hsame, List.getElem?_map, List.getElem?_range hindex]
      rfl
    rw [resampled, means_getD hleft, means_length, means_getD hsecond] at hvalue
    have hsome := fun h => hfinite (List.mem_of_getElem? (hvalue.trans (congrArg some h)))
    rw [interpolate_eq_none] at hsome
    obtain ⟨hfirst, hsecond⟩ := not_or.1 hsome
    obtain ⟨first, hfirst⟩ := Option.ne_none_iff_exists'.1 hfirst
    obtain ⟨second, hsecond⟩ := Option.ne_none_iff_exists'.1 hsecond
    refine ⟨first, second, hfirst, hsecond, ?_⟩
    rw [hvalue, hfirst, hsecond]
    rfl

/-- No source sample is an error value just where no frame is broken. -/
theorem samples_finite (h : format.Describes encoding data) :
    (∀ sample ∈ chunksExact encoding.bytesPerSample data, decodeSample encoding sample ≠ none) ↔
      ∀ frame, ¬ Broken encoding format.numChannels data frame := by
  obtain ⟨-, -, hdata⟩ := h.data_length
  have hpos : 0 < encoding.bytesPerSample := by
    have hwidth := encodingOf_bytes encoding
    omega
  have hcount : data.length / encoding.bytesPerSample =
      frameCount encoding format.numChannels data * format.numChannels := by
    rw [hdata, h.align, ← Nat.mul_assoc, Nat.mul_div_cancel _ hpos]
  simp only [chunksExact, List.forall_mem_map, List.mem_range, hcount]
  constructor
  · rintro hfinite frame ⟨hframe, channel, hchannel, hnone⟩
    refine hfinite (frame * format.numChannels + channel) ?_ hnone
    calc frame * format.numChannels + channel < (frame + 1) * format.numChannels := by
          rw [Nat.add_mul]
          omega
      _ ≤ frameCount encoding format.numChannels data * format.numChannels :=
          Nat.mul_le_mul_right _ hframe
  · intro hwhole sample hsample hnone
    have hsplit : sample / format.numChannels * format.numChannels +
        sample % format.numChannels = sample := by
      rw [Nat.mul_comm]
      exact Nat.div_add_mod _ _
    refine hwhole (sample / format.numChannels) ⟨(Nat.div_lt_iff_lt_mul h.channels.1).2 hsample,
      sample % format.numChannels, Nat.mod_lt _ h.channels.1, ?_⟩
    rw [frameSample, hsplit]
    exact hnone

theorem limit_ok (hlimit : bytes.length ≤ MAX_ENCODED_MEDIA_BYTES) :
    validateEncodedAudioSize bytes = .ok () := by
  rw [validateEncodedAudioSize, ensure, if_pos hlimit]

/-- A valid file passes where none of its frames is broken. -/
theorem validateAudioBytes_valid (hlimit : bytes.length ≤ MAX_ENCODED_MEDIA_BYTES)
    (hbytes : file.bytes = bytes) (hvalid : file.Valid format encoding data) :
    validateAudioBytes bytes = .ok () ↔
      ∀ frame, ¬ Broken encoding format.numChannels data frame := by
  obtain ⟨hwav, -⟩ := (parseWav_iff hlimit).2 ⟨file, format, data, hbytes, hvalid, rfl⟩
  rw [← samples_finite hvalid.describes, validateAudioBytes, limit_ok hlimit, hwav]
  cases encoding with
  | pcm16 => exact ⟨fun _ _ _ => Option.some_ne_none _, fun _ => rfl⟩
  | float32 =>
    show ensure (∀ sample ∈ chunksExact WavEncoding.float32.bytesPerSample data,
      (f32FromLeBytes sample).isSome = true) _ = _ ↔ _
    simp only [ensure_eq_ok, Option.isSome_iff_ne_none]
    rfl

/-- A valid file is decoded where no broken frame is read. -/
theorem decodeAudioBytes_valid (hlimit : bytes.length ≤ MAX_ENCODED_MEDIA_BYTES)
    (hbytes : file.bytes = bytes) (hvalid : file.Valid format encoding data) :
    decodeAudioBytes bytes = validatePcm
        (signal encoding format.numChannels format.sampleRate data) ∧
      ((∃ pcm, decodeAudioBytes bytes = .ok pcm) ↔
        ∀ frame, Broken encoding format.numChannels data frame →
          ¬ Read format.sampleRate (frameCount encoding format.numChannels data) frame) := by
  obtain ⟨hdecoded, hbound⟩ := decodeWav_valid hlimit hbytes hvalid
  have hpcm : decodeAudioBytes bytes = validatePcm
      (signal encoding format.numChannels format.sampleRate data) := by
    rw [decodeAudioBytes, limit_ok hlimit, hdecoded]
    rfl
  refine ⟨hpcm, ?_⟩
  rw [hpcm]
  simp only [validatePcm, bind_eq_ok, ensure_eq_ok, pure_eq_ok]
  calc _ ↔ none ∉ signal encoding format.numChannels format.sampleRate data := by
        constructor
        · rintro ⟨_, _, _, _, hfinite, -⟩ hnone
          exact absurd (hfinite _ hnone) Bool.false_ne_true
        · intro hnone
          refine ⟨_, (), hbound, (), fun sample hsample => ?_, rfl⟩
          exact Option.isSome_iff_ne_none.2 fun h => hnone (h ▸ hsample)
    _ ↔ _ := by
        rw [none_mem_signal hvalid.describes.rate.1]
        simp only [not_exists, not_and]

end entries

/-! ## Frames -/

/-- A turn of a loop that never fails. -/
theorem mapM_ok {α β : Type} {f : α → Except Stop β} {g : α → β} {items : List α}
    (h : ∀ item ∈ items, f item = .ok (g item)) : items.mapM f = .ok (items.map g) :=
  (mapM_eq_ok_map (p := fun _ => True) (fun item hitem y => by
    rw [h item hitem, Except.ok.injEq, true_and, eq_comm]) _).2 ⟨fun _ _ => trivial, rfl⟩

/-- The loop over the frames, where the last window is in the samples. -/
theorem frames_ok {μ : Type} (melFrame : List Sample → List μ) {padded : List Sample} {n : ℕ}
    (h : (n - 1) * HOP + N_FFT ≤ padded.length) :
    ((List.range n).mapM fun t => do
      let window ← slice padded (t * HOP) (t * HOP + N_FFT)
      return melFrame window) = .ok ((List.range n).map fun t =>
        melFrame ((padded.drop (t * HOP)).take (t * HOP + N_FFT - t * HOP))) := by
  refine mapM_ok fun t ht => ?_
  have hlt := List.mem_range.1 ht
  have hlast : t * HOP ≤ (n - 1) * HOP := Nat.mul_le_mul_right _ (by omega)
  rw [slice_eq (Nat.le_add_right _ _) (by omega)]
  rfl

/-- Every chunk gives its frames, and no window reaches past the padding. -/
theorem logMelSpectrogram_frames {μ : Type} (melFrame : List Sample → List μ)
    (chunk : List Sample) : ∃ result, logMelSpectrogram melFrame chunk = .ok result ∧
      (result.length : ℤ) = max 0 (((chunk.length : ℤ) - 161) / 160 + 1) := by
  have hwindow : WINDOW_LEN = 320 := rfl
  have hhop : HOP = 160 := rfl
  have hfft : N_FFT = 512 := rfl
  by_cases hshort : chunk.length + WINDOW_LEN / 2 < WINDOW_LEN + 1
  · refine ⟨[], if_pos hshort, ?_⟩
    simp only [List.length_nil]
    omega
  · obtain ⟨ptFrames, hframes⟩ : ∃ ptFrames,
        ptFrames = (chunk.length + WINDOW_LEN / 2 - (WINDOW_LEN + 1)) / HOP + 1 := ⟨_, rfl⟩
    obtain ⟨padded, hpadded⟩ : ∃ padded : List Sample,
        padded = List.replicate (WINDOW_LEN / 2) (some 0) ++ chunk ++ List.replicate
          (max ((ptFrames - 1) * HOP + N_FFT - chunk.length) (WINDOW_LEN / 2) - WINDOW_LEN / 2)
          (some 0) := ⟨_, rfl⟩
    have hlog : logMelSpectrogram melFrame chunk = (do
        ensure (N_FFT ≤ padded.length) Stop.outOfBounds
        (List.range (min ((padded.length - N_FFT) / HOP + 1) ptFrames)).mapM fun t => do
          let window ← slice padded (t * HOP) (t * HOP + N_FFT)
          return melFrame window) := by
      rw [hpadded, hframes]
      exact if_neg hshort
    have hlength : (ptFrames - 1) * HOP + N_FFT ≤ padded.length := by
      rw [hpadded]
      simp only [List.length_append, List.length_replicate]
      omega
    have hmin : min ((padded.length - N_FFT) / HOP + 1) ptFrames = ptFrames := by
      rw [hhop] at hlength hframes ⊢
      omega
    rw [hlog, hmin, ensure, if_pos (by omega)]
    refine ⟨_, frames_ok melFrame hlength, ?_⟩
    rw [List.length_map, List.length_range]
    rw [hhop] at hframes
    omega

/-! ## Both entries -/

section spec

variable {bytes : List UInt8}

theorem parseWav_accepted (hlimit : bytes.length ≤ MAX_ENCODED_MEDIA_BYTES)
    (encoding : WavEncoding) :
    (∃ wav, parseWav bytes = .ok wav ∧ wav.encoding = some encoding) ↔
      ∃ (file : WavFile) (format : WavFormat) (data : List UInt8), file.bytes = bytes ∧
        file.Valid format encoding data := by
  constructor
  · rintro ⟨wav, hwav⟩
    obtain ⟨file, format, data, hbytes, hvalid, -⟩ := (parseWav_iff hlimit).1 hwav
    exact ⟨file, format, data, hbytes, hvalid⟩
  · rintro ⟨file, format, data, hbytes, hvalid⟩
    exact ⟨_, (parseWav_iff hlimit).2 ⟨file, format, data, hbytes, hvalid, rfl⟩⟩

/-- A file that is not valid is refused by both. -/
theorem refused (hlimit : bytes.length ≤ MAX_ENCODED_MEDIA_BYTES)
    (hinvalid : ¬ ∃ (file : WavFile) (format : WavFormat) (encoding : WavEncoding)
      (data : List UInt8), file.bytes = bytes ∧ file.Valid format encoding data) :
    (∃ stop, IsError stop ∧ validateAudioBytes bytes = .error stop) ∧
      ∃ stop, IsError stop ∧ decodeAudioBytes bytes = .error stop := by
  rw [validateAudioBytes, decodeAudioBytes, decodeWav, limit_ok hlimit]
  cases hwav : parseWav bytes with
  | error stop =>
    have hgives := parseWav_gives bytes
    rw [hwav] at hgives
    obtain ⟨⟩ | hstop := hgives
    exact ⟨⟨stop, hstop, rfl⟩, stop, hstop, rfl⟩
  | ok wav =>
    obtain ⟨_ | encoding, channels, rate, frameBytes, data⟩ := wav
    · exact ⟨⟨unsupportedAudio, ⟨_, rfl⟩, rfl⟩, unsupportedAudio, ⟨_, rfl⟩, rfl⟩
    · obtain ⟨file, format, data, hfile⟩ :=
        (parseWav_accepted hlimit encoding).1 ⟨_, hwav, rfl⟩
      exact absurd ⟨file, format, encoding, data, hfile⟩ hinvalid

theorem validateAudioBytes_gives (bytes : List UInt8) :
    Gives (fun _ => True) IsError (validateAudioBytes bytes) := by
  unfold validateAudioBytes
  refine (gives_check _).bind fun _ _ => (parseWav_gives bytes).bind fun wav _ => ?_
  split
  · exact .error (isError_model _)
  · exact .ok trivial
  · unfold ensure
    split
    · exact .ok trivial
    · exact .error (isError_model _)

theorem decodeAudioBytes_gives (hlimit : bytes.length ≤ MAX_ENCODED_MEDIA_BYTES) :
    Gives (fun pcm => ∃ (file : WavFile) (format : WavFormat) (encoding : WavEncoding)
      (data : List UInt8), file.bytes = bytes ∧ file.Valid format encoding data ∧
        IsSignal encoding format.numChannels format.sampleRate data pcm) IsError
      (decodeAudioBytes bytes) := by
  by_cases hvalid : ∃ (file : WavFile) (format : WavFormat) (encoding : WavEncoding)
      (data : List UInt8), file.bytes = bytes ∧ file.Valid format encoding data
  · obtain ⟨file, format, encoding, data, hbytes, hvalid⟩ := hvalid
    rw [(decodeAudioBytes_valid hlimit hbytes hvalid).1, validatePcm]
    refine (gives_check _).bind fun _ _ => (gives_check _).bind fun _ hfinite => .ok ?_
    refine ⟨file, format, encoding, data, hbytes, hvalid,
      isSignal_signal hvalid.describes.rate.1 fun hnone => ?_⟩
    exact absurd (hfinite _ hnone) Bool.false_ne_true
  · obtain ⟨-, stop, hstop, hdecode⟩ := refused hlimit hvalid
    rw [hdecode]
    exact .error hstop

/-- **Decoding a file loses no audio**: the valid files are accepted and decoded to their signal,
and the two entries agree just where a broken frame cannot hide among the frames that are not
read. -/
theorem wav_decoding_iff (hlimit : bytes.length ≤ MAX_ENCODED_MEDIA_BYTES) :
    WavSpec bytes ↔ BrokenRead bytes := by
  constructor
  · intro hspec file format encoding data hbytes hvalid hbroken
    by_contra hunread
    obtain ⟨frame, hframe⟩ := hbroken
    have hdecoded := (decodeAudioBytes_valid hlimit hbytes hvalid).2.2 fun frame hbroken hread =>
      hunread ⟨frame, hbroken, hread⟩
    exact (validateAudioBytes_valid hlimit hbytes hvalid).1 (hspec.agree.2 hdecoded) frame hframe
  · intro hread
    have hagree : validateAudioBytes bytes = .ok () ↔ ∃ pcm, decodeAudioBytes bytes = .ok pcm := by
      by_cases hvalid : ∃ (file : WavFile) (format : WavFormat) (encoding : WavEncoding)
          (data : List UInt8), file.bytes = bytes ∧ file.Valid format encoding data
      · obtain ⟨file, format, encoding, data, hbytes, hvalid⟩ := hvalid
        rw [validateAudioBytes_valid hlimit hbytes hvalid,
          (decodeAudioBytes_valid hlimit hbytes hvalid).2]
        constructor
        · exact fun hwhole frame hbroken => absurd hbroken (hwhole frame)
        · intro hunread frame hbroken
          obtain ⟨other, hother, hotherRead⟩ :=
            hread file format encoding data hbytes hvalid ⟨frame, hbroken⟩
          exact hunread other hother hotherRead
      · obtain ⟨⟨_, -, hvalidate⟩, _, -, hdecode⟩ := refused hlimit hvalid
        rw [hvalidate, hdecode]
        simp only [reduceCtorEq, exists_false]
    exact ⟨parseWav_accepted hlimit, parseWav_gives bytes, validateAudioBytes_gives bytes,
      decodeAudioBytes_gives hlimit, hagree, logMelSpectrogram_frames⟩

/-- A frame of silence at 16 kHz, in PCM16. -/
def silence : List UInt8 :=
  RIFF ++ [38, 0, 0, 0] ++ WAVE ++ FMT ++ [16, 0, 0, 0] ++
    [1, 0, 1, 0, 0x80, 0x3e, 0, 0, 0, 0x7d, 0, 0, 2, 0, 16, 0] ++ DATA ++ [2, 0, 0, 0, 0, 0]

theorem wav_decoding_silence : silence.length ≤ MAX_ENCODED_MEDIA_BYTES ∧ WavSpec silence := by
  have hlimit : silence.length ≤ MAX_ENCODED_MEDIA_BYTES := by decide
  refine ⟨hlimit, (wav_decoding_iff hlimit).2 fun file format encoding data hbytes hvalid => ?_⟩
  rintro ⟨frame, hbroken⟩
  refine ⟨frame, hbroken, .inl ?_⟩
  obtain ⟨hwav, -⟩ := (parseWav_iff hlimit).2 ⟨file, format, data, hbytes, hvalid, rfl⟩
  have hrate : (parseWav silence).toOption.map Wav.sampleRate = some AUDIO_SAMPLE_RATE := by
    decide +kernel
  rw [hwav] at hrate
  exact Option.some.inj hrate

/-- Three frames at 48 kHz in float32, of which the last is not finite; the one sample of the signal
is the first frame. -/
def skippedFrame : List UInt8 :=
  RIFF ++ [48, 0, 0, 0] ++ WAVE ++ FMT ++ [16, 0, 0, 0] ++
    [3, 0, 1, 0, 0x80, 0xbb, 0, 0, 0, 0xee, 2, 0, 4, 0, 32, 0] ++ DATA ++ [12, 0, 0, 0] ++
    [0, 0, 0, 0, 0, 0, 0, 0, 0, 0, 0xc0, 0x7f]

theorem skippedFrame_disagrees : skippedFrame.length ≤ MAX_ENCODED_MEDIA_BYTES ∧
    validateAudioBytes skippedFrame =
      .error (model "decoded audio contains non-finite samples") ∧
    decodeAudioBytes skippedFrame = .ok [some 0] ∧ ¬ WavSpec skippedFrame := by
  have hvalidate : validateAudioBytes skippedFrame =
      .error (model "decoded audio contains non-finite samples") := by
    decide +kernel
  have hdecode : decodeAudioBytes skippedFrame = .ok [some 0] := by
    decide +kernel
  refine ⟨by decide, hvalidate, hdecode, fun hspec => ?_⟩
  have hok := hspec.agree.2 ⟨_, hdecode⟩
  rw [hvalidate] at hok
  cases hok

end spec

end Audio

end Emelex
