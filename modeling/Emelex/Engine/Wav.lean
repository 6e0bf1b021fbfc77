import Emelex.Engine.Error
import Emelex.Lib.Checks
import Mathlib.Algebra.Field.Rat
import Mathlib.Algebra.Order.Ring.Unbundled.Rat

/-!
# Audio files (`engine/media/audio.rs`)

RIFF/WAVE files of PCM16 or float32, decoded to 16 kHz mono samples. A sample is a rational number,
or the error value of a float that is not finite; a calculation with an error value is one.

* `Stop` — why a function stops: an error, a read out of bounds, or a loop without end.
* `parseWav` — the walk over the chunks, and the checks of the header.
* `decodeWav`, `resamplePcm`, `validatePcm` — the mean of the channels, at 16 kHz.
* `validateAudioBytes`, `decodeAudioBytes` — the two entries.
* `logMelSpectrogram` — the frames of a chunk of samples.
-/

set_option autoImplicit false

namespace Emelex

open Checks

namespace Audio

def MAX_ENCODED_MEDIA_BYTES : Nat := 128 * 2 ^ 20
def AUDIO_SAMPLE_RATE : Nat := 16000
def N_FFT : Nat := 512
def WINDOW_LEN : Nat := 320
def HOP : Nat := 160
def MAX_AUDIO_SECONDS : Nat := 10 * 60
def MAX_AUDIO_SAMPLES : Nat := MAX_AUDIO_SECONDS * AUDIO_SAMPLE_RATE
def USIZE_MAX : Nat := 18446744073709551615
def U32_MAX : Nat := 4294967295

/-- Why a function stops before its end. -/
inductive Stop where
  | error (error : Error)
  | outOfBounds
  | outOfFuel
deriving DecidableEq, Repr

def model (message : String) : Stop := .error (.model message)

/-- `&bytes[start..stop]`. -/
def slice {α : Type} (items : List α) (start stop : Nat) : Except Stop (List α) :=
  if start ≤ stop ∧ stop ≤ items.length then .ok ((items.drop start).take (stop - start))
  else .error .outOfBounds

/-- `from_le_bytes` of an unsigned number. -/
def fromLeBytes : List UInt8 → Nat
  | [] => 0
  | byte :: bytes => byte.toNat + 256 * fromLeBytes bytes

/-- `checked_add` and `checked_mul` of `usize`. -/
def checkedUsize (value : Nat) (message : String) : Except Stop Nat := do
  ensure (value ≤ USIZE_MAX) (model message)
  return value

/-! ## Chunks -/

def RIFF : List UInt8 := [0x52, 0x49, 0x46, 0x46]
def WAVE : List UInt8 := [0x57, 0x41, 0x56, 0x45]
def FMT : List UInt8 := [0x66, 0x6d, 0x74, 0x20]
def DATA : List UInt8 := [0x64, 0x61, 0x74, 0x61]

/-- The fields of a `fmt ` chunk; they are read together. -/
structure WavFormat where
  audioFormat : Nat
  numChannels : Nat
  sampleRate : Nat
  byteRate : Nat
  blockAlign : Nat
  bitsPerSample : Nat
deriving DecidableEq, Repr

def readFormat (body : List UInt8) : Except Stop WavFormat := do
  let audioFormat ← slice body 0 2
  let numChannels ← slice body 2 4
  let sampleRate ← slice body 4 8
  let byteRate ← slice body 8 12
  let blockAlign ← slice body 12 14
  let bitsPerSample ← slice body 14 16
  return {
    audioFormat := fromLeBytes audioFormat
    numChannels := fromLeBytes numChannels
    sampleRate := fromLeBytes sampleRate
    byteRate := fromLeBytes byteRate
    blockAlign := fromLeBytes blockAlign
    bitsPerSample := fromLeBytes bitsPerSample }

/-- What the walk has found. -/
structure Found where
  format : Option WavFormat
  data : Option (List UInt8)
deriving DecidableEq, Repr

/-- A turn of the walk: the chunk with its id and its body. -/
def visitChunk (found : Found) (chunkId body : List UInt8) : Except Stop Found := do
  if chunkId = FMT then
    ensure (found.format = none) (model "corrupt WAV: duplicate fmt chunk")
    ensure (16 ≤ body.length) (model "corrupt WAV: fmt chunk too short")
    let format ← readFormat body
    return { found with format := some format }
  else if chunkId = DATA then
    ensure (found.data = none) (model "corrupt WAV: duplicate data chunk")
    return { found with data := some body }
  else return found

/-- The walk over the chunks from `pos`. -/
def walkChunks (bytes : List UInt8) : Nat → Nat → Found → Except Stop Found
  | 0, _, _ => .error .outOfFuel
  | fuel + 1, pos, found => do
    if pos + 8 ≤ bytes.length then
      let chunkId ← slice bytes pos (pos + 4)
      let size ← slice bytes (pos + 4) (pos + 8)
      let chunkSize := fromLeBytes size
      let bodyStart := pos + 8
      let bodyEnd ← checkedUsize (bodyStart + chunkSize) "corrupt WAV: chunk size overflow"
      ensure (bodyEnd ≤ bytes.length) (model "corrupt WAV: truncated chunk")
      let body ← slice bytes bodyStart bodyEnd
      let found ← visitChunk found chunkId body
      let pos ← checkedUsize (bodyEnd + chunkSize % 2) "corrupt WAV: padded chunk size overflow"
      ensure (pos ≤ bytes.length) (model "corrupt WAV: truncated chunk padding")
      walkChunks bytes fuel pos found
    else
      ensure (pos = bytes.length) (model "corrupt WAV: truncated chunk header")
      return found

/-! ## The header -/

inductive WavEncoding where
  | pcm16
  | float32
deriving DecidableEq, Repr

def WavEncoding.bytesPerSample : WavEncoding → Nat
  | .pcm16 => 2
  | .float32 => 4

/-- `Wav`. -/
structure Wav where
  encoding : Option WavEncoding
  channels : Nat
  sampleRate : Nat
  frameBytes : Nat
  data : List UInt8
deriving DecidableEq, Repr

/-- The codec of a format tag and a sample width. -/
def encodingOf : Nat → Nat → Option WavEncoding
  | 1, 16 => some .pcm16
  | 3, 32 => some .float32
  | _, _ => none

def unsupportedAudio : Stop :=
  model "self-contained audio decoding accepts RIFF/WAVE PCM16 or float32 only"

/-- The checks of `parse_wav` after the walk. -/
def checkHeader (format : WavFormat) (data : List UInt8) : Except Stop Wav := do
  ensure (format.numChannels ≠ 0 ∧ format.numChannels ≤ 32 ∧ format.sampleRate ≠ 0 ∧
      format.sampleRate ≤ 384000)
    (model "corrupt WAV: channel count or sample rate is unsupported")
  match encodingOf format.audioFormat format.bitsPerSample with
  | none =>
    return {
      encoding := none
      channels := format.numChannels
      sampleRate := format.sampleRate
      frameBytes := format.blockAlign
      data }
  | some encoding =>
    let frameBytes ← checkedUsize (format.numChannels * encoding.bytesPerSample)
      "corrupt WAV: frame size overflow"
    ensure (format.blockAlign = frameBytes)
      (model "corrupt WAV: block alignment does not match channels and sample width")
    ensure (frameBytes ≤ U32_MAX) (model "corrupt WAV: frame size does not fit byte rate")
    let expectedByteRate := format.sampleRate * frameBytes
    ensure (expectedByteRate ≤ U32_MAX) (model "corrupt WAV: byte rate overflow")
    ensure (format.byteRate = expectedByteRate)
      (model "corrupt WAV: byte rate does not match sample rate and frame size")
    ensure (data ≠ [] ∧ data.length % frameBytes = 0) (model "corrupt WAV: partial audio frame")
    let sourceSampleLimit ← checkedUsize (MAX_AUDIO_SECONDS * format.sampleRate)
      "WAV duration limit overflow"
    ensure (data.length / frameBytes ≤ sourceSampleLimit)
      (model s!"decoded audio exceeds {MAX_AUDIO_SECONDS} second limit")
    return {
      encoding := some encoding
      channels := format.numChannels
      sampleRate := format.sampleRate
      frameBytes
      data }

/-- `parse_wav`. -/
def parseWav (bytes : List UInt8) : Except Stop Wav := do
  ensure (12 ≤ bytes.length) unsupportedAudio
  let riff ← slice bytes 0 4
  let wave ← slice bytes 8 12
  ensure (riff = RIFF ∧ wave = WAVE) unsupportedAudio
  let size ← slice bytes 4 8
  let declaredEnd ← checkedUsize (fromLeBytes size + 8) "corrupt WAV: RIFF size overflow"
  ensure (declaredEnd = bytes.length)
    (model "corrupt WAV: RIFF size does not match file length")
  let found ← walkChunks bytes (bytes.length + 1) 12 { format := none, data := none }
  let format ← required (model "corrupt WAV: missing fmt chunk") found.format
  let data ← required (model "corrupt WAV: missing data chunk") found.data
  checkHeader format data

/-! ## Samples -/

/-- A sample; none for a float that is not finite. -/
abbrev Sample := Option ℚ

/-- `i16::from_le_bytes`. -/
def i16FromLeBytes (bytes : List UInt8) : Int :=
  let bits := fromLeBytes bytes
  if bits < 2 ^ 15 then bits else bits - 2 ^ 16

/-- `f32::from_le_bytes`: a sign, 8 bits of exponent and 23 bits of fraction. -/
def f32FromLeBytes (bytes : List UInt8) : Sample :=
  let bits := fromLeBytes bytes
  let sign : ℚ := if bits / 2 ^ 31 % 2 = 0 then 1 else -1
  let exponent : Nat := bits / 2 ^ 23 % 2 ^ 8
  let fraction : Nat := bits % 2 ^ 23
  if exponent = 2 ^ 8 - 1 then none
  else if exponent = 0 then some (sign * (fraction / 2 ^ 149))
  else some (sign * ((2 ^ 23 + fraction) * 2 ^ exponent / 2 ^ 150))

/-- `decode_sample`. -/
def decodeSample : WavEncoding → List UInt8 → Sample
  | .pcm16, sample => some (i16FromLeBytes sample / 32768)
  | .float32, sample => f32FromLeBytes sample

/-- `chunks_exact`: what is left over is not a chunk. -/
def chunksExact {α : Type} (size : Nat) (items : List α) : List (List α) :=
  (List.range (items.length / size)).map fun i => (items.drop (i * size)).take size

/-- Arithmetic where an error value is propagated. -/
def addSample (a b : Sample) : Sample := a.bind fun a => b.map fun b => a + b

def sumSamples (samples : List Sample) : Sample := samples.foldl addSample (some 0)

def divSample (a : Sample) (n : Nat) : Sample := a.map fun a => a / n

/-- `first + (second - first) * fraction`. -/
def interpolate (first second : Sample) (fraction : ℚ) : Sample :=
  first.bind fun first => second.map fun second => first + (second - first) * fraction

/-! ## Resampling -/

/-- The loop of `resample_pcm`; it breaks off where there is no sample. -/
def resampleLoop (input : List Sample) (sampleRate : Nat) : List Nat → Except Stop (List Sample)
  | [] => .ok []
  | index :: indices => do
    let numerator ← checkedUsize (index * sampleRate) "audio resampling position overflow"
    let left := numerator / AUDIO_SAMPLE_RATE
    let remainder := numerator % AUDIO_SAMPLE_RATE
    match input[left]? with
    | none => return []
    | some first =>
      let second := input[left + 1]?.getD first
      let output ← resampleLoop input sampleRate indices
      return interpolate first second ((remainder : ℚ) / AUDIO_SAMPLE_RATE) :: output

/-- `resample_pcm`. -/
def resamplePcm (input : List Sample) (sampleRate : Nat) : Except Stop (List Sample) := do
  if sampleRate = AUDIO_SAMPLE_RATE ∨ input = [] then return input
  else
    let scaled ← checkedUsize (input.length * AUDIO_SAMPLE_RATE) "resampled audio length overflow"
    let scaled ← checkedUsize (scaled + (sampleRate - 1)) "resampled audio length overflow"
    let outputLen := scaled / sampleRate
    ensure (outputLen ≤ MAX_AUDIO_SAMPLES)
      (model s!"decoded audio exceeds {MAX_AUDIO_SECONDS} second limit")
    resampleLoop input sampleRate (List.range outputLen)

/-- `validate_pcm`. -/
def validatePcm (pcm : List Sample) : Except Stop (List Sample) := do
  ensure (pcm.length ≤ MAX_AUDIO_SAMPLES)
    (model s!"decoded audio exceeds {MAX_AUDIO_SECONDS} second limit")
  ensure (∀ sample ∈ pcm, sample.isSome = true)
    (model "decoded audio contains non-finite samples")
  return pcm

/-! ## Entries -/

/-- The mean of the channels at every frame. -/
def downmix (wav : Wav) (encoding : WavEncoding) : List Sample :=
  if wav.channels = 1 then
    (chunksExact encoding.bytesPerSample wav.data).map (decodeSample encoding)
  else
    (chunksExact wav.frameBytes wav.data).map fun frame =>
      let samples := (chunksExact encoding.bytesPerSample frame).map (decodeSample encoding)
      divSample (sumSamples samples) wav.channels

/-- `decode_wav`. -/
def decodeWav (bytes : List UInt8) : Except Stop (Option (List Sample)) := do
  let wav ← parseWav bytes
  match wav.encoding with
  | none => return none
  | some encoding => some <$> resamplePcm (downmix wav encoding) wav.sampleRate

def validateEncodedAudioSize (data : List UInt8) : Except Stop Unit :=
  ensure (data.length ≤ MAX_ENCODED_MEDIA_BYTES)
    (model s!"encoded audio exceeds {MAX_ENCODED_MEDIA_BYTES} byte limit")

/-- `validate_audio_bytes`. -/
def validateAudioBytes (data : List UInt8) : Except Stop Unit := do
  validateEncodedAudioSize data
  let wav ← parseWav data
  match wav.encoding with
  | none => .error unsupportedAudio
  | some .pcm16 => return ()
  | some .float32 =>
    ensure (∀ sample ∈ chunksExact WavEncoding.float32.bytesPerSample wav.data,
        (f32FromLeBytes sample).isSome = true)
      (model "decoded audio contains non-finite samples")

/-- `decode_audio_bytes`. -/
def decodeAudioBytes (data : List UInt8) : Except Stop (List Sample) := do
  validateEncodedAudioSize data
  match ← decodeWav data with
  | none => .error unsupportedAudio
  | some pcm => validatePcm pcm

/-! ## Frames -/

section frames

variable {μ : Type}

/-- `log_mel_spectrogram`: a window of the padded samples for each frame; `melFrame` stands for the
transform of a window and the filters. -/
def logMelSpectrogram (melFrame : List Sample → List μ) (chunk : List Sample) :
    Except Stop (List (List μ)) := do
  let padLeft := WINDOW_LEN / 2
  let nWithLeft := chunk.length + padLeft
  if nWithLeft < WINDOW_LEN + 1 then return []
  else
    let ptFrames := (nWithLeft - (WINDOW_LEN + 1)) / HOP + 1
    let nPaddedNeeded := (ptFrames - 1) * HOP + N_FFT
    let totalPad := max (nPaddedNeeded - chunk.length) padLeft
    let padded := List.replicate padLeft (some 0) ++ chunk ++
      List.replicate (totalPad - padLeft) (some 0)
    ensure (N_FFT ≤ padded.length) .outOfBounds
    let nFrames := min ((padded.length - N_FFT) / HOP + 1) ptFrames
    (List.range nFrames).mapM fun t => do
      let window ← slice padded (t * HOP) (t * HOP + N_FFT)
      return melFrame window

end frames

end Audio

end Emelex
