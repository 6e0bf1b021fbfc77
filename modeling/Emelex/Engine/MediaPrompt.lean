import Emelex.Engine.ChatHistory
import Emelex.Engine.ImageGeometry

/-!
# Prompts with media (`engine/generate.rs`, `engine/media/mod.rs`)

From the rendered tokens of a chat, with a placeholder for each attachment, to the prompt with a
span of soft tokens in the place of each placeholder.

* `ProcessedMediaBudget` — what is accounted, and refused, before an item is kept.
* `validateMediaBindings` — the kinds of the attachments are those of the placeholders.
* `preprocessParts` — the attachments, processed into a queue for each kind.
* `expandToken` — a turn of the walk over the rendered tokens.
* `encodeChatWithMediaFullInner` — all of it.

The decoders are parameters, `Processors`. Cancellation is left out.
-/

set_option autoImplicit false

namespace Emelex

open Checks Checked

namespace Media

def MAX_ENCODED_MEDIA_BYTES : Nat := 128 * 2 ^ 20
def MAX_TOTAL_ENCODED_MEDIA_BYTES : Nat := 256 * 2 ^ 20
def MAX_PROCESSED_MEDIA_ITEMS : Nat := 64
def MAX_RETAINED_MEDIA_TENSOR_BYTES : Nat := 512 * 2 ^ 20
def MAX_MEDIA_SOFT_TOKENS : Nat := 16384

/-- `usize::checked_add`. -/
abbrev addUsize (a b : Nat) : Option Nat := checkedAdd (2 ^ 64) a b

/-! ## The budget -/

structure PromptBudget where
  maxOutputTokens : Nat
  contextLimit : Nat
deriving DecidableEq, Repr

inductive ProcessedMediaKind where
  | image
  | audio
deriving DecidableEq, Repr

structure ProcessedMediaUsage where
  encodedItems : Nat
  encodedBytes : Nat
  images : Nat
  audioClips : Nat
  softTokens : Nat
  retainedTensorBytes : Nat
  promptTokens : Nat
deriving DecidableEq, Repr

structure ProcessedMediaBudget where
  usage : ProcessedMediaUsage
  prompt : Option PromptBudget
deriving DecidableEq, Repr

def contextError (promptTokens : Nat) (budget : PromptBudget) : Error :=
  .contextExceeded promptTokens budget.maxOutputTokens budget.contextLimit

/-- The tokens of the prompt and of the answer fit in the context. -/
def requireContext (promptTokens : Nat) : Option PromptBudget → Except Error Unit
  | none => .ok ()
  | some budget => do
    let requested ← required (contextError promptTokens budget)
      (addUsize promptTokens budget.maxOutputTokens)
    ensure (requested ≤ budget.contextLimit) (contextError promptTokens budget)

namespace ProcessedMediaBudget

def new (promptTokens : Nat) (prompt : Option PromptBudget) :
    Except Error ProcessedMediaBudget := do
  requireContext promptTokens prompt
  return {
    usage := {
      encodedItems := 0
      encodedBytes := 0
      images := 0
      audioClips := 0
      softTokens := 0
      retainedTensorBytes := 0
      promptTokens }
    prompt }

def reserveEncoded (budget : ProcessedMediaBudget) (bytes : Nat) :
    Except Error ProcessedMediaBudget := do
  ensure (bytes ≤ MAX_ENCODED_MEDIA_BYTES)
    (.model s!"encoded media item exceeds {MAX_ENCODED_MEDIA_BYTES} byte limit")
  let items ← required (.model "media attachment count overflow")
    (addUsize budget.usage.encodedItems 1)
  let encodedBytes ← required (.model "encoded media byte count overflow")
    (addUsize budget.usage.encodedBytes bytes)
  ensure (items ≤ MAX_PROCESSED_MEDIA_ITEMS)
    (.model s!"request exceeds {MAX_PROCESSED_MEDIA_ITEMS} media attachment limit")
  ensure (encodedBytes ≤ MAX_TOTAL_ENCODED_MEDIA_BYTES)
    (.model s!"encoded media exceeds {MAX_TOTAL_ENCODED_MEDIA_BYTES} aggregate byte limit")
  return { budget with usage := { budget.usage with encodedItems := items, encodedBytes } }

def retain (budget : ProcessedMediaBudget) (kind : ProcessedMediaKind)
    (tensorBytes softTokens promptExtraTokens : Nat) : Except Error ProcessedMediaBudget := do
  let processedItems ← required (.model "processed media item count overflow")
    ((addUsize budget.usage.images budget.usage.audioClips).bind fun items => addUsize items 1)
  ensure (processedItems ≤ MAX_PROCESSED_MEDIA_ITEMS)
    (.model s!"processed media exceeds {MAX_PROCESSED_MEDIA_ITEMS} item limit")
  let retainedTensorBytes ← required (.model "processed media tensor byte count overflow")
    (addUsize budget.usage.retainedTensorBytes tensorBytes)
  ensure (retainedTensorBytes ≤ MAX_RETAINED_MEDIA_TENSOR_BYTES)
    (.model
      s!"processed media tensors exceed {MAX_RETAINED_MEDIA_TENSOR_BYTES} aggregate byte limit")
  let aggregateSoftTokens ← required (.model "media soft-token count overflow")
    (addUsize budget.usage.softTokens softTokens)
  ensure (aggregateSoftTokens ≤ MAX_MEDIA_SOFT_TOKENS)
    (.model s!"processed media exceeds {MAX_MEDIA_SOFT_TOKENS} aggregate soft-token limit")
  let promptTokens ← required (.model "expanded media prompt length overflow")
    (addUsize budget.usage.promptTokens promptExtraTokens)
  requireContext promptTokens budget.prompt
  let usage := match kind with
    | .image => { budget.usage with images := budget.usage.images + 1 }
    | .audio => { budget.usage with audioClips := budget.usage.audioClips + 1 }
  return { budget with
    usage := { usage with softTokens := aggregateSoftTokens, retainedTensorBytes, promptTokens } }

end ProcessedMediaBudget

/-! ## Placeholders -/

abbrev Token := Nat

inductive MediaBindingKind where
  | image
  | audio
  | video
deriving DecidableEq, Repr

/-- `{:?}`. -/
def MediaBindingKind.debug : MediaBindingKind → String
  | .image => "Image"
  | .audio => "Audio"
  | .video => "Video"

def debugKinds (kinds : List MediaBindingKind) : String :=
  "[" ++ ", ".intercalate (kinds.map MediaBindingKind.debug) ++ "]"

structure MediaPlaceholderIds where
  image : Option Token
  audio : Option Token
  video : Option Token
deriving DecidableEq, Repr

def contentPartMediaKind : ContentPart → Option MediaBindingKind
  | .image _ => some .image
  | .audio _ => some .audio
  | .video _ => some .video
  | .text _ => none
  | .translation _ _ _ => none

def MediaPlaceholderIds.known (ids : MediaPlaceholderIds) :
    List (MediaBindingKind × Option Token) :=
  [(.image, ids.image), (.audio, ids.audio), (.video, ids.video)]

/-- No two kinds in use have the same id. -/
def requireUnambiguous (attachments : List MediaBindingKind) (promptIds : List Token) :
    List (MediaBindingKind × Option Token) → Except Error Unit
  | [] => .ok ()
  | (_, none) :: rest => requireUnambiguous attachments promptIds rest
  | (leftKind, some leftId) :: rest => do
    rest.forM fun (rightKind, rightId) =>
      ensure (¬ (some leftId = rightId ∧
          (leftId ∈ promptIds ∨ leftKind ∈ attachments ∨ rightKind ∈ attachments)))
        (.model (s!"ambiguous multimodal placeholder token {leftId}: {leftKind.debug} and " ++
          s!"{rightKind.debug} use the same ID"))
    requireUnambiguous attachments promptIds rest

/-- The first kind with this id. -/
def MediaPlaceholderIds.kindOf (ids : MediaPlaceholderIds) (token : Token) :
    Option MediaBindingKind :=
  ids.known.findSome? fun (kind, id) => if id = some token then some kind else none

def validateMediaBindings (parts : List ContentPart) (promptIds : List Token)
    (ids : MediaPlaceholderIds) : Except Error Unit := do
  let attachments := parts.filterMap contentPartMediaKind
  requireUnambiguous attachments promptIds ids.known
  let placeholders := promptIds.filterMap ids.kindOf
  ensure (attachments = placeholders)
    (.model ("rendered multimodal placeholders do not exactly match attachments: attachments " ++
      s!"{debugKinds attachments}, placeholders {debugKinds placeholders}"))

/-! ## Processed media -/

abbrev ProcessedImage := Image.ProcessedImage

/-- `retained_tensor_bytes`. -/
def imageTensorBytes (image : ProcessedImage) : Except Error Nat :=
  required (.model "processed image tensor byte count overflow")
    (checkedMul (2 ^ 64) image.pixelValues.values.length 4)

/-- A clip: a tensor for each chunk, and its frames. -/
structure ProcessedAudio where
  chunks : List Image.Tensor
  framesPerChunk : List Int
  raw : Bool

/-- The frames that two convolutions of stride 2 leave. -/
def subsampledLen (t : Int) : Int :=
  let n := (t - 1).tdiv 2 + 1
  (n - 1).tdiv 2 + 1

def ProcessedAudio.numSoftTokens (audio : ProcessedAudio) : Int :=
  if audio.raw then audio.framesPerChunk.sum else (audio.framesPerChunk.map subsampledLen).sum

/-- `retained_tensor_bytes`. -/
def audioTensorBytes (audio : ProcessedAudio) : Except Error Nat :=
  audio.chunks.foldlM (fun total chunk =>
    required (.model "processed audio tensor byte count overflow")
      ((checkedMul (2 ^ 64) chunk.values.length 4).bind fun bytes => addUsize total bytes)) 0

/-- The decoders. -/
structure Processors where
  preprocessImageBytes : List UInt8 → Int → Int → Int → Except Error ProcessedImage
  preprocessAudioBytes : List UInt8 → Except Error ProcessedAudio
  preprocessAudioBytesRaw : List UInt8 → Int → Except Error ProcessedAudio

/-- `extract_video_frames`. -/
def extractVideoFrames (_bytes : List UInt8) : Except Error (List (List UInt8)) :=
  .error (.model "self-contained video decoding is not available")

/-- What a model says of its media: the parameters of its images, and the ids of a placeholder and
of the boundaries of a span. -/
structure MediaModel where
  imageProcessingParams : Option (Int × Int × Int)
  imageTokenIds : Option (Token × Token × Token)
  audioTokenIds : Option (Token × Token × Token)
  audioSamplesPerToken : Option Int
  videoTokenId : Option Token

def MediaModel.placeholderIds (model : MediaModel) : MediaPlaceholderIds where
  image := model.imageTokenIds.map fun ids => ids.1
  audio := model.audioTokenIds.map fun ids => ids.1
  video := model.videoTokenId

structure MediaInputs where
  images : List ProcessedImage
  audios : List ProcessedAudio

/-- The queues that the walk takes from. -/
structure MediaQueues where
  images : List ProcessedImage
  videos : List (List ProcessedImage)
  audios : List ProcessedAudio

def mediaSoftTokens (value : Int) : Except Error Nat := do
  ensure (0 ≤ value) (.model "processed media produced a negative soft-token count")
  return value.toNat

section encode

variable (processors : Processors) (model : MediaModel)

/-- `preprocess_image_bytes` with the parameters of the model. -/
def processImage (params : Option (Int × Int × Int)) (missing : String) (bytes : List UInt8) :
    Except Error ProcessedImage := do
  let (patch, maxSoft, pool) ← required (.model missing) params
  processors.preprocessImageBytes bytes patch maxSoft pool

/-- The accounting of an image that adds `boundaryTokens` and its soft tokens. -/
def retainImage (budget : ProcessedMediaBudget) (image : ProcessedImage) (boundaryTokens : Nat)
    (overflow : String) : Except Error ProcessedMediaBudget := do
  let softTokens ← mediaSoftTokens image.numSoftTokens
  let tensorBytes ← imageTensorBytes image
  let extra ← required (.model overflow) (addUsize softTokens boundaryTokens)
  budget.retain .image tensorBytes softTokens extra

/-- The frames of a video; the first one takes the place of the placeholder. -/
def processFrames (params : Option (Int × Int × Int)) (missing : String) :
    Nat → List (List UInt8) → ProcessedMediaBudget →
      Except Error (ProcessedMediaBudget × List ProcessedImage)
  | _, [], budget => .ok (budget, [])
  | index, frame :: frames, budget => do
    let image ← processImage processors params missing frame
    let budget ← retainImage budget image (if index = 0 then 1 else 2)
      "video prompt expansion overflow"
    let (budget, images) ← processFrames params missing (index + 1) frames budget
    return (budget, image :: images)

/-- The clip of the model's kind. -/
def processAudio (bytes : List UInt8) : Except Error ProcessedAudio :=
  match model.audioSamplesPerToken with
  | some samples => processors.preprocessAudioBytesRaw bytes samples
  | none => processors.preprocessAudioBytes bytes

def retainAudio (budget : ProcessedMediaBudget) (audio : ProcessedAudio) :
    Except Error ProcessedMediaBudget := do
  let softTokens ← mediaSoftTokens audio.numSoftTokens
  let tensorBytes ← audioTensorBytes audio
  let extra ← required (.model "audio prompt expansion overflow") (addUsize softTokens 1)
  budget.retain .audio tensorBytes softTokens extra

/-- A turn of the loop over the parts. -/
def preprocessPart (params : Option (Int × Int × Int)) :
    ProcessedMediaBudget × MediaQueues → ContentPart →
      Except Error (ProcessedMediaBudget × MediaQueues)
  | (budget, queues), .image bytes => do
    let image ← processImage processors params
      "cannot preprocess attached image: model has no vision support" bytes
    let budget ← retainImage budget image 1 "image prompt expansion overflow"
    return (budget, { queues with images := queues.images ++ [image] })
  | (budget, queues), .video bytes => do
    let _ ← required (.model "cannot preprocess attached video: model has no vision support") params
    let frames ← extractVideoFrames bytes
    let (budget, images) ← processFrames processors params
      "cannot preprocess attached video: model has no vision support" 0 frames budget
    return (budget, { queues with videos := queues.videos ++ [images] })
  | (budget, queues), .audio bytes => do
    let audio ← processAudio processors model bytes
    let budget ← retainAudio budget audio
    return (budget, { queues with audios := queues.audios ++ [audio] })
  | state, .text _ => .ok state
  | state, .translation _ _ _ => .ok state

/-- The bytes of the attachments, accounted before any is decoded. -/
def reserveParts (parts : List ContentPart) (budget : ProcessedMediaBudget) :
    Except Error ProcessedMediaBudget :=
  parts.foldlM (fun budget part => match part with
    | .image bytes | .audio bytes | .video bytes => budget.reserveEncoded bytes.length
    | .text _ | .translation _ _ _ => .ok budget) budget

/-- The budget and the queues of all attachments. -/
def preprocessParts (params : Option (Int × Int × Int)) (parts : List ContentPart)
    (promptTokens : Nat) (promptBudget : Option PromptBudget) :
    Except Error (ProcessedMediaBudget × MediaQueues) := do
  let budget ← ProcessedMediaBudget.new promptTokens promptBudget
  let budget ← reserveParts parts budget
  parts.foldlM (preprocessPart processors model params)
    (budget, { images := [], videos := [], audios := [] })

/-! ## The walk -/

/-- A span of soft tokens between its boundaries. -/
def span (open_ token close : Token) (numSoftTokens : Int) : List Token :=
  open_ :: List.replicate numSoftTokens.toNat token ++ [close]

structure Expansion where
  expanded : List Token
  media : MediaInputs
  queues : MediaQueues

/-- The next item of a queue. -/
def takeNext {α : Type} (kind : String) : List α → Except Error (α × List α)
  | [] => .error (.model s!"validated {kind} placeholder exhausted its attachment queue")
  | item :: rest => .ok (item, rest)

/-- A turn of the walk over the rendered tokens. -/
def expandToken (imageIds audioIds : Option (Token × Token × Token)) (videoTokenId : Option Token)
    (state : Expansion) (t : Token) : Except Error Expansion := do
  match imageIds with
  | some (imageTokenId, boi, eoi) =>
    if t = imageTokenId then
      let (image, images) ← takeNext "image" state.queues.images
      return {
        expanded := state.expanded ++ span boi imageTokenId eoi image.numSoftTokens
        media := { state.media with images := state.media.images ++ [image] }
        queues := { state.queues with images } }
    else if videoTokenId = some t then
      let (frames, videos) ← takeNext "video" state.queues.videos
      return {
        expanded := state.expanded ++
          frames.flatMap fun frame => span boi imageTokenId eoi frame.numSoftTokens
        media := { state.media with images := state.media.images ++ frames }
        queues := { state.queues with videos } }
    else expandAudio
  | none => expandAudio
where
  /-- What is no placeholder of an image or a video. -/
  expandAudio : Except Error Expansion :=
    match audioIds with
    | some (audioTokenId, boa, eoa) =>
      if t = audioTokenId then do
        let (clip, audios) ← takeNext "audio" state.queues.audios
        return {
          expanded := state.expanded ++ span boa audioTokenId eoa clip.numSoftTokens
          media := { state.media with audios := state.media.audios ++ [clip] }
          queues := { state.queues with audios } }
      else .ok { state with expanded := state.expanded ++ [t] }
    | none => .ok { state with expanded := state.expanded ++ [t] }

/-- The walk; nothing is left in the queues. -/
def expandPlaceholders (imageIds audioIds : Option (Token × Token × Token))
    (videoTokenId : Option Token) (baseIds : List Token) (queues : MediaQueues) :
    Except Error (List Token × MediaInputs) := do
  let state ← baseIds.foldlM (expandToken imageIds audioIds videoTokenId)
    { expanded := [], media := { images := [], audios := [] }, queues }
  ensure (state.queues.images.isEmpty ∧ state.queues.videos.isEmpty ∧ state.queues.audios.isEmpty)
    (.model "validated multimodal expansion left unbound attachments")
  return (state.expanded, state.media)

/-! ## All of it -/

def hasVisualMedia (parts : List ContentPart) : Prop :=
  ∃ part ∈ parts, contentPartMediaKind part = some .image ∨
    contentPartMediaKind part = some .video

def hasAudio (parts : List ContentPart) : Prop :=
  ∃ part ∈ parts, contentPartMediaKind part = some .audio

def hasVideo (parts : List ContentPart) : Prop :=
  ∃ part ∈ parts, contentPartMediaKind part = some .video

instance (parts : List ContentPart) : Decidable (hasVisualMedia parts) := by
  unfold hasVisualMedia
  infer_instance

instance (parts : List ContentPart) : Decidable (hasAudio parts) := by
  unfold hasAudio
  infer_instance

instance (parts : List ContentPart) : Decidable (hasVideo parts) := by
  unfold hasVideo
  infer_instance

/-- `image_params`. -/
def imageParams (parts : List ContentPart) :
    Except Error (Option ((Int × Int × Int) × (Token × Token × Token))) :=
  if hasVisualMedia parts then do
    let params ← required
      (.model ("images/videos were attached but this model has no vision support " ++
        "(no vision_config)"))
      model.imageProcessingParams
    let ids ← required
      (.model "model vision configuration is incomplete: image token IDs are missing")
      model.imageTokenIds
    return some (params, ids)
  else return none

/-- `audio_ids`. -/
def audioIds (parts : List ContentPart) : Except Error (Option (Token × Token × Token)) :=
  if hasAudio parts then do
    let ids ← required
      (.model "audio was attached but this model has no audio support (no audio_config)")
      model.audioTokenIds
    return some ids
  else return none

/-- `encode_chat_with_media_full_inner`, of rendered and encoded messages. -/
def encodeChatWithMediaFullInner {P : Type}
    (rendered : List ChatMessage → Except Error (List Token × P)) (messages : List ChatMessage)
    (promptBudget : Option PromptBudget) : Except Error (List Token × MediaInputs × P) := do
  let (baseIds, pendingReasoning) ← rendered messages
  let parts := messages.flatMap ChatMessage.content
  let imageParams ← imageParams model parts
  let audioIds ← audioIds model parts
  ensure (¬ (hasVideo parts ∧ model.videoTokenId = none))
    (.model "model vision configuration is incomplete: video token ID is missing")
  validateMediaBindings parts baseIds model.placeholderIds
  if ¬ hasVisualMedia parts ∧ ¬ hasAudio parts then
    return (baseIds, { images := [], audios := [] }, pendingReasoning)
  else
    let (_, queues) ← preprocessParts processors model (imageParams.map Prod.fst) parts
      baseIds.length promptBudget
    let (expanded, media) ← expandPlaceholders (imageParams.map Prod.snd) audioIds
      model.videoTokenId baseIds queues
    return (expanded, media, pendingReasoning)

end encode

end Media

end Emelex
