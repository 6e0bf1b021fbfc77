import Emelex.Engine.MediaWalk

/-!
# The queues and the budget of the attachments

* `Validated` — what is known of rendered tokens that passed the validation.
* `Accounted` — what the budget has taken up between two points.
* `Queued` — queues that hold the processed attachments in their order.

Principal results: `validateMediaBindings_ok`, `retain_ok`, `preprocessParts_ok`.
-/

set_option autoImplicit false

namespace Emelex

open Checks Checked

namespace Media

/-! ## The kinds of the placeholders -/

section validation

variable {ids : MediaPlaceholderIds} {promptIds : List Token} {parts : List ContentPart}

theorem forM_eq_ok {α : Type} {xs : List α} {f : α → Except Error Unit} (h : xs.forM f = .ok ()) :
    ∀ x ∈ xs, f x = .ok () := by
  induction xs with
  | nil => simp
  | cons x xs ih =>
    have hcons : (f x >>= fun _ => xs.forM f) = .ok () := h
    obtain ⟨_, hx, hxs⟩ := bind_eq_ok.1 hcons
    exact List.forall_mem_cons.2 ⟨hx, ih hxs⟩

theorem requireUnambiguous_ok {attachments : List MediaBindingKind}
    {known : List (MediaBindingKind × Option Token)}
    (h : requireUnambiguous attachments promptIds known = .ok ()) :
    known.Pairwise fun left right => ∀ t ∈ promptIds, left.2 = some t → right.2 ≠ some t := by
  induction known with
  | nil => exact List.Pairwise.nil
  | cons left rest ih =>
    obtain ⟨leftKind, leftId⟩ := left
    cases leftId with
    | none => exact List.pairwise_cons.2 ⟨fun _ _ _ _ hleft => absurd hleft (by simp), ih h⟩
    | some leftId =>
      rw [requireUnambiguous, bind_eq_ok] at h
      obtain ⟨_, hall, hrest⟩ := h
      refine List.pairwise_cons.2 ⟨fun right hright t ht hleft hsame => ?_, ih hrest⟩
      obtain rfl := Option.some.inj hleft
      obtain ⟨rightKind, rightId⟩ := right
      exact ensure_eq_ok.1 (forM_eq_ok hall _ hright) ⟨hsame.symm, .inl ht⟩

/-- What the validation establishes: the kinds in their order, and one kind for a token. -/
structure Validated (ids : MediaPlaceholderIds) (promptIds : List Token)
    (parts : List ContentPart) : Prop where
  kinds : parts.filterMap contentPartMediaKind = promptIds.filterMap ids.kindOf
  imageAudio : ∀ t ∈ promptIds, ids.image = some t → ids.audio ≠ some t
  imageVideo : ∀ t ∈ promptIds, ids.image = some t → ids.video ≠ some t
  audioVideo : ∀ t ∈ promptIds, ids.audio = some t → ids.video ≠ some t

theorem validateMediaBindings_ok (h : validateMediaBindings parts promptIds ids = .ok ()) :
    Validated ids promptIds parts := by
  unfold validateMediaBindings at h
  simp only [bind_eq_ok, ensure_eq_ok] at h
  obtain ⟨_, hunambiguous, hkinds⟩ := h
  have hpairwise := requireUnambiguous_ok hunambiguous
  simp only [MediaPlaceholderIds.known, List.pairwise_cons, List.mem_cons, List.not_mem_nil,
    or_false, forall_eq_or_imp, forall_eq] at hpairwise
  obtain ⟨⟨himageAudio, himageVideo⟩, haudioVideo, -⟩ := hpairwise
  exact ⟨hkinds, himageAudio, himageVideo, haudioVideo⟩

theorem kindOf_eq (t : Token) : ids.kindOf t =
    if ids.image = some t then some .image
    else if ids.audio = some t then some .audio
    else if ids.video = some t then some .video
    else none := by
  unfold MediaPlaceholderIds.kindOf MediaPlaceholderIds.known
  by_cases himage : ids.image = some t
  · simp [himage]
  · by_cases haudio : ids.audio = some t
    · simp [himage, haudio]
    · by_cases hvideo : ids.video = some t <;> simp [himage, haudio, hvideo]

/-- The tokens of a kind are those of its id. -/
theorem count_kindOf {spanIds : SpanIds} {kind : MediaBindingKind}
    (h : ∀ t ∈ promptIds, ids.kindOf t = some kind ↔ IsPlaceholder spanIds t) :
    (promptIds.filterMap ids.kindOf).count kind = placeholderCount spanIds promptIds := by
  rw [List.count_eq_countP, List.countP_filterMap, placeholderCount]
  refine List.countP_congr fun t ht => ?_
  rw [decide_eq_true_iff, ← h t ht]
  cases ids.kindOf t <;> simp

end validation

/-! ## The attachments -/

def imageBytes : ContentPart → Option (List UInt8)
  | .image bytes => some bytes
  | _ => none

def audioBytes : ContentPart → Option (List UInt8)
  | .audio bytes => some bytes
  | _ => none

theorem count_images (parts : List ContentPart) :
    (parts.filterMap contentPartMediaKind).count .image = (parts.filterMap imageBytes).length := by
  rw [List.count_eq_countP, List.countP_filterMap, List.length_filterMap_eq_countP]
  refine List.countP_congr fun part _ => ?_
  cases part <;> simp [contentPartMediaKind, imageBytes]

theorem count_audios (parts : List ContentPart) :
    (parts.filterMap contentPartMediaKind).count .audio = (parts.filterMap audioBytes).length := by
  rw [List.count_eq_countP, List.countP_filterMap, List.length_filterMap_eq_countP]
  refine List.countP_congr fun part _ => ?_
  cases part <;> simp [contentPartMediaKind, audioBytes]

/-! ## The budget -/

/-- The tokens of the spans that are not there before: a placeholder gives way to its soft tokens
and two boundaries. -/
def addedTokens (numSoftTokens : List ℤ) : ℕ := (numSoftTokens.map fun n => n.toNat + 1).sum

def totalSoftTokens (numSoftTokens : List ℤ) : ℕ := (numSoftTokens.map Int.toNat).sum

/-- The prompt and the answer fit in the context. -/
def Within (promptTokens : ℕ) (prompt : Option PromptBudget) : Prop :=
  ∀ budget, prompt = some budget →
    promptTokens + budget.maxOutputTokens ≤ budget.contextLimit

/-- What is accounted from one budget to another. -/
structure Accounted (before after : ProcessedMediaBudget) (images audios : List ℤ) : Prop where
  prompt : after.prompt = before.prompt
  promptTokens : after.usage.promptTokens =
    before.usage.promptTokens + addedTokens images + addedTokens audios
  softTokens : after.usage.softTokens =
    before.usage.softTokens + totalSoftTokens images + totalSoftTokens audios
  limit : before.usage.softTokens ≤ MAX_MEDIA_SOFT_TOKENS →
    after.usage.softTokens ≤ MAX_MEDIA_SOFT_TOKENS
  within : Within before.usage.promptTokens before.prompt →
    Within after.usage.promptTokens after.prompt

theorem Accounted.refl (budget : ProcessedMediaBudget) : Accounted budget budget [] [] :=
  ⟨rfl, rfl, rfl, id, id⟩

theorem Accounted.trans {a b c : ProcessedMediaBudget} {images images' audios audios' : List ℤ}
    (hab : Accounted a b images audios) (hbc : Accounted b c images' audios') :
    Accounted a c (images ++ images') (audios ++ audios') := by
  refine ⟨hbc.prompt.trans hab.prompt, ?_, ?_, hbc.limit ∘ hab.limit, hbc.within ∘ hab.within⟩
  · rw [hbc.promptTokens, hab.promptTokens]
    simp only [addedTokens, List.map_append, List.sum_append]
    omega
  · rw [hbc.softTokens, hab.softTokens]
    simp only [totalSoftTokens, List.map_append, List.sum_append]
    omega

theorem requireContext_ok {promptTokens : ℕ} {prompt : Option PromptBudget}
    (h : requireContext promptTokens prompt = .ok ()) : Within promptTokens prompt := by
  rintro budget rfl
  simp only [requireContext, bind_eq_ok, ensure_eq_ok, required_eq_ok, addUsize,
    checkedAdd_eq_some] at h
  obtain ⟨_, ⟨-, rfl⟩, hle⟩ := h
  exact hle

/-- What an item that is kept adds. -/
theorem retain_ok {before after : ProcessedMediaBudget} {kind : ProcessedMediaKind}
    {tensorBytes soft extra : ℕ} (h : before.retain kind tensorBytes soft extra = .ok after) :
    after.prompt = before.prompt ∧ after.usage.promptTokens = before.usage.promptTokens + extra ∧
      after.usage.softTokens = before.usage.softTokens + soft ∧
      after.usage.softTokens ≤ MAX_MEDIA_SOFT_TOKENS ∧
      Within after.usage.promptTokens after.prompt := by
  unfold ProcessedMediaBudget.retain at h
  simp only [bind_eq_ok, ensure_eq_ok, required_eq_ok, addUsize, checkedAdd_eq_some,
    pure_eq_ok] at h
  obtain ⟨_, -, _, -, _, -, _, -, softTokens, ⟨-, hsoft⟩, _, hlimit, promptTokens, ⟨-, hprompt⟩, _,
    hcontext, rfl⟩ := h
  exact ⟨rfl, hprompt.symm, hsoft.symm, hlimit, requireContext_ok hcontext⟩

theorem mediaSoftTokens_ok {value : ℤ} {result : ℕ} (h : mediaSoftTokens value = .ok result) :
    result = value.toNat := by
  unfold mediaSoftTokens at h
  simp only [bind_eq_ok, ensure_eq_ok, pure_eq_ok] at h
  obtain ⟨_, -, rfl⟩ := h
  rfl

theorem retainImage_ok {before after : ProcessedMediaBudget} {image : ProcessedImage}
    {overflow : String} (h : retainImage before image 1 overflow = .ok after) :
    Accounted before after [image.numSoftTokens] [] := by
  unfold retainImage at h
  simp only [bind_eq_ok, required_eq_ok, addUsize, checkedAdd_eq_some] at h
  obtain ⟨soft, hsoft, _, -, extra, ⟨-, rfl⟩, hretain⟩ := h
  obtain rfl := mediaSoftTokens_ok hsoft
  obtain ⟨hprompt, htokens, hsoftTokens, hlimit, hwithin⟩ := retain_ok hretain
  refine ⟨hprompt, ?_, ?_, fun _ => hlimit, fun _ => hwithin⟩
  · rw [htokens]
    simp [addedTokens]
  · rw [hsoftTokens]
    simp [totalSoftTokens]

theorem retainAudio_ok {before after : ProcessedMediaBudget} {audio : ProcessedAudio}
    (h : retainAudio before audio = .ok after) :
    Accounted before after [] [audio.numSoftTokens] := by
  unfold retainAudio at h
  simp only [bind_eq_ok, required_eq_ok, addUsize, checkedAdd_eq_some] at h
  obtain ⟨soft, hsoft, _, -, extra, ⟨-, rfl⟩, hretain⟩ := h
  obtain rfl := mediaSoftTokens_ok hsoft
  obtain ⟨hprompt, htokens, hsoftTokens, hlimit, hwithin⟩ := retain_ok hretain
  refine ⟨hprompt, ?_, ?_, fun _ => hlimit, fun _ => hwithin⟩
  · rw [htokens]
    simp [addedTokens]
  · rw [hsoftTokens]
    simp [totalSoftTokens]

theorem reserveParts_ok {parts : List ContentPart} {before after : ProcessedMediaBudget}
    (h : reserveParts parts before = .ok after) : Accounted before after [] [] := by
  induction parts generalizing before with
  | nil =>
    cases h
    exact .refl _
  | cons part parts ih =>
    have hcons := h
    rw [reserveParts, List.foldlM_cons, bind_eq_ok] at hcons
    obtain ⟨next, hnext, hrest⟩ := hcons
    have hstep : Accounted before next [] [] := by
      have hreserve : ∀ bytes, before.reserveEncoded bytes = .ok next →
          Accounted before next [] [] := by
        intro bytes hbytes
        unfold ProcessedMediaBudget.reserveEncoded at hbytes
        simp only [bind_eq_ok, ensure_eq_ok, required_eq_ok, pure_eq_ok] at hbytes
        obtain ⟨_, -, _, -, _, -, _, -, _, -, rfl⟩ := hbytes
        exact ⟨rfl, rfl, rfl, id, id⟩
      cases part with
      | image bytes => exact hreserve _ hnext
      | audio bytes => exact hreserve _ hnext
      | video bytes => exact hreserve _ hnext
      | text text =>
        cases hnext
        exact .refl _
      | translation sourceLang targetLang text =>
        cases hnext
        exact .refl _
    exact hstep.trans (ih hrest)

/-! ## The queues -/

section queues

variable {processors : Processors} {model : MediaModel}

/-- The image of the bytes, with the parameters of the model. -/
def ImageOf (processors : Processors) (params : Option (ℤ × ℤ × ℤ)) (bytes : List UInt8)
    (image : ProcessedImage) : Prop :=
  ∃ patch maxSoft pool, params = some (patch, maxSoft, pool) ∧
    processors.preprocessImageBytes bytes patch maxSoft pool = .ok image

/-- The queues after the parts hold the processed attachments in their order. -/
structure Queued (processors : Processors) (model : MediaModel) (params : Option (ℤ × ℤ × ℤ))
    (parts : List ContentPart) (before after : MediaQueues)
    (images : List ProcessedImage) (audios : List ProcessedAudio) : Prop where
  processedImages : List.Forall₂ (ImageOf processors params) (parts.filterMap imageBytes) images
  processedAudios : List.Forall₂
    (fun bytes audio => processAudio processors model bytes = .ok audio)
    (parts.filterMap audioBytes) audios
  imageQueue : after.images = before.images ++ images
  audioQueue : after.audios = before.audios ++ audios
  videoQueue : after.videos = before.videos
  video : ∀ part ∈ parts, contentPartMediaKind part ≠ some .video

theorem processImage_ok {params : Option (ℤ × ℤ × ℤ)} {missing : String} {bytes : List UInt8}
    {image : ProcessedImage} (h : processImage processors params missing bytes = .ok image) :
    ImageOf processors params bytes image := by
  unfold processImage at h
  simp only [bind_eq_ok, required_eq_ok] at h
  obtain ⟨⟨patch, maxSoft, pool⟩, hparams, himage⟩ := h
  exact ⟨patch, maxSoft, pool, hparams, himage⟩

/-- The loop over the parts; a video is refused. -/
theorem preprocessPart_run {params : Option (ℤ × ℤ × ℤ)} {parts : List ContentPart}
    {before after : ProcessedMediaBudget} {queues queues' : MediaQueues}
    (h : parts.foldlM (preprocessPart processors model params) (before, queues) =
      .ok (after, queues')) :
    ∃ images audios, Queued processors model params parts queues queues' images audios ∧
      Accounted before after (imageSoftTokens images) (audioSoftTokens audios) := by
  induction parts generalizing before queues with
  | nil =>
    cases h
    exact ⟨[], [], ⟨.nil, .nil, (List.append_nil _).symm, (List.append_nil _).symm, rfl, by simp⟩,
      .refl _⟩
  | cons part parts ih =>
    rw [List.foldlM_cons, bind_eq_ok] at h
    obtain ⟨⟨next, queues₁⟩, hnext, hrest⟩ := h
    obtain ⟨images, audios, hqueued, haccounted⟩ := ih hrest
    have hskip : (∀ part' ∈ [part], imageBytes part' = none ∧ audioBytes part' = none ∧
        contentPartMediaKind part' ≠ some .video) → next = before → queues₁ = queues →
        ∃ images audios,
          Queued processors model params (part :: parts) queues queues' images audios ∧
          Accounted before after (imageSoftTokens images) (audioSoftTokens audios) := by
      rintro hpart rfl rfl
      obtain ⟨himage, haudio, hvideo⟩ := hpart part (List.mem_singleton.2 rfl)
      exact ⟨images, audios,
        ⟨by rw [List.filterMap_cons_none himage]; exact hqueued.processedImages,
        by rw [List.filterMap_cons_none haudio]; exact hqueued.processedAudios,
        hqueued.imageQueue, hqueued.audioQueue, hqueued.videoQueue,
        List.forall_mem_cons.2 ⟨hvideo, hqueued.video⟩⟩,
        haccounted⟩
    cases part with
    | image bytes =>
      simp only [preprocessPart, bind_eq_ok, pure_eq_ok, Prod.mk.injEq] at hnext
      obtain ⟨image, himage, budget, hbudget, rfl, rfl⟩ := hnext
      refine ⟨image :: images, audios, ⟨.cons (processImage_ok himage) hqueued.processedImages,
        hqueued.processedAudios, ?_, hqueued.audioQueue, hqueued.videoQueue,
        List.forall_mem_cons.2 ⟨by simp [contentPartMediaKind], hqueued.video⟩⟩, ?_⟩
      · rw [hqueued.imageQueue, List.append_assoc]
        rfl
      · exact (retainImage_ok hbudget).trans haccounted
    | audio bytes =>
      simp only [preprocessPart, bind_eq_ok, pure_eq_ok, Prod.mk.injEq] at hnext
      obtain ⟨audio, haudio, budget, hbudget, rfl, rfl⟩ := hnext
      refine ⟨images, audio :: audios, ⟨hqueued.processedImages,
        .cons haudio hqueued.processedAudios, hqueued.imageQueue, ?_, hqueued.videoQueue,
        List.forall_mem_cons.2 ⟨by simp [contentPartMediaKind], hqueued.video⟩⟩, ?_⟩
      · rw [hqueued.audioQueue, List.append_assoc]
        rfl
      · exact (retainAudio_ok hbudget).trans haccounted
    | video bytes =>
      simp only [preprocessPart, bind_eq_ok, extractVideoFrames] at hnext
      obtain ⟨_, -, _, hframes, -⟩ := hnext
      cases hframes
    | text text =>
      cases hnext
      exact hskip (by simp [imageBytes, audioBytes, contentPartMediaKind]) rfl rfl
    | translation sourceLang targetLang text =>
      cases hnext
      exact hskip (by simp [imageBytes, audioBytes, contentPartMediaKind]) rfl rfl

/-- What the processing establishes. -/
theorem preprocessParts_ok {params : Option (ℤ × ℤ × ℤ)} {parts : List ContentPart}
    {promptTokens : ℕ} {prompt : Option PromptBudget} {budget : ProcessedMediaBudget}
    {queues : MediaQueues}
    (h : preprocessParts processors model params parts promptTokens prompt =
      .ok (budget, queues)) :
    Queued processors model params parts ⟨[], [], []⟩ queues queues.images queues.audios ∧
      budget.usage.promptTokens = promptTokens + addedTokens (imageSoftTokens queues.images) +
        addedTokens (audioSoftTokens queues.audios) ∧
      totalSoftTokens (imageSoftTokens queues.images) +
        totalSoftTokens (audioSoftTokens queues.audios) ≤ MAX_MEDIA_SOFT_TOKENS ∧
      Within budget.usage.promptTokens prompt := by
  unfold preprocessParts ProcessedMediaBudget.new at h
  simp only [bind_eq_ok, pure_eq_ok] at h
  obtain ⟨_, ⟨_, hcontext, rfl⟩, reserved, hreserved, hrun⟩ := h
  obtain ⟨images, audios, hqueued, haccounted⟩ := preprocessPart_run hrun
  have hall := (reserveParts_ok hreserved).trans haccounted
  obtain rfl : queues.images = images := hqueued.imageQueue
  obtain rfl : queues.audios = audios := hqueued.audioQueue
  refine ⟨hqueued, hall.promptTokens, ?_, ?_⟩
  · have hlimit := hall.limit (Nat.zero_le _)
    rw [hall.softTokens] at hlimit
    simpa using hlimit
  · have hwithin := hall.within (requireContext_ok hcontext)
    rwa [hall.prompt] at hwithin

end queues

end Media

end Emelex
