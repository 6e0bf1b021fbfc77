import Emelex.Engine.MediaQueues
import Emelex.Engine.MediaSplice

/-!
# Media are bound to their own placeholders

* `boundaries` — how often a token is a boundary of a span.
* `SeparateBoundaries` — no boundary of an attached kind is a placeholder.
* `Bound` — the whole binding: the order, the spans, the counts, the budget and the features.
* `NeverUnbound` — after the validation the walk cannot fail.

Principal results: `bound_iff`, `media_binding_iff`.
-/

set_option autoImplicit false

namespace Emelex

open Checks Checked

namespace Media

/-! ## The counts -/

section counts

variable {imageIds audioIds : SpanIds} {images audios : List ℤ} {tokens : ℕ}
  {expanded others : List Token}

/-- How often a token is a boundary of a span. -/
def boundaries (ids : SpanIds) (x : Token) : ℕ :=
  match ids with
  | some (_, open_, close) => [open_, close].count x
  | none => 0

/-- The tokens of spans: their boundaries, and the soft tokens. -/
theorem count_spans (ids : SpanIds) (softs : List ℤ) (x : Token) :
    (softs.flatMap (spanFor ids)).count x = softs.length * boundaries ids x +
      if IsPlaceholder ids x then totalSoftTokens softs else 0 := by
  match ids with
  | none =>
    have hnil : softs.flatMap (spanFor none) = [] := List.flatMap_eq_nil_iff.2 fun _ _ => rfl
    rw [hnil]
    simp [boundaries, IsPlaceholder]
  | some (token, open_, close) =>
    induction softs with
    | nil => simp [totalSoftTokens]
    | cons soft softs ih =>
      have hspan : (span open_ token close soft).count x = [open_, close].count x +
          if token = x then soft.toNat else 0 := by
        unfold span
        simp only [List.count_append, List.count_cons, List.count_replicate, List.count_nil,
          beq_iff_eq]
        omega
      rw [List.flatMap_cons, List.count_append, ih, spanFor, hspan]
      simp only [IsPlaceholder, Option.map_some, Option.some.injEq, boundaries, totalSoftTokens,
        List.map_cons, List.sum_cons, List.length_cons]
      split <;> ring

theorem length_spans {ids : SpanIds} {softs : List ℤ} (h : ids = none → softs = []) :
    (softs.flatMap (spanFor ids)).length = addedTokens softs + softs.length := by
  cases ids with
  | none =>
    rw [h rfl]
    rfl
  | some ids =>
    clear h
    induction softs with
    | nil => rfl
    | cons soft softs ih =>
      rw [List.flatMap_cons, List.length_append, ih]
      simp only [spanFor, span, addedTokens, List.map_cons, List.sum_cons, List.length_cons,
        List.length_append, List.length_replicate, List.length_nil]
      ring

theorem Assembled.length (h : Assembled imageIds audioIds images audios tokens expanded others)
    (himages : imageIds = none → images = []) (haudios : audioIds = none → audios = []) :
    expanded.length = tokens + addedTokens images + addedTokens audios := by
  have hcount := h.count
  rw [h.perm.length_eq, List.length_append, List.length_append, length_spans himages,
    length_spans haudios]
  omega

/-- A placeholder of one kind: the soft tokens of that kind, and boundaries of both. -/
theorem Assembled.count_image
    (h : Assembled imageIds audioIds images audios tokens expanded others) {x : Token}
    (hx : IsPlaceholder imageIds x) (hdistinct : IsPlaceholder audioIds x → audios = []) :
    expanded.count x = totalSoftTokens images + (images.length * boundaries imageIds x +
      audios.length * boundaries audioIds x) := by
  have hothers : others.count x = 0 :=
    List.count_eq_zero.2 fun hmem => (h.other x hmem).1 hx
  have haudios : (if IsPlaceholder audioIds x then totalSoftTokens audios else 0) = 0 := by
    split
    · rename_i haudio
      rw [hdistinct haudio]
      rfl
    · rfl
  rw [h.perm.count_eq, List.count_append, List.count_append, hothers, count_spans, count_spans,
    if_pos hx, haudios]
  omega

theorem Assembled.count_audio
    (h : Assembled imageIds audioIds images audios tokens expanded others) {x : Token}
    (hx : IsPlaceholder audioIds x) (hdistinct : IsPlaceholder imageIds x → images = []) :
    expanded.count x = totalSoftTokens audios + (images.length * boundaries imageIds x +
      audios.length * boundaries audioIds x) := by
  have hothers : others.count x = 0 :=
    List.count_eq_zero.2 fun hmem => (h.other x hmem).2 hx
  have himages : (if IsPlaceholder imageIds x then totalSoftTokens images else 0) = 0 := by
    split
    · rename_i himage
      rw [hdistinct himage]
      rfl
    · rfl
  rw [h.perm.count_eq, List.count_append, List.count_append, hothers, count_spans, count_spans,
    if_pos hx, himages]
  omega

end counts

/-! ## The ids in use -/

section ids

variable {imageIds audioIds : SpanIds} {videoTokenId : Option Token} {baseIds : List Token}
  {queues : MediaQueues}

theorem foldlM_congr {α β : Type} {f g : β → α → Except Error β} {xs : List α} {b : β}
    (h : ∀ b, ∀ x ∈ xs, f b x = g b x) : xs.foldlM f b = xs.foldlM g b := by
  induction xs generalizing b with
  | nil => rfl
  | cons x xs ih =>
    rw [List.foldlM_cons, List.foldlM_cons, h b x List.mem_cons_self]
    exact bind_congr fun b => ih fun b x hx => h b x (List.mem_cons_of_mem _ hx)

/-- The ids of a kind make no difference where there is no placeholder of it. -/
theorem expandPlaceholders_congr {imageIds' audioIds' : SpanIds}
    (himage : imageIds' = imageIds ∨
      ∀ t ∈ baseIds, ¬ IsPlaceholder imageIds t ∧ ¬ IsPlaceholder imageIds' t)
    (haudio : audioIds' = audioIds ∨
      ∀ t ∈ baseIds, ¬ IsPlaceholder audioIds t ∧ ¬ IsPlaceholder audioIds' t)
    (hvideo : ∀ t ∈ baseIds, videoTokenId ≠ some t) :
    expandPlaceholders imageIds' audioIds' videoTokenId baseIds queues =
      expandPlaceholders imageIds audioIds videoTokenId baseIds queues := by
  unfold expandPlaceholders
  rw [foldlM_congr fun state t ht => ?_]
  have hstep : ∀ t ∈ baseIds, expandToken.expandAudio audioIds' state t =
      expandToken.expandAudio audioIds state t := by
    intro t ht
    rcases haudio with rfl | haudio
    · rfl
    · rw [expandAudio_token (haudio t ht).1, expandAudio_token (haudio t ht).2]
  rcases himage with rfl | himage
  · by_cases hplaceholder : IsPlaceholder imageIds' t
    · obtain ⟨⟨token, boi, eoi⟩, rfl, rfl⟩ := Option.map_eq_some_iff.1 hplaceholder
      unfold expandToken
      show (if token = token then _ else _) = (if token = token then _ else _)
      rw [if_pos rfl, if_pos rfl]
    · rw [expandToken_audio hplaceholder (hvideo t ht),
        expandToken_audio hplaceholder (hvideo t ht), hstep t ht]
  · rw [expandToken_audio (himage t ht).1 (hvideo t ht),
      expandToken_audio (himage t ht).2 (hvideo t ht), hstep t ht]

/-- Without ids every token stays. -/
theorem expandPlaceholders_none (videoTokenId : Option Token) (baseIds : List Token) :
    expandPlaceholders none none videoTokenId baseIds ⟨[], [], []⟩ = .ok (baseIds, ⟨[], []⟩) := by
  have hrun : ∀ (rest : List Token) (state : Expansion),
      rest.foldlM (expandToken none none videoTokenId) state =
        .ok { state with expanded := state.expanded ++ rest } := by
    intro rest
    induction rest with
    | nil =>
      intro state
      rw [List.append_nil]
      rfl
    | cons t rest ih =>
      intro state
      rw [List.foldlM_cons]
      show rest.foldlM _ { state with expanded := state.expanded ++ [t] } = _
      rw [ih, List.append_assoc]
      rfl
  unfold expandPlaceholders
  rw [hrun]
  rfl

end ids

/-! ## Specification of the binding -/

/-- The placeholders of a model. -/
def MediaModel.placeholders (model : MediaModel) : List Token :=
  (model.imageTokenIds.map fun ids => ids.1).toList ++
    (model.audioTokenIds.map fun ids => ids.1).toList

/-- No boundary of the kind is a placeholder. -/
def Separate (model : MediaModel) (ids : SpanIds) : Prop :=
  ∀ token open_ close, ids = some (token, open_, close) →
    open_ ∉ model.placeholders ∧ close ∉ model.placeholders

/-- No boundary of an attached kind is a placeholder. -/
def SeparateBoundaries (model : MediaModel) (parts : List ContentPart) : Prop :=
  (parts.filterMap imageBytes ≠ [] → Separate model model.imageTokenIds) ∧
    (parts.filterMap audioBytes ≠ [] → Separate model model.audioTokenIds)

/-- The features of a kind are put at its placeholders, and as many of them as there are soft
tokens fit. -/
def Splices (ids : SpanIds) (expanded : List Token) (softTokens : ℕ) : Prop :=
  ∀ {R S : Type} {hidden : ℕ} (astype : S → R) (h : Rows R hidden) (features : List (Rows S hidden))
    (modality : String) (token : Token), IsPlaceholder ids token →
    (∀ out, spliceMediaFeatures astype h expanded features token modality = .ok out →
      Spliced astype h out expanded features token) ∧
    (expanded.length = h.count → (features.map Rows.count).sum = softTokens → 0 < softTokens →
      0 < hidden → h.values.length ≤ I32_MAX →
      ∃ out, spliceMediaFeatures astype h expanded features token modality = .ok out)

/-- The media of a prompt are bound to their own placeholders. -/
structure Bound (processors : Processors) (model : MediaModel) (parts : List ContentPart)
    (baseIds : List Token) (promptBudget : Option PromptBudget) (expanded : List Token)
    (media : MediaInputs) : Prop where
  images : List.Forall₂ (ImageOf processors model.imageProcessingParams)
    (parts.filterMap imageBytes) media.images
  audios : List.Forall₂ (fun bytes audio => processAudio processors model bytes = .ok audio)
    (parts.filterMap audioBytes) media.audios
  imagePlaceholders : placeholderCount model.imageTokenIds baseIds = media.images.length
  audioPlaceholders : placeholderCount model.audioTokenIds baseIds = media.audios.length
  spans : expanded = replaced model.imageTokenIds model.audioTokenIds media baseIds
  imageTokens : ∀ token, IsPlaceholder model.imageTokenIds token →
    expanded.count token = totalSoftTokens (imageSoftTokens media.images)
  audioTokens : ∀ token, IsPlaceholder model.audioTokenIds token →
    expanded.count token = totalSoftTokens (audioSoftTokens media.audios)
  accounted : hasVisualMedia parts ∨ hasAudio parts → ∃ params budget queues,
    imageParams model parts = .ok params ∧
    preprocessParts processors model (params.map Prod.fst) parts baseIds.length promptBudget =
      .ok (budget, queues) ∧
    budget.usage.promptTokens = expanded.length ∧ Within expanded.length promptBudget
  imageFeatures : Splices model.imageTokenIds expanded
    (totalSoftTokens (imageSoftTokens media.images))
  audioFeatures : Splices model.audioTokenIds expanded
    (totalSoftTokens (audioSoftTokens media.audios))

/-- After the validation the walk cannot fail. -/
def NeverUnbound (processors : Processors) (model : MediaModel) (parts : List ContentPart)
    (baseIds : List Token) (promptBudget : Option PromptBudget) : Prop :=
  ∀ params audio budget queues, imageParams model parts = .ok params →
    audioIds model parts = .ok audio →
    validateMediaBindings parts baseIds model.placeholderIds = .ok () →
    preprocessParts processors model (params.map Prod.fst) parts baseIds.length promptBudget =
      .ok (budget, queues) →
    ∃ result, expandPlaceholders (params.map Prod.snd) audio model.videoTokenId baseIds queues =
      .ok result

section binding

variable {processors : Processors} {model : MediaModel} {parts : List ContentPart}
  {baseIds expanded : List Token} {promptBudget : Option PromptBudget} {media : MediaInputs}
  {queues : MediaQueues}

/-! ## From the validation to the walk -/

theorem kindOf_image (t : Token) : model.placeholderIds.kindOf t = some .image ↔
    IsPlaceholder model.imageTokenIds t := by
  rw [kindOf_eq]
  show _ ↔ model.placeholderIds.image = some t
  split
  · simp_all
  · split <;> simp_all

theorem kindOf_audio (hvalid : Validated model.placeholderIds baseIds parts) {t : Token}
    (ht : t ∈ baseIds) : model.placeholderIds.kindOf t = some .audio ↔
      IsPlaceholder model.audioTokenIds t := by
  have hdistinct := hvalid.imageAudio t ht
  rw [kindOf_eq]
  show _ ↔ model.placeholderIds.audio = some t
  split
  · simp_all
  · split
    · simp_all
    · split <;> simp_all

/-- A kind that is not attached has no placeholder. -/
theorem not_placeholder {kind : MediaBindingKind} {ids : SpanIds}
    (hvalid : Validated model.placeholderIds baseIds parts)
    (hkind : ∀ t ∈ baseIds, model.placeholderIds.kindOf t = some kind ↔ IsPlaceholder ids t)
    (hnone : ∀ part ∈ parts, contentPartMediaKind part ≠ some kind) :
    ∀ t ∈ baseIds, ¬ IsPlaceholder ids t := by
  intro t ht hplaceholder
  have hmem : kind ∈ baseIds.filterMap model.placeholderIds.kindOf :=
    List.mem_filterMap.2 ⟨t, ht, (hkind t ht).2 hplaceholder⟩
  rw [← hvalid.kinds] at hmem
  obtain ⟨part, hpart, hsome⟩ := List.mem_filterMap.1 hmem
  exact hnone part hpart hsome

/-- Queues of the attachments fit the placeholders. -/
theorem walkable_of (hvalid : Validated model.placeholderIds baseIds parts)
    (himages : queues.images.length = (parts.filterMap imageBytes).length)
    (haudios : queues.audios.length = (parts.filterMap audioBytes).length)
    (hvideos : queues.videos = [])
    (hvideo : ∀ part ∈ parts, contentPartMediaKind part ≠ some .video) :
    Walkable model.imageTokenIds model.audioTokenIds model.videoTokenId baseIds queues := by
  refine ⟨?_, ?_, hvideos, fun t ht himage => hvalid.imageAudio t ht himage, fun t ht hsame => ?_⟩
  · rw [himages, ← count_images, hvalid.kinds, count_kindOf fun t _ => kindOf_image t]
  · rw [haudios, ← count_audios, hvalid.kinds, count_kindOf fun t ht => kindOf_audio hvalid ht]
  · have hmem : MediaBindingKind.video ∈ baseIds.filterMap model.placeholderIds.kindOf := by
      refine List.mem_filterMap.2 ⟨t, ht, ?_⟩
      have hnoImage : model.placeholderIds.image ≠ some t := fun himage =>
        hvalid.imageVideo t ht himage hsame
      have hnoAudio : model.placeholderIds.audio ≠ some t := fun haudio =>
        hvalid.audioVideo t ht haudio hsame
      have hvideoId : model.placeholderIds.video = some t := hsame
      rw [kindOf_eq, if_neg hnoImage, if_neg hnoAudio, if_pos hvideoId]
    rw [← hvalid.kinds] at hmem
    obtain ⟨part, hpart, hsome⟩ := List.mem_filterMap.1 hmem
    exact hvideo part hpart hsome

theorem imageParams_ok {params : Option ((ℤ × ℤ × ℤ) × (Token × Token × Token))}
    (h : imageParams model parts = .ok params) :
    if hasVisualMedia parts then
      params.map Prod.fst = model.imageProcessingParams ∧ params.map Prod.snd = model.imageTokenIds
    else params = none := by
  unfold imageParams at h
  split
  · rename_i hvisual
    rw [if_pos hvisual] at h
    simp only [bind_eq_ok, required_eq_ok, pure_eq_ok] at h
    obtain ⟨params, hparams, ids, hids, rfl⟩ := h
    exact ⟨hparams.symm, hids.symm⟩
  · rename_i hvisual
    rw [if_neg hvisual] at h
    cases h
    rfl

theorem audioIds_ok {ids : SpanIds} (h : audioIds model parts = .ok ids) :
    if hasAudio parts then ids = model.audioTokenIds else ids = none := by
  unfold audioIds at h
  split
  · rename_i haudio
    rw [if_pos haudio] at h
    simp only [bind_eq_ok, required_eq_ok, pure_eq_ok] at h
    obtain ⟨ids, hids, rfl⟩ := h
    exact hids.symm
  · rename_i haudio
    rw [if_neg haudio] at h
    cases h
    rfl

theorem not_placeholder_none (t : Token) : ¬ IsPlaceholder none t := by
  simp [IsPlaceholder]

/-- The walk with the ids of the attached kinds is that with all ids of the model. -/
theorem walk_model {params : Option ((ℤ × ℤ × ℤ) × (Token × Token × Token))} {ids : SpanIds}
    (hparams : imageParams model parts = .ok params) (hids : audioIds model parts = .ok ids)
    (hvalid : Validated model.placeholderIds baseIds parts)
    (hvideo : ∀ t ∈ baseIds, model.videoTokenId ≠ some t) :
    expandPlaceholders (params.map Prod.snd) ids model.videoTokenId baseIds queues =
      expandPlaceholders model.imageTokenIds model.audioTokenIds model.videoTokenId baseIds
        queues := by
  refine expandPlaceholders_congr ?_ ?_ hvideo
  · have hused := imageParams_ok hparams
    by_cases hvisual : hasVisualMedia parts
    · rw [if_pos hvisual] at hused
      exact .inl hused.2
    · rw [if_neg hvisual] at hused
      subst hused
      refine .inr fun t ht => ⟨not_placeholder hvalid (fun t _ => kindOf_image t) ?_ t ht,
        not_placeholder_none t⟩
      exact fun part hpart hkind => hvisual ⟨part, hpart, .inl hkind⟩
  · have hused := audioIds_ok hids
    by_cases haudio : hasAudio parts
    · rw [if_pos haudio] at hused
      exact .inl hused
    · rw [if_neg haudio] at hused
      subst hused
      refine .inr fun t ht => ⟨not_placeholder hvalid (fun t ht => kindOf_audio hvalid ht) ?_ t ht,
        not_placeholder_none t⟩
      exact fun part hpart hkind => haudio ⟨part, hpart, hkind⟩

theorem never_unbound (processors : Processors) (model : MediaModel) (parts : List ContentPart)
    (baseIds : List Token) (promptBudget : Option PromptBudget) :
    NeverUnbound processors model parts baseIds promptBudget := by
  intro params ids budget queues hparams hids hvalidate hpreprocess
  have hvalid := validateMediaBindings_ok hvalidate
  obtain ⟨hqueued, -⟩ := preprocessParts_ok hpreprocess
  have hwalkable := walkable_of hvalid hqueued.processedImages.length_eq.symm
    hqueued.processedAudios.length_eq.symm hqueued.videoQueue hqueued.video
  obtain ⟨expanded, media, hexpanded, -⟩ := expandPlaceholders_ok hwalkable
  rw [walk_model hparams hids hvalid hwalkable.video]
  exact ⟨_, hexpanded⟩

/-- What the queues are that the prompt has been expanded with. -/
structure Expanded (processors : Processors) (model : MediaModel) (parts : List ContentPart)
    (baseIds : List Token) (promptBudget : Option PromptBudget) (queues : MediaQueues) : Prop where
  walkable : Walkable model.imageTokenIds model.audioTokenIds model.videoTokenId baseIds queues
  images : List.Forall₂ (ImageOf processors model.imageProcessingParams)
    (parts.filterMap imageBytes) queues.images
  audios : List.Forall₂ (fun bytes audio => processAudio processors model bytes = .ok audio)
    (parts.filterMap audioBytes) queues.audios
  softTokens : totalSoftTokens (imageSoftTokens queues.images) +
    totalSoftTokens (audioSoftTokens queues.audios) ≤ MAX_MEDIA_SOFT_TOKENS
  accounted : hasVisualMedia parts ∨ hasAudio parts → ∃ params budget queues',
    imageParams model parts = .ok params ∧
    preprocessParts processors model (params.map Prod.fst) parts baseIds.length promptBudget =
      .ok (budget, queues') ∧
    budget.usage.promptTokens = baseIds.length + addedTokens (imageSoftTokens queues.images) +
      addedTokens (audioSoftTokens queues.audios) ∧
    Within budget.usage.promptTokens promptBudget

theorem filterMap_eq_nil {β : Type} {f : ContentPart → Option β}
    (h : ∀ part ∈ parts, f part = none) : parts.filterMap f = [] :=
  List.filterMap_eq_nil_iff.2 h

theorem no_images (h : ¬ hasVisualMedia parts) : parts.filterMap imageBytes = [] := by
  refine filterMap_eq_nil fun part hpart => ?_
  cases part with
  | image bytes => exact absurd ⟨_, hpart, .inl rfl⟩ h
  | _ => rfl

theorem no_audios (h : ¬ hasAudio parts) : parts.filterMap audioBytes = [] := by
  refine filterMap_eq_nil fun part hpart => ?_
  cases part with
  | audio bytes => exact absurd ⟨_, hpart, rfl⟩ h
  | _ => rfl

/-- A prompt is the expansion of the rendered tokens by such queues. -/
theorem encode_ok {P : Type} {rendered : List ChatMessage → Except Error (List Token × P)}
    {messages : List ChatMessage} {pending pending' : P}
    (hrendered : rendered messages = .ok (baseIds, pending))
    (h : encodeChatWithMediaFullInner processors model rendered messages promptBudget =
      .ok (expanded, media, pending')) :
    ∃ queues, Expanded processors model (messages.flatMap ChatMessage.content) baseIds promptBudget
        queues ∧
      expandPlaceholders model.imageTokenIds model.audioTokenIds model.videoTokenId baseIds queues =
        .ok (expanded, media) := by
  unfold encodeChatWithMediaFullInner at h
  rw [hrendered] at h
  simp only [bind_eq_ok, ensure_eq_ok, Except.ok.injEq, exists_eq_left'] at h
  obtain ⟨params, hparams, ids, hids, _, -, _, hvalidate, h⟩ := h
  have hvalid := validateMediaBindings_ok hvalidate
  split at h
  · rename_i htext
    obtain ⟨rfl, rfl, rfl⟩ : baseIds = expanded ∧ ⟨[], []⟩ = media ∧ pending = pending' := by
      simpa only [pure_eq_ok, Prod.mk.injEq] using h
    have hvideo : ∀ part ∈ messages.flatMap ChatMessage.content,
        contentPartMediaKind part ≠ some .video := fun part hpart hkind =>
      htext.1 ⟨part, hpart, .inr hkind⟩
    have hwalkable : Walkable model.imageTokenIds model.audioTokenIds model.videoTokenId baseIds
        ⟨[], [], []⟩ :=
      walkable_of hvalid (by rw [no_images htext.1]; rfl) (by rw [no_audios htext.2]; rfl) rfl
        hvideo
    have hparams' := imageParams_ok hparams
    rw [if_neg htext.1] at hparams'
    have hids' := audioIds_ok hids
    rw [if_neg htext.2] at hids'
    refine ⟨⟨[], [], []⟩, ⟨hwalkable, ?_, ?_, Nat.zero_le _, fun hmedia => ?_⟩, ?_⟩
    · rw [no_images htext.1]
      exact .nil
    · rw [no_audios htext.2]
      exact .nil
    · exact (hmedia.elim htext.1 htext.2).elim
    · rw [← walk_model hparams hids hvalid hwalkable.video, hparams', hids']
      exact expandPlaceholders_none _ _
  · simp only [bind_eq_ok, pure_eq_ok, Prod.mk.injEq] at h
    obtain ⟨⟨budget, queues⟩, hpreprocess, ⟨expanded', media'⟩, hexpand, rfl, rfl, rfl⟩ := h
    obtain ⟨hqueued, htokens, hsoft, hwithin⟩ := preprocessParts_ok hpreprocess
    have hwalkable := walkable_of hvalid hqueued.processedImages.length_eq.symm
      hqueued.processedAudios.length_eq.symm hqueued.videoQueue hqueued.video
    refine ⟨queues, ⟨hwalkable, ?_, hqueued.processedAudios, hsoft, fun _ =>
      ⟨params, budget, queues, hparams, hpreprocess, htokens, hwithin⟩⟩, ?_⟩
    · have hused := imageParams_ok hparams
      have himages := hqueued.processedImages
      by_cases hvisual : hasVisualMedia (messages.flatMap ChatMessage.content)
      · rw [if_pos hvisual] at hused
        rwa [hused.1] at himages
      · rw [no_images hvisual] at himages ⊢
        rw [List.forall₂_nil_left_iff.1 himages]
        exact .nil
    · rw [← walk_model hparams hids hvalid hwalkable.video]
      exact hexpand

/-- No boundary of a kind is a placeholder just where none of them is counted as one. -/
theorem separate_iff (ids : SpanIds) :
    Separate model ids ↔ ∀ x ∈ model.placeholders, boundaries ids x = 0 := by
  match ids with
  | none => simp [Separate, boundaries]
  | some (token, open_, close) =>
    constructor
    · intro h x hx
      obtain ⟨hopen, hclose⟩ := h token open_ close rfl
      refine List.count_eq_zero.2 fun hmem => ?_
      rcases List.mem_cons.1 hmem with rfl | hmem
      · exact hopen hx
      · exact hclose (List.mem_singleton.1 hmem ▸ hx)
    · rintro h _ _ _ ⟨⟩
      refine ⟨fun hmem => ?_, fun hmem => ?_⟩
      · exact List.count_eq_zero.1 (h _ hmem) List.mem_cons_self
      · exact List.count_eq_zero.1 (h _ hmem) (List.mem_cons_of_mem _ List.mem_cons_self)

theorem mem_placeholders {x : Token} : x ∈ model.placeholders ↔
    IsPlaceholder model.imageTokenIds x ∨ IsPlaceholder model.audioTokenIds x := by
  simp only [MediaModel.placeholders, List.mem_append, Option.mem_toList]
  rfl

/-- A placeholder of both kinds is none of a kind that is attached. -/
theorem Expanded.distinct
    (h : Expanded processors model parts baseIds promptBudget queues) {x : Token}
    (himage : IsPlaceholder model.imageTokenIds x) (haudio : IsPlaceholder model.audioTokenIds x) :
    queues.images = [] ∧ queues.audios = [] := by
  have hnone : x ∉ baseIds := fun hmem => h.walkable.distinct x hmem himage haudio
  have hcount : ∀ {ids : SpanIds}, IsPlaceholder ids x → placeholderCount ids baseIds = 0 := by
    intro ids hids
    refine List.countP_eq_zero.2 fun t ht hplaceholder => hnone ?_
    obtain rfl := Option.some.inj (hids.symm.trans (of_decide_eq_true hplaceholder))
    exact ht
  constructor
  · rw [← List.length_eq_zero_iff, ← h.walkable.images, hcount himage]
  · rw [← List.length_eq_zero_iff, ← h.walkable.audios, hcount haudio]

theorem placeholderCount_none (tokens : List Token) : placeholderCount none tokens = 0 :=
  List.countP_eq_zero.2 fun t _ h => not_placeholder_none t (of_decide_eq_true h)

/-- As many features as soft tokens fit in the place of a placeholder. -/
theorem splices_of {ids : SpanIds} {softTokens : ℕ} (hlimit : softTokens ≤ MAX_MEDIA_SOFT_TOKENS)
    (hcount : ∀ token, IsPlaceholder ids token → expanded.count token = softTokens) :
    Splices ids expanded softTokens := by
  intro R S hidden astype h features modality token htoken
  have hexact : expanded.count token < 2 ^ 24 := by
    rw [hcount token htoken]
    exact hlimit.trans_lt (by decide)
  refine ⟨fun out hok => splice_spliced hok hexact, fun hlength hsum hpos hhidden hsize => ?_⟩
  refine splice_ok modality hlength ?_ hhidden ?_ hexact ?_ hsize
  · rintro rfl
    rw [List.map_nil, List.sum_nil] at hsum
    omega
  · rwa [hcount token htoken]
  · rw [hcount token htoken, hsum]

/-- The binding of an expanded prompt: all of it but the counts of the placeholders always holds. -/
theorem bound_iff (h : Expanded processors model parts baseIds promptBudget queues)
    (hexpand : expandPlaceholders model.imageTokenIds model.audioTokenIds model.videoTokenId baseIds
      queues = .ok (expanded, media)) :
    Bound processors model parts baseIds promptBudget expanded media ↔
      SeparateBoundaries model parts := by
  obtain ⟨_, _, hok, himages, haudios, hspans, others, hassembled⟩ :=
    expandPlaceholders_ok h.walkable
  obtain ⟨rfl, rfl⟩ := Prod.mk.inj (Except.ok.inj (hok.symm.trans hexpand))
  rw [himages, haudios] at hassembled
  have himageIds : model.imageTokenIds = none → imageSoftTokens queues.images = [] := by
    intro hnone
    have hlength := h.walkable.images
    rw [hnone, placeholderCount_none] at hlength
    rw [List.length_eq_zero_iff.1 hlength.symm]
    rfl
  have haudioIds : model.audioTokenIds = none → audioSoftTokens queues.audios = [] := by
    intro hnone
    have hlength := h.walkable.audios
    rw [hnone, placeholderCount_none] at hlength
    rw [List.length_eq_zero_iff.1 hlength.symm]
    rfl
  have hlength := hassembled.length himageIds haudioIds
  have hcountImage : ∀ x, IsPlaceholder model.imageTokenIds x → _ := fun x hx =>
    hassembled.count_image hx fun haudio => by rw [(h.distinct hx haudio).2]; rfl
  have hcountAudio : ∀ x, IsPlaceholder model.audioTokenIds x → _ := fun x hx =>
    hassembled.count_audio hx fun himage => by rw [(h.distinct himage hx).1]; rfl
  have himageLength : (imageSoftTokens queues.images).length =
      (parts.filterMap imageBytes).length := by
    rw [imageSoftTokens, List.length_map, h.images.length_eq]
  have haudioLength : (audioSoftTokens queues.audios).length =
      (parts.filterMap audioBytes).length := by
    rw [audioSoftTokens, List.length_map, h.audios.length_eq]
  rw [himageLength, haudioLength] at hcountImage hcountAudio
  constructor
  · intro hbound
    have hnone : ∀ x ∈ model.placeholders,
        (parts.filterMap imageBytes).length * boundaries model.imageTokenIds x +
          (parts.filterMap audioBytes).length * boundaries model.audioTokenIds x = 0 := by
      intro x hx
      rcases mem_placeholders.1 hx with hx | hx
      · have hcount := hcountImage x hx
        rw [hbound.imageTokens x hx, himages] at hcount
        omega
      · have hcount := hcountAudio x hx
        rw [hbound.audioTokens x hx, haudios] at hcount
        omega
    refine ⟨fun hne => (separate_iff _).2 fun x hx => ?_,
      fun hne => (separate_iff _).2 fun x hx => ?_⟩
    · exact (Nat.mul_eq_zero.1 (Nat.add_eq_zero_iff.1 (hnone x hx)).1).resolve_left
        (List.length_pos_iff.2 hne).ne'
    · exact (Nat.mul_eq_zero.1 (Nat.add_eq_zero_iff.1 (hnone x hx)).2).resolve_left
        (List.length_pos_iff.2 hne).ne'
  · rintro ⟨hseparateImage, hseparateAudio⟩
    have himageNone : ∀ x ∈ model.placeholders,
        (parts.filterMap imageBytes).length * boundaries model.imageTokenIds x = 0 := by
      intro x hx
      by_cases hne : parts.filterMap imageBytes = []
      · rw [hne, List.length_nil, Nat.zero_mul]
      · rw [(separate_iff _).1 (hseparateImage hne) x hx, Nat.mul_zero]
    have haudioNone : ∀ x ∈ model.placeholders,
        (parts.filterMap audioBytes).length * boundaries model.audioTokenIds x = 0 := by
      intro x hx
      by_cases hne : parts.filterMap audioBytes = []
      · rw [hne, List.length_nil, Nat.zero_mul]
      · rw [(separate_iff _).1 (hseparateAudio hne) x hx, Nat.mul_zero]
    have himageTokens : ∀ token, IsPlaceholder model.imageTokenIds token →
        List.count token _ = totalSoftTokens (imageSoftTokens queues.images) := fun x hx => by
      have hmem := mem_placeholders.2 (.inl hx)
      rw [hcountImage x hx, himageNone x hmem, haudioNone x hmem]
      rfl
    have haudioTokens : ∀ token, IsPlaceholder model.audioTokenIds token →
        List.count token _ = totalSoftTokens (audioSoftTokens queues.audios) := fun x hx => by
      have hmem := mem_placeholders.2 (.inr hx)
      rw [hcountAudio x hx, himageNone x hmem, haudioNone x hmem]
      rfl
    have himageLimit := (Nat.le_add_right _ _).trans h.softTokens
    have haudioLimit := (Nat.le_add_left _ _).trans h.softTokens
    exact {
      images := himages ▸ h.images
      audios := haudios ▸ h.audios
      imagePlaceholders := himages ▸ h.walkable.images
      audioPlaceholders := haudios ▸ h.walkable.audios
      spans := hspans
      imageTokens := himages ▸ himageTokens
      audioTokens := haudios ▸ haudioTokens
      accounted := fun hmedia => by
        obtain ⟨params, budget, queues', hparams, hpreprocess, htokens, hwithin⟩ :=
          h.accounted hmedia
        rw [htokens, ← hlength] at hwithin
        exact ⟨params, budget, queues', hparams, hpreprocess, htokens.trans hlength.symm, hwithin⟩
      imageFeatures := himages ▸ splices_of himageLimit himageTokens
      audioFeatures := haudios ▸ splices_of haudioLimit haudioTokens }

/-- **Media are bound to their own placeholders**: the walk never runs out of attachments and leaves
none, and a prompt is bound to its media just where no boundary of an attached kind is a
placeholder. -/
theorem media_binding_iff {P : Type} {rendered : List ChatMessage → Except Error (List Token × P)}
    {messages : List ChatMessage} {pending : P}
    (hrendered : rendered messages = .ok (baseIds, pending)) :
    NeverUnbound processors model (messages.flatMap ChatMessage.content) baseIds promptBudget ∧
    ∀ expanded media pending',
      encodeChatWithMediaFullInner processors model rendered messages promptBudget =
        .ok (expanded, media, pending') →
      (Bound processors model (messages.flatMap ChatMessage.content) baseIds promptBudget expanded
          media ↔
        SeparateBoundaries model (messages.flatMap ChatMessage.content)) := by
  refine ⟨never_unbound _ _ _ _ _, fun expanded media pending' h => ?_⟩
  obtain ⟨queues, hqueues, hexpand⟩ := encode_ok hrendered h
  exact bound_iff hqueues hexpand

/-- An image of 40 soft tokens for any bytes, and no audio. -/
def imageProcessors : Processors where
  preprocessImageBytes := fun _ _ _ _ => .ok ⟨⟨[], []⟩, 20, 18, 40⟩
  preprocessAudioBytes := fun _ => .error (.model "audio clip decoded to zero samples")
  preprocessAudioBytesRaw := fun _ _ => .error (.model "audio clip decoded to zero samples")

/-- A model of images with these boundaries; the placeholder is 9. -/
def imageModel (boi eoi : Token) : MediaModel where
  imageProcessingParams := some (16, 280, 3)
  imageTokenIds := some (9, boi, eoi)
  audioTokenIds := none
  audioSamplesPerToken := none
  videoTokenId := none

/-- A question about an image. -/
def imageQuestion : List ChatMessage :=
  [⟨"user", [.image [0], .text "what is it?"], [], none, none⟩]

/-- What a template makes of it. -/
def renderImage (_messages : List ChatMessage) : Except Error (List Token × Unit) :=
  .ok ([1, 9, 2], ())

theorem image_is_bound : ∃ media,
    encodeChatWithMediaFullInner imageProcessors (imageModel 7 8) renderImage imageQuestion
      (some ⟨16, 64⟩) = .ok (1 :: 7 :: List.replicate 40 9 ++ [8, 2], media, ()) ∧
    Bound imageProcessors (imageModel 7 8) (imageQuestion.flatMap ChatMessage.content) [1, 9, 2]
      (some ⟨16, 64⟩) (1 :: 7 :: List.replicate 40 9 ++ [8, 2]) media := by
  have hencoded : encodeChatWithMediaFullInner imageProcessors (imageModel 7 8) renderImage
      imageQuestion (some ⟨16, 64⟩) = .ok (1 :: 7 :: List.replicate 40 9 ++ [8, 2],
        ⟨[⟨⟨[], []⟩, 20, 18, 40⟩], []⟩, ()) := by
    rfl
  refine ⟨_, hencoded, ((media_binding_iff rfl).2 _ _ _ hencoded).2 ⟨fun _ => ?_, fun hne => ?_⟩⟩
  · rintro _ _ _ ⟨⟩
    decide
  · exact absurd rfl hne

/-- Where the boundary before an image is its placeholder, there is a placeholder too many. -/
theorem boundary_is_counted : ∃ media,
    encodeChatWithMediaFullInner imageProcessors (imageModel 9 8) renderImage imageQuestion none =
      .ok (1 :: 9 :: List.replicate 40 9 ++ [8, 2], media, ()) ∧
    ¬ Bound imageProcessors (imageModel 9 8) (imageQuestion.flatMap ChatMessage.content) [1, 9, 2]
      none (1 :: 9 :: List.replicate 40 9 ++ [8, 2]) media := by
  have hencoded : encodeChatWithMediaFullInner imageProcessors (imageModel 9 8) renderImage
      imageQuestion none = .ok (1 :: 9 :: List.replicate 40 9 ++ [8, 2],
        ⟨[⟨⟨[], []⟩, 20, 18, 40⟩], []⟩, ()) := by
    rfl
  refine ⟨_, hencoded, fun hbound => ?_⟩
  exact absurd (hbound.imageTokens 9 rfl) (by decide)

end binding

end Media

end Emelex
