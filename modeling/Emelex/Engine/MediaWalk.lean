import Emelex.Engine.MediaPrompt

/-!
# The walk over the placeholders

* `replacement` — what stands in the place of a rendered token.
* `Walkable` — queues that fit the placeholders.
* `Walked` — the walk, after some of the tokens.

Principal results: `walked_step`, `walked_run`, `expandPlaceholders_ok`.
-/

set_option autoImplicit false

namespace Emelex

open Checks Checked

namespace Media

/-- The ids of a kind: its placeholder and the boundaries of a span. -/
abbrev SpanIds := Option (Token × Token × Token)

/-! ## Specification of the walk -/

/-- The token is the placeholder of the kind. -/
def IsPlaceholder (ids : SpanIds) (t : Token) : Prop := ids.map (fun ids => ids.1) = some t

instance (ids : SpanIds) (t : Token) : Decidable (IsPlaceholder ids t) := by
  unfold IsPlaceholder
  infer_instance

/-- The placeholders among some tokens. -/
def placeholderCount (ids : SpanIds) (tokens : List Token) : ℕ :=
  tokens.countP fun t => decide (IsPlaceholder ids t)

/-- The span of an item. -/
def spanFor (ids : SpanIds) (numSoftTokens : ℤ) : List Token :=
  match ids with
  | some (token, open_, close) => span open_ token close numSoftTokens
  | none => []

/-- The `k`-th placeholder of a kind gives way to the span of the `k`-th item; every other token
stays. -/
def replacement (imageIds audioIds : SpanIds) (images audios : List ℤ) (baseIds : List Token)
    (t : Token) (place : ℕ) : List Token :=
  if IsPlaceholder imageIds t then
    (images[placeholderCount imageIds (baseIds.take place)]?.map (spanFor imageIds)).getD []
  else if IsPlaceholder audioIds t then
    (audios[placeholderCount audioIds (baseIds.take place)]?.map (spanFor audioIds)).getD []
  else [t]

def imageSoftTokens (images : List ProcessedImage) : List ℤ := images.map fun i => i.numSoftTokens

def audioSoftTokens (audios : List ProcessedAudio) : List ℤ := audios.map fun a => a.numSoftTokens

/-- The prompt with all of its spans. -/
def replaced (imageIds audioIds : SpanIds) (media : MediaInputs) (baseIds : List Token) :
    List Token :=
  baseIds.zipIdx.flatMap fun (t, place) =>
    replacement imageIds audioIds (imageSoftTokens media.images) (audioSoftTokens media.audios)
      baseIds t place

/-- As many items as placeholders, no placeholder of two kinds, and none of a video. -/
structure Walkable (imageIds audioIds : SpanIds) (videoTokenId : Option Token)
    (baseIds : List Token) (queues : MediaQueues) : Prop where
  images : placeholderCount imageIds baseIds = queues.images.length
  audios : placeholderCount audioIds baseIds = queues.audios.length
  videos : queues.videos = []
  distinct : ∀ t ∈ baseIds, IsPlaceholder imageIds t → ¬ IsPlaceholder audioIds t
  video : ∀ t ∈ baseIds, videoTokenId ≠ some t

/-- The tokens that are put out: those that are no placeholders, and the spans. -/
structure Assembled (imageIds audioIds : SpanIds) (images audios : List ℤ) (tokens : ℕ)
    (expanded others : List Token) : Prop where
  perm : expanded.Perm (others ++ (images.flatMap (spanFor imageIds) ++
    audios.flatMap (spanFor audioIds)))
  count : others.length + images.length + audios.length = tokens
  other : ∀ t ∈ others, ¬ IsPlaceholder imageIds t ∧ ¬ IsPlaceholder audioIds t

/-- The walk after the tokens `done`. -/
structure Walked (imageIds audioIds : SpanIds) (baseIds : List Token) (queues : MediaQueues)
    (done : List Token) (state : Expansion) : Prop where
  expanded : state.expanded = done.zipIdx.flatMap fun (t, place) =>
    replacement imageIds audioIds (imageSoftTokens queues.images) (audioSoftTokens queues.audios)
      baseIds t place
  images : state.media.images = queues.images.take (placeholderCount imageIds done)
  audios : state.media.audios = queues.audios.take (placeholderCount audioIds done)
  imageQueue : state.queues.images = queues.images.drop (placeholderCount imageIds done)
  audioQueue : state.queues.audios = queues.audios.drop (placeholderCount audioIds done)
  videoQueue : state.queues.videos = []
  assembled : ∃ others, Assembled imageIds audioIds (imageSoftTokens state.media.images)
    (audioSoftTokens state.media.audios) done.length state.expanded others

section walk

variable {imageIds audioIds : SpanIds} {videoTokenId : Option Token} {baseIds : List Token}
  {queues : MediaQueues}

/-! ## The walk -/

theorem placeholderCount_append (ids : SpanIds) (a b : List Token) :
    placeholderCount ids (a ++ b) = placeholderCount ids a + placeholderCount ids b :=
  List.countP_append

theorem placeholderCount_singleton (ids : SpanIds) (t : Token) :
    placeholderCount ids [t] = if IsPlaceholder ids t then 1 else 0 := by
  unfold placeholderCount
  split <;> simp_all

/-- The items before a placeholder are not all of them. -/
theorem placeholderCount_lt {ids : SpanIds} {done rest : List Token} {t : Token}
    (h : IsPlaceholder ids t) :
    placeholderCount ids done < placeholderCount ids (done ++ t :: rest) := by
  rw [placeholderCount_append, ← List.singleton_append, placeholderCount_append,
    placeholderCount_singleton, if_pos h]
  omega

theorem expandToken_audio {state : Expansion} {t : Token} (himage : ¬ IsPlaceholder imageIds t)
    (hvideo : videoTokenId ≠ some t) :
    expandToken imageIds audioIds videoTokenId state t =
      expandToken.expandAudio audioIds state t := by
  unfold expandToken
  match imageIds, himage with
  | none, _ => rfl
  | some (token, boi, eoi), himage =>
    have hne : t ≠ token := fun h => himage (congrArg some h.symm)
    show (if _ then _ else _) = _
    rw [if_neg hne, if_neg hvideo]

theorem zipIdx_snoc (done : List Token) (t : Token) :
    (done ++ [t]).zipIdx = done.zipIdx ++ [(t, done.length)] := by
  rw [List.zipIdx_append, Nat.zero_add]
  rfl

theorem Assembled.image {images audios : List ℤ} {tokens : ℕ} {expanded others : List Token}
    (h : Assembled imageIds audioIds images audios tokens expanded others) (soft : ℤ) :
    Assembled imageIds audioIds (images ++ [soft]) audios (tokens + 1)
      (expanded ++ spanFor imageIds soft) others := by
  refine ⟨List.perm_iff_count.2 fun x => ?_, ?_, h.other⟩
  · have hcount := h.perm.count_eq x
    simp only [List.count_append, List.flatMap_append, List.flatMap_singleton] at hcount ⊢
    omega
  · have hcount := h.count
    rw [List.length_append, List.length_singleton]
    omega

theorem Assembled.audio {images audios : List ℤ} {tokens : ℕ} {expanded others : List Token}
    (h : Assembled imageIds audioIds images audios tokens expanded others) (soft : ℤ) :
    Assembled imageIds audioIds images (audios ++ [soft]) (tokens + 1)
      (expanded ++ spanFor audioIds soft) others := by
  refine ⟨List.perm_iff_count.2 fun x => ?_, ?_, h.other⟩
  · have hcount := h.perm.count_eq x
    simp only [List.count_append, List.flatMap_append, List.flatMap_singleton] at hcount ⊢
    omega
  · have hcount := h.count
    rw [List.length_append, List.length_singleton]
    omega

theorem Assembled.token {images audios : List ℤ} {tokens : ℕ} {expanded others : List Token}
    (h : Assembled imageIds audioIds images audios tokens expanded others) {t : Token}
    (himage : ¬ IsPlaceholder imageIds t) (haudio : ¬ IsPlaceholder audioIds t) :
    Assembled imageIds audioIds images audios (tokens + 1) (expanded ++ [t]) (others ++ [t]) := by
  refine ⟨List.perm_iff_count.2 fun x => ?_, ?_, fun t' ht' => ?_⟩
  · have hcount := h.perm.count_eq x
    simp only [List.count_append] at hcount ⊢
    omega
  · have hcount := h.count
    rw [List.length_append, List.length_singleton]
    omega
  · rcases List.mem_append.1 ht' with ht' | ht'
    · exact h.other t' ht'
    · rw [List.mem_singleton.1 ht']
      exact ⟨himage, haudio⟩

/-- What is in the place of a token, one token further. -/
theorem replaced_snoc {images audios : List ℤ} {done rest : List Token} {t : Token}
    (hbase : baseIds = done ++ t :: rest) :
    ((done ++ [t]).zipIdx.flatMap fun (t, place) =>
        replacement imageIds audioIds images audios baseIds t place) =
      (done.zipIdx.flatMap fun (t, place) =>
        replacement imageIds audioIds images audios baseIds t place) ++
      (if IsPlaceholder imageIds t then
        (images[placeholderCount imageIds done]?.map (spanFor imageIds)).getD []
      else if IsPlaceholder audioIds t then
        (audios[placeholderCount audioIds done]?.map (spanFor audioIds)).getD []
      else [t]) := by
  have htake : baseIds.take done.length = done := by
    rw [hbase]
    exact List.take_left
  rw [zipIdx_snoc, List.flatMap_append, List.flatMap_singleton]
  show _ ++ replacement imageIds audioIds images audios baseIds t done.length = _
  rw [replacement, htake]

theorem expandToken_image {state : Expansion} {token boi eoi : Token} {image : ProcessedImage}
    {images : List ProcessedImage} (hqueue : state.queues.images = image :: images) :
    expandToken (some (token, boi, eoi)) audioIds videoTokenId state token = .ok {
      expanded := state.expanded ++ span boi token eoi image.numSoftTokens
      media := { state.media with images := state.media.images ++ [image] }
      queues := { state.queues with images } } := by
  unfold expandToken
  show (if token = token then _ else _) = _
  rw [if_pos rfl, hqueue]
  rfl

theorem expandAudio_audio {state : Expansion} {token boa eoa : Token} {clip : ProcessedAudio}
    {audios : List ProcessedAudio} (hqueue : state.queues.audios = clip :: audios) :
    expandToken.expandAudio (some (token, boa, eoa)) state token = .ok {
      expanded := state.expanded ++ span boa token eoa clip.numSoftTokens
      media := { state.media with audios := state.media.audios ++ [clip] }
      queues := { state.queues with audios } } := by
  unfold expandToken.expandAudio
  show (if token = token then _ else _) = _
  rw [if_pos rfl, hqueue]
  rfl

theorem expandAudio_token {state : Expansion} {t : Token} (haudio : ¬ IsPlaceholder audioIds t) :
    expandToken.expandAudio audioIds state t =
      .ok { state with expanded := state.expanded ++ [t] } := by
  unfold expandToken.expandAudio
  match audioIds, haudio with
  | none, _ => rfl
  | some (token, boa, eoa), haudio => exact if_neg fun hsame => haudio (congrArg some hsame.symm)

/-- A turn of the walk takes the next item of its placeholder, and puts out its span. -/
theorem walked_step (hw : Walkable imageIds audioIds videoTokenId baseIds queues)
    {done rest : List Token} {t : Token} {state : Expansion} (hbase : baseIds = done ++ t :: rest)
    (h : Walked imageIds audioIds baseIds queues done state) :
    ∃ state', expandToken imageIds audioIds videoTokenId state t = .ok state' ∧
      Walked imageIds audioIds baseIds queues (done ++ [t]) state' := by
  have hmem : t ∈ baseIds := by simp [hbase]
  obtain ⟨others, hothers⟩ := h.assembled
  by_cases himage : IsPlaceholder imageIds t
  · have haudio := hw.distinct t hmem himage
    have hlt : placeholderCount imageIds done < queues.images.length := by
      rw [← hw.images, hbase]
      exact placeholderCount_lt himage
    have hqueue := h.imageQueue
    rw [List.drop_eq_getElem_cons hlt] at hqueue
    obtain ⟨⟨token, boi, eoi⟩, rfl, rfl⟩ := Option.map_eq_some_iff.1 himage
    refine ⟨_, expandToken_image hqueue, ?_, ?_, ?_, ?_, ?_, h.videoQueue, others, ?_⟩
    · rw [replaced_snoc hbase, ← h.expanded, if_pos himage, imageSoftTokens, List.getElem?_map,
        List.getElem?_eq_getElem hlt]
      rfl
    · show state.media.images ++ _ = _
      rw [h.images, placeholderCount_append, placeholderCount_singleton, if_pos himage,
        List.take_add_one, List.getElem?_eq_getElem hlt]
      rfl
    · show state.media.audios = _
      rw [h.audios, placeholderCount_append, placeholderCount_singleton, if_neg haudio,
        Nat.add_zero]
    · rw [placeholderCount_append, placeholderCount_singleton, if_pos himage]
    · show state.queues.audios = _
      rw [h.audioQueue, placeholderCount_append, placeholderCount_singleton, if_neg haudio,
        Nat.add_zero]
    · have hassembled := hothers.image
        queues.images[placeholderCount _ done].numSoftTokens
      rw [List.length_append, imageSoftTokens, List.map_append]
      exact hassembled
  · rw [expandToken_audio himage (hw.video t hmem)]
    by_cases haudio : IsPlaceholder audioIds t
    · have hlt : placeholderCount audioIds done < queues.audios.length := by
        rw [← hw.audios, hbase]
        exact placeholderCount_lt haudio
      have hqueue := h.audioQueue
      rw [List.drop_eq_getElem_cons hlt] at hqueue
      obtain ⟨⟨token, boa, eoa⟩, rfl, rfl⟩ := Option.map_eq_some_iff.1 haudio
      refine ⟨_, expandAudio_audio hqueue, ?_, ?_, ?_, ?_, ?_, h.videoQueue, others, ?_⟩
      · rw [replaced_snoc hbase, ← h.expanded, if_neg himage, if_pos haudio, audioSoftTokens,
          List.getElem?_map, List.getElem?_eq_getElem hlt]
        rfl
      · show state.media.images = _
        rw [h.images, placeholderCount_append, placeholderCount_singleton, if_neg himage,
          Nat.add_zero]
      · show state.media.audios ++ _ = _
        rw [h.audios, placeholderCount_append, placeholderCount_singleton, if_pos haudio,
          List.take_add_one, List.getElem?_eq_getElem hlt]
        rfl
      · show state.queues.images = _
        rw [h.imageQueue, placeholderCount_append, placeholderCount_singleton, if_neg himage,
          Nat.add_zero]
      · rw [placeholderCount_append, placeholderCount_singleton, if_pos haudio]
      · have hassembled := hothers.audio
          queues.audios[placeholderCount _ done].numSoftTokens
        rw [List.length_append, audioSoftTokens, List.map_append]
        exact hassembled
    · refine ⟨_, expandAudio_token haudio, ?_, ?_, ?_, ?_, ?_, h.videoQueue, others ++ [t], ?_⟩
      · rw [replaced_snoc hbase, ← h.expanded, if_neg himage, if_neg haudio]
      · show state.media.images = _
        rw [h.images, placeholderCount_append, placeholderCount_singleton, if_neg himage,
          Nat.add_zero]
      · show state.media.audios = _
        rw [h.audios, placeholderCount_append, placeholderCount_singleton, if_neg haudio,
          Nat.add_zero]
      · show state.queues.images = _
        rw [h.imageQueue, placeholderCount_append, placeholderCount_singleton, if_neg himage,
          Nat.add_zero]
      · show state.queues.audios = _
        rw [h.audioQueue, placeholderCount_append, placeholderCount_singleton, if_neg haudio,
          Nat.add_zero]
      · rw [List.length_append]
        exact hothers.token himage haudio

/-- The walk over the rest of the tokens. -/
theorem walked_run (hw : Walkable imageIds audioIds videoTokenId baseIds queues)
    {done rest : List Token} {state : Expansion} (hbase : baseIds = done ++ rest)
    (h : Walked imageIds audioIds baseIds queues done state) :
    ∃ state', rest.foldlM (expandToken imageIds audioIds videoTokenId) state = .ok state' ∧
      Walked imageIds audioIds baseIds queues baseIds state' := by
  induction rest generalizing done state with
  | nil =>
    rw [List.append_nil] at hbase
    exact ⟨state, rfl, hbase ▸ h⟩
  | cons t rest ih =>
    obtain ⟨next, hnext, hwalked⟩ := walked_step hw hbase h
    obtain ⟨state', hrun, hwalked⟩ := ih (by rw [hbase, List.append_assoc]; rfl) hwalked
    refine ⟨state', ?_, hwalked⟩
    rw [List.foldlM_cons, hnext]
    exact hrun

/-- Queues that fit the placeholders are used up, and every item stands in its place. -/
theorem expandPlaceholders_ok (hw : Walkable imageIds audioIds videoTokenId baseIds queues) :
    ∃ expanded media, expandPlaceholders imageIds audioIds videoTokenId baseIds queues =
        .ok (expanded, media) ∧
      media.images = queues.images ∧ media.audios = queues.audios ∧
      expanded = replaced imageIds audioIds media baseIds ∧
      ∃ others, Assembled imageIds audioIds (imageSoftTokens media.images)
        (audioSoftTokens media.audios) baseIds.length expanded others := by
  have hstart : Walked imageIds audioIds baseIds queues []
      { expanded := [], media := { images := [], audios := [] }, queues } := by
    refine ⟨rfl, ?_, ?_, ?_, ?_, hw.videos, [], List.Perm.refl _, rfl, by simp⟩ <;>
      simp [placeholderCount]
  obtain ⟨state, hrun, hwalked⟩ := walked_run hw rfl hstart
  have himages := hwalked.images
  have haudios := hwalked.audios
  rw [hw.images, List.take_length] at himages
  rw [hw.audios, List.take_length] at haudios
  have himageQueue := hwalked.imageQueue
  have haudioQueue := hwalked.audioQueue
  rw [hw.images, List.drop_length] at himageQueue
  rw [hw.audios, List.drop_length] at haudioQueue
  refine ⟨state.expanded, state.media, ?_, himages, haudios, ?_, hwalked.assembled⟩
  · unfold expandPlaceholders
    rw [hrun]
    show (ensure _ _ >>= fun _ => _) = _
    rw [ensure, if_pos (by rw [himageQueue, haudioQueue, hwalked.videoQueue]; simp)]
    rfl
  · rw [hwalked.expanded, replaced, himages, haudios]

end walk

end Media

end Emelex
