import Emelex.Engine.Streaming

/-!
# Streaming against terminal extraction

The classifier for a format without tool calls, fed with a reply cut into pieces whose raw and
display texts are the same.  It has three states: inside a reasoning span, after it, and before
the first character that decides whether there is one.

* `flushedWhitespace` — the leading white space that a cut makes the classifier release before
  the first other character: a held run of white space that has outgrown the bound.

Principal results: `inReasoning_streams`, `inText_streams` (what each state makes of the rest of
the reply), `classify_plain` (what streaming returns for every text and every cut),
`streaming_agrees_iff` (when this is what `splitReasoning` extracts from the whole text).
-/

set_option autoImplicit false

namespace Emelex

open Text

namespace StreamClassifier

/-! ## The states of the plain classifier -/

/-- Outside a reasoning span, with `pending` withheld. -/
def inText (reasoningPrefixPossible : Bool) (pending : Str) : StreamClassifier :=
  ⟨[], [], .text, [], reasoningPrefixPossible, pending, pending, false⟩

/-- Inside a reasoning span that `close` ends. -/
def inReasoning (close pending : Str) : StreamClassifier :=
  ⟨[], [], .reasoning, close, false, pending, pending, false⟩

theorem new_none : new .none = inText true [] := rfl

theorem push_inText (flag : Bool) (pending piece : Str) :
    (inText flag pending).push piece piece =
      pushLoop ((pending ++ piece).length + 2) (inText flag (pending ++ piece)) [] := rfl

theorem push_inReasoning (close pending piece : Str) :
    (inReasoning close pending).push piece piece =
      pushLoop ((pending ++ piece).length + 2) (inReasoning close (pending ++ piece)) [] := rfl

theorem findBoundary_inText_false (b : Str) : (inText false b).findBoundary = none := by
  simp [findBoundary, inText]

theorem splitDisplayForSafePrefix_same (raw : Str) (safe : Nat) :
    splitDisplayForSafePrefix raw raw safe = (raw.take safe, raw.drop safe) := by
  simp [splitDisplayForSafePrefix]

theorem splitDisplayAtMarker_same (raw : Str) (pos : Nat) (marker : Str) :
    splitDisplayAtMarker raw raw pos marker =
      (raw.take pos, raw.drop (pos + marker.length)) := by
  simp [splitDisplayAtMarker]

/-- After the span every character is answer text. -/
theorem pushLoop_inText_false (fuel : Nat) (b : Str) (output : List ClassifiedText) :
    pushLoop (fuel + 1) (inText false b) output =
      some (inText false [], pushNonempty output .text b) := by
  unfold pushLoop
  rw [findBoundary_inText_false]
  have hr : (inText false b).partialMarkerSuffixLen = 0 := by
    simp [partialMarkerSuffixLen, inText, markerSuffixLen, overlap_nil]
  simp only [hr, Nat.sub_zero]
  by_cases hb : b = []
  · subst hb; rfl
  · have hlen : (inText false b).rawPending.length ≠ 0 := by
      simpa [inText] using hb
    rw [if_neg hlen]
    simp [inText, splitDisplayForSafePrefix_same]

theorem pushLoop_inReasoning_some {fuel : Nat} {close b : Str} {output : List ClassifiedText}
    {pos : Nat} (h : find close b = some pos) :
    pushLoop (fuel + 1) (inReasoning close b) output =
      pushLoop fuel (inText false (b.drop (pos + close.length)))
        (pushNonempty output .reasoning (b.take pos)) := by
  have hb : (inReasoning close b).findBoundary = some (pos, close, .reasoningClose) := by
    simp [findBoundary, inReasoning, h]
  rw [pushLoop, hb]
  simp [inReasoning, inText, applyBoundary, splitDisplayAtMarker_same]

theorem pushLoop_inReasoning_none {fuel : Nat} {close b : Str} {output : List ClassifiedText}
    (hc : close ≠ []) (h : find close b = none) :
    pushLoop (fuel + 2) (inReasoning close b) output =
      some (inReasoning close (b.drop (b.length - overlap b close)),
        pushNonempty output .reasoning (b.take (b.length - overlap b close))) := by
  have hstep : ∀ (fuel : Nat) (b : Str) (output : List ClassifiedText), find close b = none →
      pushLoop (fuel + 1) (inReasoning close b) output =
        if b.length - overlap b close = 0 then some (inReasoning close b, output)
        else if overlap b close = 0 then
          some (inReasoning close (b.drop (b.length - overlap b close)),
            pushNonempty output .reasoning (b.take (b.length - overlap b close)))
        else pushLoop fuel (inReasoning close (b.drop (b.length - overlap b close)))
          (pushNonempty output .reasoning (b.take (b.length - overlap b close))) := by
    intro fuel b output h
    have hb : (inReasoning close b).findBoundary = none := by
      simp [findBoundary, inReasoning, h]
    rw [pushLoop, hb]
    simp [inReasoning, partialMarkerSuffixLen, markerSuffixLen, splitDisplayForSafePrefix_same]
  rw [hstep _ _ _ h]
  split
  · rename_i h0
    simp [h0, pushNonempty]
  · split
    · rfl
    · -- the withheld end of the text is a proper prefix of the marker, so the loop stops here
      have hlt := overlap_lt (s := b) hc
      have hk := overlap_take hlt
      rw [drop_overlap, hstep _ _ _ (find_of_length_lt (by rw [List.length_take]; omega)), hk,
        List.length_take, Nat.min_eq_left (by omega), Nat.sub_self, if_pos rfl]

theorem reasoningOpeners_none {candidate : Str} {leading : Nat} :
    ∀ {pairs : List (Str × Str)}, (∀ pair ∈ pairs, ¬ pair.1 <+: candidate) →
      ∀ found, reasoningOpeners candidate leading pairs found = found
  | [], _, _ => rfl
  | (opener, close) :: pairs, h, found => by
    unfold reasoningOpeners
    rw [if_neg (h _ List.mem_cons_self)]
    exact reasoningOpeners_none (fun pair hp => h pair (List.mem_cons_of_mem _ hp)) found

/-- The first opener found keeps its place: all candidates stand at the same position. -/
theorem reasoningOpeners_some {candidate : Str} {leading : Nat} {marker : Str}
    {boundary : Boundary} : ∀ pairs : List (Str × Str),
      reasoningOpeners candidate leading pairs (some (leading, marker, boundary)) =
        some (leading, marker, boundary)
  | [] => rfl
  | (opener, close) :: pairs => by
    unfold reasoningOpeners
    have : chooseEarlier (some (leading, marker, boundary)) leading opener
        (.reasoningOpen close) = some (leading, marker, boundary) := by
      simp [chooseEarlier]
    rw [this]
    split <;> exact reasoningOpeners_some pairs

theorem reasoningOpeners_eq (candidate : Str) (leading : Nat) :
    ∀ pairs : List (Str × Str), reasoningOpeners candidate leading pairs none =
      (openedBy candidate pairs).map fun r => (leading, r.1, .reasoningOpen r.2.1)
  | [] => rfl
  | (opener, close) :: pairs => by
    unfold reasoningOpeners openedBy
    cases hs : stripPrefix opener candidate with
    | none =>
      rw [if_neg (stripPrefix_eq_none.1 hs)]
      exact reasoningOpeners_eq candidate leading pairs
    | some t =>
      rw [if_pos ⟨t, (stripPrefix_eq_some.1 hs).symm⟩]
      exact reasoningOpeners_some pairs

theorem findBoundary_inText_true (b : Str) :
    (inText true b).findBoundary = (opensReasoning b).map fun r =>
      (b.length - (trimStart b).length, r.1, .reasoningOpen r.2.1) := by
  unfold findBoundary opensReasoning inText
  simp only [if_true, ne_eq, not_true, if_false]
  cases hc : prefixCandidate b with
  | none => rfl
  | some candidate =>
    obtain ⟨rfl, -⟩ := prefixCandidate_eq_some.1 hc
    exact reasoningOpeners_eq _ _ _

theorem pushLoop_inText_opens {fuel : Nat} {b opener close afterOpen : Str}
    {output : List ClassifiedText} (h : opensReasoning b = some (opener, close, afterOpen)) :
    pushLoop (fuel + 1) (inText true b) output =
      pushLoop fuel (inReasoning close afterOpen) output := by
  have hb := findBoundary_inText_true b
  rw [h] at hb
  obtain ⟨hm, w, ht, hw, -⟩ := opensReasoning_iff.1 h
  have htrim : trimStart b = opener ++ afterOpen := by
    rw [ht]; exact (takeWhile_before_opener hm hw).2
  have hpos : b.length - (trimStart b).length = w.length := by
    rw [htrim, ht]; simp only [List.length_append]; omega
  have hdrop : b.drop (w.length + opener.length) = afterOpen := by
    rw [ht, ← List.length_append, List.drop_left]
  rw [pushLoop, hb]
  simp [hpos, inText, inReasoning, applyBoundary, splitDisplayAtMarker_same, hdrop]

/-- Bounded white space and the beginning of an opener are withheld whole. -/
theorem pushLoop_inText_withheld {fuel : Nat} {b : Str} {output : List ClassifiedText}
    (ho : opensReasoning b = none) (hw : prefixWithheld b = true) :
    pushLoop (fuel + 1) (inText true b) output = some (inText true b, output) := by
  have hb := findBoundary_inText_true b
  rw [ho] at hb
  have hr : (inText true b).partialMarkerSuffixLen = b.length := by
    simp [partialMarkerSuffixLen, inText, hw, markerSuffixLen, overlap_nil]
  rw [pushLoop, hb]
  simp only [Option.map_none, hr]
  exact if_pos (Nat.sub_self _)

theorem pushLoop_inText_flush {fuel : Nat} {b : Str} {output : List ClassifiedText}
    (ho : opensReasoning b = none) (hw : prefixWithheld b = false) :
    pushLoop (fuel + 1) (inText true b) output =
      some (inText (trim b = []) [], pushNonempty output .text b) := by
  have hb := findBoundary_inText_true b
  rw [ho] at hb
  have hr : (inText true b).partialMarkerSuffixLen = 0 := by
    simp [partialMarkerSuffixLen, inText, hw, markerSuffixLen, overlap_nil]
  have hne : b ≠ [] := by
    rintro rfl
    exact absurd hw (by decide)
  have hlen : (inText true b).rawPending.length ≠ 0 := by simpa [inText] using hne
  rw [pushLoop, hb]
  simp only [Option.map_none, hr, Nat.sub_zero]
  rw [if_neg hlen]
  by_cases ht : trim b = [] <;> simp [inText, splitDisplayForSafePrefix_same, ht]

/-! ## What each state makes of the rest of a reply -/

/-- From state `c` the pieces come out as reasoning `r` and answer `a`. -/
def Streams (c : StreamClassifier) (pieces : List Str) (r a : Str) : Prop :=
  ∃ output, c.run (pieces.map fun piece => (piece, piece)) = some output ∧
    segments .reasoning output = r ∧ segments .text output = a

theorem Streams.cons {c c' : StreamClassifier} {piece : Str} {pieces : List Str} {r a : Str}
    {output : List ClassifiedText} (hp : c.push piece piece = some (c', output))
    (h : Streams c' pieces r a) :
    Streams c (piece :: pieces) (segments .reasoning output ++ r)
      (segments .text output ++ a) := by
  obtain ⟨rest, hr, rfl, rfl⟩ := h
  refine ⟨output ++ rest, ?_, by simp, by simp⟩
  rw [List.map_cons, run, hp]
  simp [hr]

theorem closed_streams (pieces : List Str) : Streams (inText false []) pieces [] pieces.flatten := by
  induction pieces with
  | nil => exact ⟨[], rfl, rfl, rfl⟩
  | cons piece pieces ih =>
    have hp := push_inText false [] piece
    rw [List.nil_append, pushLoop_inText_false] at hp
    simpa using Streams.cons hp ih

/-- What `b` and the pieces after it come to inside a span. -/
theorem inReasoning_streams_after {c : StreamClassifier} {close : Str} (hc : close ≠ [])
    (pieces : List Str) {b piece : Str} {fuel : Nat}
    (hpush : c.push piece piece = pushLoop (fuel + 2) (inReasoning close b) [])
    (ih : ∀ pending, (∃ n < close.length, pending = close.take n) →
      Streams (inReasoning close pending) pieces
        (spanOf close (pending ++ pieces.flatten)).1
        (spanOf close (pending ++ pieces.flatten)).2) :
    Streams c (piece :: pieces) (spanOf close (b ++ pieces.flatten)).1
      (spanOf close (b ++ pieces.flatten)).2 := by
  cases hf : find close b with
  | some pos =>
    rw [pushLoop_inReasoning_some hf, pushLoop_inText_false] at hpush
    have hle := find_le hf
    have hspan : spanOf close (b ++ pieces.flatten) =
        (b.take pos, b.drop (pos + close.length) ++ pieces.flatten) := by
      unfold spanOf
      rw [find_append_left hf]
      simp only
      rw [List.take_append_of_le_length (by omega), List.drop_append_of_le_length hle]
    rw [hspan]
    simpa using Streams.cons hpush (closed_streams pieces)
  | none =>
    rw [pushLoop_inReasoning_none hc hf] at hpush
    have hstep := Streams.cons hpush
      (ih _ ⟨overlap b close, overlap_lt hc, drop_overlap b close⟩)
    have hfind := find_append_of_overlap hf pieces.flatten
    have hlen : (b.take (b.length - overlap b close)).length = b.length - overlap b close := by
      rw [List.length_take]; omega
    have hspan : spanOf close (b ++ pieces.flatten) =
        (b.take (b.length - overlap b close) ++
            (spanOf close (b.drop (b.length - overlap b close) ++ pieces.flatten)).1,
          (spanOf close (b.drop (b.length - overlap b close) ++ pieces.flatten)).2) := by
      have hsplit := List.take_append_drop (b.length - overlap b close) b
      rw [← hsplit, List.append_assoc] at hfind
      rw [← spanOf_append (by rw [hlen]; simpa only [hsplit] using hfind), ← List.append_assoc,
        hsplit]
    rw [hspan]
    simpa using hstep

/-- Inside a span the reply is reasoning up to the first close marker, wherever it is cut. -/
theorem inReasoning_streams {close : Str} (hc : close ≠ []) (pieces : List Str) :
    ∀ pending, (∃ n < close.length, pending = close.take n) →
      Streams (inReasoning close pending) pieces
        (spanOf close (pending ++ pieces.flatten)).1
        (spanOf close (pending ++ pieces.flatten)).2 := by
  induction pieces with
  | nil =>
    rintro pending ⟨n, hn, rfl⟩
    have hf : find close (close.take n) = none :=
      find_of_length_lt (by rw [List.length_take]; omega)
    refine ⟨_, rfl, ?_, ?_⟩ <;> simp [finish, inReasoning, spanOf, hf]
  | cons piece pieces ih =>
    intro pending _
    have := inReasoning_streams_after hc pieces (push_inReasoning close pending piece) ih
    simpa [List.append_assoc] using this

end StreamClassifier

/-! ## Leading white space -/

/-- The leading white space released while the reply is still all white space: a held run that
has outgrown `MAX_PREFIX_WHITESPACE_BYTES` at the end of a piece. -/
def flushedWhitespace (held : Str) : List Str → Str
  | [] => []
  | piece :: pieces =>
    if trimStart (held ++ piece) = [] then
      if utf8Len (held ++ piece) ≤ MAX_PREFIX_WHITESPACE_BYTES then
        flushedWhitespace (held ++ piece) pieces
      else held ++ piece ++ flushedWhitespace [] pieces
    else []

theorem flushedWhitespace_of_text {held : Str} (h : trimStart held ≠ []) (pieces : List Str) :
    flushedWhitespace held pieces = [] := by
  cases pieces with
  | nil => rfl
  | cons piece pieces =>
    unfold flushedWhitespace
    rw [trimStart_append h, if_neg (by simp [h])]

/-- What is flushed is white space that starts the reply, and more than the bound. -/
theorem flushedWhitespace_spec (held : Str) (pieces : List Str) :
    flushedWhitespace held pieces <+: held ++ pieces.flatten ∧
      (∀ c ∈ flushedWhitespace held pieces, isWhitespace c) ∧
      (flushedWhitespace held pieces = [] ∨
        MAX_PREFIX_WHITESPACE_BYTES < utf8Len (flushedWhitespace held pieces)) := by
  induction pieces generalizing held with
  | nil => exact ⟨List.nil_prefix, by simp [flushedWhitespace], Or.inl rfl⟩
  | cons piece pieces ih =>
    unfold flushedWhitespace
    rw [List.flatten_cons, ← List.append_assoc]
    split
    · rename_i hws
      split
      · exact ih (held ++ piece)
      · rename_i hlong
        obtain ⟨hpre, hall, -⟩ := ih []
        refine ⟨(List.prefix_append_right_inj _).2 hpre, ?_, Or.inr ?_⟩
        · intro c hc
          rcases List.mem_append.1 hc with hc | hc
          · exact trimStart_eq_nil.1 hws c hc
          · exact hall c hc
        · rw [utf8Len_append]; omega
    · exact ⟨List.nil_prefix, by simp, Or.inl rfl⟩

/-- Text that neither opens a span nor may still do so never will. -/
theorem opensReasoning_append_none {b : Str} (ho : opensReasoning b = none)
    (hw : StreamClassifier.prefixWithheld b = false) (ht : trimStart b ≠ []) (q : Str) :
    opensReasoning (b ++ q) = none := by
  cases h : opensReasoning (b ++ q) with
  | none => rfl
  | some r =>
    obtain ⟨opener, close, afterOpen⟩ := r
    obtain ⟨hm, w, he, hall, hle⟩ := opensReasoning_iff.1 h
    obtain ⟨htake, htrim⟩ := takeWhile_before_opener (t := afterOpen) hm hall
    rw [← he, trimStart_append ht] at htrim
    have hwb : b.takeWhile isWhitespace = w := by
      have h1 := takeWhile_append_trimStart (b ++ q)
      rw [trimStart_append ht, he, htake, ← he] at h1
      have h2 := takeWhile_append_trimStart b
      rw [← List.append_assoc] at h1
      exact List.append_cancel_right (h2.trans (List.append_cancel_right h1).symm)
    have hcand : prefixCandidate b = some (trimStart b) :=
      prefixCandidate_eq_some.2 ⟨rfl, by rw [hwb]; exact hle⟩
    have h1 : trimStart b <+: opener ++ afterOpen := htrim ▸ List.prefix_append _ _
    have h2 : opener <+: opener ++ afterOpen := List.prefix_append _ _
    rcases Nat.le_total (trimStart b).length opener.length with hl | hl
    · -- the candidate is the beginning of the opener
      have hpre := List.prefix_of_prefix_length_le h1 h2 hl
      unfold StreamClassifier.prefixWithheld at hw
      rw [hcand] at hw
      exact absurd (Or.inr ⟨_, hm, hpre⟩) (of_decide_eq_false hw)
    · obtain ⟨t, hpre⟩ := List.prefix_of_prefix_length_le h2 h1 hl
      have : opensReasoning b = some (opener, close, t) :=
        opensReasoning_iff.2 ⟨hm, w, by
          rw [List.append_assoc, hpre, ← hwb, takeWhile_append_trimStart], hall, hle⟩
      rw [ho] at this
      cases this

theorem prefixWithheld_whitespace {b : Str} (h : trimStart b = []) :
    StreamClassifier.prefixWithheld b = decide (utf8Len b ≤ MAX_PREFIX_WHITESPACE_BYTES) := by
  unfold StreamClassifier.prefixWithheld prefixCandidate
  rw [h]
  by_cases hl : utf8Len b ≤ MAX_PREFIX_WHITESPACE_BYTES <;> simp [hl]

namespace StreamClassifier

/-- Before the reply has decided whether it opens a span. -/
theorem inText_streams (pieces : List Str) : ∀ pending, opensReasoning pending = none →
    Streams (inText true pending) pieces
      ((splitReasoning ((pending ++ pieces.flatten).drop
        (flushedWhitespace pending pieces).length)).1.getD [])
      (flushedWhitespace pending pieces ++
        (splitReasoning ((pending ++ pieces.flatten).drop
          (flushedWhitespace pending pieces).length)).2) := by
  induction pieces with
  | nil =>
    intro pending ho
    have heq := splitReasoning_eq pending
    rw [ho] at heq
    obtain ⟨h1, h2⟩ := Prod.mk.inj heq
    refine ⟨_, rfl, ?_, ?_⟩ <;> simp [finish, inText, flushedWhitespace, h1, h2]
  | cons piece pieces ih =>
    intro pending ho
    have hp := push_inText true pending piece
    rw [List.flatten_cons, ← List.append_assoc]
    generalize hb : pending ++ piece = b at hp ⊢
    have hflush : flushedWhitespace pending (piece :: pieces) =
        if trimStart b = [] then
          if utf8Len b ≤ MAX_PREFIX_WHITESPACE_BYTES then flushedWhitespace b pieces
          else b ++ flushedWhitespace [] pieces
        else [] := by rw [flushedWhitespace, hb]
    cases hob : opensReasoning b with
    | some r =>
      obtain ⟨opener, close, afterOpen⟩ := r
      obtain ⟨hm, w, he, hall, -⟩ := opensReasoning_iff.1 hob
      obtain ⟨hne, hclose⟩ := MARKER_PAIRS_nonempty hm
      have hlen : 0 < b.length := by
        have hpos := List.length_pos_iff.2 hne
        simp only at hpos
        rw [he]
        simp only [List.length_append]
        omega
      have htrim : trimStart b ≠ [] := by
        rw [he, (takeWhile_before_opener hm hall).2]; simp [hne]
      rw [if_neg htrim] at hflush
      obtain ⟨n, hn⟩ : ∃ n, b.length + 2 = n + 3 := ⟨b.length - 1, by omega⟩
      rw [hn, pushLoop_inText_opens hob] at hp
      have hsplit := splitReasoning_eq (b ++ pieces.flatten)
      rw [opensReasoning_append hob] at hsplit
      simp only at hsplit
      have := inReasoning_streams_after hclose pieces hp (inReasoning_streams hclose pieces)
      rw [hflush, List.length_nil, List.drop_zero, List.nil_append, (Prod.mk.inj hsplit).1]
      rwa [← (congrArg Prod.snd hsplit :)] at this
    | none =>
      cases hwb : prefixWithheld b with
      | true =>
        rw [pushLoop_inText_withheld hob hwb] at hp
        have hsame : flushedWhitespace pending (piece :: pieces) = flushedWhitespace b pieces := by
          rw [hflush]
          by_cases ht : trimStart b = []
          · rw [if_pos ht, if_pos]
            rw [prefixWithheld_whitespace ht] at hwb
            exact of_decide_eq_true hwb
          · rw [if_neg ht, flushedWhitespace_of_text ht]
        rw [hsame]
        simpa using Streams.cons hp (ih b hob)
      | false =>
        rw [pushLoop_inText_flush hob hwb] at hp
        by_cases ht : trimStart b = []
        · -- white space beyond the bound goes out, and an opener is still looked for
          rw [prefixWithheld_whitespace ht] at hwb
          rw [if_pos ht, if_neg (of_decide_eq_false hwb)] at hflush
          have htrim : trim b = [] := trim_eq_nil.2 (trimStart_eq_nil.1 ht)
          rw [htrim] at hp
          have := Streams.cons hp (ih [] rfl)
          simpa [hflush, List.drop_length_add_append] using this
        · rw [if_neg ht] at hflush
          have htrim : trim b ≠ [] := by
            rwa [Ne, trim_eq_nil, ← trimStart_eq_nil]
          have hsplit := splitReasoning_eq (b ++ pieces.flatten)
          rw [opensReasoning_append_none hob hwb ht] at hsplit
          obtain ⟨h1, h2⟩ := Prod.mk.inj hsplit
          simp only [htrim, decide_false] at hp
          have := Streams.cons hp (closed_streams pieces)
          simpa [hflush, h1, h2] using this

end StreamClassifier

/-! ## Agreement -/

/-- What streaming makes of a reply cut into `pieces`: the flushed white space is answer text,
and what follows it is split like a reply of its own. -/
theorem classify_plain (pieces : List Str) :
    let flushed := flushedWhitespace [] pieces
    let rest := splitReasoning (pieces.flatten.drop flushed.length)
    ∃ output, classify .none (pieces.map fun piece => (piece, piece)) = some output ∧
      segments .reasoning output = rest.1.getD [] ∧ segments .text output = flushed ++ rest.2 :=
  StreamClassifier.inText_streams pieces [] rfl

theorem spanOf_snd_length (close afterOpen : Str) :
    (spanOf close afterOpen).2.length ≤ afterOpen.length := by
  unfold spanOf
  split
  · rw [List.length_drop]; omega
  · exact Nat.zero_le _

/-- The whole reply does not open a span once white space has been flushed. -/
theorem opensReasoning_of_flushed {pieces : List Str} (h : flushedWhitespace [] pieces ≠ []) :
    opensReasoning pieces.flatten = none := by
  obtain ⟨hpre, hall, hlen⟩ := flushedWhitespace_spec [] pieces
  rcases hlen with h0 | hlong
  · exact absurd h0 h
  · cases ho : opensReasoning pieces.flatten with
    | none => rfl
    | some r =>
      obtain ⟨opener, close, afterOpen⟩ := r
      obtain ⟨hm, w, he, hw, hle⟩ := opensReasoning_iff.1 ho
      have htake := (takeWhile_before_opener (t := afterOpen) hm hw).1
      obtain ⟨t, ht⟩ := hpre
      rw [List.nil_append] at ht
      rw [← he, ← ht, List.takeWhile_append_of_pos hall] at htake
      have := congrArg utf8Len htake
      rw [utf8Len_append] at this
      omega

/-- The segments of the stream are the fields of the terminal extraction exactly when no white
space was flushed or what follows it does not open a reasoning span. -/
theorem streaming_agrees_iff (pieces : List Str) :
    (∃ output, classify .none (pieces.map fun piece => (piece, piece)) = some output ∧
      segments .reasoning output = (splitReasoning pieces.flatten).1.getD [] ∧
      segments .text output = (splitReasoning pieces.flatten).2) ↔
    (flushedWhitespace [] pieces = [] ∨
      opensReasoning (pieces.flatten.drop (flushedWhitespace [] pieces).length) = none) := by
  obtain ⟨output, hrun, hr, ha⟩ := classify_plain pieces
  obtain ⟨⟨rest, hpre⟩, -, -⟩ := flushedWhitespace_spec [] pieces
  rw [List.nil_append] at hpre
  by_cases hf : flushedWhitespace [] pieces = []
  · simp only [hf, true_or, iff_true]
    rw [hf] at hr ha
    exact ⟨output, hrun, by simpa using hr, by simpa using ha⟩
  · have hdrop : pieces.flatten.drop (flushedWhitespace [] pieces).length = rest := by
      rw [← hpre, List.drop_left]
    rw [hdrop] at hr ha ⊢
    have hwhole := splitReasoning_eq pieces.flatten
    rw [opensReasoning_of_flushed hf] at hwhole
    obtain ⟨hw1, hw2⟩ := Prod.mk.inj hwhole
    have hsplit := splitReasoning_eq rest
    simp only [hf, false_or]
    constructor
    · rintro ⟨output', hrun', -, ha'⟩
      cases hrun.symm.trans hrun'
      cases ho : opensReasoning rest with
      | none => rfl
      | some r =>
        -- the opener is missing from the streamed answer
        obtain ⟨opener, close, afterOpen⟩ := r
        rw [ho] at hsplit
        obtain ⟨hm, w, he, -, -⟩ := opensReasoning_iff.1 ho
        have hne := List.length_pos_iff.2 (MARKER_PAIRS_nonempty hm).1
        rw [ha, hw2, ← hpre] at ha'
        have h2 := congrArg Prod.snd hsplit
        simp only at h2
        have hlen := congrArg List.length (List.append_cancel_left ha')
        have hle := spanOf_snd_length close afterOpen
        rw [h2, he] at hlen
        simp only [List.length_append] at hlen hne
        omega
    · intro ho
      rw [ho] at hsplit
      obtain ⟨h1, h2⟩ := Prod.mk.inj hsplit
      refine ⟨output, hrun, ?_, ?_⟩
      · rw [hr, h1, hw1]
      · rw [ha, h2, hw2, hpre]

/-- Sixty-five spaces in a piece of their own, then an opener. -/
theorem long_whitespace_then_opener :
    ¬ ∀ pieces : List Str,
      ∃ output, classify .none (pieces.map fun piece => (piece, piece)) = some output ∧
        segments .reasoning output = (splitReasoning pieces.flatten).1.getD [] ∧
        segments .text output = (splitReasoning pieces.flatten).2 := by
  intro h
  obtain ⟨output, hrun, -, ha⟩ := h [List.replicate 65 ' ', "<think>x".toList]
  obtain ⟨output', hrun', -, ha'⟩ := classify_plain [List.replicate 65 ' ', "<think>x".toList]
  cases hrun.symm.trans hrun'
  rw [ha] at ha'
  exact absurd (congrArg List.length ha') (by decide +kernel)

end Emelex
