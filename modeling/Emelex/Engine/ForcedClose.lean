import Emelex.Engine.Rechunking
import Emelex.Engine.TokenEmitter

/-!
# After a teacher-forced close (`engine/generate.rs`, `engine/reasoning.rs`)

The token emitter from `arm_close_filters` on: the decoded pieces pass through
`filter_post_budget_closes` and the classifier of a format without tool markers, and
`flush_terminal` ends the reply.

* `AfterClose` — the classifier as a close leaves it; `pushes_after_close`.
* `Owed` — the answer text that the rest of a reply still has to bring, given what the filter
  holds back; one lemma for each operation says what it sends and what stays owed.

Principal results: `pushes_after_close`, `forced_close_streams_answer` (what is streamed is the
answer that `splitReasoningAfterForcedClose` extracts from the whole reply).
-/

set_option autoImplicit false

namespace Emelex

open Text

namespace StreamClassifier

/-! ## The classifier after a close -/

/-- The classifier of a format without tool markers after a close, with nothing pending: a
deferring one, or one that takes everything for answer text. -/
def AfterClose (c : StreamClassifier) : Prop :=
  c.deferUntilTerminal = true ∨ c = inText false []

/-- Push pieces whose raw and display texts are the same. -/
def pushes (c : StreamClassifier) : List Str → Option StreamClassifier
  | [] => some c
  | piece :: pieces => (c.push piece piece).bind fun r => r.1.pushes pieces

theorem pushes_inText_false (pieces : List Str) :
    (inText false []).pushes pieces = some (inText false []) := by
  induction pieces with
  | nil => rfl
  | cons piece pieces ih =>
    unfold pushes
    rw [push_inText, List.nil_append, pushLoop_inText_false]
    exact ih

theorem pushes_deferring {c : StreamClassifier} (h : c.deferUntilTerminal = true)
    (pieces : List Str) : c.pushes pieces = some c := by
  induction pieces with
  | nil => rfl
  | cons piece pieces ih =>
    unfold pushes push
    rw [if_pos h]
    exact ih

/-- A span in which the close is still to come ends with it, wherever the text is cut. -/
theorem loop_inReasoning {close b : Str} {pieces : List Str} {fuel : Nat} (hc : close ≠ [])
    (hclose : close <:+: b ++ pieces.flatten)
    (ih : ∀ pending, close <:+: pending ++ pieces.flatten → find close pending = none →
      (inReasoning close pending).pushes pieces = some (inText false [])) :
    ((pushLoop (fuel + 2) (inReasoning close b) []).bind fun r => r.1.pushes pieces) =
      some (inText false []) := by
  cases hf : find close b with
  | some pos =>
    rw [pushLoop_inReasoning_some hf, pushLoop_inText_false]
    exact pushes_inText_false pieces
  | none =>
    rw [pushLoop_inReasoning_none hc hf]
    refine ih _ ?_ ?_
    · have hfind := find_append_of_overlap hf pieces.flatten
      have hsome := find_isSome.2 hclose
      rw [hfind, Option.isSome_map] at hsome
      exact find_isSome.1 hsome
    · have hlt := overlap_lt (s := b) hc
      rw [drop_overlap]
      exact find_of_length_lt (by rw [List.length_take]; omega)

theorem pushes_inReasoning {close : Str} (hc : close ≠ []) (pieces : List Str) :
    ∀ pending, close <:+: pending ++ pieces.flatten → find close pending = none →
      (inReasoning close pending).pushes pieces = some (inText false []) := by
  induction pieces with
  | nil =>
    intro pending hclose hnone
    rw [List.flatten_nil, List.append_nil] at hclose
    have hsome := find_isSome.2 hclose
    rw [hnone] at hsome
    cases hsome
  | cons piece pieces ih =>
    intro pending hclose _
    unfold pushes
    rw [push_inReasoning]
    rw [List.flatten_cons, ← List.append_assoc] at hclose
    exact loop_inReasoning hc hclose ih

theorem pushes_inText (pieces : List Str) : ∀ {pending opener close afterOpen : Str},
    opensReasoning pending = none →
    opensReasoning (pending ++ pieces.flatten) = some (opener, close, afterOpen) →
    close <:+: afterOpen →
    (inText true pending).pushes pieces = some (inText false []) := by
  induction pieces with
  | nil =>
    intro pending opener close afterOpen hnone hopens _
    rw [List.flatten_nil, List.append_nil, hnone] at hopens
    cases hopens
  | cons piece pieces ih =>
    intro pending opener close afterOpen hnone hopens hclose
    rw [List.flatten_cons, ← List.append_assoc] at hopens
    unfold pushes
    rw [push_inText]
    cases ho : opensReasoning (pending ++ piece) with
    | some opened =>
      obtain ⟨opener', close', after⟩ := opened
      have hwhole := opensReasoning_append ho pieces.flatten
      rw [hopens] at hwhole
      cases hwhole
      rw [pushLoop_inText_opens ho]
      have hne := (MARKER_PAIRS_nonempty (opensReasoning_eq_some ho).1).2
      have hlen : (pending ++ piece).length + 1 = ((pending ++ piece).length - 1) + 2 := by
        have hpre := (MARKER_PAIRS_nonempty (opensReasoning_eq_some ho).1).1
        have htext := congrArg List.length (opensReasoning_eq_some ho).2.1
        have := List.length_pos_iff.2 hpre
        simp only [List.length_append] at *
        omega
      rw [hlen]
      exact loop_inReasoning hne hclose (pushes_inReasoning hne pieces)
    | none =>
      cases hw : prefixWithheld (pending ++ piece) with
      | true =>
        rw [pushLoop_inText_withheld ho hw]
        exact ih ho hopens hclose
      | false =>
        by_cases ht : trimStart (pending ++ piece) = []
        · -- a held run of white space that has outgrown the bound
          obtain ⟨-, -, hle⟩ := opensReasoning_eq_some hopens
          rw [prefixWithheld_whitespace ht] at hw
          rw [List.takeWhile_append_of_pos (trimStart_eq_nil.1 ht), utf8Len_append] at hle
          have := of_decide_eq_false hw
          omega
        · exact absurd hopens (by rw [opensReasoning_append_none ho hw ht]; nofun)

/-- The reply up to a close, after the opener in the prompt or with an opener of its own, leaves
the classifier of a format without tool markers after the close. -/
theorem pushes_after_close {format : ToolCallFormat} (hformat : toolMarkers format = ([], []))
    {opener close reasoning : Str} (hpair : (opener, close) ∈ MARKER_PAIRS) {seed : Option Str}
    (hseed : seed = none ∨ seed = some close) {pieces : List Str}
    (hpieces : pieces.flatten = (if seed = none then opener else []) ++ reasoning ++ close) :
    ∃ c, (start format seed).pushes pieces = some c ∧ c.AfterClose := by
  have hne := (MARKER_PAIRS_nonempty hpair).2
  cases format with
  | hermes => cases hformat
  | laguna => cases hformat
  | gemma => cases hformat
  | llamaJson =>
    have hdefer : (start .llamaJson seed).deferUntilTerminal = true := by
      cases seed <;> rfl
    exact ⟨_, pushes_deferring hdefer pieces, .inl hdefer⟩
  | none =>
    refine ⟨inText false [], ?_, .inr rfl⟩
    rcases hseed with rfl | rfl
    · rw [if_pos rfl, List.append_assoc] at hpieces
      have hopens : opensReasoning ([] ++ pieces.flatten) =
          some (opener, close, reasoning ++ close) := by
        rw [List.nil_append, hpieces]
        exact opensReasoning_iff.2 ⟨hpair, [], rfl, nofun, Nat.zero_le _⟩
      exact pushes_inText pieces rfl hopens (List.suffix_append _ _).isInfix
    · rw [if_neg nofun, List.nil_append] at hpieces
      refine pushes_inReasoning hne pieces [] ?_ (find_of_length_lt (List.length_pos_iff.2 hne))
      rw [List.nil_append, hpieces]
      exact (List.suffix_append _ _).isInfix

/-- After a close a push passes its display text on. -/
theorem afterClose_pushed {c : StreamClassifier} (hc : c.AfterClose) {raw display : Str}
    (hraw : raw = [] → display = []) :
    (c.pushed raw display).1 = c ∧
      ((c.pushed raw display).2.map ClassifiedText.text).flatten = display := by
  rcases hc with hdefer | rfl
  · unfold pushed push
    rw [if_pos hdefer]
    exact ⟨rfl, List.append_nil _⟩
  · let c : StreamClassifier := ⟨[], [], .text, [], false, raw, display, false⟩
    have hboundary : c.findBoundary = none := by simp [c, findBoundary]
    have hretained : c.partialMarkerSuffixLen = 0 := by
      simp [c, partialMarkerSuffixLen, markerSuffixLen, overlap_nil]
    have hsplit : splitDisplayForSafePrefix raw display raw.length = (display, []) := by
      unfold splitDisplayForSafePrefix
      split
      · rename_i h
        rw [h, List.take_length, List.drop_length]
      · rw [if_pos rfl]
    have hpush : (inText false []).push raw display =
        some (inText false [], pushNonempty [] .text display) := by
      show pushLoop (raw.length + 2) c [] = _
      unfold pushLoop
      rw [hboundary, hretained]
      by_cases h : raw = []
      · obtain rfl := h
        obtain rfl := hraw rfl
        rfl
      · have hlen : c.rawPending.length - 0 ≠ 0 := by simpa [c] using h
        dsimp only
        rw [if_neg hlen, if_pos rfl]
        simp [c, hsplit, inText]
    unfold pushed
    rw [hpush]
    refine ⟨rfl, ?_⟩
    unfold pushNonempty
    by_cases h : display = [] <;> simp [h]

end StreamClassifier

/-! ## What is sent and what stays owed -/

/-- The texts of the calls. -/
def sentText (calls : List GeneratedToken) : Str := (calls.map GeneratedToken.text).flatten

/-- The answer that the rest of a reply brings: `splitReasoningAfterForcedClose` after the
close. -/
def answerAfterClose (rest close : Str) : Str :=
  (stripImmediateForcedClose rest close).getD rest

/-- The answer text that `rest` still brings, given what the filter holds back. -/
def owed (orphanClose : Option (Str × Str × Str)) (rest : Str) : Str :=
  match orphanClose with
  | none => rest
  | some (close, raw, _) => answerAfterClose (raw ++ rest) close

/-- Text held back by the filter: bounded white space and the beginning of the close. -/
structure Undecided (close buffer : Str) : Prop where
  leading : utf8Len buffer - utf8Len (trimStart buffer) ≤ MAX_FORCED_CLOSE_WHITESPACE_BYTES
  candidate : trimStart buffer = [] ∨ trimStart buffer <+: close
  unmatched : ¬ close <+: trimStart buffer

theorem utf8Len_trimStart (s : Str) : utf8Len (trimStart s) ≤ utf8Len s := by
  have := congrArg utf8Len (takeWhile_append_trimStart s)
  rw [utf8Len_append] at this
  omega

/-- The third bound of the filter follows from the other two. -/
theorem Undecided.length_le {close buffer : Str} (h : Undecided close buffer) :
    utf8Len buffer ≤ utf8Len close + MAX_FORCED_CLOSE_WHITESPACE_BYTES := by
  have hcandidate : utf8Len (trimStart buffer) ≤ utf8Len close := by
    rcases h.candidate with hnil | ⟨t, ht⟩
    · rw [hnil]
      exact Nat.zero_le _
    · rw [← ht, utf8Len_append]
      omega
  have := h.leading
  have := utf8Len_trimStart buffer
  omega

/-- A close within the bound is dropped from the answer. -/
theorem answerAfterClose_matched {close buffer : Str} (hne : close ≠ [])
    (hleading : utf8Len buffer - utf8Len (trimStart buffer) ≤ MAX_FORCED_CLOSE_WHITESPACE_BYTES)
    (hmatch : close <+: trimStart buffer) (rest : Str) :
    answerAfterClose (buffer ++ rest) close =
      buffer.drop (buffer.length - (trimStart buffer).length + close.length) ++ rest := by
  obtain ⟨t, ht⟩ := hmatch
  have hcandidate : trimStart buffer ≠ [] := by
    rw [← ht]
    exact fun h => hne (List.append_eq_nil_iff.1 h).1
  have hstrip : stripImmediateForcedClose (buffer ++ rest) close = some (t ++ rest) := by
    unfold stripImmediateForcedClose
    dsimp only
    rw [trimStart_append hcandidate, utf8Len_append, utf8Len_append, Nat.add_sub_add_right,
      if_pos hleading, stripPrefix_eq_some, ← ht, List.append_assoc]
  have hdrop : buffer.drop (buffer.length - (trimStart buffer).length + close.length) = t := by
    have hsplit := takeWhile_append_trimStart buffer
    have hlen := congrArg List.length hsplit
    rw [List.length_append] at hlen
    have hdropped : buffer.drop (buffer.takeWhile isWhitespace).length = trimStart buffer := by
      have := congrArg (List.drop (buffer.takeWhile isWhitespace).length) hsplit
      rw [List.drop_left] at this
      exact this.symm
    rw [← List.drop_drop, show buffer.length - (trimStart buffer).length =
      (buffer.takeWhile isWhitespace).length by omega, hdropped, ← ht, List.drop_left]
  unfold answerAfterClose
  rw [hstrip, Option.getD_some, hdrop]

/-- Text that is neither the close nor undecided belongs to the answer, whatever follows. -/
theorem answerAfterClose_diverged {close buffer : Str}
    (hunmatched : ¬ (utf8Len buffer - utf8Len (trimStart buffer) ≤
      MAX_FORCED_CLOSE_WHITESPACE_BYTES ∧ close <+: trimStart buffer))
    (hdecided : ¬ Undecided close buffer) (rest : Str) :
    answerAfterClose (buffer ++ rest) close = buffer ++ rest := by
  have hnone : stripImmediateForcedClose (buffer ++ rest) close = none := by
    unfold stripImmediateForcedClose
    dsimp only
    by_cases hnil : trimStart buffer = []
    · -- white space alone, so too much of it
      have hlong : MAX_FORCED_CLOSE_WHITESPACE_BYTES < utf8Len buffer := by
        by_contra hle
        refine hdecided ⟨?_, .inl hnil, fun hpre => ?_⟩
        · omega
        · exact hunmatched ⟨by omega, hpre⟩
      have htrim := trimStart_of_all (trimStart_eq_nil.1 hnil) rest
      have := utf8Len_trimStart rest
      rw [htrim, utf8Len_append, if_neg (by omega)]
    · rw [trimStart_append hnil, utf8Len_append, utf8Len_append, Nat.add_sub_add_right]
      split
      · rename_i hleading
        rw [stripPrefix_eq_none]
        intro hpre
        rcases Nat.le_total close.length (trimStart buffer).length with hle | hle
        · exact hunmatched ⟨hleading,
            List.prefix_of_prefix_length_le hpre (List.prefix_append _ _) hle⟩
        · exact hdecided ⟨hleading,
            .inr (List.prefix_of_prefix_length_le (List.prefix_append _ _) hpre hle),
            fun h => hunmatched ⟨hleading, h⟩⟩
      · rfl
  unfold answerAfterClose
  rw [hnone, Option.getD_none]

namespace TokenEmitter

/-- The texts offered to the callback: all of `text` when the last call is accepted, the
beginning of it when the callback declines.  Nothing but the calls changes. -/
structure Sends (e : TokenEmitter) (text : Str) (r : TokenEmitter × Bool) : Prop where
  kept : ∃ calls callbackOpen, r.1 = { e with calls := calls, callbackOpen := callbackOpen }
  stays : r.1.callbackOpen = (e.callbackOpen && r.2)
  sent : ∃ s, sentText r.1.calls = sentText e.calls ++ s ∧ s <+: text ∧ (r.2 = true → s = text)

theorem callback_sends (e : TokenEmitter) (token : GeneratedToken) :
    e.Sends token.text (e.callback token) := by
  have hsent : sentText (e.calls ++ [token]) = sentText e.calls ++ token.text := by
    simp [sentText]
  unfold callback
  dsimp only
  split
  · exact ⟨⟨_, _, rfl⟩, (Bool.and_true _).symm, _, hsent, List.prefix_refl _, fun _ => rfl⟩
  · exact ⟨⟨_, _, rfl⟩, (Bool.and_false _).symm, _, hsent, List.prefix_refl _, fun _ => rfl⟩

theorem sendEach_sends (id : TokenId) (finished : Bool) (segments : List ClassifiedText) :
    ∀ e : TokenEmitter, e.Sends (segments.map ClassifiedText.text).flatten
      (e.sendEach id finished segments) := by
  induction segments with
  | nil =>
    exact fun e => ⟨⟨_, _, rfl⟩, (Bool.and_true _).symm, [], (List.append_nil _).symm, List.nil_prefix,
      fun _ => rfl⟩
  | cons segment rest ih =>
    intro e
    unfold sendEach
    have hcall := callback_sends e
      ⟨id, segment.text, finished && rest.isEmpty, e.emitted.length, segment.kind⟩
    split
    · rename_i e' he
      rw [he] at hcall
      obtain ⟨⟨calls, callbackOpen, hkept⟩, hstays, s, hs, -, hall⟩ := hcall
      obtain ⟨⟨calls', callbackOpen', hkept'⟩, hstays', s', hs', hpre, hall'⟩ := ih e'
      cases hall rfl
      dsimp only at hkept hstays hs
      refine ⟨⟨calls', callbackOpen', hkept'.trans (by rw [hkept])⟩, ?_, segment.text ++ s', ?_, ?_,
        fun h => ?_⟩
      · rw [hstays', hstays, Bool.and_true]
      · rw [hs', hs, List.append_assoc]
      · rw [List.map_cons, List.flatten_cons]
        exact (List.prefix_append_right_inj _).2 hpre
      · rw [List.map_cons, List.flatten_cons, hall' h]
    · rename_i e' he
      rw [he] at hcall
      obtain ⟨hkept, hstays, s, hs, hpre, -⟩ := hcall
      refine ⟨hkept, hstays, s, hs, ?_, nofun⟩
      rw [List.map_cons, List.flatten_cons]
      exact hpre.trans (List.prefix_append _ _)

theorem sendSegments_sends (e : TokenEmitter) (id : TokenId) (finished : Bool)
    (segments : List ClassifiedText) :
    e.Sends (segments.map ClassifiedText.text).flatten (e.sendSegments id finished segments) := by
  unfold sendSegments
  split
  · rename_i h
    cases h
    exact callback_sends e ⟨id, [], finished, e.emitted.length, e.classifier.currentKind⟩
  · exact sendEach_sends id finished segments e

/-! ## The filter -/

/-- The filter is done, or holds back undecided text whose raw and display forms are the same. -/
def Filtering (e : TokenEmitter) : Prop :=
  e.orphanClose = none ∨ ∃ close buffer, e.orphanClose = some (close, buffer, buffer) ∧
    close ≠ [] ∧ Undecided close buffer

/-- The filter shows a part of what is owed and owes the rest. -/
theorem filter_owed {e : TokenEmitter} (he : e.Filtering) (piece : Str) :
    ∃ orphanClose shown, e.filterPostBudgetCloses piece piece =
        ({ e with orphanClose := orphanClose }, shown) ∧
      ({ e with orphanClose := orphanClose } : TokenEmitter).Filtering ∧
      (piece = [] → shown = []) ∧
      ∀ rest, owed e.orphanClose (piece ++ rest) = shown ++ owed orphanClose rest := by
  rcases he with hnone | ⟨close, buffer, hsome, hne, hheld⟩
  · refine ⟨none, piece, ?_, .inl rfl, id, fun rest => by rw [hnone]; rfl⟩
    unfold filterPostBudgetCloses
    rw [hnone]
    exact congrArg (·, piece) (by rw [← hnone])
  · have howed : ∀ rest, owed (some (close, buffer, buffer)) (piece ++ rest) =
        answerAfterClose (buffer ++ piece ++ rest) close := by
      intro rest
      rw [List.append_assoc]
      rfl
    unfold filterPostBudgetCloses
    rw [hsome]
    dsimp only
    by_cases hmatch : utf8Len (buffer ++ piece) - utf8Len (trimStart (buffer ++ piece)) ≤
        MAX_FORCED_CLOSE_WHITESPACE_BYTES ∧ close <+: trimStart (buffer ++ piece)
    · rw [if_pos hmatch]
      refine ⟨none, _, rfl, .inl rfl, ?_, fun rest => ?_⟩
      · rintro rfl
        rw [List.append_nil] at hmatch
        exact absurd hmatch.2 hheld.unmatched
      · rw [howed, answerAfterClose_matched hne hmatch.1 hmatch.2]
        unfold displayAfterForcedClose
        rw [if_pos rfl]
        rfl
    · rw [if_neg hmatch]
      by_cases hundecided : Undecided close (buffer ++ piece)
      · rw [if_pos ⟨hundecided.candidate, hundecided.leading, hundecided.length_le⟩]
        refine ⟨_, _, rfl, .inr ⟨close, buffer ++ piece, rfl, hne, hundecided⟩, fun _ => rfl,
          fun rest => ?_⟩
        rw [howed]
        rfl
      · rw [if_neg]
        · refine ⟨none, _, rfl, .inl rfl, ?_, fun rest => ?_⟩
          · rintro rfl
            rw [List.append_nil] at hundecided
            exact absurd hheld hundecided
          · rw [howed, answerAfterClose_diverged hmatch hundecided]
            rfl
        · rintro ⟨hcandidate, hleading, -⟩
          exact hundecided ⟨hleading, hcandidate, fun h => hmatch ⟨hleading, h⟩⟩

/-- At the end of the reply what is held back is owed as it is. -/
theorem owed_nil {e : TokenEmitter} (he : e.Filtering) :
    owed e.orphanClose [] = e.orphanClose.elim [] fun held => held.2.1 := by
  rcases he with hnone | ⟨close, buffer, hsome, -, hheld⟩
  · rw [hnone]
    rfl
  · rw [hsome]
    show answerAfterClose (buffer ++ []) close = buffer
    rw [List.append_nil]
    unfold answerAfterClose stripImmediateForcedClose
    dsimp only
    rw [if_pos hheld.leading, stripPrefix_eq_none.2 hheld.unmatched, Option.getD_none]

/-! ## Pieces and the terminal flush -/

/-- The emitter between two pieces of an answer. -/
structure Passing (e : TokenEmitter) : Prop where
  filtering : e.Filtering
  afterClose : e.classifier.AfterClose

/-- From `e`, the text `text` of the reply is dealt with: what has been sent is the beginning of
what was owed, and while the callback accepts, the remainder stays owed. -/
structure Advances (e : TokenEmitter) (text : Str) (r : TokenEmitter × Bool) : Prop where
  passing : r.1.Passing
  decoder : r.1.displayDecoder = e.displayDecoder
  stays : r.1.callbackOpen = (e.callbackOpen && r.2)
  sent : ∀ rest, ∃ s, sentText r.1.calls = sentText e.calls ++ s ∧
    s <+: owed e.orphanClose (text ++ rest) ∧
    (r.2 = true → owed e.orphanClose (text ++ rest) = s ++ owed r.1.orphanClose rest)

theorem emitDecoded_advances {e : TokenEmitter} (he : e.Passing) (id : TokenId) (finished : Bool)
    (piece : Str) : e.Advances piece (e.emitDecoded id finished ⟨piece, piece⟩ true) := by
  obtain ⟨orphanClose, shown, hfilter, hfiltering, hempty, howed⟩ := filter_owed he.filtering piece
  obtain ⟨hclassifier, htext⟩ := StreamClassifier.afterClose_pushed he.afterClose hempty
  unfold emitDecoded
  rw [if_pos rfl, hfilter]
  dsimp only
  generalize hpushed : e.classifier.pushed piece shown = pushed at hclassifier htext ⊢
  have hsends := sendSegments_sends
    ({ e with orphanClose := orphanClose, classifier := pushed.1 } : TokenEmitter) id finished
    pushed.2
  rw [htext] at hsends
  obtain ⟨⟨calls, callbackOpen, hkept⟩, hstays, s, hs, hpre, hall⟩ := hsends
  refine ⟨?_, ?_, hstays, fun rest => ⟨s, hs, ?_, fun h => ?_⟩⟩
  · rw [hkept]
    exact ⟨hfiltering, hclassifier ▸ he.afterClose⟩
  · rw [hkept]
  · rw [howed]
    exact hpre.trans (List.prefix_append _ _)
  · rw [howed, hall h, hkept]

/-- Pass decoded pieces, whose raw and display texts are the same, until the callback
declines. -/
def passPieces (e : TokenEmitter) : List (TokenId × Str) → TokenEmitter × Bool
  | [] => (e, true)
  | (id, piece) :: pieces =>
    match e.emitDecoded id false ⟨piece, piece⟩ true with
    | (e', true) => e'.passPieces pieces
    | (e', false) => (e', false)

theorem passPieces_advances : ∀ (pieces : List (TokenId × Str)) {e : TokenEmitter}, e.Passing →
    e.Advances (pieces.map Prod.snd).flatten (e.passPieces pieces)
  | [], e, he => ⟨he, rfl, (Bool.and_true _).symm,
      fun rest => ⟨[], (List.append_nil _).symm, List.nil_prefix, fun _ => rfl⟩⟩
  | (id, piece) :: pieces, e, he => by
    have hpiece := emitDecoded_advances he id false piece
    unfold passPieces
    rw [List.map_cons, List.flatten_cons]
    split
    · rename_i e' hemit
      rw [hemit] at hpiece
      have hrest := passPieces_advances pieces hpiece.passing
      refine ⟨hrest.passing, hrest.decoder.trans hpiece.decoder, ?_, fun rest => ?_⟩
      · rw [hrest.stays, hpiece.stays, Bool.and_true]
      · obtain ⟨s, hs, -, hall⟩ := hpiece.sent ((pieces.map Prod.snd).flatten ++ rest)
        obtain ⟨t, ht, hpre, hall'⟩ := hrest.sent rest
        rw [List.append_assoc]
        refine ⟨s ++ t, ?_, ?_, fun h => ?_⟩
        · rw [ht, hs, List.append_assoc]
        · rw [hall rfl]
          exact (List.prefix_append_right_inj _).2 hpre
        · rw [hall rfl, hall' h, List.append_assoc]
    · rename_i e' hemit
      rw [hemit] at hpiece
      refine ⟨hpiece.passing, hpiece.decoder, hpiece.stays, fun rest => ?_⟩
      obtain ⟨s, hs, hpre, -⟩ := hpiece.sent ((pieces.map Prod.snd).flatten ++ rest)
      rw [List.append_assoc]
      exact ⟨s, hs, hpre, nofun⟩

/-- The text that the display decoder still holds. -/
def lastPiece (d : StreamDecoder) : Str := if d.pendingIds = [] then [] else d.pendingRaw

/-- The first step of the flush: what the decoder holds. -/
def finishDecoder (e : TokenEmitter) (id : TokenId) : TokenEmitter × Bool :=
  match e.displayDecoder.finish with
  | (d, some piece) => ({ e with displayDecoder := d } : TokenEmitter).emitDecoded id false piece true
  | (d, none) => ({ e with displayDecoder := d }, true)

/-- The second step: what the filter holds. -/
def releaseHeld (e : TokenEmitter) (id : TokenId) : TokenEmitter × Bool :=
  match e.orphanClose with
  | some (_, raw, display) =>
    ({ e with
      orphanClose := none
      classifier := (e.classifier.pushed raw display).1 } : TokenEmitter).sendSegments id false
        (e.classifier.pushed raw display).2
  | none => (e, true)

/-- The last step: what the classifier holds. -/
def finishClassifier (e : TokenEmitter) (id : TokenId) : TokenEmitter × Bool :=
  ({ e with classifier := e.classifier.finish.1 } : TokenEmitter).sendSegments id false
    e.classifier.finish.2

theorem flushTerminal_eq {e : TokenEmitter} (hopen : e.callbackOpen = true) {id : TokenId}
    (hid : id = e.emitted.getLast?.getD 0) : e.flushTerminal =
      if (e.finishDecoder id).2 = false then (e.finishDecoder id).1
      else if ((e.finishDecoder id).1.releaseHeld id).2 = false then
        ((e.finishDecoder id).1.releaseHeld id).1
      else (((e.finishDecoder id).1.releaseHeld id).1.finishClassifier id).1 := by
  subst hid
  unfold flushTerminal finishDecoder
  rw [if_neg (by rw [hopen]; nofun)]
  unfold releaseHeld finishClassifier
  rcases e.displayDecoder.finish with ⟨d, _ | piece⟩
  · cases e.orphanClose <;> rfl
  · cases horphan : (TokenEmitter.emitDecoded { e with displayDecoder := d } _ false piece
      true).1.orphanClose <;> simp only [horphan]

/-- The last piece of the decoder passes like any other. -/
theorem finishDecoder_advances {e : TokenEmitter} (he : e.Passing)
    (hd : e.displayDecoder.pendingRaw = e.displayDecoder.pendingDisplay) (id : TokenId) :
    ({ e with displayDecoder := e.displayDecoder.finish.1 } : TokenEmitter).Advances
      (lastPiece e.displayDecoder) (e.finishDecoder id) := by
  have he' : ({ e with displayDecoder := e.displayDecoder.finish.1 } : TokenEmitter).Passing :=
    ⟨he.filtering, he.afterClose⟩
  unfold finishDecoder StreamDecoder.finish StreamDecoder.take lastPiece at *
  by_cases hnil : e.displayDecoder.pendingIds = []
  · simp only [if_pos hnil] at he' ⊢
    exact passPieces_advances [] he'
  · simp only [if_neg hnil] at he' ⊢
    rw [← hd]
    exact emitDecoded_advances he' id false e.displayDecoder.pendingRaw

/-- What the filter holds back at the end is sent as it is. -/
theorem releaseHeld_sends {e : TokenEmitter} (he : e.Passing) (id : TokenId) :
    ({ e with orphanClose := none } : TokenEmitter).Sends (owed e.orphanClose [])
      (e.releaseHeld id) := by
  rw [owed_nil he.filtering]
  unfold releaseHeld
  rcases he.filtering with hnone | ⟨close, buffer, hsome, -, -⟩
  · rw [hnone]
    refine ⟨⟨e.calls, e.callbackOpen, ?_⟩, (Bool.and_true _).symm, [],
      (List.append_nil _).symm, List.nil_prefix, fun _ => rfl⟩
    show e = { e with orphanClose := none }
    rw [← hnone]
  · rw [hsome]
    obtain ⟨hclassifier, htext⟩ :=
      StreamClassifier.afterClose_pushed he.afterClose fun h : buffer = [] => h
    have hsends := sendSegments_sends ({ e with orphanClose := none } : TokenEmitter) id false
      (e.classifier.pushed buffer buffer).2
    rw [htext] at hsends
    dsimp only
    rw [hclassifier]
    exact hsends

theorem finishClassifier_sends {e : TokenEmitter} (hc : e.classifier.AfterClose) (id : TokenId) :
    ({ e with classifier := e.classifier.finish.1 } : TokenEmitter).Sends []
      (e.finishClassifier id) := by
  have hfinish : e.classifier.finish.2 = [] := by
    rcases hc with hdefer | hc
    · unfold StreamClassifier.finish
      rw [if_pos hdefer]
    · rw [hc]
      rfl
  unfold finishClassifier
  rw [hfinish]
  exact sendSegments_sends _ id false []

/-- The terminal flush sends what is owed once the decoder's last piece is read. -/
theorem flushTerminal_owed {e : TokenEmitter} (he : e.Passing) (hopen : e.callbackOpen = true)
    (hd : e.displayDecoder.pendingRaw = e.displayDecoder.pendingDisplay) :
    ∃ s, sentText e.flushTerminal.calls = sentText e.calls ++ s ∧
      s <+: owed e.orphanClose (lastPiece e.displayDecoder) ∧
      (e.flushTerminal.callbackOpen = true →
        s = owed e.orphanClose (lastPiece e.displayDecoder)) := by
  rw [flushTerminal_eq hopen rfl]
  generalize e.emitted.getLast?.getD 0 = id
  have hlast := finishDecoder_advances he hd id
  obtain ⟨s, hs, hpre, hall⟩ := hlast.sent []
  rw [List.append_nil] at hpre hall
  cases hkeep : (e.finishDecoder id).2 with
  | false =>
    have hstays := hlast.stays
    rw [hkeep, Bool.and_false] at hstays
    rw [if_pos rfl, hstays]
    exact ⟨s, hs, hpre, nofun⟩
  | true =>
    have hrelease := releaseHeld_sends hlast.passing id
    obtain ⟨t, ht, hpre', hall'⟩ := hrelease.sent
    rw [if_neg nofun]
    cases hkeep' : ((e.finishDecoder id).1.releaseHeld id).2 with
    | false =>
      have hstays := hrelease.stays
      rw [hkeep', Bool.and_false] at hstays
      rw [if_pos rfl, hstays, ht, hs, hall hkeep, List.append_assoc]
      exact ⟨s ++ t, rfl, (List.prefix_append_right_inj _).2 hpre', nofun⟩
    | true =>
      rw [if_neg nofun]
      have hc : ((e.finishDecoder id).1.releaseHeld id).1.classifier.AfterClose := by
        obtain ⟨calls, callbackOpen, hkept⟩ := hrelease.kept
        rw [hkept]
        exact hlast.passing.afterClose
      obtain ⟨u, hu, hpre'', -⟩ := (finishClassifier_sends hc id).sent
      cases List.prefix_nil.1 hpre''
      rw [hu, List.append_nil, ht, hs, hall hkeep, hall' hkeep', List.append_assoc]
      exact ⟨_, rfl, List.prefix_refl _, fun _ => rfl⟩

/-! ## The terminal split -/

/-- A close marker of a pair has no proper end that starts it. -/
theorem MARKER_PAIRS_unbordered {opener close : Str} (h : (opener, close) ∈ MARKER_PAIRS) {k : Nat}
    (hpos : 0 < k) (hlt : k < close.length) : ¬ close.drop k <+: close := by
  have hall : ∀ pair ∈ MARKER_PAIRS, ∀ k < pair.2.length, 0 < k → ¬ pair.2.drop k <+: pair.2 := by
    decide +kernel
  exact hall _ h k hlt hpos

/-- After reasoning without a close the first close is the one that ends it. -/
theorem find_close {opener close reasoning : Str} (hpair : (opener, close) ∈ MARKER_PAIRS)
    (hreasoning : ¬ close <:+: reasoning) (rest : Str) :
    find close (reasoning ++ close ++ rest) = some reasoning.length := by
  rw [find_eq_some]
  refine ⟨?_, ?_, fun j hj hpre => ?_⟩
  · simp only [List.length_append]
    omega
  · rw [List.append_assoc, List.drop_left]
    exact List.prefix_append _ _
  · rw [List.append_assoc, List.drop_append_of_le_length hj.le] at hpre
    have hlen : (reasoning.drop j).length = reasoning.length - j := List.length_drop
    rcases Nat.le_total close.length (reasoning.drop j).length with hle | hle
    · exact hreasoning ((List.prefix_of_prefix_length_le hpre (List.prefix_append _ _) hle).isInfix.trans
        (List.drop_suffix j reasoning).isInfix)
    · obtain ⟨tail, htail⟩ := List.prefix_of_prefix_length_le (List.prefix_append _ _) hpre hle
      by_cases heq : tail = []
      · rw [heq, List.append_nil] at htail
        exact hreasoning (htail ▸ (List.drop_suffix j reasoning).isInfix)
      · have hdrop : close.drop (reasoning.length - j) = tail := by
          conv_lhs => rw [← htail]
          rw [← hlen, List.drop_left]
        have hcut := congrArg List.length htail
        have := List.length_pos_iff.2 heq
        rw [List.length_append, hlen] at hcut
        refine MARKER_PAIRS_unbordered hpair (k := reasoning.length - j) (by omega) (by omega) ?_
        rw [hdrop]
        have hrest : tail <+: close ++ rest := by
          refine (List.prefix_append_right_inj (reasoning.drop j)).1 ?_
          rw [htail]
          exact hpre
        exact List.prefix_of_prefix_length_le hrest (List.prefix_append _ _) (by omega)

/-- The terminal answer after a forced close. -/
theorem splitReasoning_forced {opener close reasoning : Str}
    (hpair : (opener, close) ∈ MARKER_PAIRS) (hreasoning : ¬ close <:+: reasoning) (rest : Str) :
    (splitReasoningAfterForcedClose (opener ++ reasoning ++ close ++ rest)).2 =
      answerAfterClose rest close := by
  have hopens : opensReasoning (opener ++ reasoning ++ close ++ rest) =
      some (opener, close, reasoning ++ close ++ rest) :=
    opensReasoning_iff.2 ⟨hpair, [], by simp only [List.nil_append, List.append_assoc], nofun,
      Nat.zero_le _⟩
  unfold opensReasoning at hopens
  obtain ⟨candidate, hcandidate, hopened⟩ := Option.bind_eq_some_iff.1 hopens
  unfold splitReasoningAfterForcedClose splitReasoningInner answerAfterClose
  rw [hcandidate]
  dsimp only
  rw [hopened]
  dsimp only
  rw [find_close hpair hreasoning]
  dsimp only
  rw [if_pos rfl, ← List.length_append, List.drop_left]

/-- What the answer leaves out: at most one close, after bounded white space. -/
theorem answerAfterClose_lossless (rest close : Str) :
    ∃ removed, rest = removed ++ answerAfterClose rest close ∧
      (removed = [] ∨ ∃ w, removed = w ++ close ∧ (∀ c ∈ w, isWhitespace c) ∧
        utf8Len w ≤ MAX_FORCED_CLOSE_WHITESPACE_BYTES) := by
  unfold answerAfterClose
  cases hstrip : stripImmediateForcedClose rest close with
  | none => exact ⟨[], rfl, .inl rfl⟩
  | some answer =>
    unfold stripImmediateForcedClose at hstrip
    dsimp only at hstrip
    split at hstrip
    · rename_i hleading
      have hsplit := takeWhile_append_trimStart rest
      have hlen := congrArg utf8Len hsplit
      rw [utf8Len_append] at hlen
      refine ⟨rest.takeWhile isWhitespace ++ close, ?_, .inr ⟨_, rfl,
        fun c hc => List.mem_takeWhile_imp hc, by omega⟩⟩
      rw [Option.getD_some, List.append_assoc, ← stripPrefix_eq_some.1 hstrip, hsplit]
    · cases hstrip

/-- After a teacher-forced close, arming the filter, passing the pieces of the answer and
flushing sends the answer that the terminal split computes for the whole reply: all of it while
the callback accepts, the beginning of it when the callback declines. -/
theorem forced_close_streams_answer {opener close reasoning : Str}
    (hpair : (opener, close) ∈ MARKER_PAIRS) (hreasoning : ¬ close <:+: reasoning)
    {e : TokenEmitter} (hafter : e.classifier.AfterClose) (hopen : e.callbackOpen = true)
    (hd : e.displayDecoder.pendingRaw = e.displayDecoder.pendingDisplay)
    (pieces : List (TokenId × Str)) :
    let e' := ((e.armCloseFilters close).passPieces pieces).1.flushTerminal
    let rest := (pieces.map Prod.snd).flatten ++ lastPiece e.displayDecoder
    let answer :=
      (splitReasoningAfterForcedClose (opener ++ reasoning ++ close ++ rest)).2
    (∃ sent, sentText e'.calls = sentText e.calls ++ sent ∧ sent <+: answer ∧
      (e'.callbackOpen = true → sent = answer)) ∧
    ∃ removed, rest = removed ++ answer ∧
      (removed = [] ∨ ∃ w, removed = w ++ close ∧ (∀ c ∈ w, isWhitespace c) ∧
        utf8Len w ≤ MAX_FORCED_CLOSE_WHITESPACE_BYTES) := by
  intro e' rest answer
  have hanswer : answer = answerAfterClose rest close :=
    splitReasoning_forced hpair hreasoning rest
  have hne := (MARKER_PAIRS_nonempty hpair).2
  have harmed : (e.armCloseFilters close).Passing :=
    ⟨.inr ⟨close, [], rfl, hne, ⟨Nat.zero_le _, .inl rfl, fun h => hne (List.prefix_nil.1 h)⟩⟩,
      hafter⟩
  refine ⟨?_, hanswer ▸ answerAfterClose_lossless rest close⟩
  have hpassed := passPieces_advances pieces harmed
  obtain ⟨s, hs, hpre, hall⟩ := hpassed.sent (lastPiece e.displayDecoder)
  rw [hanswer]
  show ∃ sent, sentText ((e.armCloseFilters close).passPieces pieces).1.flushTerminal.calls = _ ∧
    _ ∧ (((e.armCloseFilters close).passPieces pieces).1.flushTerminal.callbackOpen = true → _)
  cases hkeep : ((e.armCloseFilters close).passPieces pieces).2 with
  | false =>
    have hstays := hpassed.stays
    rw [hkeep, Bool.and_false] at hstays
    have hflush : ((e.armCloseFilters close).passPieces pieces).1.flushTerminal =
        ((e.armCloseFilters close).passPieces pieces).1 := by
      unfold flushTerminal
      rw [if_pos hstays]
    rw [hflush, hstays]
    exact ⟨s, hs, hpre, nofun⟩
  | true =>
    have hstays := hpassed.stays
    rw [hkeep, Bool.and_true] at hstays
    have hdecoder := hpassed.decoder
    obtain ⟨t, ht, hpre', hall'⟩ := flushTerminal_owed hpassed.passing (hstays.trans hopen)
      (by rw [hdecoder]; exact hd)
    rw [hdecoder] at hpre' hall'
    have howed : answerAfterClose rest close =
        s ++ owed ((e.armCloseFilters close).passPieces pieces).1.orphanClose
          (lastPiece e.displayDecoder) := hall hkeep
    refine ⟨s ++ t, ?_, ?_, fun h => ?_⟩
    · rw [ht, hs, List.append_assoc]
      rfl
    · rw [howed]
      exact (List.prefix_append_right_inj _).2 hpre'
    · exact (congrArg (s ++ ·) (hall' h)).trans howed.symm

/-- A second close after a space is dropped, the rest of the answer is sent. -/
theorem forced_close_streams_answer_duplicate :
    sentText (((({ TokenEmitter.new ⟨fun _ => .ok [], fun _ => .ok [], fun _ => .ok []⟩ []
      (StreamClassifier.inText false []) fun _ => true with emitted := [7] } :
        TokenEmitter).armCloseFilters "</think>".toList).passPieces
          [(1, " </th".toList), (2, "ink>o".toList), (3, "k</think>".toList)]).1.flushTerminal).calls =
      "ok</think>".toList := by
  have hpair : ("<think>".toList, "</think>".toList) ∈ MARKER_PAIRS := by decide
  have hreasoning : ¬ "</think>".toList <:+: "x".toList := by decide +kernel
  obtain ⟨⟨sent, hsent, -, hall⟩, -⟩ := forced_close_streams_answer hpair hreasoning
    (e := { TokenEmitter.new ⟨fun _ => .ok [], fun _ => .ok [], fun _ => .ok []⟩ []
      (StreamClassifier.inText false []) fun _ => true with emitted := [7] }) (.inr rfl) rfl rfl
    [(1, " </th".toList), (2, "ink>o".toList), (3, "k</think>".toList)]
  rw [hsent, hall (by decide +kernel)]
  decide +kernel

end TokenEmitter

end Emelex
