import Emelex.Engine.StreamingAgreement

/-!
# Streaming does not depend on the pieces (`engine/streaming.rs`)

The classifier of every format that does not defer, fed with a reply cut into pieces whose raw
and display texts are the same.

* `StreamEvent`, `loopEvents` — what the iterations of the loop of `push` do to the text: a
  segment emitted, a marker removed; `pushLoop_eq_events` (the output is made of the events).
* `StreamItem`, `trace` — the events character by character, so that neither the cuts nor the
  merging of segments show.
* `Parses` — the items of a whole text, marker by marker; `Parses.unique`.

Principal results: `runEvents_parses` (any cut gives the items of the whole text),
`rechunking_invariant`.
-/

set_option autoImplicit false

namespace Emelex

open Text

/-! ## Events and items -/

/-- What one iteration does to the text: emit a segment, or remove a marker (with the white
space before it, when it opens a reasoning span). -/
inductive StreamEvent where
  | segment (kind : TokenKind) (text : Str)
  | removed (text : Str) (boundary : Boundary)
  deriving DecidableEq, Repr

namespace StreamEvent

/-- The text of an event. -/
def text : StreamEvent → Str
  | segment _ text => text
  | removed text _ => text

/-- The effect on the output; a tool call leaves its structural signal. -/
def apply (output : List ClassifiedText) : StreamEvent → List ClassifiedText
  | segment kind text => pushNonempty output kind text
  | removed _ .toolOpen => output ++ [⟨.toolCall, []⟩]
  | removed _ _ => output

/-- The structural signal of a tool call. -/
def isSignal : StreamEvent → Bool
  | removed _ .toolOpen => true
  | _ => false

end StreamEvent

/-- A character of a segment, or a removed marker. -/
inductive StreamItem where
  | char (kind : TokenKind) (c : Char)
  | removed (text : Str) (boundary : Boundary)
  deriving DecidableEq, Repr

/-- The items of a segment. -/
def chars (kind : TokenKind) (text : Str) : List StreamItem := text.map (.char kind)

@[simp] theorem chars_nil (kind : TokenKind) : chars kind [] = [] := rfl

@[simp] theorem chars_append (kind : TokenKind) (s t : Str) :
    chars kind (s ++ t) = chars kind s ++ chars kind t := List.map_append

/-- The items of an event. -/
def StreamEvent.items : StreamEvent → List StreamItem
  | segment kind text => chars kind text
  | removed text boundary => [.removed text boundary]

/-- The items of a run. -/
def trace (events : List StreamEvent) : List StreamItem := events.flatMap StreamEvent.items

@[simp] theorem trace_nil : trace [] = [] := rfl

@[simp] theorem trace_append (a b : List StreamEvent) : trace (a ++ b) = trace a ++ trace b :=
  List.flatMap_append

@[simp] theorem trace_cons (event : StreamEvent) (events : List StreamEvent) :
    trace (event :: events) = event.items ++ trace events := rfl

/-- The text of an item. -/
def StreamItem.text : StreamItem → Str
  | char _ c => [c]
  | removed text _ => text

/-- The text of a list of items. -/
def itemsText (items : List StreamItem) : Str := items.flatMap StreamItem.text

@[simp] theorem itemsText_append (a b : List StreamItem) :
    itemsText (a ++ b) = itemsText a ++ itemsText b := List.flatMap_append

@[simp] theorem itemsText_chars (kind : TokenKind) (text : Str) :
    itemsText (chars kind text) = text := by
  induction text with
  | nil => rfl
  | cons c text ih => exact congrArg (c :: ·) ih

@[simp] theorem itemsText_removed (text : Str) (boundary : Boundary) :
    itemsText [.removed text boundary] = text := by simp [itemsText, StreamItem.text]

theorem itemsText_trace (events : List StreamEvent) :
    itemsText (trace events) = (events.map StreamEvent.text).flatten := by
  induction events with
  | nil => rfl
  | cons event events ih =>
    rw [trace_cons, itemsText_append, ih, List.map_cons, List.flatten_cons]
    congr 1
    cases event <;> simp [StreamEvent.items, StreamEvent.text]

/-- The characters of the segments. -/
def segmentChars (output : List ClassifiedText) : List (TokenKind × Char) :=
  output.flatMap fun segment => segment.text.map (Prod.mk segment.kind)

/-- The characters of a list of items. -/
def itemChars (items : List StreamItem) : List (TokenKind × Char) :=
  items.filterMap fun
    | .char kind c => some (kind, c)
    | .removed _ _ => none

/-- Merge adjacent segments of one kind and drop the empty ones. -/
def merged (output : List ClassifiedText) : List ClassifiedText :=
  output.foldl (fun merged segment => pushNonempty merged segment.kind segment.text) []

theorem segmentChars_append (a b : List ClassifiedText) :
    segmentChars (a ++ b) = segmentChars a ++ segmentChars b := List.flatMap_append

@[simp] theorem segmentChars_pushNonempty (output : List ClassifiedText) (kind : TokenKind)
    (text : Str) : segmentChars (pushNonempty output kind text) =
      segmentChars output ++ text.map (Prod.mk kind) := by
  unfold pushNonempty
  split
  · rename_i h
    simp [h]
  · cases hlast : output.getLast? with
    | none => simp [segmentChars]
    | some last =>
      dsimp only
      split
      · rename_i hkind
        have hout : output = output.dropLast ++ [last] :=
          (List.dropLast_append_getLast? last hlast).symm
        conv_rhs => rw [hout]
        simp [segmentChars, hkind]
      · simp [segmentChars]

/-- A segment may be pushed character by character. -/
theorem pushNonempty_cons (output : List ClassifiedText) (kind : TokenKind) (c : Char) (t : Str) :
    pushNonempty output kind (c :: t) = pushNonempty (pushNonempty output kind [c]) kind t := by
  cases t with
  | nil => simp [pushNonempty]
  | cons d t =>
    unfold pushNonempty
    cases hlast : output.getLast? with
    | none => simp
    | some last =>
      by_cases hkind : last.kind = kind <;> simp [hkind]

theorem foldl_pushNonempty_chars (kind : TokenKind) (text : Str) :
    ∀ output : List ClassifiedText, pushNonempty output kind text =
      (text.map (Prod.mk kind)).foldl (fun out p => pushNonempty out p.1 [p.2]) output := by
  induction text with
  | nil => exact fun _ => rfl
  | cons c t ih =>
    intro output
    rw [pushNonempty_cons, ih]
    rfl

/-- The merged segments depend on the characters alone. -/
theorem merged_eq (output : List ClassifiedText) :
    merged output = (segmentChars output).foldl (fun out p => pushNonempty out p.1 [p.2]) [] := by
  unfold merged
  generalize ([] : List ClassifiedText) = start
  induction output generalizing start with
  | nil => rfl
  | cons segment output ih =>
    rw [List.foldl_cons, ih, foldl_pushNonempty_chars]
    exact List.foldl_append.symm

theorem merged_congr {a b : List ClassifiedText} (h : segmentChars a = segmentChars b) :
    merged a = merged b := by
  rw [merged_eq, merged_eq, h]

theorem segmentChars_apply (output : List ClassifiedText) (event : StreamEvent) :
    segmentChars (event.apply output) = segmentChars output ++ itemChars event.items := by
  cases event with
  | segment kind text =>
    have : itemChars (chars kind text) = text.map (Prod.mk kind) := by
      unfold itemChars chars
      rw [List.filterMap_map]
      exact List.filterMap_eq_map' (f := Prod.mk kind) ▸ rfl
    simp [StreamEvent.apply, StreamEvent.items, this]
  | removed text boundary => cases boundary <;> simp [StreamEvent.apply, StreamEvent.items,
      itemChars, segmentChars]

theorem segmentChars_foldl_apply (events : List StreamEvent) (output : List ClassifiedText) :
    segmentChars (events.foldl StreamEvent.apply output) =
      segmentChars output ++ itemChars (trace events) := by
  induction events generalizing output with
  | nil => simp [itemChars]
  | cons event events ih =>
    rw [List.foldl_cons, ih, segmentChars_apply, List.append_assoc, trace_cons]
    simp [itemChars]

namespace StreamClassifier

/-! ## The events of a run -/

/-- The events of a boundary: the text before it, unless it opens a reasoning span, and the
marker. -/
def boundaryEvents (state : TokenKind) (raw before : Str) (pos : Nat) (marker : Str) :
    Boundary → List StreamEvent
  | .reasoningOpen close => [.removed (raw.take (pos + marker.length)) (.reasoningOpen close)]
  | boundary => [.segment state before, .removed marker boundary]

/-- The `loop` of `push`, with its events. -/
def loopEvents : Nat → StreamClassifier → Option (StreamClassifier × List StreamEvent)
  | 0, _ => none
  | fuel + 1, c =>
    match c.findBoundary with
    | some (pos, marker, boundary) =>
      let split := splitDisplayAtMarker c.rawPending c.displayPending pos marker
      let c' := applyBoundary
        { c with
          rawPending := c.rawPending.drop (pos + marker.length)
          displayPending := split.2 } boundary
      (loopEvents fuel c').map fun r =>
        (r.1, boundaryEvents c.state c.rawPending split.1 pos marker boundary ++ r.2)
    | none =>
      let retained := c.partialMarkerSuffixLen
      let safe := c.rawPending.length - retained
      if safe = 0 then some (c, [])
      else
        let split := splitDisplayForSafePrefix c.rawPending c.displayPending safe
        let safeRaw := c.rawPending.take safe
        let c' :=
          { c with
            rawPending := c.rawPending.drop safe
            displayPending := split.2
            reasoningPrefixPossible :=
              if c.state = .text ∧ trim safeRaw ≠ [] then false else c.reasoningPrefixPossible }
        if retained = 0 then some (c', [.segment c.state split.1])
        else (loopEvents fuel c').map fun r => (r.1, .segment c.state split.1 :: r.2)

/-- The output of the loop is made of its events. -/
theorem pushLoop_eq_events (fuel : Nat) (c : StreamClassifier) (output : List ClassifiedText) :
    pushLoop fuel c output =
      (loopEvents fuel c).map fun r => (r.1, r.2.foldl StreamEvent.apply output) := by
  induction fuel generalizing c output with
  | zero => rfl
  | succ fuel ih =>
    unfold pushLoop loopEvents
    cases c.findBoundary with
    | some found =>
      obtain ⟨pos, marker, boundary⟩ := found
      cases boundary <;>
        simp only [ih, Option.map_map, boundaryEvents, StreamEvent.apply, Function.comp_def,
          List.foldl_append, List.foldl_cons, List.foldl_nil]
    | none =>
      dsimp only
      split
      · rfl
      split
      · rfl
      · simp only [ih, Option.map_map, Function.comp_def, List.foldl_cons, StreamEvent.apply]

/-- The events of `push`. -/
def pushEvents (c : StreamClassifier) (raw display : Str) :
    Option (StreamClassifier × List StreamEvent) :=
  let c' := { c with
    rawPending := c.rawPending ++ raw
    displayPending := c.displayPending ++ display }
  loopEvents (c'.rawPending.length + 2) c'

theorem push_eq_events {c : StreamClassifier} (hd : c.deferUntilTerminal = false)
    (raw display : Str) : c.push raw display =
      (c.pushEvents raw display).map fun r => (r.1, r.2.foldl StreamEvent.apply []) := by
  unfold push pushEvents
  rw [hd, if_neg nofun]
  exact pushLoop_eq_events _ _ _

/-- The events of the pieces and of the terminal flush. -/
def runEvents (c : StreamClassifier) : List (Str × Str) → Option (List StreamEvent)
  | [] => some [.segment c.state c.displayPending]
  | (raw, display) :: pieces =>
    match c.pushEvents raw display with
    | none => none
    | some (c', events) => (runEvents c' pieces).map (events ++ ·)

/-! ## The classifier with raw and display text in step -/

/-- The classifier with `b` pending. -/
def withPending (c : StreamClassifier) (b : Str) : StreamClassifier :=
  { c with rawPending := b, displayPending := b }

/-- What the classifiers of a run have in common: their markers are those of a format, and the
format does not defer. -/
structure Scans (c : StreamClassifier) : Prop where
  markers : ∃ format, (c.toolOpen, c.toolClose) = toolMarkers format
  reasoning : c.state = .reasoning → c.reasoningClose ≠ []
  toolCall : c.state = .toolCall → c.toolOpen ≠ []
  defer : c.deferUntilTerminal = false

theorem scans_new {format : ToolCallFormat} (h : format ≠ .llamaJson) : (new format).Scans := by
  refine ⟨⟨format, rfl⟩, nofun, nofun, ?_⟩
  cases format <;> first | rfl | exact absurd rfl h

theorem Scans.seedReasoning {c : StreamClassifier} (h : c.Scans) {close : Str} (hc : close ≠ []) :
    (c.seedReasoning close).Scans := ⟨h.markers, fun _ => hc, nofun, h.defer⟩

/-- The opening marker of a format does not start with white space and is no part of a
reasoning opener; a format with an opening marker has a closing one. -/
theorem toolMarkers_spec (format : ToolCallFormat) (h : (toolMarkers format).1 ≠ []) :
    ((toolMarkers format).1.head?.map isWhitespace = some false) ∧
      (∀ pair ∈ MARKER_PAIRS, ¬ (toolMarkers format).1 <:+: pair.1) ∧
      (toolMarkers format).2 ≠ [] := by
  cases format with
  | hermes => decide +kernel
  | laguna => decide +kernel
  | gemma => decide +kernel
  | llamaJson => exact absurd rfl h
  | none => exact absurd rfl h

theorem Scans.toolOpen {c : StreamClassifier} (h : c.Scans) (hne : c.toolOpen ≠ []) :
    (∀ x s, c.toolOpen = x :: s → isWhitespace x = false) ∧
      (∀ pair ∈ MARKER_PAIRS, ¬ c.toolOpen <:+: pair.1) ∧ c.toolClose ≠ [] := by
  obtain ⟨format, hf⟩ := h.markers
  have h1 : (toolMarkers format).1 = c.toolOpen := (congrArg Prod.fst hf).symm
  have h2 : (toolMarkers format).2 = c.toolClose := (congrArg Prod.snd hf).symm
  obtain ⟨hhead, hinfix, hclose⟩ := toolMarkers_spec format (h1 ▸ hne)
  rw [h1] at hhead hinfix
  rw [h2] at hclose
  refine ⟨fun x s hx => ?_, hinfix, hclose⟩
  rw [hx] at hhead
  exact Option.some.inj hhead

/-- The marker that ends the current state, with the boundary it makes; a reasoning opener
comes before it. -/
def searched (c : StreamClassifier) : Option (Str × Boundary) :=
  match c.state with
  | .text => if c.toolOpen = [] then none else some (c.toolOpen, .toolOpen)
  | .reasoning => some (c.reasoningClose, .reasoningClose)
  | .toolCall => some (c.toolClose, .toolClose)

theorem Scans.searched_ne {c : StreamClassifier} (h : c.Scans) {m : Str} {boundary : Boundary}
    (hs : c.searched = some (m, boundary)) : m ≠ [] := by
  unfold searched at hs
  split at hs
  · split at hs
    · cases hs
    · rename_i hne
      cases hs
      exact hne
  · rename_i hstate
    cases hs
    exact h.reasoning hstate
  · rename_i hstate
    cases hs
    exact (h.toolOpen (h.toolCall hstate)).2.2

/-- The text does not open a reasoning span here. -/
def Unopened (c : StreamClassifier) (b : Str) : Prop :=
  c.state = .text → c.reasoningPrefixPossible = true → opensReasoning b = none

@[simp] theorem withPending_withPending (c : StreamClassifier) (a b : Str) :
    (c.withPending a).withPending b = c.withPending b := rfl

@[simp] theorem withPending_state (c : StreamClassifier) (b : Str) :
    (c.withPending b).state = c.state := rfl

@[simp] theorem withPending_searched (c : StreamClassifier) (b : Str) :
    (c.withPending b).searched = c.searched := rfl

theorem Scans.withPending {c : StreamClassifier} (h : c.Scans) (b : Str) :
    (c.withPending b).Scans := ⟨h.markers, h.reasoning, h.toolCall, h.defer⟩

/-- The openers in the text state. -/
theorem findBoundary_text {c : StreamClassifier} (hs : c.state = .text) (b : Str) :
    (c.withPending b).findBoundary =
      let found := if c.reasoningPrefixPossible then
          (opensReasoning b).map fun r =>
            (b.length - (trimStart b).length, r.1, Boundary.reasoningOpen r.2.1)
        else none
      if c.toolOpen ≠ [] then
        match find c.toolOpen b with
        | some pos => chooseEarlier found pos c.toolOpen .toolOpen
        | none => found
      else found := by
  unfold findBoundary opensReasoning
  rw [withPending_state, hs]
  have hraw : (c.withPending b).rawPending = b := rfl
  have htool : (c.withPending b).toolOpen = c.toolOpen := rfl
  have hflag : (c.withPending b).reasoningPrefixPossible = c.reasoningPrefixPossible := rfl
  simp only [hraw, htool, hflag]
  cases hc : prefixCandidate b with
  | none => rfl
  | some candidate =>
    obtain ⟨rfl, -⟩ := prefixCandidate_eq_some.1 hc
    rewrite [Option.bind_some, ← reasoningOpeners_eq]
    rfl

theorem findBoundary_unopened {c : StreamClassifier} {b : Str} (h : c.Unopened b) :
    (c.withPending b).findBoundary =
      c.searched.bind fun m => (find m.1 b).map fun pos => (pos, m.1, m.2) := by
  cases hs : c.state with
  | text =>
    have hfound : (if c.reasoningPrefixPossible then
        (opensReasoning b).map fun r =>
          (b.length - (trimStart b).length, r.1, Boundary.reasoningOpen r.2.1)
        else none) = none := by
      split
      · rename_i hflag
        rw [h hs hflag]
        rfl
      · rfl
    rw [findBoundary_text hs, hfound]
    unfold searched
    rw [hs]
    by_cases hne : c.toolOpen = []
    · simp [hne]
    · simp only [ne_eq, hne, not_false_eq_true, if_true, if_false, Option.bind_some]
      cases find c.toolOpen b <;> rfl
  | reasoning =>
    unfold findBoundary searched
    rw [withPending_state, hs]
    rfl
  | toolCall =>
    unfold findBoundary searched
    rw [withPending_state, hs]
    rfl

/-- A marker that does not start with white space does not start inside white space. -/
theorem length_le_of_prefix_drop {m w s : Str} {j : Nat} (hm : m ≠ [])
    (hhead : ∀ x t, m = x :: t → isWhitespace x = false) (hw : ∀ c ∈ w, isWhitespace c)
    (h : m <+: (w ++ s).drop j) : w.length ≤ j := by
  by_contra hlt
  obtain ⟨x, t, rfl⟩ := List.exists_cons_of_ne_nil hm
  rw [List.drop_append_of_le_length (by omega), List.drop_eq_getElem_cons (by omega)] at h
  have hx : x = w[j] := by
    obtain ⟨r, hr⟩ := h
    exact (List.cons.inj hr).1
  have hws := hw w[j] (List.getElem_mem _)
  rw [← hx, hhead x t rfl] at hws
  cases hws

/-- An opener is found before any tool marker. -/
theorem findBoundary_opens {c : StreamClassifier} (hc : c.Scans) (hs : c.state = .text)
    (hflag : c.reasoningPrefixPossible = true) {b opener close rest : Str}
    (h : opensReasoning b = some (opener, close, rest)) :
    ∃ w, b = w ++ opener ++ rest ∧
      (c.withPending b).findBoundary = some (w.length, opener, .reasoningOpen close) := by
  obtain ⟨hm, w, ht, hw, -⟩ := opensReasoning_iff.1 h
  refine ⟨w, ht, ?_⟩
  have hpos : b.length - (trimStart b).length = w.length := by
    have htrim : trimStart b = opener ++ rest := by
      rw [ht]
      exact (takeWhile_before_opener hm hw).2
    rw [htrim, ht]
    simp only [List.length_append]
    omega
  rw [findBoundary_text hs, if_pos hflag, h, Option.map_some, hpos]
  dsimp only
  split
  · rename_i hne
    cases hf : find c.toolOpen b with
    | none => rfl
    | some pos =>
      have hle : w.length ≤ pos := by
        refine length_le_of_prefix_drop hne (hc.toolOpen hne).1 hw (s := opener ++ rest) ?_
        rw [← List.append_assoc, ← ht]
        exact (find_eq_some.1 hf).2.1
      show chooseEarlier (some (w.length, opener, .reasoningOpen close)) pos c.toolOpen .toolOpen = _
      exact if_neg (not_lt.2 hle)
  · rfl

/-- More text does not make a text open a span once it contains a tool marker. -/
theorem Unopened.append_of_find {c : StreamClassifier} (hc : c.Scans) {b : Str}
    (h : c.Unopened b) {pos : Nat} (hne : c.toolOpen ≠ []) (hf : find c.toolOpen b = some pos)
    (q : Str) : c.Unopened (b ++ q) := by
  intro hs hflag
  by_contra hsome
  obtain ⟨⟨opener, close, rest⟩, ho⟩ := Option.ne_none_iff_exists'.1 hsome
  obtain ⟨hm, w, ht, hw, hle⟩ := opensReasoning_iff.1 ho
  obtain ⟨hhead, hinfix, -⟩ := hc.toolOpen hne
  rcases List.append_eq_append_iff.1 ht with ⟨a, ha, -⟩ | ⟨r, hr, -⟩
  · -- the marker would lie inside the opener
    have hpre : c.toolOpen <+: (w ++ opener).drop pos := by
      rw [ha, List.drop_append_of_le_length (find_le hf |> Nat.le_of_add_right_le)]
      exact (find_eq_some.1 hf).2.1.trans (List.prefix_append _ _)
    have hpos := length_le_of_prefix_drop hne hhead hw hpre
    rw [List.drop_append, List.drop_of_length_le hpos, List.nil_append] at hpre
    exact hinfix _ hm (hpre.isInfix.trans (List.drop_suffix _ _).isInfix)
  · have hopens := opensReasoning_iff.2 ⟨hm, w, hr, hw, hle⟩
    rw [h hs hflag] at hopens
    cases hopens

/-- A boundary stays where it is when text is appended. -/
theorem findBoundary_append {c : StreamClassifier} (hc : c.Scans) {b : Str}
    {found : Nat × Str × Boundary} (h : (c.withPending b).findBoundary = some found) (q : Str) :
    (c.withPending (b ++ q)).findBoundary = some found := by
  by_cases hu : c.Unopened b
  · have hsearch := findBoundary_unopened hu
    rw [h] at hsearch
    obtain ⟨⟨m, boundary⟩, hm, hfound⟩ := Option.bind_eq_some_iff.1 hsearch.symm
    obtain ⟨pos, hf, rfl⟩ := Option.map_eq_some_iff.1 hfound
    have hu' : c.Unopened (b ++ q) := by
      intro hs hflag
      unfold searched at hm
      rw [hs] at hm
      dsimp only at hm
      split at hm
      · cases hm
      · rename_i hne
        cases hm
        exact hu.append_of_find hc hne hf q hs hflag
    rw [findBoundary_unopened hu', hm, Option.bind_some, find_append_left hf]
    rfl
  · obtain ⟨hs, hflag, hne⟩ : c.state = .text ∧ c.reasoningPrefixPossible = true ∧
        opensReasoning b ≠ none := by simpa [Unopened] using hu
    obtain ⟨⟨opener, close, rest⟩, ho⟩ := Option.ne_none_iff_exists'.1 hne
    obtain ⟨w, hb, hfb⟩ := findBoundary_opens hc hs hflag ho
    obtain ⟨w', hb', hfb'⟩ := findBoundary_opens hc hs hflag (opensReasoning_append ho q)
    rw [h] at hfb
    rw [hfb', hfb]
    have hw : w = w' := by
      rw [hb, List.append_assoc, List.append_assoc, List.append_assoc] at hb'
      exact List.append_cancel_right hb'
    rw [hw]

/-! ## The items of a whole text -/

/-- The items of `text`, read from the state `c`: up to the next boundary it is a segment, and
after the boundary it is read from the state that follows. -/
inductive Parses : StreamClassifier → Str → List StreamItem → Prop
  | rest {c : StreamClassifier} {text : Str} (h : (c.withPending text).findBoundary = none) :
      Parses c text (chars c.state text)
  | next {c : StreamClassifier} {text marker : Str} {pos : Nat} {boundary : Boundary}
      {items : List StreamItem}
      (h : (c.withPending text).findBoundary = some (pos, marker, boundary))
      (hrest : Parses (c.applyBoundary boundary) (text.drop (pos + marker.length)) items) :
      Parses c text
        (trace (boundaryEvents c.state text (text.take pos) pos marker boundary) ++ items)

/-- A text has one list of items. -/
theorem Parses.unique {c : StreamClassifier} {text : Str} {items items' : List StreamItem}
    (h : Parses c text items) (h' : Parses c text items') : items = items' := by
  induction h generalizing items' with
  | rest hnone =>
    cases h' with
    | rest _ => rfl
    | next hsome _ =>
      rw [hnone] at hsome
      cases hsome
  | next hsome _ ih =>
    cases h' with
    | rest hnone =>
      rw [hsome] at hnone
      cases hnone
    | next hsome' hrest =>
      rw [hsome] at hsome'
      cases hsome'
      rw [ih hrest]

/-- What is pending does not matter to what follows. -/
theorem Parses.withPending {c : StreamClassifier} {text b : Str} {items : List StreamItem} :
    Parses (c.withPending b) text items ↔ Parses c text items := by
  have hmode : ∀ {c c' : StreamClassifier} {text : Str} {items : List StreamItem},
      (∀ s, c.withPending s = c'.withPending s) → Parses c text items → Parses c' text items := by
    intro c c' text items hsame h
    have hstate : ∀ {a a' : StreamClassifier}, (∀ s, a.withPending s = a'.withPending s) →
        a.state = a'.state := by
      intro a a' hs
      show (a.withPending []).state = (a'.withPending []).state
      rw [hs]
    induction h generalizing c' with
    | rest hnone =>
      rw [hstate hsame]
      exact .rest (hsame _ ▸ hnone)
    | @next c text marker pos boundary items hsome hrest ih =>
      rw [hstate hsame]
      refine .next (hsame _ ▸ hsome) (ih fun s => ?_)
      have := congrArg (fun c => (c.applyBoundary boundary).withPending s) (hsame s)
      cases boundary <;> exact this
  exact ⟨hmode fun _ => rfl, hmode fun _ => rfl⟩

/-- The marker of a boundary stands at its position. -/
theorem findBoundary_split {c : StreamClassifier} (hc : c.Scans) {b marker : Str} {pos : Nat}
    {boundary : Boundary} (h : (c.withPending b).findBoundary = some (pos, marker, boundary)) :
    b = b.take pos ++ marker ++ b.drop (pos + marker.length) ∧ marker ≠ [] := by
  by_cases hu : c.Unopened b
  · rw [findBoundary_unopened hu] at h
    obtain ⟨⟨m, _⟩, hm, hfound⟩ := Option.bind_eq_some_iff.1 h
    obtain ⟨_, hf, he⟩ := Option.map_eq_some_iff.1 hfound
    cases he
    exact ⟨find_split hf, hc.searched_ne hm⟩
  · obtain ⟨hs, hflag, hne⟩ : c.state = .text ∧ c.reasoningPrefixPossible = true ∧
        opensReasoning b ≠ none := by simpa [Unopened] using hu
    obtain ⟨⟨opener, close, rest⟩, ho⟩ := Option.ne_none_iff_exists'.1 hne
    obtain ⟨w, hb, hfb⟩ := findBoundary_opens hc hs hflag ho
    rw [h] at hfb
    cases hfb
    refine ⟨?_, (MARKER_PAIRS_nonempty (opensReasoning_eq_some ho).1).1⟩
    rw [hb, ← List.length_append, List.drop_left, List.append_assoc, List.take_left]
    exact (List.append_assoc _ _ _).symm

theorem applyBoundary_scans {c : StreamClassifier} (hc : c.Scans) {b marker : Str} {pos : Nat}
    {boundary : Boundary} (h : (c.withPending b).findBoundary = some (pos, marker, boundary)) :
    (c.applyBoundary boundary).Scans := by
  by_cases hu : c.Unopened b
  · rw [findBoundary_unopened hu] at h
    obtain ⟨⟨m, _⟩, hm, hfound⟩ := Option.bind_eq_some_iff.1 h
    obtain ⟨_, hf, he⟩ := Option.map_eq_some_iff.1 hfound
    cases he
    unfold searched at hm
    split at hm
    · split at hm
      · cases hm
      · rename_i hne
        cases hm
        exact ⟨hc.markers, nofun, fun _ => hne, hc.defer⟩
    · cases hm
      exact ⟨hc.markers, nofun, nofun, hc.defer⟩
    · cases hm
      exact ⟨hc.markers, nofun, nofun, hc.defer⟩
  · obtain ⟨hs, hflag, hne⟩ : c.state = .text ∧ c.reasoningPrefixPossible = true ∧
        opensReasoning b ≠ none := by simpa [Unopened] using hu
    obtain ⟨⟨opener, close, rest⟩, ho⟩ := Option.ne_none_iff_exists'.1 hne
    obtain ⟨w, hb, hfb⟩ := findBoundary_opens hc hs hflag ho
    rw [h] at hfb
    cases hfb
    exact ⟨hc.markers, fun _ => (MARKER_PAIRS_nonempty (opensReasoning_eq_some ho).1).2, nofun,
      hc.defer⟩

/-- The items of a text make up the text. -/
theorem Parses.conserves {c : StreamClassifier} (hc : c.Scans) {text : Str}
    {items : List StreamItem} (h : Parses c text items) : itemsText items = text := by
  induction h with
  | rest _ => exact itemsText_chars _ _
  | @next c text marker pos boundary items hsome hrest ih =>
    obtain ⟨hsplit, hne⟩ := findBoundary_split hc hsome
    rw [itemsText_append, ih (applyBoundary_scans hc hsome)]
    have hbefore : itemsText (trace
        (boundaryEvents c.state text (text.take pos) pos marker boundary)) =
          text.take pos ++ marker := by
      have htake : text.take (pos + marker.length) = text.take pos ++ marker := by
        conv_lhs => rw [hsplit]
        rw [List.take_left']
        have hle : pos ≤ text.length := by
          have := congrArg List.length hsplit
          have := List.length_pos_iff.2 hne
          simp only [List.length_append, List.length_take, List.length_drop] at *
          omega
        rw [List.length_append, List.length_take, Nat.min_eq_left hle]
      cases boundary <;> simp [boundaryEvents, StreamEvent.items, htake]
    rw [hbefore]
    exact hsplit.symm

/-! ## One push -/

/-- The leading white space of the text is within the bound, where it matters. -/
def Fits (c : StreamClassifier) (text : Str) : Prop :=
  c.state = .text → c.reasoningPrefixPossible = true →
    utf8Len (text.takeWhile isWhitespace) ≤ MAX_PREFIX_WHITESPACE_BYTES

/-- The state after `safe` characters have been released. -/
def released (c : StreamClassifier) (safeRaw : Str) : StreamClassifier :=
  { c with
    reasoningPrefixPossible :=
      if c.state = .text ∧ trim safeRaw ≠ [] then false else c.reasoningPrefixPossible }

theorem Scans.released {c : StreamClassifier} (h : c.Scans) (s : Str) : (c.released s).Scans :=
  ⟨h.markers, h.reasoning, h.toolCall, h.defer⟩

/-- The held-back end of a text without a boundary. -/
theorem partialMarkerSuffixLen_unwithheld {c : StreamClassifier} {b : Str}
    (h : ¬ (c.state = .text ∧ c.reasoningPrefixPossible = true ∧ prefixWithheld b = true)) :
    (c.withPending b).partialMarkerSuffixLen = (c.searched.elim 0 fun m => overlap b m.1) := by
  unfold partialMarkerSuffixLen searched
  rw [withPending_state]
  cases hs : c.state with
  | text =>
    have hretained : ((c.withPending b).reasoningPrefixPossible &&
        prefixWithheld (c.withPending b).rawPending) = false := by
      rw [Bool.and_eq_false_iff]
      by_contra hboth
      rw [not_or, Bool.not_eq_false, Bool.not_eq_false] at hboth
      exact h ⟨hs, hboth.1, hboth.2⟩
    dsimp only
    rw [hretained]
    by_cases hne : c.toolOpen = []
    · rw [if_pos hne]
      show max 0 (overlap b c.toolOpen) = 0
      rw [hne, overlap_nil]
      rfl
    · rw [if_neg hne]
      exact Nat.zero_max _
  | reasoning => rfl
  | toolCall => rfl

/-- Text that is not withheld and does not open a span never will, once it is followed by the
rest of a fitting text. -/
theorem Unopened.append_of_unwithheld {c : StreamClassifier} {b : Str} (h : c.Unopened b)
    (hw : ¬ (c.state = .text ∧ c.reasoningPrefixPossible = true ∧ prefixWithheld b = true))
    {q : Str} (hfits : c.Fits (b ++ q)) :
    c.Unopened (b ++ q) ∧ (c.state = .text → c.reasoningPrefixPossible = true →
      trimStart b ≠ []) := by
  have htrim : c.state = .text → c.reasoningPrefixPossible = true → trimStart b ≠ [] := by
    intro hs hflag hnil
    have hws := trimStart_eq_nil.1 hnil
    have hle := hfits hs hflag
    rw [List.takeWhile_append_of_pos hws, utf8Len_append] at hle
    refine hw ⟨hs, hflag, ?_⟩
    rw [prefixWithheld_whitespace hnil]
    exact decide_eq_true (by omega)
  refine ⟨fun hs hflag => ?_, htrim⟩
  have hunwithheld : prefixWithheld b = false := by
    by_contra hheld
    exact hw ⟨hs, hflag, by simpa using hheld⟩
  exact opensReasoning_append_none (h hs hflag) hunwithheld (htrim hs hflag) q

theorem unopened_of_none {c : StreamClassifier} (hc : c.Scans) {b : Str}
    (h : (c.withPending b).findBoundary = none) : c.Unopened b := by
  intro hs hflag
  by_contra hne
  obtain ⟨⟨opener, close, rest⟩, ho⟩ := Option.ne_none_iff_exists'.1 hne
  obtain ⟨w, -, hfb⟩ := findBoundary_opens hc hs hflag ho
  rw [h] at hfb
  cases hfb

theorem searched_none {c : StreamClassifier} (hc : c.Scans) {b : Str}
    (h : (c.withPending b).findBoundary = none) {m : Str × Boundary}
    (hm : c.searched = some m) : find m.1 b = none := by
  rw [findBoundary_unopened (unopened_of_none hc h), hm, Option.bind_some] at h
  exact Option.map_eq_none_iff.1 h

/-- A withheld text is held back whole. -/
theorem le_partialMarkerSuffixLen {c : StreamClassifier} {b : Str} (hs : c.state = .text)
    (hflag : c.reasoningPrefixPossible = true) (hw : prefixWithheld b = true) :
    b.length ≤ (c.withPending b).partialMarkerSuffixLen := by
  unfold partialMarkerSuffixLen
  rw [withPending_state, hs]
  show b.length ≤ max (if c.reasoningPrefixPossible && prefixWithheld b then b.length else 0) _
  rw [hflag, hw]
  exact Nat.le_max_left _ _

theorem searched_boundary {c : StreamClassifier} {m : Str} {boundary : Boundary}
    (h : c.searched = some (m, boundary)) (state : TokenKind) (raw before : Str) (pos : Nat) :
    boundaryEvents state raw before pos m boundary =
      [.segment state before, .removed m boundary] := by
  unfold searched at h
  split at h
  · split at h
    · cases h
    · cases h
      rfl
  · cases h
    rfl
  · cases h
    rfl

/-- Releasing the safe prefix `s` of a text leaves a state that reads the rest alike. -/
theorem parses_released {c : StreamClassifier} (hc : c.Scans) (s tail q : Str)
    (hnone : (c.withPending (s ++ tail)).findBoundary = none)
    (hretained : tail.length = (c.withPending (s ++ tail)).partialMarkerSuffixLen)
    (hs : s ≠ []) (hfits : c.Fits (s ++ tail ++ q)) (items : List StreamItem) :
    (c.released s).Fits (tail ++ q) ∧ (Parses (c.released s) (tail ++ q) items →
      Parses c (s ++ tail ++ q) (chars c.state s ++ items)) := by
  have hw : ¬ (c.state = .text ∧ c.reasoningPrefixPossible = true ∧
      prefixWithheld (s ++ tail) = true) := by
    rintro ⟨hstate, hflag, hheld⟩
    have hle := le_partialMarkerSuffixLen hstate hflag hheld
    have hpos := List.length_pos_iff.2 hs
    rw [← hretained, List.length_append] at hle
    omega
  have hu := unopened_of_none hc hnone
  obtain ⟨hu', -⟩ := hu.append_of_unwithheld hw hfits
  have hwhite : c.state = .text → (c.released s).reasoningPrefixPossible = true →
      c.reasoningPrefixPossible = true ∧ ∀ x ∈ s, isWhitespace x := by
    intro hstate hflag
    have hflag : (if c.state = .text ∧ trim s ≠ [] then false
      else c.reasoningPrefixPossible) = true := hflag
    by_cases htrim : trim s = []
    · rw [if_neg (by simp [htrim])] at hflag
      exact ⟨hflag, trim_eq_nil.1 htrim⟩
    · rw [if_pos ⟨hstate, htrim⟩] at hflag
      cases hflag
  refine ⟨?_, ?_⟩
  · intro hstate hflag
    obtain ⟨hflag', hws⟩ := hwhite hstate hflag
    have hle := hfits hstate hflag'
    rw [List.append_assoc, List.takeWhile_append_of_pos hws, utf8Len_append] at hle
    omega
  have hur : (c.released s).Unopened (tail ++ q) := by
    intro hstate hflag
    obtain ⟨hflag', hws⟩ := hwhite hstate hflag
    by_contra hne
    obtain ⟨⟨opener, close, rest⟩, ho⟩ := Option.ne_none_iff_exists'.1 hne
    obtain ⟨hm, w, ht, hww, -⟩ := opensReasoning_iff.1 ho
    have hall : ∀ x ∈ s ++ w, isWhitespace x := fun x hx =>
      (List.mem_append.1 hx).elim (hws x) (hww x)
    have htext : s ++ tail ++ q = s ++ w ++ opener ++ rest := by
      rw [List.append_assoc, ht, List.append_assoc, List.append_assoc, List.append_assoc]
    have hle := hfits hstate hflag'
    rw [htext, (takeWhile_before_opener hm hall).1] at hle
    have hopens := opensReasoning_iff.2 ⟨hm, s ++ w, htext, hall, hle⟩
    rw [hu' hstate hflag'] at hopens
    cases hopens
  -- the search goes on from the end of `s`
  have hshift : ∀ m boundary, c.searched = some (m, boundary) →
      find m (s ++ tail ++ q) = (find m (tail ++ q)).map (· + s.length) := by
    intro m boundary hm
    have hoverlap : tail.length = overlap (s ++ tail) m := by
      rw [hretained, partialMarkerSuffixLen_unwithheld hw, hm]
      rfl
    have hfind := find_append_of_overlap (searched_none hc hnone hm) q
    rw [← hoverlap, List.length_append, Nat.add_sub_cancel, List.drop_left] at hfind
    exact hfind
  intro h
  have hsame : (c.released s).searched = c.searched := rfl
  cases h with
  | rest hrest =>
    have hboundary : (c.withPending (s ++ tail ++ q)).findBoundary = none := by
      rw [findBoundary_unopened hu']
      cases hm : c.searched with
      | none => rfl
      | some m =>
        have hfind := searched_none (hc.released s) hrest (hsame.trans hm)
        rw [Option.bind_some, hshift _ _ hm, hfind]
        rfl
    have hparses := Parses.rest hboundary
    rw [List.append_assoc, chars_append] at hparses
    rw [List.append_assoc]
    exact hparses
  | @next _ _ marker pos boundary items hsome hrest =>
    rw [findBoundary_unopened hur, hsame] at hsome
    obtain ⟨⟨m, b⟩, hm, hfound⟩ := Option.bind_eq_some_iff.1 hsome
    obtain ⟨_, hf, he⟩ := Option.map_eq_some_iff.1 hfound
    cases he
    have hboundary : (c.withPending (s ++ tail ++ q)).findBoundary =
        some (pos + s.length, m, b) := by
      rw [findBoundary_unopened hu', hm, Option.bind_some, hshift _ _ hm, hf]
      rfl
    have hmode : (c.released s).applyBoundary b = c.applyBoundary b := by cases b <;> rfl
    have htake : (s ++ tail ++ q).take (pos + s.length) = s ++ (tail ++ q).take pos := by
      rw [List.append_assoc, Nat.add_comm, List.take_length_add_append]
    have hdrop : (s ++ tail ++ q).drop (pos + s.length + m.length) =
        (tail ++ q).drop (pos + m.length) := by
      rw [List.append_assoc, show pos + s.length + m.length = s.length + (pos + m.length) by omega,
        List.drop_length_add_append]
    rw [hmode] at hrest
    have hparses := Parses.next hboundary (hdrop ▸ hrest)
    rw [htake] at hparses
    have hstate : (c.released s).state = c.state := rfl
    rw [searched_boundary hm] at hparses ⊢
    rw [hstate]
    simpa [StreamEvent.items, List.append_assoc] using hparses

/-- What the loop leaves: a state in which nothing pending is complete, from which the rest `q`
of the text is read like the text from the state before. -/
structure Left (c : StreamClassifier) (text q : Str) (c' : StreamClassifier)
    (events : List StreamEvent) : Prop where
  scans : c'.Scans
  inStep : c'.displayPending = c'.rawPending
  settled : c'.findBoundary = none
  fits : c'.Fits (c'.rawPending ++ q)
  parses : ∀ items, Parses c' (c'.rawPending ++ q) items → Parses c text (trace events ++ items)

theorem findBoundary_nil {c : StreamClassifier} (hc : c.Scans) :
    (c.withPending []).findBoundary = none := by
  rw [findBoundary_unopened fun _ _ => by decide]
  cases hm : c.searched with
  | none => rfl
  | some m =>
    obtain ⟨marker, boundary⟩ := m
    have hshort : ([] : Str).length < marker.length := List.length_pos_iff.2 (hc.searched_ne hm)
    rw [Option.bind_some, find_of_length_lt hshort]
    rfl

theorem boundaryEvents_append {state : TokenKind} {b marker : Str} {pos : Nat}
    {boundary : Boundary} (hle : pos + marker.length ≤ b.length) (q : Str) :
    boundaryEvents state (b ++ q) ((b ++ q).take pos) pos marker boundary =
      boundaryEvents state b (b.take pos) pos marker boundary := by
  rw [List.take_append_of_le_length (by omega)]
  cases boundary with
  | reasoningOpen close =>
    unfold boundaryEvents
    rw [List.take_append_of_le_length hle]
  | reasoningClose => rfl
  | toolOpen => rfl
  | toolClose => rfl

theorem loopEvents_left {q : Str} : ∀ {fuel : Nat} {c c' : StreamClassifier} {b : Str}
    {events : List StreamEvent}, c.Scans → c.Fits (b ++ q) →
      loopEvents fuel (c.withPending b) = some (c', events) → Left c (b ++ q) q c' events
  | 0, _, _, _, _, _, _, h => by cases h
  | fuel + 1, c, c', b, events, hc, hfits, h => by
    unfold loopEvents at h
    cases hfb : (c.withPending b).findBoundary with
    | some found =>
      obtain ⟨pos, marker, boundary⟩ := found
      rw [hfb] at h
      dsimp only at h
      obtain ⟨hsplit, hne⟩ := findBoundary_split hc hfb
      have hle : pos + marker.length ≤ b.length := by
        have := congrArg List.length hsplit
        have := List.length_pos_iff.2 hne
        simp only [List.length_append, List.length_take, List.length_drop] at *
        omega
      have hnext : applyBoundary
          { c.withPending b with
            rawPending := b.drop (pos + marker.length)
            displayPending := (splitDisplayAtMarker b b pos marker).2 } boundary =
          (c.applyBoundary boundary).withPending (b.drop (pos + marker.length)) := by
        rw [splitDisplayAtMarker_same]
        cases boundary <;> rfl
      obtain ⟨⟨c₁, rest⟩, hloop, he⟩ := Option.map_eq_some_iff.1 h
      cases he
      have hflag : (c.applyBoundary boundary).reasoningPrefixPossible = false := by
        cases boundary <;> rfl
      have ih := loopEvents_left (q := q) (applyBoundary_scans hc hfb)
        (fun _ hf => absurd hf (by rw [hflag]; nofun)) (hnext ▸ hloop)
      refine ⟨ih.scans, ih.inStep, ih.settled, ih.fits, fun items hitems => ?_⟩
      have hrest := ih.parses items hitems
      rw [← List.drop_append_of_le_length hle] at hrest
      have hparses := Parses.next (findBoundary_append hc hfb q) hrest
      rw [boundaryEvents_append hle] at hparses
      have hbefore : (splitDisplayAtMarker (c.withPending b).rawPending
          (c.withPending b).displayPending pos marker).1 = b.take pos := by
        show (splitDisplayAtMarker b b pos marker).1 = _
        rw [splitDisplayAtMarker_same]
      rw [hbefore, trace_append, List.append_assoc]
      exact hparses
    | none =>
      rw [hfb] at h
      dsimp only at h
      generalize hk : (c.withPending b).partialMarkerSuffixLen = k at h
      have hraw : (c.withPending b).rawPending = b := rfl
      have hdisplay : (c.withPending b).displayPending = b := rfl
      rw [hraw, hdisplay, splitDisplayForSafePrefix_same] at h
      dsimp only at h
      by_cases hsafe : b.length - k = 0
      · rw [if_pos hsafe] at h
        cases h
        exact ⟨hc.withPending b, rfl, hfb, hfits, fun items hitems =>
          Parses.withPending.1 hitems⟩
      · rw [if_neg hsafe] at h
        have hsplit : b.take (b.length - k) ++ b.drop (b.length - k) = b :=
          List.take_append_drop _ _
        have hs : b.take (b.length - k) ≠ [] := by
          intro hnil
          have := congrArg List.length hnil
          rw [List.length_take, List.length_nil] at this
          omega
        have htail : (b.drop (b.length - k)).length = k := by
          rw [List.length_drop]
          omega
        have hreleased := parses_released hc (b.take (b.length - k)) (b.drop (b.length - k)) q
          (by rw [hsplit]; exact hfb)
          (by rw [hsplit, htail, hk]) hs (by rw [hsplit]; exact hfits)
        rw [hsplit] at hreleased
        by_cases hk0 : k = 0
        · rw [if_pos hk0] at h
          cases h
          have hnil : b.drop (b.length - k) = [] := List.eq_nil_of_length_eq_zero (by omega)
          have hc' := hc.released (b.take (b.length - k))
          refine ⟨hc'.withPending _, rfl, ?_, (hreleased []).1, fun items hitems => ?_⟩
          · show ((c.released (b.take (b.length - k))).withPending
              (b.drop (b.length - k))).findBoundary = none
            rw [hnil]
            exact findBoundary_nil hc'
          · rw [trace_cons, trace_nil, List.append_nil]
            exact (hreleased items).2 (Parses.withPending.1 hitems)
        · rw [if_neg hk0] at h
          obtain ⟨⟨c₁, rest⟩, hloop, he⟩ := Option.map_eq_some_iff.1 h
          cases he
          have ih := loopEvents_left (q := q) (hc.released (b.take (b.length - k)))
            (hreleased []).1 hloop
          refine ⟨ih.scans, ih.inStep, ih.settled, ih.fits, fun items hitems => ?_⟩
          rw [trace_cons, List.append_assoc]
          exact (hreleased _).2 (ih.parses items hitems)

/-! ## A run -/

/-- Any cut of a text gives the items of the whole text. -/
theorem runEvents_parses : ∀ {pieces : List Str} {c : StreamClassifier}
    {events : List StreamEvent}, c.Scans → c.displayPending = c.rawPending →
      c.findBoundary = none → c.Fits (c.rawPending ++ pieces.flatten) →
      c.runEvents (pieces.map fun piece => (piece, piece)) = some events →
      Parses c (c.rawPending ++ pieces.flatten) (trace events)
  | [], c, events, hc, hstep, hsettled, hfits, h => by
    cases h
    have hpending : c.withPending c.rawPending = c := by
      obtain ⟨toolOpen, toolClose, state, close, flag, raw, display, defers⟩ := c
      cases hstep
      rfl
    rw [List.flatten_nil, List.append_nil, trace_cons, trace_nil, List.append_nil, hstep]
    exact .rest (hpending.symm ▸ hsettled)
  | piece :: pieces, c, events, hc, hstep, hsettled, hfits, h => by
    rw [List.map_cons] at h
    unfold runEvents at h
    cases hpush : c.pushEvents piece piece with
    | none =>
      rw [hpush] at h
      cases h
    | some r =>
      obtain ⟨c', pushed⟩ := r
      rw [hpush] at h
      obtain ⟨rest, hrest, rfl⟩ := Option.map_eq_some_iff.1 h
      rw [List.flatten_cons, ← List.append_assoc] at hfits ⊢
      have hloop : loopEvents ((c.rawPending ++ piece).length + 2)
          (c.withPending (c.rawPending ++ piece)) = some (c', pushed) := by
        unfold pushEvents at hpush
        rw [hstep] at hpush
        exact hpush
      have hleft := loopEvents_left hc hfits hloop
      rw [trace_append]
      exact hleft.parses _
        (runEvents_parses hleft.scans hleft.inStep hleft.settled hleft.fits hrest)

/-- The classifier of a format at the start of a reply, seeded where the rendered prompt has
opened a reasoning span. -/
def start (format : ToolCallFormat) : Option Str → StreamClassifier
  | none => new format
  | some close => (new format).seedReasoning close

theorem scans_start {format : ToolCallFormat} (h : format ≠ .llamaJson) {seed : Option Str}
    (hseed : seed ≠ some []) : (start format seed).Scans := by
  cases seed with
  | none => exact scans_new h
  | some close => exact (scans_new h).seedReasoning fun hc => hseed (congrArg some hc)

theorem start_empty (format : ToolCallFormat) (seed : Option Str) :
    (start format seed).withPending [] = start format seed := by
  cases seed <;> rfl

theorem Scans.wellFormed {c : StreamClassifier} (h : c.Scans) : c.WellFormed :=
  ⟨h.reasoning, fun hs => (h.toolOpen (h.toolCall hs)).2.2, fun hne => (h.toolOpen hne).2.2⟩

/-- The number of structural signals of tool calls. -/
def signals (events : List StreamEvent) : Nat := events.countP StreamEvent.isSignal

/-- Whether an item is the marker that opens a tool call. -/
def opensTool : StreamItem → Bool
  | .removed _ .toolOpen => true
  | _ => false

theorem signals_eq (events : List StreamEvent) :
    signals events = (trace events).countP opensTool := by
  induction events with
  | nil => rfl
  | cons event events ih =>
    have hevent : event.items.countP opensTool = if event.isSignal then 1 else 0 := by
      cases event with
      | segment kind text =>
        show (chars kind text).countP opensTool = 0
        refine List.countP_eq_zero.2 fun item hitem => ?_
        obtain ⟨c, _, rfl⟩ := List.mem_map.1 hitem
        nofun
      | removed text boundary => cases boundary <;> rfl
    rw [trace_cons, List.countP_append, ← ih, hevent, Nat.add_comm]
    exact List.countP_cons

/-- The run of the classifier over `pieces` returns `output` through `events`: its segments are
the characters of the events that emit text. -/
structure Emits (c : StreamClassifier) (pieces : List (Str × Str)) (events : List StreamEvent)
    (output : List ClassifiedText) : Prop where
  ran : c.run pieces = some output
  through : c.runEvents pieces = some events
  emitted : segmentChars output = itemChars (trace events)

theorem itemChars_append (a b : List StreamItem) :
    itemChars (a ++ b) = itemChars a ++ itemChars b := List.filterMap_append

theorem loopEvents_defer : ∀ {fuel : Nat} {c c' : StreamClassifier} {events : List StreamEvent},
    loopEvents fuel c = some (c', events) → c'.deferUntilTerminal = c.deferUntilTerminal
  | 0, _, _, _, h => by cases h
  | fuel + 1, c, c', events, h => by
    unfold loopEvents at h
    cases hb : c.findBoundary with
    | some found =>
      obtain ⟨pos, marker, boundary⟩ := found
      rw [hb] at h
      obtain ⟨⟨c₁, rest⟩, hloop, he⟩ := Option.map_eq_some_iff.1 h
      cases he
      rw [loopEvents_defer hloop]
      cases boundary <;> rfl
    | none =>
      rw [hb] at h
      dsimp only at h
      split at h
      · cases h
        rfl
      split at h
      · cases h
        rfl
      · obtain ⟨⟨c₁, rest⟩, hloop, he⟩ := Option.map_eq_some_iff.1 h
        cases he
        have hrest := loopEvents_defer hloop
        exact hrest

/-- Every run comes to an end, with the segments of its events. -/
theorem emits : ∀ (pieces : List (Str × Str)) {c : StreamClassifier}, c.WellFormed →
    c.deferUntilTerminal = false → ∃ events output, Emits c pieces events output
  | [], c, _, hd => by
    refine ⟨_, _, rfl, rfl, ?_⟩
    have hfinish : c.finish.2 = pushNonempty [] c.state c.displayPending := by
      unfold finish
      rw [hd, if_neg nofun]
    rw [hfinish]
    exact segmentChars_foldl_apply [.segment c.state c.displayPending] []
  | (raw, display) :: pieces, c, hw, hd => by
    obtain ⟨c', output, hpush, hw'⟩ := push_total hw raw display
    have hevents := push_eq_events hd raw display
    rw [hpush] at hevents
    obtain ⟨⟨c'', events⟩, hpushed, he⟩ := Option.map_eq_some_iff.1 hevents.symm
    cases he
    have hd' : c''.deferUntilTerminal = false := (loopEvents_defer hpushed).trans hd
    obtain ⟨rest, output', hrest⟩ := emits pieces hw' hd'
    refine ⟨events ++ rest, events.foldl StreamEvent.apply [] ++ output', ?_, ?_, ?_⟩
    · unfold run
      rw [hpush]
      dsimp only
      rw [hrest.ran, Option.map_some]
    · unfold runEvents
      rw [hpushed]
      dsimp only
      rw [hrest.through, Option.map_some]
    · rw [segmentChars_append, segmentChars_foldl_apply, hrest.emitted, trace_append,
        itemChars_append]
      rfl

/-- What the classifier makes of a text does not depend on the cuts: two runs over the same text
return the same segments up to merging, as many structural signals, and each run's segments and
removed markers make up the text. -/
theorem rechunking_invariant {format : ToolCallFormat} (hformat : format ≠ .llamaJson)
    {seed : Option Str} (hseed : seed ≠ some []) {text : Str}
    (hleading : utf8Len (text.takeWhile isWhitespace) ≤ MAX_PREFIX_WHITESPACE_BYTES)
    {p q : List Str} (hp : p.flatten = text) (hq : q.flatten = text) :
    ∃ events events' output output',
      (start format seed).Emits (p.map fun piece => (piece, piece)) events output ∧
      (start format seed).Emits (q.map fun piece => (piece, piece)) events' output' ∧
      merged output = merged output' ∧ signals events = signals events' ∧
      (events.map StreamEvent.text).flatten = text ∧
      (events'.map StreamEvent.text).flatten = text := by
  have hc := scans_start hformat hseed
  have hstep : (start format seed).displayPending = (start format seed).rawPending := by
    cases seed <;> rfl
  have hempty : (start format seed).rawPending = [] := by
    cases seed <;> rfl
  have hsettled : (start format seed).findBoundary = none := by
    rw [← start_empty]
    exact findBoundary_nil hc
  have hparses : ∀ {pieces : List Str} {events : List StreamEvent}, pieces.flatten = text →
      (start format seed).runEvents (pieces.map fun piece => (piece, piece)) = some events →
      Parses (start format seed) text (trace events) := by
    intro pieces events hflat hrun
    have := runEvents_parses hc hstep hsettled
      (by rw [hempty, List.nil_append, hflat]; exact fun _ _ => hleading) hrun
    rwa [hempty, List.nil_append, hflat] at this
  obtain ⟨events, output, he⟩ := emits (p.map fun piece => (piece, piece)) hc.wellFormed hc.defer
  obtain ⟨events', output', he'⟩ :=
    emits (q.map fun piece => (piece, piece)) hc.wellFormed hc.defer
  have hsame : trace events = trace events' :=
    (hparses hp he.through).unique (hparses hq he'.through)
  refine ⟨events, events', output, output', he, he', merged_congr ?_, ?_, ?_, ?_⟩
  · rw [he.emitted, he'.emitted, hsame]
  · rw [signals_eq, signals_eq, hsame]
  · rw [← itemsText_trace]
    exact (hparses hp he.through).conserves hc
  · rw [← itemsText_trace]
    exact (hparses hq he'.through).conserves hc

/-- A reasoning span and a tool call, whole and cut inside both kinds of markers. -/
theorem rechunking_invariant_cut :
    ∃ events events' output output',
      (start .hermes none).Emits
        ([" <think>a</think>b<tool_call>c</tool_call>".toList].map fun s => (s, s))
        events output ∧
      (start .hermes none).Emits
        ([" <th".toList, "ink>a<".toList, "/think>b<tool".toList, "_call>c</tool_call>".toList].map
          fun s => (s, s)) events' output' ∧
      merged output = merged output' ∧ signals events = signals events' ∧
      (events.map StreamEvent.text).flatten =
        " <think>a</think>b<tool_call>c</tool_call>".toList ∧
      (events'.map StreamEvent.text).flatten =
        " <think>a</think>b<tool_call>c</tool_call>".toList :=
  rechunking_invariant (by decide) (by decide) (by decide +kernel) (by decide +kernel)
    (by decide +kernel)

end StreamClassifier

end Emelex
