import Emelex.Engine.Reasoning

/-!
# Incremental classification of a reply (`engine/streaming.rs`)

`StreamClassifier` as the source has it: a transducer over corresponding `raw` and `display`
pieces that withholds a possible marker suffix, removes complete markers and returns typed
segments.  The unbounded `loop` of `push` runs on fuel; `pushLoop_total` shows that the fuel
`push` gives is enough for every tool format.

* `StreamClassifier.push`, `StreamClassifier.finish` — one piece; the terminal flush.
* `classify` — a whole reply: push of each piece, then finish.

Principal results: `StreamClassifier.push_total` (no push runs out of fuel), `classify_total`
(every reply is classified, in every format).
-/

set_option autoImplicit false

namespace Emelex

open Text

/-- `TokenKind`: which part of a reply a segment belongs to. -/
inductive TokenKind where
  | text
  | reasoning
  | toolCall
  deriving DecidableEq, Repr

/-- `ToolCallFormat`. -/
inductive ToolCallFormat where
  | hermes
  | laguna
  | gemma
  | llamaJson
  | none
  deriving DecidableEq, Repr

/-- `ClassifiedText`: one marker-free display segment. -/
structure ClassifiedText where
  kind : TokenKind
  text : Str
  deriving DecidableEq, Repr

/-- `Boundary`. -/
inductive Boundary where
  | reasoningOpen (close : Str)
  | reasoningClose
  | toolOpen
  | toolClose
  deriving DecidableEq, Repr

/-- `StreamClassifier`. -/
structure StreamClassifier where
  toolOpen : Str
  toolClose : Str
  state : TokenKind
  reasoningClose : Str
  reasoningPrefixPossible : Bool
  rawPending : Str
  displayPending : Str
  deferUntilTerminal : Bool
  deriving DecidableEq, Repr

/-! ## Splitting display text -/

/-- `choose_earlier`. -/
def chooseEarlier (found : Option (Nat × Str × Boundary)) (pos : Nat) (marker : Str)
    (boundary : Boundary) : Option (Nat × Str × Boundary) :=
  match found with
  | none => some (pos, marker, boundary)
  | some (current, m, b) => if pos < current then some (pos, marker, boundary)
    else some (current, m, b)

/-- `marker_suffix_len`. -/
def markerSuffixLen (text marker : Str) : Nat := overlap text marker

/-- `split_display_at_marker`. -/
def splitDisplayAtMarker (raw display : Str) (pos : Nat) (marker : Str) : Str × Str :=
  if raw = display then (display.take pos, display.drop (pos + marker.length))
  else
    match find marker display with
    | some displayAt => (display.take displayAt, display.drop (displayAt + marker.length))
    | none =>
      let rawBefore := raw.take pos
      let (before, remaining) :=
        match stripPrefix rawBefore display with
        | none => ([], display)
        | some remaining => (rawBefore, remaining)
      let markerDisplayLen :=
        Nat.findGreatest (fun n => remaining.take n <:+ marker)
          (min marker.length remaining.length)
      (before, remaining.drop markerDisplayLen)

/-- `split_display_for_safe_prefix`. -/
def splitDisplayForSafePrefix (raw display : Str) (safe : Nat) : Str × Str :=
  if raw = display then (display.take safe, display.drop safe)
  else if safe = raw.length then (display, [])
  else if safe = 0 then ([], display)
  else
    let rawSafe := raw.take safe
    match stripPrefix rawSafe display with
    | some remaining => (rawSafe, remaining)
    | none =>
      let rawTail := raw.drop safe
      match stripSuffix rawTail display with
      | some visible => (visible, rawTail)
      | none => (display, [])

/-- `push_nonempty`: a segment of the kind of the last one is merged into it. -/
def pushNonempty (output : List ClassifiedText) (kind : TokenKind) (text : Str) :
    List ClassifiedText :=
  if text = [] then output
  else
    match output.getLast? with
    | some last =>
      if last.kind = kind then output.dropLast ++ [{ last with text := last.text ++ text }]
      else output ++ [⟨kind, text⟩]
    | none => output ++ [⟨kind, text⟩]

/-! ## The classifier -/

namespace StreamClassifier

/-- The tool-call markers of a format. -/
def toolMarkers : ToolCallFormat → Str × Str
  | .hermes | .laguna => ("<tool_call>".toList, "</tool_call>".toList)
  | .gemma => ("<|tool_call>".toList, "<tool_call|>".toList)
  | .llamaJson | .none => ([], [])

/-- `StreamClassifier::new`. -/
def new (toolFormat : ToolCallFormat) : StreamClassifier :=
  let (toolOpen, toolClose) := toolMarkers toolFormat
  { toolOpen, toolClose
    state := .text
    reasoningClose := []
    reasoningPrefixPossible := true
    rawPending := []
    displayPending := []
    deferUntilTerminal := toolFormat = .llamaJson }

/-- `seed_reasoning`: the span was opened by the rendered prompt. -/
def seedReasoning (c : StreamClassifier) (close : Str) : StreamClassifier :=
  { c with
    state := .reasoning
    reasoningClose := close
    reasoningPrefixPossible := false
    rawPending := []
    displayPending := [] }

/-- `current_kind`. -/
def currentKind (c : StreamClassifier) : TokenKind := c.state

/-- The openers that start the candidate, as boundaries at `leading`. -/
def reasoningOpeners (candidate : Str) (leading : Nat) :
    List (Str × Str) → Option (Nat × Str × Boundary) → Option (Nat × Str × Boundary)
  | [], found => found
  | (opener, close) :: pairs, found =>
    reasoningOpeners candidate leading pairs
      (if opener <+: candidate then chooseEarlier found leading opener (.reasoningOpen close)
        else found)

/-- `find_boundary`. -/
def findBoundary (c : StreamClassifier) : Option (Nat × Str × Boundary) :=
  match c.state with
  | .text =>
    let found :=
      if c.reasoningPrefixPossible then
        match prefixCandidate c.rawPending with
        | some candidate =>
          let leading := c.rawPending.length - candidate.length
          reasoningOpeners candidate leading MARKER_PAIRS none
        | none => none
      else none
    if c.toolOpen ≠ [] then
      match find c.toolOpen c.rawPending with
      | some pos => chooseEarlier found pos c.toolOpen .toolOpen
      | none => found
    else found
  | .reasoning =>
    (find c.reasoningClose c.rawPending).map fun pos => (pos, c.reasoningClose, .reasoningClose)
  | .toolCall =>
    (find c.toolClose c.rawPending).map fun pos => (pos, c.toolClose, .toolClose)

/-- The withheld prefix test of `partial_marker_suffix_len`: nothing but bounded white space,
or that followed by the beginning of an opener. -/
def prefixWithheld (raw : Str) : Bool :=
  match prefixCandidate raw with
  | some candidate => candidate = [] ∨ ∃ pair ∈ MARKER_PAIRS, candidate <+: pair.1
  | none => false

/-- `partial_marker_suffix_len`. -/
def partialMarkerSuffixLen (c : StreamClassifier) : Nat :=
  match c.state with
  | .text =>
    let retained :=
      if c.reasoningPrefixPossible && prefixWithheld c.rawPending then c.rawPending.length else 0
    max retained (markerSuffixLen c.rawPending c.toolOpen)
  | .reasoning => markerSuffixLen c.rawPending c.reasoningClose
  | .toolCall => markerSuffixLen c.rawPending c.toolClose

/-- `apply_boundary`. -/
def applyBoundary (c : StreamClassifier) : Boundary → StreamClassifier
  | .reasoningOpen close =>
    { c with state := .reasoning, reasoningClose := close, reasoningPrefixPossible := false }
  | .reasoningClose =>
    { c with state := .text, reasoningClose := [], reasoningPrefixPossible := false }
  | .toolOpen => { c with state := .toolCall, reasoningPrefixPossible := false }
  | .toolClose => { c with state := .text, reasoningPrefixPossible := false }

/-- The `loop` of `push`; `none` when the fuel runs out. -/
def pushLoop : Nat → StreamClassifier → List ClassifiedText →
    Option (StreamClassifier × List ClassifiedText)
  | 0, _, _ => none
  | fuel + 1, c, output =>
    match c.findBoundary with
    | some (pos, marker, boundary) =>
      let split := splitDisplayAtMarker c.rawPending c.displayPending pos marker
      let output :=
        match boundary with
        | .reasoningOpen _ => output
        | _ => pushNonempty output c.state split.1
      let c' := applyBoundary
        { c with
          rawPending := c.rawPending.drop (pos + marker.length)
          displayPending := split.2 } boundary
      let output :=
        match boundary with
        | .toolOpen => output ++ [⟨.toolCall, []⟩]
        | _ => output
      pushLoop fuel c' output
    | none =>
      let retained := c.partialMarkerSuffixLen
      let safe := c.rawPending.length - retained
      if safe = 0 then some (c, output)
      else
        let split := splitDisplayForSafePrefix c.rawPending c.displayPending safe
        let safeRaw := c.rawPending.take safe
        let output := pushNonempty output c.state split.1
        let c' :=
          { c with
            rawPending := c.rawPending.drop safe
            displayPending := split.2
            reasoningPrefixPossible :=
              if c.state = .text ∧ trim safeRaw ≠ [] then false else c.reasoningPrefixPossible }
        if retained = 0 then some (c', output) else pushLoop fuel c' output

/-- `push`: consume corresponding raw and display-decoded text. -/
def push (c : StreamClassifier) (raw display : Str) :
    Option (StreamClassifier × List ClassifiedText) :=
  if c.deferUntilTerminal then some (c, [⟨.toolCall, display⟩])
  else
    let c' := { c with
      rawPending := c.rawPending ++ raw
      displayPending := c.displayPending ++ display }
    pushLoop (c'.rawPending.length + 2) c' []

/-- `finish`: flush a terminal partial marker as ordinary span text. -/
def finish (c : StreamClassifier) : StreamClassifier × List ClassifiedText :=
  if c.deferUntilTerminal then (c, [])
  else
    ({ c with
        rawPending := []
        displayPending := []
        reasoningPrefixPossible :=
          if c.state = .text ∧ trim c.rawPending ≠ [] then false else c.reasoningPrefixPossible },
      pushNonempty [] c.state c.displayPending)

/-- Push every piece, then finish: the segments in order. -/
def run (c : StreamClassifier) : List (Str × Str) → Option (List ClassifiedText)
  | [] => some c.finish.2
  | (raw, display) :: pieces =>
    match c.push raw display with
    | none => none
    | some (c', output) => (run c' pieces).map (output ++ ·)

end StreamClassifier

/-- The segments of a whole reply. -/
def classify (toolFormat : ToolCallFormat) (pieces : List (Str × Str)) :
    Option (List ClassifiedText) :=
  (StreamClassifier.new toolFormat).run pieces

/-- The concatenated segments of one kind. -/
def segments (kind : TokenKind) : List ClassifiedText → Str
  | [] => []
  | segment :: rest => (if segment.kind = kind then segment.text else []) ++ segments kind rest

/-! ## Segments -/

@[simp] theorem segments_nil (kind : TokenKind) : segments kind [] = [] := rfl

@[simp] theorem segments_append (kind : TokenKind) (a b : List ClassifiedText) :
    segments kind (a ++ b) = segments kind a ++ segments kind b := by
  induction a with
  | nil => rfl
  | cons x a ih => simp [segments, ih]

/-- Merging does not change the concatenation. -/
@[simp] theorem segments_pushNonempty (kind k : TokenKind) (output : List ClassifiedText)
    (text : Str) : segments kind (pushNonempty output k text) =
      segments kind output ++ if k = kind then text else [] := by
  unfold pushNonempty
  split
  · rename_i h; simp [h]
  · split
    · rename_i last hlast
      split
      · rename_i hk
        have hout : output = output.dropLast ++ [last] :=
          (List.dropLast_append_getLast? last hlast).symm
        conv_rhs => rw [hout]
        by_cases hkind : k = kind <;> simp [segments, hk, hkind]
      · simp [segments]
    · simp [segments]

/-! ## Fuel -/

namespace StreamClassifier

/-- The markers that the current state searches for are not empty. -/
structure WellFormed (c : StreamClassifier) : Prop where
  reasoning : c.state = .reasoning → c.reasoningClose ≠ []
  toolCall : c.state = .toolCall → c.toolClose ≠ []
  closes : c.toolOpen ≠ [] → c.toolClose ≠ []

theorem new_wellFormed (toolFormat : ToolCallFormat) : (new toolFormat).WellFormed := by
  cases toolFormat <;> constructor <;> decide

theorem seedReasoning_wellFormed {c : StreamClassifier} (h : c.WellFormed) {close : Str}
    (hc : close ≠ []) : (c.seedReasoning close).WellFormed :=
  ⟨fun _ => hc, (fun hs => by cases hs), h.closes⟩

theorem chooseEarlier_mem {found : Option (Nat × Str × Boundary)} {pos : Nat} {marker : Str}
    {boundary : Boundary} {r : Nat × Str × Boundary}
    (h : chooseEarlier found pos marker boundary = some r) :
    r = (pos, marker, boundary) ∨ found = some r := by
  unfold chooseEarlier at h
  split at h
  · exact Or.inl (Option.some.inj h).symm
  · split at h
    · exact Or.inl (Option.some.inj h).symm
    · exact Or.inr h

theorem reasoningOpeners_mem {candidate : Str} {leading : Nat} {r : Nat × Str × Boundary} :
    ∀ {pairs : List (Str × Str)} {found : Option (Nat × Str × Boundary)},
      reasoningOpeners candidate leading pairs found = some r →
      found = some r ∨ ∃ pair ∈ pairs, pair.1 <+: candidate ∧
        r = (leading, pair.1, .reasoningOpen pair.2)
  | [], _, h => Or.inl h
  | (opener, close) :: pairs, found, h => by
    unfold reasoningOpeners at h
    rcases reasoningOpeners_mem h with hf | ⟨pair, hp, hr⟩
    · split at hf
      · rename_i hpre
        rcases chooseEarlier_mem hf with rfl | hf
        · exact Or.inr ⟨_, List.mem_cons_self, hpre, rfl⟩
        · exact Or.inl hf
      · exact Or.inl hf
    · exact Or.inr ⟨pair, List.mem_cons_of_mem _ hp, hr⟩

/-- A boundary lies inside the pending text and the state it leads to is well formed. -/
theorem findBoundary_spec {c : StreamClassifier} (hw : c.WellFormed) {pos : Nat} {marker : Str}
    {boundary : Boundary} (h : c.findBoundary = some (pos, marker, boundary)) (raw display : Str) :
    marker ≠ [] ∧ pos + marker.length ≤ c.rawPending.length ∧
      (applyBoundary { c with rawPending := raw, displayPending := display } boundary).WellFormed := by
  unfold findBoundary at h
  split at h
  · -- the opener of a reasoning span or of a tool call
    have hopen : ∀ found : Option (Nat × Str × Boundary),
        (found = if c.reasoningPrefixPossible then
          match prefixCandidate c.rawPending with
          | some candidate =>
            reasoningOpeners candidate (c.rawPending.length - candidate.length) MARKER_PAIRS none
          | none => none
        else none) → found = some (pos, marker, boundary) →
        marker ≠ [] ∧ pos + marker.length ≤ c.rawPending.length ∧
          (applyBoundary { c with rawPending := raw, displayPending := display }
            boundary).WellFormed := by
      intro found hfound hsome
      rw [hsome] at hfound
      split at hfound
      · split at hfound
        · rename_i candidate hc
          rcases reasoningOpeners_mem hfound.symm with hf | ⟨pair, hp, hpre, hr⟩
          · cases hf
          · cases hr
            obtain ⟨rfl, -⟩ := prefixCandidate_eq_some.1 hc
            have hlen := congrArg List.length (takeWhile_append_trimStart c.rawPending)
            have hle := hpre.length_le
            rw [List.length_append] at hlen
            exact ⟨(MARKER_PAIRS_nonempty hp).1, by omega,
              ⟨fun _ => (MARKER_PAIRS_nonempty hp).2, (fun hs => by cases hs), hw.closes⟩⟩
        · cases hfound
      · cases hfound
    dsimp only at h
    split at h
    · rename_i htool
      split at h
      · rename_i p hf
        rcases chooseEarlier_mem h with hr | hf'
        · cases hr
          exact ⟨htool, find_le hf,
            ⟨(fun hs => by cases hs), fun _ => hw.closes htool, hw.closes⟩⟩
        · exact hopen _ rfl hf'
      · exact hopen _ rfl h
    · exact hopen _ rfl h
  · rename_i hs
    obtain ⟨p, hf, hr⟩ := Option.map_eq_some_iff.1 h
    cases hr
    exact ⟨hw.reasoning hs, find_le hf,
      ⟨(fun hs => by cases hs), (fun hs => by cases hs), hw.closes⟩⟩
  · rename_i hs
    obtain ⟨p, hf, hr⟩ := Option.map_eq_some_iff.1 h
    cases hr
    exact ⟨hw.toolCall hs, find_le hf,
      ⟨(fun hs => by cases hs), (fun hs => by cases hs), hw.closes⟩⟩

/-- Every iteration that goes on shortens the pending text. -/
theorem pushLoop_total {fuel : Nat} {c : StreamClassifier} (hw : c.WellFormed)
    (hf : c.rawPending.length < fuel) (output : List ClassifiedText) :
    ∃ c' output', pushLoop fuel c output = some (c', output') ∧ c'.WellFormed := by
  induction fuel generalizing c output with
  | zero => omega
  | succ fuel ih =>
    unfold pushLoop
    split
    · rename_i pos marker boundary hb
      obtain ⟨hm, hle, hw'⟩ := findBoundary_spec hw hb
        (c.rawPending.drop (pos + marker.length))
        (splitDisplayAtMarker c.rawPending c.displayPending pos marker).2
      have hpos := List.length_pos_iff.2 hm
      refine ih hw' ?_ _
      have hraw : ∀ (c : StreamClassifier) (b : Boundary),
          (c.applyBoundary b).rawPending = c.rawPending := by
        intro c b; cases b <;> rfl
      rw [hraw, List.length_drop]
      omega
    · dsimp only
      split
      · exact ⟨_, _, rfl, hw⟩
      · split
        · exact ⟨_, _, rfl, ⟨hw.reasoning, hw.toolCall, hw.closes⟩⟩
        · apply ih
          · exact ⟨hw.reasoning, hw.toolCall, hw.closes⟩
          · simp only [List.length_drop]
            omega

/-- No push runs out of fuel. -/
theorem push_total {c : StreamClassifier} (hw : c.WellFormed) (raw display : Str) :
    ∃ c' output, c.push raw display = some (c', output) ∧ c'.WellFormed := by
  unfold push
  split
  · exact ⟨_, _, rfl, hw⟩
  · apply pushLoop_total
    · exact ⟨hw.reasoning, hw.toolCall, hw.closes⟩
    · dsimp only
      omega

theorem run_total {c : StreamClassifier} (hw : c.WellFormed) (pieces : List (Str × Str)) :
    ∃ output, c.run pieces = some output := by
  induction pieces generalizing c with
  | nil => exact ⟨_, rfl⟩
  | cons piece pieces ih =>
    obtain ⟨c', output, hp, hw'⟩ := push_total hw piece.1 piece.2
    obtain ⟨rest, hr⟩ := ih hw'
    refine ⟨output ++ rest, ?_⟩
    unfold run
    rw [hp]
    simp [hr]

end StreamClassifier

/-- Every reply is classified, in every format. -/
theorem classify_total (toolFormat : ToolCallFormat) (pieces : List (Str × Str)) :
    ∃ output, classify toolFormat pieces = some output :=
  StreamClassifier.run_total (StreamClassifier.new_wellFormed toolFormat) pieces

end Emelex
