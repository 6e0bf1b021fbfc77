import Emelex.Engine.GemmaProgress

/-!
# Extraction conserves the text

* `Spaced` — proposals that follow one another inside a text.
* `weave` — gaps with pieces between them.

Principal results: `parseToolProposals_spaced` (every format finds its proposals in order, apart
and inside the text), `stripSpansFrom_eq` (what is stripped is exactly the accepted proposals) and
`extraction_conserves`.
-/

set_option autoImplicit false

namespace Emelex

open Text ToolSchema

variable {fromStr : Str → Option Json} {text : Str}

/-! ## Spans -/

/-- Proposals one after another, from `lower` on. -/
def Spaced (text : Str) : Nat → List ToolProposal → Prop
  | _, [] => True
  | lower, p :: ps =>
    lower ≤ p.span.start ∧ p.span.start ≤ p.span.stop ∧ p.span.stop ≤ text.length ∧
      Spaced text p.span.stop ps

theorem Spaced.mono {lower lower' : Nat} {ps : List ToolProposal} (h : Spaced text lower' ps)
    (hle : lower ≤ lower') : Spaced text lower ps := by
  cases ps with
  | nil => trivial
  | cons p ps => exact ⟨hle.trans h.1, h.2⟩

/-- Some of the proposals are spaced as well. -/
theorem Spaced.filter {lower : Nat} {ps : List ToolProposal} (h : Spaced text lower ps)
    (accepted : ToolProposal → Bool) : Spaced text lower (ps.filter accepted) := by
  induction ps generalizing lower with
  | nil => trivial
  | cons p ps ih =>
    obtain ⟨hlower, hspan, hbound, hrest⟩ := h
    rw [List.filter_cons]
    split
    · exact ⟨hlower, hspan, hbound, ih hrest⟩
    · exact (ih hrest).mono (hlower.trans hspan)

theorem Spaced.bounds {lower : Nat} {ps : List ToolProposal} (h : Spaced text lower ps) :
    ∀ p ∈ ps, lower ≤ p.span.start ∧ p.span.start ≤ p.span.stop ∧ p.span.stop ≤ text.length := by
  induction ps generalizing lower with
  | nil => simp
  | cons p ps ih =>
    obtain ⟨hlower, hspan, hbound, hrest⟩ := h
    refine List.forall_mem_cons.2 ⟨⟨hlower, hspan, hbound⟩, fun q hq => ?_⟩
    obtain ⟨hq₁, hq₂⟩ := ih hrest q hq
    exact ⟨(hlower.trans hspan).trans hq₁, hq₂⟩

/-- Spans of at least one character that are spaced increase strictly. -/
theorem Spaced.increasing {lower : Nat} {ps : List ToolProposal} (h : Spaced text lower ps)
    (hpos : ∀ p ∈ ps, p.span.start < p.span.stop) :
    ps.Pairwise fun a b => a.span.start < b.span.start ∧ a.span.stop ≤ b.span.start := by
  induction ps generalizing lower with
  | nil => exact List.Pairwise.nil
  | cons p ps ih =>
    obtain ⟨hlower, hspan, hbound, hrest⟩ := h
    have hp := hpos p List.mem_cons_self
    refine List.pairwise_cons.2 ⟨fun q hq => ?_, ih hrest fun q hq => hpos q (List.mem_cons_of_mem _ hq)⟩
    have hq := (hrest.bounds q hq).1
    exact ⟨hp.trans_le hq, hq⟩

/-! ## Gaps and pieces -/

/-- The text of a span. -/
def source (text : Str) (p : ToolProposal) : Str := (text.take p.span.stop).drop p.span.start

/-- Gaps with pieces between them. -/
def weave : List Str → List Str → Str
  | [], _ => []
  | gap :: _, [] => gap
  | gap :: gaps, piece :: pieces => gap ++ piece ++ weave gaps pieces

/-- What lies before, between and behind the spans, from `lower` on. -/
def gapsOf (text : Str) : Nat → List ToolProposal → List Str
  | lower, [] => [text.drop lower]
  | lower, p :: ps => (text.take p.span.start).drop lower :: gapsOf text p.span.stop ps

theorem gapsOf_length (text : Str) (lower : Nat) (ps : List ToolProposal) :
    (gapsOf text lower ps).length = ps.length + 1 := by
  induction ps generalizing lower with
  | nil => rfl
  | cons p ps ih => rw [gapsOf, List.length_cons, ih, List.length_cons]

theorem weave_nil_pieces (gaps : List Str) (n : Nat) (h : gaps.length = n + 1) :
    weave gaps (List.replicate n []) = gaps.flatten := by
  induction n generalizing gaps with
  | zero =>
    obtain ⟨gap, rfl⟩ := List.length_eq_one_iff.1 h
    simp [weave]
  | succ n ih =>
    obtain ⟨gap, gaps, rfl⟩ := List.exists_cons_of_length_eq_add_one h
    rw [List.replicate_succ, weave, ih gaps (Nat.succ.inj h), List.append_nil, List.flatten_cons]

/-- Two pieces of a text that touch. -/
theorem slice_append {a b c : Nat} (hab : a ≤ b) (hbc : b ≤ c) (text : Str) :
    (text.take b).drop a ++ (text.take c).drop b = (text.take c).drop a := by
  have htake : text.take b = (text.take c).take b := by
    rw [List.take_take, Nat.min_eq_left hbc]
  rw [htake]
  generalize text.take c = text
  rw [List.drop_take]
  have hdrop : text.drop b = (text.drop a).drop (b - a) := by
    rw [List.drop_drop, Nat.add_sub_cancel' hab]
  rw [hdrop, List.take_append_drop]

theorem slice_append_drop {a b : Nat} (hab : a ≤ b) (text : Str) :
    (text.take b).drop a ++ text.drop b = text.drop a := by
  rw [List.drop_take]
  have hdrop : text.drop b = (text.drop a).drop (b - a) := by
    rw [List.drop_drop, Nat.add_sub_cancel' hab]
  rw [hdrop, List.take_append_drop]

/-- The text is its gaps and its spans. -/
theorem weave_gapsOf {lower : Nat} {ps : List ToolProposal} (h : Spaced text lower ps) :
    weave (gapsOf text lower ps) (ps.map (source text)) = text.drop lower := by
  induction ps generalizing lower with
  | nil => rfl
  | cons p ps ih =>
    obtain ⟨hlower, hspan, hbound, hrest⟩ := h
    rw [gapsOf, List.map_cons, weave, ih hrest, source, slice_append hlower hspan,
      slice_append_drop (hlower.trans hspan)]

/-- Stripping the accepted spans leaves the gaps and the spans that are not accepted. -/
theorem stripSpansFrom_eq {lower copiedThrough : Nat} {ps : List ToolProposal}
    (h : Spaced text lower ps) (hle : copiedThrough ≤ lower) (accepted : ToolProposal → Bool) :
    stripSpansFrom text copiedThrough ((ps.filter accepted).map ToolProposal.span) =
      (text.take lower).drop copiedThrough ++
        weave (gapsOf text lower ps) (ps.map fun p => if accepted p then [] else source text p) := by
  induction ps generalizing lower copiedThrough with
  | nil => exact (slice_append_drop hle text).symm
  | cons p ps ih =>
    obtain ⟨hlower, hspan, hbound, hrest⟩ := h
    rw [List.filter_cons, gapsOf, List.map_cons, weave, ← List.append_assoc, ← List.append_assoc,
      slice_append hle hlower]
    by_cases hp : accepted p
    · have hempty : (text.take p.span.stop).drop p.span.stop = [] :=
        List.drop_eq_nil_of_le (List.length_take_le _ _)
      rw [if_pos hp, if_pos hp, List.map_cons, stripSpansFrom, if_neg (by omega),
        ih hrest (Nat.le_refl _), hempty, List.append_nil, List.nil_append]
    · rw [if_neg hp, if_neg hp, ih hrest ((hle.trans hlower).trans hspan), source,
        slice_append (hle.trans hlower) hspan]

theorem stripSpans_eq {ps : List ToolProposal} (h : Spaced text 0 ps)
    (accepted : ToolProposal → Bool) :
    stripSpans text ((ps.filter accepted).map ToolProposal.span) =
      weave (gapsOf text 0 ps) (ps.map fun p => if accepted p then [] else source text p) := by
  have heq := stripSpansFrom_eq h (Nat.le_refl 0) accepted
  rw [List.take_zero, List.drop_zero, List.nil_append] at heq
  rw [← heq]
  unfold stripSpans
  split
  · rename_i hnil
    rw [List.isEmpty_iff.1 hnil, stripSpansFrom, List.drop_zero]
  · rfl

/-! ## The formats -/

theorem parseBlocksFrom_spaced (parsePayload : Str → Option (String × Json)) (text : Str)
    (markers calls cursor : Nat) (hcursor : cursor ≤ text.length) :
    Spaced text cursor (parseBlocksFrom parsePayload text markers calls cursor) ∧
      ∀ p ∈ parseBlocksFrom parsePayload text markers calls cursor,
        p.span.start < p.span.stop := by
  induction markers generalizing calls cursor with
  | zero => exact ⟨trivial, fun p hp => by cases hp⟩
  | succ markers ih =>
    unfold parseBlocksFrom
    split
    · exact ⟨trivial, fun p hp => by cases hp⟩
    · cases hopen : find BLOCK_OPEN (text.drop cursor) with
      | none => exact ⟨trivial, fun p hp => by cases hp⟩
      | some relativeStart =>
        dsimp only
        cases hclose : find BLOCK_CLOSE
            (text.drop (cursor + relativeStart + BLOCK_OPEN.length)) with
        | none => exact ⟨trivial, fun p hp => by cases hp⟩
        | some blockEnd =>
          have hopenLen := find_le hopen
          have hcloseLen := find_le hclose
          rw [List.length_drop] at hopenLen hcloseLen
          have hmarker : 0 < BLOCK_OPEN.length := by decide
          have hend : cursor + relativeStart + BLOCK_OPEN.length + blockEnd + BLOCK_CLOSE.length ≤
              text.length := by omega
          dsimp only
          cases parsePayload ((text.drop (cursor + relativeStart + BLOCK_OPEN.length)).take
              blockEnd) with
          | none =>
            obtain ⟨hspaced, hpos⟩ := ih calls _ hend
            exact ⟨hspaced.mono (by omega), hpos⟩
          | some call =>
            obtain ⟨name, arguments⟩ := call
            obtain ⟨hspaced, hpos⟩ := ih (calls - 1) _ hend
            refine ⟨⟨?_, ?_, hend, hspaced⟩, List.forall_mem_cons.2 ⟨?_, hpos⟩⟩
            · exact Nat.le_add_right _ _
            · dsimp only
              omega
            · dsimp only
              omega

theorem parseGemmaFrom_spaced (text : Str) (markers calls cursor : Nat)
    (hcursor : cursor ≤ text.length) :
    Spaced text cursor (parseGemmaFrom fromStr text markers calls cursor) ∧
      ∀ p ∈ parseGemmaFrom fromStr text markers calls cursor, p.span.start < p.span.stop := by
  induction markers generalizing calls cursor with
  | zero => exact ⟨trivial, fun p hp => by cases hp⟩
  | succ markers ih =>
    unfold parseGemmaFrom
    split
    · exact ⟨trivial, fun p hp => by cases hp⟩
    · cases hopen : find GEMMA_OPEN (text.drop cursor) with
      | none => exact ⟨trivial, fun p hp => by cases hp⟩
      | some relativeStart =>
        have hopenLen := find_le hopen
        rw [List.length_drop] at hopenLen
        have hmarker : 0 < GEMMA_OPEN.length := by decide
        dsimp only
        cases hblock : parseGemmaBlock fromStr
            (text.drop (cursor + relativeStart + GEMMA_OPEN.length)) with
        | none =>
          obtain ⟨hspaced, hpos⟩ := ih calls (cursor + relativeStart + GEMMA_OPEN.length) (by omega)
          exact ⟨hspaced.mono (by omega), hpos⟩
        | some block =>
          obtain ⟨name, arguments, afterClose⟩ := block
          have hshort := (parseGemmaBlock_suffix hblock).2
          rw [List.length_drop] at hshort
          obtain ⟨hspaced, hpos⟩ := ih (calls - 1) (text.length - afterClose.length) (by omega)
          refine ⟨⟨?_, ?_, Nat.sub_le _ _, hspaced⟩, List.forall_mem_cons.2 ⟨?_, hpos⟩⟩
          · exact Nat.le_add_right _ _
          · dsimp only
            omega
          · dsimp only
            omega

theorem trim_length_le (text : Str) : (trim text).length ≤ (trimStart text).length := by
  unfold trim trimEnd
  rw [List.length_reverse]
  exact (List.dropWhile_suffix _).length_le.trans_eq List.length_reverse

/-- Every format finds its proposals in order, apart and inside the text. -/
theorem parseToolProposals_spaced (fromStr : Str → Option Json) (text : Str)
    (format : ToolCallFormat) :
    Spaced text 0 (parseToolProposals fromStr text format) ∧
      (parseToolProposals fromStr text format).Pairwise fun a b =>
        a.span.start < b.span.start ∧ a.span.stop ≤ b.span.start := by
  cases format with
  | hermes =>
    obtain ⟨hspaced, hpos⟩ := parseBlocksFrom_spaced
      (fun payload => parseHermesPayload fromStr (trim payload)) text MAX_TOOL_MARKERS
      MAX_TOOL_CALLS 0 (Nat.zero_le _)
    exact ⟨hspaced, hspaced.increasing hpos⟩
  | laguna =>
    obtain ⟨hspaced, hpos⟩ := parseBlocksFrom_spaced (parseLagunaPayload fromStr) text
      MAX_TOOL_MARKERS MAX_TOOL_CALLS 0 (Nat.zero_le _)
    exact ⟨hspaced, hspaced.increasing hpos⟩
  | gemma =>
    obtain ⟨hspaced, hpos⟩ := @parseGemmaFrom_spaced fromStr text MAX_TOOL_MARKERS
      MAX_TOOL_CALLS 0 (Nat.zero_le _)
    exact ⟨hspaced, hspaced.increasing hpos⟩
  | llamaJson =>
    show Spaced text 0 (parseLlamaJson fromStr text) ∧ _
    unfold parseToolProposals parseLlamaJson
    dsimp only
    cases parseLlamaJsonFields fromStr (trim text) with
    | none => exact ⟨trivial, List.Pairwise.nil⟩
    | some call =>
      have htrim := trim_length_le text
      have hstart := (List.dropWhile_suffix (l := text) isWhitespace).length_le
      refine ⟨⟨Nat.zero_le _, Nat.le_add_right _ _, ?_, trivial⟩, List.pairwise_singleton _ _⟩
      show text.length - (trimStart text).length + (trim text).length ≤ text.length
      unfold trimStart at htrim ⊢
      omega
  | none => exact ⟨trivial, List.Pairwise.nil⟩

/-! ## Calls -/

theorem advertised_of_valid {tools : List Tool} {p : ToolProposal}
    (h : proposalIsAdvertisedAndValid tools p = true) :
    ∃ tool, advertising p.name tools = [tool] ∧
      validateToolSchema tool.function.parameters = .ok () ∧
      argumentsSatisfySchema tool.function.parameters p.arguments = true := by
  unfold proposalIsAdvertisedAndValid at h
  split at h
  · rename_i tool htool
    rw [Bool.and_eq_true, Bool.and_eq_true] at h
    refine ⟨tool, htool, ?_, h.2⟩
    cases hv : validateToolSchema tool.function.parameters with
    | error e =>
      rw [hv] at h
      exact absurd h.1.2 Bool.false_ne_true
    | ok u => rfl
  · cases h

theorem intoCalls_map (counter : Nat) (ps : List ToolProposal) :
    (intoCalls counter ps).map (fun call => (call.name, call.arguments)) =
      ps.map fun p => (p.name, p.arguments) := by
  induction ps generalizing counter with
  | nil => rfl
  | cons p ps ih => rw [intoCalls, List.map_cons, List.map_cons, ih]

/-- For every text, format and tool list: the proposals stand in the text in order and apart; the
text is the visible text with the spans of the returned calls woven in; the visible text is the
text without these spans and with every other proposal in its place; and every returned call is
advertised by one function tool, whose schema is valid and accepts its arguments. -/
theorem extraction_conserves (fromStr : Str → Option Json) (counter : Nat) (text : Str)
    (format : ToolCallFormat) (tools : List Tool) :
    let proposals := parseToolProposals fromStr text format
    let accepted := proposals.filter (proposalIsAdvertisedAndValid tools)
    let result := parseAndStripToolCalls fromStr counter text format tools
    ((∀ p ∈ proposals, p.span.start ≤ p.span.stop ∧ p.span.stop ≤ text.length) ∧
      proposals.Pairwise fun a b => a.span.start < b.span.start ∧ a.span.stop ≤ b.span.start) ∧
    result.2.map (fun call => (call.name, call.arguments)) =
      accepted.map (fun p => (p.name, p.arguments)) ∧
    (∃ gaps : List Str, gaps.length = result.2.length + 1 ∧
      text = weave gaps (accepted.map (source text)) ∧ result.1 = gaps.flatten) ∧
    (∃ gaps : List Str, gaps.length = proposals.length + 1 ∧
      text = weave gaps (proposals.map (source text)) ∧
      result.1 = weave gaps (proposals.map fun p =>
        if proposalIsAdvertisedAndValid tools p then [] else source text p)) ∧
    ∀ call ∈ result.2, ∃ tool, advertising call.name tools = [tool] ∧
      validateToolSchema tool.function.parameters = .ok () ∧
      argumentsSatisfySchema tool.function.parameters call.arguments = true := by
  intro proposals accepted result
  obtain ⟨hspaced, hincreasing⟩ := parseToolProposals_spaced fromStr text format
  have hcalls : result.2.map (fun call => (call.name, call.arguments)) =
      accepted.map (fun p => (p.name, p.arguments)) := intoCalls_map counter accepted
  have hlen : result.2.length = accepted.length := by
    have h := congrArg List.length hcalls
    rwa [List.length_map, List.length_map] at h
  have haccepted : Spaced text 0 accepted := hspaced.filter _
  refine ⟨⟨fun p hp => (hspaced.bounds p hp).2, hincreasing⟩, hcalls, ?_, ?_, fun call hcall => ?_⟩
  · refine ⟨gapsOf text 0 accepted, by rw [gapsOf_length, hlen], ?_, ?_⟩
    · rw [weave_gapsOf haccepted, List.drop_zero]
    · have hall : accepted.filter (fun _ => true) = accepted := List.filter_true _
      have hstrip := stripSpans_eq haccepted fun _ => true
      rw [hall] at hstrip
      show stripSpans text (accepted.map ToolProposal.span) = _
      rw [hstrip]
      simp only [if_true, List.map_const']
      exact weave_nil_pieces _ _ (gapsOf_length _ _ _)
  · refine ⟨gapsOf text 0 proposals, gapsOf_length _ _ _, ?_, stripSpans_eq hspaced _⟩
    rw [weave_gapsOf hspaced, List.drop_zero]
  · have hmem : (call.name, call.arguments) ∈ accepted.map fun p => (p.name, p.arguments) := by
      rw [← hcalls]
      exact List.mem_map.2 ⟨call, hcall, rfl⟩
    obtain ⟨p, hp, heq⟩ := List.mem_map.1 hmem
    obtain ⟨hname, harguments⟩ := Prod.mk.inj heq
    rw [← hname, ← harguments]
    exact advertised_of_valid (List.mem_filter.1 hp).2

end Emelex
