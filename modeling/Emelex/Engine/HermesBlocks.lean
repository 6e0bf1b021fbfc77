import Emelex.Engine.ToolExtraction

/-!
# Hermes calls read back

The scanner takes the first end marker behind an opening one, wherever it stands, before it looks
at the JSON between them.

* `HermesCall` — a call as a model writes it, with the object that its text stands for.

Principal results: `parseHermes_of_plain`, `parseHermes_of_marker` and `hermes_round_trip_iff` (a
call reads back exactly when no end marker stands in it).
-/

set_option autoImplicit false

namespace Emelex

open Text ToolSchema

variable {fromStr : Str → Option Json}

/-- A Hermes call between prose: the text of its object, and what that text reads as. -/
structure HermesCall (fromStr : Str → Option Json) where
  name : String
  arguments : Fields
  before : Str
  payload : Str
  after : Str
  validName : validToolName name.toList = true
  count : arguments.length ≤ MAX_TOOL_ARGUMENTS
  beforeProse : ¬ BLOCK_OPEN <:+: before
  afterProse : ¬ BLOCK_OPEN <:+: after
  /-- The text is an object, without white space around it. -/
  brace : ['{'] <+: payload
  trimmed : trim payload = payload
  reads : parseStrictJson fromStr payload =
    some (.object [("name", .string name), ("arguments", .object arguments)])

namespace HermesCall

/-- The text of a call, with the prose. -/
def text (call : HermesCall fromStr) : Str :=
  call.before ++ (BLOCK_OPEN ++ (call.payload ++ (BLOCK_CLOSE ++ call.after)))

/-- The proposal that the text stands for. -/
def proposal (call : HermesCall fromStr) : ToolProposal where
  name := call.name
  arguments := .object call.arguments
  span := ⟨call.before.length,
    call.before.length + BLOCK_OPEN.length + call.payload.length + BLOCK_CLOSE.length⟩

variable (call : HermesCall fromStr)

theorem payload_eq : parseHermesPayload fromStr (trim call.payload) =
    some (call.name, .object call.arguments) := by
  have hname : validToolName call.name.toList = true := call.validName
  have hcount : decide (call.arguments.length ≤ MAX_TOOL_ARGUMENTS) = true :=
    decide_eq_true call.count
  unfold parseHermesPayload parseJsonCall
  rw [call.trimmed, if_pos call.brace, call.reads]
  show (if ([] : Fields).isEmpty && validToolName call.name.toList &&
    decide (call.arguments.length ≤ MAX_TOOL_ARGUMENTS) then _ else _) = _
  rw [hname, hcount]
  rfl

theorem find_open : find BLOCK_OPEN call.text = some call.before.length :=
  find_append_marker (by decide) call.beforeProse _

theorem drop_open : call.text.drop (call.before.length + BLOCK_OPEN.length) =
    call.payload ++ (BLOCK_CLOSE ++ call.after) := by
  unfold text
  rw [← List.append_assoc, ← List.length_append, List.drop_left]

/-- Without an end marker in its object a call reads back. -/
theorem parseHermes_of_plain (h : ¬ BLOCK_CLOSE <:+: call.payload) :
    parseHermes fromStr call.text = [call.proposal] := by
  have hclose : find BLOCK_CLOSE (call.payload ++ (BLOCK_CLOSE ++ call.after)) =
      some call.payload.length := find_append_marker (by decide) h _
  have hend : find BLOCK_OPEN (call.text.drop (call.before.length + BLOCK_OPEN.length +
      call.payload.length + BLOCK_CLOSE.length)) = none := by
    rw [Nat.add_assoc, ← List.drop_drop, call.drop_open, ← List.append_assoc, ← List.length_append,
      List.drop_left]
    exact Option.not_isSome_iff_eq_none.1 fun hsome => call.afterProse (find_isSome.1 hsome)
  unfold parseHermes
  show parseBlocksFrom _ _ (255 + 1) 64 0 = _
  rw [parseBlocksFrom, if_neg (by decide), List.drop_zero, call.find_open]
  dsimp only
  rw [Nat.zero_add, call.drop_open, hclose]
  dsimp only
  rw [List.take_left, call.payload_eq]
  dsimp only
  show _ :: parseBlocksFrom _ _ (254 + 1) 63 _ = _
  rw [parseBlocksFrom, if_neg (by decide), hend]
  rfl

/-- With an end marker in its object a call does not: the block ends at the first one. -/
theorem parseHermes_of_marker (h : BLOCK_CLOSE <:+: call.payload) :
    parseHermes fromStr call.text ≠ [call.proposal] := by
  obtain ⟨blockEnd, hfind⟩ := Option.isSome_iff_exists.1 (find_isSome.2 h)
  have hle := find_le hfind
  have hmarker : BLOCK_CLOSE.length = 12 := rfl
  have hclose : find BLOCK_CLOSE (call.payload ++ (BLOCK_CLOSE ++ call.after)) = some blockEnd :=
    find_append_left hfind _
  have htext : call.text.length = call.before.length + BLOCK_OPEN.length + call.payload.length +
      BLOCK_CLOSE.length + call.after.length := by
    unfold text
    simp only [List.length_append]
    omega
  obtain ⟨hspaced, -⟩ := parseBlocksFrom_spaced
    (fun payload => parseHermesPayload fromStr (trim payload)) call.text 255 64
    (call.before.length + BLOCK_OPEN.length + blockEnd + BLOCK_CLOSE.length) (by omega)
  unfold parseHermes
  show parseBlocksFrom _ _ (255 + 1) 64 0 ≠ _
  rw [parseBlocksFrom, if_neg (by decide), List.drop_zero, call.find_open]
  dsimp only
  rw [Nat.zero_add, call.drop_open, hclose]
  dsimp only
  cases parseHermesPayload fromStr
      (trim ((call.payload ++ (BLOCK_CLOSE ++ call.after)).take blockEnd)) with
  | none =>
    intro heq
    dsimp only at heq
    have hstart := (hspaced.bounds call.proposal (by rw [heq]; exact List.mem_singleton.2 rfl)).1
    have hspan : call.proposal.span.start = call.before.length := rfl
    omega
  | some found =>
    intro heq
    have hspan := congrArg (fun p => p.span.stop) (List.cons.inj heq).1
    have hstop : call.proposal.span.stop = call.before.length + BLOCK_OPEN.length +
        call.payload.length + BLOCK_CLOSE.length := rfl
    dsimp only at hspan
    omega

end HermesCall

/-- A call reads back as the one proposal of its text exactly when the text of its object holds no
end marker, in a string or in a key. -/
theorem hermes_round_trip_iff (call : HermesCall fromStr) :
    parseHermes fromStr call.text = [call.proposal] ↔ ¬ BLOCK_CLOSE <:+: call.payload := by
  constructor
  · intro heq h
    exact call.parseHermes_of_marker h heq
  · exact call.parseHermes_of_plain

/-- The text of an object whose string argument is an end marker. -/
def markerPayload : Str :=
  "\x7b\x22name\x22:\x22f\x22,\x22arguments\x22:\x7b\x22x\x22:\x22</tool_call>\x22\x7d\x7d".toList

/-- What it reads as. -/
def markerObject : Json :=
  .object [("name", .string "f"), ("arguments", .object [("x", .string "</tool_call>")])]

/-- The call with this object and no prose. -/
def markerCall : HermesCall fun raw => if raw = markerPayload then some markerObject else none where
  name := "f"
  arguments := [("x", .string "</tool_call>")]
  before := []
  payload := markerPayload
  after := []
  validName := by decide
  count := by decide
  beforeProse := by decide
  afterProse := by decide
  brace := by decide
  trimmed := by decide
  reads := by
    unfold parseStrictJson
    dsimp only
    rw [if_pos rfl]
    rfl

/-- A string argument ends the block, and the call is not found. -/
theorem hermes_argument_ends_block :
    parseHermes (fun raw => if raw = markerPayload then some markerObject else none)
      markerCall.text ≠ [markerCall.proposal] := by
  have hfind : (find BLOCK_CLOSE markerPayload).isSome = true := by decide
  exact markerCall.parseHermes_of_marker (find_isSome.1 hfind)

end Emelex
