import Emelex.Engine.ToolCalls

/-!
# The Gemma parser moves forward

Every step of the parser leaves a suffix of the text that it was given, and a value or a container
takes at least one character.

Principal results: `consumes_parseValue`, `consumes_parseObject` and `parseGemmaBlock_suffix` (a
call ends inside the text).
-/

set_option autoImplicit false

namespace Emelex

open Text ToolSchema

namespace GemmaParser

variable {fromStr : Str → Option Json}

/-- A step that goes on as another does on each state. -/
theorem Consumes.of_cases {α : Type} {n : Nat} {step : GemmaM α}
    (h : ∀ s, ∃ step', Consumes n step' ∧ step s = step' s) : Consumes n step := by
  intro s a s' hs
  obtain ⟨step', hstep', heq⟩ := h s
  rw [heq] at hs
  exact hstep' s a s' hs

theorem drop_consumes {s : GemmaParser} {n k : Nat} (h : n ≤ k) (hk : k ≤ s.rest.length) :
    s.rest.drop k <:+ s.rest ∧ (s.rest.drop k).length + n ≤ s.rest.length := by
  refine ⟨List.drop_suffix _ _, ?_⟩
  rw [List.length_drop]
  omega

theorem consumes_parseSpecialQuotedString : Consumes 1 parseSpecialQuotedString := by
  intro s value s' hs
  obtain ⟨rest, hrest, hs⟩ := Option.bind_eq_some_iff.1 hs
  obtain ⟨stop, hstop, hs⟩ := Option.bind_eq_some_iff.1 hs
  obtain ⟨-, rfl⟩ := Prod.mk.inj (Option.some.inj hs)
  have hle := find_le hstop
  have heq := stripPrefix_eq_some.1 hrest
  have hlen : s.rest.length = QUOTE.length + rest.length := by rw [heq, List.length_append]
  have hquote : QUOTE.length = 5 := rfl
  obtain ⟨hsuffix, hshort⟩ := drop_consumes (s := ⟨rest, 0⟩) (Nat.zero_le _) hle
  dsimp only at hsuffix hshort ⊢
  exact ⟨hsuffix.trans ⟨QUOTE, heq.symm⟩, by omega⟩

theorem parseQuotedTail_suffix (quote : Char) (value : Str) (s : GemmaParser) :
    ∀ result s', parseQuotedTail quote value s = some (result, s') →
      s'.rest <:+ s.rest ∧ s'.rest.length + 1 ≤ s.rest.length := by
  fun_induction parseQuotedTail quote value s with
  | case1 => intro result s' h; cases h
  | case2 value s rest hrest =>
    intro result s' h
    obtain ⟨-, rfl⟩ := Prod.mk.inj (Option.some.inj h)
    rw [hrest]
    exact ⟨List.suffix_cons _ _, Nat.le_refl _⟩
  | case3 => intro result s' h; cases h
  | case4 value s rest output s₁ hescape hrest hquote ih =>
    intro result s' h
    obtain ⟨hsuffix, hlen⟩ := ih result s' h
    obtain ⟨hsuffix₁, hlen₁⟩ := consumes_parseEscape _ _ _ hescape
    dsimp only at hsuffix₁ hlen₁
    rw [hrest, List.length_cons]
    exact ⟨(hsuffix.trans hsuffix₁).trans (List.suffix_cons _ _), by omega⟩
  | case5 => intro result s' h; cases h
  | case6 value s c rest hrest hquote hslash hcontrol ih =>
    intro result s' h
    obtain ⟨hsuffix, hlen⟩ := ih result s' h
    dsimp only at hsuffix hlen
    rw [hrest, List.length_cons]
    exact ⟨hsuffix.trans (List.suffix_cons _ _), by omega⟩

theorem consumes_parseQuotedString : Consumes 1 parseQuotedString :=
  consumes_advanceChar.bind (m := 0) fun quote s value s' hs => by
    obtain ⟨hsuffix, hlen⟩ := parseQuotedTail_suffix quote [] s value s' hs
    exact ⟨hsuffix, by omega⟩

theorem consumes_parseBareKey : Consumes 0 parseBareKey := by
  intro s key s' hs
  unfold parseBareKey at hs
  dsimp only at hs
  split at hs
  · cases hs
  · obtain ⟨-, rfl⟩ := Prod.mk.inj (Option.some.inj hs)
    exact drop_consumes (Nat.zero_le _) (List.takeWhile_prefix _).length_le

theorem consumes_parseKey : Consumes 0 parseKey := by
  refine consumes_skipWhitespace.bind (m := 0) fun _ => ?_
  refine Consumes.bind (n := 0) (m := 0) (Consumes.of_cases fun s => ?_) fun key => ?_
  · by_cases hquote : QUOTE <+: s.rest
    · exact ⟨_, consumes_parseSpecialQuotedString.mono (Nat.zero_le _), if_pos hquote⟩
    · by_cases hhead : s.rest.head? = some '"' ∨ s.rest.head? = some '\''
      · exact ⟨_, consumes_parseQuotedString.mono (Nat.zero_le _),
          (if_neg hquote).trans (if_pos hhead)⟩
      · exact ⟨_, consumes_parseBareKey, (if_neg hquote).trans (if_neg hhead)⟩
  · exact Consumes.ite (Consumes.pure _) Consumes.failure

theorem consumes_parseBareValue : Consumes 1 (parseBareValue fromStr) := by
  intro s value s' hs
  unfold parseBareValue at hs
  dsimp only at hs
  split at hs
  · cases hs
  · rename_i hraw
    obtain ⟨-, rfl⟩ := Prod.mk.inj (Option.some.inj hs)
    refine drop_consumes ?_ (List.takeWhile_prefix _).length_le
    refine List.length_pos_of_ne_nil fun hnil => hraw ?_
    rw [hnil]
    rfl

theorem consumes_parseItems {item : GemmaM Json} (h : Consumes 1 item) (left : Nat)
    (values : List Json) : Consumes 1 (parseItems item left values) := by
  induction left generalizing values with
  | zero => exact Consumes.failure
  | succ left ih =>
    unfold parseItems
    refine h.bind (m := 0) fun value => ?_
    refine consumes_skipWhitespace.bind (m := 0) fun _ => ?_
    refine (consumes_consumeIf _).bind (m := 0) fun closed => ?_
    refine Consumes.ite (Consumes.pure _) ?_
    refine ((consumes_consumeChar _).mono (Nat.zero_le _)).bind (m := 0) fun _ => ?_
    refine consumes_skipWhitespace.bind (m := 0) fun _ => ?_
    refine consumes_peekChar.bind (m := 0) fun next => ?_
    exact Consumes.ite Consumes.failure ((ih _).mono (Nat.zero_le _))

theorem consumes_parseArray {item : GemmaM Json} (h : Consumes 1 item) :
    Consumes 1 (parseArray item) := by
  refine (consumes_consumeChar _).bind (m := 0) fun _ => ?_
  refine consumes_skipWhitespace.bind (m := 0) fun _ => ?_
  refine (consumes_consumeIf _).bind (m := 0) fun closed => ?_
  exact Consumes.ite (Consumes.pure _) ((consumes_parseItems h _ _).mono (Nat.zero_le _))

theorem consumes_parseField {item : GemmaM Json} (h : Consumes 1 item) (object : Fields) :
    Consumes 1 (parseField item object) := by
  refine consumes_parseKey.bind (m := 1) fun key => ?_
  refine Consumes.ite Consumes.failure ?_
  refine consumes_skipWhitespace.bind (m := 1) fun _ => ?_
  refine (consumes_consumeChar _).bind (m := 0) fun _ => ?_
  refine consumes_skipWhitespace.bind (m := 0) fun _ => ?_
  refine (h.mono (Nat.zero_le _)).bind (m := 0) fun value => ?_
  exact consumes_skipWhitespace.bind (m := 0) fun _ => Consumes.pure _

theorem consumes_parseFields {item : GemmaM Json} (h : Consumes 1 item) (left : Nat)
    (object : Fields) : Consumes 1 (parseFields item left object) := by
  induction left generalizing object with
  | zero => exact Consumes.failure
  | succ left ih =>
    unfold parseFields
    refine (consumes_parseField h object).bind (m := 0) fun field => ?_
    refine (consumes_consumeIf _).bind (m := 0) fun closed => ?_
    refine Consumes.ite (Consumes.pure _) ?_
    refine ((consumes_consumeChar _).mono (Nat.zero_le _)).bind (m := 0) fun _ => ?_
    refine consumes_skipWhitespace.bind (m := 0) fun _ => ?_
    refine consumes_peekChar.bind (m := 0) fun next => ?_
    exact Consumes.ite Consumes.failure ((ih _).mono (Nat.zero_le _))

theorem consumes_parseObject {item : GemmaM Json} (h : Consumes 1 item) :
    Consumes 1 (parseObject item) := by
  refine (consumes_consumeChar _).bind (m := 0) fun _ => ?_
  refine consumes_skipWhitespace.bind (m := 0) fun _ => ?_
  refine (consumes_consumeIf _).bind (m := 0) fun closed => ?_
  exact Consumes.ite (Consumes.pure _) ((consumes_parseFields h _ _).mono (Nat.zero_le _))

theorem consumes_countNode : Consumes 0 countNode := by
  intro s a s' hs
  unfold countNode at hs
  split at hs
  · cases hs
  · obtain ⟨-, rfl⟩ := Prod.mk.inj (Option.some.inj hs)
    exact ⟨List.suffix_refl _, Nat.le_refl _⟩

theorem consumes_parseValueWith {array object : GemmaM Json} (harray : Consumes 1 array)
    (hobject : Consumes 1 object) : Consumes 1 (parseValueWith fromStr array object) := by
  refine consumes_countNode.bind (m := 1) fun _ => Consumes.of_cases fun s => ?_
  by_cases hquote : QUOTE <+: s.rest
  · exact ⟨_, consumes_parseSpecialQuotedString.bind (m := 0) fun _ => Consumes.pure _,
      if_pos hquote⟩
  · rw [if_neg hquote]
    cases hhead : s.rest.head? with
    | none => exact ⟨_, Consumes.failure, rfl⟩
    | some c =>
      dsimp only
      by_cases hc : c = '"' ∨ c = '\''
      · exact ⟨_, consumes_parseQuotedString.bind (m := 0) fun _ => Consumes.pure _, if_pos hc⟩
      · rw [if_neg hc]
        by_cases hopen : c = '['
        · exact ⟨array, harray, if_pos hopen⟩
        · rw [if_neg hopen]
          by_cases hbrace : c = '{'
          · exact ⟨object, hobject, if_pos hbrace⟩
          · exact ⟨_, consumes_parseBareValue, if_neg hbrace⟩

/-- A value takes at least one character. -/
theorem consumes_parseValue (levels : Nat) : Consumes 1 (parseValue fromStr levels) := by
  induction levels with
  | zero => exact consumes_parseValueWith Consumes.failure Consumes.failure
  | succ levels ih =>
    exact consumes_parseValueWith (consumes_parseArray ih) (consumes_parseObject ih)

end GemmaParser

variable {fromStr : Str → Option Json}

/-- A call leaves a suffix of the body that is shorter. -/
theorem parseGemmaCall_suffix {body rest : Str} {name : String} {arguments : Json}
    (h : parseGemmaCall fromStr body = some (name, arguments, rest)) :
    rest <:+ body ∧ rest.length < body.length := by
  obtain ⟨braceStart, hbrace, h⟩ := Option.bind_eq_some_iff.1 h
  dsimp only at h
  split at h
  · obtain ⟨⟨parsed, parser⟩, hparse, h⟩ := Option.bind_eq_some_iff.1 h
    obtain ⟨-, h⟩ := Prod.mk.inj (Option.some.inj h)
    obtain ⟨-, rfl⟩ := Prod.mk.inj h
    obtain ⟨hsuffix, hlen⟩ := GemmaParser.consumes_parseObject
      (GemmaParser.consumes_parseValue _) _ _ _ hparse
    have hdrop := List.drop_suffix braceStart body
    exact ⟨hsuffix.trans hdrop, Nat.lt_of_lt_of_le hlen hdrop.length_le⟩
  · cases h

/-- A call with its end leaves a suffix of the body that is shorter. -/
theorem parseGemmaBlock_suffix {body rest : Str} {name : String} {arguments : Json}
    (h : parseGemmaBlock fromStr body = some (name, arguments, rest)) :
    rest <:+ body ∧ rest.length < body.length := by
  obtain ⟨⟨name', arguments', afterCall⟩, hcall, h⟩ := Option.bind_eq_some_iff.1 h
  obtain ⟨afterClose, hclose, h⟩ := Option.bind_eq_some_iff.1 h
  obtain ⟨-, h⟩ := Prod.mk.inj (Option.some.inj h)
  obtain ⟨-, rfl⟩ := Prod.mk.inj h
  obtain ⟨hsuffix, hlen⟩ := parseGemmaCall_suffix hcall
  have hafter : afterClose <:+ afterCall := by
    refine List.IsSuffix.trans ?_ (List.dropWhile_suffix (l := afterCall) isWhitespace)
    exact ⟨GEMMA_CLOSE, (stripPrefix_eq_some.1 hclose).symm⟩
  exact ⟨hafter.trans hsuffix, Nat.lt_of_le_of_lt hafter.length_le hlen⟩

end Emelex
