import Emelex.Hub.SearchPages
import Emelex.Lib.Base64
import Mathlib.Logic.Function.Basic

/-!
# The cursors of a search

* `Codec.Documented` — what is known of `serde_json` and `base64`.
* `standardCodec` — a codec of that kind.

Principal results: `decode_encode`, `decode_scope`, `first_fits`, `standardCodec_documented`.
-/

set_option autoImplicit false

namespace Emelex

open Checks

namespace Hub

namespace Search

/-! ## Cursors -/

/-- What is known of `serde_json` and `base64`: what was written is read, and base64 is at most twice
as long.  The strings of a cursor need no escapes but those of `escapeChar`. -/
structure Codec.Documented (codec : Codec) : Prop where
  decode : ∀ bytes, codec.base64Decode (codec.base64Encode bytes) = some bytes
  length : ∀ bytes, (codec.base64Encode bytes).utf8ByteSize ≤ 2 * Text.utf8Len bytes
  read : ∀ (cursor : SearchCursor) (digest : Import.Digest), cursor.scope = digest.text →
    validateUpstream cursor.upstream = .ok () → codec.readCursor cursor.toJson = some cursor

section cursors

variable {codec : Codec} {client : Client} {s : HubSearch} {upstream : Option String} {offset : Nat}

/-- The scope of a cursor is a digest. -/
theorem searchScope_eq_ok {scope : String} (h : searchScope codec client s = .ok scope) :
    ∃ digest : Import.Digest, scope = digest.text := by
  unfold searchScope at h
  simp only [bind_eq_ok, pure_eq_ok] at h
  obtain ⟨tuple, -, rfl⟩ := h
  exact ⟨_, rfl⟩

theorem encode_eq_ok {text : String} :
    encodeSearchCursor codec client s upstream offset = .ok text ↔
      validateUpstream upstream = .ok () ∧ offset ≤ 1000 ∧ ∃ scope,
        searchScope codec client s = .ok scope ∧
        Text.utf8Len (SearchCursor.toJson ⟨SEARCH_CURSOR_VERSION, upstream, offset, scope⟩) ≤
          MAX_SEARCH_CURSOR_BYTES ∧
        codec.base64Encode (SearchCursor.toJson ⟨SEARCH_CURSOR_VERSION, upstream, offset, scope⟩) =
          text := by
  unfold encodeSearchCursor
  simp only [bind_eq_ok, ensure_eq_ok, pure_eq_ok]
  constructor
  · rintro ⟨_, hvalid, _, hoffset, scope, hscope, _, hfits, rfl⟩
    exact ⟨hvalid, hoffset, scope, hscope, hfits, rfl⟩
  · rintro ⟨hvalid, hoffset, scope, hscope, hfits, rfl⟩
    exact ⟨(), hvalid, (), hoffset, scope, hscope, (), hfits, rfl⟩

theorem encode_too_long {scope : String} (hvalid : validateUpstream upstream = .ok ())
    (hoffset : offset ≤ 1000) (hscope : searchScope codec client s = .ok scope)
    (hlong : ¬ Text.utf8Len (SearchCursor.toJson ⟨SEARCH_CURSOR_VERSION, upstream, offset, scope⟩) ≤
      MAX_SEARCH_CURSOR_BYTES) :
    encodeSearchCursor codec client s upstream offset =
      .error (.protocol "Hub search cursor exceeds its encoded-state bound") := by
  unfold encodeSearchCursor ensure
  rw [hvalid, hscope, if_pos hoffset]
  simp only [bind, Except.bind]
  rw [if_neg hlong]

/-- A cursor is read as it was written. -/
theorem decode_encode (hcodec : codec.Documented) {text : String}
    (h : encodeSearchCursor codec client s upstream offset = .ok text) :
    ∃ scope, decodeSearchCursor codec client { s with cursor := some text } =
      .ok ⟨SEARCH_CURSOR_VERSION, upstream, offset, scope⟩ := by
  obtain ⟨hvalid, hoffset, scope, hscope, hfits, rfl⟩ := encode_eq_ok.1 h
  obtain ⟨digest, hdigest⟩ := searchScope_eq_ok hscope
  refine ⟨scope, ?_⟩
  unfold decodeSearchCursor
  simp only [bind_eq_ok, ensure_eq_ok, required_eq_ok, pure_eq_ok]
  have hlength := hcodec.length
    (SearchCursor.toJson ⟨SEARCH_CURSOR_VERSION, upstream, offset, scope⟩)
  exact ⟨(), by omega, _, hcodec.decode _, (), hfits, _, hcodec.read _ digest hdigest hvalid, (),
    ⟨rfl, hoffset⟩, scope, hscope, (), rfl, (), hvalid, rfl⟩

theorem digest_ext {a b : Import.Digest} (h : a.text = b.text) : a = b := by
  cases a
  cases b
  cases h
  rfl

/-- A cursor that is accepted was issued for the digest of the scope. -/
theorem decode_scope (hcodec : codec.Documented) {text : String}
    (h : encodeSearchCursor codec client s upstream offset = .ok text) {client' : Client}
    {s' : HubSearch} {position : SearchCursor}
    (hdecode : decodeSearchCursor codec client' { s' with cursor := some text } = .ok position) :
    ∃ scope, searchScope codec client s = .ok scope ∧ searchScope codec client' s' = .ok scope := by
  obtain ⟨hvalid, -, scope, hscope, -, rfl⟩ := encode_eq_ok.1 h
  obtain ⟨digest, hdigest⟩ := searchScope_eq_ok hscope
  unfold decodeSearchCursor at hdecode
  simp only [bind_eq_ok, ensure_eq_ok, required_eq_ok, pure_eq_ok] at hdecode
  obtain ⟨_, -, bytes, hbytes, _, -, decoded, hread, _, -, scope', hscope', _, hsame, -⟩ := hdecode
  rw [hcodec.decode, Option.some.injEq] at hbytes
  rw [← hbytes, hcodec.read _ digest hdigest hvalid, Option.some.injEq] at hread
  refine ⟨scope, hscope, ?_⟩
  rw [← hread] at hsame
  rw [show scope = scope' from hsame]
  exact hscope'

end cursors

/-! ## The size of a cursor -/

theorem utf8Len_ascii {text : List Char} (h : ∀ c ∈ text, c.utf8Size = 1) :
    Text.utf8Len text = text.length := by
  unfold Text.utf8Len
  induction text with
  | nil => rfl
  | cons c text ih =>
    obtain ⟨hc, hrest⟩ := List.forall_mem_cons.1 h
    rw [List.map_cons, List.sum_cons, hc, ih hrest, List.length_cons, Nat.add_comm]

/-- A hexadecimal digit is one byte, and is not escaped. -/
theorem escapeChar_hex {c : Char} (h : Import.isLowerHex c = true) :
    escapeChar c = [c] ∧ c.utf8Size = 1 := by
  have hrange : 48 ≤ c.toNat ∧ c.toNat ≤ 57 ∨ 97 ≤ c.toNat ∧ c.toNat ≤ 102 := by
    simp only [Import.isLowerHex, Char.isDigit, Bool.or_eq_true, Bool.and_eq_true,
      decide_eq_true_eq] at h
    exact h
  have hquote : c ≠ '"' := by
    rintro rfl
    revert hrange
    decide
  have hslash : c ≠ '\\' := by
    rintro rfl
    revert hrange
    decide
  refine ⟨if_neg fun hboth => hboth.elim hquote hslash, ?_⟩
  have hsmall : c.val ≤ 127 := by
    rw [UInt32.le_iff_toNat_le]
    show c.toNat ≤ 127
    omega
  exact if_pos hsmall

/-- The text of a digest needs no escapes. -/
theorem digest_json (digest : Import.Digest) : Text.utf8Len (jsonString digest.text) = 66 := by
  have hhex : ∀ c ∈ digest.text.toList, escapeChar c = [c] ∧ c.utf8Size = 1 := fun c hc =>
    escapeChar_hex (List.all_eq_true.1 digest.hex c hc)
  have hplain : digest.text.toList.flatMap escapeChar = digest.text.toList := by
    rw [List.flatMap_congr fun c hc => (hhex c hc).1, List.flatMap_singleton']
  unfold jsonString
  rw [hplain, utf8Len_ascii]
  · rw [List.cons_append, List.length_cons, List.length_append, digest.length]
    rfl
  · intro c hc
    rw [List.cons_append, List.mem_cons, List.mem_append, List.mem_singleton] at hc
    rcases hc with rfl | hc | rfl
    · rfl
    · exact (hhex c hc).2
    · rfl

/-- The cursors of the first page of the Hub are not too long. -/
theorem first_fits {codec : Codec} {client : Client} {s : HubSearch} {scope : String}
    (hscope : searchScope codec client s = .ok scope) {offset : Nat} (hoffset : offset ≤ 1000) :
    Text.utf8Len (SearchCursor.toJson ⟨SEARCH_CURSOR_VERSION, none, offset, scope⟩) ≤
      MAX_SEARCH_CURSOR_BYTES := by
  have hdigits : ∀ n < 1001, Text.utf8Len (Nat.toDigits 10 n) ≤ 4 := by decide +kernel
  have hnumber := hdigits offset (Nat.lt_succ_of_le hoffset)
  obtain ⟨digest, rfl⟩ := searchScope_eq_ok hscope
  unfold SearchCursor.toJson
  simp only [Text.utf8Len_append, digest_json]
  have hversion : Text.utf8Len "\x7b\"version\":".toList +
      Text.utf8Len (Nat.toDigits 10 SEARCH_CURSOR_VERSION) + Text.utf8Len ",\"upstream\":".toList +
      Text.utf8Len "null".toList + Text.utf8Len ",\"offset\":".toList = 38 := by decide
  have hscopeText : Text.utf8Len ",\"scope\":".toList + Text.utf8Len "\x7d".toList = 10 := by
    decide
  unfold MAX_SEARCH_CURSOR_BYTES
  omega

/-! ## The text of a cursor -/

/-- Digits before something that starts with none. -/
theorem digits_append_inj {n m : Nat} {r t : List Char} (hr : (r.takeWhile Char.isDigit) = [])
    (ht : (t.takeWhile Char.isDigit) = [])
    (h : Nat.toDigits 10 n ++ r = Nat.toDigits 10 m ++ t) : n = m ∧ r = t := by
  have hspan : ∀ (k : Nat) (x : List Char), x.takeWhile Char.isDigit = [] →
      (Nat.toDigits 10 k ++ x).takeWhile Char.isDigit = Nat.toDigits 10 k := by
    intro k x hx
    rw [List.takeWhile_append_of_pos fun c hc =>
      Nat.isDigit_of_mem_toDigits (by decide) (by decide) hc, hx, List.append_nil]
  have hdigits : Nat.toDigits 10 n = Nat.toDigits 10 m := by
    rw [← hspan n r hr, h, hspan m t ht]
  refine ⟨?_, ?_⟩
  · rw [← Nat.ofDigitChars_toDigits (b := 10) (n := n) (by decide) (by decide), hdigits,
      Nat.ofDigitChars_toDigits (by decide) (by decide)]
  · rw [hdigits] at h
    exact List.append_cancel_left h

theorem escaped_append_inj {a b r t : List Char}
    (h : a.flatMap escapeChar ++ '"' :: r = b.flatMap escapeChar ++ '"' :: t) : a = b ∧ r = t := by
  have hescape : ∀ c : Char, ((c = '"' ∨ c = '\\') ∧ escapeChar c = ['\\', c]) ∨
      (c ≠ '"' ∧ c ≠ '\\' ∧ escapeChar c = [c]) := by
    intro c
    by_cases hc : c = '"' ∨ c = '\\'
    · exact .inl ⟨hc, if_pos hc⟩
    · exact .inr ⟨fun heq => hc (.inl heq), fun heq => hc (.inr heq), if_neg hc⟩
  induction a generalizing b with
  | nil =>
    cases b with
    | nil => exact ⟨rfl, (List.cons.inj h).2⟩
    | cons c b =>
      rw [List.flatMap_cons] at h
      rcases hescape c with ⟨-, hc⟩ | ⟨hquote, -, hc⟩
      · rw [hc] at h
        exact absurd (List.cons.inj h).1 (by decide)
      · rw [hc] at h
        exact absurd (List.cons.inj h).1.symm hquote
  | cons c a ih =>
    rw [List.flatMap_cons] at h
    cases b with
    | nil =>
      rcases hescape c with ⟨-, hc⟩ | ⟨hquote, -, hc⟩
      · rw [hc] at h
        exact absurd (List.cons.inj h).1 (by decide)
      · rw [hc] at h
        exact absurd (List.cons.inj h).1 hquote
    | cons d b =>
      rw [List.flatMap_cons] at h
      rcases hescape c with ⟨-, hc⟩ | ⟨-, hslash, hc⟩ <;>
        rcases hescape d with ⟨-, hd⟩ | ⟨-, hslash', hd⟩ <;> rw [hc, hd] at h <;>
        simp only [List.cons_append, List.nil_append, List.cons.injEq] at h
      · obtain ⟨rfl, rfl⟩ := ih h.2.2
        exact ⟨by rw [h.2.1], rfl⟩
      · exact absurd h.1.symm hslash'
      · exact absurd h.1 hslash
      · obtain ⟨rfl, rfl⟩ := ih h.2
        exact ⟨by rw [h.1], rfl⟩

theorem jsonString_append_inj {a b : String} {r t : List Char}
    (h : jsonString a ++ r = jsonString b ++ t) : a = b ∧ r = t := by
  unfold jsonString at h
  simp only [List.cons_append, List.append_assoc, List.nil_append, List.cons.injEq, true_and] at h
  obtain ⟨hsame, hrest⟩ := escaped_append_inj h
  exact ⟨String.toList_inj.1 hsame, hrest⟩

/-- A cursor is determined by its text. -/
theorem toJson_injective : Function.Injective SearchCursor.toJson := by
  rintro ⟨version, upstream, offset, scope⟩ ⟨version', upstream', offset', scope'⟩ h
  unfold SearchCursor.toJson at h
  simp only [List.append_assoc] at h
  obtain ⟨rfl, hbehind⟩ := digits_append_inj (by rfl) (by rfl) (List.append_cancel_left h)
  have hupstream := List.append_cancel_left hbehind
  have hrest : ∀ {r t : List Char}, ",\"offset\":".toList ++ (Nat.toDigits 10 offset ++
        (",\"scope\":".toList ++ (jsonString scope ++ r))) =
      ",\"offset\":".toList ++ (Nat.toDigits 10 offset' ++
        (",\"scope\":".toList ++ (jsonString scope' ++ t))) → offset = offset' ∧ scope = scope' := by
    intro r t hrest
    obtain ⟨rfl, hscope⟩ := digits_append_inj (by rfl) (by rfl) (List.append_cancel_left hrest)
    exact ⟨rfl, (jsonString_append_inj (List.append_cancel_left hscope)).1⟩
  cases upstream with
  | none =>
    cases upstream' with
    | none =>
      obtain ⟨rfl, rfl⟩ := hrest (List.append_cancel_left hupstream)
      rfl
    | some cursor => exact absurd (List.cons.inj hupstream).1 (by decide)
  | some cursor =>
    cases upstream' with
    | none => exact absurd (List.cons.inj hupstream).1 (by decide)
    | some cursor' =>
      obtain ⟨rfl, hafter⟩ := jsonString_append_inj hupstream
      obtain ⟨rfl, rfl⟩ := hrest hafter
      rfl

/-! ## A codec -/

/-- `sha2` on the text of a search without a query, filters, a library flag, a credential and a fit
profile. -/
def emptyScopeDigest : Import.Digest where
  text := "cfc07e34f0eb9864e8d406bfbdda5dbc2f47b3ba4055c065e0fc4ba2c7a0bc2f"
  length := by decide +kernel
  hex := by decide +kernel

/-- The UTF-8 of a text. -/
def utf8 (text : List Char) : List UInt8 := text.flatMap String.utf8EncodeChar

theorem utf8_injective : Function.Injective utf8 := by
  intro a b h
  refine String.ofList_inj.1 (String.toByteArray_inj.1 ?_)
  rw [String.toByteArray_ofList, String.toByteArray_ofList]
  exact congrArg List.toByteArray h

theorem length_utf8 (text : List Char) : (utf8 text).length = Text.utf8Len text := by
  simp [utf8, Text.utf8Len, List.length_flatMap]

/-- `base64` of a text, with the URL-safe alphabet and without padding. -/
def base64 (text : List Char) : String := String.ofList (Base64.encode (utf8 text))

theorem base64_injective : Function.Injective base64 := fun _ _ h =>
  utf8_injective (Base64.encode_injective (String.ofList_inj.1 h))

/-- The readers undo what was written; the scope is that of a search without anything. -/
noncomputable def standardCodec : Codec where
  base64Encode := base64
  base64Decode := Function.partialInv base64
  readCursor := Function.partialInv SearchCursor.toJson
  scopeText _ := "[null,[],false,null,null]".toList
  sha256 _ := emptyScopeDigest

theorem standardCodec_documented : standardCodec.Documented where
  decode bytes := Function.partialInv_left base64_injective bytes
  length bytes := by
    show (String.ofList (Base64.encode (utf8 bytes))).utf8ByteSize ≤ 2 * Text.utf8Len bytes
    rw [← length_utf8, ← String.size_toByteArray, String.toByteArray_ofList,
      show (Base64.encode (utf8 bytes)).utf8Encode.size = (utf8 (Base64.encode (utf8 bytes))).length
        from List.size_toByteArray, length_utf8, utf8Len_ascii Base64.mem_encode_size]
    exact Base64.length_encode_le _
  read cursor _ _ _ := Function.partialInv_left toJson_injective cursor

end Search

end Hub

end Emelex
