import Mathlib.Data.List.Basic
import Mathlib.Tactic.Common

/-!
# Base64 without padding

* `Base64.encode` — three bytes as four digits, with the alphabet that is safe in a URL.

Principal results: `Base64.encode_injective`, `Base64.length_encode_le`.
-/

set_option autoImplicit false

namespace Base64

/-- A digit; the alphabet is `A`–`Z`, `a`–`z`, `0`–`9`, `-` and `_`. -/
def digit (value : Nat) : Char :=
  if value < 26 then Char.ofNat (65 + value)
  else if value < 52 then Char.ofNat (71 + value)
  else if value < 62 then Char.ofNat (value - 4)
  else if value = 62 then '-'
  else '_'

theorem digit_inj {a b : Nat} (ha : a < 64) (hb : b < 64) (h : digit a = digit b) : a = b := by
  have hall : ∀ a < 64, ∀ b < 64, digit a = digit b → a = b := by decide +kernel
  exact hall a ha b hb h

theorem digit_size (value : Nat) : (digit value).utf8Size = 1 := by
  have hall : ∀ value < 63, (digit value).utf8Size = 1 := by decide +kernel
  by_cases h : value < 63
  · exact hall value h
  · have hlast : digit value = '_' := by
      unfold digit
      rw [if_neg (by omega), if_neg (by omega), if_neg (by omega), if_neg (by omega)]
    rw [hlast]
    rfl

def encode : List UInt8 → List Char
  | [] => []
  | [a] => [digit (a.toNat / 4), digit (a.toNat % 4 * 16)]
  | [a, b] =>
    [digit (a.toNat / 4), digit (a.toNat % 4 * 16 + b.toNat / 16), digit (b.toNat % 16 * 4)]
  | a :: b :: c :: rest =>
    digit (a.toNat / 4) :: digit (a.toNat % 4 * 16 + b.toNat / 16) ::
      digit (b.toNat % 16 * 4 + c.toNat / 64) :: digit (c.toNat % 64) :: encode rest

example : encode [77, 97, 110, 77] = "TWFuTQ".toList := by decide

/-- The digits of one byte. -/
theorem one_inj {a b : UInt8} (hfirst : digit (a.toNat / 4) = digit (b.toNat / 4))
    (hsecond : digit (a.toNat % 4 * 16) = digit (b.toNat % 4 * 16)) : a = b := by
  have ha := a.toNat_lt
  have hb := b.toNat_lt
  have hhigh := digit_inj (by omega) (by omega) hfirst
  have hlow := digit_inj (by omega) (by omega) hsecond
  exact UInt8.toNat_inj.1 (by omega)

/-- The digits that two bytes determine of a group of three. -/
theorem two_inj {a b a' b' : UInt8} {c c' : Nat} (hc : c < 4) (hc' : c' < 4)
    (hfirst : digit (a.toNat / 4) = digit (a'.toNat / 4))
    (hsecond : digit (a.toNat % 4 * 16 + b.toNat / 16) = digit (a'.toNat % 4 * 16 + b'.toNat / 16))
    (hthird : digit (b.toNat % 16 * 4 + c) = digit (b'.toNat % 16 * 4 + c')) :
    a = a' ∧ b = b' ∧ c = c' := by
  have ha := a.toNat_lt
  have hb := b.toNat_lt
  have ha' := a'.toNat_lt
  have hb' := b'.toNat_lt
  have hone := digit_inj (by omega) (by omega) hfirst
  have htwo := digit_inj (by omega) (by omega) hsecond
  have hthree := digit_inj (by omega) (by omega) hthird
  exact ⟨UInt8.toNat_inj.1 (by omega), UInt8.toNat_inj.1 (by omega), by omega⟩

theorem length_encode (xs : List UInt8) : (encode xs).length = (4 * xs.length + 2) / 3 := by
  induction xs using encode.induct with
  | case1 => rfl
  | case2 a => simp [encode]
  | case3 a b => simp [encode]
  | case4 a b c rest ih =>
    simp only [encode, List.length_cons, ih]
    omega

theorem length_encode_le (xs : List UInt8) : (encode xs).length ≤ 2 * xs.length := by
  rw [length_encode]
  omega

/-- The bytes are determined by the digits, and how many they are by how many digits there are. -/
theorem encode_injective : Function.Injective encode := by
  intro xs ys h
  have hlength : xs.length = ys.length := by
    have hdigits := congrArg List.length h
    rw [length_encode, length_encode] at hdigits
    omega
  induction xs using encode.induct generalizing ys with
  | case1 => exact (List.length_eq_zero_iff.1 hlength.symm).symm
  | case2 a =>
    obtain ⟨b, rfl⟩ := List.length_eq_one_iff.1 hlength.symm
    simp only [encode, List.cons.injEq, and_true] at h
    rw [one_inj h.1 h.2]
  | case3 a b =>
    obtain ⟨a', b', rfl⟩ := List.length_eq_two.1 hlength.symm
    simp only [encode, List.cons.injEq, and_true] at h
    obtain ⟨rfl, rfl, -⟩ := @two_inj a b a' b' 0 0 (by decide) (by decide) h.1 h.2.1 h.2.2
    rfl
  | case4 a b c rest ih =>
    obtain ⟨a', b', c', rest', rfl⟩ : ∃ a' b' c' rest', ys = a' :: b' :: c' :: rest' := by
      rcases ys with _ | ⟨a', _ | ⟨b', _ | ⟨c', rest'⟩⟩⟩ <;> simp at hlength ⊢
    simp only [encode, List.cons.injEq] at h
    obtain ⟨hfirst, hsecond, hthird, hfourth, hrest⟩ := h
    have hc := c.toNat_lt
    have hc' := c'.toNat_lt
    obtain ⟨rfl, rfl, hhigh⟩ := two_inj (by omega) (by omega) hfirst hsecond hthird
    have hlow := digit_inj (by omega) (by omega) hfourth
    have hlast : c = c' := UInt8.toNat_inj.1 (by omega)
    rw [hlast, ih hrest (by simpa using hlength)]

theorem mem_encode_size {xs : List UInt8} : ∀ c ∈ encode xs, c.utf8Size = 1 := by
  induction xs using encode.induct with
  | case1 => exact fun c hc => (nomatch hc)
  | case2 a => simp [encode, digit_size]
  | case3 a b => simp [encode, digit_size]
  | case4 a b c rest ih => simpa [encode, digit_size] using ih

end Base64
