import Mathlib.Data.Prod.Lex
import Mathlib.Data.String.Basic

/-!
# UTC times and their RFC 3339 text

* `DateTime` — a time, up to nanoseconds, in a year of four digits; a leap second is the second 59
  with a fraction of a second or more.
* `DateTime.text` — its text with as many groups of three fractional digits as are needed, and the
  offset `+00:00`.
* `Denotes` — the fractions that stand for a number of nanoseconds.

Principal results: `DateTime.text_lt_text` (texts are ordered as their times),
`DateTime.text_injective`, `read_spelling` (a reader of times takes every fraction that denotes the
nanoseconds).
-/

set_option autoImplicit false

namespace Emelex

namespace Rfc3339

/-! ## Texts in order -/

theorem append_lt_append_of_lt {a b : List Char} (hlength : a.length = b.length) (h : a < b)
    (r s : List Char) : a ++ r < b ++ s := by
  induction a generalizing b with
  | nil =>
    obtain rfl := List.length_eq_zero_iff.1 hlength.symm
    exact absurd h (List.lt_irrefl _)
  | cons x a ih =>
    cases b with
    | nil => cases hlength
    | cons y b =>
      rw [List.cons_append, List.cons_append, List.cons_lt_cons_iff]
      rcases List.cons_lt_cons_iff.1 h with hxy | ⟨rfl, hab⟩
      · exact .inl hxy
      · exact .inr ⟨rfl, ih (Nat.succ.inj hlength) hab⟩

theorem append_lt_append_left {r s : List Char} (h : r < s) (a : List Char) : a ++ r < a ++ s := by
  induction a with
  | nil => exact h
  | cons x a ih => exact List.cons_lt_cons_iff.2 (.inr ⟨rfl, ih⟩)

/-! ## Digits -/

/-- The character of a digit. -/
def digit (n : Nat) : Char := Char.ofNat (48 + n % 10)

/-- The last digits of a number. -/
def digits : Nat → Nat → List Char
  | 0, _ => []
  | width + 1, n => digit (n / 10 ^ width) :: digits width n

@[simp] theorem digits_length (width n : Nat) : (digits width n).length = width := by
  induction width with
  | zero => rfl
  | succ width ih => rw [digits, List.length_cons, ih]

theorem digit_lt_digit {n m : Nat} (h : n % 10 < m % 10) : digit n < digit m := by
  have hall : ∀ n m : Fin 10, n < m → Char.ofNat (48 + n.1) < Char.ofNat (48 + m.1) := by decide
  exact hall ⟨n % 10, Nat.mod_lt _ (by decide)⟩ ⟨m % 10, Nat.mod_lt _ (by decide)⟩ h

/-- A digit is not below zero. -/
theorem zero_le_digit (n : Nat) : '0' ≤ digit n := by
  have hall : ∀ n : Fin 10, '0' ≤ Char.ofNat (48 + n.1) := by decide
  exact hall ⟨n % 10, Nat.mod_lt _ (by decide)⟩

theorem zero_le_of_mem_digits {width n : Nat} {c : Char} (h : c ∈ digits width n) : '0' ≤ c := by
  induction width with
  | zero => cases h
  | succ width ih =>
    rcases List.mem_cons.1 h with rfl | h
    · exact zero_le_digit _
    · exact ih h

theorem digit_mod {k : Nat} (n : Nat) (h : 0 < k) : digit (n % 10 ^ k) = digit n := by
  unfold digit
  rw [Nat.mod_mod_of_dvd n ⟨10 ^ (k - 1), by
    rw [← Nat.pow_succ', Nat.succ_eq_add_one, Nat.sub_add_cancel h]⟩]

/-- The last digits do not depend on those before. -/
theorem digits_mod {width k : Nat} (n : Nat) (h : width ≤ k) :
    digits width (n % 10 ^ k) = digits width n := by
  induction width with
  | zero => rfl
  | succ width ih =>
    have hsplit : (10 : Nat) ^ k = 10 ^ width * 10 ^ (k - width) := by
      rw [← Nat.pow_add]
      congr 1
      omega
    rw [digits, digits, ih (by omega)]
    congr 1
    rw [hsplit, Nat.mod_mul_right_div_self, digit_mod _ (by omega)]

/-- Numbers with so many digits are ordered as their digits. -/
theorem digits_lt_digits {width n m : Nat} (hm : m < 10 ^ width) (h : n < m) :
    digits width n < digits width m := by
  induction width generalizing n m with
  | zero => omega
  | succ width ih =>
    have hpos : 0 < 10 ^ width := Nat.pow_pos (by decide)
    have hfirst : m / 10 ^ width < 10 := by
      rw [Nat.div_lt_iff_lt_mul hpos, Nat.mul_comm, ← Nat.pow_succ]
      exact hm
    have hle : n / 10 ^ width ≤ m / 10 ^ width := Nat.div_le_div_right h.le
    rw [digits, digits, List.cons_lt_cons_iff]
    rcases Nat.lt_or_eq_of_le hle with hlt | heq
    · refine .inl (digit_lt_digit ?_)
      rwa [Nat.mod_eq_of_lt (hlt.trans hfirst), Nat.mod_eq_of_lt hfirst]
    · refine .inr ⟨by rw [heq], ?_⟩
      have hrest : n % 10 ^ width < m % 10 ^ width := by
        have hn := Nat.div_add_mod n (10 ^ width)
        have hm := Nat.div_add_mod m (10 ^ width)
        rw [heq] at hn
        omega
      rw [← digits_mod n (Nat.le_refl width), ← digits_mod m (Nat.le_refl width)]
      exact ih (Nat.mod_lt _ hpos) hrest

/-! ## Fractions -/

/-- The digits of a fraction of a second: none, or groups of three as needed. -/
def fraction (nanos : Nat) : List Char :=
  if nanos = 0 then []
  else if nanos % 1000000 = 0 then '.' :: digits 3 (nanos / 1000000)
  else if nanos % 1000 = 0 then '.' :: digits 6 (nanos / 1000)
  else '.' :: digits 9 nanos

/-- The fractions that stand for a number of nanoseconds. -/
inductive Denotes : List Char → Nat → Prop
  | none : Denotes [] 0
  | digits {width n : Nat} (hpos : 0 < width) (hle : width ≤ 9) (hn : n < 10 ^ width) :
    Denotes ('.' :: digits width n) (n * 10 ^ (9 - width))

theorem denotes_fraction {nanos : Nat} (h : nanos < 1000000000) :
    Denotes (fraction nanos) nanos := by
  unfold fraction
  split
  · rename_i hzero
    rw [hzero]
    exact .none
  · split
    · rename_i hmillis
      have hexact : nanos / 1000000 * 10 ^ (9 - 3) = nanos := by omega
      have hdenotes : Denotes ('.' :: Rfc3339.digits 3 (nanos / 1000000))
          (nanos / 1000000 * 10 ^ (9 - 3)) := .digits (by decide) (by decide) (by omega)
      rwa [hexact] at hdenotes
    · split
      · rename_i hmicros
        have hexact : nanos / 1000 * 10 ^ (9 - 6) = nanos := by omega
        have hdenotes : Denotes ('.' :: Rfc3339.digits 6 (nanos / 1000))
            (nanos / 1000 * 10 ^ (9 - 6)) := .digits (by decide) (by decide) (by omega)
        rwa [hexact] at hdenotes
      · have hdenotes : Denotes ('.' :: Rfc3339.digits 9 nanos) (nanos * 10 ^ (9 - 9)) :=
          .digits (by decide) (by decide) (by omega)
        rwa [Nat.sub_self, Nat.pow_zero, Nat.mul_one] at hdenotes

theorem digits_add (a b n : Nat) : digits (a + b) n = digits a (n / 10 ^ b) ++ digits b n := by
  induction a with
  | zero => rw [Nat.zero_add, digits, List.nil_append]
  | succ a ih =>
    rw [Nat.succ_add, digits, digits, ih, Nat.div_div_eq_div_mul, ← Nat.pow_add, Nat.add_comm b a,
      List.cons_append]

/-- The digits of what ends with zeros. -/
theorem digits_of_mod_eq_zero {b n : Nat} (h : n % 10 ^ b = 0) : ∀ c ∈ digits b n, c = '0' := by
  rw [← digits_mod n (Nat.le_refl b), h]
  clear h
  induction b with
  | zero => exact fun c hc => absurd hc List.not_mem_nil
  | succ b ih =>
    intro c hc
    rcases List.mem_cons.1 hc with rfl | hc
    · rw [Nat.zero_div]
      rfl
    · exact ih c hc

/-- A fraction is the first of nine digits, and zeros are left out. -/
theorem fraction_eq (nanos : Nat) : ∃ k,
    fraction nanos = (if k = 0 then [] else '.' :: (digits 9 nanos).take k) ∧
    ∀ c ∈ (digits 9 nanos).drop k, c = '0' := by
  unfold fraction
  split
  · rename_i hzero
    have hnone : nanos % 10 ^ 9 = 0 := by
      rw [hzero]
      exact Nat.zero_mod _
    exact ⟨0, rfl, digits_of_mod_eq_zero hnone⟩
  · split
    · rename_i hmillis
      have hsplit : digits 9 nanos = digits 3 (nanos / 1000000) ++ digits 6 nanos :=
        digits_add 3 6 nanos
      refine ⟨3, ?_, ?_⟩
      · rw [if_neg (by decide), hsplit, List.take_left' (digits_length _ _)]
      · rw [hsplit, List.drop_left' (digits_length _ _)]
        exact digits_of_mod_eq_zero hmillis
    · split
      · rename_i hmicros
        have hsplit : digits 9 nanos = digits 6 (nanos / 1000) ++ digits 3 nanos :=
          digits_add 6 3 nanos
        refine ⟨6, ?_, ?_⟩
        · rw [if_neg (by decide), hsplit, List.take_left' (digits_length _ _)]
        · rw [hsplit, List.drop_left' (digits_length _ _)]
          exact digits_of_mod_eq_zero hmicros
      · refine ⟨9, ?_, ?_⟩
        · rw [if_neg (by decide), List.take_of_length_le (digits_length _ _).le]
        · rw [List.drop_of_length_le (digits_length _ _).le]
          exact fun c hc => absurd hc List.not_mem_nil

/-- Nothing of so many digits is below zeros. -/
theorem not_lt_zeros {x y : List Char} (hlength : x.length = y.length) (hx : ∀ c ∈ x, '0' ≤ c)
    (hy : ∀ c ∈ y, c = '0') : ¬ x < y := by
  induction x generalizing y with
  | nil =>
    obtain rfl := List.length_eq_zero_iff.1 hlength.symm
    exact List.lt_irrefl _
  | cons a x ih =>
    cases y with
    | nil => cases hlength
    | cons b y =>
      intro h
      obtain rfl := hy b List.mem_cons_self
      rcases List.cons_lt_cons_iff.1 h with hlt | ⟨-, hrest⟩
      · exact absurd hlt (Char.not_lt.2 (hx a List.mem_cons_self))
      · exact ih (Nat.succ.inj hlength) (fun c hc => hx c (List.mem_cons_of_mem _ hc))
          (fun c hc => hy c (List.mem_cons_of_mem _ hc)) hrest

/-- Digits that are cut where only zeros follow, before a sign, are in the same order. -/
theorem cut_lt_cut {x y : List Char} (h : x < y) (hlength : x.length = y.length)
    (hx : ∀ c ∈ x, '0' ≤ c) (hy : ∀ c ∈ y, '0' ≤ c) (k : Nat) {l : Nat}
    (hzeros : ∀ c ∈ y.drop l, c = '0') (r s : List Char) :
    x.take k ++ '+' :: r < y.take l ++ '+' :: s := by
  induction x generalizing y k l with
  | nil =>
    obtain rfl := List.length_eq_zero_iff.1 hlength.symm
    exact absurd h (List.lt_irrefl _)
  | cons a x ih =>
    cases y with
    | nil => cases hlength
    | cons b y =>
      cases l with
      | zero => exact absurd h (not_lt_zeros hlength hx hzeros)
      | succ l =>
        have hb : '0' ≤ b := hy b List.mem_cons_self
        rw [List.take_succ_cons, List.cons_append]
        cases k with
        | zero =>
          have hsign : '+' < b := Nat.lt_of_lt_of_le (by decide) hb
          exact List.cons_lt_cons_iff.2 (.inl hsign)
        | succ k =>
          rw [List.take_succ_cons, List.cons_append, List.cons_lt_cons_iff]
          rcases List.cons_lt_cons_iff.1 h with hlt | ⟨rfl, hrest⟩
          · exact .inl hlt
          · exact .inr ⟨rfl, ih hrest (Nat.succ.inj hlength)
              (fun c hc => hx c (List.mem_cons_of_mem _ hc))
              (fun c hc => hy c (List.mem_cons_of_mem _ hc)) k hzeros⟩

/-- Fractions before a sign are in the order of the nanoseconds. -/
theorem fraction_lt_fraction {n m : Nat} (h : n < m) (hm : m < 1000000000) (r s : List Char) :
    fraction n ++ '+' :: r < fraction m ++ '+' :: s := by
  have hdigits : digits 9 n < digits 9 m := digits_lt_digits hm h
  have hlength : (digits 9 n).length = (digits 9 m).length := by
    rw [digits_length, digits_length]
  have hn : ∀ c ∈ digits 9 n, '0' ≤ c := fun _ => zero_le_of_mem_digits
  have hm : ∀ c ∈ digits 9 m, '0' ≤ c := fun _ => zero_le_of_mem_digits
  obtain ⟨k, hk, -⟩ := fraction_eq n
  obtain ⟨l, hl, hzeros⟩ := fraction_eq m
  have hcut := cut_lt_cut hdigits hlength hn hm k hzeros r s
  have hl0 : l ≠ 0 := by
    rintro rfl
    exact not_lt_zeros hlength hn hzeros hdigits
  rw [hk, hl, if_neg hl0]
  split
  · exact List.cons_lt_cons_iff.2 (.inl (by decide))
  · exact List.cons_lt_cons_iff.2 (.inr ⟨rfl, hcut⟩)

end Rfc3339

/-! ## Times -/

/-- The days of a month. -/
def daysInMonth (year month : Nat) : Nat :=
  if month = 2 then if year % 4 = 0 ∧ (year % 100 ≠ 0 ∨ year % 400 = 0) then 29 else 28
  else if month = 4 ∨ month = 6 ∨ month = 9 ∨ month = 11 then 30
  else 31

theorem daysInMonth_le (year month : Nat) : daysInMonth year month ≤ 31 := by
  unfold daysInMonth
  split_ifs <;> decide

/-- A UTC time. -/
structure DateTime where
  year : Nat
  month : Nat
  day : Nat
  hour : Nat
  minute : Nat
  second : Nat
  nanosecond : Nat
  date : year ≤ 9999 ∧ (1 ≤ month ∧ month ≤ 12) ∧ 1 ≤ day ∧ day ≤ daysInMonth year month
  clock : hour < 24 ∧ minute < 60 ∧ second < 60
  fraction : nanosecond < 1000000000 ∨ second = 59 ∧ nanosecond < 2000000000
deriving DecidableEq, Repr

namespace DateTime

open Rfc3339

/-- The fields from the year to the nanoseconds. -/
def key (t : DateTime) : ℕ ×ₗ ℕ ×ₗ ℕ ×ₗ ℕ ×ₗ ℕ ×ₗ ℕ ×ₗ ℕ :=
  toLex (t.year, toLex (t.month, toLex (t.day, toLex (t.hour, toLex (t.minute,
    toLex (t.second, t.nanosecond))))))

theorem key_injective : Function.Injective key := by
  intro t u h
  obtain ⟨year, month, day, hour, minute, second, nanosecond, _, _, _⟩ := t
  obtain ⟨year', month', day', hour', minute', second', nanosecond', _, _, _⟩ := u
  simp only [key, toLex_inj, Prod.mk.injEq] at h
  obtain ⟨rfl, rfl, rfl, rfl, rfl, rfl, rfl⟩ := h
  rfl

/-- Times are ordered by their fields, from the year on. -/
instance : LinearOrder DateTime := .lift' key key_injective

/-- The text of a time up to the fraction, with the second that a clock shows. -/
def clockText (t : DateTime) (rest : List Char) : List Char :=
  digits 4 t.year ++ '-' :: (digits 2 t.month ++ '-' :: (digits 2 t.day ++ 'T' ::
    (digits 2 t.hour ++ ':' :: (digits 2 t.minute ++ ':' ::
      (digits 2 (t.second + t.nanosecond / 1000000000) ++ rest)))))

/-- The text with a fraction. -/
def spelling (t : DateTime) (fraction : List Char) : List Char :=
  t.clockText (fraction ++ "+00:00".toList)

/-- `to_rfc3339`: as many fractional digits as are needed. -/
def text (t : DateTime) : List Char := t.spelling (Rfc3339.fraction (t.nanosecond % 1000000000))

theorem lt_iff {t u : DateTime} : t < u ↔ t.year < u.year ∨ t.year = u.year ∧
    (t.month < u.month ∨ t.month = u.month ∧ (t.day < u.day ∨ t.day = u.day ∧
      (t.hour < u.hour ∨ t.hour = u.hour ∧ (t.minute < u.minute ∨ t.minute = u.minute ∧
        (t.second < u.second ∨ t.second = u.second ∧ t.nanosecond < u.nanosecond))))) := by
  show key t < key u ↔ _
  simp only [key, Prod.Lex.lt_iff, ofLex_toLex]

/-- A field decides, or the rest does. -/
theorem field_lt_field {width n m : Nat} (hm : m < 10 ^ width) {r s : List Char}
    (h : n < m ∨ n = m ∧ r < s) : digits width n ++ r < digits width m ++ s := by
  rcases h with hlt | ⟨rfl, hrest⟩
  · exact append_lt_append_of_lt (by rw [digits_length, digits_length]) (digits_lt_digits hm hlt) r s
  · exact append_lt_append_left hrest _

/-- The texts of times are ordered as the times. -/
theorem text_lt_text {t u : DateTime} (h : t < u) : t.text < u.text := by
  obtain ⟨hyear, ⟨-, hmonth⟩, -, hday'⟩ := u.date
  have hday := hday'.trans (daysInMonth_le u.year u.month)
  obtain ⟨hhour, hminute, hsecond⟩ := u.clock
  have hfraction := u.fraction
  have hfraction' := t.fraction
  have hsecond' := t.clock.2.2
  have hseparator : ∀ {c : Char} {r s : List Char}, r < s → c :: r < c :: s := fun hrest =>
    List.cons_lt_cons_iff.2 (.inr ⟨rfl, hrest⟩)
  unfold text spelling clockText
  refine field_lt_field (by omega) ((lt_iff.1 h).imp_right fun ⟨hsame, h⟩ => ⟨hsame, hseparator ?_⟩)
  refine field_lt_field (by omega) (h.imp_right fun ⟨hsame, h⟩ => ⟨hsame, hseparator ?_⟩)
  refine field_lt_field (by omega) (h.imp_right fun ⟨hsame, h⟩ => ⟨hsame, hseparator ?_⟩)
  refine field_lt_field (by omega) (h.imp_right fun ⟨hsame, h⟩ => ⟨hsame, hseparator ?_⟩)
  refine field_lt_field (by omega) (h.imp_right fun ⟨hsame, h⟩ => ⟨hsame, hseparator ?_⟩)
  refine field_lt_field (by omega) ?_
  by_cases hclock : t.second + t.nanosecond / 1000000000 < u.second + u.nanosecond / 1000000000
  · exact .inl hclock
  · exact .inr ⟨by omega, fraction_lt_fraction (by omega) (Nat.mod_lt _ (by decide)) _ _⟩

theorem text_strictMono : StrictMono text := fun _ _ => text_lt_text

theorem text_lt_iff {t u : DateTime} : t.text < u.text ↔ t < u := text_strictMono.lt_iff_lt

theorem text_injective : Function.Injective text := text_strictMono.injective

end DateTime

/-! ## Reading -/

namespace Rfc3339

/-- A number of so many digits. -/
def readDigits : Nat → List Char → Option (Nat × List Char)
  | 0, text => some (0, text)
  | _ + 1, [] => none
  | width + 1, c :: text =>
    if c.isDigit then (readDigits width text).map fun (n, rest) =>
      ((c.toNat - 48) * 10 ^ width + n, rest)
    else none

/-- A character that has to be there. -/
def expect (c : Char) : List Char → Option (List Char)
  | [] => none
  | c' :: text => if c' = c then some text else none

/-- The nanoseconds of a fraction. -/
def readFraction : List Char → Option (Nat × List Char)
  | '.' :: text =>
    let width := (text.takeWhile Char.isDigit).length
    if 0 < width ∧ width ≤ 9 then (readDigits width text).map fun (n, rest) =>
      (n * 10 ^ (9 - width), rest)
    else none
  | text => some (0, text)

/-- A time, if the fields are in range. -/
def ofFields (year month day hour minute second nanosecond : Nat) : Option DateTime :=
  if h : (year ≤ 9999 ∧ (1 ≤ month ∧ month ≤ 12) ∧ 1 ≤ day ∧ day ≤ daysInMonth year month) ∧
      (hour < 24 ∧ minute < 60 ∧ second < 60) ∧
      (nanosecond < 1000000000 ∨ second = 59 ∧ nanosecond < 2000000000) then
    some ⟨year, month, day, hour, minute, second, nanosecond, h.1, h.2.1, h.2.2⟩
  else none

/-- A time with the second that a clock shows. -/
def ofClock (year month day hour minute second nanosecond : Nat) : Option DateTime :=
  if second = 60 then ofFields year month day hour minute 59 (nanosecond + 1000000000)
  else ofFields year month day hour minute second nanosecond

/-- A UTC time. -/
def read (text : List Char) : Option DateTime := do
  let (year, text) ← readDigits 4 text
  let text ← expect '-' text
  let (month, text) ← readDigits 2 text
  let text ← expect '-' text
  let (day, text) ← readDigits 2 text
  let text ← expect 'T' text
  let (hour, text) ← readDigits 2 text
  let text ← expect ':' text
  let (minute, text) ← readDigits 2 text
  let text ← expect ':' text
  let (second, text) ← readDigits 2 text
  let (nanosecond, text) ← readFraction text
  if text = "+00:00".toList then ofClock year month day hour minute second nanosecond else none

theorem digit_facts (n : Nat) :
    (digit n).isDigit = true ∧ (digit n).toNat - 48 = n % 10 := by
  have hall : ∀ n : Fin 10, (Char.ofNat (48 + n.1)).isDigit = true ∧
      (Char.ofNat (48 + n.1)).toNat - 48 = n.1 := by decide
  exact hall ⟨n % 10, Nat.mod_lt _ (by decide)⟩

theorem isDigit_of_mem_digits {width n : Nat} {c : Char} (h : c ∈ digits width n) :
    c.isDigit = true := by
  induction width with
  | zero => cases h
  | succ width ih =>
    rcases List.mem_cons.1 h with rfl | h
    · exact (digit_facts _).1
    · exact ih h

theorem readDigits_digits {width n : Nat} (h : n < 10 ^ width) (rest : List Char) :
    readDigits width (digits width n ++ rest) = some (n, rest) := by
  induction width generalizing n with
  | zero =>
    obtain rfl : n = 0 := by simpa using h
    rfl
  | succ width ih =>
    have hpos : 0 < 10 ^ width := Nat.pow_pos (by decide)
    have hfirst : n / 10 ^ width < 10 := by
      rw [Nat.div_lt_iff_lt_mul hpos, Nat.mul_comm, ← Nat.pow_succ]
      exact h
    obtain ⟨hdigit, hvalue⟩ := digit_facts (n / 10 ^ width)
    have hrest := ih (Nat.mod_lt n hpos)
    rw [digits_mod n (Nat.le_refl width)] at hrest
    have hsum : n / 10 ^ width * 10 ^ width + n % 10 ^ width = n := by
      rw [Nat.mul_comm, Nat.div_add_mod]
    rw [digits, List.cons_append, readDigits, if_pos hdigit, hrest, Option.map_some, hvalue,
      Nat.mod_eq_of_lt hfirst]
    show some (n / 10 ^ width * 10 ^ width + n % 10 ^ width, rest) = _
    rw [hsum]

theorem readFraction_denotes {fraction : List Char} {nanos : Nat} (h : Denotes fraction nanos) :
    readFraction (fraction ++ "+00:00".toList) = some (nanos, "+00:00".toList) := by
  cases h with
  | none => rfl
  | @digits width n hpos hle hn =>
    have hspan : (Rfc3339.digits width n ++ "+00:00".toList).takeWhile Char.isDigit =
        Rfc3339.digits width n := by
      rw [List.takeWhile_append_of_pos fun c hc => isDigit_of_mem_digits hc]
      exact List.append_nil _
    rw [List.cons_append, readFraction, hspan, digits_length, if_pos ⟨hpos, hle⟩,
      readDigits_digits hn]
    rfl

/-- The reader takes every fraction that denotes the nanoseconds. -/
theorem read_spelling {t : DateTime} {fraction : List Char}
    (h : Denotes fraction (t.nanosecond % 1000000000)) : read (t.spelling fraction) = some t := by
  obtain ⟨year, month, day, hour, minute, second, nanosecond, hdate, hclock, hfraction⟩ := t
  obtain ⟨hyear, ⟨-, hmonth⟩, -, hday'⟩ := id hdate
  have hday := hday'.trans (daysInMonth_le year month)
  obtain ⟨hhour, hminute, hsecond⟩ := id hclock
  have hexpect : ∀ c text, expect c (c :: text) = some text := fun c text => if_pos rfl
  unfold read DateTime.spelling DateTime.clockText
  simp only [readDigits_digits (show year < 10 ^ 4 by omega),
    readDigits_digits (show month < 10 ^ 2 by omega), readDigits_digits (show day < 10 ^ 2 by omega),
    readDigits_digits (show hour < 10 ^ 2 by omega),
    readDigits_digits (show minute < 10 ^ 2 by omega),
    readDigits_digits (show second + nanosecond / 1000000000 < 10 ^ 2 by omega), hexpect,
    readFraction_denotes h, Option.bind_eq_bind, Option.bind_some, if_true]
  unfold ofClock
  rcases hfraction with hnanos | ⟨hlast, hnanos⟩
  · have hwhole : nanosecond / 1000000000 = 0 := by omega
    have hmod : nanosecond % 1000000000 = nanosecond := by omega
    rw [hwhole, hmod, Nat.add_zero, if_neg hsecond.ne, ofFields, dif_pos ⟨hdate, hclock, .inl hnanos⟩]
  · subst hlast
    by_cases hleap : nanosecond < 1000000000
    · have hwhole : nanosecond / 1000000000 = 0 := by omega
      have hmod : nanosecond % 1000000000 = nanosecond := by omega
      rw [hwhole, hmod, if_neg (by decide), ofFields, dif_pos ⟨hdate, hclock, .inl hleap⟩]
    · have hwhole : nanosecond / 1000000000 = 1 := by omega
      have hmod : nanosecond % 1000000000 + 1000000000 = nanosecond := by omega
      rw [hwhole, hmod, if_pos rfl, ofFields, dif_pos ⟨hdate, hclock, .inr ⟨rfl, hnanos⟩⟩]

end Rfc3339

end Emelex
