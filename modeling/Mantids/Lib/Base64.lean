/-
# Base64

Three bytes are four digits of six bits each; a last group of one or two bytes is filled up with
padding.

* `encode` — the digits of a list of bytes;
* `decode` — the bytes of a list of digits, when it is one;
* `decode_encode` — the round trip.
-/
import Mathlib.Data.UInt
import Mathlib.Tactic.Common
import Mathlib.Tactic.IntervalCases

namespace Base64

/-- `=`. -/
def padding : UInt8 := 61

/-- `A` to `Z`, `a` to `z`, `0` to `9`, `+` and `/`. -/
def digit (n : ℕ) : UInt8 :=
  if n < 26 then UInt8.ofNat (65 + n)
  else if n < 52 then UInt8.ofNat (97 + (n - 26))
  else if n < 62 then UInt8.ofNat (48 + (n - 52))
  else if n = 62 then 43
  else 47

def value (c : UInt8) : Option ℕ :=
  if 65 ≤ c.toNat ∧ c.toNat ≤ 90 then some (c.toNat - 65)
  else if 97 ≤ c.toNat ∧ c.toNat ≤ 122 then some (c.toNat - 97 + 26)
  else if 48 ≤ c.toNat ∧ c.toNat ≤ 57 then some (c.toNat - 48 + 52)
  else if c = 43 then some 62
  else if c = 47 then some 63
  else none

/-- The digits of a list of bytes. -/
def encode : List UInt8 → List UInt8
  | a :: b :: c :: rest =>
    digit (a.toNat / 4) :: digit (a.toNat % 4 * 16 + b.toNat / 16) ::
      digit (b.toNat % 16 * 4 + c.toNat / 64) :: digit (c.toNat % 64) :: encode rest
  | [a, b] =>
    [digit (a.toNat / 4), digit (a.toNat % 4 * 16 + b.toNat / 16), digit (b.toNat % 16 * 4),
      padding]
  | [a] => [digit (a.toNat / 4), digit (a.toNat % 4 * 16), padding, padding]
  | [] => []

/-- The byte from the high bits of one digit and the low ones of the next. -/
def join (high low : ℕ) : UInt8 := UInt8.ofNat (high + low)

/-- The bytes of a list of digits; `none` if it is not a list of whole groups. -/
def decode : List UInt8 → Option (List UInt8)
  | [] => some []
  | a :: b :: c :: d :: rest => do
    let x ← value a
    let y ← value b
    if c = padding then
      if d = padding ∧ rest = [] then some [join (x * 4) (y / 16)] else none
    else
      let z ← value c
      if d = padding then
        if rest = [] then some [join (x * 4) (y / 16), join (y % 16 * 16) (z / 4)] else none
      else
        let w ← value d
        let bytes ← decode rest
        some (join (x * 4) (y / 16) :: join (y % 16 * 16) (z / 4) :: join (z % 4 * 64) w :: bytes)
  | _ => none

theorem value_digit {n : ℕ} (h : n < 64) : value (digit n) = some n := by
  interval_cases n <;> rfl

theorem digit_ne_padding {n : ℕ} (h : n < 64) : digit n ≠ padding := by
  intro heq
  have hvalue := value_digit h
  rw [heq] at hvalue
  cases hvalue

theorem join_eq {high low : ℕ} {a : UInt8} (h : high + low = a.toNat) : join high low = a := by
  rw [join, h, UInt8.ofNat_toNat]

/-- **Round trip** of any bytes. -/
theorem decode_encode (bytes : List UInt8) : decode (encode bytes) = some bytes := by
  induction bytes using encode.induct with
  | case1 a b c rest ih =>
    have ha := a.toNat_lt
    have hb := b.toNat_lt
    have hc := c.toNat_lt
    have hx := value_digit (n := a.toNat / 4) (by omega)
    have hy := value_digit (n := a.toNat % 4 * 16 + b.toNat / 16) (by omega)
    have hz := value_digit (n := b.toNat % 16 * 4 + c.toNat / 64) (by omega)
    have hw := value_digit (n := c.toNat % 64) (by omega)
    have hz' := digit_ne_padding (n := b.toNat % 16 * 4 + c.toNat / 64) (by omega)
    have hw' := digit_ne_padding (n := c.toNat % 64) (by omega)
    rw [encode, decode, hx, hy]
    simp only [Option.bind_eq_bind, Option.bind_some]
    rw [if_neg hz', hz, Option.bind_some, if_neg hw', hw, ih]
    simp only [Option.bind_some]
    rw [join_eq (a := a) (by omega), join_eq (a := b) (by omega), join_eq (a := c) (by omega)]
  | case2 a b =>
    have ha := a.toNat_lt
    have hb := b.toNat_lt
    have hx := value_digit (n := a.toNat / 4) (by omega)
    have hy := value_digit (n := a.toNat % 4 * 16 + b.toNat / 16) (by omega)
    have hz := value_digit (n := b.toNat % 16 * 4) (by omega)
    have hz' := digit_ne_padding (n := b.toNat % 16 * 4) (by omega)
    rw [encode, decode, hx, hy]
    simp only [Option.bind_eq_bind, Option.bind_some]
    rw [if_neg hz', hz, Option.bind_some, if_pos trivial, if_pos trivial]
    rw [join_eq (a := a) (by omega), join_eq (a := b) (by omega)]
  | case3 a =>
    have ha := a.toNat_lt
    have hx := value_digit (n := a.toNat / 4) (by omega)
    have hy := value_digit (n := a.toNat % 4 * 16) (by omega)
    rw [encode, decode, hx, hy]
    simp only [Option.bind_eq_bind, Option.bind_some]
    rw [if_pos trivial, if_pos ⟨trivial, trivial⟩]
    rw [join_eq (a := a) (by omega)]
  | case4 => rfl

theorem le_digit (n : ℕ) : 43 ≤ digit n := by
  unfold digit
  rw [UInt8.le_iff_toNat_le]
  have hsize : UInt8.size = 256 := rfl
  have h43 : (43 : UInt8).toNat = 43 := rfl
  split_ifs
  · rw [UInt8.toNat_ofNat_of_lt' (by omega), h43]
    omega
  · rw [UInt8.toNat_ofNat_of_lt' (by omega), h43]
    omega
  · rw [UInt8.toNat_ofNat_of_lt' (by omega), h43]
    omega
  · decide
  · decide

/-- Text in base 64 has no control characters and no blanks. -/
theorem le_of_mem_encode (bytes : List UInt8) : ∀ c ∈ encode bytes, 43 ≤ c := by
  induction bytes using encode.induct with
  | case1 a b c rest ih =>
      intro d hd
      rw [encode] at hd
      simp only [List.mem_cons] at hd
      rcases hd with rfl | rfl | rfl | rfl | hd
      · exact le_digit _
      · exact le_digit _
      · exact le_digit _
      · exact le_digit _
      · exact ih d hd
  | case2 a b => simp [encode, le_digit, padding]
  | case3 a => simp [encode, le_digit, padding]
  | case4 => simp [encode]

/-- Base64 is not shorter than what it encodes. -/
theorem length_le_length_encode (bytes : List UInt8) : bytes.length ≤ (encode bytes).length := by
  induction bytes using encode.induct with
  | case1 a b c rest ih =>
    simp only [encode, List.length_cons]
    omega
  | case2 a b => simp [encode]
  | case3 a => simp [encode]
  | case4 => simp [encode]

end Base64
