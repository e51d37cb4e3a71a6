/-
# Base32

A text is read as bits, the highest bit of a byte first, and filled up with zeros to whole digits of
five bits each; the digits are filled up with padding to whole groups of eight.

* `bitsOf`, `valueOf` — a number as bits, and back;
* `digits`, `encode` — the digits of a text, without and with the padding;
* `flatMap_digitsOf` — the bits of the digits are those of the text and less than five zeros.
-/
import Mathlib.Data.Nat.Bits
import Mathlib.Data.UInt
import Mathlib.Tactic.Common

namespace Base32

/-- `=`. -/
def padding : UInt8 := 61

/-- `A` to `Z` and `2` to `7`. -/
def digit (v : ℕ) : UInt8 := if v < 26 then UInt8.ofNat (65 + v) else UInt8.ofNat (50 + (v - 26))

/-- The low bits of a number, the highest of them first. -/
def bitsOf : ℕ → ℕ → List Bool
  | 0, _ => []
  | k + 1, n => n.testBit k :: bitsOf k n

def valueOf (bits : List Bool) : ℕ := bits.foldl (fun v b => 2 * v + b.toNat) 0

/-- The bits of a text. -/
def textBits (s : List UInt8) : List Bool := s.flatMap fun c => bitsOf 8 c.toNat

/-- The zeros that make whole digits of so many bits. -/
def fill (n : ℕ) : ℕ := (5 - n % 5) % 5

/-- The digits of some bits; the last one is filled up with zeros. -/
def digitsOf : List Bool → List UInt8
  | a :: b :: c :: d :: e :: bits => digit (valueOf [a, b, c, d, e]) :: digitsOf bits
  | [] => []
  | bits => [digit (valueOf (bits ++ List.replicate (fill bits.length) false))]

/-- The digits of a text, without padding. -/
def digits (s : List UInt8) : List UInt8 := digitsOf (textBits s)

/-- The digits of a text, with padding to a multiple of eight. -/
def encode (s : List UInt8) : List UInt8 :=
  digits s ++ List.replicate ((8 - (digits s).length % 8) % 8) padding

@[simp] theorem length_bitsOf (k n : ℕ) : (bitsOf k n).length = k := by
  induction k with
  | zero => rfl
  | succ k ih => rw [bitsOf, List.length_cons, ih]

theorem length_textBits (s : List UInt8) : (textBits s).length = 8 * s.length := by
  induction s with
  | nil => rfl
  | cons c s ih =>
      rw [textBits, List.flatMap_cons, List.length_append, length_bitsOf, ← textBits, ih,
        List.length_cons]
      omega

/-- Five bits are the bits of their value, which is below 32. -/
theorem bitsOf_valueOf (a b c d e : Bool) :
    bitsOf 5 (valueOf [a, b, c, d, e]) = [a, b, c, d, e] ∧ valueOf [a, b, c, d, e] < 32 := by
  revert a b c d e
  decide

/-- What is left at the end is one digit. -/
theorem exists_filled {bits : List Bool}
    (hshort : ∀ a b c d e rest, bits = a :: b :: c :: d :: e :: rest → False) (hne : bits ≠ []) :
    ∃ a b c d e, bits ++ List.replicate (fill bits.length) false = [a, b, c, d, e] ∧
      digitsOf bits = [digit (valueOf [a, b, c, d, e])] := by
  rcases bits with _ | ⟨a, _ | ⟨b, _ | ⟨c, _ | ⟨d, _ | ⟨e, bits⟩⟩⟩⟩⟩
  · exact absurd rfl hne
  · exact ⟨a, false, false, false, false, rfl, rfl⟩
  · exact ⟨a, b, false, false, false, rfl, rfl⟩
  · exact ⟨a, b, c, false, false, rfl, rfl⟩
  · exact ⟨a, b, c, d, false, rfl, rfl⟩
  · exact absurd rfl (hshort a b c d e bits)

/-- A digit is read back as the bits that it was made from. -/
theorem flatMap_digitsOf {value : UInt8 → ℕ} (hvalue : ∀ v < 32, value (digit v) = v)
    (bits : List Bool) :
    ((digitsOf bits).flatMap fun c => bitsOf 5 (value c)) =
      bits ++ List.replicate (fill bits.length) false := by
  induction bits using digitsOf.induct with
  | case1 a b c d e bits ih =>
      obtain ⟨hbits, hlt⟩ := bitsOf_valueOf a b c d e
      have hfill : fill (a :: b :: c :: d :: e :: bits).length = fill bits.length := by
        simp only [fill, List.length_cons]
        omega
      rw [digitsOf, List.flatMap_cons, ih, hvalue _ hlt, hbits, hfill]
      rfl
  | case2 => rfl
  | case3 bits hshort hne =>
      obtain ⟨a, b, c, d, e, hfilled, hdigit⟩ := exists_filled hshort hne
      obtain ⟨hbits, hlt⟩ := bitsOf_valueOf a b c d e
      rw [hdigit, List.flatMap_singleton, hvalue _ hlt, hbits, hfilled]

/-- Every character of the digits is a digit. -/
theorem exists_of_mem_digitsOf {bits : List Bool} {c : UInt8} (h : c ∈ digitsOf bits) :
    ∃ v < 32, c = digit v := by
  induction bits using digitsOf.induct with
  | case1 a b c' d e bits ih =>
      rw [digitsOf] at h
      rcases List.mem_cons.mp h with rfl | h
      · exact ⟨_, (bitsOf_valueOf a b c' d e).2, rfl⟩
      · exact ih h
  | case2 => exact absurd h List.not_mem_nil
  | case3 bits hshort hne =>
      obtain ⟨a, b, c', d, e, -, hdigit⟩ := exists_filled hshort hne
      rw [hdigit] at h
      exact ⟨_, (bitsOf_valueOf a b c' d e).2, List.mem_singleton.mp h⟩

end Base32
