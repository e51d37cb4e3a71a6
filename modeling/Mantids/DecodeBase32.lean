/-
# Reading base32

`Encoders::decodeFromBase32` (`Helpers/encoders.cpp`) collects the bits of the digits in a byte, and
keeps a byte whenever it is full.  At the end it writes one more byte if fewer than five bits of it
are missing.

* `decodeFromBase32` — the function;
* `readBits_eq` — the bits of a digit, one after the other;
* `feed_byte`, `feed_zeros` — the bits of a byte fill one, and the zeros at the end are left over;
* `decodeFromBase32_iff` — the texts whose base32 is read back.
-/
import Mantids.MimeHeader
import Mantids.Lib.Base32

namespace Mantids

open Base32

namespace DecodeBase32

/-- `chars`. -/
def chars : List UInt8 := bytesOf "ABCDEFGHIJKLMNOPQRSTUVWXYZ234567"

/-- The variables of the function. -/
structure State where
  binarySecret : List UInt8 := []
  currentByte : ℕ := 0
  bitsRemaining : ℕ := 8
deriving DecidableEq

/-- One bit. -/
def readBit (s : State) (bit : ℕ) : State :=
  let currentByte := s.currentByte <<< 1 ||| bit
  if s.bitsRemaining - 1 = 0 then
    { binarySecret := s.binarySecret ++ [UInt8.ofNat currentByte] }
  else { s with currentByte := currentByte, bitsRemaining := s.bitsRemaining - 1 }

/-- The inner loop. -/
def readBits : ℕ → ℕ → State → State
  | 0, _, s => s
  | bits + 1, val, s => readBits bits val (readBit s (val >>> bits &&& 1))

/-- The outer loop; `none` at a character that is not of base32. -/
def readDigits : List UInt8 → State → Option State
  | [], s => some s
  | c :: text, s =>
    if c = 61 then some s
    else
      match chars.idxOf? c with
      | none => none
      | some val => readDigits text (readBits 5 val s)

/-- `decodeFromBase32`. -/
def decodeFromBase32 (base32Value : List UInt8) : List UInt8 :=
  match readDigits base32Value {} with
  | none => []
  | some s =>
    if s.bitsRemaining ≠ 8 ∧ s.bitsRemaining < 5 then
      s.binarySecret ++ [UInt8.ofNat (s.currentByte <<< (s.bitsRemaining + 3))]
    else s.binarySecret

/-! ## Bits -/

/-- The bits of a row, one after the other. -/
def feed (s : State) (bits : List Bool) : State := bits.foldl (fun s b => readBit s b.toNat) s

/-- The inner loop takes the bits of the digit from the highest on. -/
theorem readBits_eq (k val : ℕ) (s : State) : readBits k val s = feed s (bitsOf k val) := by
  induction k generalizing s with
  | zero => rfl
  | succ k ih =>
      have hbit : val >>> k &&& 1 = (val.testBit k).toNat := by
        rw [Nat.testBit, Nat.and_comm]
        rcases Nat.mod_two_eq_zero_or_one (val >>> k) with h | h
        · simp [Nat.one_and_eq_mod_two, h]
        · simp [Nat.one_and_eq_mod_two, h]
      rw [readBits, ih, hbit]
      rfl

/-- What is written already stays in front. -/
theorem readBit_append (out : List UInt8) (s : State) (bit : ℕ) :
    readBit { s with binarySecret := out ++ s.binarySecret } bit =
      { readBit s bit with binarySecret := out ++ (readBit s bit).binarySecret } := by
  simp only [readBit]
  split
  · rw [List.append_assoc]
  · rfl

theorem feed_append (out : List UInt8) (s : State) (bits : List Bool) :
    feed { s with binarySecret := out ++ s.binarySecret } bits =
      { feed s bits with binarySecret := out ++ (feed s bits).binarySecret } := by
  induction bits generalizing s with
  | nil => rfl
  | cons b bits ih =>
      rw [feed, List.foldl_cons, readBit_append]
      exact ih (readBit s b.toNat)

/-- Eight bits fill a byte. -/
theorem feed_byte (out : List UInt8) (c : UInt8) :
    feed { binarySecret := out } (bitsOf 8 c.toNat) = { binarySecret := out ++ [c] } := by
  have hbyte : feed {} (bitsOf 8 c.toNat) = { binarySecret := [c] } := by
    revert c
    decide +kernel
  have hall := feed_append out {} (bitsOf 8 c.toNat)
  rw [hbyte] at hall
  simpa only [List.append_nil] using hall

theorem feed_text (out s : List UInt8) :
    feed { binarySecret := out } (textBits s) = { binarySecret := out ++ s } := by
  induction s generalizing out with
  | nil => rw [List.append_nil]; rfl
  | cons c s ih =>
      have hbits : textBits (c :: s) = bitsOf 8 c.toNat ++ textBits s := List.flatMap_cons
      rw [hbits, feed, List.foldl_append, ← feed, ← feed, feed_byte, ih, List.append_assoc,
        List.singleton_append]

/-- Less than eight zeros are left over. -/
theorem feed_zeros (out : List UInt8) {p : ℕ} (hp : p < 8) :
    feed { binarySecret := out } (List.replicate p false) =
      { binarySecret := out, bitsRemaining := 8 - p } := by
  have hzeros : ∀ p < 8, feed {} (List.replicate p false) = { bitsRemaining := 8 - p } := by decide
  have hall := feed_append out {} (List.replicate p false)
  rw [hzeros p hp] at hall
  simpa only [List.append_nil] using hall

/-! ## Digits -/

/-- The place of a digit in `chars` is its value. -/
theorem idxOf?_digit : ∀ v < 32, chars.idxOf? (digit v) = some v := by decide

theorem digit_ne_padding : ∀ v < 32, digit v ≠ 61 := by decide

/-- Digits are read up to the end, or up to the padding. -/
theorem readDigits_digits {text : List UInt8} (h : ∀ c ∈ text, ∃ v < 32, c = digit v)
    (pad : ℕ) (s : State) :
    readDigits (text ++ List.replicate pad padding) s =
      some (feed s (text.flatMap fun c => bitsOf 5 ((chars.idxOf? c).getD 0))) := by
  induction text generalizing s with
  | nil =>
      cases pad with
      | zero => rfl
      | succ pad => rfl
  | cons c text ih =>
      obtain ⟨⟨v, hv, rfl⟩, hrest⟩ := List.forall_mem_cons.mp h
      have hstep : feed s ((digit v :: text).flatMap fun c => bitsOf 5 ((chars.idxOf? c).getD 0)) =
          feed (readBits 5 v s) (text.flatMap fun c => bitsOf 5 ((chars.idxOf? c).getD 0)) := by
        rw [List.flatMap_cons, idxOf?_digit v hv, Option.getD_some, readBits_eq, feed,
          List.foldl_append]
        rfl
      rw [hstep, List.cons_append, readDigits, if_neg (digit_ne_padding v hv), idxOf?_digit v hv]
      exact ih hrest _

/-- The state in which the text ends. -/
theorem readDigits_encoded (s : List UInt8) (pad : ℕ) :
    readDigits (digits s ++ List.replicate pad padding) {} =
      some { binarySecret := s, bitsRemaining := 8 - fill (8 * s.length) } := by
  have hvalue : ∀ v < 32, (chars.idxOf? (digit v)).getD 0 = v := by
    intro v hv
    rw [idxOf?_digit v hv]
    rfl
  have hfill : fill (8 * s.length) < 8 := by
    unfold fill
    omega
  rw [digits, readDigits_digits (fun c hc => exists_of_mem_digitsOf hc), flatMap_digitsOf hvalue,
    length_textBits, feed, List.foldl_append, ← feed, ← feed,
    show ({} : State) = { binarySecret := [] } from rfl, feed_text, feed_zeros _ hfill]
  rfl

/-- What is returned: four zeros that are left over become a byte. -/
theorem decodeFromBase32_encoded (s : List UInt8) (pad : ℕ) :
    decodeFromBase32 (digits s ++ List.replicate pad padding) =
      if s.length % 5 = 2 then s ++ [0] else s := by
  rw [decodeFromBase32, readDigits_encoded]
  have hleft : (8 - fill (8 * s.length) ≠ 8 ∧ 8 - fill (8 * s.length) < 5) ↔ s.length % 5 = 2 := by
    unfold fill
    omega
  simp only [hleft, Nat.zero_shiftLeft]
  rfl

/-- **Round trip.**  A text is read back, with the padding and without it, exactly if it is not two
bytes longer than a multiple of five. -/
theorem decodeFromBase32_iff (s : List UInt8) :
    (decodeFromBase32 (encode s) = s ∧ decodeFromBase32 (digits s) = s) ↔ s.length % 5 ≠ 2 := by
  have hpadded := decodeFromBase32_encoded s ((8 - (digits s).length % 8) % 8)
  have hplain := decodeFromBase32_encoded s 0
  rw [List.replicate_zero, List.append_nil] at hplain
  rw [encode, hpadded, hplain]
  by_cases h : s.length % 5 = 2
  · rw [if_pos h]
    refine iff_of_false ?_ (fun hne => hne h)
    rintro ⟨heq, -⟩
    have hlen := congrArg List.length heq
    rw [List.length_append] at hlen
    exact absurd hlen (by simp)
  · rw [if_neg h]
    exact iff_of_true ⟨rfl, rfl⟩ h

/-- `CI2A====` is for two bytes. -/
theorem not_decodeFromBase32 :
    ¬ ∀ s : List UInt8, decodeFromBase32 (encode s) = s ∧ decodeFromBase32 (digits s) = s := by
  intro hclaim
  exact absurd (hclaim [18, 52]).1 (by decide)

end DecodeBase32

end Mantids
