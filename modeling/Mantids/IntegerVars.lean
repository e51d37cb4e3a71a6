/-
# Integer variables from texts

`UINT16::fromString` and `INT8::fromString` (`Memory/a_uint16.cpp`, `Memory/a_int8.cpp`) convert a
text with `strtoul` or `strtol`, cast what comes to the type of the variable, and take a zero for an
error unless the text is "0".

* `Numeral` — decimal texts: a sign, if there is one, and digits;
* `fromString` — the function that both are;
* `Exact` — what is accepted is the text of the number that the variable then has;
* `reads_exact_iff` — for which texts, whatever the type is;
* `integers_exact_iff` — for both types; and what is printed is read back.
-/
import Mathlib.Data.Int.Order.Basic
import Mantids.Texts

namespace Mantids

namespace IntegerVars

/-! ## Conversions -/

/-- Whether there is a minus in front of the digits that a text begins with behind white space, and
their number. -/
def leading (s : List UInt8) : Bool × ℕ :=
  let s := (s.takeWhile (· ≠ 0)).dropWhile isspace
  let negative := s.head? == some 45
  let s := if s.head? = some 45 ∨ s.head? = some 43 then s.tail else s
  (negative, (s.takeWhile isdigit).foldl (fun v c => v * 10 + (c.toNat - 48)) 0)

theorem strtoull_eq (s : List UInt8) :
    strtoull s =
      if 2 ^ 64 ≤ (leading s).2 then 2 ^ 64 - 1
      else if (leading s).1 then (2 ^ 64 - (leading s).2) % 2 ^ 64
      else (leading s).2 := rfl

/-- `strtol` in base 10: a number that does not fit becomes the nearest one that does. -/
def strtol (s : List UInt8) : ℤ :=
  if (leading s).1 then max (-(leading s).2) (-2 ^ 63) else min (leading s).2 (2 ^ 63 - 1)

/-! ## Numerals -/

/-- A decimal text. -/
structure Numeral where
  sign : List UInt8
  digits : List UInt8
  sign_mem : sign ∈ [[], [43], [45]]
  digits_ne_nil : digits ≠ []
  digits_isdigit : ∀ c ∈ digits, isdigit c = true

namespace Numeral

def text (m : Numeral) : List UInt8 := m.sign ++ m.digits

/-- The number of the digits. -/
def magnitude (m : Numeral) : ℕ := m.digits.foldl (fun v c => v * 10 + (c.toNat - 48)) 0

def value (m : Numeral) : ℤ := if m.sign = [45] then -m.magnitude else m.magnitude

/-- `std::to_string` of a number. -/
def ofInt (v : ℤ) : Numeral where
  sign := if v < 0 then [45] else []
  digits := decimal v.natAbs
  sign_mem := by split <;> simp
  digits_ne_nil := decimal_ne_nil _
  digits_isdigit := isdigit_of_mem_decimal _

theorem value_ofInt (v : ℤ) : (ofInt v).value = v := by
  have hmagnitude : (ofInt v).magnitude = v.natAbs := foldl_decimal _
  unfold value
  rw [hmagnitude]
  by_cases hneg : v < 0
  · rw [if_pos (by simp [ofInt, hneg])]
    omega
  · rw [if_neg (by simp [ofInt, hneg])]
    omega

theorem isdigit_spec {c : UInt8} (h : isdigit c = true) :
    c ≠ 0 ∧ isspace c = false ∧ c ≠ 43 ∧ c ≠ 45 := by
  have hle : 48 ≤ c := by
    simp only [isdigit, Bool.and_eq_true, decide_eq_true_eq] at h
    exact h.1
  refine ⟨?_, isspace_of_le hle, ?_, ?_⟩ <;> rintro rfl <;> revert h <;> decide

/-- The conversions read a numeral. -/
theorem leading_text (m : Numeral) : leading m.text = (m.sign == [45], m.magnitude) := by
  obtain ⟨d, ds, hdigits⟩ := List.exists_cons_of_ne_nil m.digits_ne_nil
  have hd := isdigit_spec (m.digits_isdigit d (by rw [hdigits]; exact List.mem_cons_self))
  have hall : m.digits.takeWhile isdigit = m.digits :=
    List.takeWhile_eq_self_iff.mpr m.digits_isdigit
  have hsign := m.sign_mem
  simp only [List.mem_cons, List.not_mem_nil, or_false] at hsign
  have hend : m.text.takeWhile (· ≠ 0) = m.text := by
    rw [List.takeWhile_eq_self_iff]
    intro c hc
    rcases List.mem_append.mp hc with hc | hc
    · rcases hsign with hsign | hsign | hsign <;> rw [hsign] at hc <;> grind
    · simpa using (isdigit_spec (m.digits_isdigit c hc)).1
  have hfront : m.text.dropWhile isspace = m.text := by
    unfold text
    rw [hdigits]
    rcases hsign with hsign | hsign | hsign <;> rw [hsign]
    · exact List.dropWhile_cons_of_neg (by simp [hd.2.1])
    · exact List.dropWhile_cons_of_neg (by decide)
    · exact List.dropWhile_cons_of_neg (by decide)
  unfold leading magnitude
  dsimp only
  rw [hend, hfront]
  unfold text
  rcases hsign with hsign | hsign | hsign <;> rw [hsign]
  · have hnot : ¬ (m.digits.head? = some 45 ∨ m.digits.head? = some 43) := by
      simp [hdigits, hd.2.2]
    rw [List.nil_append, if_neg hnot, hall]
    simp [hdigits, hd.2.2.2]
  · simp [hall]
  · simp [hall]

/-- The value is in the text. -/
theorem value_eq (m : Numeral) :
    m.value = if (leading m.text).1 then -((leading m.text).2 : ℤ) else (leading m.text).2 := by
  rw [m.leading_text, value]
  simp

end Numeral

/-! ## The variables -/

section Variables

variable {α : Type*} [DecidableEq α]

/-- `fromString` of a variable whose zero and whose conversion are given: what it returns, and
`m_value` after it. -/
def fromString (zero : α) (convert : List UInt8 → α) (value : List UInt8) : Bool × α :=
  if value = [] then (true, zero)
  else (!(value ≠ [48] && convert value = zero), convert value)

/-- What is accepted is the text of the number that the variable then has. -/
def Exact (fromString : List UInt8 → Bool × α) (toInt : α → ℤ) (value : List UInt8) : Prop :=
  (fromString value).1 = true → ∃ m : Numeral, m.text = value ∧ m.value = toInt (fromString value).2

/-- A conversion is right where the number is in the range of the type. -/
structure Converts (zero : α) (convert : List UInt8 → α) (toInt : α → ℤ) : Prop where
  toInt_zero : toInt zero = 0
  convert_text : ∀ (m : Numeral) (a : α), m.value = toInt a → convert m.text = a

variable {zero : α} {convert : List UInt8 → α} {toInt : α → ℤ} {value : List UInt8}

/-- **What is read exactly.**  Apart from the numbers of the type these are the texts that are taken
for errors. -/
theorem reads_exact_iff (h : Converts zero convert toInt) (hne : value ≠ []) :
    Exact (fromString zero convert) toInt value ↔
      (∃ (m : Numeral) (a : α), m.text = value ∧ m.value = toInt a) ∨ convert value = zero := by
  unfold Exact fromString
  rw [if_neg hne]
  dsimp only
  constructor
  · intro hexact
    by_cases hzero : convert value = zero
    · exact Or.inr hzero
    · obtain ⟨m, htext, hvalue⟩ := hexact (by simp [hzero])
      exact Or.inl ⟨m, _, htext, hvalue⟩
  · rintro (⟨m, a, rfl, hvalue⟩ | hzero) haccepted
    · exact ⟨m, rfl, by rw [hvalue, h.convert_text m a hvalue]⟩
    · -- the only zero that is accepted is "0"
      have htext : value = [48] := by
        by_contra hother
        simp [hzero, hother] at haccepted
      refine ⟨Numeral.ofInt 0, htext.symm, ?_⟩
      rw [Numeral.value_ofInt, hzero, h.toInt_zero]

/-- What is printed is read back. -/
theorem fromString_ofInt (h : Converts zero convert toInt) (a : α) :
    fromString zero convert (Numeral.ofInt (toInt a)).text = (true, a) := by
  have hconvert := h.convert_text _ a (Numeral.value_ofInt (toInt a))
  have hne : (Numeral.ofInt (toInt a)).text ≠ [] :=
    List.append_ne_nil_of_right_ne_nil _ (Numeral.digits_ne_nil _)
  unfold fromString
  rw [if_neg hne, hconvert]
  by_cases hzero : a = zero
  · rw [hzero, h.toInt_zero]
    simp [Numeral.text, Numeral.ofInt, decimal]
  · simp [hzero]

end Variables

namespace UINT16

/-- `UINT16::toString`. -/
def toString (value : UInt16) : List UInt8 := (Numeral.ofInt value.toNat).text

/-- `static_cast<uint16_t>` of what `strtoul` returns. -/
def convert (value : List UInt8) : UInt16 := UInt16.ofNat (strtoull value)

/-- `UINT16::fromString`. -/
def fromString (value : List UInt8) : Bool × UInt16 := IntegerVars.fromString 0 convert value

theorem converts : Converts 0 convert (fun v => (v.toNat : ℤ)) where
  toInt_zero := rfl
  convert_text m a hvalue := by
    have hlt := a.toNat_lt
    have hread : strtoull m.text = a.toNat := by
      rw [strtoull_eq, m.leading_text]
      dsimp only
      unfold Numeral.value at hvalue
      by_cases hminus : m.sign = [45]
      · -- behind a minus only zero is in the range
        rw [if_pos hminus] at hvalue
        rw [hminus, if_neg (by omega), if_pos (by rfl)]
        omega
      · rw [if_neg hminus] at hvalue
        rw [if_neg (by omega), if_neg (by simpa using hminus)]
        omega
    rw [convert, hread, UInt16.ofNat_toNat]

theorem convert_eq_zero_iff (value : List UInt8) :
    convert value = 0 ↔ strtoull value % 2 ^ 16 = 0 := by
  rw [convert, ← UInt16.toNat_inj, UInt16.toNat_ofNat']
  rfl

end UINT16

namespace INT8

/-- `INT8::toString`. -/
def toString (value : Int8) : List UInt8 := (Numeral.ofInt value.toInt).text

/-- `static_cast<int8_t>` of what `strtol` returns. -/
def convert (value : List UInt8) : Int8 := Int8.ofInt (strtol value)

/-- `INT8::fromString`. -/
def fromString (value : List UInt8) : Bool × Int8 := IntegerVars.fromString 0 convert value

theorem converts : Converts 0 convert Int8.toInt where
  toInt_zero := rfl
  convert_text m a hvalue := by
    have hle := a.le_toInt
    have hlt := a.toInt_lt
    have hread : strtol m.text = a.toInt := by
      unfold strtol
      rw [m.leading_text]
      dsimp only
      unfold Numeral.value at hvalue
      by_cases hminus : m.sign = [45]
      · rw [if_pos hminus] at hvalue
        rw [hminus, if_pos (by rfl)]
        omega
      · rw [if_neg hminus] at hvalue
        rw [if_neg (by simpa using hminus)]
        omega
    rw [convert, hread, Int8.ofInt_toInt]

theorem convert_eq_zero_iff (value : List UInt8) :
    convert value = 0 ↔ strtol value % 2 ^ 8 = 0 := by
  rw [convert, ← Int8.toInt_inj, Int8.toInt_ofInt, Int8.toInt_zero, Int.bmod_def]
  unfold Int8.size
  omega

end INT8

/-- The text of a number from `lo` on and below `hi`. -/
def InRange (lo hi : ℤ) (value : List UInt8) : Prop :=
  ∃ m : Numeral, m.text = value ∧ lo ≤ m.value ∧ m.value < hi

/-- **The integer variables.**  A text is read exactly if it is the text of a number of the type, or
if it is refused because zero comes of it; and what is printed is read back. -/
theorem integers_exact_iff {value : List UInt8} (hne : value ≠ []) :
    (Exact UINT16.fromString (fun v => (v.toNat : ℤ)) value ↔
        InRange 0 (2 ^ 16) value ∨ strtoull value % 2 ^ 16 = 0) ∧
      (Exact INT8.fromString Int8.toInt value ↔
        InRange (-2 ^ 7) (2 ^ 7) value ∨ strtol value % 2 ^ 8 = 0) ∧
      (∀ v, UINT16.fromString (UINT16.toString v) = (true, v)) ∧
      ∀ v, INT8.fromString (INT8.toString v) = (true, v) := by
  refine ⟨?_, ?_, fromString_ofInt UINT16.converts, fromString_ofInt INT8.converts⟩
  · refine (reads_exact_iff UINT16.converts hne).trans ?_
    rw [UINT16.convert_eq_zero_iff]
    refine or_congr_left ⟨?_, ?_⟩
    · rintro ⟨m, a, htext, hvalue⟩
      have hlt := a.toNat_lt
      exact ⟨m, htext, by omega, by omega⟩
    · rintro ⟨m, htext, hle, hlt⟩
      refine ⟨m, UInt16.ofNat m.value.toNat, htext, ?_⟩
      rw [UInt16.toNat_ofNat', Nat.mod_eq_of_lt (by omega)]
      omega
  · refine (reads_exact_iff INT8.converts hne).trans ?_
    rw [INT8.convert_eq_zero_iff]
    refine or_congr_left ⟨?_, ?_⟩
    · rintro ⟨m, a, htext, hvalue⟩
      have hle := a.le_toInt
      have hlt := a.toInt_lt
      exact ⟨m, htext, by omega, by omega⟩
    · rintro ⟨m, htext, hle, hlt⟩
      refine ⟨m, Int8.ofInt m.value, htext, ?_⟩
      rw [Int8.toInt_ofInt, Int.bmod_def]
      unfold Int8.size
      omega

/-- The text "-0" is refused by both. -/
theorem integers_exact_minus_zero :
    (Exact UINT16.fromString (fun v => (v.toNat : ℤ)) [45, 48] ↔
        InRange 0 (2 ^ 16) [45, 48] ∨ strtoull [45, 48] % 2 ^ 16 = 0) ∧
      (Exact INT8.fromString Int8.toInt [45, 48] ↔
        InRange (-2 ^ 7) (2 ^ 7) [45, 48] ∨ strtol [45, 48] % 2 ^ 8 = 0) ∧
      (∀ v, UINT16.fromString (UINT16.toString v) = (true, v)) ∧
      ∀ v, INT8.fromString (INT8.toString v) = (true, v) :=
  integers_exact_iff (by decide)

/-- "65537" is read as 1, and so is "257" by the other type. -/
theorem not_integers_exact :
    ¬ Exact UINT16.fromString (fun v => (v.toNat : ℤ)) (bytesOf "65537") ∧
      ¬ Exact INT8.fromString Int8.toInt (bytesOf "257") := by
  refine ⟨fun h => ?_, fun h => ?_⟩
  · obtain ⟨m, htext, hvalue⟩ := h (by decide)
    rw [m.value_eq, htext] at hvalue
    revert hvalue
    decide
  · obtain ⟨m, htext, hvalue⟩ := h (by decide)
    rw [m.value_eq, htext] at hvalue
    revert hvalue
    decide

end IntegerVars
end Mantids
