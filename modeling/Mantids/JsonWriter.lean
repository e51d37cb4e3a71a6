/-
# The text JsonCpp writes for a value

`Json::FastWriter` writes a value on one line.  Inside a string it escapes the quotation mark, the
backslash and the control characters; which of the escapes of JSON it takes is left open.  It also
writes characters outside ASCII as `\uXXXX`, which is left out: their bytes stand here as they are.

* `Value`, `Value.texts` — JSON values over bytes, and the strings in them;
* `NumberText` — a number, as the text it has;
* `FastWriter`, `FastWriter.write` — a choice of escapes, and the text that is written;
* `fastWriter` — the short escapes where there are some;
* `FastWriter.printed_writeValue` — no control character is written.
-/
import Mantids.HttpConnection
import Mantids.UrlCodec

namespace Mantids

namespace JsonWriter

/-! ## Values -/

/-- `[0-9]+`. -/
def Digits : Type := {ds : List UInt8 // ds ≠ [] ∧ ∀ d ∈ ds, isdigit d = true}

def exponentMarks : List (List UInt8) :=
  [[101], [101, 43], [101, 45], [69], [69, 43], [69, 45]]

/-- The text of a number. -/
structure NumberText where
  negative : Bool := false
  whole : Digits
  fraction : Option Digits := none
  exponent : Option ({m : List UInt8 // m ∈ exponentMarks} × Digits) := none

namespace NumberText

def sign (n : NumberText) : List UInt8 := if n.negative then [45] else []

/-- What may follow the whole part. -/
def tail (n : NumberText) : List UInt8 :=
  (n.fraction.elim [] fun ds => 46 :: ds.1) ++ (n.exponent.elim [] fun e => e.1.1 ++ e.2.1)

def text (n : NumberText) : List UInt8 := n.sign ++ n.whole.1 ++ n.tail

end NumberText

/-- `Json::Value`. -/
inductive Value where
  | null
  | bool (b : Bool)
  | number (n : NumberText)
  | string (s : List UInt8)
  | array (xs : List Value)
  | object (ms : List (List UInt8 × Value))

mutual

/-- The strings in a value, member names included. -/
def Value.texts : Value → List (List UInt8)
  | .null | .bool _ | .number _ => []
  | .string s => [s]
  | .array xs => textsOfElements xs
  | .object ms => textsOfMembers ms

def textsOfElements : List Value → List (List UInt8)
  | [] => []
  | x :: xs => x.texts ++ textsOfElements xs

def textsOfMembers : List (List UInt8 × Value) → List (List UInt8)
  | [] => []
  | (k, x) :: ms => k :: x.texts ++ textsOfMembers ms

end

/-! ## Escapes -/

/-- Quotation mark, backslash and control characters. -/
def mustEscape (c : UInt8) : Bool := c < 32 || c = 34 || c = 92

/-- `\"`, `\\`, `\b`, `\f`, `\n`, `\r` and `\t`. -/
def shortEscapes : List (UInt8 × UInt8) :=
  [(34, 34), (92, 92), (8, 98), (12, 102), (10, 110), (13, 114), (9, 116)]

/-- `t` is an escape for the byte `c`, short or with four hexadecimal digits. -/
def IsEscape (c : UInt8) (t : List UInt8) : Prop :=
  (∃ e, (c, e) ∈ shortEscapes ∧ t = [92, e]) ∨
    ∃ a b, isxdigit a = true ∧ isxdigit b = true ∧ hexPairToByte a b = c ∧
      t = [92, 117, 48, 48, a, b]

/-- A `Json::FastWriter`. -/
structure FastWriter where
  escape : UInt8 → List UInt8
  isEscape : ∀ c, mustEscape c = true → IsEscape c (escape c)

namespace FastWriter

variable (w : FastWriter)

/-! ## The writer -/

def escapeByte (c : UInt8) : List UInt8 := if mustEscape c then w.escape c else [c]

def quoted (s : List UInt8) : List UInt8 := 34 :: (s.flatMap w.escapeByte ++ [34])

mutual

/-- `FastWriter::writeValue`. -/
def writeValue : Value → List UInt8
  | .null => bytesOf "null"
  | .bool b => bytesOf (if b then "true" else "false")
  | .number n => n.text
  | .string s => w.quoted s
  | .array xs => 91 :: (writeElements xs ++ [93])
  | .object ms => 123 :: (writeMembers ms ++ [125])

def writeElements : List Value → List UInt8
  | [] => []
  | x :: xs => writeValue x ++ (if xs = [] then [] else [44]) ++ writeElements xs

def writeMembers : List (List UInt8 × Value) → List UInt8
  | [] => []
  | (k, x) :: ms =>
    w.quoted k ++ 58 :: (writeValue x ++ (if ms = [] then [] else [44]) ++ writeMembers ms)

end

/-- `write`: the text ends its line. -/
def write (v : Value) : List UInt8 := w.writeValue v ++ [10]

end FastWriter

/-! ## The bytes of a text -/

/-- No control character is written, except for the line end. -/
def Printed (t : List UInt8) : Prop := ∀ c ∈ t, 32 ≤ c

instance (t : List UInt8) : Decidable (Printed t) :=
  decidable_of_iff (t.all fun c => 32 ≤ c) (by simp [Printed])

theorem printed_nil : Printed [] := fun _ hc => absurd hc List.not_mem_nil

theorem printed_append {s t : List UInt8} : Printed (s ++ t) ↔ Printed s ∧ Printed t :=
  List.forall_mem_append

theorem printed_cons {c : UInt8} {t : List UInt8} : Printed (c :: t) ↔ 32 ≤ c ∧ Printed t :=
  List.forall_mem_cons

theorem printed_of_isEscape {c : UInt8} {t : List UInt8} (h : IsEscape c t) : Printed t := by
  have hdigit : ∀ x, isxdigit x = true → 32 ≤ x := by
    intro x hx
    unfold isxdigit at hx
    grind
  have hshort : Printed (shortEscapes.map Prod.snd) := by decide
  rcases h with ⟨e, he, rfl⟩ | ⟨a, b, ha, hb, -, rfl⟩
  · simp only [printed_cons, printed_nil, and_true]
    exact ⟨by decide, hshort e (List.mem_map.mpr ⟨_, he, rfl⟩)⟩
  · simp only [printed_cons, printed_nil, and_true]
    exact ⟨by decide, by decide, by decide, by decide, hdigit a ha, hdigit b hb⟩

namespace NumberText

/-- Digits, signs, the decimal point and the mark of the exponent. -/
def isNumberByte (c : UInt8) : Bool :=
  isdigit c || c = 43 || c = 45 || c = 46 || c = 69 || c = 101

theorem isNumberByte_of_mem_digits (ds : Digits) : ∀ c ∈ ds.1, isNumberByte c = true := by
  intro c hc
  simp only [isNumberByte, ds.2.2 c hc, Bool.true_or]

theorem isNumberByte_of_mem_text (n : NumberText) : ∀ c ∈ n.text, isNumberByte c = true := by
  have hmarks : ∀ m ∈ exponentMarks, m.all isNumberByte = true := by decide
  unfold text sign tail
  simp only [List.forall_mem_append]
  refine ⟨⟨?_, isNumberByte_of_mem_digits _⟩, ?_, ?_⟩
  · split
    · exact fun c hc => by rw [List.mem_singleton.mp hc]; decide
    · exact fun c hc => absurd hc List.not_mem_nil
  · rcases n.fraction with _ | ds
    · exact fun c hc => absurd hc List.not_mem_nil
    · exact List.forall_mem_cons.mpr ⟨by decide, isNumberByte_of_mem_digits ds⟩
  · rcases n.exponent with _ | e
    · exact fun c hc => absurd hc List.not_mem_nil
    · exact List.forall_mem_append.mpr
        ⟨List.all_eq_true.mp (hmarks _ e.1.2), isNumberByte_of_mem_digits e.2⟩

theorem printed_text (n : NumberText) : Printed n.text := by
  have hbyte : ∀ c, isNumberByte c = true → 32 ≤ c := by
    intro c hc
    unfold isNumberByte isdigit at hc
    grind
  exact fun c hc => hbyte c (n.isNumberByte_of_mem_text c hc)

end NumberText

namespace FastWriter

variable (w : FastWriter)

theorem printed_quoted (s : List UInt8) : Printed (w.quoted s) := by
  rw [quoted, printed_cons, printed_append]
  refine ⟨by decide, ?_, printed_cons.mpr ⟨by decide, printed_nil⟩⟩
  intro x hx
  obtain ⟨c, -, hx⟩ := List.mem_flatMap.mp hx
  unfold escapeByte at hx
  split at hx
  · exact printed_of_isEscape (w.isEscape c ‹_›) x hx
  · rw [List.mem_singleton.mp hx]
    simp only [mustEscape, Bool.or_eq_true, decide_eq_true_eq, not_or, UInt8.not_lt] at *
    tauto

/-- A comma stands between two elements. -/
theorem printed_comma {p : Prop} [Decidable p] : Printed (if p then [] else [44]) := by
  split
  · exact printed_nil
  · exact printed_cons.mpr ⟨by decide, printed_nil⟩

mutual

theorem printed_writeValue : ∀ v, Printed (w.writeValue v)
  | .null => by unfold writeValue; decide
  | .bool b => by unfold writeValue; cases b <;> decide
  | .number n => by unfold writeValue; exact n.printed_text
  | .string s => by unfold writeValue; exact w.printed_quoted s
  | .array xs => by
      unfold writeValue
      rw [printed_cons, printed_append]
      exact ⟨by decide, printed_writeElements xs, printed_cons.mpr ⟨by decide, printed_nil⟩⟩
  | .object ms => by
      unfold writeValue
      rw [printed_cons, printed_append]
      exact ⟨by decide, printed_writeMembers ms, printed_cons.mpr ⟨by decide, printed_nil⟩⟩

theorem printed_writeElements : ∀ xs, Printed (w.writeElements xs)
  | [] => by unfold writeElements; exact printed_nil
  | x :: xs => by
      unfold writeElements
      rw [printed_append, printed_append]
      exact ⟨⟨printed_writeValue x, printed_comma⟩, printed_writeElements xs⟩

theorem printed_writeMembers : ∀ ms, Printed (w.writeMembers ms)
  | [] => by unfold writeMembers; exact printed_nil
  | (k, x) :: ms => by
      unfold writeMembers
      rw [printed_append, printed_cons, printed_append, printed_append]
      exact ⟨w.printed_quoted k, by decide, ⟨printed_writeValue x, printed_comma⟩,
        printed_writeMembers ms⟩

end

end FastWriter

/-! ## The short escapes where there are some -/

def hexDigit (n : UInt8) : UInt8 := if n < 10 then 48 + n else 87 + n

def escape (c : UInt8) : List UInt8 :=
  match shortEscapes.lookup c with
  | some e => [92, e]
  | none => [92, 117, 48, 48, hexDigit (c / 16), hexDigit (c % 16)]

theorem hexDigits_of_byte (c : UInt8) :
    isxdigit (hexDigit (c / 16)) = true ∧ isxdigit (hexDigit (c % 16)) = true ∧
      hexPairToByte (hexDigit (c / 16)) (hexDigit (c % 16)) = c := by
  revert c
  decide +kernel

theorem isEscape_escape (c : UInt8) : IsEscape c (escape c) := by
  unfold escape
  rcases h : shortEscapes.lookup c with _ | e
  · obtain ⟨ha, hb, hc⟩ := hexDigits_of_byte c
    exact .inr ⟨_, _, ha, hb, hc, rfl⟩
  · obtain ⟨before, after, heq, -⟩ := List.lookup_eq_some_iff.mp h
    exact .inl ⟨e, by rw [heq]; simp, rfl⟩

def fastWriter : FastWriter where
  escape := escape
  isEscape c _ := isEscape_escape c

end JsonWriter

end Mantids
