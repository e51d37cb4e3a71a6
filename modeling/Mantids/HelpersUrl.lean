/-
# URL encoding of whole strings

`Helpers::Encoders` (`Helpers/encoders.cpp`) has an encoder and a decoder of its own, which take a
string at once.  A `char` is signed: a byte above 127 is negative there.

* `toURL`, `calcURLEncodingExpandedStringSize` — the encoder, which writes into a buffer of the
  size that is computed before;
* `fromURL` — the decoder;
* `startsEscape`, `HasEscape` — a `%` with two digits behind it;
* `toURL_eq` — the buffer is filled exactly;
* `fromURL_toURL_iff` — the texts that come back.
-/
import Mantids.UrlCodec

namespace Mantids

namespace HelperEncoders

/-- `URL_ENCODING_TYPE`. -/
inductive UrlEncodingType where
  | strictEncoding
  | quoteprintEncoding
deriving DecidableEq

/-! ## The encoder -/

/-- `getIfMustBeURLEncoded`.  No byte above 127 is printable. -/
def getIfMustBeURLEncoded (c : UInt8) : UrlEncodingType → Bool
  | .quoteprintEncoding => if c = 34 then true else !(32 ≤ c && c ≤ 126)
  | .strictEncoding => !isalnum c

/-- `toHexFrom4bitChar`.  The division of a negative `char` is rounded towards zero. -/
def toHexFrom4bitChar (nibble : Int8) (position : ℕ) : UInt8 :=
  let nibble :=
    if position = 1 then nibble / 16 else if position = 2 then nibble &&& 15 else nibble
  if 0 ≤ nibble ∧ nibble ≤ 9 then (48 + nibble).toUInt8
  else if 10 ≤ nibble ∧ nibble ≤ 15 then (65 + nibble - 10).toUInt8
  else 48

def calcURLEncodingExpandedStringSize (str : List UInt8) (t : UrlEncodingType) : ℕ :=
  (str.map fun c => if getIfMustBeURLEncoded c t then 3 else 1).sum

/-- `out[x++] = c`; `none` behind the end of `out`. -/
def put (out : List UInt8 × ℕ) (c : UInt8) : Option (List UInt8 × ℕ) :=
  if out.2 < out.1.length then some (out.1.set out.2 c, out.2 + 1) else none

def putAll : List UInt8 × ℕ → List UInt8 → Option (List UInt8 × ℕ)
  | out, [] => some out
  | out, c :: cs => (put out c).bind fun out => putAll out cs

/-- What the loop of `toURL` writes for a byte. -/
def escapeByte (t : UrlEncodingType) (c : UInt8) : List UInt8 :=
  if getIfMustBeURLEncoded c t then
    [37, toHexFrom4bitChar c.toInt8 1, toHexFrom4bitChar c.toInt8 2]
  else [c]

def toURLLoop (t : UrlEncodingType) : List UInt8 × ℕ → List UInt8 → Option (List UInt8 × ℕ)
  | out, [] => some out
  | out, c :: str => (putAll out (escapeByte t c)).bind fun out => toURLLoop t out str

/-- `toURL`. -/
def toURL (str : List UInt8) (t : UrlEncodingType) : Option (List UInt8) :=
  if str = [] then some []
  else
    (toURLLoop t (List.replicate (calcURLEncodingExpandedStringSize str t) 32, 0) str).map (·.1)

/-! ## The decoder -/

def hexToValue (v : UInt8) : ℕ :=
  if 48 ≤ v ∧ v ≤ 57 then v.toNat - 48
  else if 65 ≤ v ∧ v ≤ 70 then v.toNat - 65 + 10
  else if 97 ≤ v ∧ v ≤ 102 then v.toNat - 97 + 10
  else 0

/-- `fromURL`. -/
def fromURL : List UInt8 → List UInt8
  | [] => []
  | c :: a :: b :: str =>
    if c = 37 ∧ isxdigit a ∧ isxdigit b then
      UInt8.ofNat (hexToValue a * 16 + hexToValue b) :: fromURL str
    else c :: fromURL (a :: b :: str)
  | c :: str => c :: fromURL str

/-! ## Escapes -/

/-- A `%` and two digits. -/
def startsEscape : List UInt8 → Bool
  | c :: a :: b :: _ => c == 37 && isxdigit a && isxdigit b
  | _ => false

/-- A text with an escape somewhere. -/
def HasEscape (s : List UInt8) : Prop := ∃ t, t <:+ s ∧ startsEscape t = true

theorem hasEscape_nil : ¬ HasEscape [] := by
  rintro ⟨t, ht, hstart⟩
  obtain rfl := List.suffix_nil.mp ht
  exact Bool.noConfusion hstart

theorem hasEscape_cons_iff (c : UInt8) (s : List UInt8) :
    HasEscape (c :: s) ↔ startsEscape (c :: s) = true ∨ HasEscape s := by
  constructor
  · rintro ⟨t, ht, hstart⟩
    rcases List.suffix_cons_iff.mp ht with rfl | ht
    · exact Or.inl hstart
    · exact Or.inr ⟨t, ht, hstart⟩
  · rintro (hstart | ⟨t, ht, hstart⟩)
    · exact ⟨c :: s, List.suffix_rfl, hstart⟩
    · exact ⟨t, ht.trans (List.suffix_cons c s), hstart⟩

/-- An escape and what it is made of. -/
theorem exists_of_startsEscape {s : List UInt8} (h : startsEscape s = true) :
    ∃ a b rest, s = 37 :: a :: b :: rest ∧ isxdigit a = true ∧ isxdigit b = true := by
  rcases s with _ | ⟨c, _ | ⟨a, _ | ⟨b, rest⟩⟩⟩
  · exact Bool.noConfusion h
  · exact Bool.noConfusion h
  · exact Bool.noConfusion h
  · simp only [startsEscape, Bool.and_eq_true, beq_iff_eq] at h
    exact ⟨a, b, rest, by rw [h.1.1], h.1.2, h.2⟩

theorem startsEscape_of_ne {c : UInt8} (hc : c ≠ 37) (s : List UInt8) :
    startsEscape (c :: s) = false := by
  rw [← Bool.not_eq_true]
  intro h
  obtain ⟨a, b, rest, hs, -⟩ := exists_of_startsEscape h
  exact hc (List.cons.inj hs).1

theorem fromURL_escape {a b : UInt8} (ha : isxdigit a = true) (hb : isxdigit b = true)
    (s : List UInt8) :
    fromURL (37 :: a :: b :: s) =
      UInt8.ofNat (hexToValue a * 16 + hexToValue b) :: fromURL s := by
  rw [fromURL, if_pos ⟨rfl, ha, hb⟩]

/-- Any other byte is itself. -/
theorem fromURL_literal {c : UInt8} {s : List UInt8} (h : startsEscape (c :: s) = false) :
    fromURL (c :: s) = c :: fromURL s := by
  rcases s with _ | ⟨a, _ | ⟨b, rest⟩⟩
  · rfl
  · rfl
  · rw [fromURL, if_neg]
    rintro ⟨rfl, ha, hb⟩
    simp [startsEscape, ha, hb] at h

/-- No text gets longer. -/
theorem length_fromURL_le (s : List UInt8) : (fromURL s).length ≤ s.length := by
  induction s using fromURL.induct with
  | case1 => exact le_refl _
  | case2 c a b s h ih =>
      rw [fromURL, if_pos h, List.length_cons, List.length_cons, List.length_cons, List.length_cons]
      omega
  | case3 c a b s h ih =>
      rw [fromURL, if_neg h, List.length_cons, List.length_cons]
      exact Nat.succ_le_succ ih
  | case4 c s hs ih =>
      have hstep : fromURL (c :: s) = c :: fromURL s := by
        rcases s with _ | ⟨a, _ | ⟨b, rest⟩⟩
        · rfl
        · rfl
        · exact absurd rfl (hs a b rest)
      rw [hstep, List.length_cons, List.length_cons]
      exact Nat.succ_le_succ ih

/-! ## The buffer -/

/-- A byte goes where the first blank is. -/
theorem put_blank (done rest : List UInt8) (b c : UInt8) :
    put (done ++ b :: rest, done.length) c = some (done ++ c :: rest, done.length + 1) := by
  have hroom : done.length < (done ++ b :: rest).length := by
    rw [List.length_append, List.length_cons]
    omega
  have hset : (done ++ b :: rest).set done.length c = done ++ c :: rest := by
    rw [List.set_append_right _ _ (le_refl _), Nat.sub_self, List.set_cons_zero]
  simp only [put]
  rw [if_pos hroom, hset]

/-- Several bytes take as many blanks. -/
theorem putAll_blanks (done cs : List UInt8) (n : ℕ) :
    putAll (done ++ List.replicate (cs.length + n) 32, done.length) cs =
      some (done ++ cs ++ List.replicate n 32, (done ++ cs).length) := by
  induction cs generalizing done with
  | nil => simp [putAll]
  | cons c cs ih =>
      have hblanks : List.replicate ((c :: cs).length + n) (32 : UInt8) =
          32 :: List.replicate (cs.length + n) 32 := by
        rw [List.length_cons, Nat.add_right_comm, List.replicate_succ]
      have hrest := ih (done ++ [c])
      rw [List.append_assoc, List.singleton_append, List.length_append, List.length_singleton]
        at hrest
      rw [putAll, hblanks, put_blank, Option.bind_some, hrest, List.append_assoc done [c],
        List.singleton_append]

theorem length_escapeByte (t : UrlEncodingType) (c : UInt8) :
    (escapeByte t c).length = if getIfMustBeURLEncoded c t then 3 else 1 := by
  unfold escapeByte
  split <;> rfl

/-- What the buffer holds at the end. -/
def encoded (t : UrlEncodingType) (str : List UInt8) : List UInt8 := str.flatMap (escapeByte t)

theorem encoded_cons (t : UrlEncodingType) (c : UInt8) (str : List UInt8) :
    encoded t (c :: str) = escapeByte t c ++ encoded t str := List.flatMap_cons

theorem calcSize_cons (t : UrlEncodingType) (c : UInt8) (str : List UInt8) :
    calcURLEncodingExpandedStringSize (c :: str) t =
      (escapeByte t c).length + calcURLEncodingExpandedStringSize str t := by
  rw [length_escapeByte]
  rfl

theorem length_encoded (t : UrlEncodingType) (str : List UInt8) :
    (encoded t str).length = calcURLEncodingExpandedStringSize str t := by
  induction str with
  | nil => rfl
  | cons c str ih => rw [encoded_cons, List.length_append, ih, calcSize_cons]

theorem toURLLoop_blanks (t : UrlEncodingType) (done str : List UInt8) :
    toURLLoop t (done ++ List.replicate (calcURLEncodingExpandedStringSize str t) 32,
        done.length) str =
      some (done ++ encoded t str, (done ++ encoded t str).length) := by
  induction str generalizing done with
  | nil => simp [toURLLoop, encoded, calcURLEncodingExpandedStringSize]
  | cons c str ih =>
      rw [toURLLoop, calcSize_cons, putAll_blanks, Option.bind_some, ih, encoded_cons,
        List.append_assoc]

/-- **The encoder.**  Nothing is written behind the buffer, and all of it is filled. -/
theorem toURL_eq (str : List UInt8) (t : UrlEncodingType) :
    toURL str t = some (encoded t str) := by
  unfold toURL
  by_cases hstr : str = []
  · rw [if_pos hstr, hstr]
    rfl
  · have hloop := toURLLoop_blanks t [] str
    rw [List.nil_append, List.length_nil, List.nil_append] at hloop
    rw [if_neg hstr, hloop]
    rfl

/-! ## What comes back -/

/-- What becomes of a byte that is encoded and decoded. -/
def readBack (t : UrlEncodingType) (c : UInt8) : UInt8 :=
  if getIfMustBeURLEncoded c t then
    UInt8.ofNat (hexToValue (toHexFrom4bitChar c.toInt8 1) * 16 +
      hexToValue (toHexFrom4bitChar c.toInt8 2))
  else c

/-- Above 127 the first digit is a zero. -/
theorem readBack_eq_iff (t : UrlEncodingType) (c : UInt8) : readBack t c = c ↔ c < 128 := by
  cases t <;> revert c <;> decide +kernel

/-- The digits are digits, and a `%` that is left as it is has not been encoded. -/
theorem toHexFrom4bitChar_isxdigit (c : UInt8) :
    isxdigit (toHexFrom4bitChar c.toInt8 1) = true ∧
      isxdigit (toHexFrom4bitChar c.toInt8 2) = true := by
  revert c
  decide +kernel

theorem getIfMustBeURLEncoded_of_isxdigit {c : UInt8} (h : isxdigit c = true)
    (t : UrlEncodingType) : getIfMustBeURLEncoded c t = false := by
  cases t <;> revert c <;> decide +kernel

/-- The first digit of an encoded text is the first byte of the text. -/
theorem head_of_encoded {t : UrlEncodingType} {str rest : List UInt8} {a : UInt8}
    (ha : isxdigit a = true) (h : encoded t str = a :: rest) :
    ∃ str', str = a :: str' ∧ rest = encoded t str' := by
  rcases str with _ | ⟨c, str⟩
  · exact absurd h (List.cons_ne_nil _ _).symm
  · rw [encoded_cons, escapeByte] at h
    by_cases hc : getIfMustBeURLEncoded c t = true
    · rw [if_pos hc] at h
      obtain ⟨rfl, -⟩ := List.cons.inj h
      exact absurd ha (by decide)
    · rw [if_neg hc] at h
      obtain ⟨rfl, hrest⟩ := List.cons.inj h
      exact ⟨str, rfl, hrest.symm⟩

/-- A `%` in front of an encoded text starts an escape exactly if it does in front of the text. -/
theorem startsEscape_encoded (t : UrlEncodingType) (str : List UInt8) :
    startsEscape (37 :: encoded t str) = startsEscape (37 :: str) := by
  rw [Bool.eq_iff_iff]
  constructor
  · intro h
    obtain ⟨a, b, rest, hs, ha, hb⟩ := exists_of_startsEscape h
    obtain ⟨str', rfl, hrest⟩ := head_of_encoded ha (List.cons.inj hs).2
    obtain ⟨str'', rfl, -⟩ := head_of_encoded hb hrest.symm
    simp [startsEscape, ha, hb]
  · intro h
    obtain ⟨a, b, rest, hs, ha, hb⟩ := exists_of_startsEscape h
    obtain ⟨-, rfl⟩ := List.cons.inj hs
    rw [encoded_cons, encoded_cons, escapeByte, escapeByte,
      if_neg (by simp [getIfMustBeURLEncoded_of_isxdigit ha]),
      if_neg (by simp [getIfMustBeURLEncoded_of_isxdigit hb])]
    simp [startsEscape, ha, hb]

/-- A byte comes back alone, unless it is a `%` that starts an escape with what follows it. -/
theorem fromURL_encoded_cons {t : UrlEncodingType} {c : UInt8} {str : List UInt8}
    (h : getIfMustBeURLEncoded c t = true ∨ startsEscape (c :: str) = false) :
    fromURL (encoded t (c :: str)) = readBack t c :: fromURL (encoded t str) := by
  rw [encoded_cons, escapeByte, readBack]
  by_cases hc : getIfMustBeURLEncoded c t = true
  · obtain ⟨hhigh, hlow⟩ := toHexFrom4bitChar_isxdigit c
    rw [if_pos hc, if_pos hc]
    exact fromURL_escape hhigh hlow _
  · rw [if_neg hc, if_neg hc]
    apply fromURL_literal
    by_cases hpercent : c = 37
    · subst hpercent
      exact (startsEscape_encoded t str).trans (h.resolve_left hc)
    · exact startsEscape_of_ne hpercent _

/-- An escape in the text that is not encoded comes back as one byte. -/
theorem fromURL_encoded_escape {t : UrlEncodingType} {c : UInt8} {str : List UInt8}
    (hc : getIfMustBeURLEncoded c t = false) (h : startsEscape (c :: str) = true) :
    ∃ a b v str', c :: str = 37 :: a :: b :: str' ∧ t = .quoteprintEncoding ∧
      fromURL (encoded t (c :: str)) = v :: fromURL (encoded t str') := by
  obtain ⟨a, b, str', hs, ha, hb⟩ := exists_of_startsEscape h
  obtain ⟨rfl, rfl⟩ := List.cons.inj hs
  refine ⟨a, b, UInt8.ofNat (hexToValue a * 16 + hexToValue b), str', rfl, ?_, ?_⟩
  · cases t with
    | quoteprintEncoding => rfl
    | strictEncoding => exact absurd hc (by decide)
  · rw [encoded_cons, encoded_cons, encoded_cons, escapeByte, escapeByte, escapeByte, hc,
      getIfMustBeURLEncoded_of_isxdigit ha, getIfMustBeURLEncoded_of_isxdigit hb]
    exact fromURL_escape ha hb _

/-- The texts that come back: no byte is above 127, and no escape is left as it is. -/
def ComesBack (t : UrlEncodingType) (str : List UInt8) : Prop :=
  (∀ c ∈ str, c < 128) ∧ (t = .quoteprintEncoding → ¬ HasEscape str)

theorem comesBack_cons_iff {t : UrlEncodingType} {c : UInt8} {str : List UInt8}
    (h : getIfMustBeURLEncoded c t = true ∨ startsEscape (c :: str) = false) :
    ComesBack t (c :: str) ↔ c < 128 ∧ ComesBack t str := by
  have hstart : t = .quoteprintEncoding → ¬ startsEscape (c :: str) = true := by
    rintro rfl hstart
    obtain ⟨a, b, rest, hs, -⟩ := exists_of_startsEscape hstart
    obtain ⟨rfl, -⟩ := List.cons.inj hs
    rcases h with h | h
    · exact absurd h (by decide)
    · rw [h] at hstart
      exact Bool.noConfusion hstart
  unfold ComesBack
  rw [List.forall_mem_cons, and_assoc, hasEscape_cons_iff]
  constructor
  · rintro ⟨hc, hall, hno⟩
    exact ⟨hc, hall, fun ht => (not_or.mp (hno ht)).2⟩
  · rintro ⟨hc, hall, hno⟩
    exact ⟨hc, hall, fun ht => not_or.mpr ⟨hstart ht, hno ht⟩⟩

/-- By induction on the length of the text: an escape takes three bytes at once, and what comes
back is then too short. -/
theorem fromURL_encoded_spec (t : UrlEncodingType) (str : List UInt8) :
    (fromURL (encoded t str)).length ≤ str.length ∧
      (fromURL (encoded t str) = str ↔ ComesBack t str) := by
  induction hn : str.length using Nat.strong_induction_on generalizing str with
  | _ n ih =>
    rcases str with _ | ⟨c, str⟩
    · refine ⟨Nat.zero_le _, iff_of_true rfl ⟨List.forall_mem_nil _, fun _ => hasEscape_nil⟩⟩
    · rw [List.length_cons] at hn
      by_cases h : getIfMustBeURLEncoded c t = true ∨ startsEscape (c :: str) = false
      · obtain ⟨hlen, hiff⟩ := ih str.length (by omega) str rfl
        rw [fromURL_encoded_cons h, comesBack_cons_iff h, List.length_cons, List.cons_eq_cons,
          readBack_eq_iff, hiff]
        exact ⟨by omega, Iff.rfl⟩
      · rw [not_or, Bool.not_eq_true, Bool.not_eq_false] at h
        -- a literal `%` in front of two digits: one byte comes back for the three
        obtain ⟨a, b, v, str', hs, ht, hdecode⟩ := fromURL_encoded_escape h.1 h.2
        have hcount := congrArg List.length hs
        simp only [List.length_cons] at hcount
        obtain ⟨hlen, -⟩ := ih str'.length (by omega) str' rfl
        have hshort : (fromURL (encoded t (c :: str))).length < (c :: str).length := by
          rw [hdecode, List.length_cons, List.length_cons]
          omega
        rw [List.length_cons] at hshort
        refine ⟨by omega, iff_of_false ?_ ?_⟩
        · rw [← List.length_cons] at hshort
          exact ne_of_apply_ne List.length hshort.ne
        · rintro ⟨-, hno⟩
          exact hno ht ((hasEscape_cons_iff c str).mpr (Or.inl h.2))

/-- **Round trip.**  The length is always the one that is computed before; the text comes back
exactly if no byte is above 127 and, where only the printable bytes are left as they are, it has no
escape of its own. -/
theorem fromURL_toURL_iff (str : List UInt8) (t : UrlEncodingType) :
    (∃ out, toURL str t = some out ∧ fromURL out = str ∧
      out.length = calcURLEncodingExpandedStringSize str t) ↔
    (∀ c ∈ str, c < 128) ∧ (t = .quoteprintEncoding → ¬ HasEscape str) := by
  rw [toURL_eq]
  constructor
  · rintro ⟨out, hout, hback, -⟩
    obtain rfl := Option.some.inj hout
    exact (fromURL_encoded_spec t str).2.mp hback
  · intro h
    exact ⟨encoded t str, rfl, (fromURL_encoded_spec t str).2.mpr h, length_encoded t str⟩

/-- A letter of a text in UTF-8, and a percent sign that is left as it is. -/
theorem not_fromURL_toURL :
    ¬ ∀ (str : List UInt8) (t : UrlEncodingType), ∃ out, toURL str t = some out ∧
      fromURL out = str ∧ out.length = calcURLEncodingExpandedStringSize str t := by
  intro hclaim
  obtain ⟨out, hout, hback, -⟩ := hclaim [195, 169] .strictEncoding
  obtain rfl := Option.some.inj ((toURL_eq _ _).symm.trans hout)
  exact absurd hback (by decide)

end HelperEncoders

end Mantids
