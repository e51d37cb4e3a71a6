/-
# Obfuscated base64

`Encoders::encodeToBase64Obf` (`Helpers/encoders.cpp`) combines a string with what a generator draws
for a seed, and hands it to OpenSSL; `decodeFromBase64Obf` reads base64 by itself and combines every
byte with the next draw.

* `encodeToBase64` — OpenSSL's base64 of a buffer whose size is given as an `int`;
* `encodeToBase64Obf`, `decodeFromBase64Obf` — the two functions;
* `finish_digits` — the decoder takes base64 as it is defined, whatever is in the missing places of
  the last group;
* `decodeFromBase64Obf_iff` — the strings that come back.
-/
import Mantids.UrlCodec
import Mantids.MimeHeader
import Mantids.Lib.Base64
import Mantids.Lib.Keystream
import Mathlib.Data.Int.Init

namespace Mantids

open Keystream

namespace ObfuscatedBase64

/-- What a new `mt19937_64` gives through a `uniform_int_distribution<char>`, for every seed. -/
abbrev Draws := UInt64 → ℕ → UInt8

def xorByte (a b : UInt8) : UInt8 := a ^^^ b

/-! ## The encoder -/

/-- A `size_t` as an `int`. -/
def toInt (count : ℕ) : ℤ := Int.bmod count (2 ^ 32)

theorem toInt_lt (count : ℕ) : toInt count < 2 ^ 31 := by
  have hlt := Int.bmod_lt (x := count) (m := 2 ^ 32) (by decide)
  unfold toInt
  omega

theorem toInt_of_lt {count : ℕ} (h : count < 2 ^ 31) : toInt count = count :=
  Int.bmod_eq_of_le (by omega) (by omega)

/-- `encodeToBase64`.  `BIO_write` takes the size as an `int`, and writes nothing if that is not
positive. -/
def encodeToBase64 (buf : List UInt8) : List UInt8 :=
  if 0 < toInt buf.length then Base64.encode (buf.take (toInt buf.length).toNat) else []

/-- `encodeToBase64Obf`. -/
def encodeToBase64Obf (dis : Draws) (buf : List UInt8) (seed : UInt64) : List UInt8 :=
  encodeToBase64 (mask xorByte (dis seed) buf)

/-! ## The decoder -/

/-- `m_b64Chars`. -/
def b64Chars : List UInt8 :=
  bytesOf "ABCDEFGHIJKLMNOPQRSTUVWXYZabcdefghijklmnopqrstuvwxyz0123456789+/"

/-- `m_b64Chars.find` as an `unsigned char`, which is 255 for a character that is not found. -/
def find (c : UInt8) : UInt8 := ((b64Chars.idxOf? c).map UInt8.ofNat).getD 255

/-- `cont3`, of four values. -/
def cont3 (a b c d : UInt8) : List UInt8 :=
  [(a <<< 2) + ((b &&& 0x30) >>> 4), ((b &&& 0xf) <<< 4) + ((c &&& 0x3c) >>> 2),
    ((c &&& 0x3) <<< 6) + d]

/-- The variables of the function. -/
structure State where
  cont4 : List UInt8 := []
  decodedString : List UInt8 := []
  /-- How often the generator has been asked. -/
  drawn : ℕ := 0
deriving DecidableEq

/-- A group whose first bytes are written; the missing places of `cont4` are zeros. -/
def emit (dis : ℕ → UInt8) (s : State) (cont4 : List UInt8) (count : ℕ) : State :=
  let v := fun i => find (cont4.getD i 0)
  let bytes := (cont3 (v 0) (v 1) (v 2) (v 3)).take count
  { decodedString := s.decodedString ++ mask xorByte (fun i => dis (s.drawn + i)) bytes
    drawn := s.drawn + count }

/-- A character goes into the group, which is written when it is full. -/
def next (dis : ℕ → UInt8) (s : State) (c : UInt8) : State :=
  let cont4 := s.cont4 ++ [c]
  if cont4.length = 4 then emit dis s cont4 3 else { s with cont4 := cont4 }

def isDigit (c : UInt8) : Bool := c != 61 && (isalnum c || c == 47 || c == 43)

/-- The loop.  `bufPos` is an `int`; `none` where it overflows. -/
def readLoop (dis : ℕ → UInt8) : List UInt8 → ℕ → State → Option State
  | [], _, s => some s
  | c :: text, bufPos, s =>
    if isDigit c then
      if bufPos + 1 < 2 ^ 31 then readLoop dis text (bufPos + 1) (next dis s c) else none
    else some s

/-- What is left in `cont4` behind the loop makes one byte less. -/
def finish (dis : ℕ → UInt8) (s : State) : List UInt8 :=
  if s.cont4 = [] then s.decodedString
  else (emit dis s s.cont4 (s.cont4.length - 1)).decodedString

/-- `decodeFromBase64Obf`. -/
def decodeFromBase64Obf (dis : Draws) (sB64Buf : List UInt8) (seed : UInt64) :
    Option (List UInt8) :=
  (readLoop (dis seed) sB64Buf 0 {}).map (finish (dis seed))

/-! ## Digits -/

theorem b64Chars_eq : b64Chars = (List.range 64).map Base64.digit := by
  rw [b64Chars, bytesOf_ofList]
  decide +kernel

theorem find_digit {n : ℕ} (hn : n < 64) : find (Base64.digit n) = UInt8.ofNat n := by
  have hidx : b64Chars.idxOf? (Base64.digit n) = some n := by
    rw [b64Chars_eq, List.idxOf?_eq_some_iff]
    refine ⟨by simpa using hn, by simp, fun j hj heq => ?_⟩
    rw [List.getElem_map, List.getElem_range] at heq
    have hvalue := Base64.value_digit (hj.trans hn)
    rw [heq, Base64.value_digit hn] at hvalue
    exact hj.ne' (Option.some.inj hvalue)
  rw [find, hidx]
  rfl

theorem isDigit_digit : ∀ n < 64, isDigit (Base64.digit n) = true := by decide

theorem ofNat_div_add_mod (a : UInt8) (k : ℕ) :
    UInt8.ofNat (a.toNat / k * k) + UInt8.ofNat (a.toNat % k) = a := by
  rw [← UInt8.ofNat_add, Nat.div_add_mod', UInt8.ofNat_toNat]

/-- The first byte of a group, from all of the first digit and the high bits of the second. -/
theorem cont3_first (a : UInt8) {y : ℕ} (hy : y < 16) :
    (UInt8.ofNat (a.toNat / 4) <<< 2) + ((UInt8.ofNat (a.toNat % 4 * 16 + y) &&& 0x30) >>> 4) =
      a := by
  have hhigh : ∀ x < 4, ∀ y < 16, (UInt8.ofNat (x * 16 + y) &&& 0x30) >>> 4 = UInt8.ofNat x := by
    decide
  have hshift : ∀ x < 64, UInt8.ofNat x <<< 2 = UInt8.ofNat (x * 4) := by decide
  have ha := a.toNat_lt
  rw [hhigh _ (Nat.mod_lt _ (by decide)) y hy, hshift _ (by omega)]
  exact ofNat_div_add_mod a 4

theorem cont3_second (b : UInt8) {x w : ℕ} (hx : x < 4) (hw : w < 4) :
    ((UInt8.ofNat (x * 16 + b.toNat / 16) &&& 0xf) <<< 4) +
      ((UInt8.ofNat (b.toNat % 16 * 4 + w) &&& 0x3c) >>> 2) = b := by
  have hlow : ∀ x < 4, ∀ y < 16,
      (UInt8.ofNat (x * 16 + y) &&& 0xf) <<< 4 = UInt8.ofNat (y * 16) := by
    decide
  have hhigh : ∀ z < 16, ∀ w < 4, (UInt8.ofNat (z * 4 + w) &&& 0x3c) >>> 2 = UInt8.ofNat z := by
    decide
  have hb := b.toNat_lt
  rw [hlow x hx _ (by omega), hhigh _ (Nat.mod_lt _ (by decide)) w hw]
  exact ofNat_div_add_mod b 16

theorem cont3_third (c : UInt8) {z : ℕ} (hz : z < 16) :
    ((UInt8.ofNat (z * 4 + c.toNat / 64) &&& 0x3) <<< 6) + UInt8.ofNat (c.toNat % 64) = c := by
  have hlow : ∀ z < 16, ∀ w < 4,
      (UInt8.ofNat (z * 4 + w) &&& 0x3) <<< 6 = UInt8.ofNat (w * 64) := by
    decide
  have hc := c.toNat_lt
  rw [hlow z hz _ (by omega)]
  exact ofNat_div_add_mod c 64

/-- The digits of base64, without the padding. -/
def digits (bytes : List UInt8) : List UInt8 := (Base64.encode bytes).takeWhile isDigit

theorem digits_group (a b c : UInt8) (rest : List UInt8) :
    digits (a :: b :: c :: rest) =
      Base64.digit (a.toNat / 4) :: Base64.digit (a.toNat % 4 * 16 + b.toNat / 16) ::
        Base64.digit (b.toNat % 16 * 4 + c.toNat / 64) :: Base64.digit (c.toNat % 64) ::
          digits rest := by
  have ha := a.toNat_lt
  have hb := b.toNat_lt
  have hc := c.toNat_lt
  rw [digits, Base64.encode, List.takeWhile_cons_of_pos (isDigit_digit _ (by omega)),
    List.takeWhile_cons_of_pos (isDigit_digit _ (by omega)),
    List.takeWhile_cons_of_pos (isDigit_digit _ (by omega)),
    List.takeWhile_cons_of_pos (isDigit_digit _ (by omega)), digits]

theorem digits_two (a b : UInt8) :
    digits [a, b] =
      [Base64.digit (a.toNat / 4), Base64.digit (a.toNat % 4 * 16 + b.toNat / 16),
        Base64.digit (b.toNat % 16 * 4)] := by
  have ha := a.toNat_lt
  have hb := b.toNat_lt
  rw [digits, Base64.encode, List.takeWhile_cons_of_pos (isDigit_digit _ (by omega)),
    List.takeWhile_cons_of_pos (isDigit_digit _ (by omega)),
    List.takeWhile_cons_of_pos (isDigit_digit _ (by omega)), List.takeWhile_cons_of_neg (by decide)]

theorem digits_one (a : UInt8) :
    digits [a] = [Base64.digit (a.toNat / 4), Base64.digit (a.toNat % 4 * 16)] := by
  have ha := a.toNat_lt
  rw [digits, Base64.encode, List.takeWhile_cons_of_pos (isDigit_digit _ (by omega)),
    List.takeWhile_cons_of_pos (isDigit_digit _ (by omega)), List.takeWhile_cons_of_neg (by decide)]

/-- Three bytes are four digits; one byte more is two, two bytes more are three. -/
theorem length_digits (bytes : List UInt8) :
    (digits bytes).length = (4 * bytes.length + 2) / 3 := by
  induction bytes using Base64.encode.induct with
  | case1 a b c rest ih =>
      rw [digits_group]
      simp only [List.length_cons, ih]
      omega
  | case2 a b =>
      rw [digits_two]
      simp only [List.length_cons, List.length_nil]
  | case3 a =>
      rw [digits_one]
      simp only [List.length_cons, List.length_nil]
  | case4 => rfl

/-! ## Reading base64 -/

variable {dis : ℕ → UInt8}

/-- The digits are read if their number is an `int`. -/
theorem readLoop_eq (text : List UInt8) {bufPos : ℕ} (hpos : bufPos < 2 ^ 31) (s : State) :
    readLoop dis text bufPos s =
      if bufPos + (text.takeWhile isDigit).length < 2 ^ 31 then
        some ((text.takeWhile isDigit).foldl (next dis) s)
      else none := by
  induction text generalizing bufPos s with
  | nil =>
      rw [List.takeWhile_nil, List.length_nil, Nat.add_zero, if_pos hpos]
      rfl
  | cons c text ih =>
      by_cases hc : isDigit c = true
      · rw [readLoop, if_pos hc, List.takeWhile_cons_of_pos hc, List.length_cons]
        by_cases hnext : bufPos + 1 < 2 ^ 31
        · rw [if_pos hnext, ih hnext, Nat.add_right_comm, Nat.add_assoc]
          rfl
        · rw [if_neg hnext, if_neg (by omega)]
      · rw [readLoop, if_neg hc, List.takeWhile_cons_of_neg hc, List.length_nil, Nat.add_zero,
          if_pos hpos]
        rfl

/-- Two and three characters do not fill a group, four do. -/
theorem next_two (out : List UInt8) (n : ℕ) (c d : UInt8) :
    next dis (next dis { decodedString := out, drawn := n } c) d =
      { cont4 := [c, d], decodedString := out, drawn := n } := rfl

theorem next_three (out : List UInt8) (n : ℕ) (c d e : UInt8) :
    next dis { cont4 := [c, d], decodedString := out, drawn := n } e =
      { cont4 := [c, d, e], decodedString := out, drawn := n } := rfl

theorem next_four (out : List UInt8) (n : ℕ) (c d e f : UInt8) :
    next dis { cont4 := [c, d, e], decodedString := out, drawn := n } f =
      emit dis { decodedString := out, drawn := n } [c, d, e, f] 3 := rfl

/-- The digits are read as what they were made from, combined with the next draws.  By the groups of
the text: a whole one is written in the loop, the last one behind it. -/
theorem finish_digits (bytes out : List UInt8) (n : ℕ) :
    finish dis ((digits bytes).foldl (next dis) { decodedString := out, drawn := n }) =
      out ++ mask xorByte (fun i => dis (n + i)) bytes := by
  induction bytes using Base64.encode.induct generalizing out n with
  | case1 a b c rest ih =>
      have ha := a.toNat_lt
      have hb := b.toNat_lt
      have hc := c.toNat_lt
      have hgroup := cont3_second b (x := a.toNat % 4) (w := c.toNat / 64) (by omega) (by omega)
      rw [digits_group]
      simp only [List.foldl_cons]
      rw [next_two, next_three, next_four, emit]
      simp only [List.getD_cons_zero, List.getD_cons_succ]
      rw [find_digit (by omega), find_digit (by omega), find_digit (by omega),
        find_digit (by omega), cont3, cont3_first a (by omega), hgroup,
        cont3_third c (Nat.mod_lt _ (by decide)), ih, List.append_assoc]
      -- the rest is combined with the draws from the fourth on
      have hsplit : mask xorByte (fun i => dis (n + i)) (a :: b :: c :: rest) =
          mask xorByte (fun i => dis (n + i)) [a, b, c] ++
            mask xorByte (fun i => dis (n + (3 + i))) rest := mask_append [a, b, c] rest
      rw [hsplit]
      simp only [Nat.add_assoc]
      rfl
  | case2 a b =>
      have ha := a.toNat_lt
      have hb := b.toNat_lt
      have hgroup := cont3_second b (x := a.toNat % 4) (w := 0) (by omega) (by omega)
      rw [Nat.add_zero] at hgroup
      rw [digits_two]
      simp only [List.foldl_cons, List.foldl_nil]
      rw [next_two, next_three, finish, if_neg (by simp), emit]
      simp only [List.getD_cons_zero, List.getD_cons_succ]
      rw [find_digit (by omega), find_digit (by omega), find_digit (by omega), cont3,
        cont3_first a (by omega), hgroup]
      rfl
  | case3 a =>
      have ha := a.toNat_lt
      have hfirst := cont3_first a (y := 0) (by omega)
      rw [Nat.add_zero] at hfirst
      rw [digits_one]
      simp only [List.foldl_cons, List.foldl_nil]
      rw [next_two, finish, if_neg (by simp), emit]
      simp only [List.getD_cons_zero, List.getD_cons_succ]
      rw [find_digit (by omega), find_digit (by omega), cont3, hfirst]
      rfl
  | case4 => exact (List.append_nil out).symm

theorem xorByte_xorByte (a b : UInt8) : xorByte (xorByte a b) b = a := by
  rw [xorByte, xorByte, UInt8.xor_assoc, UInt8.xor_self, UInt8.xor_zero]

/-- The first bytes of a string, combined with the draws and again with the same draws. -/
theorem decodeFromBase64Obf_take (dis : Draws) (buf : List UInt8) (seed : UInt64) (n : ℕ) :
    decodeFromBase64Obf dis (Base64.encode ((mask xorByte (dis seed) buf).take n)) seed =
      if (4 * (buf.take n).length + 2) / 3 < 2 ^ 31 then some (buf.take n) else none := by
  have hread : ∀ sent, finish (dis seed) ((digits sent).foldl (next (dis seed)) {}) =
      [] ++ mask xorByte (fun i => dis seed (0 + i)) sent := fun sent => finish_digits sent [] 0
  replace hread := hread ((mask xorByte (dis seed) buf).take n)
  have hcount := length_digits ((mask xorByte (dis seed) buf).take n)
  rw [mask_take] at hread hcount ⊢
  rw [length_mask] at hcount
  simp only [Nat.zero_add, List.nil_append] at hread
  rw [mask_mask xorByte_xorByte] at hread
  rw [decodeFromBase64Obf, readLoop_eq _ (by decide), ← digits, Nat.zero_add, hcount]
  by_cases hfits : (4 * (buf.take n).length + 2) / 3 < 2 ^ 31
  · rw [if_pos hfits, if_pos hfits, Option.map_some, hread]
  · rw [if_neg hfits, if_neg hfits]
    rfl

/-- What comes back are as many bytes as the size says as an `int`, if their digits can be counted.
-/
theorem decodeFromBase64Obf_encode (dis : Draws) (buf : List UInt8) (seed : UInt64) :
    decodeFromBase64Obf dis (encodeToBase64Obf dis buf seed) seed =
      if (4 * (buf.take (toInt buf.length).toNat).length + 2) / 3 < 2 ^ 31 then
        some (buf.take (toInt buf.length).toNat)
      else none := by
  rw [encodeToBase64Obf, encodeToBase64, length_mask]
  by_cases hpos : 0 < toInt buf.length
  · rw [if_pos hpos]
    exact decodeFromBase64Obf_take dis buf seed _
  · rw [if_neg hpos, Int.toNat_of_nonpos (not_lt.mp hpos), List.take_zero]
    rfl

/-- **Round trip.**  A string comes back exactly if the digits of its base64 can be counted in an
`int`. -/
theorem decodeFromBase64Obf_iff (dis : Draws) (buf : List UInt8) (seed : UInt64) :
    decodeFromBase64Obf dis (encodeToBase64Obf dis buf seed) seed = some buf ↔
      buf.length < 3 * 2 ^ 29 := by
  have hlt := toInt_lt buf.length
  rw [decodeFromBase64Obf_encode]
  constructor
  · intro hback
    by_cases hfits : (4 * (buf.take (toInt buf.length).toNat).length + 2) / 3 < 2 ^ 31
    · rw [if_pos hfits, Option.some.injEq] at hback
      rw [hback] at hfits
      omega
    · rw [if_neg hfits] at hback
      exact absurd hback (Option.some_ne_none _).symm
  · intro hsize
    have hwhole : buf.take (toInt buf.length).toNat = buf := by
      rw [toInt_of_lt (by omega), Int.toNat_natCast, List.take_length]
    rw [hwhole, if_pos (by omega)]

/-- Two gigabytes are encoded as nothing. -/
theorem not_decodeFromBase64Obf :
    ¬ ∀ (dis : Draws) (buf : List UInt8) (seed : UInt64),
      decodeFromBase64Obf dis (encodeToBase64Obf dis buf seed) seed = some buf := by
  intro hclaim
  have hback := hclaim (fun _ _ => 0) (List.replicate (2 ^ 31) 0) 0
  have hlen := List.length_replicate (n := 2 ^ 31) (a := (0 : UInt8))
  have hlt := toInt_lt (2 ^ 31)
  rw [decodeFromBase64Obf_encode, hlen] at hback
  by_cases hfits :
      (4 * ((List.replicate (2 ^ 31) (0 : UInt8)).take (toInt (2 ^ 31)).toNat).length + 2) / 3 <
        2 ^ 31
  · rw [if_pos hfits, Option.some.injEq, List.take_eq_self_iff, hlen] at hback
    omega
  · rw [if_neg hfits] at hback
    exact absurd hback (Option.some_ne_none _).symm

end ObfuscatedBase64

end Mantids
