/-
# Ranges of IPv4 addresses

`IPV4::_matchRange` (`Memory/a_ipv4.cpp`) says whether an address is in a range that is given as
`address/n`.  It makes a mask of `n` bits, turns the bytes of the mask and of both addresses around,
and compares what the mask leaves of the addresses.

* `inet_pton` — the texts of addresses, as the C library reads them;
* `fromString`, `fromStringWithNetmask`, `matchRange` — the functions of the source, on a host whose
  integers begin with the lowest byte;
* `matchRange_iff` — the bits that are compared: the lowest ones of each octet first;
* `IsRange`, `Matches` — what a range is, and which addresses are in it;
* `matchRangeTexts_iff` — for which texts the answer is right.

A text is what is in front of the NUL.
-/
import Mathlib.Algebra.Order.Group.Nat
import Mathlib.Logic.Function.Iterate
import Mantids.IntegerVars
import Mantids.Lib.BitOrder
import Mantids.Lib.Cut

namespace Mantids

open BitOrder

namespace IPV4

/-! ## Addresses -/

/-- `in_addr`: four octets, in the order they have in memory. -/
@[ext] structure InAddr where
  first : BitVec 8
  second : BitVec 8
  third : BitVec 8
  fourth : BitVec 8
deriving DecidableEq

namespace InAddr

def octet (x : InAddr) : ℕ → BitVec 8
  | 0 => x.first
  | 1 => x.second
  | 2 => x.third
  | _ => x.fourth

/-- `s_addr`: the first byte in memory is the lowest one. -/
def s_addr (x : InAddr) : BitVec 32 := x.fourth ++ x.third ++ x.second ++ x.first

/-- The address as a number of 32 bits, as it is written. -/
def number (x : InAddr) : BitVec 32 := x.first ++ x.second ++ x.third ++ x.fourth

/-- The dotted quad. -/
def quad (x : InAddr) : List UInt8 :=
  decimal x.first.toNat ++ 46 :: (decimal x.second.toNat ++
    46 :: (decimal x.third.toNat ++ 46 :: decimal x.fourth.toNat))

end InAddr

/-- A decimal number of at most 255 without leading zeros. -/
def octetOf (s : List UInt8) : Option (BitVec 8) :=
  let v := s.foldl (fun v c => v * 10 + (c.toNat - 48)) 0
  if decimal v = s ∧ v ≤ 255 then some (BitVec.ofNat 8 v) else none

/-- `inet_pton(AF_INET, …)`. -/
def inet_pton (s : List UInt8) : Option InAddr :=
  match s.splitOn 46 with
  | [first, second, third, fourth] => do
    some ⟨← octetOf first, ← octetOf second, ← octetOf third, ← octetOf fourth⟩
  | _ => none

/-! ## The functions -/

/-- `u64pow`: the base is doubled. -/
def u64pow (base exponent : ℕ) : BitVec 64 :=
  if exponent = 0 then 1 else (fun result => result * 2)^[exponent - 1] (BitVec.ofNat 64 base)

/-- `htonl` on a host whose integers begin with the lowest byte. -/
def htonl (x : BitVec 32) : BitVec 32 :=
  x.extractLsb' 0 8 ++ x.extractLsb' 8 8 ++ x.extractLsb' 16 8 ++ x.extractLsb' 24 8

/-- `_matchRange` of two addresses. -/
def matchRange (haystack : InAddr) (cidr : ℕ) (needle : InAddr) : Bool :=
  if 32 < cidr then false
  else
    let baseNetmask := htonl ((u64pow 2 cidr - 1).setWidth 32)
    htonl haystack.s_addr &&& baseNetmask == htonl needle.s_addr &&& baseNetmask

/-- `_fromString`; `none` is the text that is not `ok`. -/
def fromString (value : List UInt8) : Option InAddr :=
  if value = [] then some ⟨0, 0, 0, 0⟩ else inet_pton value

/-- `_fromStringWithNetmask`: the address, and the mask in a `uint8_t`. -/
def fromStringWithNetmask (value : List UInt8) : Option (InAddr × ℕ) :=
  if 47 ∉ value then (fromString value).map fun x => (x, 32)
  else
    let detectedNetmask := (value.dropWhile (· ≠ 47)).drop 1
    if detectedNetmask.length ≠ 1 ∧ detectedNetmask.length ≠ 2 then none
    else
      let netmask := strtoull detectedNetmask % 2 ^ 8
      if 32 < netmask then none
      else (fromString (value.takeWhile (· ≠ 47))).map fun x => (x, netmask)

/-- `_matchRange` of two texts. -/
def matchRangeTexts (haystack needle : List UInt8) : Bool :=
  match fromString needle with
  | none => false
  | some aNeedle =>
    match fromStringWithNetmask haystack with
    | none => false
    | some v => matchRange v.1 v.2 aNeedle

/-! ## Texts of addresses -/

theorem octetOf_eq_some_iff {s : List UInt8} {v : BitVec 8} :
    octetOf s = some v ↔ s = decimal v.toNat := by
  unfold octetOf
  dsimp only
  constructor
  · intro h
    split_ifs at h with hs
    rw [← Option.some.inj h, BitVec.toNat_ofNat, Nat.mod_eq_of_lt (by omega)]
    exact hs.1.symm
  · rintro rfl
    have hlt := v.isLt
    rw [foldl_decimal, if_pos ⟨rfl, by omega⟩, BitVec.ofNat_toNat, BitVec.setWidth_eq]

/-- **The texts that are accepted** are the dotted quads. -/
theorem inet_pton_eq_some_iff {s : List UInt8} {x : InAddr} :
    inet_pton s = some x ↔ s = x.quad := by
  constructor
  · intro h
    unfold inet_pton at h
    split at h
    · rename_i first second third fourth hsplit
      simp only [Option.bind_eq_bind, Option.bind_eq_some_iff, octetOf_eq_some_iff,
        Option.some.injEq] at h
      obtain ⟨a, rfl, b, rfl, c, rfl, d, rfl, rfl⟩ := h
      have hs : [46].intercalate (s.splitOn 46) = s := List.intercalate_splitOn 46
      rw [hsplit] at hs
      rw [← hs, InAddr.quad]
      simp [List.intercalate]
    · cases h
  · rintro rfl
    have hno : ∀ v : BitVec 8, 46 ∉ decimal v.toNat := by
      intro v hv
      exact absurd (isdigit_of_mem_decimal _ _ hv) (by decide)
    unfold inet_pton InAddr.quad
    rw [List.splitOn_append_cons_self_of_not_mem (hno _),
      List.splitOn_append_cons_self_of_not_mem (hno _),
      List.splitOn_append_cons_self_of_not_mem (hno _), List.splitOn_eq_singleton (hno _)]
    simp only [octetOf_eq_some_iff.mpr rfl]
    rfl

theorem inet_pton_nil : inet_pton [] = none := by decide

/-- There is no slash in an address. -/
theorem not_mem_of_inet_pton {s : List UInt8} {x : InAddr} (h : inet_pton s = some x) :
    47 ∉ s := by
  have hno : ∀ n, 47 ∉ decimal n := fun n hn => absurd (isdigit_of_mem_decimal n _ hn) (by decide)
  rw [inet_pton_eq_some_iff.mp h, InAddr.quad]
  simp [hno]

/-! ## The comparison -/

/-- In `s_addr` the bits of an octet are in their order, and the first octet is the lowest. -/
theorem getLsbD_s_addr (x : InAddr) {i : ℕ} (hi : i < 32) :
    x.s_addr.getLsbD i = (x.octet (i / 8)).getLsbD (i % 8) := by
  simp only [InAddr.s_addr, BitVec.getLsbD_append]
  rcases (by omega : i / 8 = 0 ∨ i / 8 = 1 ∨ i / 8 = 2 ∨ i / 8 = 3) with h | h | h | h
  · rw [if_pos (by omega), h]
    exact congrArg _ (by omega)
  · rw [if_neg (by omega), if_pos (by omega), h]
    exact congrArg _ (by omega)
  · rw [if_neg (by omega), if_neg (by omega), if_pos (by omega), h]
    exact congrArg _ (by omega)
  · rw [if_neg (by omega), if_neg (by omega), if_neg (by omega), h]
    exact congrArg _ (by omega)

/-- From the highest bit on, the first octet comes first. -/
theorem getMsbD_number (x : InAddr) {i : ℕ} (hi : i < 32) :
    x.number.getMsbD i = (x.octet (i / 8)).getMsbD (i % 8) := by
  simp only [InAddr.number, BitVec.getMsbD_append]
  rcases (by omega : i / 8 = 0 ∨ i / 8 = 1 ∨ i / 8 = 2 ∨ i / 8 = 3) with h | h | h | h
  · rw [if_neg (by omega), if_neg (by omega), if_neg (by omega), h]
    exact congrArg _ (by omega)
  · rw [if_neg (by omega), if_neg (by omega), if_pos (by omega), h]
    exact congrArg _ (by omega)
  · rw [if_neg (by omega), if_pos (by omega), h]
    exact congrArg _ (by omega)
  · rw [if_pos (by omega), h]
    exact congrArg _ (by omega)

theorem htonl_and (a b : BitVec 32) : htonl (a &&& b) = htonl a &&& htonl b := by
  apply BitVec.eq_of_getLsbD_eq
  intro i hi
  simp only [htonl, BitVec.getLsbD_and, BitVec.getLsbD_append, BitVec.getLsbD_extractLsb']
  grind

theorem htonl_htonl (a : BitVec 32) : htonl (htonl a) = a := by
  apply BitVec.eq_of_getLsbD_eq
  intro i hi
  simp only [htonl, BitVec.getLsbD_append, BitVec.getLsbD_extractLsb']
  grind

theorem toNat_doubled {k : ℕ} (hk : k < 32) :
    ((fun result : BitVec 64 => result * 2)^[k] 2).toNat = 2 ^ (k + 1) := by
  induction k with
  | zero => rfl
  | succ k ih =>
    have hlt : 2 ^ (k + 1) * 2 < 2 ^ 64 := by
      rw [← Nat.pow_succ]
      exact Nat.pow_lt_pow_right (by omega) (by omega)
    rw [Function.iterate_succ_apply', BitVec.toNat_mul, ih (by omega)]
    exact Nat.mod_eq_of_lt hlt

theorem toNat_u64pow {n : ℕ} (hn : n ≤ 32) : (u64pow 2 n).toNat = 2 ^ n := by
  unfold u64pow
  split
  · rename_i h
    rw [h]
    rfl
  · obtain ⟨k, rfl⟩ : ∃ k, n = k + 1 := ⟨n - 1, by omega⟩
    exact toNat_doubled hn

/-- The mask has the lowest bits. -/
theorem getLsbD_mask {n i : ℕ} (hn : n ≤ 32) (hi : i < 32) :
    ((u64pow 2 n - 1).setWidth 32).getLsbD i = decide (i < n) := by
  have hle : 2 ^ n ≤ 2 ^ 32 := Nat.pow_le_pow_right (by omega) hn
  have hpos : 0 < 2 ^ n := Nat.two_pow_pos n
  have hmask : (u64pow 2 n - 1).toNat = 2 ^ n - 1 := by
    rw [BitVec.toNat_sub_of_le, toNat_u64pow hn]
    · rfl
    · rw [BitVec.le_def, toNat_u64pow hn]
      exact hpos
  rw [BitVec.getLsbD_setWidth, decide_eq_true hi, Bool.true_and, BitVec.getLsbD, hmask,
    Nat.testBit_two_pow_sub_one]

/-- **The bits that are compared**: in each octet from the lowest on. -/
theorem matchRange_iff {x y : InAddr} {n : ℕ} (hn : n ≤ 32) :
    matchRange x n y = true ↔ LowFirst x.octet y.octet n := by
  have hinj : Function.Injective htonl := Function.LeftInverse.injective htonl_htonl
  unfold matchRange
  dsimp only
  rw [if_neg (by omega), beq_iff_eq, ← htonl_and, ← htonl_and, hinj.eq_iff]
  constructor
  · intro h i hi
    have hi32 : i < 32 := by omega
    have hbit := congrArg (BitVec.getLsbD · i) h
    rw [BitVec.getLsbD_and, BitVec.getLsbD_and, getLsbD_mask hn hi32, decide_eq_true hi,
      Bool.and_true, Bool.and_true, getLsbD_s_addr x hi32, getLsbD_s_addr y hi32] at hbit
    exact hbit
  · intro h
    refine BitVec.eq_of_getLsbD_eq fun i hi32 => ?_
    rw [BitVec.getLsbD_and, BitVec.getLsbD_and, getLsbD_mask hn hi32]
    by_cases hi : i < n
    · rw [getLsbD_s_addr x hi32, getLsbD_s_addr y hi32, h i hi]
    · rw [decide_eq_false hi, Bool.and_false, Bool.and_false]

/-! ## What a range is -/

/-- A decimal text of a number. -/
def IsDecimal (s : List UInt8) (n : ℕ) : Prop :=
  ∃ m : IntegerVars.Numeral, m.sign = [] ∧ m.text = s ∧ m.magnitude = n

/-- The text of a range: an address, and how many bits of it count. -/
def IsRange (haystack : List UInt8) (x : InAddr) (n : ℕ) : Prop :=
  inet_pton haystack = some x ∧ n = 32 ∨
    ∃ address mask, haystack = address ++ 47 :: mask ∧ inet_pton address = some x ∧
      IsDecimal mask n ∧ n ≤ 32

/-- The highest bits of two addresses agree. -/
def TopAgree (x y : InAddr) (n : ℕ) : Prop := ∀ i < n, x.number.getMsbD i = y.number.getMsbD i

/-- The address is in the range. -/
def Matches (haystack needle : List UInt8) : Prop :=
  ∃ y, inet_pton needle = some y ∧ ∃ x n, IsRange haystack x n ∧ TopAgree x y n

theorem topAgree_iff {x y : InAddr} {n : ℕ} (hn : n ≤ 32) :
    TopAgree x y n ↔ HighFirst x.octet y.octet n := by
  refine forall₂_congr fun i hi => ?_
  rw [getMsbD_number x (by omega), getMsbD_number y (by omega)]

theorem IsRange.le {haystack : List UInt8} {x : InAddr} {n : ℕ} (h : IsRange haystack x n) :
    n ≤ 32 := by
  rcases h with ⟨-, rfl⟩ | ⟨_, _, _, _, _, hn⟩
  · exact le_rfl
  · exact hn

theorem fromString_of_inet_pton {s : List UInt8} {x : InAddr} (h : inet_pton s = some x) :
    fromString s = some x := by
  have hne : s ≠ [] := by
    rintro rfl
    rw [inet_pton_nil] at h
    cases h
  rw [fromString, if_neg hne, h]

theorem strtoull_of_isDecimal {s : List UInt8} {n : ℕ} (h : IsDecimal s n) (hn : n ≤ 32) :
    strtoull s = n := by
  obtain ⟨m, hsign, rfl, rfl⟩ := h
  rw [IntegerVars.strtoull_eq, m.leading_text, hsign, if_neg (by dsimp only; omega)]
  rfl

/-- A range is read as it is written, unless its mask has too many digits. -/
theorem IsRange.read {haystack : List UInt8} {x : InAddr} {n : ℕ} (h : IsRange haystack x n) :
    fromStringWithNetmask haystack = some (x, n) ∨ fromStringWithNetmask haystack = none := by
  rcases h with ⟨haddr, rfl⟩ | ⟨address, mask, rfl, haddr, hmask, hn⟩
  · left
    rw [fromStringWithNetmask, if_pos (not_mem_of_inet_pton haddr), fromString_of_inet_pton haddr]
    rfl
  · have hfree : 47 ∉ address := not_mem_of_inet_pton haddr
    unfold fromStringWithNetmask
    rw [if_neg (by simp), Cut.takeWhile_ne_append hfree, Cut.drop_dropWhile_ne_append hfree]
    dsimp only
    rw [strtoull_of_isDecimal hmask hn, Nat.mod_eq_of_lt (by omega),
      if_neg (show ¬ 32 < n by omega), fromString_of_inet_pton haddr]
    split
    · exact Or.inr rfl
    · exact Or.inl rfl

/-! ## The answer -/

/-- When the answer for two texts is right. -/
def RightlyAnswered (haystack needle : List UInt8) : Prop :=
  match fromString needle, fromStringWithNetmask haystack with
  -- The address is refused.
  | none, _ => True
  -- The range is refused.  If it is one, its mask has too many digits.
  | some y, none => ∀ x n, IsRange haystack x n → inet_pton needle = some y → ¬ TopAgree x y n
  -- Octets that count as a whole differ, or it depends on those bits of the next one that are
  -- compared: they are the lowest instead of the highest, and there is nothing to compare if the
  -- texts are not an address and a range.
  | some y, some (x, n) =>
    (∃ k < n / 8, x.octet k ≠ y.octet k) ∨
      (IsRange haystack x n ∧ inet_pton needle = some y →
        (LowBits (x.octet (n / 8)) (y.octet (n / 8)) (n % 8) ↔
          HighBits (x.octet (n / 8)) (y.octet (n / 8)) (n % 8))) ∧
      (¬ (IsRange haystack x n ∧ inet_pton needle = some y) →
        ¬ LowBits (x.octet (n / 8)) (y.octet (n / 8)) (n % 8))

/-- The mask that is read has at most 32 bits. -/
theorem le_of_fromStringWithNetmask {value : List UInt8} {x : InAddr} {n : ℕ}
    (h : fromStringWithNetmask value = some (x, n)) : n ≤ 32 := by
  unfold fromStringWithNetmask at h
  dsimp only at h
  split_ifs at h with hslash hsize hmask
  · obtain ⟨_, -, heq⟩ := Option.map_eq_some_iff.mp h
    exact Nat.le_of_not_lt ((Prod.mk.inj heq).2 ▸ hmask)
  · obtain ⟨_, -, heq⟩ := Option.map_eq_some_iff.mp h
    exact (Prod.mk.inj heq).2.symm.le

/-- What is compared does not agree. -/
theorem not_lowFirst_iff {x y : ℕ → BitVec 8} {n : ℕ} :
    ¬ LowFirst x y n ↔
      (∃ k < n / 8, x k ≠ y k) ∨ ¬ LowBits (x (n / 8)) (y (n / 8)) (n % 8) := by
  rw [lowFirst_iff (by omega), not_and_or]
  simp only [not_forall, exists_prop, ne_eq]

section Read

variable {haystack needle : List UInt8} {x y : InAddr} {n : ℕ}

/-- An address in a range that was read as something is that address, in that range. -/
theorem matches_iff_of_read (haddr : fromString needle = some y)
    (hrange : fromStringWithNetmask haystack = some (x, n)) :
    Matches haystack needle ↔
      (IsRange haystack x n ∧ inet_pton needle = some y) ∧ HighFirst x.octet y.octet n := by
  rw [← topAgree_iff (le_of_fromStringWithNetmask hrange)]
  constructor
  · rintro ⟨z, hz, x', n', hx', htop⟩
    obtain rfl := Option.some.inj (haddr.symm.trans (fromString_of_inet_pton hz))
    obtain ⟨rfl, rfl⟩ : x = x' ∧ n = n' := by
      rcases hx'.read with hread | hread
      · exact Prod.mk.inj (Option.some.inj (hrange.symm.trans hread))
      · rw [hrange] at hread
        cases hread
    exact ⟨⟨hx', hz⟩, htop⟩
  · rintro ⟨⟨hx, hy⟩, htop⟩
    exact ⟨y, hy, x, n, hx, htop⟩

end Read

/-- **Ranges of addresses.**  For which texts the answer is whether the address is in the range. -/
theorem matchRangeTexts_iff (haystack needle : List UInt8) :
    (matchRangeTexts haystack needle = true ↔ Matches haystack needle) ↔
      RightlyAnswered haystack needle := by
  unfold matchRangeTexts RightlyAnswered
  rcases haddr : fromString needle with _ | y
  · -- no address is in a range
    refine iff_of_true (iff_of_false Bool.false_ne_true ?_) trivial
    rintro ⟨z, hz, -⟩
    rw [fromString_of_inet_pton hz] at haddr
    cases haddr
  · rcases hrange : fromStringWithNetmask haystack with _ | ⟨x, n⟩
    · dsimp only
      rw [iff_false_left Bool.false_ne_true]
      constructor
      · exact fun hno x n hx hy htop => hno ⟨y, hy, x, n, hx, htop⟩
      · rintro hno ⟨z, hz, x, n, hx, htop⟩
        obtain rfl := Option.some.inj (haddr.symm.trans (fromString_of_inet_pton hz))
        exact hno x n hx hz htop
    · dsimp only
      rw [matchRange_iff (le_of_fromStringWithNetmask hrange), matches_iff_of_read haddr hrange]
      by_cases hwell : IsRange haystack x n ∧ inet_pton needle = some y
      · rw [and_iff_right hwell, lowFirst_iff_highFirst_iff (by omega)]
        simp only [hwell, and_self, forall_const, not_true_eq_false, false_imp_iff, and_true]
      · have hno : ¬ ((IsRange haystack x n ∧ inet_pton needle = some y) ∧
            HighFirst x.octet y.octet n) := fun h => hwell h.1
        rw [iff_false_right hno, not_lowFirst_iff]
        simp only [hwell, false_imp_iff, not_false_eq_true, forall_const, true_and]

/-- The address "10.17.0.1" is in the range "10.16.0.0/12", and the answer is that it is not. -/
theorem not_rightlyAnswered :
    ¬ (matchRangeTexts (bytesOf "10.16.0.0/12") (bytesOf "10.17.0.1") = true ↔
      Matches (bytesOf "10.16.0.0/12") (bytesOf "10.17.0.1")) := by
  have hbase : inet_pton (bytesOf "10.16.0.0") = some ⟨10, 16, 0, 0⟩ := by decide +kernel
  have haddr : inet_pton (bytesOf "10.17.0.1") = some ⟨10, 17, 0, 1⟩ := by decide +kernel
  have hmask : IsDecimal (bytesOf "12") 12 :=
    ⟨.ofInt 12, by decide +kernel, by decide +kernel, by decide +kernel⟩
  have hrange : IsRange (bytesOf "10.16.0.0/12") ⟨10, 16, 0, 0⟩ 12 :=
    Or.inr ⟨bytesOf "10.16.0.0", bytesOf "12", by decide +kernel, hbase, hmask, by decide +kernel⟩
  have hmatches : Matches (bytesOf "10.16.0.0/12") (bytesOf "10.17.0.1") :=
    ⟨_, haddr, _, _, hrange, by unfold TopAgree; decide +kernel⟩
  have hanswer : matchRangeTexts (bytesOf "10.16.0.0/12") (bytesOf "10.17.0.1") = false := by
    decide +kernel
  rw [hanswer]
  exact fun h => Bool.false_ne_true (h.mpr hmatches)

end IPV4
end Mantids
