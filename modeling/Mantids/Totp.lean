/-
# Time-based one-time passwords

`GoogleAuthenticator` (`Helpers/googleauthenticator.cpp`) makes a code from a secret and the clock,
and compares a token with the codes of the steps around the present one.  The distance to a step is
multiplied by the interval as an `unsigned int` before it is added to the clock.

* `generateTOTP`, `verifyToken` — the two functions, for any HMAC-SHA1;
* `hotp` — the code of a counter, and `InWindow`, a token among the codes around the present step;
* `dynamicBinaryCode_eq`, `shortened_decimal` — the code as bits, and as digits;
* `generateTOTP_eq` — a code is that of the counter `counterAt`;
* `le_counterAt` — which is never before the present one;
* `verifyToken_iff` — when the tokens of the window are the ones that are accepted.
-/
import Mantids.DecodeBase32
import Mantids.Lib.BigEndian
import Mathlib.Data.Nat.Digits.Defs
import Mathlib.Data.Vector.Basic

namespace Mantids

namespace GoogleAuthenticator

/-- `HMAC` with `EVP_sha1`: what a key and a text give. -/
abbrev HmacSha1 := List UInt8 → List UInt8 → Vector UInt8 20

/-! ## The two functions -/

/-- `counter`. -/
def counterBytes (timeSteps : ℕ) : List UInt8 :=
  (List.range 8).map fun i => UInt8.ofNat (timeSteps >>> ((8 - i - 1) * 8) &&& 0xFF)

/-- `dynamicBinaryCode`. -/
def dynamicBinaryCode (hashSHA1 : Vector UInt8 20) : ℕ :=
  let h := fun i => (hashSHA1.toList.getD i 0).toNat
  let offset := h 19 &&& 0x0f
  (h offset &&& 0x7f) <<< 24 ||| (h (offset + 1) &&& 0xff) <<< 16 |||
    (h (offset + 2) &&& 0xff) <<< 8 ||| (h (offset + 3) &&& 0xff)

/-- The last digits of a number, behind as many zeros as are missing. -/
def shortened (digits : ℕ) (otp : List UInt8) : List UInt8 :=
  (if digits < otp.length then otp.drop (otp.length - digits) else otp).leftpad digits 48

/-- `generateTOTP`, at some time of the clock.  The product of an `int` and an `unsigned int` is an
`unsigned int`. -/
def generateTOTP (hmac : HmacSha1) (time : ℕ) (base32Secret : List UInt8) (position : ℤ)
    (interval digits : ℕ) : List UInt8 :=
  let secret := DecodeBase32.decodeFromBase32 base32Secret
  let now := time + (position * interval % 2 ^ 32).toNat
  let interval := if interval = 0 then 30 else interval
  let timeSteps := now / interval % 2 ^ 64
  shortened digits (decimal (dynamicBinaryCode (hmac secret (counterBytes timeSteps))))

/-- `verifyToken`.  `i` is an `int`: behind the largest one the loop is undefined. -/
def verifyToken (hmac : HmacSha1) (time : ℕ) (base32Secret tokenInput : List UInt8)
    (aperture interval digits : ℕ) : Option Bool :=
  if (List.range (2 * aperture + 1)).any fun i =>
      tokenInput = generateTOTP hmac time base32Secret ((i : ℤ) - aperture) interval digits then
    some true
  else if aperture + 1 < 2 ^ 31 then some false
  else none

/-! ## Codes -/

/-- A number in so many digits. -/
def digitsOf : ℕ → ℕ → List UInt8
  | 0, _ => []
  | d + 1, n => digitsOf d (n / 10) ++ [UInt8.ofNat (48 + n % 10)]

/-- The 31 low bits of the four bytes at the place that the last byte says. -/
def truncated (hash : Vector UInt8 20) : ℕ :=
  let offset := (hash.toList.getD 19 0).toNat % 16
  BigEndian.decode ((hash.toList.drop offset).take 4) % 2 ^ 31

/-- The code of a counter. -/
def hotp (hmac : HmacSha1) (secret : List UInt8) (counter digits : ℕ) : List UInt8 :=
  digitsOf digits (truncated (hmac secret (BigEndian.encode 8 counter)) % 10 ^ digits)

/-- A token that is the code of a step around the present one. -/
def InWindow (hmac : HmacSha1) (time : ℕ) (base32Secret tokenInput : List UInt8)
    (aperture interval digits : ℕ) : Prop :=
  ∃ i : ℤ, -aperture ≤ i ∧ i ≤ aperture ∧
    tokenInput = hotp hmac (DecodeBase32.decodeFromBase32 base32Secret)
      (((time / interval : ℕ) : ℤ) + i).toNat digits

/-- Bytes that are put together are a number. -/
theorem or_eq_add {a b k : ℕ} (h : b < 2 ^ k) : a <<< k ||| b = a * 2 ^ k + b := by
  rw [← Nat.shiftLeft_add_eq_or_of_lt h, Nat.shiftLeft_eq]

/-- Four bytes, the first without its highest bit. -/
theorem or_bytes (a : ℕ) {b c d : ℕ} (hb : b < 256) (hc : c < 256) (hd : d < 256) :
    (a &&& 0x7f) <<< 24 ||| (b &&& 0xff) <<< 16 ||| (c &&& 0xff) <<< 8 ||| (d &&& 0xff) =
      (((a * 256 + b) * 256 + c) * 256 + d) % 2 ^ 31 := by
  have hlow : ∀ x < 256, x &&& 0xff = x := by
    intro x hx
    exact (Nat.and_two_pow_sub_one_eq_mod x 8).trans (Nat.mod_eq_of_lt hx)
  have hfirst : a &&& 0x7f = a % 128 := Nat.and_two_pow_sub_one_eq_mod a 7
  have hcd : c <<< 8 ||| d = c * 2 ^ 8 + d := or_eq_add hd
  have hbcd : b <<< 16 ||| (c * 2 ^ 8 + d) = b * 2 ^ 16 + (c * 2 ^ 8 + d) :=
    or_eq_add (by omega)
  have hall : (a % 128) <<< 24 ||| (b * 2 ^ 16 + (c * 2 ^ 8 + d)) =
      a % 128 * 2 ^ 24 + (b * 2 ^ 16 + (c * 2 ^ 8 + d)) := or_eq_add (by omega)
  rw [hlow b hb, hlow c hc, hlow d hd, hfirst, Nat.or_assoc, Nat.or_assoc, hcd, hbcd, hall]
  omega

theorem take_drop_four {l : List UInt8} {i : ℕ} (h : i + 4 ≤ l.length) :
    (l.drop i).take 4 = [l.getD i 0, l.getD (i + 1) 0, l.getD (i + 2) 0, l.getD (i + 3) 0] := by
  have hget : ∀ k, i + k < l.length → l.drop (i + k) = l.getD (i + k) 0 :: l.drop (i + k + 1) := by
    intro k hk
    rw [List.drop_eq_getElem_cons hk, List.getD_eq_getElem _ _ hk]
  have h0 := hget 0 (by omega)
  rw [Nat.add_zero] at h0
  rw [h0, hget 1 (by omega), hget 2 (by omega), hget 3 (by omega)]
  rfl

/-- **Truncation.**  The bits that are put together are the truncated number. -/
theorem dynamicBinaryCode_eq (hash : Vector UInt8 20) :
    dynamicBinaryCode hash = truncated hash := by
  have hoffset : (hash.toList.getD 19 0).toNat &&& 0x0f = (hash.toList.getD 19 0).toNat % 16 :=
    Nat.and_two_pow_sub_one_eq_mod _ 4
  have hbyte : ∀ i, (hash.toList.getD i 0).toNat < 256 := fun i => UInt8.toNat_lt _
  have hinside : (hash.toList.getD 19 0).toNat % 16 + 4 ≤ hash.toList.length := by
    rw [Vector.length_toList]
    omega
  rw [dynamicBinaryCode, truncated]
  simp only [hoffset]
  rw [take_drop_four hinside, or_bytes _ (hbyte _) (hbyte _) (hbyte _)]
  simp [BigEndian.decode, Nat.mul_comm]

/-! ## Digits -/

theorem decimal_of_lt {n : ℕ} (h : n < 10) : decimal n = [UInt8.ofNat (48 + n)] := by
  rcases Nat.eq_zero_or_pos n with rfl | hpos
  · rfl
  · rw [decimal, if_neg (by omega), Nat.digits_of_lt 10 n (by omega) h]
    rfl

theorem decimal_of_le {n : ℕ} (h : 10 ≤ n) :
    decimal n = decimal (n / 10) ++ [UInt8.ofNat (48 + n % 10)] := by
  have hdiv : n / 10 ≠ 0 := by omega
  rw [decimal, if_neg (by omega), decimal, if_neg hdiv, Nat.digits_def' (by decide) (by omega),
    List.reverse_cons, List.map_append]
  rfl

/-- One digit more. -/
theorem shortened_append (digits : ℕ) (otp : List UInt8) (c : UInt8) :
    shortened (digits + 1) (otp ++ [c]) = shortened digits otp ++ [c] := by
  have hlen : (otp ++ [c]).length = otp.length + 1 := by
    rw [List.length_append, List.length_singleton]
  rw [shortened, shortened, hlen]
  by_cases hlong : digits < otp.length
  · rw [if_pos hlong, if_pos (by omega), Nat.add_sub_add_right,
      List.drop_append_of_le_length (Nat.sub_le _ _), List.leftpad, List.leftpad,
      List.length_append, List.length_singleton, Nat.add_sub_add_right, List.append_assoc]
  · rw [if_neg hlong, if_neg (by omega), List.leftpad, List.leftpad, hlen, Nat.add_sub_add_right,
      List.append_assoc]

theorem digitsOf_zero (d : ℕ) : digitsOf d 0 = List.replicate d 48 := by
  induction d with
  | zero => rfl
  | succ d ih =>
      rw [digitsOf, Nat.zero_div, ih, List.replicate_succ']
      rfl

/-- **Digits.**  What is left of the decimal number are its last digits. -/
theorem shortened_decimal (d n : ℕ) : shortened d (decimal n) = digitsOf d n := by
  induction d generalizing n with
  | zero =>
      rw [shortened, digitsOf]
      by_cases hlong : 0 < (decimal n).length
      · rw [if_pos hlong, Nat.sub_zero, List.drop_length]
        rfl
      · rw [if_neg hlong, List.length_eq_zero_iff.mp (Nat.le_zero.mp (not_lt.mp hlong))]
        rfl
  | succ d ih =>
      rcases Nat.lt_or_ge n 10 with hlt | hge
      · rw [decimal_of_lt hlt, ← List.nil_append [UInt8.ofNat (48 + n)], shortened_append, digitsOf,
          Nat.div_eq_of_lt hlt, Nat.mod_eq_of_lt hlt, digitsOf_zero]
        simp [shortened, List.leftpad]
      · rw [decimal_of_le hge, shortened_append, ih, digitsOf]

/-- Only the last digits matter. -/
theorem digitsOf_mod (d n : ℕ) : digitsOf d (n % 10 ^ d) = digitsOf d n := by
  induction d generalizing n with
  | zero => rfl
  | succ d ih =>
      have hlast : n % 10 ^ (d + 1) % 10 = n % 10 :=
        Nat.mod_mod_of_dvd n (dvd_pow_self 10 (Nat.succ_ne_zero d))
      have hrest : n % 10 ^ (d + 1) / 10 = n / 10 % 10 ^ d := by
        rw [pow_succ, Nat.mul_comm, Nat.mod_mul_right_div_self]
      rw [digitsOf, digitsOf, hlast, hrest, ih]

/-! ## Counters -/

/-- The counter whose code is made for a step. -/
def counterAt (time : ℕ) (position : ℤ) (interval : ℕ) : ℕ :=
  (time + (position * interval % 2 ^ 32).toNat) / interval

theorem counterBytes_eq (timeSteps : ℕ) :
    counterBytes timeSteps = BigEndian.encode 8 timeSteps := by
  have hbyte : ∀ k, UInt8.ofNat (timeSteps >>> k &&& 0xFF) = UInt8.ofNat (timeSteps / 2 ^ k) := by
    intro k
    have hmod : timeSteps >>> k &&& 0xFF = timeSteps / 2 ^ k % 256 := by
      rw [Nat.shiftRight_eq_div_pow]
      exact Nat.and_two_pow_sub_one_eq_mod _ 8
    rw [hmod, ← UInt8.toNat_inj, UInt8.toNat_ofNat', UInt8.toNat_ofNat', Nat.mod_mod]
  simp [counterBytes, BigEndian.encode, List.range_succ, hbyte, Nat.div_div_eq_div_mul]

/-- A code is that of its counter. -/
theorem generateTOTP_eq (hmac : HmacSha1) (time : ℕ) (base32Secret : List UInt8) (position : ℤ)
    {interval : ℕ} (hinterval : 1 ≤ interval) (digits : ℕ) :
    generateTOTP hmac time base32Secret position interval digits =
      hotp hmac (DecodeBase32.decodeFromBase32 base32Secret) (counterAt time position interval)
        digits := by
  have hwidth : counterAt time position interval % 2 ^ 64 =
      counterAt time position interval % 256 ^ 8 := rfl
  rw [generateTOTP, hotp, digitsOf_mod, ← BigEndian.encode_mod 8, ← hwidth, ← counterBytes_eq]
  simp only [if_neg (Nat.ne_of_gt hinterval)]
  rw [shortened_decimal, dynamicBinaryCode_eq, counterAt]

/-- The present step. -/
theorem counterAt_zero (time interval : ℕ) : counterAt time 0 interval = time / interval := by
  rw [counterAt, zero_mul]
  rfl

/-- No step is before the present one. -/
theorem le_counterAt (time : ℕ) (position : ℤ) (interval : ℕ) :
    time / interval ≤ counterAt time position interval :=
  Nat.div_le_div_right (Nat.le_add_right _ _)

theorem counterAt_lt (time : ℕ) (position : ℤ) {interval : ℕ} (hinterval : 1 ≤ interval) :
    counterAt time position interval < time / interval + 2 ^ 32 := by
  have hshift : (position * interval % 2 ^ 32).toNat < 2 ^ 32 := by
    have := Int.emod_lt_of_pos (position * interval) (show (0 : ℤ) < 2 ^ 32 by decide)
    omega
  rw [counterAt]
  generalize (position * interval % 2 ^ 32).toNat = x at hshift
  have hle : (time + x) / interval ≤ (time + x * interval) / interval :=
    Nat.div_le_div_right (Nat.add_le_add_left (Nat.le_mul_of_pos_right x hinterval) _)
  rw [Nat.add_mul_div_right _ _ hinterval] at hle
  omega

/-- What is accepted are the codes of the counters of the steps. -/
theorem verifyToken_eq_true_iff (hmac : HmacSha1) (time : ℕ) (base32Secret tokenInput : List UInt8)
    (aperture : ℕ) {interval : ℕ} (hinterval : 1 ≤ interval) (digits : ℕ) :
    verifyToken hmac time base32Secret tokenInput aperture interval digits = some true ↔
      ∃ i : ℤ, -aperture ≤ i ∧ i ≤ aperture ∧
        tokenInput = hotp hmac (DecodeBase32.decodeFromBase32 base32Secret)
          (counterAt time i interval) digits := by
  -- the loop from -aperture to aperture, counted from 0
  have hany : ((List.range (2 * aperture + 1)).any fun i =>
      tokenInput =
        generateTOTP hmac time base32Secret ((i : ℤ) - aperture) interval digits) = true ↔
      ∃ i : ℤ, -aperture ≤ i ∧ i ≤ aperture ∧
        tokenInput = hotp hmac (DecodeBase32.decodeFromBase32 base32Secret)
          (counterAt time i interval) digits := by
    rw [List.any_eq_true]
    constructor
    · rintro ⟨k, hk, htoken⟩
      rw [List.mem_range] at hk
      rw [decide_eq_true_eq, generateTOTP_eq _ _ _ _ hinterval] at htoken
      exact ⟨(k : ℤ) - aperture, by omega, by omega, htoken⟩
    · rintro ⟨i, hlow, hhigh, htoken⟩
      refine ⟨(i + aperture).toNat, List.mem_range.mpr (by omega), ?_⟩
      have hi : (((i + aperture).toNat : ℕ) : ℤ) - aperture = i := by omega
      rw [decide_eq_true_eq, hi, generateTOTP_eq _ _ _ _ hinterval]
      exact htoken
  rw [verifyToken, ← hany]
  split
  · rename_i h
    exact iff_of_true rfl h
  · rename_i h
    refine iff_of_false ?_ h
    split
    · exact fun heq => Bool.noConfusion (Option.some.inj heq)
    · exact (Option.some_ne_none _).symm

/-! ## The window -/

/-- A function that tells one counter from all others. -/
def tellApart (counter : ℕ) : HmacSha1 := fun _ text =>
  if text = BigEndian.encode 8 counter then (Vector.replicate 20 0).set 3 1
  else Vector.replicate 20 0

theorem hotp_tellApart {counter counter' : ℕ} (digits : ℕ) (secret : List UInt8) :
    hotp (tellApart counter) secret counter' digits =
      digitsOf digits (if counter' % 2 ^ 64 = counter % 2 ^ 64 then 1 else 0) := by
  have hsame : BigEndian.encode 8 counter' = BigEndian.encode 8 counter ↔
      counter' % 2 ^ 64 = counter % 2 ^ 64 := by
    constructor
    · intro h
      have hdecode := congrArg BigEndian.decode h
      rwa [BigEndian.decode_encode_mod, BigEndian.decode_encode_mod] at hdecode
    · intro h
      have hwidth : (256 : ℕ) ^ 8 = 2 ^ 64 := rfl
      rw [← BigEndian.encode_mod 8 counter', ← BigEndian.encode_mod 8 counter, hwidth, h]
  rw [hotp, digitsOf_mod, tellApart]
  by_cases h : counter' % 2 ^ 64 = counter % 2 ^ 64
  · rw [if_pos (hsame.mpr h), if_pos h]
    congr 1
  · rw [if_neg (fun heq => h (hsame.mp heq)), if_neg h]
    congr 1

theorem digitsOf_one_ne {digits : ℕ} (hdigits : 1 ≤ digits) :
    digitsOf digits 1 ≠ digitsOf digits 0 := by
  obtain ⟨d, rfl⟩ := Nat.exists_eq_add_of_le' hdigits
  rw [digitsOf, digitsOf]
  intro h
  exact absurd (List.append_inj_right' h rfl) (by decide)

/-- The first step of the window is not among the ones that are tried. -/
theorem not_verifyToken_before {time interval aperture digits : ℕ} (hinterval : 1 ≤ interval)
    (hdigits : 1 ≤ digits) (haperture : aperture < 2 ^ 31) (hclock : aperture * interval ≤ time)
    (hpos : 0 < aperture) (base32Secret : List UInt8) :
    let hmac := tellApart (time / interval - aperture)
    let token := digitsOf digits 1
    InWindow hmac time base32Secret token aperture interval digits ∧
      verifyToken hmac time base32Secret token aperture interval digits ≠ some true := by
  have hle : aperture ≤ time / interval := (Nat.le_div_iff_mul_le hinterval).mpr hclock
  refine ⟨⟨-aperture, le_refl _, by omega, ?_⟩, ?_⟩
  · have hcounter :
        (((time / interval : ℕ) : ℤ) + -aperture).toNat = time / interval - aperture := by
      omega
    rw [hcounter, hotp_tellApart, if_pos rfl]
  · intro htrue
    obtain ⟨i, -, -, htoken⟩ := (verifyToken_eq_true_iff _ _ _ _ _ hinterval _).mp htrue
    have hlow := le_counterAt time i interval
    have hhigh := counterAt_lt time i hinterval
    rw [hotp_tellApart, if_neg (by omega)] at htoken
    exact digitsOf_one_ne hdigits htoken

/-- **The window.**  The tokens of the window are the ones that are accepted, whatever HMAC is,
exactly if the window is the present step alone. -/
theorem verifyToken_iff {time interval aperture digits : ℕ} (hinterval : 1 ≤ interval)
    (hdigits : 1 ≤ digits) (haperture : aperture < 2 ^ 31) (hclock : aperture * interval ≤ time) :
    (∀ hmac base32Secret tokenInput,
      verifyToken hmac time base32Secret tokenInput aperture interval digits = some true ↔
        InWindow hmac time base32Secret tokenInput aperture interval digits) ↔ aperture = 0 := by
  constructor
  · intro hall
    by_contra hne
    obtain ⟨hin, hnot⟩ := not_verifyToken_before hinterval hdigits haperture hclock
      (Nat.pos_of_ne_zero hne) []
    exact hnot ((hall _ _ _).mpr hin)
  · rintro rfl hmac base32Secret tokenInput
    rw [verifyToken_eq_true_iff _ _ _ _ _ hinterval, InWindow]
    refine exists_congr (fun i => and_congr_right (fun hlow => and_congr_right (fun hhigh => ?_)))
    obtain rfl : i = 0 := by
      simp only [Nat.cast_zero, neg_zero] at hlow hhigh
      exact le_antisymm hhigh hlow
    rw [counterAt_zero, add_zero, Int.toNat_natCast]

/-- At 59 seconds, with steps of 30 seconds and six digits: the present step alone, and a window of
one step to each side. -/
theorem verifyToken_iff_windows :
    (∀ hmac base32Secret tokenInput,
      verifyToken hmac 59 base32Secret tokenInput 0 30 6 = some true ↔
        InWindow hmac 59 base32Secret tokenInput 0 30 6) ∧
    ¬ ∀ hmac base32Secret tokenInput,
      verifyToken hmac 59 base32Secret tokenInput 1 30 6 = some true ↔
        InWindow hmac 59 base32Secret tokenInput 1 30 6 := by
  constructor
  · exact (verifyToken_iff (by decide) (by decide) (by decide) (by decide)).mpr rfl
  · intro hall
    have hzero : 1 = 0 := (verifyToken_iff (by decide) (by decide) (by decide) (by decide)).mp hall
    cases hzero

/-- The code of the step before the present one is not accepted. -/
theorem not_verifyToken_window :
    ¬ ∀ (hmac : HmacSha1) (base32Secret tokenInput : List UInt8)
      (time interval aperture digits : ℕ), 1 ≤ interval → interval < 2 ^ 32 → 1 ≤ digits →
      digits ≤ 10 → aperture < 2 ^ 31 → aperture * interval ≤ time →
      (verifyToken hmac time base32Secret tokenInput aperture interval digits = some true ↔
        InWindow hmac time base32Secret tokenInput aperture interval digits) := by
  intro hclaim
  -- at 59 seconds, with steps of 30 seconds, one step to each side and six digits
  have hbefore : InWindow (tellApart (59 / 30 - 1)) 59 [] (digitsOf 6 1) 1 30 6 ∧
      verifyToken (tellApart (59 / 30 - 1)) 59 [] (digitsOf 6 1) 1 30 6 ≠ some true :=
    not_verifyToken_before (by decide) (by decide) (by decide) (by decide) (by decide) []
  obtain ⟨hin, hnot⟩ := hbefore
  exact hnot ((hclaim _ _ _ 59 30 1 6 (by decide) (by decide) (by decide) (by decide) (by decide)
    (by decide)).mpr hin)

end GoogleAuthenticator

end Mantids
