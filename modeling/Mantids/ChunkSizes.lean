/-
# The size of a chunk

`Content::parseHttpChunkSize` (`Protocol_HTTP/common_content.cpp`) leaves the line to `strtoul`, and
puts what that returns into 32 bits.

* `HexNumeral` — the texts that `strtoul` converts to the end: blanks, a sign, a `0x` and digits;
* `strtoul_eq_some_iff` — it converts these and no others;
* `chunkSize_exact_iff` — which lines are read exactly.
-/
import Mantids.ChunkedBody
import Mantids.MimeHeader

namespace Mantids

/-! ## What is converted -/

/-- The value of digits in base 16. -/
def hexValue (digits : List UInt8) : ℕ := digits.foldl (fun v c => v * 16 + xdigitValue c) 0

/-- A text that `strtoul` converts in base 16. -/
structure HexNumeral where
  blanks : List UInt8
  sign : List UInt8
  /-- The `0x`, if there is one. -/
  marker : List UInt8
  digits : List UInt8
  blanks_isspace : ∀ c ∈ blanks, isspace c = true
  sign_mem : sign ∈ [[], [43], [45]]
  marker_mem : marker ∈ [[], [48, 120], [48, 88]]
  digits_ne_nil : digits ≠ []
  digits_isxdigit : ∀ c ∈ digits, isxdigit c = true

namespace HexNumeral

def text (m : HexNumeral) : List UInt8 := m.blanks ++ (m.sign ++ (m.marker ++ m.digits))

/-- What is returned: the largest number if there are too many digits, and behind a minus the
number that is missing to 2 ^ 64. -/
def value (m : HexNumeral) : ℕ :=
  if 2 ^ 64 ≤ hexValue m.digits then 2 ^ 64 - 1
  else if m.sign = [45] then (2 ^ 64 - hexValue m.digits) % 2 ^ 64
  else hexValue m.digits

/-- Digits alone. -/
def ofDigits (digits : List UInt8) (hne : digits ≠ []) (hdigits : ∀ c ∈ digits, isxdigit c = true) :
    HexNumeral where
  blanks := []
  sign := []
  marker := []
  digits := digits
  blanks_isspace := fun c hc => absurd hc List.not_mem_nil
  sign_mem := by simp
  marker_mem := by simp
  digits_ne_nil := hne
  digits_isxdigit := hdigits

end HexNumeral

theorem isxdigit_spec {c : UInt8} (h : isxdigit c = true) :
    isspace c = false ∧ c ≠ 43 ∧ c ≠ 45 ∧ c ≠ 88 ∧ c ≠ 120 ∧ c ≠ 0 := by
  have hall : ∀ c : UInt8, isxdigit c = true →
      isspace c = false ∧ c ≠ 43 ∧ c ≠ 45 ∧ c ≠ 88 ∧ c ≠ 120 ∧ c ≠ 0 := by decide +kernel
  exact hall c h

/-- What stands in front of the digits is skipped. -/
theorem skipHexPrefix_marker {marker digits : List UInt8}
    (hmarker : marker ∈ [[], [48, 120], [48, 88]]) (hne : digits ≠ [])
    (hdigits : ∀ c ∈ digits, isxdigit c = true) : skipHexPrefix (marker ++ digits) = digits := by
  obtain ⟨d, ds, rfl⟩ := List.exists_cons_of_ne_nil hne
  have hd : isxdigit d = true := hdigits d List.mem_cons_self
  simp only [List.mem_cons, List.not_mem_nil, or_false] at hmarker
  rcases hmarker with rfl | rfl | rfl
  · exact skipHexPrefix_digits fun x hx => ⟨(isxdigit_spec (hdigits x hx)).2.2.2.1,
      (isxdigit_spec (hdigits x hx)).2.2.2.2.1⟩
  · simp [skipHexPrefix, hd]
  · simp [skipHexPrefix, hd]

/-- A prefix that is skipped is a `0x`. -/
theorem exists_marker (s : List UInt8) :
    ∃ marker ∈ [[], [48, 120], [48, 88]], s = marker ++ skipHexPrefix s := by
  unfold skipHexPrefix
  split
  · rename_i x d rest
    split
    · rename_i h
      rcases h.1 with rfl | rfl
      · exact ⟨[48, 120], by simp, rfl⟩
      · exact ⟨[48, 88], by simp, rfl⟩
    · exact ⟨[], by simp, rfl⟩
  · exact ⟨[], by simp, rfl⟩

/-- `strtoul` converts a numeral. -/
theorem strtoul_text (m : HexNumeral) : strtoul m.text = some m.value := by
  obtain ⟨d, ds, hdigits⟩ := List.exists_cons_of_ne_nil m.digits_ne_nil
  have hd := isxdigit_spec (m.digits_isxdigit d (by rw [hdigits]; exact List.mem_cons_self))
  -- neither a blank nor a sign begins what follows them
  have hmarker : ∃ c rest, m.marker ++ m.digits = c :: rest ∧ isspace c = false ∧ c ≠ 43 ∧
      c ≠ 45 := by
    have hmem := m.marker_mem
    simp only [List.mem_cons, List.not_mem_nil, or_false] at hmem
    rcases hmem with hmem | hmem | hmem
    · exact ⟨d, ds, by rw [hmem, hdigits, List.nil_append], hd.1, hd.2.1, hd.2.2.1⟩
    · exact ⟨48, 120 :: m.digits, by rw [hmem]; rfl, by decide⟩
    · exact ⟨48, 88 :: m.digits, by rw [hmem]; rfl, by decide⟩
  obtain ⟨c, rest, hrest, hspace, hplus, hminus⟩ := hmarker
  have hskip := skipHexPrefix_marker m.marker_mem m.digits_ne_nil m.digits_isxdigit
  have hall : m.digits.all isxdigit = true := List.all_eq_true.mpr m.digits_isxdigit
  have hblanks : m.text.dropWhile isspace = m.sign ++ (m.marker ++ m.digits) := by
    rw [HexNumeral.text, List.dropWhile_append_of_pos m.blanks_isspace, hrest]
    have hsign := m.sign_mem
    simp only [List.mem_cons, List.not_mem_nil, or_false] at hsign
    rcases hsign with hsign | hsign | hsign
    · rw [hsign, List.nil_append, List.dropWhile_cons_of_neg (by simp [hspace])]
    · rw [hsign, List.singleton_append, List.dropWhile_cons_of_neg (by decide)]
    · rw [hsign, List.singleton_append, List.dropWhile_cons_of_neg (by decide)]
  have hsign : (if (m.sign ++ (m.marker ++ m.digits)).head? = some 45 ∨
      (m.sign ++ (m.marker ++ m.digits)).head? = some 43
        then (m.sign ++ (m.marker ++ m.digits)).tail
      else m.sign ++ (m.marker ++ m.digits)) = m.marker ++ m.digits ∧
        ((m.sign ++ (m.marker ++ m.digits)).head? = some 45 ↔ m.sign = [45]) := by
    have hmem := m.sign_mem
    simp only [List.mem_cons, List.not_mem_nil, or_false] at hmem
    rw [hrest]
    rcases hmem with hmem | hmem | hmem <;> simp [hmem, hplus, hminus]
  have hconverted : ¬ (m.digits = [] ∨ m.digits.all isxdigit = false) := by
    simp [m.digits_ne_nil, hall]
  unfold strtoul HexNumeral.value
  dsimp only
  rw [hblanks, hsign.1, hskip, if_neg hconverted]
  simp only [beq_iff_eq, hsign.2]
  rfl

/-- What `strtoul` converts is a numeral. -/
theorem exists_numeral {s : List UInt8} {v : ℕ} (h : strtoul s = some v) :
    ∃ m : HexNumeral, m.text = s ∧ m.value = v := by
  -- the sign is what is left out behind the blanks
  have hsign : ∀ t : List UInt8, ∃ sign ∈ [[], [43], [45]],
      t = sign ++ (if t.head? = some 45 ∨ t.head? = some 43 then t.tail else t) ∧
        (sign = [45] ↔ t.head? = some 45) := by
    intro t
    rcases t with _ | ⟨c, t⟩
    · exact ⟨[], by simp, rfl, by simp⟩
    · by_cases hminus : c = 45
      · exact ⟨[45], by simp, by simp [hminus], by simp [hminus]⟩
      · by_cases hplus : c = 43
        · exact ⟨[43], by simp, by simp [hplus], by simp [hplus]⟩
        · exact ⟨[], by simp, by simp [hminus, hplus], by simp [hminus]⟩
  obtain ⟨sign, hmem, htext, hneg⟩ := hsign (s.dropWhile isspace)
  unfold strtoul at h
  dsimp only at h
  generalize (if (s.dropWhile isspace).head? = some 45 ∨ (s.dropWhile isspace).head? = some 43 then
    (s.dropWhile isspace).tail else s.dropWhile isspace) = body at h htext
  obtain ⟨marker, hmarker, hbody⟩ := exists_marker body
  split at h
  · cases h
  · rename_i hconverted
    rw [not_or, Bool.not_eq_false, List.all_eq_true] at hconverted
    refine ⟨⟨s.takeWhile isspace, sign, marker, skipHexPrefix body,
      fun c hc => List.mem_takeWhile_imp hc, hmem, hmarker, hconverted.1, hconverted.2⟩, ?_, ?_⟩
    · rw [HexNumeral.text, ← hbody, ← htext, List.takeWhile_append_dropWhile]
    · rw [← Option.some.inj h, HexNumeral.value]
      simp only [hneg, beq_iff_eq]
      rfl

/-- **What `strtoul` converts** to the end of the text. -/
theorem strtoul_eq_some_iff {s : List UInt8} {v : ℕ} :
    strtoul s = some v ↔ ∃ m : HexNumeral, m.text = s ∧ m.value = v := by
  constructor
  · exact exists_numeral
  · rintro ⟨m, rfl, rfl⟩
    exact strtoul_text m

namespace Content

/-! ## Which lines are read exactly -/

/-- A line that gives the size `n`: digits alone, and the size is within the limit. -/
def GivesSize (c : Content) (line : List UInt8) (n : ℕ) : Prop :=
  line ≠ [] ∧ (∀ x ∈ line, isxdigit x = true) ∧ hexValue line = n ∧ n ≤ c.securityMaxHttpChunkSize

/-- A size that is returned is the size the line gives, and every other line is an error. -/
def ReadsExactly (c : Content) (line : List UInt8) : Prop :=
  (∀ n, c.parseHttpChunkSize line = n → n ≠ 2 ^ 32 - 1 → c.GivesSize line n) ∧
  ((∀ n, ¬ c.GivesSize line n) → ∀ unparsedBuffer st delimiterFound,
    (parse unparsedBuffer c st ⟨line, delimiterFound⟩).2.2 = .error)

/-- An error is what `parse()` makes of `UINT32_MAX`. -/
theorem parse_chunkSize_error {c : Content} (hmode : c.currentMode = .chunkSize) {line : List UInt8}
    (hsize : c.parseHttpChunkSize line = 2 ^ 32 - 1) (unparsedBuffer : BChunks) (st : ParseSettings)
    (delimiterFound : List UInt8) :
    (parse unparsedBuffer c st ⟨line, delimiterFound⟩).2.2 = .error := by
  unfold parse
  rw [hmode]
  dsimp only
  rw [if_pos hsize]

theorem takeWhile_bne_zero (line : List UInt8) :
    line.takeWhile (· != 0) = line.takeWhile (· ≠ 0) := by
  congr 1
  funext x
  simp [bne, beq_eq_decide]

/-- A line that is not converted is an error. -/
theorem parseHttpChunkSize_of_not_numeral (c : Content) {line : List UInt8}
    (h : ∀ m : HexNumeral, m.text ≠ line.takeWhile (· ≠ 0)) :
    c.parseHttpChunkSize line = 2 ^ 32 - 1 := by
  have hconvert : toUInt32 line = none := by
    rw [toUInt32, takeWhile_bne_zero, Option.map_eq_none_iff, Option.eq_none_iff_forall_ne_some]
    intro v hv
    obtain ⟨m, htext, -⟩ := strtoul_eq_some_iff.mp hv
    exact h m htext
  rw [parseHttpChunkSize, hconvert]

/-- What is returned for a text that is converted: the low 32 bits, if they are within the limit. -/
theorem parseHttpChunkSize_numeral (c : Content) {line : List UInt8} {m : HexNumeral}
    (htext : m.text = line.takeWhile (· ≠ 0)) :
    c.parseHttpChunkSize line =
      if c.securityMaxHttpChunkSize < m.value % 2 ^ 32 then 2 ^ 32 - 1 else m.value % 2 ^ 32 := by
  have hconvert : toUInt32 line = some (m.value % 2 ^ 32) := by
    rw [toUInt32, takeWhile_bne_zero, ← htext, strtoul_text, Option.map_some]
  rw [parseHttpChunkSize, hconvert]

/-- **Chunk sizes.**  A line is read exactly if and only if it is nothing but digits of a number of
32 bits, or what is converted of it, if anything is, has low 32 bits that are refused. -/
theorem chunkSize_exact_iff (c : Content) (hmode : c.currentMode = .chunkSize) (line : List UInt8) :
    c.ReadsExactly line ↔
      (line ≠ [] ∧ (∀ x ∈ line, isxdigit x = true) ∧ hexValue line < 2 ^ 32) ∨
      ∀ m : HexNumeral, m.text = line.takeWhile (· ≠ 0) →
        c.securityMaxHttpChunkSize < m.value % 2 ^ 32 ∨ m.value % 2 ^ 32 = 2 ^ 32 - 1 := by
  constructor
  · rintro ⟨hexact, -⟩
    by_contra hnot
    rw [not_or] at hnot
    obtain ⟨hdigits, hnumeral⟩ := hnot
    push Not at hnumeral
    obtain ⟨m, htext, hlimit, hmax⟩ := hnumeral
    have hsize := c.parseHttpChunkSize_numeral htext
    rw [if_neg (Nat.not_lt.mpr hlimit)] at hsize
    obtain ⟨hne, hall, hvalue, -⟩ := hexact _ hsize hmax
    have hlt := Nat.mod_lt m.value (show 0 < 2 ^ 32 by norm_num)
    exact hdigits ⟨hne, hall, by omega⟩
  · intro hwhen
    have hexact : ∀ n, c.parseHttpChunkSize line = n → n ≠ 2 ^ 32 - 1 → c.GivesSize line n := by
      rintro n rfl hmax
      rcases hwhen with ⟨hne, hall, hlt⟩ | hrefused
      · -- the digits are converted as they are
        have htake : line.takeWhile (· ≠ 0) = line := by
          rw [List.takeWhile_eq_self_iff]
          exact fun x hx => decide_eq_true (isxdigit_spec (hall x hx)).2.2.2.2.2
        have hvalue : (HexNumeral.ofDigits line hne hall).value = hexValue line := by
          unfold HexNumeral.value HexNumeral.ofDigits
          dsimp only
          rw [if_neg (by omega), if_neg (by simp)]
        have hsize := c.parseHttpChunkSize_numeral (m := HexNumeral.ofDigits line hne hall)
          (by rw [htake]; rfl)
        rw [hvalue, Nat.mod_eq_of_lt hlt] at hsize
        split at hsize
        · exact absurd hsize hmax
        · rename_i hlimit
          rw [hsize]
          exact ⟨hne, hall, rfl, Nat.not_lt.mp hlimit⟩
      · -- nothing that is converted is returned
        refine absurd ?_ hmax
        by_cases hm : ∃ m : HexNumeral, m.text = line.takeWhile (· ≠ 0)
        · obtain ⟨m, htext⟩ := hm
          rw [c.parseHttpChunkSize_numeral htext]
          split
          · rfl
          · rename_i hlimit
            exact (hrefused m htext).resolve_left hlimit
        · exact c.parseHttpChunkSize_of_not_numeral fun m htext => hm ⟨m, htext⟩
    refine ⟨hexact, fun hgives => ?_⟩
    apply parse_chunkSize_error hmode
    by_contra hmax
    exact hgives _ (hexact _ rfl hmax)

theorem chunkSize_exact_digits :
    ReadsExactly { currentMode := .chunkSize } (bytesOf "1f") ∧
      GivesSize { currentMode := .chunkSize } (bytesOf "1f") 31 := by
  have hdigits : ∀ x ∈ bytesOf "1f", isxdigit x = true := List.all_eq_true.mp rfl
  exact ⟨(chunkSize_exact_iff _ rfl _).mpr (Or.inl ⟨by decide, hdigits, by decide⟩),
    by decide, hdigits, by decide, by decide⟩

/-- A size of 33 bits is taken for what is left of it in 32, and a sign for nothing. -/
theorem not_chunkSize_exact :
    parseHttpChunkSize { currentMode := .chunkSize } (bytesOf "100000005") = 5 ∧
    ¬ ReadsExactly { currentMode := .chunkSize } (bytesOf "100000005") ∧
    parseHttpChunkSize { currentMode := .chunkSize } (bytesOf "+5") = 5 ∧
    ¬ ReadsExactly { currentMode := .chunkSize } (bytesOf "+5") := by
  have hlong : parseHttpChunkSize { currentMode := .chunkSize } (bytesOf "100000005") = 5 := by
    decide +kernel
  have hplus : parseHttpChunkSize { currentMode := .chunkSize } (bytesOf "+5") = 5 := by
    decide +kernel
  refine ⟨hlong, ?_, hplus, ?_⟩
  · rintro ⟨hexact, -⟩
    obtain ⟨-, -, hvalue, -⟩ := hexact 5 hlong (by norm_num)
    exact absurd hvalue (by decide +kernel)
  · rintro ⟨hexact, -⟩
    obtain ⟨-, hdigits, -⟩ := hexact 5 hplus (by norm_num)
    exact absurd (hdigits 43 (by decide)) (by decide)

end Content

end Mantids
