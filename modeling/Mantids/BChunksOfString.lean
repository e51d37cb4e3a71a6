/-
# A chunked container made from a string

The constructor `B_Chunks(const std::string &)` contains the statement `B_Chunks();`, which makes
another container and drops it.  The limits of the container at hand are then whatever its memory
held.

* `Uninitialised` — the members that are read before they are written;
* `appendLoop` — the loop of `append2`, which need not end under such limits;
* `ofString` — the constructor;
* `Holds` — the constructor ends, and the container reads as the string;
* `holds_iff` — which strings a container holds, by the values its memory had.
-/
import Mantids.Spill
import Mantids.BChunksSlices

namespace Mantids

namespace BChunks

/-! ## The constructor -/

/-- What the memory of the object held where the three limits are. -/
structure Uninitialised where
  maxChunkSize : Fin (2 ^ 64)
  maxChunks : Fin (2 ^ 64)
  maxSizeInMemoryBeforeMovingToDisk : Fin (2 ^ 64)

/-- The object before the constructor appends: the base class, the vector and the pointer to the
file are set up. -/
def unset (u : Uninitialised) : BChunks where
  maxChunkSize := u.maxChunkSize
  maxChunks := u.maxChunks
  maxSizeInMemoryBeforeMovingToDisk := u.maxSizeInMemoryBeforeMovingToDisk

/-- The loop of `append2`, with a sum that can wrap around; `none` if it is not over after some
iterations. -/
def appendLoop : ℕ → BChunks → List UInt8 → ℕ → Option (BChunks × ℕ)
  | 0, _, _, _ => none
  | fuel + 1, c, buf, appendedBytes =>
    if buf = [] then some (c, appendedBytes)
    else if c.maxChunks < (c.chunksVector.length + 1) % 2 ^ 64 then some (c, appendedBytes)
    else
      appendLoop fuel (c.putChunk false (buf.take c.maxChunkSize)) (buf.drop c.maxChunkSize)
        (appendedBytes + (buf.take c.maxChunkSize).length)

/-- `append` of a container in memory, within some iterations of its loop. -/
def appendWithin (fuel : ℕ) (c : BChunks) (copyToFS : Bool) (buf : List UInt8) :
    Option SpillingChunks :=
  if checkUIntOverflowSum buf.length c.size then some ⟨c, none⟩
  else if c.maxSize < buf.length + c.size then some ⟨c, none⟩
  else if buf = [] then some ⟨c, none⟩
  else if c.maxSizeInMemoryBeforeMovingToDisk ≠ 0 ∧
      c.maxSizeInMemoryBeforeMovingToDisk < buf.length + c.size then
    if copyToFS then (SpillingChunks.spill c buf false).map Prod.fst else some ⟨c, none⟩
  else (appendLoop fuel c buf 0).map (fun r => ⟨r.1, none⟩)

/-- `B_Chunks(const std::string &)`, within some iterations of the loop. -/
def ofString (u : Uninitialised) (copyToFS : Bool) (fuel : ℕ) (str : List UInt8) :
    Option SpillingChunks :=
  appendWithin fuel (unset u) copyToFS str

/-- The constructor ends, and the container reads as the string. -/
def Holds (u : Uninitialised) (copyToFS : Bool) (str : List UInt8) : Prop :=
  ∃ fuel c, ofString u copyToFS fuel str = some c ∧ c.toString (2 ^ 64 - 1) 0 = some str

/-! ## The loop -/

/-- While chunks have bytes, the loop does what the loop of a container that was set up does, and it
is over after an iteration for each byte. -/
theorem appendLoop_cases (fuel : ℕ) {c : BChunks} {buf : List UInt8} (n : ℕ)
    (hk : 0 < c.maxChunkSize) (hlt : c.chunksVector.length + buf.length < 2 ^ 64) :
    appendLoop fuel c buf n = some (append2Loop false fuel c buf n) ∨
      (appendLoop fuel c buf n = none ∧ fuel ≤ buf.length) := by
  induction fuel generalizing c buf n with
  | zero => exact Or.inr ⟨rfl, Nat.zero_le _⟩
  | succ fuel ih =>
      unfold appendLoop append2Loop
      by_cases hbuf : buf = []
      · rw [if_pos hbuf, if_pos hbuf]
        exact Or.inl rfl
      · have hpos : 0 < buf.length := List.length_pos_iff.mpr hbuf
        have hdrop : (buf.drop c.maxChunkSize).length = buf.length - c.maxChunkSize :=
          List.length_drop
        rw [if_neg hbuf, if_neg hbuf, Nat.mod_eq_of_lt (by omega)]
        split
        · exact Or.inl rfl
        · have hnext : (c.putChunk false (buf.take c.maxChunkSize)).chunksVector.length +
              (buf.drop c.maxChunkSize).length < 2 ^ 64 := by
            rw [length_putChunk]
            omega
          apply (ih (c := c.putChunk false (buf.take c.maxChunkSize))
            (n + (buf.take c.maxChunkSize).length) hk hnext).imp_right
          rintro ⟨hnone, hle⟩
          exact ⟨hnone, by omega⟩

/-- Chunks without bytes store nothing, whether the loop ends or not. -/
theorem size_appendLoop_of_zero {fuel : ℕ} {c c' : BChunks} {buf : List UInt8} {n n' : ℕ}
    (hk : c.maxChunkSize = 0) (hsize : c.size = 0)
    (h : appendLoop fuel c buf n = some (c', n')) : c'.size = 0 := by
  induction fuel generalizing c n with
  | zero => cases h
  | succ fuel ih =>
      unfold appendLoop at h
      split at h
      · obtain ⟨rfl, -⟩ := Prod.mk.inj (Option.some.inj h)
        exact hsize
      · split at h
        · obtain ⟨rfl, -⟩ := Prod.mk.inj (Option.some.inj h)
          exact hsize
        · rw [hk, List.take_zero, List.drop_zero] at h
          apply ih (c := c.putChunk false []) hk ?_ h
          rw [size] at hsize
          rw [size, putChunk, hsize]
          rfl

/-! ## Reading the container -/

/-- A container of size zero reads as the empty string. -/
theorem toString_of_size_zero {c : SpillingChunks} (h : c.size = 0) :
    c.toString (2 ^ 64 - 1) 0 = some [] := by
  rw [SpillingChunks.toString, h, BBase.toString, if_neg (by omega)]
  simp only [if_true, Nat.sub_zero, checkUIntOverflowSum_eq_false (show 0 + 0 < 2 ^ 64 by norm_num),
    Bool.false_eq_true, if_false]

/-- A container in memory reads as its bytes. -/
theorem Sound.toString_eq {c : BChunks} (h : c.Sound) :
    SpillingChunks.toString ⟨c, none⟩ (2 ^ 64 - 1) 0 = some c.bytes := by
  have hsums := h.prefixSums
  have hread := (copies_are_slices hsums (2 ^ 64 - 1) (show 0 < 2 ^ 64 by norm_num)).2.1
  have hlt := hsums.size_lt
  have hrequested : requested c.size (2 ^ 64 - 1) 0 = c.size := if_pos rfl
  have hexceeds : ¬ Exceeds c.size (2 ^ 64 - 1) 0 := by
    rw [Exceeds, if_pos rfl]
    exact Nat.not_lt_zero _
  have hsize : c.size = c.bytes.length := h.counted.size_eq
  rw [if_neg hexceeds, hrequested, List.drop_zero, content_eq_bytes hsize, hsize,
    List.take_length] at hread
  exact hread

variable (u : Uninitialised) (copyToFS : Bool) {str : List UInt8}

/-! ## Which strings are held -/

theorem sound_unset : (unset u).Sound := ⟨repInv_clear (unset u), by norm_num [unset]⟩

/-- The empty string is not appended. -/
theorem holds_nil : Holds u copyToFS [] :=
  ⟨0, ⟨unset u, none⟩, rfl, toString_of_size_zero rfl⟩

/-- A string that may be in memory goes through the loop. -/
theorem ofString_eq_loop (hlt : str.length < 2 ^ 64) (hstr : str ≠ [])
    (hmemory : u.maxSizeInMemoryBeforeMovingToDisk.val = 0 ∨
      str.length ≤ u.maxSizeInMemoryBeforeMovingToDisk) (fuel : ℕ) :
    ofString u copyToFS fuel str =
      (appendLoop fuel (unset u) str 0).map (fun r => ⟨r.1, none⟩) := by
  have hsize : (unset u).size = 0 := rfl
  have hmax : (unset u).maxSize = 2 ^ 64 - 1 := rfl
  have hmemory' : (unset u).maxSizeInMemoryBeforeMovingToDisk =
      u.maxSizeInMemoryBeforeMovingToDisk := rfl
  rw [ofString, appendWithin, hsize, hmax, hmemory', checkUIntOverflowSum_eq_false (by omega),
    if_neg (by simp), if_neg (by omega), if_neg hstr, if_neg (by omega)]

/-- A string that has to leave memory cannot be read. -/
theorem size_ofString_of_exceeds (hlt : str.length < 2 ^ 64) (hstr : str ≠ [])
    (hexceeds : u.maxSizeInMemoryBeforeMovingToDisk.val ≠ 0 ∧
      u.maxSizeInMemoryBeforeMovingToDisk < str.length) {fuel : ℕ} {c : SpillingChunks}
    (h : ofString u copyToFS fuel str = some c) : c.size = 0 := by
  have hsize : (unset u).size = 0 := rfl
  have hmax : (unset u).maxSize = 2 ^ 64 - 1 := rfl
  have hmemory : (unset u).maxSizeInMemoryBeforeMovingToDisk =
      u.maxSizeInMemoryBeforeMovingToDisk := rfl
  rw [ofString, appendWithin, hsize, hmax, hmemory, checkUIntOverflowSum_eq_false (by omega),
    if_neg (by simp), if_neg (by omega), if_neg hstr, Nat.add_zero, if_pos hexceeds] at h
  rcases copyToFS with _ | _
  · obtain rfl := Option.some.inj h
    rfl
  · -- the file is new, and what is appended to it does not show
    rw [if_pos rfl, SpillingChunks.spill, SpillingChunks.copyToFS, if_pos hsize] at h
    obtain rfl := Option.some.inj h
    exact SpillingChunks.memSize_append rfl str

section Loop

variable {u}

/-- Whatever the loop has stored can be read. -/
theorem toString_append2Loop (hlt : str.length < 2 ^ 64) (hk : 0 < u.maxChunkSize.val) (fuel : ℕ) :
    SpillingChunks.toString ⟨(append2Loop false fuel (unset u) str 0).1, none⟩ (2 ^ 64 - 1) 0 =
      some (append2Loop false fuel (unset u) str 0).1.bytes := by
  apply Sound.toString_eq
  apply append2Loop_repInv fuel str 0 (sound_unset u).1 (Or.inl hk)
  rw [show (unset u).containerBytes = 0 from rfl]
  omega

/-- The cases of the loop for the new container. -/
theorem appendLoop_unset_cases (hlt : str.length < 2 ^ 64) (hk : 0 < u.maxChunkSize.val)
    (fuel : ℕ) :
    appendLoop fuel (unset u) str 0 = some (append2Loop false fuel (unset u) str 0) ∨
      (appendLoop fuel (unset u) str 0 = none ∧ fuel ≤ str.length) := by
  apply appendLoop_cases fuel 0 hk
  rw [show (unset u).chunksVector = [] from rfl, List.length_nil, Nat.zero_add]
  exact hlt

/-- With enough chunks the string is held. -/
theorem holds_of_chunksFor_le (hlt : str.length < 2 ^ 64) (hk : 0 < u.maxChunkSize.val)
    (hloop : ∀ fuel, ofString u copyToFS fuel str =
      (appendLoop fuel (unset u) str 0).map (fun r => ⟨r.1, none⟩))
    (hfit : (unset u).chunksFor str.length ≤ u.maxChunks) : Holds u copyToFS str := by
  -- an iteration for each byte and each chunk is more than enough
  obtain ⟨fuel, hfuel⟩ : ∃ fuel, fuel = str.length + u.maxChunks + 1 := ⟨_, rfl⟩
  have hchunks : (unset u).chunksVector.length = 0 := rfl
  have hmax : (unset u).maxChunks = u.maxChunks := rfl
  obtain ⟨-, hstored, -⟩ := append2Loop_fits fuel (c := unset u) str 0 hk (by omega) (by omega)
  have hread := toString_append2Loop hlt hk fuel
  rw [hstored, show (unset u).bytes = [] from rfl, List.nil_append] at hread
  rcases appendLoop_unset_cases hlt hk fuel with hsome | ⟨-, hle⟩
  · refine ⟨fuel, ⟨(append2Loop false fuel (unset u) str 0).1, none⟩, ?_, hread⟩
    rw [hloop, hsome]
    rfl
  · omega

/-- With too few chunks the string is cut short. -/
theorem not_holds_of_lt_chunksFor (hlt : str.length < 2 ^ 64) (hk : 0 < u.maxChunkSize.val)
    (hloop : ∀ fuel, ofString u copyToFS fuel str =
      (appendLoop fuel (unset u) str 0).map (fun r => ⟨r.1, none⟩))
    (hfit : u.maxChunks < (unset u).chunksFor str.length) : ¬ Holds u copyToFS str := by
  rintro ⟨fuel, c, hc, hstring⟩
  have hchunks : (unset u).chunksVector.length = 0 := rfl
  have hmax : (unset u).maxChunks = u.maxChunks := rfl
  rw [hloop] at hc
  rcases appendLoop_unset_cases hlt hk fuel with hsome | ⟨hnone, -⟩
  · rw [hsome] at hc
    obtain rfl := Option.some.inj hc
    have hcount := SpillingChunks.length_bytes_append2Loop false fuel (unset u) str 0
    have hshort := append2Loop_short fuel (c := unset u) str 0 hk (by omega) (by omega)
    have hbytes := Option.some.inj ((toString_append2Loop hlt hk fuel).symm.trans hstring)
    rw [hbytes, show (unset u).bytes = [] from rfl, List.length_nil] at hcount
    omega
  · rw [hnone] at hc
    cases hc

end Loop

/-- A string is stored whole exactly if it fits the chunks. -/
theorem holds_iff_fits (hlt : str.length < 2 ^ 64) (hstr : str ≠ [])
    (hmemory : u.maxSizeInMemoryBeforeMovingToDisk.val = 0 ∨
      str.length ≤ u.maxSizeInMemoryBeforeMovingToDisk) :
    Holds u copyToFS str ↔ str.length ≤ u.maxChunkSize * u.maxChunks := by
  have hpos : 0 < str.length := List.length_pos_iff.mpr hstr
  have hloop := ofString_eq_loop u copyToFS hlt hstr hmemory
  rcases Nat.eq_zero_or_pos u.maxChunkSize.val with hk | hk
  · -- no chunk ever takes a byte
    refine iff_of_false ?_ (by rw [hk, Nat.zero_mul]; omega)
    rintro ⟨fuel, c, hc, hread⟩
    rw [hloop] at hc
    obtain ⟨⟨c', n'⟩, hresult, rfl⟩ := Option.map_eq_some_iff.mp hc
    have hempty : SpillingChunks.size ⟨c', none⟩ = 0 := size_appendLoop_of_zero hk rfl hresult
    rw [toString_of_size_zero hempty] at hread
    exact hstr (Option.some.inj hread).symm
  · have hchunks : (unset u).chunksFor str.length ≤ u.maxChunks ↔
        str.length ≤ u.maxChunkSize * u.maxChunks := by
      rw [chunksFor, show (unset u).maxChunkSize = u.maxChunkSize from rfl,
        Nat.div_le_iff_le_mul_add_pred hk]
      omega
    rw [← hchunks]
    constructor
    · intro hholds
      by_contra hfit
      exact not_holds_of_lt_chunksFor copyToFS hlt hk hloop (Nat.lt_of_not_le hfit) hholds
    · intro hfit
      exact holds_of_chunksFor_le copyToFS hlt hk hloop hfit

/-- **What a container made from a string holds.**  It reads as the string exactly if the string is
empty, or the values that its memory had let the string stay in memory and give it enough chunks. -/
theorem holds_iff (hlt : str.length < 2 ^ 64) :
    Holds u copyToFS str ↔
      str = [] ∨
        ((u.maxSizeInMemoryBeforeMovingToDisk.val = 0 ∨
            str.length ≤ u.maxSizeInMemoryBeforeMovingToDisk) ∧
          str.length ≤ u.maxChunkSize * u.maxChunks) := by
  rcases eq_or_ne str [] with rfl | hstr
  · exact iff_of_true (holds_nil u copyToFS) (Or.inl rfl)
  · rw [or_iff_right hstr]
    by_cases hmemory : u.maxSizeInMemoryBeforeMovingToDisk.val = 0 ∨
        str.length ≤ u.maxSizeInMemoryBeforeMovingToDisk
    · rw [and_iff_right hmemory]
      exact holds_iff_fits u copyToFS hlt hstr hmemory
    · refine iff_of_false ?_ (fun h => hmemory h.1)
      rintro ⟨fuel, c, hc, hread⟩
      rw [not_or, not_le] at hmemory
      rw [toString_of_size_zero (size_ofString_of_exceeds u copyToFS hlt hstr hmemory hc)] at hread
      exact hstr (Option.some.inj hread).symm

/-- Two chunks of one byte take a string of two. -/
theorem holds_iff_two : Holds ⟨1, 2, 0⟩ true [65, 66] :=
  (holds_iff ⟨1, 2, 0⟩ true (by norm_num)).mpr (Or.inr ⟨Or.inl rfl, by decide⟩)

/-- Memory that was all zeros leaves no chunk for a string. -/
theorem zeroed_holds_nothing : ¬ Holds ⟨0, 0, 0⟩ true [65] := by
  rintro ⟨fuel, c, hc, hread⟩
  rcases fuel with _ | fuel
  · cases hc
  · obtain rfl := Option.some.inj hc
    exact absurd hread (by decide)

end BChunks

end Mantids
