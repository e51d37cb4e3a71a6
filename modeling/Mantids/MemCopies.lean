/-
# Copies in blocks

`Mem::memcpy64` and `Mem::memmove64` (`Helpers/mem.cpp`) copy blocks of 64 KiB.  The loop of
`memcpy64` counts every block twice; the blocks of `memmove64` do not get shorter at the end.  The
remaining number of bytes is unsigned: where it goes below zero, the loop runs on until it leaves
the memory.

* `moved` — the memory once a part of a region has been moved;
* `memcpy64Loop_dvd`, `memmoveUp_dvd`, `memmoveDown_dvd` — a loop that ends has come out even;
* `memmove64Blocks`, `memmove64_blocks` — where the blocks of a call start, and that a call which
  returns has moved these;
* `Moves` — the regions are copied, and nothing else is touched;
* `block_copies_iff` — when the two functions copy.
-/
import Mantids.BMmap

namespace Mantids

namespace Mem

/-! ## Writing over a part of the memory -/

variable {mem data : List UInt8} {pos dest src n : ℕ}

theorem length_overwrite (h : pos + data.length ≤ mem.length) :
    (overwrite mem pos data).length = mem.length := by
  unfold overwrite
  rw [List.length_append, List.length_append, List.length_take, List.length_drop]
  omega

theorem getElem?_overwrite (h : pos + data.length ≤ mem.length) (i : ℕ) :
    (overwrite mem pos data)[i]? =
      if pos ≤ i ∧ i < pos + data.length then data[i - pos]? else mem[i]? := by
  have htake : (mem.take pos).length = pos := List.length_take_of_le (by omega)
  unfold overwrite
  by_cases hlo : i < pos
  · rw [if_neg (by omega), List.append_assoc, List.getElem?_append_left (by omega),
      List.getElem?_take_of_lt hlo]
  · by_cases hhi : i < pos + data.length
    · rw [if_pos ⟨by omega, hhi⟩, List.append_assoc, List.getElem?_append_right (by omega), htake,
        List.getElem?_append_left (by omega)]
    · rw [if_neg (by omega), List.getElem?_append_right (by rw [List.length_append]; omega),
        List.length_append, htake, List.getElem?_drop]
      congr 1
      omega

/-- The bytes of a region from `lo` to `hi` have been moved. -/
def moved (mem : List UInt8) (dest src lo hi : ℕ) : List UInt8 :=
  overwrite mem (dest + lo) ((mem.drop (src + lo)).take (hi - lo))

theorem moved_self (mem : List UInt8) (dest src lo : ℕ) : moved mem dest src lo lo = mem := by
  unfold moved overwrite
  rw [Nat.sub_self, List.take_zero, List.append_nil, List.length_nil, Nat.add_zero,
    List.take_append_drop]

theorem length_source {lo hi : ℕ} (hle : lo ≤ hi) (hsrc : src + hi ≤ mem.length) :
    ((mem.drop (src + lo)).take (hi - lo)).length = hi - lo := by
  rw [List.length_take, List.length_drop]
  omega

section

variable {lo hi : ℕ} (hdest : dest + hi ≤ mem.length) (hsrc : src + hi ≤ mem.length) (hle : lo ≤ hi)

include hdest hsrc hle

theorem length_moved : (moved mem dest src lo hi).length = mem.length := by
  apply length_overwrite
  rw [length_source hle hsrc]
  omega

theorem getElem?_moved (i : ℕ) :
    (moved mem dest src lo hi)[i]? =
      if dest + lo ≤ i ∧ i < dest + hi then mem[src + (i - dest)]? else mem[i]? := by
  have hlen := length_source hle hsrc
  unfold moved
  rw [getElem?_overwrite (by omega), hlen]
  by_cases hin : dest + lo ≤ i ∧ i < dest + hi
  · rw [if_pos (by omega), if_pos hin, List.getElem?_take_of_lt (by omega), List.getElem?_drop]
    congr 1
    omega
  · rw [if_neg (by omega), if_neg hin]

end

/-- **One block.**  A block at an end of the bytes that have been moved is moved as well, if these
do not reach into what it is read from. -/
theorem memmove_moved {lo hi p count : ℕ} (hle : lo ≤ hi)
    (hdest : dest + max hi (p + count) ≤ mem.length)
    (hsrc : src + max hi (p + count) ≤ mem.length) (hend : p = hi ∨ p + count = lo)
    (hclear : src + p + count ≤ dest + lo ∨ dest + hi ≤ src + p) :
    memmove (moved mem dest src lo hi) (dest + p) (src + p) count =
      some (moved mem dest src (min lo p) (max hi (p + count))) := by
  have hlen : (moved mem dest src lo hi).length = mem.length :=
    length_moved (by omega) (by omega) hle
  have hblock : (((moved mem dest src lo hi).drop (src + p)).take count).length = count := by
    rw [List.length_take, List.length_drop, hlen]
    omega
  unfold memmove
  rw [if_pos (by omega)]
  congr 1
  apply List.ext_getElem?
  intro i
  rw [getElem?_overwrite (by omega), hblock, getElem?_moved hdest hsrc (by omega)]
  by_cases hin : dest + p ≤ i ∧ i < dest + p + count
  · rw [if_pos hin, if_pos (by omega), List.getElem?_take_of_lt (by omega), List.getElem?_drop,
      getElem?_moved (by omega) (by omega) hle, if_neg (by omega)]
    congr 1
    omega
  · rw [if_neg hin, getElem?_moved (by omega) (by omega) hle]
    by_cases hbefore : dest + lo ≤ i ∧ i < dest + hi
    · rw [if_pos hbefore, if_pos (by omega)]
    · rw [if_neg hbefore, if_neg (by omega)]

/-! ## The loops -/

theorem memmoveUp_step {currentBlock fuel currentOffset numBytes : ℕ} {mem' : List UInt8}
    (hn : numBytes ≠ 0)
    (h : memmove mem (dest + currentOffset) (src + currentOffset) currentBlock = some mem') :
    memmoveUp dest src currentBlock (fuel + 1) mem currentOffset numBytes =
      memmoveUp dest src currentBlock fuel mem' (currentOffset + currentBlock)
        (subSizeT numBytes currentBlock) := by
  rw [memmoveUp, h]
  exact hn

theorem memmoveDown_step {currentBlock fuel numBytes : ℕ} {mem' : List UInt8} (hn : numBytes ≠ 0)
    (h : memmove mem (blockBefore dest numBytes currentBlock)
      (blockBefore src numBytes currentBlock) currentBlock = some mem') :
    memmoveDown dest src currentBlock (fuel + 1) mem numBytes =
      memmoveDown dest src currentBlock fuel mem' (subSizeT numBytes currentBlock) := by
  rw [memmoveDown, h, Option.bind_some]
  exact hn

/-- A loop that ends has nothing to move, or moves a block and goes on. -/
theorem memmoveUp_cases {currentBlock fuel currentOffset numBytes : ℕ} {mem' : List UInt8}
    (h : memmoveUp dest src currentBlock fuel mem currentOffset numBytes = some mem') :
    (numBytes = 0 ∧ mem = mem') ∨
      ∃ fuel' m, numBytes ≠ 0 ∧ fuel = fuel' + 1 ∧
        memmove mem (dest + currentOffset) (src + currentOffset) currentBlock = some m ∧
        memmoveUp dest src currentBlock fuel' m (currentOffset + currentBlock)
          (subSizeT numBytes currentBlock) = some mem' := by
  by_cases hn : numBytes = 0
  · subst hn
    rw [memmoveUp] at h
    exact Or.inl ⟨rfl, Option.some.inj h⟩
  · obtain ⟨k, rfl⟩ := Nat.exists_eq_succ_of_ne_zero hn
    cases fuel with
    | zero => cases h
    | succ fuel =>
        cases hm : memmove mem (dest + currentOffset) (src + currentOffset) currentBlock with
        | none =>
            rw [memmoveUp, hm] at h
            · cases h
            · exact hn
        | some m =>
            rw [memmoveUp_step hn hm] at h
            exact Or.inr ⟨fuel, m, hn, rfl, rfl, h⟩

theorem memmoveDown_cases {currentBlock fuel numBytes : ℕ} {mem' : List UInt8}
    (h : memmoveDown dest src currentBlock fuel mem numBytes = some mem') :
    (numBytes = 0 ∧ mem = mem') ∨
      ∃ fuel' m, numBytes ≠ 0 ∧ fuel = fuel' + 1 ∧
        memmove mem (blockBefore dest numBytes currentBlock)
          (blockBefore src numBytes currentBlock) currentBlock = some m ∧
        memmoveDown dest src currentBlock fuel' m (subSizeT numBytes currentBlock) =
          some mem' := by
  by_cases hn : numBytes = 0
  · subst hn
    rw [memmoveDown] at h
    exact Or.inl ⟨rfl, Option.some.inj h⟩
  · obtain ⟨k, rfl⟩ := Nat.exists_eq_succ_of_ne_zero hn
    cases fuel with
    | zero => cases h
    | succ fuel =>
        rw [memmoveDown, Option.bind_eq_some_iff] at h
        · obtain ⟨m, hm, hrest⟩ := h
          exact Or.inr ⟨fuel, m, hn, rfl, hm, hrest⟩
        · exact hn

/-- A block more or less does not change whether what is left comes out even. -/
theorem dvd_subSizeT (n : ℕ) : blockSize ∣ subSizeT n blockSize ↔ blockSize ∣ n := by
  unfold subSizeT blockSize
  omega

theorem memmoveUp_dvd {fuel : ℕ} {mem mem' : List UInt8} {currentOffset numBytes : ℕ}
    (h : memmoveUp dest src blockSize fuel mem currentOffset numBytes = some mem') :
    blockSize ∣ numBytes := by
  induction fuel generalizing mem currentOffset numBytes with
  | zero =>
      rcases memmoveUp_cases h with ⟨rfl, -⟩ | ⟨_, _, -, hfuel, -⟩
      · exact dvd_zero _
      · cases hfuel
  | succ fuel ih =>
      rcases memmoveUp_cases h with ⟨rfl, -⟩ | ⟨_, _, -, hfuel, -, hrest⟩
      · exact dvd_zero _
      · cases hfuel
        exact (dvd_subSizeT _).mp (ih hrest)

theorem memmoveDown_dvd {fuel : ℕ} {mem mem' : List UInt8} {numBytes : ℕ}
    (h : memmoveDown dest src blockSize fuel mem numBytes = some mem') :
    blockSize ∣ numBytes := by
  induction fuel generalizing mem numBytes with
  | zero =>
      rcases memmoveDown_cases h with ⟨rfl, -⟩ | ⟨_, _, -, hfuel, -⟩
      · exact dvd_zero _
      · cases hfuel
  | succ fuel ih =>
      rcases memmoveDown_cases h with ⟨rfl, -⟩ | ⟨_, _, -, hfuel, -, hrest⟩
      · exact dvd_zero _
      · cases hfuel
        exact (dvd_subSizeT _).mp (ih hrest)

/-- From the front, the blocks of a region that lies behind its destination are all moved. -/
theorem memmoveUp_moved {currentBlock : ℕ} (hpos : 0 < currentBlock) (hlt : dest < src) {k : ℕ} :
    ∀ {fuel currentOffset : ℕ}, k ≤ fuel → src + (currentOffset + k * currentBlock) ≤ mem.length →
      src + (currentOffset + k * currentBlock) < 2 ^ 64 →
      memmoveUp dest src currentBlock fuel (moved mem dest src 0 currentOffset) currentOffset
          (k * currentBlock) =
        some (moved mem dest src 0 (currentOffset + k * currentBlock)) := by
  induction k with
  | zero =>
      intro fuel currentOffset _ _ _
      rw [Nat.zero_mul, Nat.add_zero]
      unfold memmoveUp
      cases fuel <;> rfl
  | succ k ih =>
      intro fuel currentOffset hfuel hsrc hmem
      obtain ⟨fuel, rfl⟩ : ∃ f, fuel = f + 1 := ⟨fuel - 1, by omega⟩
      rw [Nat.succ_mul] at hsrc hmem ⊢
      have hblock : memmove (moved mem dest src 0 currentOffset) (dest + currentOffset)
          (src + currentOffset) currentBlock =
            some (moved mem dest src (min 0 currentOffset)
              (max currentOffset (currentOffset + currentBlock))) :=
        memmove_moved (Nat.zero_le currentOffset) (by omega) (by omega) (Or.inl rfl)
          (Or.inr (by omega))
      rw [Nat.zero_min, Nat.max_eq_right (by omega)] at hblock
      have hleft : subSizeT (k * currentBlock + currentBlock) currentBlock = k * currentBlock := by
        rw [subSizeT_of_le (by omega) (by omega), Nat.add_sub_cancel]
      rw [memmoveUp_step (by omega) hblock, hleft, ih (by omega) (by omega) (by omega)]
      congr 2
      omega

/-- From the back, the blocks of a region that lies before its destination are all moved. -/
theorem memmoveDown_moved {currentBlock : ℕ} (hpos : 0 < currentBlock) (hlt : src < dest) {k : ℕ} :
    ∀ {fuel : ℕ}, k ≤ fuel → k * currentBlock ≤ n → dest + n ≤ mem.length → dest + n < 2 ^ 64 →
      memmoveDown dest src currentBlock fuel (moved mem dest src (k * currentBlock) n)
          (k * currentBlock) =
        some (moved mem dest src 0 n) := by
  induction k with
  | zero =>
      intro fuel _ _ _ _
      rw [Nat.zero_mul]
      unfold memmoveDown
      cases fuel <;> rfl
  | succ k ih =>
      intro fuel hfuel hn hdest hmem
      obtain ⟨fuel, rfl⟩ : ∃ f, fuel = f + 1 := ⟨fuel - 1, by omega⟩
      rw [Nat.succ_mul] at hn ⊢
      have hblock : memmove (moved mem dest src (k * currentBlock + currentBlock) n)
          (dest + k * currentBlock) (src + k * currentBlock) currentBlock =
            some (moved mem dest src (min (k * currentBlock + currentBlock) (k * currentBlock))
              (max n (k * currentBlock + currentBlock))) :=
        memmove_moved hn (by omega) (by omega) (Or.inr rfl) (Or.inl (by omega))
      rw [Nat.min_eq_right (by omega), Nat.max_eq_left (by omega)] at hblock
      have hat : ∀ base, base ≤ dest →
          blockBefore base (k * currentBlock + currentBlock) currentBlock =
            base + k * currentBlock := by
        intro base hbase
        rw [blockBefore, Nat.mod_eq_of_lt (by omega), subSizeT_of_le (by omega) (by omega)]
        omega
      have hleft : subSizeT (k * currentBlock + currentBlock) currentBlock = k * currentBlock := by
        rw [subSizeT_of_le (by omega) (by omega), Nat.add_sub_cancel]
      rw [← hat dest le_rfl, ← hat src hlt.le] at hblock
      rw [memmoveDown_step (by omega) hblock, hleft, ih (by omega) (by omega) hdest hmem]

/-! ## The blocks -/

/-- Where the blocks of `memmoveUp` start, counted from the start of a region. -/
def upBlocks (currentBlock : ℕ) : ℕ → ℕ → ℕ → List ℤ
  | _, _, 0 => []
  | 0, _, _ + 1 => []
  | fuel + 1, currentOffset, numBytes =>
    currentOffset :: upBlocks currentBlock fuel (currentOffset + currentBlock)
      (subSizeT numBytes currentBlock)

/-- Where the blocks of `memmoveDown` start. -/
def downBlocks (currentBlock : ℕ) : ℕ → ℕ → List ℤ
  | _, 0 => []
  | 0, _ + 1 => []
  | fuel + 1, numBytes =>
    ((numBytes : ℤ) - currentBlock) :: downBlocks currentBlock fuel (subSizeT numBytes currentBlock)

/-- Where the blocks of `memmove64` start, in a memory of some size. -/
def memmove64Blocks (size dest src numBytes : ℕ) : List ℤ :=
  let currentBlock := min numBytes blockSize
  if src < dest then downBlocks currentBlock (size + 1) numBytes
  else if dest < src then upBlocks currentBlock (size + 1) 0 numBytes
  else []

/-- The address of a block. -/
def blockAt (base : ℕ) (offset : ℤ) : ℕ := ((base + offset) % 2 ^ 64).toNat

/-- Moving blocks one after the other. -/
def moveBlocks (dest src currentBlock : ℕ) : List UInt8 → List ℤ → Option (List UInt8) :=
  List.foldlM fun mem offset => memmove mem (blockAt dest offset) (blockAt src offset) currentBlock

theorem length_memmove {mem mem' : List UInt8} {count : ℕ}
    (h : memmove mem dest src count = some mem') :
    dest + count ≤ mem.length ∧ src + count ≤ mem.length ∧ mem'.length = mem.length := by
  unfold memmove at h
  split at h
  · rename_i hin
    cases h
    refine ⟨hin.1, hin.2, length_overwrite ?_⟩
    rw [List.length_take, List.length_drop]
    omega
  · cases h

theorem memmoveUp_blocks {currentBlock fuel currentOffset numBytes : ℕ} {mem mem' : List UInt8}
    (hmem : mem.length < 2 ^ 64)
    (h : memmoveUp dest src currentBlock fuel mem currentOffset numBytes = some mem') :
    moveBlocks dest src currentBlock mem (upBlocks currentBlock fuel currentOffset numBytes) =
      some mem' := by
  induction fuel generalizing mem currentOffset numBytes with
  | zero =>
      rcases memmoveUp_cases h with ⟨rfl, rfl⟩ | ⟨_, _, -, hfuel, -⟩
      · rfl
      · cases hfuel
  | succ fuel ih =>
      rcases memmoveUp_cases h with ⟨rfl, rfl⟩ | ⟨_, m, hn, hfuel, hm, hrest⟩
      · rfl
      · cases hfuel
        obtain ⟨hdest, hsrc, hlen⟩ := length_memmove hm
        have hat : ∀ base, base + currentOffset + currentBlock ≤ mem.length →
            blockAt base currentOffset = base + currentOffset := by
          intro base hbase
          unfold blockAt
          omega
        rw [moveBlocks, upBlocks, List.foldlM_cons, hat dest hdest, hat src hsrc, hm]
        · exact ih (by omega) hrest
        · exact hn

theorem memmoveDown_blocks {currentBlock fuel numBytes : ℕ} {mem mem' : List UInt8}
    (hblock : currentBlock ≤ 2 ^ 64)
    (h : memmoveDown dest src currentBlock fuel mem numBytes = some mem') :
    moveBlocks dest src currentBlock mem (downBlocks currentBlock fuel numBytes) = some mem' := by
  induction fuel generalizing mem numBytes with
  | zero =>
      rcases memmoveDown_cases h with ⟨rfl, rfl⟩ | ⟨_, _, -, hfuel, -⟩
      · rfl
      · cases hfuel
  | succ fuel ih =>
      rcases memmoveDown_cases h with ⟨rfl, rfl⟩ | ⟨_, m, hn, hfuel, hm, hrest⟩
      · rfl
      · cases hfuel
        have hat : ∀ base,
            blockAt base ((numBytes : ℤ) - currentBlock) =
              blockBefore base numBytes currentBlock := by
          intro base
          unfold blockAt blockBefore subSizeT
          omega
        rw [moveBlocks, downBlocks, List.foldlM_cons, hat, hat, hm]
        · exact ih hrest
        · exact hn

/-- **The blocks of a call.**  One that returns has moved them one after the other. -/
theorem memmove64_blocks {mem mem' : List UInt8} (hmem : mem.length < 2 ^ 64)
    (h : memmove64 mem dest src n = some mem') :
    moveBlocks dest src (min n blockSize) mem (memmove64Blocks mem.length dest src n) =
      some mem' := by
  have hblock : min n blockSize ≤ 2 ^ 64 := by
    unfold blockSize
    omega
  unfold memmove64 at h
  unfold memmove64Blocks
  dsimp only at h ⊢
  split_ifs at h ⊢
  · exact memmoveDown_blocks hblock h
  · exact memmoveUp_blocks hmem h
  · exact h

theorem upBlocks_inside {currentBlock fuel currentOffset numBytes : ℕ}
    (hdvd : currentBlock ∣ numBytes) (hlt : numBytes < 2 ^ 64) :
    ∀ offset ∈ upBlocks currentBlock fuel currentOffset numBytes,
      0 ≤ offset ∧ offset + currentBlock ≤ currentOffset + numBytes := by
  induction fuel generalizing currentOffset numBytes with
  | zero =>
      intro offset hoffset
      cases numBytes <;> cases hoffset
  | succ fuel ih =>
      rcases Nat.eq_zero_or_pos numBytes with rfl | hpos
      · intro offset hoffset
        cases hoffset
      · have hle := Nat.le_of_dvd hpos hdvd
        have hleft := subSizeT_of_le hle hlt
        have hrest := @ih (currentOffset + currentBlock) (numBytes - currentBlock)
          (Nat.dvd_sub hdvd dvd_rfl) (by omega)
        rw [upBlocks, List.forall_mem_cons, hleft]
        · refine ⟨by omega, fun offset hoffset => ?_⟩
          have := hrest offset hoffset
          omega
        · exact hpos.ne'

theorem downBlocks_inside {currentBlock fuel numBytes : ℕ} (hdvd : currentBlock ∣ numBytes)
    (hlt : numBytes < 2 ^ 64) :
    ∀ offset ∈ downBlocks currentBlock fuel numBytes,
      0 ≤ offset ∧ offset + currentBlock ≤ numBytes := by
  induction fuel generalizing numBytes with
  | zero =>
      intro offset hoffset
      cases numBytes <;> cases hoffset
  | succ fuel ih =>
      rcases Nat.eq_zero_or_pos numBytes with rfl | hpos
      · intro offset hoffset
        cases hoffset
      · have hle := Nat.le_of_dvd hpos hdvd
        have hleft := subSizeT_of_le hle hlt
        have hrest := @ih (numBytes - currentBlock) (Nat.dvd_sub hdvd dvd_rfl) (by omega)
        rw [downBlocks, List.forall_mem_cons, hleft]
        · refine ⟨by omega, fun offset hoffset => ?_⟩
          have := hrest offset hoffset
          omega
        · exact hpos.ne'

/-! ## Moving a region -/

/-- The destination gets what the region held, and no block reaches out of a region. -/
structure Moves (mem : List UInt8) (dest src n : ℕ) : Prop where
  result : memmove64 mem dest src n = some (overwrite mem dest ((mem.drop src).take n))
  inside : ∀ offset ∈ memmove64Blocks mem.length dest src n,
    0 ≤ offset ∧ offset + (min n blockSize : ℕ) ≤ n

/-- The sizes with which all blocks are full, or there is one block. -/
theorem min_blockSize_dvd_iff : min n blockSize ∣ n ↔ n ≤ blockSize ∨ blockSize ∣ n := by
  rcases Nat.le_total n blockSize with hle | hle
  · rw [Nat.min_eq_left hle]
    exact iff_of_true dvd_rfl (Or.inl hle)
  · rw [Nat.min_eq_right hle]
    refine ⟨Or.inr, ?_⟩
    rintro (h | h)
    · rw [Nat.le_antisymm h hle]
    · exact h

/-- Moving a region onto itself, or no bytes at all, changes nothing. -/
theorem overwrite_self (h : dest + n ≤ mem.length) :
    overwrite mem dest ((mem.drop dest).take n) = mem := by
  have hlen : ((mem.drop dest).take n).length = n := by
    rw [List.length_take, List.length_drop]
    omega
  apply List.ext_getElem?
  intro i
  rw [getElem?_overwrite (by omega), hlen]
  split
  · rw [List.getElem?_take_of_lt (by omega), List.getElem?_drop]
    congr 1
    omega
  · rfl

theorem moves_of_eq (h : dest + n ≤ mem.length) : Moves mem dest dest n where
  result := by
    rw [overwrite_self h, memmove64]
    rw [if_neg (lt_irrefl _), if_neg (lt_irrefl _)]
  inside := by
    rw [memmove64Blocks]
    rw [if_neg (lt_irrefl _), if_neg (lt_irrefl _)]
    intro offset hoffset
    cases hoffset

theorem moves_zero (mem : List UInt8) (dest src : ℕ) : Moves mem dest src 0 where
  result := by
    rw [List.take_zero, memmove64, Nat.zero_min, memmoveDown, memmoveUp, ite_self, ite_self]
    exact congrArg some (moved_self mem dest src 0).symm
  inside := by
    rw [memmove64Blocks, Nat.zero_min, downBlocks, upBlocks, ite_self, ite_self]
    intro offset hoffset
    cases hoffset

section

variable (hmem : mem.length < 2 ^ 64) (hdest : dest + n ≤ mem.length)
  (hsrc : src + n ≤ mem.length)

include hmem hdest hsrc

theorem moves_of_dvd (hne : dest ≠ src) (hpos : 0 < n) (hdvd : min n blockSize ∣ n) :
    Moves mem dest src n := by
  have hblock : 0 < min n blockSize := by
    unfold blockSize
    omega
  obtain ⟨k, hk⟩ := id hdvd
  rw [Nat.mul_comm] at hk
  have hfuel : k ≤ mem.length + 1 := by
    have := Nat.le_mul_of_pos_right k hblock
    omega
  rcases Nat.lt_or_gt_of_ne hne with hlt | hlt
  · constructor
    · have hmoved : memmoveUp dest src (min n blockSize) (mem.length + 1) (moved mem dest src 0 0) 0
          (k * min n blockSize) = _ := memmoveUp_moved hblock hlt hfuel (by omega) (by omega)
      rw [← hk, moved_self, Nat.zero_add] at hmoved
      rw [memmove64, if_neg (by omega), if_pos hlt, hmoved]
      rfl
    · rw [memmove64Blocks, if_neg (by omega), if_pos hlt]
      intro offset hoffset
      have := upBlocks_inside hdvd (by omega) offset hoffset
      omega
  · constructor
    · have hmoved : memmoveDown dest src (min n blockSize) (mem.length + 1)
          (moved mem dest src (k * min n blockSize) n) (k * min n blockSize) = _ :=
        memmoveDown_moved hblock hlt hfuel hk.ge hdest (by omega)
      rw [← hk, moved_self] at hmoved
      rw [memmove64, if_pos hlt, hmoved]
      rfl
    · rw [memmove64Blocks, if_pos hlt]
      exact downBlocks_inside hdvd (by omega)

end

theorem dvd_of_memmove64 {mem' : List UInt8} (hne : dest ≠ src) (hlt : blockSize < n)
    (h : memmove64 mem dest src n = some mem') : blockSize ∣ n := by
  rw [memmove64, Nat.min_eq_right hlt.le] at h
  split_ifs at h
  · exact memmoveDown_dvd h
  · exact memmoveUp_dvd h
  · omega

theorem moves_iff (hmem : mem.length < 2 ^ 64) (hdest : dest + n ≤ mem.length)
    (hsrc : src + n ≤ mem.length) :
    Moves mem dest src n ↔ n ≤ blockSize ∨ blockSize ∣ n ∨ dest = src := by
  constructor
  · intro h
    by_cases hle : n ≤ blockSize
    · exact Or.inl hle
    · by_cases heq : dest = src
      · exact Or.inr (Or.inr heq)
      · exact Or.inr (Or.inl (dvd_of_memmove64 heq (by omega) h.result))
  · intro h
    by_cases heq : dest = src
    · rw [← heq]
      exact moves_of_eq hdest
    · have hdvd : min n blockSize ∣ n := by
        rw [min_blockSize_dvd_iff]
        tauto
      rcases Nat.eq_zero_or_pos n with rfl | hpos
      · exact moves_zero mem dest src
      · exact moves_of_dvd hmem hdest hsrc heq hpos hdvd

/-! ## Copying a region -/

theorem dvd_of_counted_twice {n : ℕ}
    (h : 2 * blockSize ∣ subSizeT (subSizeT n (min n blockSize)) (min n blockSize)) :
    2 * blockSize ∣ n := by
  unfold subSizeT blockSize at *
  omega

/-- A block counted twice leaves over two blocks less. -/
theorem counted_twice {n : ℕ} (hn : n ≠ 0) (hdvd : 2 * blockSize ∣ n) (hlt : n < 2 ^ 64) :
    min n blockSize = blockSize ∧
      subSizeT (subSizeT n blockSize) blockSize = n - 2 * blockSize ∧ 2 * blockSize ≤ n := by
  have hle := Nat.le_of_dvd (Nat.pos_of_ne_zero hn) hdvd
  refine ⟨by omega, ?_, hle⟩
  rw [subSizeT_of_le (by omega) hlt, subSizeT_of_le (by omega) (by omega)]
  omega

/-- A pair of blocks has one with an even number and one with an odd number. -/
theorem pair_of_blocks {start i : ℕ} (h : 2 * blockSize ∣ start) :
    (start ≤ i → i < start + blockSize → i / blockSize % 2 = 0) ∧
      (start + blockSize ≤ i → i < start + 2 * blockSize → i / blockSize % 2 = 1) := by
  unfold blockSize at *
  omega

variable {source destination destination' : List UInt8} {fuel currentOffset numBytes : ℕ}

/-- The loop of `memcpy64` only ends if the number of bytes comes out even. -/
theorem memcpy64Loop_dvd
    (h : memcpy64Loop source fuel destination currentOffset numBytes = some destination') :
    2 * blockSize ∣ numBytes := by
  induction fuel generalizing destination currentOffset numBytes with
  | zero =>
      cases numBytes with
      | zero => exact dvd_zero _
      | succ k => cases h
  | succ fuel ih =>
      by_cases hn : numBytes = 0
      · rw [hn]
        exact dvd_zero _
      · rw [memcpy64Loop] at h
        · split at h
          · exact dvd_of_counted_twice (ih h)
          · cases h
        · exact hn

/-- Every other block is copied. -/
theorem memcpy64Loop_copied (hlt : source.length < 2 ^ 64)
    (hlen : destination.length = source.length) (hsum : currentOffset + numBytes = source.length)
    (hoffset : 2 * blockSize ∣ currentOffset) (hdvd : 2 * blockSize ∣ numBytes)
    (hfuel : numBytes ≤ fuel) :
    ∃ destination', memcpy64Loop source fuel destination currentOffset numBytes =
        some destination' ∧
      ∀ i : ℕ, destination'[i]? =
        if currentOffset ≤ i ∧ i / blockSize % 2 = 0 then source[i]? else destination[i]? := by
  -- there is nothing behind the end of the source
  have hend : ∀ i : ℕ, destination[i]? =
      if source.length ≤ i ∧ i / blockSize % 2 = 0 then source[i]? else destination[i]? := by
    intro i
    split
    · rw [List.getElem?_eq_none (by omega), List.getElem?_eq_none (by omega)]
    · rfl
  induction fuel generalizing destination currentOffset numBytes with
  | zero =>
      obtain rfl : numBytes = 0 := Nat.le_zero.mp hfuel
      obtain rfl : currentOffset = source.length := hsum
      exact ⟨destination, rfl, hend⟩
  | succ fuel ih =>
      rcases Nat.eq_zero_or_pos numBytes with rfl | hpos
      · obtain rfl : currentOffset = source.length := hsum
        exact ⟨destination, rfl, hend⟩
      · obtain ⟨hmin, hleft, hle⟩ := counted_twice hpos.ne' hdvd (by omega)
        have hblock : ((source.drop currentOffset).take blockSize).length = blockSize := by
          rw [List.length_take, List.length_drop]
          omega
        have hwritten : (overwrite destination currentOffset
            ((source.drop currentOffset).take blockSize)).length = destination.length :=
          length_overwrite (by omega)
        have hstep : memcpy64Loop source (fuel + 1) destination currentOffset numBytes =
            memcpy64Loop source fuel
              (overwrite destination currentOffset ((source.drop currentOffset).take blockSize))
              (currentOffset + blockSize + blockSize) (numBytes - 2 * blockSize) := by
          rw [memcpy64Loop, hmin, hleft, if_pos (by omega)]
          exact hpos.ne'
        have hblocks : 0 < blockSize := by decide
        have hnext : 2 * blockSize ∣ currentOffset + blockSize + blockSize := by
          rw [Nat.add_assoc, ← Nat.two_mul]
          exact Nat.dvd_add hoffset dvd_rfl
        have hsum' : currentOffset + blockSize + blockSize + (numBytes - 2 * blockSize) =
            source.length := by omega
        obtain ⟨destination', hloop, hcopied⟩ := ih (hwritten.trans hlen) hsum' hnext
          (Nat.dvd_sub hdvd dvd_rfl) (by omega) (by
            intro i
            split
            · rw [List.getElem?_eq_none (by omega), List.getElem?_eq_none (by omega)]
            · rfl)
        refine ⟨destination', hstep.trans hloop, fun i => ?_⟩
        rw [hcopied, getElem?_overwrite (by omega), hblock]
        by_cases hthis : currentOffset ≤ i ∧ i < currentOffset + blockSize
        · have heven := (pair_of_blocks hoffset).1 hthis.1 hthis.2
          rw [if_neg (by omega), if_pos hthis, if_pos ⟨hthis.1, heven⟩,
            List.getElem?_take_of_lt (by omega), List.getElem?_drop, Nat.add_sub_cancel' hthis.1]
        · rw [if_neg hthis]
          by_cases hin : currentOffset ≤ i ∧ i / blockSize % 2 = 0
          · -- an even block, but not this one
            have hnext : currentOffset + 2 * blockSize ≤ i := by
              by_contra hlt
              have hodd := (pair_of_blocks hoffset).2 (by omega) (Nat.lt_of_not_le hlt)
              omega
            rw [if_pos hin, if_pos ⟨by omega, hin.2⟩]
          · rw [if_neg hin, if_neg (fun h => hin ⟨by omega, h.2⟩)]

/-- `memcpy64` copies a region exactly if it is made of pairs of blocks, the second ones of which
are what they should be already. -/
theorem memcpy64_iff (hdestination : destination.length = n) (hsource : source.length = n)
    (hn : n < 2 ^ 64) :
    memcpy64 destination source n = some source ↔
      2 * blockSize ∣ n ∧
        ∀ i < n, i / blockSize % 2 = 1 → destination[i]? = source[i]? := by
  by_cases hdvd : 2 * blockSize ∣ n
  · obtain ⟨destination', hloop, hcopied⟩ := memcpy64Loop_copied (by omega)
      (hdestination.trans hsource.symm) (show 0 + n = source.length by omega) (dvd_zero _) hdvd
      (show n ≤ source.length + 1 by omega)
    rw [and_iff_right hdvd, memcpy64, hloop, Option.some.injEq]
    constructor
    · intro heq i _ hodd
      rw [← heq, hcopied, if_neg (by omega)]
    · intro hodd
      apply List.ext_getElem?
      intro i
      rw [hcopied]
      split
      · rfl
      · by_cases hi : i < n
        · exact hodd i hi (by omega)
        · rw [List.getElem?_eq_none (by omega), List.getElem?_eq_none (by omega)]
  · refine iff_of_false ?_ (fun h => hdvd h.1)
    intro h
    exact hdvd (memcpy64Loop_dvd h)

/-! ## Both -/

/-- **When the block copies copy.**  `memcpy64` copies a region of `n` bytes exactly if `n` is made
of pairs of blocks and every second block is there already; `memmove64` moves one exactly if it has
full blocks only, or one block, or goes nowhere. -/
theorem block_copies_iff (hn : n < 2 ^ 64) (hdestination : destination.length = n)
    (hsource : source.length = n) (hmem : mem.length < 2 ^ 64) (hdest : dest + n ≤ mem.length)
    (hsrc : src + n ≤ mem.length) :
    (memcpy64 destination source n = some source ↔
        2 * blockSize ∣ n ∧
          ∀ i < n, i / blockSize % 2 = 1 → destination[i]? = source[i]?) ∧
      (Moves mem dest src n ↔ n ≤ blockSize ∨ blockSize ∣ n ∨ dest = src) :=
  ⟨memcpy64_iff hdestination hsource hn, moves_iff hmem hdest hsrc⟩

/-- Two bytes are moved by one to the back, and not copied at all. -/
theorem block_copies_iff_two :
    memcpy64 [0, 0] [1, 2] 2 ≠ some [1, 2] ∧ Moves [1, 2, 3] 1 0 2 := by
  have hboth : (memcpy64 [0, 0] [1, 2] 2 = some [1, 2] ↔ _) ∧ (Moves [1, 2, 3] 1 0 2 ↔ _) :=
    block_copies_iff (by decide) rfl rfl (by decide) (by decide) (by decide)
  refine ⟨fun hcopy => ?_, hboth.2.mpr (Or.inl (by decide))⟩
  exact absurd (hboth.1.mp hcopy).1 (by decide)

/-- One byte is not copied: it is counted twice, and the loop goes on behind the regions.  And 64
KiB and one byte are not moved to the next address: the loop goes on before them. -/
theorem not_block_copies :
    memcpy64 [0] [7] 1 = none ∧ ¬ Moves (List.replicate 65538 0) 1 0 65537 := by
  refine ⟨by decide, fun h => ?_⟩
  exact absurd (dvd_of_memmove64 (by decide) (by decide) h.result) (by decide)

end Mem

end Mantids
