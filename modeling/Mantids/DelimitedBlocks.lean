/-
# Blocks that end with a delimiter

`readBlock32WAllocAndDelim` (`Net_Sockets/socket_stream_reader.cpp`) reads byte by byte until the
delimiter has arrived, into a block that grows by 64 KiB as often as the limit admits.

* `Block` — an allocation, with accesses that fail out of its bounds;
* `read64KBlockDelim`, `readBlock32WAllocAndDelim` — the functions of the source;
* `Filled` — what is in the block after so many bytes;
* `read64KBlockDelim_spec`, `growLoop_spec` — what a block and the whole loop come to;
* `exact_iff` — when the result is the beginning of the stream up to the delimiter.
-/
import Mantids.Lib.Occurrence
import Mathlib.Data.List.GetD
import Mathlib.Data.UInt
import Mathlib.Order.Lattice

namespace Mantids

namespace DelimitedBlocks

open Occurrence

/-! ## Memory -/

/-- An allocation. -/
structure Block where
  size : ℕ
  cell : ℕ → UInt8

namespace Block

/-- `block[i] = c`. -/
def store (b : Block) (i : ℤ) (c : UInt8) : Option Block :=
  if 0 ≤ i ∧ i < b.size then some { b with cell := Function.update b.cell i.toNat c } else none

/-- `memcmp(block + i, delim, delimBytes) == 0`. -/
def memcmp (b : Block) (i : ℤ) (delim : List UInt8) : Option Bool :=
  if 0 ≤ i ∧ i + delim.length ≤ b.size then
    some (decide ((List.range delim.length).map (fun j => b.cell (i.toNat + j)) = delim))
  else none

/-- `memcpy(dst, src, n)`. -/
def memcpy (dst src : Block) (n : ℕ) : Option Block :=
  if n ≤ dst.size ∧ n ≤ src.size then
    some { dst with cell := fun i => if i < n then src.cell i else dst.cell i }
  else none

end Block

/-! ## The functions -/

/-- The results of `read64KBlockDelim`: a position, -1 or -2. -/
inductive Received where
  | found (pos : ℕ)
  | notFound
  | readError
deriving DecidableEq

/-- `readU8(&readOK)`: the byte, which is 0 if there is none, `readOK`, and what arrives behind it.
-/
def readU8 : List UInt8 → UInt8 × Bool × List UInt8
  | [] => (0, false, [])
  | c :: s => (c, true, s)

variable (delim : List UInt8)

/-- The loop of `read64KBlockDelim` for a block at `base`, with the number of turns that are left;
`none` if an access is out of bounds. -/
def blockLoop (blockNo : ℕ) (base : ℤ) :
    ℕ → ℕ → Block → List UInt8 → Option (Received × Block × List UInt8)
  | 0, _, b, s => some (.notFound, b, s)
  | left + 1, pos, b, s =>
    match b.store (base + (pos - 1)) (readU8 s).1 with
    | none => none
    | some b =>
      if (readU8 s).2.1 = false then some (.readError, b, (readU8 s).2.2)
      else if (blockNo = 0 ∧ delim.length ≤ pos) ∨ 0 < blockNo then
        match b.memcmp (base + (pos - 1) - (delim.length - 1)) delim with
        | none => none
        | some true => some (.found pos, b, (readU8 s).2.2)
        | some false => blockLoop blockNo base left (pos + 1) b (readU8 s).2.2
      else blockLoop blockNo base left (pos + 1) b (readU8 s).2.2

/-- `read64KBlockDelim(block, delim, delimBytes, blockNo)`. -/
def read64KBlockDelim (blockNo : ℕ) (base : ℤ) (b : Block) (s : List UInt8) :
    Option (Received × Block × List UInt8) :=
  blockLoop delim blockNo base 65536 1 b s

/-- What `readBlock32WAllocAndDelim` comes to. -/
inductive Delimited where
  /-- A block, the new `*datalen`, and what arrives behind it. -/
  | block (b : Block) (datalen : ℕ) (rest : List UInt8)
  | nullptr (rest : List UInt8)
  | outOfBounds
  /-- So many turns do not suffice. -/
  | unfinished

-- `garbage` is what is in memory that was just allocated.
variable (garbage : ℕ → UInt8) (datalen : ℕ)

/-- The loop of `readBlock32WAllocAndDelim`; the sizes are unsigned numbers of 32 bits. -/
def growLoop : ℕ → ℕ → ℕ → Block → List UInt8 → Delimited
  | 0, _, _, _, _ => .unfinished
  | fuel + 1, currentBlockSize, blockNo, currentBlock, s =>
    match read64KBlockDelim delim blockNo ((currentBlockSize : ℤ) - 65536) currentBlock s with
    | none => .outOfBounds
    | some (.readError, _, s) => .nullptr s
    | some (.notFound, b, s) =>
      if datalen < (currentBlockSize + 65536) % 2 ^ 32 then .nullptr s
      else
        match Block.memcpy ⟨(currentBlockSize + 65536) % 2 ^ 32, garbage⟩ b currentBlockSize with
        | none => .outOfBounds
        | some nextBlock =>
          growLoop fuel ((currentBlockSize + 65536) % 2 ^ 32) ((blockNo + 1) % 2 ^ 32) nextBlock s
    | some (.found bytesRecv, b, s) => .block b (currentBlockSize - 65536 + bytesRecv) s

/-- `readBlock32WAllocAndDelim(&datalen, delim, delimBytes)`. -/
def readBlock32WAllocAndDelim (fuel : ℕ) (s : List UInt8) : Delimited :=
  if datalen ≤ 65535 then .nullptr s
  else growLoop delim garbage datalen fuel 65536 0 ⟨65536, garbage⟩ s

/-! ## What is in a block -/

/-- The block has the first `n` bytes of the stream. -/
def Filled (stream : List UInt8) (b : Block) (n : ℕ) : Prop :=
  ∀ i < n, stream[i]? = some (b.cell i)

/-- No delimiter ends within the first `n` bytes. -/
def NoEnd (stream : List UInt8) (n : ℕ) : Prop :=
  ∀ p, OccursAt delim stream p → n < p + delim.length

variable {delim datalen} {stream : List UInt8}

/-- The cells are a beginning of the stream. -/
theorem Filled.map_range {b : Block} {n : ℕ} (h : Filled stream b n) :
    (List.range n).map b.cell = stream.take n := by
  apply List.ext_getElem?
  intro i
  by_cases hi : i < n
  · rw [List.getElem?_map, List.getElem?_range hi, List.getElem?_take_of_lt hi, h i hi]
    rfl
  · rw [List.getElem?_eq_none (by rw [List.length_map, List.length_range]; omega),
      List.getElem?_eq_none (by rw [List.length_take]; omega)]

/-- One byte more. -/
theorem Filled.store {b : Block} {n : ℕ} (h : Filled stream b n) {c : UInt8}
    (hc : stream[n]? = some c) :
    Filled stream { b with cell := Function.update b.cell n c } (n + 1) := by
  intro i hi
  by_cases heq : i = n
  · subst heq
    dsimp only
    rw [hc, Function.update_self]
  · dsimp only
    rw [Function.update_of_ne heq]
    exact h i (by omega)

theorem Filled.le_length {b : Block} {n : ℕ} (h : Filled stream b n) : n ≤ stream.length := by
  by_contra hlt
  have hlast := h stream.length (by omega)
  rw [List.getElem?_eq_none le_rfl] at hlast
  cases hlast

/-- The comparison says whether the delimiter ends here. -/
theorem Filled.memcmp {b : Block} {n : ℕ} (h : Filled stream b n) (hsize : n ≤ b.size)
    (hlen : delim.length ≤ n) {i : ℤ} (hi : i = (n : ℤ) - delim.length) :
    b.memcmp i delim = some (decide (OccursAt delim stream (n - delim.length))) := by
  have hn := h.le_length
  unfold Block.memcmp
  rw [if_pos (by omega), show i.toNat = n - delim.length from by omega]
  congr 1
  rw [decide_eq_decide]
  have hcells : (List.range delim.length).map (fun j => b.cell (n - delim.length + j))
      = (stream.drop (n - delim.length)).take delim.length := by
    apply List.ext_getElem?
    intro j
    by_cases hj : j < delim.length
    · rw [List.getElem?_map, List.getElem?_range hj, List.getElem?_take_of_lt hj,
        List.getElem?_drop,
        h _ (by omega)]
      rfl
    · rw [List.getElem?_eq_none (by rw [List.length_map, List.length_range]; omega),
        List.getElem?_eq_none (by rw [List.length_take]; omega)]
  rw [hcells, OccursAt, List.prefix_iff_eq_take]
  exact eq_comm

/-- Where no delimiter ended before, the first one ends here. -/
theorem NoEnd.first_eq {n : ℕ} (hd : delim ≠ []) (h : NoEnd delim stream n) {p : ℕ}
    (hp : OccursAt delim stream p) (hend : p + delim.length = n + 1) :
    first delim stream = some p := by
  rw [first_eq_some_iff hd]
  refine ⟨hp, fun q hq hoc => ?_⟩
  have hlate := h q hoc
  omega

theorem NoEnd.succ {n : ℕ} (h : NoEnd delim stream n)
    (hnot : delim.length ≤ n + 1 → ¬ OccursAt delim stream (n + 1 - delim.length)) :
    NoEnd delim stream (n + 1) := by
  intro p hp
  have hlate := h p hp
  by_contra hle
  have hend : p = n + 1 - delim.length := by omega
  exact hnot (by omega) (hend ▸ hp)

/-! ## One block -/

theorem Block.store_of_lt (b : Block) {n : ℕ} (hn : n < b.size) {i : ℤ} (hi : i = n) (c : UInt8) :
    b.store i c = some { b with cell := Function.update b.cell n c } := by
  subst hi
  rw [Block.store, if_pos (by omega), Int.toNat_natCast]

/-- What a block that starts behind `m` bytes of the stream can come to. -/
inductive BlockEnd (delim stream : List UInt8) (m : ℕ) :
    Option (Received × Block × List UInt8) → Prop
  /-- The first delimiter ends in this block. -/
  | found {b : Block} {p : ℕ} (hsize : b.size = m + 65536) (hfirst : first delim stream = some p)
      (hlow : m < p + delim.length) (hhigh : p + delim.length ≤ m + 65536)
      (hfill : Filled stream b (p + delim.length)) :
      BlockEnd delim stream m
        (some (.found (p + delim.length - m), b, stream.drop (p + delim.length)))
  /-- The block is full. -/
  | notFound {b : Block} (hsize : b.size = m + 65536) (hfill : Filled stream b (m + 65536))
      (hend : NoEnd delim stream (m + 65536)) :
      BlockEnd delim stream m (some (.notFound, b, stream.drop (m + 65536)))
  /-- The stream ends in this block, without a delimiter. -/
  | readError {b : Block} (hnone : first delim stream = none) (hshort : stream.length < m + 65536) :
      BlockEnd delim stream m (some (.readError, b, []))

/-- Is the delimiter compared at this position? -/
def Compares (delim : List UInt8) (blockNo pos : ℕ) : Prop :=
  (blockNo = 0 ∧ delim.length ≤ pos) ∨ 0 < blockNo

section Turn

variable {blockNo left pos : ℕ} {base : ℤ} {b b' : Block} {c : UInt8} {s : List UInt8}

/-- A turn with the last byte of a delimiter. -/
theorem blockLoop_of_found (hstore : b.store (base + (pos - 1)) c = some b')
    (hcompares : Compares delim blockNo pos)
    (hsame : b'.memcmp (base + (pos - 1) - (delim.length - 1)) delim = some true) :
    blockLoop delim blockNo base (left + 1) pos b (c :: s) = some (.found pos, b', s) := by
  unfold Compares at hcompares
  rw [blockLoop]
  simp only [readU8, hstore, Bool.true_eq_false, if_false]
  rw [if_pos hcompares, hsame]

/-- A turn with any other byte. -/
theorem blockLoop_of_other (hstore : b.store (base + (pos - 1)) c = some b')
    (hother : Compares delim blockNo pos →
      b'.memcmp (base + (pos - 1) - (delim.length - 1)) delim = some false) :
    blockLoop delim blockNo base (left + 1) pos b (c :: s)
      = blockLoop delim blockNo base left (pos + 1) b' s := by
  unfold Compares at hother
  rw [blockLoop]
  simp only [readU8, hstore, Bool.true_eq_false, if_false]
  by_cases hcompares : (blockNo = 0 ∧ delim.length ≤ pos) ∨ 0 < blockNo
  · rw [if_pos hcompares, hother hcompares]
  · rw [if_neg hcompares]

/-- A turn at the end of the stream. -/
theorem blockLoop_of_nil (hstore : b.store (base + (pos - 1)) 0 = some b') :
    blockLoop delim blockNo base (left + 1) pos b [] = some (.readError, b', []) := by
  rw [blockLoop]
  simp only [readU8, hstore, if_true]

end Turn

/-- From any position on, the loop comes to the end of the block with what the stream has. -/
theorem blockLoop_spec (hd : delim ≠ []) (hlen : delim.length ≤ 65535) {blockNo m : ℕ}
    (hzero : blockNo = 0 → m = 0) (hpos : 0 < blockNo → 65536 ≤ m) (left k : ℕ)
    (hleft : left + k = 65536) {b : Block} (hsize : b.size = m + 65536)
    (hfill : Filled stream b (m + k)) (hend : NoEnd delim stream (m + k)) :
    BlockEnd delim stream m
      (blockLoop delim blockNo m left (k + 1) b (stream.drop (m + k))) := by
  induction left generalizing k b with
  | zero =>
    obtain rfl : k = 65536 := by omega
    exact .notFound hsize hfill hend
  | succ left ih =>
    have hstore := b.store_of_lt (n := m + k) (by omega) (i := m + ((k + 1 : ℕ) - 1)) (by omega)
    by_cases hmore : m + k < stream.length
    · set b' : Block := { b with cell := Function.update b.cell (m + k) stream[m + k] } with hb'
      have hfill' : Filled stream b' (m + (k + 1)) := hfill.store (List.getElem?_eq_getElem hmore)
      have hcompare : Compares delim blockNo (k + 1) → delim.length ≤ m + k + 1 ∧
          b'.memcmp (m + ((k + 1 : ℕ) - 1) - (delim.length - 1)) delim
            = some (decide (OccursAt delim stream (m + k + 1 - delim.length))) := by
        rintro (⟨-, hle⟩ | hlater)
        · exact ⟨by omega, hfill'.memcmp (show m + (k + 1) ≤ b.size by omega) (by omega)
            (by push_cast; omega)⟩
        · have hm := hpos hlater
          exact ⟨by omega, hfill'.memcmp (show m + (k + 1) ≤ b.size by omega) (by omega)
            (by push_cast; omega)⟩
      rw [List.drop_eq_getElem_cons hmore]
      by_cases hfound : Compares delim blockNo (k + 1) ∧
          OccursAt delim stream (m + k + 1 - delim.length)
      · obtain ⟨hcompares, hoccurs⟩ := hfound
        obtain ⟨hle, hsame⟩ := hcompare hcompares
        rw [decide_eq_true hoccurs] at hsame
        rw [blockLoop_of_found (hstore _) hcompares hsame]
        have hfirst := hend.first_eq hd hoccurs (by omega)
        have hnext : m + k + 1 = m + k + 1 - delim.length + delim.length := by omega
        have h := BlockEnd.found (m := m) (b := b') hsize hfirst (by omega) (by omega)
          (hnext ▸ hfill')
        rw [← hnext, show m + k + 1 - m = k + 1 from by omega] at h
        exact h
      · have hother : Compares delim blockNo (k + 1) →
            b'.memcmp (m + ((k + 1 : ℕ) - 1) - (delim.length - 1)) delim = some false := by
          intro hcompares
          rw [(hcompare hcompares).2, decide_eq_false fun hoccurs => hfound ⟨hcompares, hoccurs⟩]
        rw [blockLoop_of_other (hstore _) hother]
        refine ih (k + 1) (by omega) hsize hfill'
          (hend.succ fun hle hoccurs => hfound ⟨?_, hoccurs⟩)
        -- In the first block the position is that in the stream.
        rcases Nat.eq_zero_or_pos blockNo with hfirst | hlater
        · have hm := hzero hfirst
          exact Or.inl ⟨hfirst, by omega⟩
        · exact Or.inr hlater
    · -- The stream has ended.
      rw [List.drop_eq_nil_of_le (by omega), blockLoop_of_nil (hstore 0)]
      refine .readError ?_ (by omega)
      rw [first_eq_none_iff hd]
      intro p hp
      have hlate := hend p hp
      have hin := hp.add_length_le hd
      omega

/-! ## All blocks -/

/-- The result is the beginning of the stream up to the first delimiter, if it ends within the whole
blocks of the limit, and `nullptr` otherwise. -/
def Exact (delim : List UInt8) (datalen : ℕ) (stream : List UInt8) (o : Delimited) : Prop :=
  (∃ p, first delim stream = some p ∧ p + delim.length ≤ 65536 * (datalen / 65536) ∧
    ∃ b : Block, o = .block b (p + delim.length) (stream.drop (p + delim.length)) ∧
      p + delim.length ≤ b.size ∧
        (List.range (p + delim.length)).map b.cell = stream.take (p + delim.length)) ∨
    ((∀ p, first delim stream = some p → 65536 * (datalen / 65536) < p + delim.length) ∧
      ∃ rest, o = .nullptr rest)

/-- The limit admits a block of 2^32 bytes, whose size wraps around, and the stream fills the one
before it without a delimiter. -/
def WrapsAround (delim : List UInt8) (datalen : ℕ) (stream : List UInt8) : Prop :=
  2 ^ 32 - 65536 ≤ datalen ∧ 65535 * 65536 ≤ stream.length ∧ NoEnd delim stream (65535 * 65536)

theorem NoEnd.lt_of_first {n p : ℕ} (hd : delim ≠ []) (h : NoEnd delim stream n)
    (hp : first delim stream = some p) : n < p + delim.length :=
  h p ((first_eq_some_iff hd).mp hp).1

theorem Block.memcpy_of_le (dst src : Block) {n : ℕ} (hdst : n ≤ dst.size) (hsrc : n ≤ src.size) :
    Block.memcpy dst src n
      = some { dst with cell := fun i => if i < n then src.cell i else dst.cell i } := by
  rw [Block.memcpy, if_pos ⟨hdst, hsrc⟩]

theorem Block.memcpy_of_lt {dst src : Block} {n : ℕ} (hdst : dst.size < n) :
    Block.memcpy dst src n = none := by
  rw [Block.memcpy, if_neg fun h => absurd h.1 (not_le.mpr hdst)]

/-- From any block on, the loop is exact, or it writes to the block whose size wrapped around. -/
theorem growLoop_spec (hd : delim ≠ []) (hlen : delim.length ≤ 65535) (hdatalen : datalen < 2 ^ 32)
    (fuel t : ℕ) (hfuel : 65535 ≤ fuel + t) (ht : t + 1 ≤ datalen / 65536) {b : Block}
    (hsize : b.size = 65536 * (t + 1)) (hfill : Filled stream b (65536 * t))
    (hend : NoEnd delim stream (65536 * t)) :
    (WrapsAround delim datalen stream ∧
        growLoop delim garbage datalen fuel (65536 * (t + 1)) t b (stream.drop (65536 * t))
          = .outOfBounds) ∨
      (¬ WrapsAround delim datalen stream ∧ Exact delim datalen stream
        (growLoop delim garbage datalen fuel (65536 * (t + 1)) t b (stream.drop (65536 * t)))) := by
  induction fuel generalizing t b with
  | zero => omega
  | succ fuel ih =>
    have hblock : BlockEnd delim stream (65536 * t)
        (blockLoop delim t (65536 * t : ℕ) 65536 1 b (stream.drop (65536 * t))) :=
      blockLoop_spec hd hlen (by omega) (by omega) 65536 0 rfl (by omega) hfill hend
    have hbase : ((65536 * (t + 1) : ℕ) : ℤ) - 65536 = (65536 * t : ℕ) := by omega
    rw [growLoop, hbase, read64KBlockDelim]
    generalize blockLoop delim t (65536 * t : ℕ) 65536 1 b (stream.drop (65536 * t)) = o at hblock
    cases hblock with
    | @found b' p hsize' hfirst hlow hhigh hfill' =>
      refine .inr ⟨fun hwraps => ?_, .inl ⟨p, hfirst, by omega, b', ?_, by omega, hfill'.map_range⟩⟩
      · have hlate := hwraps.2.2.lt_of_first hd hfirst
        omega
      · dsimp only
        rw [show 65536 * (t + 1) - 65536 + (p + delim.length - 65536 * t) = p + delim.length by
          omega]
    | readError hnone hshort =>
      refine .inr ⟨fun hwraps => ?_, .inr ⟨fun p hp => ?_, [], rfl⟩⟩
      · have hlong := hwraps.2.1
        omega
      · rw [hnone] at hp
        cases hp
    | @notFound b' hsize' hfill' hend' =>
      dsimp only
      by_cases hlast : t + 2 = 65536
      · -- The size wraps around to zero, which the limit admits.
        have hwrapped : (65536 * (t + 1) + 65536) % 2 ^ 32 = 0 := by omega
        have hfull := hfill'.le_length
        refine .inl ⟨⟨by omega, by omega, ?_⟩, ?_⟩
        · rwa [show 65536 * t + 65536 = 65535 * 65536 by omega] at hend'
        · rw [hwrapped, if_neg (Nat.not_lt_zero _),
            Block.memcpy_of_lt (show 0 < 65536 * (t + 1) by omega)]
      · have hgrown : (65536 * (t + 1) + 65536) % 2 ^ 32 = 65536 * (t + 2) := by omega
        rw [hgrown]
        by_cases hlimit : datalen < 65536 * (t + 2)
        · rw [if_pos hlimit]
          refine .inr ⟨fun hwraps => ?_, .inr ⟨fun p hp => ?_, _, rfl⟩⟩
          · have hmax := hwraps.1
            omega
          · have hlate := hend'.lt_of_first hd hp
            omega
        · have hcopy := Block.memcpy_of_le ⟨65536 * (t + 2), garbage⟩ b' (n := 65536 * (t + 1))
            (by show _ ≤ 65536 * (t + 2); omega) (by omega)
          rw [if_neg hlimit, hcopy, show (t + 1) % 2 ^ 32 = t + 1 by omega]
          dsimp only
          refine ih (t + 1) (by omega) (by omega) rfl ?_ ?_
          · intro i hi
            show stream[i]? = some (if i < 65536 * (t + 1) then b'.cell i else garbage i)
            rw [if_pos hi]
            exact hfill' i (by omega)
          · exact hend'

theorem readBlock32WAllocAndDelim_cases (garbage : ℕ → UInt8) (hd : delim ≠ [])
    (hlen : delim.length ≤ 65535) (hmin : 65536 ≤ datalen) (hmax : datalen < 2 ^ 32) {fuel : ℕ}
    (hfuel : 65535 ≤ fuel) (stream : List UInt8) :
    (WrapsAround delim datalen stream ∧
        readBlock32WAllocAndDelim delim garbage datalen fuel stream = .outOfBounds) ∨
      (¬ WrapsAround delim datalen stream ∧
        Exact delim datalen stream
          (readBlock32WAllocAndDelim delim garbage datalen fuel stream)) := by
  have hstart : Filled stream ⟨65536, garbage⟩ (65536 * 0) := fun i hi => absurd hi (by omega)
  have hnone : NoEnd delim stream (65536 * 0) := fun p _ => by
    have hpos := List.length_pos_iff.mpr hd
    omega
  rw [readBlock32WAllocAndDelim, if_neg (by omega)]
  exact growLoop_spec garbage hd hlen hmax fuel 0 (by omega) (by omega) rfl hstart hnone

theorem not_exact_outOfBounds : ¬ Exact delim datalen stream .outOfBounds := by
  rintro (⟨p, -, -, b, hb, -⟩ | ⟨-, rest, hrest⟩)
  · cases hb
  · cases hrest

/-- **Delimited blocks.**  The result is exact unless a size wraps around. -/
theorem exact_iff (garbage : ℕ → UInt8) (delim : List UInt8) (hd : delim ≠ [])
    (hlen : delim.length ≤ 65535) (datalen : ℕ) (hmin : 65536 ≤ datalen) (hmax : datalen < 2 ^ 32)
    (fuel : ℕ) (hfuel : 65535 ≤ fuel) (stream : List UInt8) :
    Exact delim datalen stream (readBlock32WAllocAndDelim delim garbage datalen fuel stream) ↔
      ¬ WrapsAround delim datalen stream := by
  rcases readBlock32WAllocAndDelim_cases garbage hd hlen hmin hmax hfuel stream with
    ⟨hwraps, hout⟩ | ⟨hwraps, hexact⟩
  · rw [hout]
    exact iff_of_false not_exact_outOfBounds (not_not.mpr hwraps)
  · exact iff_of_true hexact hwraps

/-- A line. -/
theorem exact_line : Exact [10] 65536 [104, 105, 10, 104]
    (readBlock32WAllocAndDelim [10] (fun _ => 0) 65536 65536 [104, 105, 10, 104]) :=
  (exact_iff (fun _ => 0) [10] (by decide) (by decide) 65536 le_rfl (by decide) 65536 (by decide)
    _).mpr fun hwraps => absurd hwraps.1 (by decide)

/-- With the largest limit, 65535 blocks of zeros overflow an allocation of no bytes. -/
theorem not_exact : ¬ Exact [1] 4294967295 (List.replicate (65535 * 65536) 0)
    (readBlock32WAllocAndDelim [1] (fun _ => 0) 4294967295 65536
      (List.replicate (65535 * 65536) 0)) := by
  have hwraps : WrapsAround [1] 4294967295 (List.replicate (65535 * 65536) 0) := by
    refine ⟨by decide, by rw [List.length_replicate], fun p hp => ?_⟩
    -- There is no other byte than zero.
    obtain ⟨rest, hrest⟩ := hp
    have hin : (1 : UInt8) ∈ List.replicate (65535 * 65536) 0 := by
      apply List.mem_of_mem_drop (i := p)
      rw [← hrest]
      exact List.mem_append_left rest (List.mem_singleton_self 1)
    exact absurd (List.eq_of_mem_replicate hin) (by decide)
  rcases readBlock32WAllocAndDelim_cases (fun _ => 0) (List.cons_ne_nil 1 []) (by decide)
    (show 65536 ≤ 4294967295 by decide) (by decide) (show 65535 ≤ 65536 by decide)
    (List.replicate (65535 * 65536) 0) with
    ⟨-, hout⟩ | ⟨hnot, -⟩
  · rw [hout]
    exact not_exact_outOfBounds
  · exact absurd hwraps hnot

end DelimitedBlocks
end Mantids
