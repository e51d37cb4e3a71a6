/-
# The chunked byte container

`B_Chunks` (`Memory/b_chunks.cpp`, with the checks of `Memory/b_base.cpp` in front)
stores a byte sequence as a vector of chunks.  Each chunk keeps the absolute offset
it is believed to start at, and the container keeps its total size; truncation and
copying out search the vector by those offsets.

* `BChunks.append`, `prepend`, `displace`, `truncate`, `clear` — the five operations
  that change the vector, as long as the container stays in memory;
* `BChunks.RepInv` — no chunk is empty, every offset is the sum of the sizes before
  it, and the stored size is the sum of all sizes;
* `BChunks.Restores` — when an operation leaves the offsets right, in terms of the
  container it is applied to;
* `BChunks.repInv_of_restoring_run` — the invariant along runs.

`recalcChunkOffsets` writes every offset it computes into the first chunk, so it
restores the invariant only when at most one chunk is there.

`size_t` has 64 bits; sums and differences that can leave its range are reduced.
-/
import Mathlib.Data.List.Basic
import Mathlib.Tactic.Linarith
import Mantids.Lib.Run

namespace Mantids

/-- `CHECK_UINT_OVERFLOW_SUM`: the sum does not fit `size_t`. -/
def checkUIntOverflowSum (a b : ℕ) : Bool :=
  (a + b) % 2 ^ 64 < a || (a + b) % 2 ^ 64 < b

/-- The difference of two `size_t`. -/
def subSizeT (a b : ℕ) : ℕ := (a + 2 ^ 64 - b) % 2 ^ 64

theorem checkUIntOverflowSum_iff (a b : ℕ) :
    checkUIntOverflowSum a b = true ↔ 2 ^ 64 ≤ a + b := by
  simp only [checkUIntOverflowSum, Bool.or_eq_true, decide_eq_true_eq]
  omega

theorem checkUIntOverflowSum_eq_false {a b : ℕ} (h : a + b < 2 ^ 64) :
    checkUIntOverflowSum a b = false := by
  rw [Bool.eq_false_iff, Ne, checkUIntOverflowSum_iff]
  omega

theorem subSizeT_of_le {a b : ℕ} (h : b ≤ a) (ha : a < 2 ^ 64) : subSizeT a b = a - b := by
  unfold subSizeT
  omega

/-! ## Chunks -/

/-- `BinaryContainerChunk` (`Memory/b_chunk.h`); its size is the length of its data. -/
structure BinaryContainerChunk where
  data : List UInt8 := []
  offset : ℕ := 0
deriving DecidableEq

namespace BinaryContainerChunk

def size (b : BinaryContainerChunk) : ℕ := b.data.length

def displace (b : BinaryContainerChunk) (displLen : ℕ) : BinaryContainerChunk :=
  { b with data := b.data.drop displLen }

def nextOffset (b : BinaryContainerChunk) : ℕ := (b.size + b.offset) % 2 ^ 64

def containsOffset (b : BinaryContainerChunk) (l_offset : ℕ) : Bool :=
  b.offset ≤ l_offset && l_offset < b.nextOffset

def truncate (b : BinaryContainerChunk) (nSize : ℕ) : BinaryContainerChunk :=
  if (b.offset + b.size) % 2 ^ 64 ≤ nSize then b
  else if nSize = 0 ∨ nSize = b.offset then b
  else { b with data := b.data.take (nSize - b.offset) }

/-- `moveToOffset`: only called on a copy of a chunk that contains the offset. -/
def moveToOffset (b : BinaryContainerChunk) (l_offset : ℕ) : BinaryContainerChunk :=
  { data := b.data.drop (l_offset - b.offset), offset := 0 }

end BinaryContainerChunk

/-! ## The container and its operations -/

/-- `B_Chunks` while `m_mmapContainer` is null. -/
structure BChunks where
  /-- `m_chunksVector`. -/
  chunksVector : List BinaryContainerChunk := []
  /-- `m_containerBytes`. -/
  containerBytes : ℕ := 0
  /-- `m_maxSize`. -/
  maxSize : ℕ := 2 ^ 64 - 1
  /-- `m_maxChunkSize`. -/
  maxChunkSize : ℕ := 64 * 1024
  /-- `m_maxChunks`. -/
  maxChunks : ℕ := 256 * 1024
  /-- `m_maxSizeInMemoryBeforeMovingToDisk`; zero keeps the container in memory. -/
  maxSizeInMemoryBeforeMovingToDisk : ℕ := 0
deriving DecidableEq

namespace BChunks

def size (c : BChunks) : ℕ := c.containerBytes

/-- The bytes of the chunks, in order. -/
def bytes (c : BChunks) : List UInt8 := c.chunksVector.flatMap (·.data)

/-- The loop of `recalcChunkOffsets`: `n` iterations over one and the same chunk. -/
def recalcLoop : ℕ → ℕ → BinaryContainerChunk → BinaryContainerChunk
  | 0, _, i => i
  | n + 1, currentOffset, i =>
    let i := { i with offset := currentOffset }
    recalcLoop n i.nextOffset i

/-- `recalcChunkOffsets`: `i` is set to the first chunk and never advanced. -/
def recalcChunkOffsets (c : BChunks) : BChunks :=
  match c.chunksVector with
  | [] => c
  | i :: rest => { c with chunksVector := recalcLoop (rest.length + 1) 0 i :: rest }

/-- The offset given to a chunk that is put at the end of the vector. -/
def endOffset (c : BChunks) : ℕ :=
  match c.chunksVector.getLast? with
  | none => 0
  | some last => last.nextOffset

/-- One chunk is put at the end of the vector (or, in prepend mode, at its front) and
counted. -/
def putChunk (c : BChunks) (prependMode : Bool) (data : List UInt8) : BChunks :=
  { c with
    chunksVector :=
      if prependMode then { data := data } :: c.chunksVector
      else c.chunksVector ++ [{ data := data, offset := c.endOffset }]
    containerBytes := (c.containerBytes + data.length) % 2 ^ 64 }

/-- The loop of `append2`.  An iteration adds a chunk, so `maxChunks + 1` iterations
reach one of its exits: the data is used up, or the vector is full.  The second exit
leaves `recalcChunkOffsets` out. -/
def append2Loop (prependMode : Bool) : ℕ → BChunks → List UInt8 → ℕ → BChunks × ℕ
  | 0, c, _, appendedBytes => (c, appendedBytes)
  | fuel + 1, c, buf, appendedBytes =>
    if buf = [] then (if prependMode then c.recalcChunkOffsets else c, appendedBytes)
    else if c.maxChunks < c.chunksVector.length + 1 then (c, appendedBytes)
    else
      append2Loop prependMode fuel (c.putChunk prependMode (buf.take c.maxChunkSize))
        (buf.drop c.maxChunkSize) (appendedBytes + (buf.take c.maxChunkSize).length)

/-- `append2`.  `copyToFS` says whether a file could be created when the data has to
leave memory; `none` is the container that went on there. -/
def append2 (c : BChunks) (copyToFS : Bool) (buf : List UInt8) (prependMode : Bool) :
    Option (BChunks × Option ℕ) :=
  if checkUIntOverflowSum buf.length c.size then some (c, none)
  else if c.maxSizeInMemoryBeforeMovingToDisk ≠ 0 ∧
      c.maxSizeInMemoryBeforeMovingToDisk < buf.length + c.size then
    if copyToFS then none else some (c, none)
  else
    let r := append2Loop prependMode (c.maxChunks + 1) c buf 0
    some (r.1, some r.2)

def append (c : BChunks) (copyToFS : Bool) (buf : List UInt8) : Option (BChunks × Option ℕ) :=
  if checkUIntOverflowSum buf.length c.size then some (c, none)
  else if c.maxSize < buf.length + c.size then some (c, none)
  else if buf = [] then some (c, none)
  else c.append2 copyToFS buf false

def prepend (c : BChunks) (copyToFS : Bool) (buf : List UInt8) : Option (BChunks × Option ℕ) :=
  if checkUIntOverflowSum buf.length c.size then some (c, none)
  else if c.maxSize < buf.length + c.size then some (c, none)
  else if buf = [] then some (c, some 0)
  else c.append2 copyToFS buf true

/-- The loop of `displace2` on the chunks and the byte count: whole chunks leave from
the front until the next one is only displaced in part. -/
def displace2Loop : List BinaryContainerChunk → ℕ → ℕ → ℕ →
    List BinaryContainerChunk × ℕ × ℕ
  | cs, containerBytes, 0, displaced => (cs, containerBytes, displaced)
  | [], containerBytes, _ + 1, displaced => ([], containerBytes, displaced)
  | b :: cs, containerBytes, n + 1, displaced =>
    if b.size ≤ n + 1 then
      displace2Loop cs (subSizeT containerBytes b.size) (n + 1 - b.size) (displaced + b.size)
    else (b.displace (n + 1) :: cs, subSizeT containerBytes (n + 1), displaced + (n + 1))

def displace2 (c : BChunks) (bytesToDisplace : ℕ) : BChunks × Option ℕ :=
  let r := displace2Loop c.chunksVector c.containerBytes bytesToDisplace 0
  ({ c with chunksVector := r.1, containerBytes := r.2.1 }.recalcChunkOffsets, some r.2.2)

def displace (c : BChunks) (bytes : ℕ) : BChunks × Option ℕ := c.displace2 (min bytes c.size)

/-- The recursion of `I_Chunk_GetPosForOffset` on the vector; every call looks at
fewer chunks than the one before, so the number of chunks bounds its depth. -/
def chunkGetPosForOffsetFrom (cs : List BinaryContainerChunk) (offset : ℕ) :
    ℕ → ℕ → ℕ → ℕ → Option ℕ
  | 0, _, _, _ => none
  | fuel + 1, curpos, curmax, curmin =>
    match cs[curpos]? with
    | none => none
    | some b =>
      if b.containsOffset offset then some curpos
      else if offset < b.offset then
        if curpos = curmin then none
        else chunkGetPosForOffsetFrom cs offset fuel (middle curmin (curpos - 1))
          (curpos - 1) curmin
      else
        if curpos = curmax then none
        else chunkGetPosForOffsetFrom cs offset fuel (middle (curpos + 1) curmax) curmax
          (curpos + 1)
where
  /-- The next position to look at between two bounds. -/
  middle (curmin curmax : ℕ) : ℕ :=
    if curmin = curmax then curmin
    else curmin + (curmax + 1 - curmin) / 2 - (curmax - curmin) % 2

/-- `I_Chunk_GetPosForOffset`; `none` is `MAX_SIZE_T`. -/
def chunkGetPosForOffset (c : BChunks) (offset : ℕ) : Option ℕ :=
  let n := c.chunksVector.length
  if n = 0 then none
  else
    chunkGetPosForOffsetFrom c.chunksVector offset n (if n = 1 then 0 else n / 2 - 1) (n - 1) 0

/-- `truncate2`.  A chunk that starts at the new end goes with those behind it. -/
def truncate2 (c : BChunks) (bytes : ℕ) : BChunks × Option ℕ :=
  match c.chunkGetPosForOffset bytes with
  | none => (c, none)
  | some ival =>
    match c.chunksVector[ival]? with
    | none => (c, none)
    | some b =>
      let kept :=
        if b.offset = bytes then c.chunksVector.take ival
        else c.chunksVector.take ival ++ [b.truncate bytes]
      ({ c with chunksVector := kept, containerBytes := bytes }, some bytes)

def truncate (c : BChunks) (bytes : ℕ) : BChunks × Option ℕ :=
  if c.size ≤ bytes then (c, none) else c.truncate2 bytes

def clear (c : BChunks) : BChunks := { c with chunksVector := [], containerBytes := 0 }

def getSizeLeft (c : BChunks) : ℕ := if c.maxSize < c.size then 0 else c.maxSize - c.size

/-! ## The representation invariant -/

/-- The sum of the sizes of some chunks. -/
def sizes (cs : List BinaryContainerChunk) : ℕ := (cs.map (·.size)).sum

/-- What the operations rely on: no chunk is empty, the offset of a chunk is the sum of
the sizes before it, and the stored size is the sum of all sizes. -/
structure RepInv (c : BChunks) : Prop where
  nonempty : ∀ b ∈ c.chunksVector, b.data ≠ []
  offsets : ∀ (i : ℕ) (h : i < c.chunksVector.length),
    (c.chunksVector.get ⟨i, h⟩).offset = sizes (c.chunksVector.take i)
  total : c.containerBytes = sizes c.chunksVector

@[simp] theorem sizes_nil : sizes [] = 0 := rfl

@[simp] theorem sizes_cons (b : BinaryContainerChunk) (cs : List BinaryContainerChunk) :
    sizes (b :: cs) = b.size + sizes cs := by
  simp [sizes]

@[simp] theorem sizes_append (cs ds : List BinaryContainerChunk) :
    sizes (cs ++ ds) = sizes cs + sizes ds := by
  simp [sizes]

theorem size_pos {b : BinaryContainerChunk} (h : b.data ≠ []) : 0 < b.size :=
  List.length_pos_iff.mpr h

/-- The offsets of consecutive chunks, the first of which starts at `start`. -/
def Aligned : ℕ → List BinaryContainerChunk → Prop
  | _, [] => True
  | start, b :: cs => b.offset = start ∧ Aligned (start + b.size) cs

theorem aligned_append (start : ℕ) (cs ds : List BinaryContainerChunk) :
    Aligned start (cs ++ ds) ↔ Aligned start cs ∧ Aligned (start + sizes cs) ds := by
  induction cs generalizing start with
  | nil => simp [Aligned]
  | cons b cs ih =>
      rw [List.cons_append, Aligned, Aligned, ih, sizes_cons, and_assoc, Nat.add_assoc]

theorem aligned_iff (start : ℕ) (cs : List BinaryContainerChunk) :
    Aligned start cs ↔
      ∀ (i : ℕ) (h : i < cs.length), (cs.get ⟨i, h⟩).offset = start + sizes (cs.take i) := by
  induction cs generalizing start with
  | nil => simp [Aligned]
  | cons b cs ih =>
      rw [Aligned, ih]
      constructor
      · rintro ⟨hb, hcs⟩ i hi
        cases i with
        | zero => simpa using hb
        | succ i =>
            have := hcs i (by simpa using hi)
            simpa [Nat.add_assoc] using this
      · intro h
        refine ⟨by simpa using h 0 (by simp), fun i hi => ?_⟩
        have := h (i + 1) (by simpa using hi)
        simpa [Nat.add_assoc] using this

theorem repInv_iff (c : BChunks) :
    c.RepInv ↔ (∀ b ∈ c.chunksVector, b.data ≠ []) ∧ Aligned 0 c.chunksVector ∧
      c.containerBytes = sizes c.chunksVector := by
  rw [aligned_iff]
  constructor
  · intro h
    exact ⟨h.nonempty, by simpa using h.offsets, h.total⟩
  · rintro ⟨hn, ho, ht⟩
    exact ⟨hn, by simpa using ho, ht⟩

theorem RepInv.aligned {c : BChunks} (h : c.RepInv) : Aligned 0 c.chunksVector :=
  ((repInv_iff c).mp h).2.1

theorem length_flatMap_data (cs : List BinaryContainerChunk) :
    (cs.flatMap (·.data)).length = sizes cs := by
  simp [sizes, List.length_flatMap, BinaryContainerChunk.size]

theorem length_bytes (c : BChunks) : c.bytes.length = sizes c.chunksVector :=
  length_flatMap_data c.chunksVector

theorem RepInv.length_bytes {c : BChunks} (h : c.RepInv) : c.bytes.length = c.size := by
  rw [BChunks.length_bytes, size, h.total]

theorem repInv_clear (c : BChunks) : c.clear.RepInv := by
  rw [repInv_iff]
  simp [clear, Aligned]

/-! ## Appending -/

/-- The chunk at the end of an aligned vector is given the offset where the data ends. -/
theorem RepInv.endOffset {c : BChunks} (h : c.RepInv) (hlt : c.containerBytes < 2 ^ 64) :
    c.endOffset = c.containerBytes := by
  have ha := h.aligned
  have ht := h.total
  rcases List.eq_nil_or_concat c.chunksVector with hc | ⟨cs, b, hc⟩
  · rw [ht]
    simp [BChunks.endOffset, hc]
  · rw [List.concat_eq_append] at hc
    rw [hc, aligned_append] at ha
    rw [hc, sizes_append] at ht
    simp only [Aligned, Nat.zero_add, and_true] at ha
    simp only [BChunks.endOffset, hc, List.getLast?_append, List.getLast?_singleton,
      Option.some_or, BinaryContainerChunk.nextOffset]
    simp only [sizes_cons, sizes_nil, Nat.add_zero] at ht
    rw [ha.2, Nat.mod_eq_of_lt (by omega)]
    omega

/-- The part of the invariant that does not speak of offsets. -/
structure Counted (c : BChunks) : Prop where
  nonempty : ∀ b ∈ c.chunksVector, b.data ≠ []
  total : c.containerBytes = sizes c.chunksVector
  fits : c.containerBytes < 2 ^ 64

theorem Counted.size_eq {c : BChunks} (h : c.Counted) : c.size = c.bytes.length := by
  rw [length_bytes, size, h.total]

theorem Counted.putChunk {c : BChunks} (h : c.Counted) {data : List UInt8} (hd : data ≠ [])
    (hlt : c.containerBytes + data.length < 2 ^ 64) : (c.putChunk false data).Counted := by
  refine ⟨?_, ?_, ?_⟩
  · intro b hb
    simp only [BChunks.putChunk, Bool.false_eq_true, if_false, List.mem_append,
      List.mem_singleton] at hb
    rcases hb with hb | rfl
    · exact h.nonempty b hb
    · exact hd
  · simp only [BChunks.putChunk, Bool.false_eq_true, if_false, sizes_append, sizes_cons, sizes_nil,
      BinaryContainerChunk.size, Nat.add_zero]
    rw [Nat.mod_eq_of_lt hlt, h.total]
  · exact Nat.mod_lt _ (by norm_num)

theorem RepInv.counted {c : BChunks} (h : c.RepInv) (hlt : c.containerBytes < 2 ^ 64) :
    c.Counted := ⟨h.nonempty, h.total, hlt⟩

theorem RepInv.putChunk {c : BChunks} (h : c.RepInv) {data : List UInt8} (hd : data ≠ [])
    (hlt : c.containerBytes + data.length < 2 ^ 64) : (c.putChunk false data).RepInv := by
  have he := h.endOffset (by omega)
  have hcount := (h.counted (by omega)).putChunk hd hlt
  rw [repInv_iff]
  refine ⟨hcount.nonempty, ?_, hcount.total⟩
  simp only [BChunks.putChunk, Bool.false_eq_true, if_false]
  rw [aligned_append]
  exact ⟨h.aligned, by simp [Aligned, he, h.total]⟩

theorem take_ne_nil {k : ℕ} (hk : 0 < k) {buf : List UInt8} (hbuf : buf ≠ []) :
    buf.take k ≠ [] := by
  rw [Ne, List.take_eq_nil_iff]
  rintro (h0 | h0)
  · omega
  · exact hbuf h0

@[simp] theorem putChunk_maxChunks (c : BChunks) (p : Bool) (data : List UInt8) :
    (c.putChunk p data).maxChunks = c.maxChunks := rfl

@[simp] theorem putChunk_maxChunkSize (c : BChunks) (p : Bool) (data : List UInt8) :
    (c.putChunk p data).maxChunkSize = c.maxChunkSize := rfl

@[simp] theorem length_putChunk (c : BChunks) (p : Bool) (data : List UInt8) :
    (c.putChunk p data).chunksVector.length = c.chunksVector.length + 1 := by
  cases p <;> simp [putChunk]

theorem bytes_putChunk (c : BChunks) (data : List UInt8) :
    (c.putChunk false data).bytes = c.bytes ++ data := by
  simp [putChunk, bytes]

theorem containerBytes_putChunk {c : BChunks} {p : Bool} {data : List UInt8}
    (h : c.containerBytes + data.length < 2 ^ 64) :
    (c.putChunk p data).containerBytes = c.containerBytes + data.length :=
  Nat.mod_eq_of_lt h

/-- Containers with the same limits, whatever they hold. -/
def SameLimits (c d : BChunks) : Prop := c.clear = d.clear

theorem SameLimits.maxSize {c d : BChunks} (h : SameLimits c d) : c.maxSize = d.maxSize := by
  have : c.clear.maxSize = d.clear.maxSize := congrArg (·.maxSize) h
  exact this

theorem SameLimits.maxChunks {c d : BChunks} (h : SameLimits c d) : c.maxChunks = d.maxChunks := by
  have : c.clear.maxChunks = d.clear.maxChunks := congrArg (·.maxChunks) h
  exact this

theorem append2Loop_sameLimits (fuel : ℕ) (c : BChunks) (buf : List UInt8) (n : ℕ) :
    SameLimits (append2Loop false fuel c buf n).1 c := by
  induction fuel generalizing c buf n with
  | zero => rfl
  | succ fuel ih =>
      unfold append2Loop
      split
      · rfl
      · split
        · rfl
        · exact ih _ _ _

/-- Appending keeps the invariant, unless chunks of size zero are put into a vector
that has room for them. -/
theorem append2Loop_repInv (fuel : ℕ) {c : BChunks} (buf : List UInt8) (n : ℕ) (h : c.RepInv)
    (hk : 0 < c.maxChunkSize ∨ c.maxChunks ≤ c.chunksVector.length)
    (hlt : c.containerBytes + buf.length < 2 ^ 64) :
    (append2Loop false fuel c buf n).1.RepInv ∧
      (append2Loop false fuel c buf n).1.containerBytes < 2 ^ 64 := by
  induction fuel generalizing c buf n with
  | zero => exact ⟨h, by simp only [append2Loop]; omega⟩
  | succ fuel ih =>
      unfold append2Loop
      split
      · exact ⟨h, by simp only [Bool.false_eq_true, if_false]; omega⟩
      · rename_i hbuf
        split
        · exact ⟨h, by simp only []; omega⟩
        · rename_i hroom
          have hk : 0 < c.maxChunkSize := by omega
          have htake : buf.take c.maxChunkSize ≠ [] := take_ne_nil hk hbuf
          have hsplit : (buf.take c.maxChunkSize).length + (buf.drop c.maxChunkSize).length =
              buf.length := by
            rw [← List.length_append, List.take_append_drop]
          have hlt' : c.containerBytes + (buf.take c.maxChunkSize).length < 2 ^ 64 := by omega
          refine ih _ _ (h.putChunk htake hlt') (Or.inl hk) ?_
          rw [containerBytes_putChunk hlt']
          omega

/-- The number of chunks that `n` bytes are stored in. -/
def chunksFor (c : BChunks) (n : ℕ) : ℕ := (n + c.maxChunkSize - 1) / c.maxChunkSize

theorem chunksFor_zero (c : BChunks) : c.chunksFor 0 = 0 := by
  unfold chunksFor
  rcases Nat.eq_zero_or_pos c.maxChunkSize with h | h
  · simp [h]
  · exact Nat.div_eq_of_lt (by omega)

/-- One iteration of the loop stores one chunk. -/
theorem chunksFor_step {c : BChunks} (hk : 0 < c.maxChunkSize) {n : ℕ} (hn : 0 < n) :
    c.chunksFor n = c.chunksFor (n - c.maxChunkSize) + 1 := by
  unfold chunksFor
  rcases Nat.lt_or_ge c.maxChunkSize n with h | h
  · have : n + c.maxChunkSize - 1 = (n - c.maxChunkSize + c.maxChunkSize - 1) + c.maxChunkSize := by
      omega
    rw [this, Nat.add_div_right _ hk]
  · have h1 : n - c.maxChunkSize + c.maxChunkSize - 1 < c.maxChunkSize := by omega
    have h2 : n + c.maxChunkSize - 1 = (n - 1) + c.maxChunkSize := by omega
    rw [Nat.div_eq_of_lt h1, h2, Nat.add_div_right _ hk, Nat.div_eq_of_lt (by omega)]

/-- Data that fits the chunk limit is stored whole. -/
theorem append2Loop_fits (fuel : ℕ) {c : BChunks} (buf : List UInt8) (n : ℕ)
    (hk : 0 < c.maxChunkSize)
    (hfit : c.chunksVector.length + c.chunksFor buf.length ≤ c.maxChunks)
    (hfuel : c.maxChunks < fuel + c.chunksVector.length) :
    (append2Loop false fuel c buf n).2 = n + buf.length ∧
      (append2Loop false fuel c buf n).1.bytes = c.bytes ++ buf ∧
      (append2Loop false fuel c buf n).1.chunksVector.length =
        c.chunksVector.length + c.chunksFor buf.length := by
  induction fuel generalizing c buf n with
  | zero => omega
  | succ fuel ih =>
      unfold append2Loop
      split
      · rename_i hbuf
        subst hbuf
        simp [chunksFor_zero]
      · rename_i hbuf
        have hpos : 0 < buf.length := List.length_pos_iff.mpr hbuf
        have hstep := chunksFor_step hk hpos
        split
        · omega
        · have hsame : (c.putChunk false (buf.take c.maxChunkSize)).chunksFor
              (buf.drop c.maxChunkSize).length = c.chunksFor (buf.length - c.maxChunkSize) := by
            rw [List.length_drop]
            rfl
          obtain ⟨h1, h2, h3⟩ := @ih (c.putChunk false (buf.take c.maxChunkSize))
            (buf.drop c.maxChunkSize) (n + (buf.take c.maxChunkSize).length) hk
            (by rw [hsame, length_putChunk, putChunk_maxChunks]; omega)
            (by rw [length_putChunk, putChunk_maxChunks]; omega)
          refine ⟨?_, ?_, ?_⟩
          · rw [h1, Nat.add_assoc, ← List.length_append, List.take_append_drop]
          · rw [h2, bytes_putChunk, List.append_assoc, List.take_append_drop]
          · rw [h3, hsame, length_putChunk]
            omega

/-- Appending keeps the count right, also when the offsets are not. -/
theorem append2Loop_counted (fuel : ℕ) {c : BChunks} (buf : List UInt8) (n : ℕ)
    (hk : 0 < c.maxChunkSize) (h : c.Counted) (hlt : c.containerBytes + buf.length < 2 ^ 64) :
    (append2Loop false fuel c buf n).1.Counted := by
  induction fuel generalizing c buf n with
  | zero => exact h
  | succ fuel ih =>
      unfold append2Loop
      split
      · exact h
      · rename_i hbuf
        split
        · exact h
        · have hsplit : (buf.take c.maxChunkSize).length + (buf.drop c.maxChunkSize).length =
              buf.length := by
            rw [← List.length_append, List.take_append_drop]
          have hlt' : c.containerBytes + (buf.take c.maxChunkSize).length < 2 ^ 64 := by omega
          refine ih _ _ hk (h.putChunk (take_ne_nil hk hbuf) hlt') ?_
          rw [containerBytes_putChunk hlt']
          omega

/-- Data that does not fit the chunk limit is cut short. -/
theorem append2Loop_short (fuel : ℕ) {c : BChunks} (buf : List UInt8) (n : ℕ)
    (hk : 0 < c.maxChunkSize) (hle : c.chunksVector.length ≤ c.maxChunks)
    (hfit : c.maxChunks < c.chunksVector.length + c.chunksFor buf.length) :
    (append2Loop false fuel c buf n).2 < n + buf.length := by
  induction fuel generalizing c buf n with
  | zero =>
      rcases List.eq_nil_or_concat buf with rfl | ⟨xs, x, rfl⟩
      · rw [List.length_nil, chunksFor_zero] at hfit
        omega
      · simp [append2Loop]
  | succ fuel ih =>
      have hbuf : buf ≠ [] := by
        rintro rfl
        rw [List.length_nil, chunksFor_zero] at hfit
        omega
      have hpos : 0 < buf.length := List.length_pos_iff.mpr hbuf
      have hstep := chunksFor_step hk hpos
      unfold append2Loop
      rw [if_neg hbuf]
      split
      · simpa using hpos
      · have hsame : (c.putChunk false (buf.take c.maxChunkSize)).chunksFor
            (buf.drop c.maxChunkSize).length = c.chunksFor (buf.length - c.maxChunkSize) := by
          rw [List.length_drop]
          rfl
        have h := @ih (c.putChunk false (buf.take c.maxChunkSize))
          (buf.drop c.maxChunkSize) (n + (buf.take c.maxChunkSize).length) hk
          (by rw [length_putChunk, putChunk_maxChunks]; omega)
          (by rw [hsame, length_putChunk, putChunk_maxChunks]; omega)
        have hsplit : (buf.take c.maxChunkSize).length + (buf.drop c.maxChunkSize).length =
            buf.length := by
          rw [← List.length_append, List.take_append_drop]
        omega

/-! ## Restoring the offsets -/

@[simp] theorem data_recalcLoop (n off : ℕ) (i : BinaryContainerChunk) :
    (recalcLoop n off i).data = i.data := by
  induction n generalizing off i with
  | zero => rfl
  | succ n ih => exact ih _ _

@[simp] theorem bytes_recalcChunkOffsets (c : BChunks) : c.recalcChunkOffsets.bytes = c.bytes := by
  unfold recalcChunkOffsets
  split <;> simp_all [bytes]

@[simp] theorem containerBytes_recalcChunkOffsets (c : BChunks) :
    c.recalcChunkOffsets.containerBytes = c.containerBytes := by
  unfold recalcChunkOffsets
  split <;> rfl

@[simp] theorem length_recalcChunkOffsets (c : BChunks) :
    c.recalcChunkOffsets.chunksVector.length = c.chunksVector.length := by
  unfold recalcChunkOffsets
  split <;> simp_all

theorem nonempty_recalcChunkOffsets {c : BChunks} (h : ∀ b ∈ c.chunksVector, b.data ≠ []) :
    ∀ b ∈ c.recalcChunkOffsets.chunksVector, b.data ≠ [] := by
  unfold recalcChunkOffsets
  split
  · exact h
  · rename_i i rest hc
    intro b hb
    rw [hc] at h
    rcases List.mem_cons.mp hb with rfl | hb
    · rw [data_recalcLoop]
      exact h i (List.mem_cons_self ..)
    · exact h b (List.mem_cons_of_mem _ hb)

theorem recalcChunkOffsets_sameLimits (c : BChunks) : SameLimits c.recalcChunkOffsets c := by
  unfold recalcChunkOffsets
  split <;> rfl

/-- A vector of at most one chunk does get its offsets back. -/
theorem repInv_recalcChunkOffsets {c : BChunks} (hn : ∀ b ∈ c.chunksVector, b.data ≠ [])
    (ht : c.containerBytes = sizes c.chunksVector) (hone : c.chunksVector.length ≤ 1) :
    c.recalcChunkOffsets.RepInv := by
  rw [repInv_iff]
  match hc : c.chunksVector with
  | [] => simp_all [recalcChunkOffsets, Aligned]
  | [b] => simp_all [recalcChunkOffsets, recalcLoop, Aligned, BinaryContainerChunk.size]
  | b :: b' :: cs => simp [hc] at hone

/-- The chunks left by the loop of `displace2` hold the bytes behind the displaced
ones. -/
theorem displace2Loop_spec (cs : List BinaryContainerChunk) (cb n d : ℕ)
    (hn : ∀ b ∈ cs, b.data ≠ []) (hcb : cb = sizes cs) (hlt : cb < 2 ^ 64) :
    (∀ b ∈ (displace2Loop cs cb n d).1, b.data ≠ []) ∧
      (displace2Loop cs cb n d).2.1 = sizes (displace2Loop cs cb n d).1 ∧
      (displace2Loop cs cb n d).1.flatMap (·.data) = (cs.flatMap (·.data)).drop n ∧
      (displace2Loop cs cb n d).1.length ≤ cs.length ∧
      (sizes cs.dropLast ≤ n → (displace2Loop cs cb n d).1.length ≤ 1) := by
  induction cs generalizing cb n d with
  | nil =>
      cases n with
      | zero => simp [displace2Loop, hcb]
      | succ n => simp [displace2Loop, hcb]
  | cons b cs ih =>
      have hb : 0 < b.size := size_pos (hn b (List.mem_cons_self ..))
      have hcs : ∀ b ∈ cs, b.data ≠ [] := fun b hb => hn b (List.mem_cons_of_mem _ hb)
      cases n with
      | zero =>
          refine ⟨hn, hcb, by simp [displace2Loop], by simp [displace2Loop], ?_⟩
          intro hle
          cases cs with
          | nil => simp [displace2Loop]
          | cons b' cs =>
              rw [List.dropLast_cons_of_ne_nil (by simp), sizes_cons] at hle
              omega
      | succ n =>
          rw [sizes_cons] at hcb
          unfold displace2Loop
          split
          · rename_i hle
            have hsub : subSizeT cb b.size = sizes cs := by
              rw [subSizeT_of_le (by omega) hlt]
              omega
            obtain ⟨h1, h2, h3, h4, h5⟩ :=
              ih (subSizeT cb b.size) (n + 1 - b.size) (d + b.size) hcs hsub (by omega)
            refine ⟨h1, h2, ?_, by rw [List.length_cons]; omega, ?_⟩
            · rw [h3, List.flatMap_cons, List.drop_append, List.drop_eq_nil_of_le hle,
                List.nil_append]
              rfl
            · intro hle'
              apply h5
              cases cs with
              | nil => simp
              | cons b' cs =>
                  rw [List.dropLast_cons_of_ne_nil (by simp), sizes_cons] at hle'
                  omega
          · rename_i hgt
            have hdrop : (b.displace (n + 1)).size = b.size - (n + 1) := by
              simp [BinaryContainerChunk.displace, BinaryContainerChunk.size]
            refine ⟨?_, ?_, ?_, by simp, ?_⟩
            · intro b' hb'
              rcases List.mem_cons.mp hb' with rfl | hb'
              · rw [← List.length_pos_iff]
                show 0 < (b.displace (n + 1)).size
                omega
              · exact hcs b' hb'
            · show subSizeT cb (n + 1) = sizes (b.displace (n + 1) :: cs)
              rw [subSizeT_of_le (by omega) hlt, sizes_cons, hdrop]
              omega
            · simp only [List.flatMap_cons, BinaryContainerChunk.displace]
              rw [List.drop_append_of_le_length]
              exact le_of_not_ge hgt
            · intro hle'
              cases cs with
              | nil => simp
              | cons b' cs =>
                  rw [List.dropLast_cons_of_ne_nil (by simp), sizes_cons] at hle'
                  omega

/-! ## Searching by offset -/

theorem sizes_take_mono (cs : List BinaryContainerChunk) {i j : ℕ} (h : i ≤ j) :
    sizes (cs.take i) ≤ sizes (cs.take j) := by
  obtain ⟨k, rfl⟩ := Nat.exists_eq_add_of_le h
  rw [List.take_add, sizes_append]
  omega

theorem sizes_take_le (cs : List BinaryContainerChunk) (i : ℕ) :
    sizes (cs.take i) ≤ sizes cs := by
  calc sizes (cs.take i) ≤ sizes (cs.take i) + sizes (cs.drop i) := Nat.le_add_right _ _
    _ = sizes cs := by rw [← sizes_append, List.take_append_drop]

theorem sizes_take_succ {cs : List BinaryContainerChunk} {i : ℕ} {b : BinaryContainerChunk}
    (h : cs[i]? = some b) : sizes (cs.take (i + 1)) = sizes (cs.take i) + b.size := by
  rw [List.take_add_one, h]
  simp

/-- `ival` is the chunk that holds the byte at `offset`. -/
def HoldsOffset (cs : List BinaryContainerChunk) (offset ival : ℕ) : Prop :=
  ival < cs.length ∧ sizes (cs.take ival) ≤ offset ∧ offset < sizes (cs.take (ival + 1))

theorem exists_holdsOffset (cs : List BinaryContainerChunk) {offset : ℕ}
    (h : offset < sizes cs) : ∃ ival, HoldsOffset cs offset ival := by
  induction cs generalizing offset with
  | nil => simp at h
  | cons b cs ih =>
      rcases Nat.lt_or_ge offset b.size with hb | hb
      · exact ⟨0, by simp [HoldsOffset, hb]⟩
      · rw [sizes_cons] at h
        obtain ⟨ival, h1, h2, h3⟩ := @ih (offset - b.size) (by omega)
        refine ⟨ival + 1, ?_, ?_, ?_⟩
        · simpa using h1
        · rw [List.take_succ_cons, sizes_cons]
          omega
        · rw [List.take_succ_cons, sizes_cons]
          omega

theorem middle_mem {lo hi : ℕ} (h : lo ≤ hi) :
    lo ≤ chunkGetPosForOffsetFrom.middle lo hi ∧ chunkGetPosForOffsetFrom.middle lo hi ≤ hi := by
  unfold chunkGetPosForOffsetFrom.middle
  split <;> omega

theorem Aligned.offset {cs : List BinaryContainerChunk} (ha : Aligned 0 cs) {i : ℕ}
    {b : BinaryContainerChunk} (h : cs[i]? = some b) : b.offset = sizes (cs.take i) := by
  obtain ⟨hi, rfl⟩ := List.getElem?_eq_some_iff.mp h
  simpa using (aligned_iff 0 cs).mp ha i hi

/-- The binary search finds the chunk it is asked for, as long as the offsets are
right. -/
theorem chunkGetPosForOffsetFrom_eq {cs : List BinaryContainerChunk} {offset ival : ℕ}
    (ha : Aligned 0 cs) (hlt : sizes cs < 2 ^ 64) (hh : HoldsOffset cs offset ival)
    (fuel curpos curmax curmin : ℕ) (hpos : curmin ≤ curpos ∧ curpos ≤ curmax)
    (hin : curmin ≤ ival ∧ ival ≤ curmax) (hmax : curmax < cs.length)
    (hfuel : curmax - curmin < fuel) :
    chunkGetPosForOffsetFrom cs offset fuel curpos curmax curmin = some ival := by
  obtain ⟨hi, hlo, hhi⟩ := hh
  induction fuel generalizing curpos curmax curmin with
  | zero => omega
  | succ fuel ih =>
      obtain ⟨b, hb⟩ : ∃ b, cs[curpos]? = some b :=
        ⟨cs.get ⟨curpos, by omega⟩, by simp⟩
      have hoff := ha.offset hb
      have hnext : b.nextOffset = sizes (cs.take (curpos + 1)) := by
        have := sizes_take_le cs (curpos + 1)
        rw [sizes_take_succ hb] at this ⊢
        rw [BinaryContainerChunk.nextOffset, hoff, Nat.mod_eq_of_lt (by omega), Nat.add_comm]
      have hcont : b.containsOffset offset = true ↔
          sizes (cs.take curpos) ≤ offset ∧ offset < sizes (cs.take (curpos + 1)) := by
        simp [BinaryContainerChunk.containsOffset, hoff, hnext]
      unfold chunkGetPosForOffsetFrom
      simp only [hb]
      rcases Nat.lt_trichotomy curpos ival with hlt' | rfl | hgt
      · have := sizes_take_mono cs (show curpos + 1 ≤ ival from hlt')
        rw [if_neg (by rw [hcont]; omega),
          if_neg (by rw [hoff]; have := sizes_take_mono cs (show curpos ≤ ival by omega); omega),
          if_neg (by omega)]
        have hm := middle_mem (show curpos + 1 ≤ curmax by omega)
        exact ih _ _ _ hm (by omega) hmax (by omega)
      · rw [if_pos (hcont.mpr ⟨hlo, hhi⟩)]
      · have := sizes_take_mono cs (show ival + 1 ≤ curpos from hgt)
        rw [if_neg (by rw [hcont]; omega), if_pos (by rw [hoff]; omega), if_neg (by omega)]
        have hm := middle_mem (show curmin ≤ curpos - 1 by omega)
        exact ih _ _ _ hm (by omega) (by omega) (by omega)

/-- A position inside the chunks is found, as long as the offsets are right. -/
theorem chunkGetPosForOffset_holds {c : BChunks} (ha : Aligned 0 c.chunksVector)
    (hlt : sizes c.chunksVector < 2 ^ 64) {offset : ℕ} (ho : offset < sizes c.chunksVector) :
    ∃ ival, c.chunkGetPosForOffset offset = some ival ∧
      HoldsOffset c.chunksVector offset ival := by
  obtain ⟨ival, hh⟩ := exists_holdsOffset c.chunksVector ho
  have hi := hh.1
  refine ⟨ival, ?_, hh⟩
  unfold BChunks.chunkGetPosForOffset
  rw [if_neg (by omega)]
  refine chunkGetPosForOffsetFrom_eq ha hlt hh _ _ _ _ ⟨Nat.zero_le _, ?_⟩ (by omega) (by omega)
    (by omega)
  split <;> omega

theorem RepInv.chunkGetPosForOffset {c : BChunks} (h : c.RepInv) (hlt : c.containerBytes < 2 ^ 64)
    {offset : ℕ} (ho : offset < c.size) :
    ∃ ival, c.chunkGetPosForOffset offset = some ival ∧ HoldsOffset c.chunksVector offset ival := by
  have ht : c.size = sizes c.chunksVector := h.total
  exact chunkGetPosForOffset_holds h.aligned (by rw [← h.total]; exact hlt) (by rw [← ht]; exact ho)

/-- Truncation keeps the invariant. -/
theorem RepInv.truncate {c : BChunks} (h : c.RepInv) (hlt : c.containerBytes < 2 ^ 64) (n : ℕ) :
    (c.truncate n).1.RepInv ∧ (c.truncate n).1.containerBytes < 2 ^ 64 := by
  unfold BChunks.truncate
  split
  · exact ⟨h, hlt⟩
  · rename_i hn
    have hn : n < c.size := Nat.lt_of_not_le hn
    obtain ⟨ival, hpos, hi, hlo, hhi⟩ := h.chunkGetPosForOffset hlt hn
    obtain ⟨b, hb⟩ : ∃ b, c.chunksVector[ival]? = some b :=
      ⟨c.chunksVector.get ⟨ival, hi⟩, by simp⟩
    have hoff := h.aligned.offset hb
    have hsucc := sizes_take_succ hb
    have htotal := sizes_take_le c.chunksVector (ival + 1)
    have hc : c.size = sizes c.chunksVector := h.total
    have htake : Aligned 0 (c.chunksVector.take ival) := by
      have ha := h.aligned
      rw [← List.take_append_drop ival c.chunksVector, aligned_append] at ha
      exact ha.1
    have hnon : ∀ b ∈ c.chunksVector.take ival, b.data ≠ [] :=
      fun b hb => h.nonempty b (List.mem_of_mem_take hb)
    have hlt' : n < 2 ^ 64 := lt_trans hn hlt
    simp only [truncate2, hpos, hb]
    refine ⟨?_, hlt'⟩
    rw [repInv_iff]
    split
    · rename_i heq
      exact ⟨hnon, htake, by simp only []; omega⟩
    · rename_i hne
      have htr : b.truncate n = { b with data := b.data.take (n - b.offset) } := by
        have hb64 : (b.offset + b.size) % 2 ^ 64 = b.offset + b.size := by
          apply Nat.mod_eq_of_lt
          have : c.size < 2 ^ 64 := hlt
          omega
        unfold BinaryContainerChunk.truncate
        rw [hb64, if_neg (by omega), if_neg (by omega)]
      have hlen : (b.data.take (n - b.offset)).length = n - b.offset := by
        rw [List.length_take]
        have : b.data.length = b.size := rfl
        omega
      refine ⟨?_, ?_, ?_⟩
      · intro b' hb'
        rcases List.mem_append.mp hb' with hb' | hb'
        · exact hnon b' hb'
        · rw [List.mem_singleton.mp hb', htr]
          simp only []
          rw [← List.length_pos_iff]
          omega
      · simp only []
        rw [aligned_append, htr]
        exact ⟨htake, by simp [Aligned, hoff]⟩
      · simp only [sizes_append, htr, sizes_cons, sizes_nil, BinaryContainerChunk.size]
        omega

/-! ## Runs of operations -/

/-- The operations that change a container.  `copyToFS` is the outcome of moving the
data to a file, should the operation come to that. -/
inductive Op where
  | append (buf : List UInt8) (copyToFS : Bool)
  | prepend (buf : List UInt8) (copyToFS : Bool)
  | displace (bytes : ℕ)
  | truncate (bytes : ℕ)
  | clear
deriving DecidableEq

/-- One operation with the count it reports (`clear` reports none); a container that
leaves memory ends the run. -/
def step (c : BChunks) : Op → Option (BChunks × Option ℕ)
  | .append buf copyToFS => c.append copyToFS buf
  | .prepend buf copyToFS => c.prepend copyToFS buf
  | .displace bytes => some (c.displace bytes)
  | .truncate bytes => some (c.truncate bytes)
  | .clear => some (c.clear, none)

/-- New data passes the size checks and is put into chunks. -/
def Stores (c : BChunks) (buf : List UInt8) : Prop :=
  buf ≠ [] ∧ buf.length + c.size < 2 ^ 64 ∧ buf.length + c.size ≤ c.maxSize ∧
    (c.maxSizeInMemoryBeforeMovingToDisk = 0 ∨
      buf.length + c.size ≤ c.maxSizeInMemoryBeforeMovingToDisk)

/-- The operation leaves right offsets behind.  Data that is stored must not be cut
into chunks of size zero; data that is stored in front must become the only chunk;
displacing must reach the last chunk, because `recalcChunkOffsets` repairs no other.
A vector that is full takes nothing and stays as it is. -/
def Restores (c : BChunks) : Op → Prop
  | .append buf _ =>
    c.Stores buf → 0 < c.maxChunkSize ∨ c.maxChunks ≤ c.chunksVector.length
  | .prepend buf _ =>
    c.Stores buf → c.maxChunks ≤ c.chunksVector.length ∨
      (c.chunksVector = [] ∧ 0 < c.maxChunkSize ∧
        (buf.length ≤ c.maxChunkSize ∨ c.maxChunks = 1))
  | .displace bytes => sizes c.chunksVector.dropLast ≤ bytes
  | .truncate _ => True
  | .clear => True

/-- What `append2` does to the chunks after its checks. -/
theorem append2_cases {c c' : BChunks} {fs p : Bool} {buf : List UInt8} {r : Option ℕ}
    (h : c.append2 fs buf p = some (c', r)) :
    c' = c ∨ ((buf.length + c.size < 2 ^ 64 ∧
      (c.maxSizeInMemoryBeforeMovingToDisk = 0 ∨
        buf.length + c.size ≤ c.maxSizeInMemoryBeforeMovingToDisk)) ∧
      c' = (append2Loop p (c.maxChunks + 1) c buf 0).1) := by
  unfold append2 at h
  split at h
  · simp only [Option.some.injEq, Prod.mk.injEq] at h
    exact Or.inl h.1.symm
  · rename_i hov
    rw [checkUIntOverflowSum_iff] at hov
    split at h
    · split at h
      · cases h
      · simp only [Option.some.injEq, Prod.mk.injEq] at h
        exact Or.inl h.1.symm
    · rename_i hdisk
      simp only [Option.some.injEq, Prod.mk.injEq] at h
      exact Or.inr ⟨⟨by omega, by omega⟩, h.1.symm⟩

/-- What `append` and `prepend` have in common: their checks, in front of `append2`. -/
theorem checked_cases {c c' : BChunks} {fs p : Bool} {buf : List UInt8} {r r₀ : Option ℕ}
    (h : (if checkUIntOverflowSum buf.length c.size then some (c, none)
      else if c.maxSize < buf.length + c.size then some (c, none)
      else if buf = [] then some (c, r₀)
      else c.append2 fs buf p) = some (c', r)) :
    c' = c ∨ (c.Stores buf ∧ c' = (append2Loop p (c.maxChunks + 1) c buf 0).1) := by
  have hkept : ∀ {r₁ : Option ℕ}, some (c, r₁) = some (c', r) → c' = c :=
    fun heq => (Prod.mk.inj (Option.some.inj heq)).1.symm
  by_cases hover : checkUIntOverflowSum buf.length c.size = true
  · rw [if_pos hover] at h
    exact Or.inl (hkept h)
  · rw [if_neg hover] at h
    by_cases hmax : c.maxSize < buf.length + c.size
    · rw [if_pos hmax] at h
      exact Or.inl (hkept h)
    · rw [if_neg hmax] at h
      by_cases hnil : buf = []
      · rw [if_pos hnil] at h
        exact Or.inl (hkept h)
      · rw [if_neg hnil] at h
        rcases append2_cases h with hsame | ⟨⟨hsum, hmemory⟩, hloop⟩
        · exact Or.inl hsame
        · exact Or.inr ⟨⟨hnil, hsum, Nat.not_lt.mp hmax, hmemory⟩, hloop⟩

theorem append_cases {c c' : BChunks} {fs : Bool} {buf : List UInt8} {r : Option ℕ}
    (h : c.append fs buf = some (c', r)) :
    c' = c ∨ (c.Stores buf ∧ c' = (append2Loop false (c.maxChunks + 1) c buf 0).1) :=
  checked_cases h

theorem prepend_cases {c c' : BChunks} {fs : Bool} {buf : List UInt8} {r : Option ℕ}
    (h : c.prepend fs buf = some (c', r)) :
    c' = c ∨ (c.Stores buf ∧ c' = (append2Loop true (c.maxChunks + 1) c buf 0).1) :=
  checked_cases h

/-- New data can be stored within the chunk limit. -/
def HasChunks (c : BChunks) (n : ℕ) : Prop :=
  c.chunksVector.length + c.chunksFor n ≤ c.maxChunks

theorem append_eq_loop {c : BChunks} {buf : List UInt8} (hs : c.Stores buf) (fs : Bool) :
    c.append fs buf = some ((append2Loop false (c.maxChunks + 1) c buf 0).1,
      some (append2Loop false (c.maxChunks + 1) c buf 0).2) := by
  obtain ⟨hbuf, hlt, hmax, hmem⟩ := hs
  unfold append append2
  rw [checkUIntOverflowSum_eq_false hlt, if_neg (by simp), if_neg (by omega), if_neg hbuf,
    if_neg (by simp), if_neg (by omega)]

/-- Data within the limits is appended whole. -/
theorem append_fits {c : BChunks} (h : c.Counted) {buf : List UInt8} (hs : c.Stores buf)
    (hk : 0 < c.maxChunkSize) (hfit : c.HasChunks buf.length) (fs : Bool) :
    ∃ c', c.append fs buf = some (c', some buf.length) ∧ c'.Counted ∧
      c'.bytes = c.bytes ++ buf ∧ SameLimits c' c ∧
      c'.chunksVector.length = c.chunksVector.length + c.chunksFor buf.length ∧
      (c.RepInv → c'.RepInv) := by
  have hlt : c.containerBytes + buf.length < 2 ^ 64 := by
    have := hs.2.1
    rw [size] at this
    omega
  obtain ⟨h1, h2, h3⟩ := append2Loop_fits (c.maxChunks + 1) buf 0 hk hfit (by omega)
  refine ⟨(append2Loop false (c.maxChunks + 1) c buf 0).1, ?_,
    append2Loop_counted _ buf 0 hk h hlt, h2, append2Loop_sameLimits _ _ _ _, h3,
    fun hrep => (append2Loop_repInv _ buf 0 hrep (Or.inl hk) hlt).1⟩
  rw [append_eq_loop hs, h1, Nat.zero_add]

/-- Data beyond the chunk limit is appended in part, and the count says so. -/
theorem append_short {c : BChunks} {buf : List UInt8} (hs : c.Stores buf)
    (hk : 0 < c.maxChunkSize) (hle : c.chunksVector.length ≤ c.maxChunks)
    (hfit : ¬ c.HasChunks buf.length) (fs : Bool) :
    ∃ c' n, c.append fs buf = some (c', some n) ∧ n < buf.length ∧ SameLimits c' c := by
  have hshort := append2Loop_short (c.maxChunks + 1) buf 0 hk hle (Nat.lt_of_not_le hfit)
  refine ⟨_, _, append_eq_loop hs fs, by omega, append2Loop_sameLimits _ _ _ _⟩

/-- A full vector takes nothing. -/
theorem append2Loop_full {c : BChunks} (hfull : c.maxChunks ≤ c.chunksVector.length)
    {buf : List UInt8} (hbuf : buf ≠ []) (p : Bool) (fuel n : ℕ) :
    append2Loop p fuel c buf n = (c, n) := by
  cases fuel with
  | zero => rfl
  | succ fuel =>
      unfold append2Loop
      rw [if_neg hbuf, if_pos (by omega)]

/-- Data put in front of nothing, and kept to one chunk. -/
theorem repInv_prepend_single {c : BChunks} {buf : List UInt8} (h : c.RepInv)
    (hc : c.chunksVector = []) (hk : 0 < c.maxChunkSize) (hroom : 0 < c.maxChunks)
    (hone : buf.length ≤ c.maxChunkSize ∨ c.maxChunks = 1) (hs : c.Stores buf) :
    (append2Loop true (c.maxChunks + 1) c buf 0).1.RepInv ∧
      (append2Loop true (c.maxChunks + 1) c buf 0).1.containerBytes < 2 ^ 64 := by
  obtain ⟨hbuf, hlt, -, -⟩ := hs
  have hsize : c.containerBytes = 0 := by rw [h.total, hc, sizes_nil]
  have hput : (c.putChunk true (buf.take c.maxChunkSize)).chunksVector =
      [{ data := buf.take c.maxChunkSize }] := by
    simp [putChunk, hc]
  have htake : buf.take c.maxChunkSize ≠ [] := take_ne_nil hk hbuf
  have hlen : (buf.take c.maxChunkSize).length < 2 ^ 64 := by
    rw [List.length_take]
    omega
  have hbytes : (c.putChunk true (buf.take c.maxChunkSize)).containerBytes =
      (buf.take c.maxChunkSize).length := by
    rw [containerBytes_putChunk (by omega), hsize, Nat.zero_add]
  have hinv : (c.putChunk true (buf.take c.maxChunkSize)).RepInv := by
    rw [repInv_iff, hput, hbytes]
    exact ⟨by simpa using htake, by simp [Aligned], by simp [BinaryContainerChunk.size]⟩
  unfold append2Loop
  rw [if_neg hbuf, if_neg (by rw [hc, List.length_nil]; omega)]
  by_cases hrest : buf.drop c.maxChunkSize = []
  · have hrecalc : (c.putChunk true (buf.take c.maxChunkSize)).recalcChunkOffsets =
        c.putChunk true (buf.take c.maxChunkSize) := by
      simp [recalcChunkOffsets, putChunk, hc, recalcLoop]
    rw [hrest]
    obtain ⟨m, hm⟩ : ∃ m, c.maxChunks = m + 1 := ⟨c.maxChunks - 1, by omega⟩
    rw [hm]
    unfold append2Loop
    rw [if_pos rfl, if_pos rfl, hrecalc]
    exact ⟨hinv, by rw [hbytes]; exact hlen⟩
  · have hmax : c.maxChunks = 1 := by
      rcases hone with hle | h1
      · exact absurd (List.drop_eq_nil_of_le hle) hrest
      · exact h1
    rw [append2Loop_full (by rw [hput, putChunk_maxChunks, hmax]; rfl) hrest]
    exact ⟨hinv, by rw [hbytes]; exact hlen⟩

/-- The invariant of a run: the representation invariant of a container whose size
fits `size_t`. -/
def Sound (c : BChunks) : Prop := c.RepInv ∧ c.containerBytes < 2 ^ 64

theorem Sound.counted {c : BChunks} (h : c.Sound) : c.Counted := h.1.counted h.2

/-- What `displace` does to the bytes, whether or not it restores the offsets. -/
theorem Counted.displace {c : BChunks} (h : c.Counted) (n : ℕ) :
    (c.displace n).1.Counted ∧ (c.displace n).1.bytes = c.bytes.drop n ∧
      SameLimits (c.displace n).1 c ∧
      ((c.displace n).1.chunksVector.length ≤ 1 → (c.displace n).1.Sound) ∧
      (sizes c.chunksVector.dropLast ≤ n → (c.displace n).1.chunksVector.length ≤ 1) := by
  obtain ⟨h1, h2, h3, -, h5⟩ :=
    displace2Loop_spec c.chunksVector c.containerBytes (min n c.size) 0 h.nonempty h.total h.fits
  have hsize : (displace2Loop c.chunksVector c.containerBytes (min n c.size) 0).2.1 < 2 ^ 64 := by
    have hle := congrArg List.length h3
    rw [List.length_drop, length_flatMap_data, length_flatMap_data, ← h.total] at hle
    have := h.fits
    omega
  have hdrop : (c.displace n).1.bytes = c.bytes.drop n := by
    calc (c.displace n).1.bytes
        = (displace2Loop c.chunksVector c.containerBytes (min n c.size) 0).1.flatMap (·.data) :=
          bytes_recalcChunkOffsets _
      _ = c.bytes.drop (min n c.size) := h3
      _ = c.bytes.drop n := by
          rcases Nat.le_total n c.size with hle | hle
          · rw [Nat.min_eq_left hle]
          · have hlen := h.size_eq
            rw [Nat.min_eq_right hle, List.drop_eq_nil_of_le hlen.ge,
              List.drop_eq_nil_of_le (by omega)]
  refine ⟨?_, hdrop, recalcChunkOffsets_sameLimits _, ?_, ?_⟩
  · refine ⟨?_, ?_, ?_⟩
    · exact nonempty_recalcChunkOffsets h1
    · rw [← length_bytes]
      simp only [BChunks.displace, displace2, containerBytes_recalcChunkOffsets,
        bytes_recalcChunkOffsets]
      rw [h2, length_bytes]
    · simp only [BChunks.displace, displace2, containerBytes_recalcChunkOffsets]
      exact hsize
  · intro hone
    simp only [BChunks.displace, displace2, length_recalcChunkOffsets] at hone
    refine ⟨repInv_recalcChunkOffsets h1 h2 hone, ?_⟩
    simp only [BChunks.displace, displace2, containerBytes_recalcChunkOffsets]
    exact hsize
  · intro hn
    simp only [BChunks.displace, displace2, length_recalcChunkOffsets]
    apply h5
    have hle : sizes c.chunksVector.dropLast ≤ sizes c.chunksVector := by
      rw [List.dropLast_eq_take]
      exact sizes_take_le _ _
    have : c.size = sizes c.chunksVector := h.total
    omega

/-- Displacing adds no chunks. -/
theorem length_displace_le {c : BChunks} (h : c.Counted) (n : ℕ) :
    (c.displace n).1.chunksVector.length ≤ c.chunksVector.length := by
  obtain ⟨-, -, -, h4, -⟩ :=
    displace2Loop_spec c.chunksVector c.containerBytes (min n c.size) 0 h.nonempty h.total h.fits
  simp only [BChunks.displace, displace2, length_recalcChunkOffsets]
  exact h4

theorem Sound.displace {c : BChunks} (h : c.Sound) {n : ℕ}
    (hn : sizes c.chunksVector.dropLast ≤ n) : (c.displace n).1.Sound := by
  obtain ⟨-, -, -, hsound, hone⟩ := h.counted.displace n
  exact hsound (hone hn)

/-- **Step lemma.**  An operation that meets its condition keeps the invariant. -/
theorem Sound.step {c c' : BChunks} {op : Op} {r : Option ℕ} (h : c.Sound)
    (hop : c.Restores op) (hs : c.step op = some (c', r)) : c'.Sound := by
  cases op with
  | append buf fs =>
      rcases append_cases hs with rfl | ⟨hst, rfl⟩
      · exact h
      · refine append2Loop_repInv _ buf 0 h.1 (hop hst) ?_
        have := hst.2.1
        rw [size] at this
        omega
  | prepend buf fs =>
      rcases prepend_cases hs with rfl | ⟨hst, rfl⟩
      · exact h
      · by_cases hfull : c.maxChunks ≤ c.chunksVector.length
        · rw [append2Loop_full hfull hst.1]
          exact h
        · rcases hop hst with hfull' | ⟨hc, hk, hone⟩
          · exact absurd hfull' hfull
          · exact repInv_prepend_single h.1 hc hk (by omega) hone hst
  | displace n =>
      simp only [BChunks.step, Option.some.injEq] at hs
      have := h.displace hop
      rwa [hs] at this
  | truncate n =>
      simp only [BChunks.step, Option.some.injEq] at hs
      have := h.1.truncate h.2 n
      rwa [hs] at this
  | clear =>
      simp only [BChunks.step, Option.some.injEq, Prod.mk.injEq] at hs
      obtain ⟨rfl, -⟩ := hs
      exact ⟨repInv_clear c, by simp [clear]⟩

/-- **The invariant along runs.**  Whatever the limits of the container and whatever
is done to it after it was last empty: as long as every operation meets its condition,
the representation invariant holds after each of them. -/
theorem repInv_of_restoring_run (c : BChunks) (ops : List Op)
    (hops : Run.Guarded step Restores c.clear ops) :
    ∀ t ∈ Run.transitions step c.clear ops, t.after.RepInv := by
  intro t ht
  have hinit : c.clear.Sound := ⟨repInv_clear c, by simp [clear]⟩
  have hinv := Run.Guarded.invariant Sound
    (fun _ _ _ _ h hop hs => h.step hop hs) hinit hops t ht
  exact hinv.2.1

instance (c : BChunks) (buf : List UInt8) : Decidable (c.Stores buf) :=
  inferInstanceAs (Decidable (_ ∧ _))

instance (c : BChunks) (op : Op) : Decidable (c.Restores op) :=
  match op with
  | .append _ _ => inferInstanceAs (Decidable (_ → _))
  | .prepend _ _ => inferInstanceAs (Decidable (_ → _))
  | .displace _ => inferInstanceAs (Decidable (_ ≤ _))
  | .truncate _ => inferInstanceAs (Decidable True)
  | .clear => inferInstanceAs (Decidable True)

/-- Two writes, a cut inside the second chunk, a displacement up to that chunk and a
write in front of an emptied container. -/
theorem repInv_of_restoring_run_mixed :
    let ops := [Op.append [1, 2] false, .append [3, 4] false, .truncate 3, .displace 2, .clear,
      .prepend [5] false]
    ∀ t ∈ Run.transitions step (clear { maxChunks := 4 }) ops, t.after.RepInv :=
  repInv_of_restoring_run { maxChunks := 4 } _ (by
    unfold Run.Guarded
    decide)

instance (c : BChunks) : Decidable c.RepInv :=
  decidable_of_iff
    ((∀ b ∈ c.chunksVector, b.data ≠ []) ∧
      (∀ i : Fin c.chunksVector.length,
        (c.chunksVector.get i).offset = sizes (c.chunksVector.take i)) ∧
      c.containerBytes = sizes c.chunksVector)
    ⟨fun ⟨hn, ho, ht⟩ => ⟨hn, fun i hi => ho ⟨i, hi⟩, ht⟩,
      fun h => ⟨h.nonempty, fun i => h.offsets i i.isLt, h.total⟩⟩

/-- Three one-byte writes make three chunks; after the first byte is displaced the first
of the two that are left claims to start at offset 1. -/
theorem repInv_fails_after_displace :
    ¬ ∀ (c : BChunks) (ops : List Op),
      ∀ t ∈ Run.transitions step c.clear ops, t.after.RepInv := by
  intro h
  have hrun := h {} [.append [1] false, .append [2] false, .append [3] false, .displace 1]
  revert hrun
  decide

end BChunks

end Mantids
