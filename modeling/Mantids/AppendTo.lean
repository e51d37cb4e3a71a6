/-
# Appending a slice of a container to another

`B_Base::appendTo` with an offset: `B_Chunks::copyToStreamableObject2` cuts the slice into the
pieces that the chunks hold of it, and writes them to the destination one by one.

* `BChunks.slicePieces`, `BChunks.appendSlice` — the pieces, and the whole function;
* `Whole` — no piece is empty: the slice does not start where a chunk ends, and holds no chunk
  without bytes;
* `StreamableChunks.Ready` — a destination that takes data as long as it has chunks left;
* `copyLoop_iff` — such a destination takes all the pieces exactly if none is empty and there are
  chunks for all of them;
* `appendSlice_zero` — from the front on it is `appendTo` of `Stream`;
* `appendSlice_iff` — when `appendTo` transfers the slice.

A piece of no bytes is a write of no bytes, and that counts as a failure.
-/
import Mantids.Stream
import Mathlib.Algebra.BigOperators.Group.Finset.Basic

namespace Mantids

open BChunks

/-! ## The pieces -/

namespace BChunks

/-- The loop of `copyToStreamableObject2`: what each chunk holds of the slice. -/
def slicePieces : List BinaryContainerChunk → ℕ → ℕ → List (List UInt8)
  | [], _, _ => []
  | b :: cs, offset, dataToCopy =>
    if 0 < offset ∧ b.size < offset then slicePieces cs (offset - b.size) dataToCopy
    else
      let piece := (b.data.drop offset).take dataToCopy
      if dataToCopy - piece.length = 0 then [piece]
      else piece :: slicePieces cs 0 (dataToCopy - piece.length)

/-- `copyToStreamableObject2`. -/
def copySlice (c : BChunks) (o : StreamableChunks) (bytes offset : ℕ) :
    Option (StreamableChunks × Option ℕ) :=
  if bytes = 0 then some (o, some 0)
  else if checkUIntOverflowSum offset bytes then some (o, none)
  else if c.size < offset then some (o, none)
  else
    let bytes := if c.size < offset + bytes then c.size - offset else bytes
    o.copyLoop (slicePieces c.chunksVector offset bytes) 0

/-- `appendTo` with an offset; a request that is out of range is a failure of the destination. -/
def appendSlice (c : BChunks) (o : StreamableChunks) (bytes offset : ℕ) :
    Option (StreamableChunks × Option ℕ) :=
  let refused := (o.writeStatus.add (-1)).map (fun s => ({ o with writeStatus := s }, none))
  if bytes = 2 ^ 64 - 1 ∧ c.size < offset then refused
  else
    let bytesToCopy := if bytes = 2 ^ 64 - 1 then c.size - offset else bytes
    if checkUIntOverflowSum offset bytesToCopy then refused
    else if bytesToCopy = 0 then some (o, some 0)
    else if c.size < offset then refused
    else
      let bytesToCopy := if c.size < offset + bytesToCopy then c.size - offset else bytesToCopy
      c.copySlice o bytesToCopy offset

variable {cs : List BinaryContainerChunk} {b : BinaryContainerChunk} {offset n : ℕ}

/-- A chunk that ends before the slice starts holds nothing of it. -/
theorem slicePieces_skip (h : 0 < offset ∧ b.size < offset) :
    slicePieces (b :: cs) offset n = slicePieces cs (offset - b.size) n := by
  rw [slicePieces, if_pos h]

/-- The slice ends in this chunk. -/
theorem slicePieces_last (h : offset ≤ b.size) (hn : n ≤ b.size - offset) :
    slicePieces (b :: cs) offset n = [(b.data.drop offset).take n] := by
  have hlen : b.size = b.data.length := rfl
  rw [slicePieces, if_neg (by omega)]
  dsimp only
  rw [if_pos]
  rw [List.length_take, List.length_drop]
  omega

/-- The slice goes on in the next chunk. -/
theorem slicePieces_more (h : offset ≤ b.size) (hn : b.size - offset < n) :
    slicePieces (b :: cs) offset n =
      b.data.drop offset :: slicePieces cs 0 (n - (b.size - offset)) := by
  have hlen : b.size = b.data.length := rfl
  have hpiece : (b.data.drop offset).take n = b.data.drop offset := by
    rw [List.take_of_length_le]
    rw [List.length_drop]
    omega
  rw [slicePieces, if_neg (by omega)]
  dsimp only
  rw [hpiece, List.length_drop, if_neg (by omega), hlen]

/-- The three ways in which a slice meets the first chunk. -/
theorem slice_cases (b : BinaryContainerChunk) (offset n : ℕ) :
    0 < offset ∧ b.size < offset ∨ offset ≤ b.size ∧ n ≤ b.size - offset ∨
      offset ≤ b.size ∧ b.size - offset < n := by
  omega

/-- The pieces make up the slice. -/
theorem flatten_slicePieces (cs : List BinaryContainerChunk) (offset n : ℕ) :
    (slicePieces cs offset n).flatten = ((cs.flatMap (·.data)).drop offset).take n := by
  induction cs generalizing offset n with
  | nil => simp [slicePieces]
  | cons b cs ih =>
      have hlen : b.size = b.data.length := rfl
      rw [List.flatMap_cons]
      rcases slice_cases b offset n with h | ⟨h, hn⟩ | ⟨h, hn⟩
      · rw [slicePieces_skip h, ih, List.drop_append, List.drop_eq_nil_of_le h.2.le,
          List.nil_append]
        rfl
      · rw [slicePieces_last h hn, List.flatten_singleton, List.drop_append_of_le_length (by omega),
          List.take_append_of_le_length (by rw [List.length_drop]; omega)]
      · have hpiece : (b.data.drop offset).take n = b.data.drop offset := by
          rw [List.take_of_length_le]
          rw [List.length_drop]
          omega
        rw [slicePieces_more h hn, List.flatten_cons, ih, List.drop_zero,
          List.drop_append_of_le_length (by omega), List.take_append, hpiece, List.length_drop,
          hlen]

/-- No piece is longer than its chunk. -/
theorem length_slicePieces_lt {m : ℕ} (h : ∀ b ∈ cs, b.size < m) :
    ∀ d ∈ slicePieces cs offset n, d.length < m := by
  induction cs generalizing offset n with
  | nil =>
      intro d hd
      cases hd
  | cons b cs ih =>
      have hlen : b.data.length < m := h b (List.mem_cons_self ..)
      have hcs : ∀ b' ∈ cs, b'.size < m := fun b' hb' => h b' (List.mem_cons_of_mem _ hb')
      intro d hd
      rcases slice_cases b offset n with hs | ⟨hs, hn⟩ | ⟨hs, hn⟩
      · rw [slicePieces_skip hs] at hd
        exact ih hcs d hd
      · rw [slicePieces_last hs hn, List.mem_singleton] at hd
        rw [hd, List.length_take, List.length_drop]
        omega
      · rw [slicePieces_more hs hn] at hd
        rcases List.mem_cons.mp hd with rfl | hd
        · rw [List.length_drop]
          omega
        · exact ih hcs d hd

theorem SameLimits.maxChunkSize {c d : BChunks} (h : SameLimits c d) :
    c.maxChunkSize = d.maxChunkSize := by
  have : c.clear.maxChunkSize = d.clear.maxChunkSize := congrArg (·.maxChunkSize) h
  exact this

theorem SameLimits.inMemory {c d : BChunks} (h : SameLimits c d) :
    c.maxSizeInMemoryBeforeMovingToDisk = d.maxSizeInMemoryBeforeMovingToDisk := by
  have : c.clear.maxSizeInMemoryBeforeMovingToDisk = d.clear.maxSizeInMemoryBeforeMovingToDisk :=
    congrArg (·.maxSizeInMemoryBeforeMovingToDisk) h
  exact this

/-- A slice without empty pieces: no chunk ends where it starts, unless it starts at the front, and
none that starts in it is empty. -/
structure Whole (cs : List BinaryContainerChunk) (offset n : ℕ) : Prop where
  border : ∀ i, 0 < offset → sizes (cs.take i) ≠ offset
  nonempty : ∀ i b, cs[i]? = some b → offset ≤ sizes (cs.take i) →
    sizes (cs.take i) < offset + n → b.data ≠ []

theorem whole_cons_iff (b : BinaryContainerChunk) (cs : List BinaryContainerChunk) (offset n : ℕ) :
    Whole (b :: cs) offset n ↔
      (∀ i, 0 < offset → b.size + sizes (cs.take i) ≠ offset) ∧
        (offset = 0 → 0 < n → b.data ≠ []) ∧
        ∀ i b', cs[i]? = some b' → offset ≤ b.size + sizes (cs.take i) →
          b.size + sizes (cs.take i) < offset + n → b'.data ≠ [] := by
  constructor
  · intro h
    refine ⟨fun i hpos => ?_, fun h0 hn => ?_, fun i b' hb hlo hhi => ?_⟩
    · have := h.border (i + 1) hpos
      rwa [List.take_succ_cons, sizes_cons] at this
    · refine h.nonempty 0 b rfl ?_ ?_ <;> simp <;> omega
    · refine h.nonempty (i + 1) b' hb ?_ ?_ <;> rw [List.take_succ_cons, sizes_cons] <;> assumption
  · rintro ⟨hborder, hfirst, hrest⟩
    refine ⟨fun i hpos => ?_, fun i b' hb hlo hhi => ?_⟩
    · cases i with
      | zero => simpa using hpos.ne
      | succ i =>
          rw [List.take_succ_cons, sizes_cons]
          exact hborder i hpos
    · cases i with
      | zero =>
          obtain rfl : b = b' := by simpa using hb
          simp only [List.take_zero, sizes_nil, Nat.le_zero] at hlo hhi
          exact hfirst hlo (by omega)
      | succ i =>
          rw [List.take_succ_cons, sizes_cons] at hlo hhi
          exact hrest i b' hb hlo hhi

/-- The pieces of a slice inside the chunks are not empty exactly if the slice is whole. -/
theorem slicePieces_ne_nil_iff (hn : 0 < n) (hin : offset + n ≤ sizes cs) :
    (∀ d ∈ slicePieces cs offset n, d ≠ []) ↔ Whole cs offset n := by
  induction cs generalizing offset n with
  | nil =>
      rw [sizes_nil] at hin
      omega
  | cons b cs ih =>
      have hlen : b.size = b.data.length := rfl
      rw [sizes_cons] at hin
      rw [whole_cons_iff]
      rcases slice_cases b offset n with h | ⟨h, hend⟩ | ⟨h, hend⟩
      · rw [slicePieces_skip h, ih hn (by omega)]
        constructor
        · intro hw
          refine ⟨fun i _ heq => hw.border i (by omega) (by omega), by omega,
            fun i b' hb hlo hhi => hw.nonempty i b' hb (by omega) (by omega)⟩
        · rintro ⟨hborder, -, hrest⟩
          exact ⟨fun i _ heq => hborder i h.1 (by omega),
            fun i b' hb hlo hhi => hrest i b' hb (by omega) (by omega)⟩
      · rw [slicePieces_last h hend]
        have hb : b.data ≠ [] := by
          rw [Ne, ← List.length_eq_zero_iff]
          omega
        refine iff_of_true (fun d hd => ?_)
          ⟨fun i _ => by omega, fun _ _ => hb, fun i _ _ _ hhi => by omega⟩
        rw [List.mem_singleton.mp hd, Ne, ← List.length_eq_zero_iff, List.length_take,
          List.length_drop]
        omega
      · rw [slicePieces_more h hend, List.forall_mem_cons, ih (by omega) (by omega), Ne,
          List.drop_eq_nil_iff]
        constructor
        · rintro ⟨hb, hw⟩
          refine ⟨fun i _ => by omega, fun _ _ hnil => ?_, fun i b' hb' hlo hhi =>
            hw.nonempty i b' hb' (Nat.zero_le _) (by omega)⟩
          rw [← List.length_eq_zero_iff] at hnil
          omega
        · rintro ⟨hborder, hfirst, hrest⟩
          have hb : ¬ b.data.length ≤ offset := by
            intro hle
            rcases Nat.eq_zero_or_pos offset with h0 | hpos
            · refine hfirst h0 hn (List.length_eq_zero_iff.mp ?_)
              omega
            · refine hborder 0 hpos ?_
              rw [List.take_zero, sizes_nil]
              omega
          exact ⟨hb, fun i h0 => absurd h0 (by omega),
            fun i b' hb' _ hhi => hrest i b' hb' (by omega) (by omega)⟩

/-- The chunks that a slice needs when each piece is cut up anew. -/
def chunksNeeded (cs : List BinaryContainerChunk) (offset n maxChunkSize : ℕ) : ℕ :=
  ∑ i ∈ Finset.range cs.length,
    (min (sizes (cs.take (i + 1))) (offset + n) - max (sizes (cs.take i)) offset
      + maxChunkSize - 1) / maxChunkSize

theorem chunksNeeded_cons (b : BinaryContainerChunk) (cs : List BinaryContainerChunk)
    (offset n maxChunkSize : ℕ) :
    chunksNeeded (b :: cs) offset n maxChunkSize =
      (min b.size (offset + n) - offset + maxChunkSize - 1) / maxChunkSize +
        ∑ i ∈ Finset.range cs.length,
          (min (b.size + sizes (cs.take (i + 1))) (offset + n) -
            max (b.size + sizes (cs.take i)) offset + maxChunkSize - 1) / maxChunkSize := by
  rw [chunksNeeded, List.length_cons, Finset.sum_range_succ', Nat.add_comm]
  simp only [List.take_succ_cons, sizes_cons, List.take_zero, sizes_nil, Nat.zero_max, Nat.add_zero]

/-- What a slice has of a chunk, counted from behind the chunk before. -/
theorem overlap_shift (s a b offset n : ℕ) :
    min (s + b) (offset + n) - max (s + a) offset =
      min b (offset + n - s) - max a (offset - s) := by
  have hle : s ≤ max (s + a) offset := (Nat.le_add_right s a).trans (le_max_left _ _)
  rw [← Nat.sub_sub_sub_cancel_right hle, ← Nat.sub_min_sub_right, ← Nat.sub_max_sub_right,
    Nat.add_sub_cancel_left, Nat.add_sub_cancel_left]

theorem chunksNeeded_slicePieces (cs : List BinaryContainerChunk) (offset n : ℕ) {maxChunkSize : ℕ}
    (hk : 0 < maxChunkSize) :
    ((slicePieces cs offset n).map
        (fun d => (d.length + maxChunkSize - 1) / maxChunkSize)).sum =
      chunksNeeded cs offset n maxChunkSize := by
  have hzero : (0 + maxChunkSize - 1) / maxChunkSize = 0 := Nat.div_eq_of_lt (by omega)
  induction cs generalizing offset n with
  | nil => rfl
  | cons b cs ih =>
      have hlen : b.size = b.data.length := rfl
      rw [chunksNeeded_cons]
      rcases slice_cases b offset n with h | ⟨h, hend⟩ | ⟨h, hend⟩
      · rw [slicePieces_skip h, ih, chunksNeeded, 
          show min b.size (offset + n) - offset = 0 by omega, hzero, Nat.zero_add]
        refine Finset.sum_congr rfl (fun i _ => ?_)
        rw [overlap_shift b.size, show offset + n - b.size = offset - b.size + n by omega]
      · rw [slicePieces_last h hend, List.map_singleton, List.sum_singleton, List.length_take,
          List.length_drop]
        have hrest : ∀ i ∈ Finset.range cs.length,
            (min (b.size + sizes (cs.take (i + 1))) (offset + n) -
              max (b.size + sizes (cs.take i)) offset + maxChunkSize - 1) / maxChunkSize = 0 := by
          intro i _
          rw [show min (b.size + sizes (cs.take (i + 1))) (offset + n) -
            max (b.size + sizes (cs.take i)) offset = 0 by omega, hzero]
        rw [Finset.sum_eq_zero hrest, Nat.add_zero]
        congr 2
        omega
      · rw [slicePieces_more h hend, List.map_cons, List.sum_cons, List.length_drop, ih,
          chunksNeeded]
        congr 1
        · congr 2
          omega
        · refine Finset.sum_congr rfl (fun i _ => ?_)
          rw [overlap_shift b.size, Nat.sub_eq_zero_of_le h, Nat.zero_add,
            show offset + n - b.size = n - (b.size - offset) by omega]

end BChunks

/-! ## The destination -/

namespace StreamableChunks

variable {o o' : StreamableChunks}

/-- A destination that takes data as long as it has chunks left. -/
structure Ready (o : StreamableChunks) : Prop where
  counted : o.container.Counted
  chunkSize : 0 < o.container.maxChunkSize
  chunks_le : o.chunks ≤ o.container.maxChunks
  inMemory : o.container.maxSizeInMemoryBeforeMovingToDisk = 0
  unbounded : o.container.maxSize = 2 ^ 64 - 1
  succeed : o.writeStatus.succeed = true
  finish : o.writeStatus.finish = false
  bytesWritten : o.writeStatus.bytesWritten ≤ o.bytes.length

/-- A write that does not throw keeps the count of the bytes. -/
theorem counted_write (hcounted : o.container.Counted) (hk : 0 < o.container.maxChunkSize)
    {buf : List UInt8} {r : Option ℕ} (h : o.write buf = some (o', r)) :
    o'.container.Counted ∧ 0 < o'.container.maxChunkSize := by
  rcases append_cases (append_of_write h) with hsame | ⟨hstores, hloop⟩
  · rw [hsame]
    exact ⟨hcounted, hk⟩
  · have hlt := hstores.2.1
    rw [BChunks.size] at hlt
    have hsize := (append2Loop_sameLimits (o.container.maxChunks + 1) o.container buf
      0).maxChunkSize
    rw [hloop]
    exact ⟨append2Loop_counted _ buf 0 hk hcounted (by omega), by rw [hsize]; exact hk⟩

/-- A copy that does not throw keeps the count of the bytes, and stores no more than it was given.
-/
theorem copyLoop_le (hcounted : o.container.Counted) (hk : 0 < o.container.maxChunkSize)
    {ds : List (List UInt8)} {n : ℕ} {r : Option ℕ} (h : o.copyLoop ds n = some (o', r)) :
    o'.container.Counted ∧ o'.bytes.length ≤ o.bytes.length + ds.flatten.length := by
  induction ds generalizing o n with
  | nil =>
      cases h
      exact ⟨hcounted, Nat.le_add_right _ _⟩
  | cons d ds ih =>
      rw [List.flatten_cons, List.length_append]
      unfold copyLoop at h
      rcases hw : o.write d with _ | ⟨o₁, k⟩
      · rw [hw] at h
        cases h
      · obtain ⟨hcounted₁, hk₁⟩ := counted_write hcounted hk hw
        have hbytes := congrArg List.length (bytes_write hw)
        rw [List.length_append, List.length_take] at hbytes
        rw [hw] at h
        cases k with
        | none =>
            cases h
            exact ⟨hcounted₁, by omega⟩
        | some k =>
            simp only at h
            split at h
            · cases h
              exact ⟨hcounted₁, by omega⟩
            · split at h
              · cases h
              · obtain ⟨h1, h2⟩ := ih hcounted₁ hk₁ h
                exact ⟨h1, by omega⟩

/-- A write of no bytes fails. -/
theorem Ready.write_nil (h : Ready o) :
    ∃ o', o.write [] = some (o', none) := by
  have happ : o.container.append false [] = some (o.container, none) := by
    simp [BChunks.append]
  refine ⟨⟨o.container, { o.writeStatus with
    succeed := false, finish := false, writeError := -1 }⟩, ?_⟩
  unfold write
  rw [happ]
  simp only [Option.elim_none, WriteStatus.add, h.succeed, h.finish]
  rfl

theorem Ready.stores (h : Ready o) {buf : List UInt8} (hbuf : buf ≠ [])
    (hlt : o.bytes.length + buf.length < 2 ^ 64) : o.container.Stores buf := by
  have hsize : o.container.size = o.bytes.length := h.counted.size_eq
  have hmax := h.unbounded
  exact ⟨hbuf, by omega, by omega, Or.inl h.inMemory⟩

/-- A write that there are chunks for is taken whole. -/
theorem Ready.write_room (h : Ready o) {buf : List UInt8} (hbuf : buf ≠ [])
    (hlen : buf.length < 2 ^ 63) (hlt : o.bytes.length + buf.length < 2 ^ 64)
    (hroom : o.container.HasChunks buf.length) :
    ∃ o', o.write buf = some (o', some buf.length) ∧ Ready o' ∧ o'.bytes = o.bytes ++ buf ∧
      o'.chunks = o.chunks + o.container.chunksFor buf.length ∧
      SameLimits o'.container o.container := by
  have hpos := List.length_pos_iff.mpr hbuf
  have hwritten := h.bytesWritten
  obtain ⟨c, happ, hcount, hbytes, hsame, hchunks, -⟩ :=
    append_fits h.counted (h.stores hbuf hlt) h.chunkSize hroom false
  have hadd := WriteStatus.add_of_pos h.succeed h.finish hpos hlen (by omega)
  have hw : o.write buf = some (⟨c, { o.writeStatus with
      bytesWritten := o.writeStatus.bytesWritten + buf.length }⟩, some buf.length) := by
    unfold write
    simp only [happ, Option.elim_some, hadd]
  refine ⟨_, hw, ⟨hcount, by rw [hsame.maxChunkSize]; exact h.chunkSize, ?_,
    hsame.inMemory.trans h.inMemory,
    hsame.maxSize.trans h.unbounded, h.succeed, h.finish, ?_⟩, hbytes, hchunks, hsame⟩
  · rw [chunks, hchunks, hsame.maxChunks]
    exact hroom
  · rw [bytes, hbytes, List.length_append]
    exact Nat.add_le_add_right hwritten _

/-- The chunks that pieces of data need. -/
def chunksForAll (o : StreamableChunks) (ds : List (List UInt8)) : ℕ :=
  (ds.map (fun d => o.container.chunksFor d.length)).sum

theorem chunksForAll_cons (o : StreamableChunks) (d : List UInt8) (ds : List (List UInt8)) :
    o.chunksForAll (d :: ds) = o.container.chunksFor d.length + o.chunksForAll ds :=
  List.sum_cons

/-- A destination without chunks enough for a piece takes less than it is given, and goes on. -/
theorem Ready.copyLoop_short (h : Ready o) {d : List UInt8} (hd : d ≠ []) {ds : List (List UInt8)}
    (hlt : o.bytes.length + d.length < 2 ^ 64) (hroom : ¬ o.container.HasChunks d.length) {n : ℕ}
    {r : Option ℕ} (hcopy : o.copyLoop (d :: ds) n = some (o', r)) :
    o'.bytes.length < o.bytes.length + (d :: ds).flatten.length := by
  obtain ⟨c, m, happ, hm, -⟩ := append_short (h.stores hd hlt) h.chunkSize h.chunks_le hroom false
  rw [List.flatten_cons, List.length_append]
  unfold copyLoop at hcopy
  rcases hw : o.write d with _ | ⟨o₁, k⟩
  · rw [hw] at hcopy
    cases hcopy
  · obtain ⟨hcounted₁, hk₁⟩ := counted_write h.counted h.chunkSize hw
    have hk := append_of_write hw
    rw [happ] at hk
    obtain rfl : m = k := (Prod.mk.inj (Option.some.inj hk)).2
    have hstored := congrArg List.length (bytes_write hw)
    rw [List.length_append, List.length_take, Option.getD_some] at hstored
    rw [hw] at hcopy
    simp only at hcopy
    split at hcopy
    · cases hcopy
      omega
    · split at hcopy
      · cases hcopy
      · have hle := (copyLoop_le hcounted₁ hk₁ hcopy).2
        omega

/-- **Copying pieces.**  A destination takes them all exactly if none is empty and there are chunks
for all of them. -/
theorem Ready.copyLoop_iff (h : Ready o) {ds : List (List UInt8)}
    (hds : ∀ d ∈ ds, d.length < 2 ^ 63)
    {n : ℕ} (hn : n ≤ o.bytes.length) (hlt : o.bytes.length + ds.flatten.length < 2 ^ 64) :
    (∃ o', o.copyLoop ds n = some (o', some (n + ds.flatten.length)) ∧
        o'.bytes = o.bytes ++ ds.flatten ∧ o'.writeStatus.succeed = true) ↔
      (∀ d ∈ ds, d ≠ []) ∧ o.chunks + o.chunksForAll ds ≤ o.container.maxChunks := by
  induction ds generalizing o n with
  | nil =>
      refine iff_of_true ⟨o, rfl, by simp, h.succeed⟩ ⟨by simp, ?_⟩
      exact h.chunks_le
  | cons d ds ih =>
      rw [List.flatten_cons, List.length_append] at hlt ⊢
      rw [List.forall_mem_cons, chunksForAll_cons]
      by_cases hd : d = []
      · -- an empty piece is refused
        obtain ⟨o₁, hw⟩ := h.write_nil
        unfold copyLoop
        rw [hd, hw]
        refine iff_of_false ?_ (fun hall => hall.1.1 rfl)
        rintro ⟨o', hcopy, -⟩
        cases hcopy
      · have hpos := List.length_pos_iff.mpr hd
        have hlen := hds d (List.mem_cons_self ..)
        by_cases hroom : o.container.HasChunks d.length
        · obtain ⟨o₁, hw, hready, hbytes, hchunks, hsame⟩ :=
            h.write_room hd hlen (by omega) hroom
          have hlen₁ : o₁.bytes.length = o.bytes.length + d.length := by
            rw [hbytes, List.length_append]
          have hneeds : o₁.chunksForAll ds = o.chunksForAll ds := by
            simp only [chunksForAll, chunksFor, hsame.maxChunkSize]
          have hih := ih hready (fun e he => hds e (List.mem_cons_of_mem _ he))
            (n := d.length + n) (by omega) (by omega)
          rw [hneeds, hchunks, hsame.maxChunks, hbytes, List.append_assoc] at hih
          unfold copyLoop
          simp only [hw, hready.succeed, Bool.true_eq_false, if_false]
          rw [if_neg (by omega), show n + (d.length + ds.flatten.length) =
            d.length + n + ds.flatten.length by omega, hih, Nat.add_assoc]
          simp [hd]
        · refine iff_of_false ?_ (fun hall => hroom ?_)
          · rintro ⟨o', hcopy, hbytes, -⟩
            have hshort := h.copyLoop_short hd (by omega) hroom hcopy
            rw [hbytes, List.flatten_cons, List.length_append, List.length_append] at hshort
            omega
          · have hle := hall.2
            have hchunks : o.chunks = o.container.chunksVector.length := rfl
            rw [HasChunks]
            omega

/-- For pieces that are not empty it is enough that all the bytes arrive. -/
theorem Ready.copyLoop_bytes_iff (h : Ready o) {ds : List (List UInt8)}
    (hds : ∀ d ∈ ds, d ≠ [] ∧ d.length < 2 ^ 63)
    {n : ℕ} (hn : n ≤ o.bytes.length) (hlt : o.bytes.length + ds.flatten.length < 2 ^ 64) :
    (∃ o' r, o.copyLoop ds n = some (o', r) ∧ o'.bytes = o.bytes ++ ds.flatten) ↔
      o.chunks + o.chunksForAll ds ≤ o.container.maxChunks := by
  constructor
  · rintro ⟨o', r, hcopy, hbytes⟩
    induction ds generalizing o n with
    | nil => exact h.chunks_le
    | cons d ds ih =>
        obtain ⟨⟨hd, hlen⟩, hrest⟩ := List.forall_mem_cons.mp hds
        have hpos := List.length_pos_iff.mpr hd
        have hall := hlt
        rw [List.flatten_cons, List.length_append] at hlt
        by_cases hroom : o.container.HasChunks d.length
        · obtain ⟨o₁, hw, hready, hbytes₁, hchunks, hsame⟩ :=
            h.write_room hd hlen (by omega) hroom
          have hlen₁ : o₁.bytes.length = o.bytes.length + d.length := by
            rw [hbytes₁, List.length_append]
          have hneeds : o₁.chunksForAll ds = o.chunksForAll ds := by
            simp only [chunksForAll, chunksFor, hsame.maxChunkSize]
          unfold copyLoop at hcopy
          simp only [hw, hready.succeed, Bool.true_eq_false, if_false] at hcopy
          rw [if_neg (by omega)] at hcopy
          have hih := ih hready hrest (by omega) (by omega) hcopy (by
            rw [hbytes, hbytes₁, List.flatten_cons, List.append_assoc])
          rw [hneeds, hchunks, hsame.maxChunks] at hih
          rw [chunksForAll_cons]
          omega
        · have hshort := h.copyLoop_short hd (by omega) hroom hcopy
          rw [hbytes, List.length_append] at hshort
          omega
  · intro hroom
    obtain ⟨o', hcopy, hbytes, -⟩ := (h.copyLoop_iff (fun d hd => (hds d hd).2) hn hlt).mpr
      ⟨fun d hd => (hds d hd).1, hroom⟩
    exact ⟨o', _, hcopy, hbytes⟩

theorem append2Loop_count_le (fuel : ℕ) (c : BChunks) (buf : List UInt8) (n : ℕ) :
    (append2Loop false fuel c buf n).2 ≤ n + buf.length := by
  induction fuel generalizing c buf n with
  | zero => exact Nat.le_add_right _ _
  | succ fuel ih =>
      unfold append2Loop
      split
      · exact Nat.le_add_right _ _
      · split
        · exact Nat.le_add_right _ _
        · have hle := ih (c.putChunk false (buf.take c.maxChunkSize)) (buf.drop c.maxChunkSize)
            (n + (buf.take c.maxChunkSize).length)
          rwa [Nat.add_assoc, ← List.length_append, List.take_append_drop] at hle

/-- A write does not count more than it was given. -/
theorem write_le {buf : List UInt8} {m : ℕ} (h : o.write buf = some (o', some m)) :
    m ≤ buf.length := by
  have happ := append_of_write h
  unfold append append2 at happ
  split_ifs at happ <;> simp only [Option.some.injEq, Prod.mk.injEq, reduceCtorEq, and_false]
    at happ
  have hle := append2Loop_count_le (o.container.maxChunks + 1) o.container buf 0
  omega

/-- Nor does a copy. -/
theorem copyLoop_count_le {ds : List (List UInt8)} {n m : ℕ}
    (h : o.copyLoop ds n = some (o', some m)) : m ≤ n + ds.flatten.length := by
  induction ds generalizing o n with
  | nil =>
      cases h
      exact Nat.le_add_right _ _
  | cons d ds ih =>
      rw [List.flatten_cons, List.length_append]
      unfold copyLoop at h
      rcases hw : o.write d with _ | ⟨o₁, k⟩
      · rw [hw] at h
        cases h
      · rw [hw] at h
        cases k with
        | none => cases h
        | some k =>
            have hle := write_le hw
            simp only at h
            split at h
            · cases h
            · split at h
              · cases h
              · have := ih h
                omega

/-- A new container with some limits on its chunks, and none on its size. -/
def fresh (maxChunkSize maxChunks : ℕ) : StreamableChunks where
  container := { maxChunkSize := maxChunkSize, maxChunks := maxChunks }

theorem ready_fresh {maxChunkSize : ℕ} (hk : 0 < maxChunkSize) (maxChunks : ℕ) :
    Ready (fresh maxChunkSize maxChunks) where
  counted := ⟨by simp [fresh], rfl, by simp [fresh]⟩
  chunkSize := hk
  chunks_le := Nat.zero_le _
  inMemory := rfl
  unbounded := rfl
  succeed := rfl
  finish := rfl
  bytesWritten := Nat.zero_le _

end StreamableChunks

/-! ## The slice -/

namespace BChunks

open StreamableChunks

/-- The requests that are served.  The end of the slice does not overflow, unless all there is was
asked for; and a slice that is not empty lies in the content, is whole, and finds chunks enough in
the destination. -/
def Transfers (c : BChunks) (bytes offset maxChunkSize maxChunks : ℕ) : Prop :=
  (bytes = 2 ^ 64 - 1 ∨ offset + bytes < 2 ^ 64) ∧
    (min bytes (c.size - offset) = 0 ∨
      offset + min bytes (c.size - offset) ≤ c.content.length ∧
        Whole c.chunksVector offset (min bytes (c.size - offset)) ∧
        chunksNeeded c.chunksVector offset (min bytes (c.size - offset)) maxChunkSize ≤ maxChunks)

variable {c : BChunks} {bytes offset maxChunkSize maxChunks : ℕ}

/-- What `appendTo` does with a request that starts inside the container. -/
theorem appendSlice_eq (hlt : c.size < 2 ^ 64) (hbytes : bytes < 2 ^ 64) (hoffset : offset ≤ c.size)
    (o : StreamableChunks) :
    c.appendSlice o bytes offset =
      if bytes ≠ 2 ^ 64 - 1 ∧ 2 ^ 64 ≤ offset + bytes then
        (o.writeStatus.add (-1)).map (fun s => ({ o with writeStatus := s }, none))
      else if min bytes (c.size - offset) = 0 then some (o, some 0)
      else
        o.copyLoop (slicePieces c.chunksVector offset (min bytes (c.size - offset))) 0 := by
  have hreq : (if bytes = 2 ^ 64 - 1 then c.size - offset else bytes) =
      if bytes = 2 ^ 64 - 1 then min bytes (c.size - offset) else bytes := by
    split <;> omega
  unfold appendSlice
  rw [if_neg (by omega), hreq]
  dsimp only
  by_cases hover : bytes ≠ 2 ^ 64 - 1 ∧ 2 ^ 64 ≤ offset + bytes
  · rw [if_pos hover, if_neg hover.1, if_pos ((checkUIntOverflowSum_iff _ _).mpr hover.2)]
  · have hcut : ∀ n, (n = bytes ∨ n = min bytes (c.size - offset)) →
        (if c.size < offset + n then c.size - offset else n) = min bytes (c.size - offset) := by
      intro n hn
      split <;> omega
    rw [if_neg hover, checkUIntOverflowSum_eq_false (by split <;> omega), if_neg Bool.false_ne_true,
      hcut _ (by split <;> simp)]
    unfold copySlice
    rw [if_neg (show ¬ c.size < offset by omega)]
    by_cases h0 : min bytes (c.size - offset) = 0
    · rw [if_pos h0, if_pos h0, ite_self]
    · rw [if_neg h0, if_neg h0, if_neg (show ¬ c.size < offset by omega),
        checkUIntOverflowSum_eq_false (by omega), if_neg Bool.false_ne_true,
        if_neg (show ¬ (if bytes = 2 ^ 64 - 1 then min bytes (c.size - offset) else bytes) = 0 by
          split <;> omega)]
      dsimp only
      rw [if_neg (by omega)]

theorem slicePieces_zero (cs : List BinaryContainerChunk) (n : ℕ) :
    slicePieces cs 0 n = copyChunks cs n := by
  induction cs generalizing n with
  | nil => rfl
  | cons b cs ih =>
      rw [slicePieces, if_neg (by omega), copyChunks, List.drop_zero]
      dsimp only
      rw [ih]

/-- **From the front on** it is `appendTo`. -/
theorem appendSlice_zero (hlt : c.size < 2 ^ 64) (hbytes : bytes < 2 ^ 64) (o : StreamableChunks) :
    c.appendSlice o bytes 0 = c.appendTo bytes o := by
  rw [appendSlice_eq hlt hbytes (Nat.zero_le _), if_neg (by omega), Nat.sub_zero, slicePieces_zero]
  rfl

/-- **When a slice is transferred.**  `appendTo` to a new container returns the number of bytes that
the slice has, leaves exactly the slice in the destination and its status successful, exactly if the
request is one that is served. -/
theorem appendSlice_iff (hlt : c.size < 2 ^ 64) (hchunks : ∀ b ∈ c.chunksVector, b.size < 2 ^ 63)
    (hbytes : bytes < 2 ^ 64) (hoffset : offset ≤ c.size) (hk : 0 < maxChunkSize) :
    (∃ o', c.appendSlice (fresh maxChunkSize maxChunks) bytes offset =
          some (o', some (min bytes (c.size - offset))) ∧
        o'.container.content = (c.content.drop offset).take (min bytes (c.size - offset)) ∧
        o'.writeStatus.succeed = true) ↔
      c.Transfers bytes offset maxChunkSize maxChunks := by
  have hready := ready_fresh hk maxChunks
  have hempty : (fresh maxChunkSize maxChunks).bytes = [] := rfl
  rw [appendSlice_eq hlt hbytes hoffset]
  unfold Transfers
  by_cases hover : bytes ≠ 2 ^ 64 - 1 ∧ 2 ^ 64 ≤ offset + bytes
  · rw [if_pos hover]
    refine iff_of_false ?_ (by omega)
    rintro ⟨o', happ, -⟩
    cases happ
  · rw [if_neg hover, and_iff_right (by omega)]
    by_cases h0 : min bytes (c.size - offset) = 0
    · rw [if_pos h0, h0]
      exact iff_of_true ⟨_, rfl, by rw [List.take_zero]; rfl, rfl⟩ (Or.inl rfl)
    · rw [if_neg h0, or_iff_right h0]
      have hend : offset + min bytes (c.size - offset) ≤ c.size := by omega
      generalize min bytes (c.size - offset) = n at h0 hend ⊢
      have hflat : (slicePieces c.chunksVector offset n).flatten =
          (c.content.drop offset).take n := by
        rw [flatten_slicePieces, slice_content c hend]
        rfl
      have hshown : ∀ {o' : StreamableChunks} {r : Option ℕ},
          (fresh maxChunkSize maxChunks).copyLoop (slicePieces c.chunksVector offset n) 0 =
            some (o', r) → o'.container.content = o'.bytes := by
        intro o' r hcopy
        exact content_eq_bytes (copyLoop_le hready.counted hk hcopy).1.size_eq
      have hlen : ((c.content.drop offset).take n).length =
          min n (c.content.length - offset) := by
        rw [List.length_take, List.length_drop]
      by_cases hin : offset + n ≤ c.content.length
      · have hcount : (slicePieces c.chunksVector offset n).flatten.length = n := by
          rw [hflat, hlen]
          omega
        have hpieces := @length_slicePieces_lt _ offset n _ hchunks
        have hall := hready.copyLoop_iff hpieces (Nat.zero_le _) (by
          rw [hempty, hcount, List.length_nil]
          omega)
        have hsizes : offset + n ≤ sizes c.chunksVector := by
          rw [length_content] at hin
          omega
        have hneeds : (fresh maxChunkSize maxChunks).chunks +
            (fresh maxChunkSize maxChunks).chunksForAll (slicePieces c.chunksVector offset n) =
              chunksNeeded c.chunksVector offset n maxChunkSize := by
          rw [← chunksNeeded_slicePieces _ _ _ hk]
          exact Nat.zero_add _
        rw [hcount, Nat.zero_add, hempty, List.nil_append, hflat,
          slicePieces_ne_nil_iff (by omega) hsizes, hneeds] at hall
        rw [and_iff_right hin]
        refine Iff.trans ⟨?_, ?_⟩ hall
        · rintro ⟨o', hcopy, hcontent, hsucceed⟩
          exact ⟨o', hcopy, by rw [← hshown hcopy, hcontent], hsucceed⟩
        · rintro ⟨o', hcopy, hcontent, hsucceed⟩
          exact ⟨o', hcopy, by rw [hshown hcopy, hcontent], hsucceed⟩
      · -- there are not as many bytes as the size says
        refine iff_of_false ?_ (fun hall => hin hall.1)
        rintro ⟨o', hcopy, -⟩
        have hle := copyLoop_count_le hcopy
        rw [hflat, hlen] at hle
        omega

/-- A slice that starts inside a chunk is transferred, one that starts where a chunk ends is not. -/
theorem appendSlice_iff_border :
    let c : BChunks := { chunksVector := [⟨[1, 2], 0⟩, ⟨[3], 2⟩], containerBytes := 3 }
    c.Transfers 2 1 4 4 ∧ ¬ c.Transfers 1 2 4 4 := by
  intro c
  have hserved : ∀ bytes offset, bytes < 2 ^ 64 → offset ≤ c.size →
      (_ ↔ c.Transfers bytes offset 4 4) := fun bytes offset hbytes hoffset =>
    appendSlice_iff (by decide) (by decide) hbytes hoffset (by decide)
  refine ⟨(hserved 2 1 (by decide) (by decide)).mp ?_, fun hno => ?_⟩
  · exact ⟨⟨.mk [⟨[2], 0⟩, ⟨[3], 1⟩] 2 (2 ^ 64 - 1) 4 4 0, { bytesWritten := 2 }⟩, by decide,
      by decide, by decide⟩
  · obtain ⟨o', happ, -⟩ := (hserved 1 2 (by decide) (by decide)).mpr hno
    have hnone : (c.appendSlice (fresh 4 4) 1 2).map (·.2) = some none := by decide
    rw [happ] at hnone
    cases hnone

/-- The last byte of a container of two chunks is not transferred: the first piece is what is left
of the first chunk, and that is nothing. -/
theorem not_appendSlice :
    let c : BChunks := { chunksVector := [⟨[1, 2], 0⟩, ⟨[3], 2⟩], containerBytes := 3 }
    let refused : StreamableChunks :=
      { writeStatus := { succeed := false, writeError := -1 } }
    c.PrefixSums ∧ c.appendSlice {} 1 2 = some (refused, none) ∧
      ¬ ∃ o', c.appendSlice {} 1 2 = some (o', some (min 1 (c.size - 2))) := by
  intro c refused
  have happ : c.appendSlice {} 1 2 = some (refused, none) := by decide
  refine ⟨⟨by decide, by decide, by decide⟩, happ, ?_⟩
  rintro ⟨o', h⟩
  rw [happ] at h
  cases h

end BChunks

end Mantids
