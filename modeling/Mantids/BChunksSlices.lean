/-
# The content of a chunked container, slice by slice

What a container shows of the bytes of its chunks is as many of them as its size says: its
content.  When the offsets of the chunks are the prefix sums of their sizes, the operations mean
what they are called.

* `BBase.copyOut_congr`, `BBase.toString_eq` — the checked copies of any container are what the
  copies under them are;
* `displace_truncate_slices` — `displace` and `truncate` cut the content;
* `copyReads` — the stretches of chunk data that `copyToBuffer2` copies, one after the other;
* `copies_are_slices` — `copyOut` and `toString` deliver slices of the content, and no stretch
  leaves its chunk.

Chunks without bytes do no harm here: the search by offset steps over them.
-/
import Mantids.BMmap

namespace Mantids

/-! ## Copies that are checked -/

namespace BBase

open BChunks

variable {w : List UInt8}

/-- Two containers that copy the same where a request is in range copy the same altogether. -/
theorem copyOut_congr {size : ℕ} {copy copy' : ℕ → ℕ → Option (List UInt8)}
    (hcopy : ∀ n o, 0 < n → o + n ≤ size → copy n o = copy' n o) :
    copyOut size copy = copyOut size copy' := by
  funext bytes offset
  unfold copyOut
  by_cases hbeyond : bytes = 2 ^ 64 - 1 ∧ size < offset
  · rw [if_pos hbeyond, if_pos hbeyond]
  · rw [if_neg hbeyond, if_neg hbeyond]
    generalize (if bytes = 2 ^ 64 - 1 then size - offset else bytes) = n
    dsimp only
    split
    · rfl
    · split
      · rfl
      · split
        · rfl
        · exact hcopy n offset (by omega) (by omega)

/-- The loop of `toString` puts a slice together, block by block. -/
theorem toStringLoop_eq {copyOut : ℕ → ℕ → Option (List UInt8)}
    (hcopy : ∀ n o, 0 < n → n ≤ 8192 → o + n ≤ w.length →
      copyOut n o = some ((w.drop o).take n))
    {fuel : ℕ} (r : List UInt8) {bytes offset : ℕ} (hin : offset + bytes ≤ w.length)
    (hfuel : bytes < fuel) :
    toStringLoop copyOut fuel r bytes offset = r ++ (w.drop offset).take bytes := by
  induction fuel generalizing r bytes offset with
  | zero => omega
  | succ fuel ih =>
      unfold toStringLoop
      by_cases h0 : bytes = 0
      · rw [if_pos h0, h0, List.take_zero, List.append_nil]
      · have hblock := hcopy (min bytes 8192) offset (by omega) (by omega) (by omega)
        rw [if_neg h0]
        simp only [hblock]
        rw [ih _ (by omega) (by omega), List.append_assoc, ← List.drop_drop]
        congr 1
        have hsplit : bytes = min bytes 8192 + (bytes - min bytes 8192) := by omega
        conv_rhs => rw [hsplit, List.take_add]

/-- `toString` delivers slices where `copyOut` delivers the blocks. -/
theorem toString_eq (hlt : w.length < 2 ^ 64) {copyOut : ℕ → ℕ → Option (List UInt8)}
    (hcopy : ∀ n o, 0 < n → n ≤ 8192 → o + n ≤ w.length →
      copyOut n o = some ((w.drop o).take n))
    {bytes offset : ℕ} (hoffset : offset < 2 ^ 64) :
    BBase.toString w.length copyOut bytes offset =
      if Exceeds w.length bytes offset then none
      else some ((w.drop offset).take (requested w.length bytes offset)) := by
  refine (checkedRequest_eq hlt hoffset
    (fun n => some (toStringLoop copyOut (n + 1) [] n offset))).trans ?_
  split
  · rfl
  · rename_i hex
    split
    · rename_i h0
      rw [h0, List.take_zero]
    · rename_i h0
      rw [toStringLoop_eq hcopy [] (add_requested_le hex (by omega)) (Nat.lt_succ_self _),
        List.nil_append]

end BBase

namespace BChunks

variable {c : BChunks}

/-! ## Cutting -/

/-- The loop of `displace2` takes the bytes from the front, chunk by chunk. -/
theorem displace2Loop_eq (cs : List BinaryContainerChunk) {cb n : ℕ} (d : ℕ) (hn : n ≤ sizes cs)
    (hcb : n ≤ cb) (hlt : cb < 2 ^ 64) :
    (displace2Loop cs cb n d).1.flatMap (·.data) = (cs.flatMap (·.data)).drop n ∧
      (displace2Loop cs cb n d).2 = (cb - n, d + n) := by
  induction cs generalizing cb n d with
  | nil =>
      obtain rfl : n = 0 := by simpa using hn
      simp [displace2Loop]
  | cons b cs ih =>
      cases n with
      | zero => simp [displace2Loop]
      | succ n =>
          rw [sizes_cons] at hn
          unfold displace2Loop
          split
          · -- the whole chunk leaves
            rename_i hle
            have hsub : subSizeT cb b.size = cb - b.size := subSizeT_of_le (by omega) hlt
            obtain ⟨hbytes, hcount⟩ := @ih (subSizeT cb b.size) (n + 1 - b.size) (d + b.size)
              (by omega) (by omega) (by omega)
            refine ⟨?_, ?_⟩
            · rw [hbytes, List.flatMap_cons, List.drop_append, List.drop_eq_nil_of_le hle,
                List.nil_append]
              rfl
            · rw [hcount, hsub, Prod.mk.injEq]
              omega
          · rename_i hgt
            have hin : n + 1 ≤ b.data.length := by
              have hsize : b.size = b.data.length := rfl
              omega
            refine ⟨?_, ?_⟩
            · rw [List.flatMap_cons, List.flatMap_cons, List.drop_append_of_le_length hin]
              rfl
            · rw [subSizeT_of_le hcb hlt]

/-- `displace` cuts the content, whatever the offsets of the chunks are. -/
theorem displace_slice (hle : c.size ≤ sizes c.chunksVector) (hlt : c.size < 2 ^ 64) (n : ℕ) :
    (c.displace n).2 = some (min n c.size) ∧
      (c.displace n).1.content = c.content.drop (min n c.size) ∧
      (c.displace n).1.size = c.size - min n c.size := by
  obtain ⟨hbytes, hcount⟩ := displace2Loop_eq c.chunksVector 0
    (show min n c.size ≤ sizes c.chunksVector by omega)
    (show min n c.size ≤ c.size from Nat.min_le_right _ _) hlt
  have hsize : (c.displace n).1.size = c.size - min n c.size := by
    rw [displace, displace2, size, containerBytes_recalcChunkOffsets]
    exact congrArg Prod.fst hcount
  have hleft : (c.displace n).1.bytes = c.bytes.drop (min n c.size) := by
    rw [displace, displace2, bytes_recalcChunkOffsets]
    exact hbytes
  refine ⟨?_, ?_, hsize⟩
  · rw [← Nat.zero_add (min n c.size)]
    exact congrArg (fun r => some r.2) hcount
  · rw [content, hsize, hleft, content, List.drop_take]

/-- What is left of the chunks in front of a position, the last of them cut there, holds the bytes
in front of it. -/
theorem truncate2_eq (ha : Aligned 0 c.chunksVector) (hlt : sizes c.chunksVector < 2 ^ 64) {n : ℕ}
    (hn : n < sizes c.chunksVector) :
    ∃ kept, c.truncate2 n = ({ c with chunksVector := kept, containerBytes := n }, some n) ∧
      kept.flatMap (·.data) = c.bytes.take n := by
  obtain ⟨ival, hpos, hi, hlo, hhi⟩ := chunkGetPosForOffset_holds ha hlt hn
  obtain ⟨b, hb, -, hbytes⟩ := bytes_split hi
  have hoff := ha.offset hb
  have hend := sizes_take_le c.chunksVector (ival + 1)
  rw [sizes_take_succ hb] at hhi hend
  have hfront := length_flatMap_data (c.chunksVector.take ival)
  have hsize : b.size = b.data.length := rfl
  have htake : c.bytes.take n = (c.chunksVector.take ival).flatMap (·.data) ++
      b.data.take (n - b.offset) := by
    rw [hbytes, List.take_append, hfront, List.take_of_length_le (by omega), hoff,
      List.take_append_of_le_length (by omega)]
  rw [htake]
  by_cases hborder : b.offset = n
  · -- the chunk that starts at the new end goes as well
    refine ⟨c.chunksVector.take ival, ?_, ?_⟩
    · rw [truncate2, hpos]
      simp only [hb, if_pos hborder]
    · rw [hborder, Nat.sub_self, List.take_zero, List.append_nil]
  · have hcut : b.truncate n = { b with data := b.data.take (n - b.offset) } := by
      rw [BinaryContainerChunk.truncate, Nat.mod_eq_of_lt (by omega), if_neg (by omega),
        if_neg (by omega)]
    refine ⟨c.chunksVector.take ival ++ [b.truncate n], ?_, ?_⟩
    · rw [truncate2, hpos]
      simp only [hb, if_neg hborder]
    · rw [hcut, List.flatMap_append, List.flatMap_singleton]

/-- **Cutting the content.**  With right offsets, `displace` removes the bytes asked for from the
front, or all there are, and `truncate` keeps the bytes asked for, if there are more; whether a cut
lies within a chunk or between two. -/
theorem displace_truncate_slices (h : c.PrefixSums) (n : ℕ) :
    ((c.displace n).2 = some (min n c.size) ∧
      (c.displace n).1.content = c.content.drop (min n c.size) ∧
      (c.displace n).1.size = c.size - min n c.size) ∧
    (c.size ≤ n → c.truncate n = (c, none)) ∧
    (n < c.size → (c.truncate n).2 = some n ∧ (c.truncate n).1.content = c.content.take n ∧
      (c.truncate n).1.size = n) := by
  have hle := h.size_le
  refine ⟨displace_slice hle h.size_lt n, fun hn => if_pos hn, fun hn => ?_⟩
  obtain ⟨kept, htrunc, hkept⟩ := truncate2_eq h.aligned h.fits (show n < sizes c.chunksVector by
    omega)
  have hall : c.truncate n = ({ c with chunksVector := kept, containerBytes := n }, some n) := by
    rw [truncate, if_neg (by omega), htrunc]
  rw [hall]
  refine ⟨rfl, ?_, rfl⟩
  show (kept.flatMap (·.data)).take n = _
  rw [hkept, content, List.take_take, List.take_take, Nat.min_self, Nat.min_eq_left hn.le]

/-- A cut inside the first of two chunks, and the removal of that chunk. -/
theorem displace_truncate_slices_two :
    let c : BChunks := { chunksVector := [⟨[1, 2], 0⟩, ⟨[3], 2⟩], containerBytes := 3 }
    c.PrefixSums ∧ (c.displace 2).1.content = [3] ∧ (c.truncate 1).1.content = [1] := by
  intro c
  have h : c.PrefixSums := ⟨by decide, by decide, by decide⟩
  have hcut := displace_truncate_slices h
  exact ⟨h, (hcut 2).1.2.1, ((hcut 1).2.2 (by decide)).2.1⟩

/-! ## Copying -/

/-- A stretch of a chunk that one `memcpy` takes. -/
structure ChunkRead where
  chunk : ℕ
  start : ℕ
  count : ℕ
deriving DecidableEq

/-- The stretch lies in the data of its chunk. -/
def ChunkRead.Inside (r : ChunkRead) (c : BChunks) : Prop :=
  ∃ b, c.chunksVector[r.chunk]? = some b ∧ r.start + r.count ≤ b.size

def ChunkRead.data (r : ChunkRead) (c : BChunks) : List UInt8 :=
  (c.chunksVector[r.chunk]?).elim [] (fun b => (b.data.drop r.start).take r.count)

/-- What the loop of `copyToBuffer2` takes, from the current chunk on; `start` is the distance that
`moveToOffset` moved the data of that chunk. -/
def copyReadsLoop : List BinaryContainerChunk → ℕ → ℕ → ℕ → List ChunkRead
  | [], _, _, _ => []
  | currentChunk :: rest, icurrentChunk, start, bytes =>
    let size := subSizeT currentChunk.size start
    if size < bytes then
      ⟨icurrentChunk, start, size⟩ :: copyReadsLoop rest (icurrentChunk + 1) 0 (bytes - size)
    else [⟨icurrentChunk, start, bytes⟩]

/-- The stretches that `copyToBuffer2` takes. -/
def copyReads (c : BChunks) (bytes offset : ℕ) : List ChunkRead :=
  if checkUIntOverflowSum offset bytes then []
  else if bytes = 0 then []
  else if c.size < offset + bytes then []
  else
    match c.chunkGetPosForOffset offset with
    | none => []
    | some icurrentChunk =>
      match c.chunksVector.drop icurrentChunk with
      | [] => []
      | current :: rest =>
        copyReadsLoop (current :: rest) icurrentChunk (subSizeT offset current.offset) bytes

/-- `toString`, whose blocks come from `copyOut`. -/
def toString (c : BChunks) (bytes offset : ℕ) : Option (List UInt8) :=
  BBase.toString c.size c.copyOut bytes offset

/-- From a position inside the current chunk on, every stretch lies in its chunk, and the stretches
are what the loop copies. -/
theorem copyReadsLoop_inside {cs : List BinaryContainerChunk} {i start bytes : ℕ}
    (hcs : c.chunksVector.drop i = cs) (hlt : sizes cs < 2 ^ 64)
    (hstart : ∀ b ∈ cs.head?, start ≤ b.size) :
    (∀ r ∈ copyReadsLoop cs i start bytes, r.Inside c) ∧
      (copyReadsLoop cs i start bytes).flatMap (·.data c) =
        ((cs.flatMap (·.data)).drop start).take bytes := by
  induction cs generalizing i start bytes with
  | nil => simp [copyReadsLoop]
  | cons b cs ih =>
      rw [sizes_cons] at hlt
      have hle : start ≤ b.size := hstart b (by simp)
      have hb : c.chunksVector[i]? = some b := by
        rw [← Nat.add_zero i, ← List.getElem?_drop, hcs]
        rfl
      have hrest : c.chunksVector.drop (i + 1) = cs := by
        rw [← List.drop_drop, hcs]
        rfl
      have hsize : subSizeT b.size start = b.data.length - start := subSizeT_of_le hle (by omega)
      have hlen : b.size = b.data.length := rfl
      have hdata : ∀ n, ChunkRead.data ⟨i, start, n⟩ c = (b.data.drop start).take n := by
        intro n
        rw [ChunkRead.data, hb]
        rfl
      unfold copyReadsLoop
      rw [hsize, List.flatMap_cons, List.drop_append_of_le_length (by omega), List.take_append,
        List.length_drop]
      dsimp only
      split
      · -- the rest of this chunk, and then the next ones
        rename_i hmore
        obtain ⟨hin, hall⟩ := @ih (i + 1) 0 (bytes - (b.data.length - start)) hrest (by omega)
          (fun _ _ => Nat.zero_le _)
        refine ⟨?_, ?_⟩
        · intro r hr
          rcases List.mem_cons.mp hr with rfl | hr
          · exact ⟨b, hb, by rw [hlen]; simp only; omega⟩
          · exact hin r hr
        · have hwhole : ∀ n, b.data.length - start ≤ n →
              (b.data.drop start).take n = b.data.drop start := by
            intro n hn
            rw [List.take_of_length_le (by rwa [List.length_drop])]
          rw [List.flatMap_cons, hall, hdata, List.drop_zero, hwhole _ le_rfl, hwhole _ hmore.le]
      · rename_i hend
        refine ⟨?_, ?_⟩
        · intro r hr
          obtain rfl := List.mem_singleton.mp hr
          exact ⟨b, hb, by rw [hlen]; simp only; omega⟩
        · rw [List.flatMap_singleton, hdata, Nat.sub_eq_zero_of_le (by omega), List.take_zero,
            List.append_nil]

/-- A request within the container takes its bytes from inside the chunks, one stretch after the
other. -/
theorem PrefixSums.copyReads (h : c.PrefixSums) {bytes offset : ℕ} (hpos : 0 < bytes)
    (hin : offset + bytes ≤ c.size) :
    (∀ r ∈ c.copyReads bytes offset, r.Inside c) ∧
      (c.copyReads bytes offset).flatMap (·.data c) = (c.content.drop offset).take bytes := by
  have hlt := h.size_lt
  have hle := h.size_le
  obtain ⟨ival, hfound, hh⟩ := chunkGetPosForOffset_holds h.aligned h.fits
    (show offset < sizes c.chunksVector by omega)
  obtain ⟨current, rest, hd, hb⟩ := h.aligned.drop_bytes hh
  obtain ⟨-, hlo, hhi⟩ := hh
  have hcurrent : c.chunksVector[ival]? = some current := by
    rw [← Nat.add_zero ival, ← List.getElem?_drop, hd]
    rfl
  have hoff := h.aligned.offset hcurrent
  rw [sizes_take_succ hcurrent] at hhi
  have hstart : subSizeT offset current.offset = offset - current.offset :=
    subSizeT_of_le (by omega) (by omega)
  have hrest : sizes (current :: rest) ≤ sizes c.chunksVector := by
    rw [← hd, ← length_flatMap_data, ← length_flatMap_data]
    conv_rhs => rw [← List.take_append_drop ival c.chunksVector]
    rw [List.flatMap_append, List.length_append]
    exact Nat.le_add_left _ _
  have hstarts : ∀ b ∈ (current :: rest).head?, offset - current.offset ≤ b.size := by
    intro b hb
    obtain rfl : current = b := by simpa using hb
    omega
  obtain ⟨hinside, hall⟩ := @copyReadsLoop_inside c _ _ _ bytes hd (lt_of_le_of_lt hrest h.fits)
    hstarts
  have hreads : c.copyReads bytes offset =
      copyReadsLoop (current :: rest) ival (offset - current.offset) bytes := by
    unfold BChunks.copyReads
    rw [checkUIntOverflowSum_eq_false (by omega), if_neg (by simp), if_neg (by omega),
      if_neg (by omega)]
    simp only [hfound, hd, hstart]
  rw [hreads]
  refine ⟨hinside, ?_⟩
  have hmoved : offset - current.offset ≤ current.data.length := by
    have hlen : current.size = current.data.length := rfl
    omega
  rw [hall, slice_content c hin, ← hb, List.flatMap_cons, List.flatMap_cons,
    List.drop_append_of_le_length hmoved]
  rfl

/-- Nothing is taken from outside, whatever the request. -/
theorem PrefixSums.copyReads_inside (h : c.PrefixSums) (bytes offset : ℕ) :
    ∀ r ∈ c.copyReads bytes offset, r.Inside c := by
  by_cases hin : 0 < bytes ∧ offset + bytes ≤ c.size
  · exact (h.copyReads hin.1 hin.2).1
  · have hnone : c.copyReads bytes offset = [] := by
      unfold BChunks.copyReads
      split_ifs <;> first | rfl | omega
    rw [hnone]
    intro r hr
    cases hr

/-- **Copies are slices.**  `copyOut` and `toString` deliver the slice of the content that the
request names, or refuse a request that reaches beyond the end or overflows; and the blocks they
read, whatever the request, come from inside the chunks. -/
theorem copies_are_slices (h : c.PrefixSums) (bytes : ℕ) {offset : ℕ} (hoffset : offset < 2 ^ 64) :
    c.copyOut bytes offset =
        (if Exceeds c.size bytes offset then none
          else some ((c.content.drop offset).take (requested c.size bytes offset))) ∧
      c.toString bytes offset =
        (if Exceeds c.size bytes offset then none
          else some ((c.content.drop offset).take (requested c.size bytes offset))) ∧
      ∀ block start, (∀ r ∈ c.copyReads block start, r.Inside c) ∧
        ∀ data, c.copyToBuffer2 block start = some data →
          data = (c.copyReads block start).flatMap (·.data c) := by
  refine ⟨h.copyOut bytes hoffset, ?_, fun block start => ⟨h.copyReads_inside block start, ?_⟩⟩
  · have hlt := h.size_lt
    rw [toString, ← h.size_eq]
    refine BBase.toString_eq (by rw [h.size_eq]; exact hlt) (fun n o hpos hn hin => ?_) hoffset
    rw [h.size_eq] at hin
    have hreq : requested c.size n o = n := if_neg (by omega)
    have hex : ¬ Exceeds c.size n o := by
      unfold Exceeds
      rw [if_neg (by omega)]
      omega
    rw [h.copyOut n (by omega), if_neg hex, hreq]
  · intro data hdata
    by_cases hin : 0 < block ∧ start + block ≤ c.size
    · rw [(h.copyReads hin.1 hin.2).2]
      rw [h.copyToBuffer2 hin.1 hin.2] at hdata
      exact (Option.some.inj hdata).symm
    · have hreads : c.copyReads block start = [] := by
        unfold BChunks.copyReads
        split_ifs <;> first | rfl | omega
      rw [hreads]
      unfold BChunks.copyToBuffer2 at hdata
      split_ifs at hdata
      · exact (Option.some.inj hdata).symm
      · omega

/-- A read over the border of two chunks, and one beyond the end. -/
theorem copies_are_slices_two :
    let c : BChunks := { chunksVector := [⟨[1, 2], 0⟩, ⟨[3], 2⟩], containerBytes := 3 }
    c.PrefixSums ∧ c.toString 2 1 = some [2, 3] ∧ c.copyOut 3 1 = none := by
  intro c
  have h : c.PrefixSums := ⟨by decide, by decide, by decide⟩
  have hslice := copies_are_slices h
  exact ⟨h, (@hslice 2 1 (by decide)).2.1.trans (by decide),
    (@hslice 3 1 (by decide)).1.trans (by decide)⟩

end BChunks

end Mantids
