/-
# The chunked container as a stream

Every `StreamableObject` (`Memory/streamableobject.h`) counts what is written to it in a
`WriteStatus`, and adding to a status that has failed or finished throws.  A `B_Chunks` is
the usual target of a stream: `B_Base::write` appends and adds the count to the status.

* `WriteStatus.add` — `operator+=`;
* `StreamableChunks.write`, `writeFullStream`, `writeEOF` — the three ways to write;
* `BChunks.appendTo` — one container written to another, chunk by chunk;
* `StreamableChunks.Open` — a stream that takes everything as long as it has chunks left.

A container without chunks left answers `0`, which finishes the status; the next write to it
throws.
-/
import Mantids.BChunksRead

namespace Mantids

/-! ## The status of a stream -/

/-- `WriteStatus`. -/
structure WriteStatus where
  succeed : Bool := true
  finish : Bool := false
  bytesWritten : ℕ := 0
  writeError : ℤ := 0
deriving DecidableEq

/-- `operator+=` of a count; `none` if it throws. -/
def WriteStatus.add (s : WriteStatus) (x : ℤ) : Option WriteStatus :=
  if s.succeed = false ∨ s.finish = true then none
  else if 0 < x then
    -- `safeAdd`
    if 2 ^ 64 ≤ s.bytesWritten + x.toNat then none
    else some { s with bytesWritten := s.bytesWritten + x.toNat }
  else if x = 0 then some { s with succeed := true, finish := true }
  else some { s with succeed := false, finish := false, writeError := x }

/-- A `size_t` as the `ssize_t` that `operator+=` takes. -/
def toSsize (n : ℕ) : ℤ := if n < 2 ^ 63 then n else (n : ℤ) - 2 ^ 64

/-- A count is added to a status that has neither failed nor is finished. -/
theorem WriteStatus.add_of_pos {s : WriteStatus} (hsucceed : s.succeed = true)
    (hfinish : s.finish = false) {n : ℕ} (hpos : 0 < n) (hn : n < 2 ^ 63)
    (hlt : s.bytesWritten + n < 2 ^ 64) :
    s.add (toSsize n) = some { s with bytesWritten := s.bytesWritten + n } := by
  rw [toSsize, if_pos hn, WriteStatus.add, if_neg (by simp [hsucceed, hfinish]),
    if_pos (by exact_mod_cast hpos), Int.toNat_natCast, if_neg (by omega)]

/-! ## The stream -/

/-- A `B_Chunks` as a `StreamableObject`. -/
structure StreamableChunks where
  container : BChunks := {}
  writeStatus : WriteStatus := {}
deriving DecidableEq

namespace StreamableChunks

/-- `B_Base::write`; `none` if it throws.  No data counts as a failure.  The container is not
told to move to a file. -/
def write (o : StreamableChunks) (buf : List UInt8) : Option (StreamableChunks × Option ℕ) :=
  match o.container.append false buf with
  | none => none
  | some (c, bytesAppended) =>
    match o.writeStatus.add (bytesAppended.elim (-1) toSsize) with
    | none => none
    | some s => some (⟨c, s⟩, bytesAppended)

/-- The loop of `writeFullStream`.  A write that takes nothing finishes the status, so the
one after it throws. -/
def writeFullStreamLoop : ℕ → StreamableChunks → List UInt8 → Option (StreamableChunks × Bool)
  | 0, _, _ => none
  | fuel + 1, o, buf =>
    if buf = [] then some (o, true)
    else
      match o.write buf with
      | none => none
      | some (o, cur) =>
        if cur = none ∨ o.writeStatus.succeed = false then
          -- `succeed += -1` on a `bool`
          some ({ o with writeStatus :=
            { o.writeStatus with succeed := !o.writeStatus.succeed } }, false)
        else writeFullStreamLoop fuel o (buf.drop (cur.getD 0))

def writeFullStream (o : StreamableChunks) (buf : List UInt8) :
    Option (StreamableChunks × Bool) :=
  writeFullStreamLoop (buf.length + 2) o buf

/-- `writeEOF`: a failure is added to the flag as a number, which turns it over. -/
def writeEOF (o : StreamableChunks) : Option (StreamableChunks × Bool) :=
  match o.write [] with
  | none => none
  | some (o, some _) => some (o, true)
  | some (o, none) =>
    some ({ o with writeStatus := { o.writeStatus with succeed := !o.writeStatus.succeed } },
      false)

/-- The loop of `copyToStreamableObjectUsingCleanVector`, with a chunked container to write to;
`Destination.copyLoop` has any container, and is this one there (`Destination.copyLoop_chunks`). -/
def copyLoop : StreamableChunks → List (List UInt8) → ℕ → Option (StreamableChunks × Option ℕ)
  | o, [], dataCopied => some (o, some dataCopied)
  | o, d :: ds, dataCopied =>
    match o.write d with
    | none => none
    | some (o, none) => some (o, none)
    | some (o, some bytesWritten) =>
      if o.writeStatus.succeed = false then some (o, none)
      else if 2 ^ 64 ≤ bytesWritten + dataCopied then none
      else copyLoop o ds (bytesWritten + dataCopied)

end StreamableChunks

namespace BChunks

/-- The chunks that make up the first bytes of a container, the last one cut short. -/
def copyChunks : List BinaryContainerChunk → ℕ → List (List UInt8)
  | [], _ => []
  | b :: cs, dataToCopy =>
    let d := b.data.take dataToCopy
    if dataToCopy - d.length = 0 then [d] else d :: copyChunks cs (dataToCopy - d.length)

/-- `appendTo` of a reference to the first bytes of a container: `appendSlice` from the front on
(`appendSlice_zero`). -/
def appendTo (c : BChunks) (bytes : ℕ) (o : StreamableChunks) :
    Option (StreamableChunks × Option ℕ) :=
  let bytes := min bytes c.size
  if bytes = 0 then some (o, some 0) else o.copyLoop (copyChunks c.chunksVector bytes) 0

/-- What the loop of `append2` counts is what it stores. -/
theorem append2Loop_bytes (fuel : ℕ) (c : BChunks) (buf : List UInt8) (n : ℕ) :
    n ≤ (append2Loop false fuel c buf n).2 ∧
      (append2Loop false fuel c buf n).1.bytes =
        c.bytes ++ buf.take ((append2Loop false fuel c buf n).2 - n) := by
  induction fuel generalizing c buf n with
  | zero => simp [append2Loop]
  | succ fuel ih =>
      unfold append2Loop
      split
      · simp
      · split
        · simp
        · obtain ⟨hle, hbytes⟩ := ih (c.putChunk false (buf.take c.maxChunkSize))
            (buf.drop c.maxChunkSize) (n + (buf.take c.maxChunkSize).length)
          refine ⟨by omega, ?_⟩
          rw [hbytes, bytes_putChunk, List.append_assoc]
          congr 1
          generalize (append2Loop false fuel (c.putChunk false (buf.take c.maxChunkSize))
            (buf.drop c.maxChunkSize) (n + (buf.take c.maxChunkSize).length)).2 = m at hle
          rcases Nat.le_total c.maxChunkSize buf.length with hk | hk
          · rw [List.length_take_of_le hk] at hle ⊢
            rw [show m - n = c.maxChunkSize + (m - (n + c.maxChunkSize)) by omega, List.take_add]
          · rw [List.take_of_length_le hk] at hle ⊢
            rw [List.drop_eq_nil_of_le hk, List.take_nil, List.append_nil,
              List.take_of_length_le (by omega)]

/-- Data that is appended at all is appended from its start. -/
theorem bytes_append {c c' : BChunks} {buf : List UInt8} {r : Option ℕ}
    (h : c.append false buf = some (c', r)) :
    c'.bytes = c.bytes ++ buf.take (r.getD 0) := by
  unfold append at h
  split at h
  · cases h
    simp
  split at h
  · cases h
    simp
  split at h
  · cases h
    simp
  unfold append2 at h
  split at h
  · cases h
    simp
  split at h
  · simp only [Bool.false_eq_true, if_false, Option.some.injEq, Prod.mk.injEq] at h
    rw [← h.1, ← h.2]
    simp
  · cases h
    simpa using (append2Loop_bytes (c.maxChunks + 1) c buf 0).2

/-- Appending puts no chunk beyond the limit on chunks, and none beyond the limit on their
size. -/
theorem append2Loop_small (fuel : ℕ) {c : BChunks} (buf : List UInt8) (n : ℕ)
    (hle : c.chunksVector.length ≤ c.maxChunks)
    (hsmall : ∀ b ∈ c.chunksVector, b.data.length ≤ c.maxChunkSize) :
    (append2Loop false fuel c buf n).1.chunksVector.length ≤ c.maxChunks ∧
      ∀ b ∈ (append2Loop false fuel c buf n).1.chunksVector, b.data.length ≤ c.maxChunkSize := by
  induction fuel generalizing c buf n with
  | zero => exact ⟨hle, hsmall⟩
  | succ fuel ih =>
      unfold append2Loop
      split
      · exact ⟨hle, hsmall⟩
      · split
        · exact ⟨hle, hsmall⟩
        · refine @ih (c.putChunk false (buf.take c.maxChunkSize)) _ _ ?_ ?_
          · rw [length_putChunk, putChunk_maxChunks]
            omega
          · intro b hb
            have hb' : b ∈ c.chunksVector ++
                [{ data := buf.take c.maxChunkSize, offset := c.endOffset }] := hb
            rcases List.mem_append.mp hb' with hb | hb
            · exact hsmall b hb
            · rw [List.mem_singleton.mp hb]
              exact List.length_take_le _ _

/-- The chunks after an append are no larger than the limit. -/
theorem small_of_append {c c' : BChunks} {buf : List UInt8} {r : Option ℕ}
    (h : c.append false buf = some (c', r)) (hle : c.chunksVector.length ≤ c.maxChunks)
    (hsmall : ∀ b ∈ c.chunksVector, b.data.length ≤ c.maxChunkSize) :
    ∀ b ∈ c'.chunksVector, b.data.length ≤ c.maxChunkSize := by
  rcases append_cases h with rfl | ⟨-, rfl⟩
  · exact hsmall
  · exact (append2Loop_small _ buf 0 hle hsmall).2

theorem sizes_le_of_small {cs : List BinaryContainerChunk} {k : ℕ}
    (h : ∀ b ∈ cs, b.data.length ≤ k) : sizes cs ≤ cs.length * k := by
  induction cs with
  | nil => simp
  | cons b cs ih =>
      have hb : b.size ≤ k := h b (List.mem_cons_self ..)
      have hcs := ih (fun b' hb' => h b' (List.mem_cons_of_mem _ hb'))
      rw [sizes_cons, List.length_cons, Nat.succ_mul]
      omega

end BChunks

/-! ## Streams that take what they are given -/

namespace StreamableChunks

/-- The bytes that a stream has taken. -/
def bytes (o : StreamableChunks) : List UInt8 := o.container.bytes

/-- The chunks they are in. -/
def chunks (o : StreamableChunks) : ℕ := o.container.chunksVector.length

/-- A stream over a container with the limits it was made with. -/
structure Plain (o : StreamableChunks) : Prop where
  limits : o.container.clear = {}
  counted : o.container.Counted
  chunks_le : o.chunks ≤ 256 * 1024
  small : ∀ b ∈ o.container.chunksVector, b.data.length ≤ 64 * 1024

/-- A stream that has neither failed nor finished. -/
structure Open (o : StreamableChunks) : Prop extends Plain o where
  succeed : o.writeStatus.succeed = true
  finish : o.writeStatus.finish = false
  bytesWritten : o.writeStatus.bytesWritten = o.bytes.length

theorem open_empty : Open {} where
  limits := rfl
  counted := (BChunks.repInv_clear {}).counted (by simp [BChunks.clear])
  chunks_le := Nat.zero_le _
  small := by simp
  succeed := rfl
  finish := rfl
  bytesWritten := rfl

variable {o o' : StreamableChunks}

theorem Plain.maxChunks (h : Plain o) : o.container.maxChunks = 256 * 1024 := by
  have := congrArg BChunks.maxChunks h.limits
  exact this

theorem Plain.maxChunkSize (h : Plain o) : o.container.maxChunkSize = 64 * 1024 := by
  have := congrArg BChunks.maxChunkSize h.limits
  exact this

/-- A container with these limits holds at most 16 GiB. -/
theorem Plain.length_bytes_le (h : Plain o) : o.bytes.length ≤ o.chunks * (64 * 1024) := by
  rw [bytes, BChunks.length_bytes]
  exact BChunks.sizes_le_of_small h.small

/-- A small write passes the size checks. -/
theorem Plain.stores (h : Plain o) {buf : List UInt8} (hbuf : buf ≠ [])
    (hlen : buf.length ≤ 64 * 1024) : o.container.Stores buf := by
  have hmax : o.container.maxSize = 2 ^ 64 - 1 := congrArg BChunks.maxSize h.limits
  have hdisk : o.container.maxSizeInMemoryBeforeMovingToDisk = 0 :=
    congrArg BChunks.maxSizeInMemoryBeforeMovingToDisk h.limits
  have hsize : o.container.size = o.bytes.length := h.counted.size_eq
  have hbytes := h.length_bytes_le
  have hchunks := h.chunks_le
  have hall : o.container.size ≤ 256 * 1024 * (64 * 1024) := by
    rw [hsize]
    exact hbytes.trans (Nat.mul_le_mul_right _ hchunks)
  refine ⟨hbuf, by omega, by omega, Or.inl hdisk⟩

/-- A write that does not throw is one that the container made. -/
theorem append_of_write {buf : List UInt8} {r : Option ℕ} (h : o.write buf = some (o', r)) :
    o.container.append false buf = some (o'.container, r) := by
  unfold write at h
  split at h
  · cases h
  · rename_i c n happ
    split at h
    · cases h
    · cases h
      exact happ

/-- It stores the bytes it counts. -/
theorem bytes_write {buf : List UInt8} {r : Option ℕ} (h : o.write buf = some (o', r)) :
    o'.bytes = o.bytes ++ buf.take (r.getD 0) :=
  BChunks.bytes_append (append_of_write h)

/-- The end of the stream adds nothing to the container. -/
theorem container_writeEOF {b : Bool} (h : o.writeEOF = some (o', b)) :
    o'.container = o.container := by
  have happ : o.container.append false [] = some (o.container, none) := by
    simp [BChunks.append]
  unfold writeEOF write at h
  rw [happ] at h
  simp only at h
  cases hadd : o.writeStatus.add ((none : Option ℕ).elim (-1) toSsize) with
  | none =>
      rw [hadd] at h
      cases h
  | some s =>
      rw [hadd] at h
      cases h
      rfl

theorem Plain.of_container (h : Plain o) (hc : o'.container = o.container) : Plain o' := by
  obtain ⟨h1, h2, h3, h4⟩ := h
  refine ⟨?_, ?_, ?_, ?_⟩
  · rw [hc]
    exact h1
  · rw [hc]
    exact h2
  · rw [chunks, hc]
    exact h3
  · rw [hc]
    exact h4

/-- A small write leaves a container within its limits. -/
theorem Plain.write (h : Plain o) {buf : List UInt8} {r : Option ℕ} (hbuf : buf ≠ [])
    (hlen : buf.length ≤ 64 * 1024) (hw : o.write buf = some (o', r)) : Plain o' := by
  have hstores := h.stores hbuf hlen
  unfold StreamableChunks.write at hw
  rw [BChunks.append_eq_loop hstores] at hw
  simp only at hw
  split at hw
  · cases hw
  · cases hw
    have hsmall := BChunks.append2Loop_small (o.container.maxChunks + 1) buf 0
      (by rw [h.maxChunks]; exact h.chunks_le) (by rw [h.maxChunkSize]; exact h.small)
    rw [h.maxChunks, h.maxChunkSize] at hsmall
    refine ⟨?_, ?_, ?_, ?_⟩
    · rw [← h.limits]
      exact BChunks.append2Loop_sameLimits _ _ _ _
    · have hlt := hstores.2.1
      exact BChunks.append2Loop_counted _ buf 0 (by rw [h.maxChunkSize]; norm_num) h.counted
        (by rw [BChunks.size] at hlt; omega)
    · rw [chunks, h.maxChunks]
      exact hsmall.1
    · rw [h.maxChunks]
      exact hsmall.2

/-- One chunk for a small write. -/
theorem Plain.chunksFor (h : Plain o) {n : ℕ} (hpos : 0 < n) (hlen : n ≤ 64 * 1024) :
    o.container.chunksFor n = 1 := by
  rw [BChunks.chunksFor_step (by rw [h.maxChunkSize]; norm_num) hpos, h.maxChunkSize,
    Nat.sub_eq_zero_of_le hlen, BChunks.chunksFor_zero]

/-- An open stream with a chunk left takes a small write whole. -/
theorem Open.write_room (h : Open o) {buf : List UInt8} (hbuf : buf ≠ [])
    (hlen : buf.length ≤ 64 * 1024) (hroom : o.chunks < 256 * 1024) :
    ∃ o', o.write buf = some (o', some buf.length) ∧ Open o' ∧ o'.bytes = o.bytes ++ buf ∧
      o'.chunks = o.chunks + 1 := by
  have hstores := h.stores hbuf hlen
  have hpos := List.length_pos_iff.mpr hbuf
  have hone := h.chunksFor hpos hlen
  have hfit : o.container.HasChunks buf.length := by
    rw [BChunks.HasChunks, hone, h.maxChunks]
    exact hroom
  obtain ⟨c, happ, hcount, hbytes, -, hchunks, -⟩ :=
    BChunks.append_fits h.counted hstores (by rw [h.maxChunkSize]; norm_num) hfit false
  have htotal : o.writeStatus.bytesWritten + buf.length < 2 ^ 64 := by
    have := hstores.2.1
    rw [h.counted.size_eq] at this
    rw [h.bytesWritten, bytes]
    omega
  have hadd := WriteStatus.add_of_pos h.succeed h.finish hpos (by omega) htotal
  have hw : o.write buf = some (⟨c, { o.writeStatus with
      bytesWritten := o.writeStatus.bytesWritten + buf.length }⟩, some buf.length) := by
    unfold StreamableChunks.write
    simp only [happ, Option.elim_some, hadd]
  refine ⟨_, hw, ⟨h.toPlain.write hbuf hlen hw, h.succeed, h.finish, ?_⟩, hbytes, ?_⟩
  · rw [bytes, hbytes, List.length_append, ← bytes, ← h.bytesWritten]
  · rw [chunks, hchunks, hone, chunks]

/-- So does `writeFullStream`. -/
theorem Open.writeFullStream_room (h : Open o) {buf : List UInt8} (hbuf : buf ≠ [])
    (hlen : buf.length ≤ 64 * 1024) (hroom : o.chunks < 256 * 1024) :
    ∃ o', o.writeFullStream buf = some (o', true) ∧ Open o' ∧ o'.bytes = o.bytes ++ buf ∧
      o'.chunks = o.chunks + 1 := by
  obtain ⟨o', hw, hopen, hbytes, hchunks⟩ := h.write_room hbuf hlen hroom
  refine ⟨o', ?_, hopen, hbytes, hchunks⟩
  rw [writeFullStream, writeFullStreamLoop, if_neg hbuf, hw]
  simp only
  rw [if_neg (by simp [hopen.succeed]), Option.getD_some, List.drop_length, writeFullStreamLoop,
    if_pos rfl]

/-- Without a chunk left it takes nothing. -/
theorem Open.write_full (h : Open o) {buf : List UInt8} (hbuf : buf ≠ [])
    (hlen : buf.length ≤ 64 * 1024) (hfull : o.chunks = 256 * 1024) :
    o.write buf =
      some (⟨o.container, { o.writeStatus with succeed := true, finish := true }⟩, some 0) := by
  have hloop := BChunks.append2Loop_full (by rw [h.maxChunks]; exact hfull.ge) hbuf false
    (o.container.maxChunks + 1) 0
  have happ := BChunks.append_eq_loop (h.stores hbuf hlen) false
  rw [hloop] at happ
  unfold StreamableChunks.write
  rw [happ]
  simp only [Option.elim_some, toSsize, WriteStatus.add, h.succeed, h.finish]
  rfl

/-- The end of the stream leaves an open stream open. -/
theorem Open.writeEOF (h : Open o) :
    ∃ o', o.writeEOF = some (o', false) ∧ o'.container = o.container ∧ Open o' := by
  have happ : o.container.append false [] = some (o.container, none) := by
    simp [BChunks.append]
  have hw : o.write [] = some (⟨o.container, { o.writeStatus with
      succeed := false, finish := false, writeError := -1 }⟩, none) := by
    unfold StreamableChunks.write
    rw [happ]
    simp only [Option.elim_none, WriteStatus.add, h.succeed, h.finish]
    rfl
  refine ⟨⟨o.container, { o.writeStatus with
    succeed := true, finish := false, writeError := -1 }⟩, ?_, rfl, ?_⟩
  · rw [StreamableChunks.writeEOF, hw]
    rfl
  · exact ⟨⟨h.limits, h.counted, h.chunks_le, h.small⟩, rfl, rfl, h.bytesWritten⟩

/-! ## Copying a container -/

/-- The number of chunks that data of some length is stored in when it is appended at once. -/
def stretches (n : ℕ) : ℕ := (n + 64 * 1024 - 1) / (64 * 1024)

/-- Pieces of data as they come out of a container. -/
def SmallPieces (ds : List (List UInt8)) : Prop := ∀ d ∈ ds, d ≠ [] ∧ d.length ≤ 64 * 1024

/-- A copy that does not throw never stores more than it was given. -/
theorem Plain.copyLoop (h : Plain o) {ds : List (List UInt8)} (hds : SmallPieces ds) {n : ℕ}
    {r : Option ℕ} (hcopy : o.copyLoop ds n = some (o', r)) :
    Plain o' ∧ o'.bytes.length ≤ o.bytes.length + ds.flatten.length := by
  induction ds generalizing o n with
  | nil =>
      simp only [StreamableChunks.copyLoop, Option.some.injEq, Prod.mk.injEq] at hcopy
      rw [← hcopy.1]
      exact ⟨h, by simp⟩
  | cons d ds ih =>
      obtain ⟨hd, hlen⟩ := hds d (List.mem_cons_self ..)
      have hds' : SmallPieces ds := fun e he => hds e (List.mem_cons_of_mem _ he)
      unfold StreamableChunks.copyLoop at hcopy
      rcases hw : o.write d with _ | ⟨o₁, k⟩
      · rw [hw] at hcopy
        cases hcopy
      · have hplain := h.write hd hlen hw
        have hbytes := congrArg List.length (bytes_write hw)
        rw [List.length_append, List.length_take] at hbytes
        rw [List.flatten_cons, List.length_append]
        rw [hw] at hcopy
        cases k with
        | none =>
            cases hcopy
            exact ⟨hplain, by omega⟩
        | some k =>
            simp only at hcopy
            split at hcopy
            · cases hcopy
              exact ⟨hplain, by omega⟩
            split at hcopy
            · cases hcopy
            obtain ⟨h1, h2⟩ := ih hplain hds' hcopy
            exact ⟨h1, by omega⟩

/-- An open stream takes as many pieces as it has chunks left. -/
theorem Open.copyLoop_room (h : Open o) {ds : List (List UInt8)} (hds : SmallPieces ds)
    (hroom : o.chunks + ds.length ≤ 256 * 1024) {n : ℕ} (hn : n ≤ o.bytes.length) :
    ∃ o' r, o.copyLoop ds n = some (o', r) ∧ Open o' ∧ o'.bytes = o.bytes ++ ds.flatten ∧
      o'.chunks = o.chunks + ds.length := by
  induction ds generalizing o n with
  | nil => exact ⟨o, some n, rfl, h, by simp, by simp⟩
  | cons d ds ih =>
      obtain ⟨hd, hlen⟩ := hds d (List.mem_cons_self ..)
      rw [List.length_cons] at hroom
      obtain ⟨o₁, hw, hopen, hbytes, hchunks⟩ := h.write_room hd hlen (by omega)
      have hlen₁ := hopen.length_bytes_le
      rw [hbytes, List.length_append, hchunks] at hlen₁
      have hcap : (o.chunks + 1) * (64 * 1024) ≤ 256 * 1024 * (64 * 1024) :=
        Nat.mul_le_mul_right _ (by omega)
      obtain ⟨o', r, hcopy, hopen', hbytes', hchunks'⟩ := @ih o₁ hopen
        (fun e he => hds e (List.mem_cons_of_mem _ he)) (by omega) (d.length + n)
        (by rw [hbytes, List.length_append]; omega)
      refine ⟨o', r, ?_, hopen', ?_, ?_⟩
      · unfold StreamableChunks.copyLoop
        simp only [hw, hopen.succeed, Bool.true_eq_false, if_false]
        rw [if_neg (by omega), hcopy]
      · rw [hbytes', hbytes, List.append_assoc, List.flatten_cons]
      · rw [hchunks', hchunks, List.length_cons]
        omega

/-- With more pieces than chunks left, data gets lost if the copy does not throw. -/
theorem Open.copyLoop_loses (h : Open o) {ds : List (List UInt8)} (hds : SmallPieces ds)
    (hover : 256 * 1024 < o.chunks + ds.length) {n : ℕ} {r : Option ℕ}
    (hcopy : o.copyLoop ds n = some (o', r)) :
    o'.bytes.length < o.bytes.length + ds.flatten.length := by
  induction ds generalizing o n with
  | nil =>
      have := h.chunks_le
      rw [List.length_nil] at hover
      omega
  | cons d ds ih =>
      obtain ⟨hd, hlen⟩ := hds d (List.mem_cons_self ..)
      have hpos := List.length_pos_iff.mpr hd
      have hds' : SmallPieces ds := fun e he => hds e (List.mem_cons_of_mem _ he)
      rw [List.length_cons] at hover
      rw [List.flatten_cons, List.length_append]
      unfold StreamableChunks.copyLoop at hcopy
      rcases Nat.lt_or_ge o.chunks (256 * 1024) with hroom | hfull
      · obtain ⟨o₁, hw, hopen, hbytes, hchunks⟩ := h.write_room hd hlen hroom
        simp only [hw, hopen.succeed, Bool.true_eq_false, if_false] at hcopy
        split at hcopy
        · cases hcopy
        · have := ih hopen hds' (by omega) hcopy
          rw [hbytes, List.length_append] at this
          omega
      · have hw := h.write_full hd hlen (by have := h.chunks_le; omega)
        have hplain := h.toPlain.write hd hlen hw
        rw [hw] at hcopy
        simp only at hcopy
        have hsame : ∀ s, (⟨o.container, s⟩ : StreamableChunks).bytes = o.bytes := fun _ => rfl
        split at hcopy
        · cases hcopy
          rw [hsame]
          omega
        split at hcopy
        · cases hcopy
        have hle := (hplain.copyLoop hds' hcopy).2
        rw [hsame] at hle
        omega

end StreamableChunks

namespace BChunks

/-- All the bytes of a container are copied chunk by chunk. -/
theorem copyChunks_sizes (cs : List BinaryContainerChunk) (hne : ∀ b ∈ cs, b.data ≠ []) :
    copyChunks cs (sizes cs) = cs.map (·.data) := by
  induction cs with
  | nil => rfl
  | cons b cs ih =>
      have ih' := ih (fun b' hb' => hne b' (List.mem_cons_of_mem _ hb'))
      have htake : b.data.take (sizes (b :: cs)) = b.data := by
        rw [sizes_cons]
        exact List.take_of_length_le (Nat.le_add_right _ _)
      have hrest : sizes (b :: cs) - b.data.length = sizes cs := by
        rw [sizes_cons]
        exact Nat.add_sub_cancel_left _ _
      simp only [copyChunks, htake, hrest, List.map_cons]
      split
      · rename_i hzero
        cases cs with
        | nil => rfl
        | cons b' cs' =>
            have hpos := size_pos (hne b' (by simp))
            rw [sizes_cons] at hzero
            omega
      · rw [ih']

/-- The pieces make up the first bytes. -/
theorem flatten_copyChunks (cs : List BinaryContainerChunk) (n : ℕ) :
    (copyChunks cs n).flatten = (cs.flatMap (·.data)).take n := by
  induction cs generalizing n with
  | nil => simp [copyChunks]
  | cons b cs ih =>
      rw [List.flatMap_cons, List.take_append]
      simp only [copyChunks, List.length_take]
      split
      · rw [List.flatten_singleton, show n - b.data.length = 0 by omega, List.take_zero,
          List.append_nil]
      · rw [List.flatten_cons, ih, show n - min n b.data.length = n - b.data.length by omega]

/-- A whole container written to a stream. -/
theorem Counted.appendTo {c : BChunks} (h : c.Counted) (o : StreamableChunks) :
    c.appendTo c.bytes.length o = o.copyLoop (c.chunksVector.map (·.data)) 0 := by
  have hsize : c.size = sizes c.chunksVector := h.total
  unfold BChunks.appendTo
  rw [length_bytes, hsize, Nat.min_self]
  by_cases hzero : sizes c.chunksVector = 0
  · rw [if_pos hzero]
    cases hcs : c.chunksVector with
    | nil => rfl
    | cons b cs =>
        have hpos := size_pos (h.nonempty b (by simp [hcs]))
        rw [hcs, sizes_cons] at hzero
        omega
  · rw [if_neg hzero, copyChunks_sizes _ h.nonempty]

end BChunks

end Mantids
