/-
# A chunked container that moves to disk

`B_Chunks::append2` moves its bytes to a `B_MMAP` once they would exceed
`m_maxSizeInMemoryBeforeMovingToDisk`.  From then on every operation goes to the file.

* `SpillingChunks` — the container with the file, if it has one, and its operations;
* `observed` — the results of a run of operations, with the bytes that can be read after each;
* `StaysInMemory` — an operation that does not exceed the limit;
* `observed_eq_iff` — a limit cannot be noticed exactly as long as it is not exceeded.

The bytes are in the file after the move, but none of them can be read: the size of the file
container stays zero.
-/
import Mantids.BMmap

namespace Mantids

/-! ## The container -/

/-- `B_Chunks`, with `m_mmapContainer`. -/
structure SpillingChunks where
  chunks : BChunks
  /-- `m_mmapContainer`. -/
  mmapContainer : Option BMmap := none
deriving DecidableEq

namespace SpillingChunks

def size (c : SpillingChunks) : ℕ :=
  match c.mmapContainer with
  | none => c.chunks.size
  | some m => m.size

/-- The bytes that can be read. -/
def bytes (c : SpillingChunks) : List UInt8 :=
  match c.mmapContainer with
  | none => c.chunks.bytes
  | some m => m.mem

/-! ### Moving to disk -/

/-- The stretches that `copyToStreamableObject2` writes. -/
def copyChunks : List BinaryContainerChunk → ℕ → List (List UInt8)
  | [], _ => []
  | b :: cs, dataToCopy =>
    let current := b.data.take dataToCopy
    if dataToCopy - current.length = 0 then [current]
    else current :: copyChunks cs (dataToCopy - current.length)

/-- `copyToStreamableObjectUsingCleanVector`. -/
def copyToFile : BMmap → List (List UInt8) → ℕ → Option (BMmap × ℕ)
  | m, [], dataCopied => some (m, dataCopied)
  | m, data :: rest, dataCopied =>
    match m.append data with
    | (m, some bytesWritten) => copyToFile m rest (dataCopied + bytesWritten)
    | (_, none) => none

/-- `copyToFS`: a new file with the bytes of the chunks. -/
def copyToFS (c : BChunks) : Option BMmap :=
  if c.size = 0 then some {}
  else
    match copyToFile {} (copyChunks c.chunksVector c.size) 0 with
    | none => none
    | some (m, bytesAppended) => if bytesAppended = c.size then some m else none

/-- The part of `append2` that moves the bytes to disk.  `clearChunks` empties the vector and
leaves the count. -/
def spill (c : BChunks) (buf : List UInt8) (prependMode : Bool) :
    Option (SpillingChunks × Option ℕ) :=
  match copyToFS c with
  | none => some (⟨c, none⟩, none)
  | some m =>
    let cleared := { c with chunksVector := [] }
    if prependMode then (m.prepend buf).map (fun r => (⟨cleared, some r.1⟩, r.2))
    else some (⟨cleared, some (m.append buf).1⟩, (m.append buf).2)

/-! ### Operations -/

def append (c : SpillingChunks) (buf : List UInt8) : Option (SpillingChunks × Option ℕ) :=
  match c.mmapContainer with
  | none =>
    match c.chunks.append true buf with
    | some (chunks, r) => some (⟨chunks, none⟩, r)
    | none => spill c.chunks buf false
  | some m =>
    BBase.append m.size c.chunks.maxSize buf (some (c, none))
      (some (⟨c.chunks, some (m.append buf).1⟩, (m.append buf).2))

def prepend (c : SpillingChunks) (buf : List UInt8) : Option (SpillingChunks × Option ℕ) :=
  match c.mmapContainer with
  | none =>
    match c.chunks.prepend true buf with
    | some (chunks, r) => some (⟨chunks, none⟩, r)
    | none => spill c.chunks buf true
  | some m =>
    BBase.prepend m.size c.chunks.maxSize buf (some (c, none)) (some (c, some 0))
      ((m.prepend buf).map (fun r => (⟨c.chunks, some r.1⟩, r.2)))

def displace (c : SpillingChunks) (bytes : ℕ) : Option (SpillingChunks × Option ℕ) :=
  match c.mmapContainer with
  | none => some (⟨(c.chunks.displace bytes).1, none⟩, (c.chunks.displace bytes).2)
  | some m => (m.displace (min bytes m.size)).map (fun r => (⟨c.chunks, some r.1⟩, r.2))

/-- `truncate`; the inner `none` is an exception. -/
def truncate (c : SpillingChunks) (bytes : ℕ) : SpillingChunks × Option (Option ℕ) :=
  match c.mmapContainer with
  | none => (⟨(c.chunks.truncate bytes).1, none⟩, some (c.chunks.truncate bytes).2)
  | some m =>
    if m.size ≤ bytes then (c, some none)
    else (⟨c.chunks, some (m.truncate bytes).1⟩, (m.truncate bytes).2)

/-- The loop of `find` over a file.  The search space is not passed on to the file, so it can
fall short of the distance to the next character. -/
def mmapFindLoop (m : BMmap) (c : UInt8) (needle : List UInt8) : ℕ → ℕ → ℕ → Option (Option ℕ)
  | 0, _, _ => some none
  | fuel + 1, currentOffset, searchSpace =>
    match m.findChar c currentOffset 0 false with
    | none => none
    | some none => some none
    | some (some pos) =>
      let searchSpace := subSizeT searchSpace (pos - currentOffset)
      if BMmap.compare needle pos then some (some pos)
      else if searchSpace = 0 then some none
      else mmapFindLoop m c needle fuel (pos + 1) (searchSpace - 1)

/-- `B_Base::find` over a file; `none` if it throws.  The case does not matter there. -/
def mmapFind (m : BMmap) (needle : List UInt8) (offset searchSpace : ℕ) : Option (Option ℕ) :=
  if checkUIntOverflowSum offset needle.length then some none
  else if checkUIntOverflowSum offset searchSpace then some none
  else if m.size < offset then some none
  else
    let searchSpace := if searchSpace = 0 then m.size - offset else searchSpace
    if searchSpace = 0 then some none
    else if searchSpace < needle.length then some none
    else
      match needle with
      | [] => some (some 0)
      | c :: _ => mmapFindLoop m c needle (m.size + 2) offset searchSpace

def find (c : SpillingChunks) (needle : List UInt8) (caseSensitive : Bool)
    (offset searchSpace : ℕ) : Option (Option ℕ) :=
  match c.mmapContainer with
  | none => some (c.chunks.find needle caseSensitive offset searchSpace)
  | some m => mmapFind m needle offset searchSpace

def copyOut (c : SpillingChunks) (bytes offset : ℕ) : Option (List UInt8) :=
  match c.mmapContainer with
  | none => c.chunks.copyOut bytes offset
  | some m => BBase.copyOut m.size m.copyOut bytes offset

def toString (c : SpillingChunks) (bytes offset : ℕ) : Option (List UInt8) :=
  BBase.toString c.size c.copyOut bytes offset

/-! ## Runs -/

/-- The calls that can be made. -/
inductive Op where
  | append (buf : List UInt8)
  | prepend (buf : List UInt8)
  | displace (bytes : ℕ)
  | truncate (bytes : ℕ)
  | find (needle : List UInt8) (caseSensitive : Bool) (offset searchSpace : ℕ)
  | copyOut (bytes offset : ℕ)
  | toString (bytes offset : ℕ)
deriving DecidableEq

/-- What a call returns. -/
inductive Output where
  | count (n : Option ℕ)
  | data (bytes : Option (List UInt8))
  | threw
deriving DecidableEq

/-- A count, or an exception. -/
def Output.ofCount : Option (Option ℕ) → Output
  | some n => .count n
  | none => .threw

/-- One call; `none` if it leaves the memory it may access. -/
def step (c : SpillingChunks) : Op → Option (SpillingChunks × Output)
  | .append buf => (c.append buf).map (fun r => (r.1, .count r.2))
  | .prepend buf => (c.prepend buf).map (fun r => (r.1, .count r.2))
  | .displace bytes => (c.displace bytes).map (fun r => (r.1, .count r.2))
  | .truncate bytes => some ((c.truncate bytes).1, .ofCount (c.truncate bytes).2)
  | .find needle caseSensitive offset searchSpace =>
    some (c, .ofCount (c.find needle caseSensitive offset searchSpace))
  | .copyOut bytes offset => some (c, .data (c.copyOut bytes offset))
  | .toString bytes offset => some (c, .data (c.toString bytes offset))

/-- The results of the calls, with the bytes that can be read after each. -/
def observed (c : SpillingChunks) (ops : List Op) : List (Output × List UInt8) :=
  (Run.transitions step c ops).map (fun t => (t.output, t.after.bytes))

/-- An empty container with the limits of another, and a limit for its bytes in memory. -/
def start (limits : BChunks) (maxSizeInMemoryBeforeMovingToDisk : ℕ) : SpillingChunks where
  chunks :=
    { limits.clear with maxSizeInMemoryBeforeMovingToDisk := maxSizeInMemoryBeforeMovingToDisk }

/-- New data that passes the size checks stays within a limit. -/
def FitsInMemory (limit : ℕ) (c : SpillingChunks) (buf : List UInt8) : Prop :=
  buf ≠ [] → buf.length + c.size < 2 ^ 64 → buf.length + c.size ≤ c.chunks.maxSize →
    limit = 0 ∨ buf.length + c.size ≤ limit

/-- The condition on a call: data that it adds stays within a limit. -/
def StaysInMemory (limit : ℕ) (c : SpillingChunks) : Op → Prop
  | .append buf => c.FitsInMemory limit buf
  | .prepend buf => c.FitsInMemory limit buf
  | _ => True

/-! ## Below the limit -/

section Limit

open BChunks

/-- The same chunks with another limit. -/
def withLimit (limit : ℕ) (c : BChunks) : BChunks :=
  { c with maxSizeInMemoryBeforeMovingToDisk := limit }

variable (limit : ℕ)

theorem recalcChunkOffsets_withLimit (c : BChunks) :
    (withLimit limit c).recalcChunkOffsets = withLimit limit c.recalcChunkOffsets := by
  unfold recalcChunkOffsets withLimit
  simp only
  split <;> rfl

theorem append2Loop_withLimit (p : Bool) (fuel : ℕ) (c : BChunks) (buf : List UInt8) (n : ℕ) :
    append2Loop p fuel (withLimit limit c) buf n
      = (withLimit limit (append2Loop p fuel c buf n).1, (append2Loop p fuel c buf n).2) := by
  induction fuel generalizing c buf n with
  | zero => rfl
  | succ fuel ih =>
      unfold append2Loop
      by_cases hbuf : buf = []
      · rw [if_pos hbuf, if_pos hbuf]
        cases p with
        | false => rfl
        | true =>
            rw [if_pos rfl, if_pos rfl, recalcChunkOffsets_withLimit]
      · rw [if_neg hbuf, if_neg hbuf]
        have hmax : (withLimit limit c).maxChunks = c.maxChunks := rfl
        have hvector : (withLimit limit c).chunksVector = c.chunksVector := rfl
        rw [hmax, hvector]
        by_cases hfull : c.maxChunks < c.chunksVector.length + 1
        · rw [if_pos hfull, if_pos hfull]
        · rw [if_neg hfull, if_neg hfull]
          exact ih (c.putChunk p (buf.take c.maxChunkSize)) _ _

theorem displace_withLimit (c : BChunks) (n : ℕ) :
    (withLimit limit c).displace n = (withLimit limit (c.displace n).1, (c.displace n).2) := by
  unfold BChunks.displace BChunks.displace2
  simp only
  rw [← recalcChunkOffsets_withLimit]
  rfl

theorem truncate_withLimit (c : BChunks) (n : ℕ) :
    (withLimit limit c).truncate n = (withLimit limit (c.truncate n).1, (c.truncate n).2) := by
  have hpos : (withLimit limit c).chunkGetPosForOffset n = c.chunkGetPosForOffset n := rfl
  have hsize : (withLimit limit c).size = c.size := rfl
  have hvector : (withLimit limit c).chunksVector = c.chunksVector := rfl
  unfold BChunks.truncate
  rw [hsize]
  split
  · rfl
  · unfold BChunks.truncate2
    rw [hpos, hvector]
    split
    · rfl
    · split <;> rfl

theorem findLoop_withLimit (c : BChunks) (x : UInt8) (needle : List UInt8) (caseSensitive : Bool)
    (fuel currentOffset searchSpace : ℕ) :
    (withLimit limit c).findLoop x needle caseSensitive fuel currentOffset searchSpace
      = c.findLoop x needle caseSensitive fuel currentOffset searchSpace := by
  have hchar : ∀ offset space, (withLimit limit c).findChar x offset space caseSensitive
      = c.findChar x offset space caseSensitive := fun _ _ => rfl
  have hcompare : ∀ pos, (withLimit limit c).compare2 needle caseSensitive pos
      = c.compare2 needle caseSensitive pos := fun _ => rfl
  induction fuel generalizing currentOffset searchSpace with
  | zero => rfl
  | succ fuel ih =>
      unfold findLoop
      simp only [hchar, hcompare, ih]

theorem find_withLimit (c : BChunks) (needle : List UInt8) (caseSensitive : Bool)
    (offset searchSpace : ℕ) :
    (withLimit limit c).find needle caseSensitive offset searchSpace
      = c.find needle caseSensitive offset searchSpace := by
  have hsize : (withLimit limit c).size = c.size := rfl
  unfold BChunks.find
  simp only [hsize, findLoop_withLimit]

/-- New data that is stored; it is put into chunks below the limit. -/
def Accepted (c : BChunks) (buf : List UInt8) : Prop :=
  buf ≠ [] ∧ buf.length + c.size < 2 ^ 64 ∧ buf.length + c.size ≤ c.maxSize

/-- What passes the checks of `append` and of `prepend`. -/
theorem accepted_of_checks {c : BChunks} {buf : List UInt8}
    (hov : ¬ checkUIntOverflowSum buf.length c.size = true)
    (hle : ¬ c.maxSize < buf.length + c.size) (hbuf : ¬ buf = []) : Accepted c buf := by
  rw [checkUIntOverflowSum_iff] at hov
  exact ⟨hbuf, by omega, by omega⟩

variable {limit}

/-- Data that is not accepted stops at one of the checks. -/
theorem checks_of_not_accepted {c : BChunks} {buf : List UInt8} (h : ¬ Accepted c buf) {α : Type*}
    (overflow tooMuch empty goesOn : α) :
    (if checkUIntOverflowSum buf.length c.size = true then overflow
      else if c.maxSize < buf.length + c.size then tooMuch
      else if buf = [] then empty else goesOn)
      = if checkUIntOverflowSum buf.length c.size = true then overflow
        else if c.maxSize < buf.length + c.size then tooMuch else empty := by
  by_cases hov : checkUIntOverflowSum buf.length c.size = true
  · rw [if_pos hov, if_pos hov]
  · by_cases hle : c.maxSize < buf.length + c.size
    · rw [if_neg hov, if_neg hov, if_pos hle, if_pos hle]
    · have hbuf : buf = [] := by
        by_contra hne
        exact h (accepted_of_checks hov hle hne)
      rw [if_neg hov, if_neg hov, if_neg hle, if_neg hle, if_pos hbuf]

theorem append_of_not_accepted {c : BChunks} {buf : List UInt8} (h : ¬ Accepted c buf)
    (limit : ℕ) : (withLimit limit c).append true buf = some (withLimit limit c, none) := by
  have hsize : (withLimit limit c).size = c.size := rfl
  have hmax : (withLimit limit c).maxSize = c.maxSize := rfl
  unfold BChunks.append
  rw [hsize, hmax, checks_of_not_accepted h, ite_self, ite_self]

theorem prepend_of_not_accepted {c : BChunks} {buf : List UInt8} (h : ¬ Accepted c buf) :
    ∃ r, ∀ limit, (withLimit limit c).prepend true buf = some (withLimit limit c, r) := by
  have hcase : ∀ limit, (withLimit limit c).prepend true buf
      = some (withLimit limit c, if checkUIntOverflowSum buf.length c.size then none
          else if c.maxSize < buf.length + c.size then none else some 0) := by
    intro limit
    have hsize : (withLimit limit c).size = c.size := rfl
    have hmax : (withLimit limit c).maxSize = c.maxSize := rfl
    unfold BChunks.prepend
    rw [hsize, hmax, checks_of_not_accepted h]
    split_ifs with hov hle
    · rfl
    · rfl
    · rfl
  exact ⟨_, hcase⟩

/-- Accepted data within the limit goes through the loop. -/
theorem append2_of_accepted {c : BChunks} {buf : List UInt8} (h : Accepted c buf)
    (hlimit : limit = 0 ∨ buf.length + c.size ≤ limit) (p : Bool) :
    (withLimit limit c).append2 true buf p
      = some (withLimit limit (append2Loop p (c.maxChunks + 1) c buf 0).1,
          some (append2Loop p (c.maxChunks + 1) c buf 0).2) := by
  have hsize : (withLimit limit c).size = c.size := rfl
  have hl : (withLimit limit c).maxSizeInMemoryBeforeMovingToDisk = limit := rfl
  have hmax : (withLimit limit c).maxChunks = c.maxChunks := rfl
  unfold BChunks.append2
  rw [hsize, hl, hmax, checkUIntOverflowSum_eq_false h.2.1, if_neg (by simp), if_neg (by omega)]
  simp only [append2Loop_withLimit]

/-- Accepted data beyond the limit goes to disk. -/
theorem append2_of_exceeded {c : BChunks} {buf : List UInt8} (h : Accepted c buf)
    (hlimit : ¬ (limit = 0 ∨ buf.length + c.size ≤ limit)) (p : Bool) :
    (withLimit limit c).append2 true buf p = none := by
  have hsize : (withLimit limit c).size = c.size := rfl
  have hl : (withLimit limit c).maxSizeInMemoryBeforeMovingToDisk = limit := rfl
  unfold BChunks.append2
  rw [hsize, hl, checkUIntOverflowSum_eq_false h.2.1, if_neg (by simp), if_pos (by omega),
    if_pos rfl]

theorem append_of_accepted {c : BChunks} {buf : List UInt8} (h : Accepted c buf) (limit : ℕ) :
    (withLimit limit c).append true buf = (withLimit limit c).append2 true buf false := by
  have hsize : (withLimit limit c).size = c.size := rfl
  have hmax : (withLimit limit c).maxSize = c.maxSize := rfl
  unfold BChunks.append
  rw [hsize, hmax, checkUIntOverflowSum_eq_false h.2.1, if_neg (by simp),
    if_neg (not_lt.mpr h.2.2), if_neg h.1]

theorem prepend_of_accepted {c : BChunks} {buf : List UInt8} (h : Accepted c buf) (limit : ℕ) :
    (withLimit limit c).prepend true buf = (withLimit limit c).append2 true buf true := by
  have hsize : (withLimit limit c).size = c.size := rfl
  have hmax : (withLimit limit c).maxSize = c.maxSize := rfl
  unfold BChunks.prepend
  rw [hsize, hmax, checkUIntOverflowSum_eq_false h.2.1, if_neg (by simp),
    if_neg (not_lt.mpr h.2.2), if_neg h.1]

/-- **Step lemma, below the limit.**  A call that stays in memory does the same under the
limit as without one. -/
theorem step_of_staysInMemory {c : BChunks} {op : Op}
    (h : StaysInMemory limit ⟨c, none⟩ op) :
    ∃ c' o, step ⟨withLimit 0 c, none⟩ op = some (⟨withLimit 0 c', none⟩, o) ∧
      step ⟨withLimit limit c, none⟩ op = some (⟨withLimit limit c', none⟩, o) := by
  cases op with
  | append buf =>
      by_cases hacc : Accepted c buf
      · have hfits := h hacc.1 hacc.2.1 hacc.2.2
        refine ⟨(append2Loop false (c.maxChunks + 1) c buf 0).1,
          .count (some (append2Loop false (c.maxChunks + 1) c buf 0).2), ?_, ?_⟩
        · simp only [step, append, append_of_accepted hacc, append2_of_accepted hacc (.inl rfl)]
          rfl
        · simp only [step, append, append_of_accepted hacc, append2_of_accepted hacc hfits]
          rfl
      · refine ⟨c, .count none, ?_, ?_⟩ <;>
        · simp only [step, append, append_of_not_accepted hacc]
          rfl
  | prepend buf =>
      by_cases hacc : Accepted c buf
      · have hfits := h hacc.1 hacc.2.1 hacc.2.2
        refine ⟨(append2Loop true (c.maxChunks + 1) c buf 0).1,
          .count (some (append2Loop true (c.maxChunks + 1) c buf 0).2), ?_, ?_⟩
        · simp only [step, prepend, prepend_of_accepted hacc, append2_of_accepted hacc (.inl rfl)]
          rfl
        · simp only [step, prepend, prepend_of_accepted hacc, append2_of_accepted hacc hfits]
          rfl
      · obtain ⟨r, hr⟩ := prepend_of_not_accepted hacc
        refine ⟨c, .count r, ?_, ?_⟩ <;>
        · simp only [step, prepend, hr]
          rfl
  | displace n =>
      refine ⟨(c.displace n).1, .count (c.displace n).2, ?_, ?_⟩ <;>
      · simp only [step, displace, displace_withLimit]
        rfl
  | truncate n =>
      refine ⟨(c.truncate n).1, .count (c.truncate n).2, ?_, ?_⟩ <;>
      · simp only [step, truncate, truncate_withLimit]
        rfl
  | find needle caseSensitive offset searchSpace =>
      refine ⟨c, .count (c.find needle caseSensitive offset searchSpace), ?_, ?_⟩ <;>
      · simp only [step, find, find_withLimit]
        rfl
  | copyOut bytes offset =>
      exact ⟨c, _, rfl, rfl⟩
  | toString bytes offset =>
      exact ⟨c, _, rfl, rfl⟩

/-! ## Beyond the limit -/

theorem length_bytes_putChunk (c : BChunks) (p : Bool) (data : List UInt8) :
    (c.putChunk p data).bytes.length = c.bytes.length + data.length := by
  cases p with
  | false => simp [putChunk, BChunks.bytes]
  | true => simp [putChunk, BChunks.bytes, Nat.add_comm]

/-- The loop reports what it stored. -/
theorem length_bytes_append2Loop (p : Bool) (fuel : ℕ) (c : BChunks) (buf : List UInt8) (n : ℕ) :
    (append2Loop p fuel c buf n).1.bytes.length + n
      = c.bytes.length + (append2Loop p fuel c buf n).2 := by
  induction fuel generalizing c buf n with
  | zero => rfl
  | succ fuel ih =>
      unfold append2Loop
      split
      · split
        · rw [bytes_recalcChunkOffsets]
        · rfl
      · split
        · rfl
        · have hloop := ih (c.putChunk p (buf.take c.maxChunkSize)) (buf.drop c.maxChunkSize)
            (n + (buf.take c.maxChunkSize).length)
          rw [length_bytes_putChunk] at hloop
          omega

/-- A file container over a new file shows nothing, whatever is appended. -/
theorem memSize_append {m : BMmap} (h : m.memSize = 0) (buf : List UInt8) :
    (m.append buf).1.memSize = 0 := by
  unfold BMmap.append BBase.append
  split
  · exact h
  · split
    · exact h
    · split
      · exact h
      · simp [BMmap.reMapMemoryContainer, BMmap.size, h]

theorem memSize_prepend {m m' : BMmap} {r : Option ℕ} (h : m.memSize = 0) {buf : List UInt8}
    (hres : m.prepend buf = some (m', r)) : m'.memSize = 0 := by
  unfold BMmap.prepend BBase.prepend at hres
  split at hres
  · cases hres
    exact h
  · split at hres
    · cases hres
      exact h
    · split at hres
      · cases hres
        exact h
      · obtain ⟨f, -, hf⟩ := Option.map_eq_some_iff.mp hres
        cases hf
        simp [BMmap.reMapMemoryContainer, BMmap.size, h]

theorem memSize_copyToFile {m m' : BMmap} {ds : List (List UInt8)} {n n' : ℕ}
    (h : m.memSize = 0) (hres : copyToFile m ds n = some (m', n')) : m'.memSize = 0 := by
  induction ds generalizing m n with
  | nil =>
      cases hres
      exact h
  | cons d ds ih =>
      have happend := memSize_append h d
      unfold copyToFile at hres
      split at hres
      · rename_i m'' k heq
        rw [heq] at happend
        exact ih happend hres
      · cases hres

theorem memSize_copyToFS {c : BChunks} {m : BMmap} (h : copyToFS c = some m) : m.memSize = 0 := by
  unfold copyToFS at h
  split at h
  · cases h
    rfl
  · split at h
    · cases h
    · rename_i m' n hres
      split at h
      · cases h
        exact memSize_copyToFile rfl hres
      · cases h

/-- What a file container returns for new data: nothing, or its size. -/
theorem count_append (m : BMmap) {buf : List UInt8} (hbuf : buf ≠ []) :
    (m.append buf).2 = none ∨ (m.append buf).2 = some buf.length := by
  unfold BMmap.append BBase.append
  split
  · exact .inl rfl
  · split
    · exact .inl rfl
    · right
      simp [FileMap.mmapAppend, hbuf]

theorem count_prepend {m m' : BMmap} {r : Option ℕ} {buf : List UInt8} (hbuf : buf ≠ [])
    (hres : m.prepend buf = some (m', r)) : r = none ∨ r = some buf.length := by
  unfold BMmap.prepend BBase.prepend at hres
  split at hres
  · cases hres
    exact .inl rfl
  · split at hres
    · cases hres
      exact .inl rfl
    · obtain ⟨f, hf, hr⟩ := Option.map_eq_some_iff.mp hres
      cases hr
      right
      unfold FileMap.mmapPrepend at hf
      rw [if_neg hbuf] at hf
      simp only at hf
      split at hf
      · cases hf
      · split at hf
        · cases hf
        · cases hf
          rfl

/-- The move to disk: it fails, or the data counts as stored and nothing can be read. -/
theorem spill_cases {c : BChunks} {c' : SpillingChunks} {buf : List UInt8} {p : Bool}
    {r : Option ℕ} (hbuf : buf ≠ []) (h : spill c buf p = some (c', r)) :
    r = none ∨ (r = some buf.length ∧ c'.bytes = []) := by
  have hempty : ∀ {m : BMmap}, m.memSize = 0 → m.mem = [] := fun hm => by
    unfold BMmap.mem
    rw [hm, List.take_zero]
  unfold spill at h
  split at h
  · cases h
    exact .inl rfl
  · rename_i m hcopy
    have hm := memSize_copyToFS hcopy
    cases p with
    | false =>
        cases h
        rcases count_append m hbuf with hnone | hcount
        · exact .inl hnone
        · exact .inr ⟨hcount, hempty (memSize_append hm buf)⟩
    | true =>
        obtain ⟨⟨m', r'⟩, hprepend, heq⟩ := Option.map_eq_some_iff.mp h
        cases heq
        rcases count_prepend hbuf hprepend with hnone | hcount
        · exact .inl hnone
        · exact .inr ⟨hcount, hempty (memSize_prepend hm hprepend)⟩

/-- **Step lemma, beyond the limit.**  A call that exceeds the limit does not end, or it
returns something else than without a limit, or other bytes can be read after it. -/
theorem step_of_not_staysInMemory {c : BChunks} {op : Op}
    (h : ¬ StaysInMemory limit ⟨c, none⟩ op) :
    ∃ c' o, step ⟨withLimit 0 c, none⟩ op = some (c', o) ∧
      ∀ c'' o', step ⟨withLimit limit c, none⟩ op = some (c'', o') →
        (o', c''.bytes) ≠ (o, c'.bytes) := by
  have hdiffers : ∀ (buf : List UInt8) (p : Bool), buf ≠ [] → ∀ c'' r,
      spill (withLimit limit c) buf p = some (c'', r) →
      (Output.count r, c''.bytes) ≠
        (Output.count (some (append2Loop p (c.maxChunks + 1) c buf 0).2),
          (append2Loop p (c.maxChunks + 1) c buf 0).1.bytes) := by
    intro buf p hbuf c'' r hspill heq
    have hlen := length_bytes_append2Loop p (c.maxChunks + 1) c buf 0
    have hpos := List.length_pos_iff.mpr hbuf
    rw [Prod.mk.injEq, Output.count.injEq] at heq
    rcases spill_cases hbuf hspill with hnone | ⟨hcount, hbytes⟩
    · rw [hnone] at heq
      cases heq.1
    · rw [hcount, hbytes, Option.some.injEq] at heq
      rw [← heq.1, ← heq.2, List.length_nil] at hlen
      omega
  cases op with
  | append buf =>
      obtain ⟨hbuf, hlt, hmax, hexceeds⟩ : buf ≠ [] ∧ buf.length + c.size < 2 ^ 64 ∧
          buf.length + c.size ≤ c.maxSize ∧ ¬ (limit = 0 ∨ buf.length + c.size ≤ limit) := by
        simpa [StaysInMemory, FitsInMemory, size] using h
      have hacc : Accepted c buf := ⟨hbuf, hlt, hmax⟩
      refine ⟨⟨withLimit 0 (append2Loop false (c.maxChunks + 1) c buf 0).1, none⟩,
        .count (some (append2Loop false (c.maxChunks + 1) c buf 0).2), ?_, ?_⟩
      · simp only [step, append, append_of_accepted hacc, append2_of_accepted hacc (.inl rfl)]
        rfl
      · intro c'' o' hstep
        simp only [step, append, append_of_accepted hacc, append2_of_exceeded hacc hexceeds]
          at hstep
        obtain ⟨⟨c₂, r⟩, hspill, heq⟩ := Option.map_eq_some_iff.mp hstep
        cases heq
        exact hdiffers buf false hbuf c₂ r hspill
  | prepend buf =>
      obtain ⟨hbuf, hlt, hmax, hexceeds⟩ : buf ≠ [] ∧ buf.length + c.size < 2 ^ 64 ∧
          buf.length + c.size ≤ c.maxSize ∧ ¬ (limit = 0 ∨ buf.length + c.size ≤ limit) := by
        simpa [StaysInMemory, FitsInMemory, size] using h
      have hacc : Accepted c buf := ⟨hbuf, hlt, hmax⟩
      refine ⟨⟨withLimit 0 (append2Loop true (c.maxChunks + 1) c buf 0).1, none⟩,
        .count (some (append2Loop true (c.maxChunks + 1) c buf 0).2), ?_, ?_⟩
      · simp only [step, prepend, prepend_of_accepted hacc, append2_of_accepted hacc (.inl rfl)]
        rfl
      · intro c'' o' hstep
        simp only [step, prepend, prepend_of_accepted hacc, append2_of_exceeded hacc hexceeds]
          at hstep
        obtain ⟨⟨c₂, r⟩, hspill, heq⟩ := Option.map_eq_some_iff.mp hstep
        cases heq
        exact hdiffers buf true hbuf c₂ r hspill
  | displace n => exact absurd trivial h
  | truncate n => exact absurd trivial h
  | find needle caseSensitive offset searchSpace => exact absurd trivial h
  | copyOut bytes offset => exact absurd trivial h
  | toString bytes offset => exact absurd trivial h

/-! ## Whole runs -/

theorem observed_cons_some {c c' : SpillingChunks} {op : Op} {o : Output} {ops : List Op}
    (h : c.step op = some (c', o)) :
    c.observed (op :: ops) = (o, c'.bytes) :: c'.observed ops := by
  unfold observed
  rw [Run.transitions_cons_some h, List.map_cons]

/-- A run without a limit, and the one under a limit, from the same chunks. -/
theorem observed_withLimit_iff (limit : ℕ) (c : BChunks) (ops : List Op) :
    observed ⟨withLimit limit c, none⟩ ops = observed ⟨withLimit 0 c, none⟩ ops ↔
      Run.Guarded step (StaysInMemory limit) ⟨withLimit 0 c, none⟩ ops := by
  induction ops generalizing c with
  | nil => simp [observed, Run.transitions, Run.Guarded]
  | cons op ops ih =>
      by_cases hstays : StaysInMemory limit ⟨c, none⟩ op
      · obtain ⟨c', o, hfree, hlimited⟩ := step_of_staysInMemory hstays
        have hstays' : StaysInMemory limit ⟨withLimit 0 c, none⟩ op := by
          cases op <;> exact hstays
        rw [observed_cons_some hfree, observed_cons_some hlimited, Run.Guarded,
          Run.transitions_cons_some hfree]
        have hbytes : bytes ⟨withLimit limit c', none⟩ = bytes ⟨withLimit 0 c', none⟩ := rfl
        rw [hbytes, List.cons.injEq, List.forall_mem_cons]
        exact ⟨fun h => ⟨hstays', (ih c').mp h.2⟩, fun h => ⟨rfl, (ih c').mpr h.2⟩⟩
      · obtain ⟨c', o, hfree, hdiffers⟩ := step_of_not_staysInMemory hstays
        refine iff_of_false (fun heq => ?_) (fun hguard => ?_)
        · rw [observed_cons_some hfree] at heq
          cases hlimited : step ⟨withLimit limit c, none⟩ op with
          | none =>
              unfold observed at heq
              rw [Run.transitions_cons_none hlimited] at heq
              cases heq
          | some r =>
              obtain ⟨c'', o'⟩ := r
              rw [observed_cons_some hlimited, List.cons.injEq] at heq
              exact hdiffers c'' o' hlimited heq.1
        · have hfirst := hguard _ (Run.mem_transitions_head hfree)
          apply hstays
          cases op <;> exact hfirst

/-- **Moving to disk shows.**  Whatever the limits of a container and the calls made on it: it
returns the same, and the same bytes can be read after each call, with a limit for the bytes in
memory as without one, exactly if no call exceeds the limit. -/
theorem observed_eq_iff (limits : BChunks) (limit : ℕ) (ops : List Op) :
    observed (start limits limit) ops = observed (start limits 0) ops ↔
      Run.Guarded step (StaysInMemory limit) (start limits 0) ops :=
  observed_withLimit_iff limit limits.clear ops

/-- Two bytes with room for one: they count as stored, and none of them comes back. -/
theorem spilled_bytes_lost :
    observed (start {} 1) [.append [1, 2], .toString (2 ^ 64 - 1) 0]
        = [(.count (some 2), []), (.data (some []), [])] ∧
    observed (start {} 1) [.append [1, 2], .toString (2 ^ 64 - 1) 0]
        ≠ observed (start {} 0) [.append [1, 2], .toString (2 ^ 64 - 1) 0] := by
  decide

end Limit

end SpillingChunks

end Mantids
