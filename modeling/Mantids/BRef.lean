/-
# A reference to a slice of a container

`B_Ref` (`Memory/b_ref.cpp`) shows a slice of another container: it keeps an offset and a greatest
number of bytes, and every operation translates its own positions.  The container is an in-memory
`B_Chunks` here.

* `BRef` — the reference and its operations;
* `Call`, `BRef.observed`, `BChunks.observed` — the answers of a reference, and of a container of
  its own, to a list of calls;
* `Refers` — a container that holds what a reference shows; every call keeps it;
* `AnswersAlike` — the calls that both answer alike;
* `observed_eq` — in a run of such calls nobody can tell a reference from a copy.

`displace` and `truncate` move the window as they should.  `findChar` returns the position in the
container and does not look at the end of the slice; `find` takes the first character for the whole
needle, since the `compare` under it always answers yes.
-/
import Mantids.BBaseCompare
import Mantids.BChunksSlices
import Mantids.Lib.Run

namespace Mantids

open Occurrence Scan BChunks

/-! ## The reference -/

/-- `B_Ref`, with `referencedBC` a `B_Chunks` in memory. -/
structure BRef where
  referencedBC : BChunks
  referencedOffset : ℕ
  referencedMaxBytes : ℕ
deriving DecidableEq

namespace BRef

def size (r : BRef) : ℕ :=
  sliceSize r.referencedBC.size r.referencedOffset r.referencedMaxBytes

/-- `reference`; the offset must not be beyond the end. -/
def reference (bc : BChunks) (offset maxBytes : ℕ) : Option BRef :=
  if bc.size < offset then none else some ⟨bc, offset, maxBytes⟩

/-- `B_Ref::findChar`; the position is not translated back. -/
def findChar (r : BRef) (c : UInt8) (offset searchSpace : ℕ) (caseSensitive : Bool) : Option ℕ :=
  r.referencedBC.findChar c ((r.referencedOffset + offset) % 2 ^ 64) searchSpace
    (caseSensitive && isalpha c)

/-- `B_Ref::compare2`, through `compare` of the container. -/
def compare2 (r : BRef) (buf : List UInt8) (caseSensitive : Bool) (offset : ℕ) : Bool :=
  if r.size < offset then false
  else
    BBase.compare (buf.take (min buf.length (r.size - offset))) caseSensitive
      ((r.referencedOffset + offset) % 2 ^ 64)

def find (r : BRef) (needle : List UInt8) (caseSensitive : Bool) (offset searchSpace : ℕ) :
    Search :=
  BBase.find r.size (fun c offset space => some (r.findChar c offset space caseSensitive))
    (r.compare2 needle caseSensitive) needle offset searchSpace

/-- `B_Ref::copyToBuffer2`. -/
def copyToBuffer2 (r : BRef) (bytes offset : ℕ) : Option (List UInt8) :=
  if r.size < offset then none
  else
    r.referencedBC.copyOut (min bytes (r.size - offset)) ((r.referencedOffset + offset) % 2 ^ 64)

def copyOut (r : BRef) (bytes offset : ℕ) : Option (List UInt8) :=
  BBase.copyOut r.size r.copyToBuffer2 bytes offset

def toString (r : BRef) (bytes offset : ℕ) : Option (List UInt8) :=
  BBase.toString r.size r.copyOut bytes offset

/-- `B_Ref::displace2`. -/
def displace2 (r : BRef) (bytesToDisplace : ℕ) : BRef × Option ℕ :=
  let bytesToDisplace := if r.size < bytesToDisplace then r.size else bytesToDisplace
  ({ r with
      referencedMaxBytes :=
        if r.referencedMaxBytes = 2 ^ 64 - 1 then r.referencedMaxBytes
        else subSizeT r.referencedMaxBytes bytesToDisplace
      referencedOffset := (r.referencedOffset + bytesToDisplace) % 2 ^ 64 },
    some bytesToDisplace)

def displace (r : BRef) (bytes : ℕ) : BRef × Option ℕ := r.displace2 (min bytes r.size)

/-- `truncate`, with `B_Ref::truncate2`. -/
def truncate (r : BRef) (bytes : ℕ) : BRef × Option ℕ :=
  if r.size ≤ bytes then (r, none) else ({ r with referencedMaxBytes := bytes }, some bytes)

/-! ## Calls -/

/-- The calls of a reader. -/
inductive Call where
  | size
  | findChar (c : UInt8) (offset searchSpace : ℕ) (caseSensitive : Bool)
  | find (needle : List UInt8) (caseSensitive : Bool) (offset searchSpace : ℕ)
  | compare (mem : List UInt8) (caseSensitive : Bool) (offset : ℕ)
  | copyOut (bytes offset : ℕ)
  | toString (bytes offset : ℕ)
  | displace (bytes : ℕ)
  | truncate (bytes : ℕ)
deriving DecidableEq

/-- What a call returns. -/
inductive Answer where
  | count (n : Option ℕ)
  | search (result : Search)
  | flag (b : Bool)
  | data (bytes : Option (List UInt8))
deriving DecidableEq

def step (r : BRef) : Call → Option (BRef × Answer)
  | .size => some (r, .count (some r.size))
  | .findChar c offset searchSpace caseSensitive =>
    some (r, .count (r.findChar c offset searchSpace caseSensitive))
  | .find needle caseSensitive offset searchSpace =>
    some (r, .search (r.find needle caseSensitive offset searchSpace))
  | .compare mem caseSensitive offset => some (r, .flag (BBase.compare mem caseSensitive offset))
  | .copyOut bytes offset => some (r, .data (r.copyOut bytes offset))
  | .toString bytes offset => some (r, .data (r.toString bytes offset))
  | .displace bytes => some ((r.displace bytes).1, .count (r.displace bytes).2)
  | .truncate bytes => some ((r.truncate bytes).1, .count (r.truncate bytes).2)

/-- The answers to a list of calls. -/
def observed (r : BRef) (calls : List Call) : List Answer :=
  (Run.transitions step r calls).map (·.output)

end BRef

namespace BChunks

def readStep (d : BChunks) : BRef.Call → Option (BChunks × BRef.Answer)
  | .size => some (d, .count (some d.size))
  | .findChar c offset searchSpace caseSensitive =>
    some (d, .count (d.findChar c offset searchSpace caseSensitive))
  | .find needle caseSensitive offset searchSpace =>
    some (d, .search (d.search needle caseSensitive offset searchSpace))
  | .compare mem caseSensitive offset => some (d, .flag (BBase.compare mem caseSensitive offset))
  | .copyOut bytes offset => some (d, .data (d.copyOut bytes offset))
  | .toString bytes offset => some (d, .data (d.toString bytes offset))
  | .displace bytes => some ((d.displace bytes).1, .count (d.displace bytes).2)
  | .truncate bytes => some ((d.truncate bytes).1, .count (d.truncate bytes).2)

/-- The answers to a list of calls. -/
def observed (d : BChunks) (calls : List BRef.Call) : List BRef.Answer :=
  (Run.transitions readStep d calls).map (·.output)

/-- A container of its own for some bytes, all of them in one chunk. -/
def ofBytes (w : List UInt8) : BChunks where
  chunksVector := if w = [] then [] else [{ data := w }]
  containerBytes := w.length

/-! ### A container with one chunk -/

variable {w : List UInt8}

@[simp] theorem size_ofBytes (w : List UInt8) : (ofBytes w).size = w.length := rfl

theorem chunksVector_ofBytes (hw : w ≠ []) : (ofBytes w).chunksVector = [{ data := w }] := if_neg hw

@[simp] theorem content_ofBytes (w : List UInt8) : (ofBytes w).content = w := by
  by_cases hw : w = []
  · rw [hw]
    rfl
  · rw [content, bytes, chunksVector_ofBytes hw, List.flatMap_singleton]
    exact List.take_length

theorem prefixSums_ofBytes (hlt : w.length < 2 ^ 64) : (ofBytes w).PrefixSums where
  offsets := by
    by_cases hw : w = []
    · rw [hw]
      intro i hi
      cases hi
    · rw [chunksVector_ofBytes hw]
      intro i hi
      obtain rfl : i = 0 := by simpa using hi
      rfl
  fits := by
    have hall := length_bytes (ofBytes w)
    by_cases hw : w = []
    · rw [hw]
      decide
    · rw [chunksVector_ofBytes hw, sizes_cons]
      exact hlt
  size_eq := by rw [content_ofBytes, size_ofBytes]

theorem recalcChunkOffsets_ofBytes (w : List UInt8) :
    (ofBytes w).recalcChunkOffsets = ofBytes w := by
  by_cases hw : w = []
  · rw [hw]
    rfl
  · unfold recalcChunkOffsets
    rw [chunksVector_ofBytes hw]
    simp only [recalcLoop, ofBytes, if_neg hw, List.length_nil]

theorem displace_ofBytes (hlt : w.length < 2 ^ 64) (n : ℕ) :
    (ofBytes w).displace n = (ofBytes (w.drop n), some (min n w.length)) := by
  have hloop : displace2Loop (ofBytes w).chunksVector w.length (min n w.length) 0 =
      ((ofBytes (w.drop n)).chunksVector, w.length - n, min n w.length) := by
    by_cases hw : w = []
    · rw [hw, List.drop_nil, List.length_nil, Nat.min_zero]
      simp [displace2Loop]
    · have hpos := List.length_pos_iff.mpr hw
      have hsize : ({ data := w } : BinaryContainerChunk).size = w.length := rfl
      rw [chunksVector_ofBytes hw]
      rcases Nat.lt_or_ge n w.length with hn | hn
      · -- the chunk stays, without its first bytes
        have hrest : w.drop n ≠ [] := by
          rw [Ne, List.drop_eq_nil_iff]
          omega
        rw [Nat.min_eq_left hn.le, chunksVector_ofBytes hrest]
        cases n with
        | zero => simp [displace2Loop]
        | succ n =>
            unfold displace2Loop
            rw [hsize, if_neg (by omega), subSizeT_of_le hn.le hlt, Nat.zero_add]
            rfl
      · rw [Nat.min_eq_right hn, List.drop_eq_nil_of_le hn, Nat.sub_eq_zero_of_le hn]
        obtain ⟨k, hk⟩ := Nat.exists_eq_add_of_lt hpos
        rw [hk]
        unfold displace2Loop
        rw [hsize, hk, if_pos le_rfl]
        simp [displace2Loop, subSizeT, ofBytes]
  have hleft : BChunks.mk (ofBytes (w.drop n)).chunksVector (w.length - n) (2 ^ 64 - 1) (64 * 1024)
      (256 * 1024) 0 = ofBytes (w.drop n) := by
    rw [← List.length_drop]
    rfl
  have hcount : (ofBytes w).containerBytes = w.length := rfl
  rw [displace, displace2, size_ofBytes, hcount, hloop]
  exact Prod.ext ((congrArg recalcChunkOffsets hleft).trans (recalcChunkOffsets_ofBytes _)) rfl

theorem truncate_ofBytes (hlt : w.length < 2 ^ 64) (n : ℕ) :
    (ofBytes w).truncate n =
      if w.length ≤ n then (ofBytes w, none) else (ofBytes (w.take n), some n) := by
  rw [truncate, size_ofBytes]
  split
  · rfl
  · rename_i hn
    have hw : w ≠ [] := by
      rintro rfl
      exact hn (Nat.zero_le n)
    have hvector := chunksVector_ofBytes hw
    have hsums := prefixSums_ofBytes hlt
    obtain ⟨ival, hfound, hival, -⟩ := chunkGetPosForOffset_holds hsums.aligned hsums.fits
      (show n < sizes (ofBytes w).chunksVector by
        rw [hvector]
        exact Nat.lt_of_not_le hn)
    obtain rfl : ival = 0 := by
      rw [hvector] at hival
      exact Nat.lt_one_iff.mp hival
    rw [truncate2, hfound, hvector]
    dsimp only [List.getElem?_cons_zero]
    by_cases h0 : n = 0
    · rw [h0]
      rfl
    · have htake : w.take n ≠ [] := by
        rw [Ne, List.take_eq_nil_iff]
        exact not_or.mpr ⟨h0, hw⟩
      have hlen : (w.take n).length = n := List.length_take_of_le (by omega)
      have hcut : ({ data := w } : BinaryContainerChunk).truncate n = { data := w.take n } := by
        have hsize : ({ data := w } : BinaryContainerChunk).size = w.length := rfl
        have hstart : ({ data := w } : BinaryContainerChunk).offset = 0 := rfl
        rw [BinaryContainerChunk.truncate, hsize, hstart, Nat.zero_add, Nat.mod_eq_of_lt hlt,
          if_neg hn, if_neg (by omega), Nat.sub_zero]
      rw [if_neg (Ne.symm h0), hcut, ofBytes, ofBytes, if_neg htake, hlen]
      rfl

end BChunks

/-! ## What a reference shows -/

namespace BRef

variable {r : BRef} {c : UInt8} {needle : List UInt8} {caseSensitive : Bool}

/-- The slice of the content that the reference shows. -/
def content (r : BRef) : List UInt8 :=
  (r.referencedBC.content.drop r.referencedOffset).take r.size

/-- The reference starts inside the container, whose size is the size of its content and less than
half of what `size_t` counts. -/
structure Valid (r : BRef) : Prop where
  inside : r.referencedOffset ≤ r.referencedBC.size
  content_size : r.referencedBC.content.length = r.referencedBC.size
  memory : r.referencedBC.size < 2 ^ 63
  limit : r.referencedMaxBytes < 2 ^ 64

theorem Valid.size_eq (h : r.Valid) :
    r.size = min r.referencedMaxBytes (r.referencedBC.size - r.referencedOffset) :=
  sliceSize_eq h.inside (lt_trans h.memory (by decide))

theorem Valid.add_size_le (h : r.Valid) : r.referencedOffset + r.size ≤ r.referencedBC.size := by
  have hin := h.inside
  rw [h.size_eq]
  omega

theorem Valid.length_content (h : r.Valid) : r.content.length = r.size := by
  have hle := h.add_size_le
  rw [content, List.length_take, List.length_drop, h.content_size]
  omega

/-- The calls that a reference answers as a copy of its slice does.

* A character is not found at all, in a stretch of the container, or the reference starts where the
  container does and the stretch ends in the slice.
* If the first character of a needle is found, the needle is reported in the slice for the first
  time at that very number; if that number is not inside the slice, it is not reported at all.
* What is copied comes from a container with right offsets. -/
def AnswersAlike (r : BRef) : Call → Prop
  | .findChar c offset searchSpace caseSensitive =>
    let start := (r.referencedOffset + offset) % 2 ^ 64
    ∀ p, firstIn (candidate r.referencedBC.content c (caseSensitive && isalpha c)) start
        searchSpace = some p →
      start + searchSpace ≤ r.referencedBC.size →
        r.referencedOffset = 0 ∧ offset + searchSpace ≤ r.size
  | .find (c :: needle) caseSensitive offset searchSpace =>
    let start := r.referencedOffset + offset
    let space := spaceOf r.size offset searchSpace
    ∀ p, firstIn (candidate r.referencedBC.content c (caseSensitive && isalpha c)) start
        space = some p →
      offset ≤ r.size → (c :: needle).length ≤ space → start + space ≤ r.referencedBC.size →
        firstReported r.content c (c :: needle) caseSensitive offset searchSpace =
          if p ≤ r.size then some p else none
  | .copyOut _ _ => r.referencedBC.PrefixSums
  | .toString _ _ => r.referencedBC.PrefixSums
  | _ => True

/-! ### Searching -/

theorem candidate_content (either : Bool) {q : ℕ} (hq : q < r.size) :
    candidate r.content c either q =
      candidate r.referencedBC.content c either (r.referencedOffset + q) := by
  rw [candidate, candidate, content, List.getElem?_take_of_lt hq, List.getElem?_drop]

theorem Valid.findChar_eq (h : r.Valid) (c : UInt8) (offset searchSpace : ℕ)
    (caseSensitive : Bool) :
    r.findChar c offset searchSpace caseSensitive =
      if r.referencedBC.size < (r.referencedOffset + offset) % 2 ^ 64 + searchSpace then none
      else
        firstIn (candidate r.referencedBC.content c (caseSensitive && isalpha c))
          ((r.referencedOffset + offset) % 2 ^ 64) searchSpace := by
  rw [findChar, findChar_eq_ite (lt_trans h.memory (by decide)), Bool.and_assoc, Bool.and_self]

/-- `compare2` answers yes to every position inside the slice. -/
theorem Valid.compare2_eq (h : r.Valid) (needle : List UInt8) (caseSensitive : Bool) (p : ℕ) :
    r.compare2 needle caseSensitive p = decide (p ≤ r.size) := by
  have hle := h.add_size_le
  have hmem := h.memory
  unfold compare2
  by_cases hp : p ≤ r.size
  · rw [if_neg (by omega), BBase.compare_eq, List.length_take, Nat.mod_eq_of_lt (by omega),
      decide_eq_true hp, decide_eq_true (by omega)]
  · rw [if_pos (by omega), decide_eq_false hp]

/-- The search stops at the first place of the container that has the first character of the needle,
and returns it as a position in the slice if it is none beyond it. -/
theorem Valid.findLoop_eq (h : r.Valid) {fuel offset space : ℕ}
    (hoffset : offset ≤ r.referencedBC.size)
    (hfuel : 0 < fuel ∧ r.referencedBC.size < r.referencedOffset + offset + space ∨ space < fuel) :
    BBase.findLoop (fun offset space => some (r.findChar c offset space caseSensitive))
        (r.compare2 needle caseSensitive) fuel offset space =
      .done (if r.referencedBC.size < r.referencedOffset + offset + space then none
        else
          (firstIn (candidate r.referencedBC.content c (caseSensitive && isalpha c))
            (r.referencedOffset + offset) space).filter (fun p => decide (p ≤ r.size))) := by
  have hin := h.inside
  have hmem := h.memory
  have hle := h.add_size_le
  induction fuel generalizing offset space with
  | zero => omega
  | succ fuel ih =>
      unfold BBase.findLoop
      rw [h.findChar_eq, Nat.mod_eq_of_lt (by omega)]
      by_cases hout : r.referencedBC.size < r.referencedOffset + offset + space
      · rw [if_pos hout, if_pos hout]
      · rw [if_neg hout, if_neg hout]
        cases hf : firstIn (candidate r.referencedBC.content c (caseSensitive && isalpha c))
            (r.referencedOffset + offset) space with
        | none => rfl
        | some p =>
            obtain ⟨hstart, hend, -, -⟩ := firstIn_eq_some_iff.mp hf
            have hpos : (offset + subSizeT p offset) % 2 ^ 64 = p := by
              rw [subSizeT_of_le (by omega) (by omega), Nat.mod_eq_of_lt (by omega)]
              omega
            dsimp only
            rw [hpos, h.compare2_eq, Option.filter_some]
            by_cases hp : p ≤ r.size
            · rw [decide_eq_true hp, if_pos rfl, if_pos rfl]
            · -- no later candidate is inside the slice either
              rw [decide_eq_false hp, if_neg Bool.false_ne_true, if_neg Bool.false_ne_true]
              split
              · rfl
              · rename_i hleft
                have hspace : subSizeT space (subSizeT p offset) = space - (p - offset) ∧
                    p - offset ≤ space ∨
                    subSizeT space (subSizeT p offset) = space + 2 ^ 64 - (p - offset) ∧
                      space < p - offset := by
                  rw [subSizeT_of_le (show offset ≤ p by omega) (by omega), subSizeT]
                  omega
                generalize subSizeT space (subSizeT p offset) = left at hleft hspace
                rw [Nat.mod_eq_of_lt (by omega), ih (by omega) (by omega)]
                split
                · rfl
                · cases hn : firstIn
                      (candidate r.referencedBC.content c (caseSensitive && isalpha c))
                      (r.referencedOffset + (p + 1)) (left - 1) with
                  | none => rfl
                  | some q =>
                      have hq := (firstIn_eq_some_iff.mp hn).1
                      rw [Option.filter_some, decide_eq_false (by omega),
                        if_neg Bool.false_ne_true]

/-- What a search through a reference returns. -/
theorem Valid.find_eq (h : r.Valid) (c : UInt8) (needle : List UInt8) (caseSensitive : Bool)
    {offset : ℕ} (hoffset : offset ≤ r.size) (searchSpace : ℕ) :
    r.find (c :: needle) caseSensitive offset searchSpace =
      .done (if spaceOf r.size offset searchSpace < (c :: needle).length then none
        else if r.referencedBC.size <
          r.referencedOffset + offset + spaceOf r.size offset searchSpace then none
        else
          (firstIn (candidate r.referencedBC.content c (caseSensitive && isalpha c))
            (r.referencedOffset + offset) (spaceOf r.size offset searchSpace)).filter
              (fun p => decide (p ≤ r.size))) := by
  have hle := h.add_size_le
  have hmem := h.memory
  have hpos : 0 < (c :: needle).length := Nat.succ_pos _
  have hspace : searchSpace ≤ spaceOf r.size offset searchSpace := by
    unfold spaceOf
    split <;> omega
  by_cases hover : offset + spaceOf r.size offset searchSpace < 2 ^ 64
  · rw [find, BBase.find_cons hoffset hover, h.findLoop_eq (by omega) (Or.inr (by omega))]
    split_ifs <;> rfl
  · -- the request overflows
    have hall : spaceOf r.size offset searchSpace = searchSpace := by
      unfold spaceOf at hover ⊢
      split at hover
      · omega
      · rw [if_neg (by assumption)]
    rw [hall] at hover ⊢
    rw [if_pos (show r.referencedBC.size < r.referencedOffset + offset + searchSpace by omega),
      ite_self, find, BBase.find, (checkUIntOverflowSum_iff offset searchSpace).mpr (by omega),
      if_pos rfl, ite_self]

/-! ### The copy -/

/-- The container of its own that holds what the reference shows. -/
def copy (r : BRef) : BChunks := ofBytes r.content

theorem Valid.size_copy (h : r.Valid) : r.copy.size = r.size := by
  rw [copy, size_ofBytes, h.length_content]

theorem Valid.size_lt (h : r.Valid) : r.copy.size < 2 ^ 64 := by
  have hle := h.add_size_le
  have hmem := h.memory
  rw [h.size_copy]
  omega

theorem Valid.findChar_copy (h : r.Valid) {c : UInt8} {offset searchSpace : ℕ}
    (halike : r.AnswersAlike (.findChar c offset searchSpace caseSensitive)) :
    r.copy.findChar c offset searchSpace caseSensitive =
      r.findChar c offset searchSpace caseSensitive := by
  have hin := h.inside
  have hmem := h.memory
  have hle := h.add_size_le
  rw [h.findChar_eq, findChar_eq_ite h.size_lt, h.size_copy, copy, content_ofBytes]
  have hnone : offset + searchSpace ≤ r.size →
      firstIn (candidate r.referencedBC.content c (caseSensitive && isalpha c))
        ((r.referencedOffset + offset) % 2 ^ 64) searchSpace = none →
      firstIn (candidate r.content c (caseSensitive && isalpha c)) offset searchSpace = none := by
    intro hspace hf
    rw [Nat.mod_eq_of_lt (by omega), firstIn_eq_none_iff] at hf
    rw [firstIn_eq_none_iff]
    intro q hq hq'
    rw [candidate_content _ (by omega), hf _ (by omega) (by omega)]
  by_cases hout : r.referencedBC.size < (r.referencedOffset + offset) % 2 ^ 64 + searchSpace
  · rw [if_pos hout]
    split
    · rfl
    · -- what is left of the container is less than the slice
      rw [Nat.mod_eq_of_lt (by omega)] at hout
      omega
  · rw [if_neg hout]
    cases hf : firstIn (candidate r.referencedBC.content c (caseSensitive && isalpha c))
        ((r.referencedOffset + offset) % 2 ^ 64) searchSpace with
    | none =>
        split
        · rfl
        · exact hnone (by omega) hf
    | some p =>
        obtain ⟨hzero, hend⟩ := halike p hf (by omega)
        rw [if_neg (by omega), ← hf, hzero, Nat.zero_add, Nat.mod_eq_of_lt (by omega)]
        refine firstIn_congr (fun q hq hq' => ?_)
        rw [candidate_content _ (by omega), hzero, Nat.zero_add]

theorem Valid.find_copy (h : r.Valid) {needle : List UInt8} {offset searchSpace : ℕ}
    (halike : r.AnswersAlike (.find needle caseSensitive offset searchSpace)) :
    r.copy.search needle caseSensitive offset searchSpace =
      r.find needle caseSensitive offset searchSpace := by
  have hin := h.inside
  have hmem := h.memory
  have hle := h.add_size_le
  have hlen := h.length_content
  by_cases hoffset : offset ≤ r.size
  · cases needle with
    | nil =>
        rw [BChunks.search, find, h.size_copy]
        rfl
    | cons c needle =>
        have hspace : searchSpace = 0 ∧ spaceOf r.size offset searchSpace = r.size - offset ∨
            spaceOf r.size offset searchSpace = searchSpace := by
          unfold spaceOf
          split <;> omega
        rw [search_eq_firstReported h.size_lt (by rw [h.size_copy, copy, content_ofBytes, hlen]) c
          needle caseSensitive (by rw [h.size_copy]; exact hoffset),
            h.find_eq c needle caseSensitive
          hoffset, copy, content_ofBytes]
        congr 1
        by_cases hshort : spaceOf r.size offset searchSpace < (c :: needle).length
        · rw [firstReported, hlen, if_pos hshort, if_pos hshort, ite_self]
        · by_cases hout : r.referencedBC.size <
              r.referencedOffset + offset + spaceOf r.size offset searchSpace
          · rw [firstReported, hlen, if_pos (show r.size < offset + searchSpace by omega),
              if_neg hshort, if_pos hout]
          · rw [if_neg hshort, if_neg hout]
            cases hf : firstIn (candidate r.referencedBC.content c (caseSensitive && isalpha c))
                (r.referencedOffset + offset) (spaceOf r.size offset searchSpace) with
            | none =>
                rw [firstReported, hlen, if_neg hshort]
                split
                · rfl
                · refine firstIn_miss (fun q hq => (Bool.and_eq_true_iff.mp hq).1) ?_
                  rw [firstIn_eq_none_iff] at hf ⊢
                  intro q hq hq'
                  rw [candidate_content _ (by omega), hf _ (by omega) (by omega)]
            | some p =>
                rw [halike p hf hoffset (by omega) (by omega), Option.filter_some]
                simp only [decide_eq_true_eq]
  · rw [BChunks.search, find, BBase.find_of_lt (by rw [h.size_copy]; omega),
      BBase.find_of_lt (by omega)]

/-- What is copied through a reference is the slice of what it shows. -/
theorem Valid.copyToBuffer2_eq (h : r.Valid) (hsums : r.referencedBC.PrefixSums) {n offset : ℕ}
    (hpos : 0 < n) (hend : offset + n ≤ r.content.length) :
    r.copyToBuffer2 n offset = some ((r.content.drop offset).take n) := by
  have hmem := h.memory
  have hle := h.add_size_le
  rw [h.length_content] at hend
  have hreq : requested r.referencedBC.size n (r.referencedOffset + offset) = n :=
    if_neg (by omega)
  have hex : ¬ Exceeds r.referencedBC.size n (r.referencedOffset + offset) := by
    unfold Exceeds
    rw [if_neg (by omega)]
    omega
  unfold copyToBuffer2
  rw [if_neg (by omega), Nat.min_eq_left (by omega), Nat.mod_eq_of_lt (by omega),
    hsums.copyOut n (by omega), if_neg hex, hreq, content, List.drop_take, List.take_take,
    List.drop_drop, Nat.min_eq_left (by omega)]

theorem Valid.copyOut_copy (h : r.Valid) (hsums : r.referencedBC.PrefixSums) :
    r.copy.copyOut = r.copyOut := by
  have hcopy : r.copy.PrefixSums := by
    have hlt := h.size_lt
    rw [h.size_copy, ← h.length_content] at hlt
    exact prefixSums_ofBytes hlt
  have hbase : r.copy.copyOut = BBase.copyOut r.copy.size r.copy.copyToBuffer2 := rfl
  rw [hbase, h.size_copy]
  refine BBase.copyOut_congr (fun n o hpos hin => ?_)
  rw [h.copyToBuffer2_eq hsums hpos (by rw [h.length_content]; exact hin),
    hcopy.copyToBuffer2 hpos (by rw [h.size_copy]; exact hin), copy, content_ofBytes]

/-- `displace` moves the start of the window. -/
theorem Valid.displace (h : r.Valid) (n : ℕ) :
    (r.displace n).1.Valid ∧ (r.displace n).1.content = r.content.drop n ∧
      (r.displace n).2 = some (min n r.size) := by
  have hin := h.inside
  have hmem := h.memory
  have hlimit := h.limit
  have hle := h.add_size_le
  have hsize := h.size_eq
  have hmax : r.size ≤ r.referencedMaxBytes := by omega
  have hmin : min n r.size ≤ r.size := Nat.min_le_right _ _
  have hstep : r.displace n = ({ r with
      referencedMaxBytes :=
        if r.referencedMaxBytes = 2 ^ 64 - 1 then r.referencedMaxBytes
        else r.referencedMaxBytes - min n r.size
      referencedOffset := r.referencedOffset + min n r.size }, some (min n r.size)) := by
    rw [BRef.displace, displace2, if_neg (by omega), Nat.mod_eq_of_lt (by omega),
      subSizeT_of_le (by omega) hlimit]
  rw [hstep]
  generalize hk : min n r.size = k at hmin
  have hvalid : Valid { r with
      referencedMaxBytes :=
        if r.referencedMaxBytes = 2 ^ 64 - 1 then r.referencedMaxBytes
        else r.referencedMaxBytes - k
      referencedOffset := r.referencedOffset + k } :=
    ⟨by dsimp only; omega, h.content_size, hmem, by dsimp only; split <;> omega⟩
  refine ⟨hvalid, ?_, rfl⟩
  have hleft : BRef.size { r with
      referencedMaxBytes :=
        if r.referencedMaxBytes = 2 ^ 64 - 1 then r.referencedMaxBytes
        else r.referencedMaxBytes - k
      referencedOffset := r.referencedOffset + k } = r.size - k := by
    rw [hvalid.size_eq]
    dsimp only
    split <;> omega
  have hdrop : r.content.drop n = r.content.drop k := by
    rw [← hk, ← h.length_content]
    rcases Nat.le_total n r.content.length with hn | hn
    · rw [Nat.min_eq_left hn]
    · rw [Nat.min_eq_right hn, List.drop_eq_nil_of_le hn, List.drop_length]
  rw [hdrop, content, content, hleft, List.drop_take, List.drop_drop]

/-- `truncate` moves the end of the window. -/
theorem Valid.truncate (h : r.Valid) {n : ℕ} (hn : n < r.size) :
    (r.truncate n).1.Valid ∧ (r.truncate n).1.content = r.content.take n ∧
      (r.truncate n).2 = some n := by
  have hin := h.inside
  have hmem := h.memory
  have hsize := h.size_eq
  have hstep : r.truncate n = ({ r with referencedMaxBytes := n }, some n) := if_neg (by omega)
  rw [hstep]
  have hvalid : Valid { r with referencedMaxBytes := n } :=
    ⟨hin, h.content_size, hmem, by dsimp only; omega⟩
  refine ⟨hvalid, ?_, rfl⟩
  have hleft : BRef.size { r with referencedMaxBytes := n } = n := by
    rw [hvalid.size_eq]
    dsimp only
    omega
  rw [content, content, hleft, List.take_take, Nat.min_eq_left hn.le]

/-! ### Runs -/

theorem step_ne_none (r : BRef) (call : Call) : r.step call ≠ none := by
  cases call <;> simp [BRef.step]

/-- A call that is answered alike leaves the reference and the copy alike. -/
theorem Valid.step (h : r.Valid) {call : Call} (halike : r.AnswersAlike call) {r' : BRef}
    {answer : Answer} (hstep : r.step call = some (r', answer)) :
    r'.Valid ∧ readStep r.copy call = some (r'.copy, answer) := by
  have hlt : r.content.length < 2 ^ 64 := by
    rw [h.length_content, ← h.size_copy]
    exact h.size_lt
  cases call with
  | size =>
      obtain ⟨rfl, rfl⟩ := Prod.mk.inj (Option.some.inj hstep)
      refine ⟨h, ?_⟩
      rw [readStep, h.size_copy]
  | findChar c offset searchSpace caseSensitive =>
      obtain ⟨rfl, rfl⟩ := Prod.mk.inj (Option.some.inj hstep)
      refine ⟨h, ?_⟩
      rw [readStep, h.findChar_copy halike]
  | find needle caseSensitive offset searchSpace =>
      obtain ⟨rfl, rfl⟩ := Prod.mk.inj (Option.some.inj hstep)
      refine ⟨h, ?_⟩
      rw [readStep, h.find_copy halike]
  | compare mem caseSensitive offset =>
      obtain ⟨rfl, rfl⟩ := Prod.mk.inj (Option.some.inj hstep)
      exact ⟨h, rfl⟩
  | copyOut bytes offset =>
      obtain ⟨rfl, rfl⟩ := Prod.mk.inj (Option.some.inj hstep)
      refine ⟨h, ?_⟩
      rw [readStep, h.copyOut_copy halike]
  | toString bytes offset =>
      obtain ⟨rfl, rfl⟩ := Prod.mk.inj (Option.some.inj hstep)
      refine ⟨h, ?_⟩
      rw [readStep, BChunks.toString, h.size_copy, h.copyOut_copy halike]
      rfl
  | displace n =>
      obtain ⟨rfl, rfl⟩ := Prod.mk.inj (Option.some.inj hstep)
      obtain ⟨hvalid, hcontent, hcount⟩ := h.displace n
      refine ⟨hvalid, ?_⟩
      rw [readStep, copy, displace_ofBytes hlt, copy, hcontent, hcount, h.length_content]
  | truncate n =>
      obtain ⟨rfl, rfl⟩ := Prod.mk.inj (Option.some.inj hstep)
      rw [readStep, copy, truncate_ofBytes hlt, h.length_content]
      rcases Nat.lt_or_ge n r.size with hn | hn
      · obtain ⟨hvalid, hcontent, hcount⟩ := h.truncate hn
        refine ⟨hvalid, ?_⟩
        rw [if_neg (by omega), copy, hcontent, hcount]
      · have hsame : r.truncate n = (r, none) := if_pos hn
        rw [if_pos hn, hsame]
        exact ⟨h, rfl⟩

/-- **A reference behaves as a copy.**  To a list of calls that are all answered alike, a reference
gives the answers of a container of its own for the slice. -/
theorem observed_eq {bc : BChunks} {offset maxBytes : ℕ} (hoffset : offset ≤ bc.size)
    (hcontent : bc.content.length = bc.size) (hmem : bc.size < 2 ^ 63) (hmax : maxBytes < 2 ^ 64)
    {calls : List Call} (hcalls : Run.Guarded BRef.step AnswersAlike ⟨bc, offset, maxBytes⟩ calls) :
    BRef.observed ⟨bc, offset, maxBytes⟩ calls =
      BChunks.observed (ofBytes ((bc.content.drop offset).take (min maxBytes (bc.size - offset))))
        calls := by
  have hvalid : Valid ⟨bc, offset, maxBytes⟩ := ⟨hoffset, hcontent, hmem, hmax⟩
  have hslice : ofBytes ((bc.content.drop offset).take (min maxBytes (bc.size - offset))) =
      BRef.copy ⟨bc, offset, maxBytes⟩ := by
    rw [copy, content, hvalid.size_eq]
  rw [hslice]
  refine hcalls.outputs_eq (fun r d => r.Valid ∧ d = r.copy) ?_ ?_ ⟨hvalid, rfl⟩
  · intro r d call _ hnone
    exact absurd hnone (step_ne_none r call)
  · rintro r d call r' answer ⟨hr, rfl⟩ halike hstep
    obtain ⟨hr', hcopy⟩ := hr.step halike hstep
    exact ⟨_, hcopy, hr', rfl⟩

/-- Reading through a reference to the second half of a container, which is then moved on. -/
theorem observed_eq_half :
    let bc : BChunks := { chunksVector := [⟨[1, 2], 0⟩, ⟨[3, 4], 2⟩], containerBytes := 4 }
    let calls : List Call :=
      [.size, .findChar 1 0 0 true, .copyOut 3 0, .displace 1, .toString 2 0, .truncate 1, .size]
    BRef.observed ⟨bc, 1, 3⟩ calls = (ofBytes [2, 3, 4]).observed calls := by
  intro bc calls
  have hsums : bc.PrefixSums := ⟨by decide, by decide, by decide⟩
  refine observed_eq (by decide) (by decide) (by decide) (by decide) ?_
  refine .cons rfl trivial (.cons rfl ?_ (.cons rfl hsums (.cons rfl trivial (.cons rfl hsums
    (.cons rfl trivial (.cons rfl trivial (Run.guarded_nil _)))))))
  intro p hp
  cases hp

/-- A reference that starts behind the first byte gives the position of a character in the
container, finds a needle that is not there, and finds a character behind its end. -/
theorem observed_ne :
    let bc : BChunks := { chunksVector := [⟨[1, 2, 3, 4], 0⟩], containerBytes := 4 }
    BRef.observed ⟨bc, 1, 2⟩ [.findChar 3 0 2 true] = [.count (some 2)] ∧
      (ofBytes [2, 3]).observed [.findChar 3 0 2 true] = [.count (some 1)] ∧
      BRef.observed ⟨bc, 1, 2⟩ [.find [2, 9] true 0 0] = [.search (.done (some 1))] ∧
      (ofBytes [2, 3]).observed [.find [2, 9] true 0 0] = [.search (.done none)] ∧
      BRef.observed ⟨bc, 0, 2⟩ [.findChar 3 0 3 true] = [.count (some 2)] ∧
      (ofBytes [1, 2]).observed [.findChar 3 0 3 true] = [.count none] ∧
      BRef.observed ⟨bc, 1, 2⟩ [.findChar 3 0 2 true] ≠
        (ofBytes ((bc.content.drop 1).take (min 2 (bc.size - 1)))).observed
          [.findChar 3 0 2 true] := by
  decide

end BRef

end Mantids
