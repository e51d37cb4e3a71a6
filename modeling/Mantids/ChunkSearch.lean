/-
# The calls of the chunk search

`B_Chunks::I_Chunk_GetPosForOffset` (`Memory/b_chunks.cpp`) calls itself with the position to look
at next and the bounds that are left, all of them `size_t`, where `MAX_SIZE_T` stands for one that
is not given.  `BChunks.chunkGetPosForOffset` is what comes of it; here the calls are followed one
by one.

* `SearchCall`, `searchTurn` — a call, and what it comes to;
* `getPosForOffset` — the calls one after the other, with the positions they looked at;
* `getPosForOffset_eq` — the calls end with the position that `chunkGetPosForOffset` says;
* `chunkSearch_correct` — the search ends inside the vector, at the chunk that holds the offset.
-/
import Mantids.BChunks
import Mantids.Lib.IntervalSearch
import Mantids.Lib.Loop

namespace Mantids

namespace BChunks

open BinaryContainerChunk IntervalSearch
open chunkGetPosForOffsetFrom (middle)

/-! ## The calls -/

/-- `MAX_SIZE_T`. -/
def maxSizeT : ℕ := 2 ^ 64 - 1

/-- The sum of two `size_t`. -/
def addSizeT (a b : ℕ) : ℕ := (a + b) % 2 ^ 64

/-- The arguments of a call, apart from the offset. -/
structure SearchCall where
  curpos : ℕ := maxSizeT
  curmax : ℕ := maxSizeT
  curmin : ℕ := maxSizeT
deriving DecidableEq

/-- What the calls come to: a value is returned, or the vector is accessed behind its end. -/
inductive SearchEnd where
  | returned (position : ℕ)
  | outside
deriving DecidableEq

/-- The call that a call makes for the bounds that are left. -/
def SearchCall.between (curmax curmin : ℕ) : SearchCall :=
  { curpos :=
      if curmin = curmax then curmin
      else
        subSizeT (addSizeT curmin (subSizeT (addSizeT curmax 1) curmin / 2))
          (subSizeT curmax curmin % 2)
    curmax := curmax
    curmin := curmin }

/-- One call of `I_Chunk_GetPosForOffset`, with the positions that were looked at so far. -/
def searchTurn (chunksVector : List BinaryContainerChunk) (offset : ℕ) (s : SearchCall × List ℕ) :
    (SearchCall × List ℕ) ⊕ (SearchEnd × List ℕ) :=
  let size := chunksVector.length
  if size = 0 then .inr (.returned maxSizeT, s.2)
  else
    let curpos :=
      if s.1.curpos = maxSizeT then (if size = 1 then 0 else subSizeT (size / 2) 1) else s.1.curpos
    let curmax :=
      if s.1.curmax = maxSizeT then (if size = 1 then 0 else subSizeT size 1) else s.1.curmax
    let curmin := if s.1.curmin = maxSizeT then 0 else s.1.curmin
    match chunksVector[curpos]? with
    | none => .inr (.outside, s.2 ++ [curpos])
    | some chunk =>
      if chunk.containsOffset offset then .inr (.returned curpos, s.2 ++ [curpos])
      else if offset < chunk.offset then
        -- search down
        if curpos = curmin then .inr (.returned maxSizeT, s.2 ++ [curpos])
        else .inl (.between (subSizeT curpos 1) curmin, s.2 ++ [curpos])
      else
        -- search up
        if curpos = curmax then .inr (.returned maxSizeT, s.2 ++ [curpos])
        else .inl (.between curmax (addSizeT curpos 1), s.2 ++ [curpos])

/-- The calls of `I_Chunk_GetPosForOffset(offset)`, for a bounded number of them. -/
def getPosForOffset (chunksVector : List BinaryContainerChunk) (offset fuel : ℕ) :
    Option (SearchEnd × List ℕ) :=
  Loop.run (fun _ s => some (searchTurn chunksVector offset s)) fuel ({}, [])

/-! ## One call -/

variable {cs : List BinaryContainerChunk} {offset pos hi lo : ℕ}

/-- Where a chunk starts, when the offsets are right. -/
def startOf (cs : List BinaryContainerChunk) (i : ℕ) : ℕ := sizes (cs.take i)

theorem monotone_startOf (cs : List BinaryContainerChunk) : Monotone (startOf cs) :=
  fun _ _ h => sizes_take_mono cs h

/-- A vector without empty chunks has no more chunks than bytes. -/
theorem length_le_sizes (hne : ∀ b ∈ cs, b.data ≠ []) : cs.length ≤ sizes cs := by
  induction cs with
  | nil => exact Nat.zero_le _
  | cons b cs ih =>
    rw [List.forall_mem_cons] at hne
    have hb : 0 < b.size := List.length_pos_of_ne_nil hne.1
    have htail := ih hne.2
    rw [List.length_cons, sizes_cons]
    omega

/-- In the range of the bounds nothing wraps around. -/
theorem between_eq (hle : lo ≤ hi) (hlt : hi < maxSizeT) :
    SearchCall.between hi lo = ⟨middle lo hi, hi, lo⟩ := by
  unfold maxSizeT at hlt
  have hadd : addSizeT hi 1 = hi + 1 := Nat.mod_eq_of_lt (by omega)
  have hwidth : subSizeT (hi + 1) lo = hi + 1 - lo := subSizeT_of_le (by omega) (by omega)
  have hdiff : subSizeT hi lo = hi - lo := subSizeT_of_le hle (by omega)
  have hhalf : addSizeT lo ((hi + 1 - lo) / 2) = lo + (hi + 1 - lo) / 2 :=
    Nat.mod_eq_of_lt (by omega)
  unfold SearchCall.between chunkGetPosForOffsetFrom.middle
  rw [hadd, hwidth, hdiff, hhalf]
  by_cases heq : lo = hi
  · rw [if_pos heq, if_pos heq]
  · -- an odd difference is at least one, and so is half of one more
    rw [if_neg heq, if_neg heq, subSizeT_of_le (by omega) (by omega)]

/-- The chunk at a position holds what is between its start and the next one. -/
theorem containsOffset_iff (ha : Aligned 0 cs) (hlt : sizes cs < 2 ^ 64)
    {chunk : BinaryContainerChunk} (hchunk : cs[pos]? = some chunk) (offset : ℕ) :
    chunk.containsOffset offset = true ↔ IsInterval (startOf cs) offset pos := by
  have hoff := ha.offset hchunk
  have hend := sizes_take_succ hchunk
  have hle := sizes_take_le cs (pos + 1)
  have hnext : chunk.nextOffset = startOf cs (pos + 1) := by
    rw [nextOffset, hoff, Nat.mod_eq_of_lt (by omega), startOf]
    omega
  simp [containsOffset, IsInterval, hnext, hoff, startOf]

/-- What a call between bounds of the vector does. -/
theorem searchTurn_eq (ha : Aligned 0 cs) (hlt : sizes cs < 2 ^ 64) (hlength : cs.length ≤ maxSizeT)
    (inspected : List ℕ) (hlo : lo ≤ pos) (hpos : pos ≤ hi) (hhi : hi < cs.length) (offset : ℕ) :
    searchTurn cs offset (⟨pos, hi, lo⟩, inspected) =
      if IsInterval (startOf cs) offset pos then .inr (.returned pos, inspected ++ [pos])
      else if offset < startOf cs pos then
        if pos = lo then .inr (.returned maxSizeT, inspected ++ [pos])
        else .inl (⟨middle lo (pos - 1), pos - 1, lo⟩, inspected ++ [pos])
      else
        if pos = hi then .inr (.returned maxSizeT, inspected ++ [pos])
        else
          .inl (⟨middle (pos + 1) hi, hi, pos + 1⟩, inspected ++ [pos]) := by
  obtain ⟨chunk, hchunk⟩ : ∃ chunk, cs[pos]? = some chunk := ⟨cs.get ⟨pos, by omega⟩, by simp⟩
  have hoff : chunk.offset = startOf cs pos := ha.offset hchunk
  -- the arguments are given, so that none of them is replaced
  have hgiven : ∀ x ≤ hi, ¬ x = maxSizeT := by omega
  unfold searchTurn
  dsimp only
  rw [if_neg (by omega : ¬ cs.length = 0), if_neg (hgiven pos hpos), if_neg (hgiven hi le_rfl),
    if_neg (hgiven lo (by omega)), hchunk]
  dsimp only
  simp only [containsOffset_iff ha hlt hchunk offset, hoff]
  split_ifs with hin hdown hend hend
  · rfl
  · rfl
  · have hsub : subSizeT pos 1 = pos - 1 :=
      subSizeT_of_le (by omega) (by unfold maxSizeT at *; omega)
    rw [hsub, between_eq (by omega) (by omega)]
  · rfl
  · have hadd : addSizeT pos 1 = pos + 1 := Nat.mod_eq_of_lt (by unfold maxSizeT at *; omega)
    rw [hadd, between_eq (by omega) (by omega)]

/-! ## All calls -/

/-- The calls go where the search goes, between their bounds. -/
theorem run_of_search (ha : Aligned 0 cs) (hlt : sizes cs < 2 ^ 64) (hlength : cs.length ≤ maxSizeT)
    {fuel : ℕ} {looks : List ℕ} {found : Option ℕ} (inspected : List ℕ)
    (hlo : lo ≤ pos) (hpos : pos ≤ hi) (hhi : hi < cs.length)
    (hsearch : search (startOf cs) middle offset fuel pos hi lo
      = some (looks, found)) :
    Loop.run (fun _ s => some (searchTurn cs offset s)) fuel (⟨pos, hi, lo⟩, inspected)
      = some (.returned (found.getD maxSizeT), inspected ++ looks) := by
  induction fuel generalizing pos hi lo looks inspected with
  | zero => cases hsearch
  | succ fuel ih =>
    have hturn := searchTurn_eq ha hlt hlength inspected hlo hpos hhi offset
    unfold search at hsearch
    rw [Loop.run, hturn]
    split_ifs at hsearch ⊢ with hin hdown hend hend
    · obtain ⟨rfl, rfl⟩ := Prod.mk.inj (Option.some.inj hsearch)
      rfl
    · obtain ⟨rfl, rfl⟩ := Prod.mk.inj (Option.some.inj hsearch)
      rfl
    · obtain ⟨⟨looks', found'⟩, hrest, heq⟩ := Option.map_eq_some_iff.mp hsearch
      obtain ⟨rfl, rfl⟩ := Prod.mk.inj heq
      obtain ⟨hl, hr⟩ := middle_mem (show lo ≤ pos - 1 by omega)
      dsimp only
      rw [ih (inspected ++ [pos]) hl hr (by omega) hrest, List.append_assoc]
      rfl
    · obtain ⟨rfl, rfl⟩ := Prod.mk.inj (Option.some.inj hsearch)
      rfl
    · obtain ⟨⟨looks', found'⟩, hrest, heq⟩ := Option.map_eq_some_iff.mp hsearch
      obtain ⟨rfl, rfl⟩ := Prod.mk.inj heq
      obtain ⟨hl, hr⟩ := middle_mem (show pos + 1 ≤ hi by omega)
      dsimp only
      rw [ih (inspected ++ [pos]) hl hr hhi hrest, List.append_assoc]
      rfl

/-- So does `chunkGetPosForOffsetFrom`. -/
theorem chunkGetPosForOffsetFrom_of_search (ha : Aligned 0 cs) (hlt : sizes cs < 2 ^ 64)
    {fuel : ℕ} {looks : List ℕ} {found : Option ℕ} (hlo : lo ≤ pos) (hpos : pos ≤ hi)
    (hhi : hi < cs.length)
    (hsearch : search (startOf cs) middle offset fuel pos hi lo
      = some (looks, found)) :
    chunkGetPosForOffsetFrom cs offset fuel pos hi lo = found := by
  induction fuel generalizing pos hi lo looks with
  | zero => cases hsearch
  | succ fuel ih =>
    obtain ⟨chunk, hchunk⟩ : ∃ chunk, cs[pos]? = some chunk := ⟨cs.get ⟨pos, by omega⟩, by simp⟩
    have hoff : chunk.offset = startOf cs pos := ha.offset hchunk
    unfold search at hsearch
    unfold chunkGetPosForOffsetFrom
    simp only [hchunk, containsOffset_iff ha hlt hchunk offset, hoff]
    split_ifs at hsearch ⊢ with hin hdown hend hend
    · exact congrArg Prod.snd (Option.some.inj hsearch)
    · exact congrArg Prod.snd (Option.some.inj hsearch)
    · obtain ⟨⟨looks', found'⟩, hrest, heq⟩ := Option.map_eq_some_iff.mp hsearch
      obtain ⟨rfl, rfl⟩ := Prod.mk.inj heq
      obtain ⟨hl, hr⟩ := middle_mem (show lo ≤ pos - 1 by omega)
      exact ih hl hr (by omega) hrest
    · exact congrArg Prod.snd (Option.some.inj hsearch)
    · obtain ⟨⟨looks', found'⟩, hrest, heq⟩ := Option.map_eq_some_iff.mp hsearch
      obtain ⟨rfl, rfl⟩ := Prod.mk.inj heq
      obtain ⟨hl, hr⟩ := middle_mem (show pos + 1 ≤ hi by omega)
      exact ih hl hr hhi hrest

/-- The call without arguments is the one for the whole vector. -/
theorem searchTurn_fresh (hne : cs ≠ []) (hlength : cs.length ≤ maxSizeT) :
    searchTurn cs offset ({}, []) =
      searchTurn cs offset
        (⟨if cs.length = 1 then 0 else cs.length / 2 - 1, cs.length - 1, 0⟩, []) := by
  have hpos : 0 < cs.length := List.length_pos_of_ne_nil hne
  have hmax : (0 : ℕ) ≠ maxSizeT := by decide
  unfold maxSizeT at hlength
  have hlast : subSizeT cs.length 1 = cs.length - 1 := subSizeT_of_le hpos (by omega)
  unfold searchTurn
  dsimp only
  by_cases hone : cs.length = 1
  · rw [hone]
    rfl
  · have hhalf : subSizeT (cs.length / 2) 1 = cs.length / 2 - 1 :=
      subSizeT_of_le (by omega) (by omega)
    simp only [if_neg hone, hlast, hhalf, if_neg hmax, if_true]
    rw [if_neg (show ¬ cs.length / 2 - 1 = maxSizeT by unfold maxSizeT; omega),
      if_neg (show ¬ cs.length - 1 = maxSizeT by unfold maxSizeT; omega)]

/-- **The search for an offset.**  The calls end, with what `chunkGetPosForOffset` says, and look at
positions of the vector only. -/
theorem getPosForOffset_eq {c : BChunks} (hne : ∀ b ∈ c.chunksVector, b.data ≠ [])
    (ha : Aligned 0 c.chunksVector) (hlt : sizes c.chunksVector < 2 ^ 64) (offset : ℕ) :
    (∃ fuel looks, getPosForOffset c.chunksVector offset fuel
        = some (.returned ((c.chunkGetPosForOffset offset).getD maxSizeT), looks) ∧
      ∀ i ∈ looks, i < c.chunksVector.length) ∧
    ∀ i, c.chunkGetPosForOffset offset = some i ↔
      i < c.chunksVector.length ∧ IsInterval (startOf c.chunksVector) offset i := by
  unfold chunkGetPosForOffset
  dsimp only
  rcases Nat.eq_zero_or_pos c.chunksVector.length with hzero | hpos
  · rw [if_pos hzero, hzero]
    refine ⟨⟨1, [], ?_, by simp⟩, fun i => by simp⟩
    unfold getPosForOffset Loop.run searchTurn
    rw [hzero]
    rfl
  · have hlength : c.chunksVector.length ≤ maxSizeT := by
      have hle := length_le_sizes hne
      unfold maxSizeT
      omega
    obtain ⟨looks, found, hsearch, hlooks, hfound⟩ := search_spec (x := offset)
      (monotone_startOf c.chunksVector) (fun _ _ => middle_mem) c.chunksVector.length
      (Nat.zero_le (if c.chunksVector.length = 1 then 0 else c.chunksVector.length / 2 - 1))
      (show _ ≤ c.chunksVector.length - 1 by split <;> omega) (by omega)
    have hfirst : (if c.chunksVector.length = 1 then 0 else c.chunksVector.length / 2 - 1)
        ≤ c.chunksVector.length - 1 := by split <;> omega
    have hrun := run_of_search ha hlt hlength [] (Nat.zero_le _) hfirst (by omega) hsearch
    have hfrom :=
      chunkGetPosForOffsetFrom_of_search ha hlt (Nat.zero_le _) hfirst (by omega) hsearch
    rw [if_neg (by omega), hfrom]
    refine ⟨⟨c.chunksVector.length, looks, ?_, fun i hi => ?_⟩, fun i => ?_⟩
    · obtain ⟨n, hn⟩ : ∃ n, c.chunksVector.length = n + 1 := ⟨_, (Nat.succ_pred hpos.ne').symm⟩
      rw [hn] at hrun ⊢
      unfold getPosForOffset
      rw [Loop.run, searchTurn_fresh (List.ne_nil_of_length_pos hpos) hlength, hn]
      exact hrun
    · have := hlooks i hi
      omega
    · rw [hfound]
      constructor
      · rintro ⟨-, hi, hin⟩
        exact ⟨by omega, hin⟩
      · rintro ⟨hi, hin⟩
        exact ⟨Nat.zero_le _, by omega, hin⟩

/-- The byte at the offset is in the chunk at the position. -/
def HoldsAt (chunksVector : List BinaryContainerChunk) (offset i : ℕ) : Prop :=
  ∃ chunk, chunksVector[i]? = some chunk ∧
    chunk.offset ≤ offset ∧ offset < chunk.offset + chunk.size

theorem holdsAt_iff (ha : Aligned 0 cs) {i : ℕ} :
    HoldsAt cs offset i ↔ i < cs.length ∧ IsInterval (startOf cs) offset i := by
  constructor
  · rintro ⟨chunk, hchunk, hle, hlt⟩
    have hoff := ha.offset hchunk
    have hend := sizes_take_succ hchunk
    refine ⟨(List.getElem?_eq_some_iff.mp hchunk).1, ?_, ?_⟩
    · rw [startOf]
      omega
    · rw [startOf]
      omega
  · rintro ⟨hi, hle, hlt⟩
    obtain ⟨chunk, hchunk⟩ : ∃ chunk, cs[i]? = some chunk := ⟨cs.get ⟨i, hi⟩, by simp⟩
    have hoff := ha.offset hchunk
    have hend := sizes_take_succ hchunk
    rw [startOf] at hle hlt
    exact ⟨chunk, hchunk, by omega, by omega⟩

/-- **The chunk search.**  It ends, looks at positions of the vector only, and returns the position
of the one chunk that holds the offset, or `MAX_SIZE_T` if the offset is not in front of the end. -/
theorem chunkSearch_correct (hne : ∀ b ∈ cs, b.data ≠ []) (ha : Aligned 0 cs)
    (hlt : sizes cs < 2 ^ 64) (offset : ℕ) :
    ∃ fuel position looks,
      getPosForOffset cs offset fuel = some (.returned position, looks) ∧
        (∀ i ∈ looks, i < cs.length) ∧
          (position = maxSizeT ↔ sizes cs ≤ offset) ∧
            (offset < sizes cs → ∀ i, HoldsAt cs offset i ↔ i = position) := by
  obtain ⟨⟨fuel, looks, hrun, hlooks⟩, hfound⟩ :=
    getPosForOffset_eq (c := { chunksVector := cs }) hne ha hlt offset
  have hlength := length_le_sizes hne
  refine ⟨fuel, _, looks, hrun, hlooks, ?_, fun hin => ?_⟩
  · constructor
    · intro hmax
      by_contra hin
      obtain ⟨i, hi, hlo, hhi⟩ := exists_holdsOffset cs (Nat.lt_of_not_le hin)
      rw [(hfound i).mpr ⟨hi, hlo, hhi⟩, Option.getD_some] at hmax
      unfold maxSizeT at hmax
      omega
    · intro hbeyond
      have hnone : BChunks.chunkGetPosForOffset { chunksVector := cs } offset = none := by
        by_contra hsome
        obtain ⟨i, hi⟩ := Option.ne_none_iff_exists'.mp hsome
        obtain ⟨-, -, hend⟩ := (hfound i).mp hi
        have hle : startOf cs (i + 1) ≤ sizes cs := sizes_take_le cs (i + 1)
        exact absurd (hend.trans_le hle) (Nat.not_lt.mpr hbeyond)
      rw [hnone]
      rfl
  · obtain ⟨i, hi, hlo, hhi⟩ := exists_holdsOffset cs hin
    have hat : i < cs.length ∧ IsInterval (startOf cs) offset i := ⟨hi, hlo, hhi⟩
    rw [(hfound i).mpr hat, Option.getD_some]
    intro j
    rw [holdsAt_iff ha]
    constructor
    · rintro ⟨-, hj⟩
      exact hj.unique (monotone_startOf cs) hat.2
    · rintro rfl
      exact hat

/-- Three chunks, and the offset of the byte in the last one. -/
theorem chunkSearch_correct_three :
    ∃ fuel position looks,
      getPosForOffset [⟨[97, 98], 0⟩, ⟨[99], 2⟩, ⟨[100], 3⟩] 3 fuel
          = some (.returned position, looks) ∧
        (∀ i ∈ looks, i < 3) ∧ (position = maxSizeT ↔ 4 ≤ 3) ∧
          (3 < 4 → ∀ i, HoldsAt [⟨[97, 98], 0⟩, ⟨[99], 2⟩, ⟨[100], 3⟩] 3 i ↔ i = position) :=
  have ha : Aligned 0 [⟨[97, 98], 0⟩, ⟨[99], 2⟩, ⟨[100], 3⟩] := ⟨rfl, rfl, rfl, trivial⟩
  chunkSearch_correct (by simp) ha (by decide) 3

end BChunks
end Mantids
