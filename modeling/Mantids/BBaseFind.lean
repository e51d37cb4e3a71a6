/-
# Searching a container

`B_Base::find` is one loop for every kind of container: `findChar` names the next place with the
first character of the needle, and `compare2` decides whether the needle is there.

* `BBase.find` — the search, over these two functions of the container;
* `findLoop_eq` — the search of a container whose `findChar` is the first candidate in a space that
  is not empty; what happens at the end of the space is left open;
* `BChunks.search_isLeast` — an exact search of a `B_Chunks` returns the least place.

The space is counted down in `size_t`, and a space of zero means something else to every
`findChar`.
-/
import Mantids.BMmap

namespace Mantids

open Occurrence Scan

/-- What comes out of a search. -/
inductive Search where
  | done (pos : Option ℕ)
  | threw
  /-- The loop has not come to an end. -/
  | running
deriving DecidableEq

namespace BBase

/-- The loop of `find`; `findChar` is `none` where it throws. -/
def findLoop (findChar : ℕ → ℕ → Option (Option ℕ)) (compare2 : ℕ → Bool) : ℕ → ℕ → ℕ → Search
  | 0, _, _ => .running
  | fuel + 1, currentOffset, searchSpace =>
    match findChar currentOffset searchSpace with
    | none => .threw
    | some none => .done none
    | some (some pos) =>
      let displacement := subSizeT pos currentOffset
      let currentOffset := (currentOffset + displacement) % 2 ^ 64
      let searchSpace := subSizeT searchSpace displacement
      if compare2 currentOffset then .done (some currentOffset)
      else if searchSpace = 0 then .done none
      else findLoop findChar compare2 fuel ((currentOffset + 1) % 2 ^ 64) (searchSpace - 1)

/-- `B_Base::find`.  A round of the loop takes at least one byte off the space. -/
def find (size : ℕ) (findChar : UInt8 → ℕ → ℕ → Option (Option ℕ)) (compare2 : ℕ → Bool)
    (needle : List UInt8) (offset searchSpace : ℕ) : Search :=
  if checkUIntOverflowSum offset needle.length then .done none
  else if checkUIntOverflowSum offset searchSpace then .done none
  else if size < offset then .done none
  else
    let searchSpace := BChunks.spaceOf size offset searchSpace
    if searchSpace = 0 then .done none
    else if searchSpace < needle.length then .done none
    else
      match needle with
      | [] => .done (some 0)
      | c :: _ => findLoop (findChar c) compare2 (searchSpace + 2) offset searchSpace

/-- An empty needle is found at once, at the start of the container. -/
theorem find_nil {size : ℕ} (hsize : size < 2 ^ 64)
    (findChar : UInt8 → ℕ → ℕ → Option (Option ℕ)) (compare2 : ℕ → Bool) {offset searchSpace : ℕ}
    (hoffset : offset ≤ size) (hin : offset + searchSpace ≤ size) :
    find size findChar compare2 [] offset searchSpace =
      .done (if BChunks.spaceOf size offset searchSpace = 0 then none else some 0) := by
  unfold find
  rw [checkUIntOverflowSum_eq_false (by simp; omega), checkUIntOverflowSum_eq_false (by omega),
    if_neg (by simp), if_neg (by simp), if_neg (by omega)]
  dsimp only
  split
  · rfl
  · rw [if_neg (by simp)]

/-- Other needles are left to the loop, if the space is long enough for them. -/
theorem find_cons {size offset searchSpace : ℕ} (hoffset : offset ≤ size)
    (hspace : offset + BChunks.spaceOf size offset searchSpace < 2 ^ 64)
    (findChar : UInt8 → ℕ → ℕ → Option (Option ℕ)) (compare2 : ℕ → Bool) (c : UInt8)
    (needle : List UInt8) :
    find size findChar compare2 (c :: needle) offset searchSpace =
      if BChunks.spaceOf size offset searchSpace < (c :: needle).length then .done none
      else
        findLoop (findChar c) compare2 (BChunks.spaceOf size offset searchSpace + 2) offset
          (BChunks.spaceOf size offset searchSpace) := by
  have hpos : 0 < (c :: needle).length := Nat.succ_pos _
  have hle : searchSpace ≤ BChunks.spaceOf size offset searchSpace := by
    unfold BChunks.spaceOf
    split <;> omega
  unfold find
  dsimp only
  by_cases hshort : BChunks.spaceOf size offset searchSpace < (c :: needle).length
  · rw [if_pos hshort, ite_self, ite_self, ite_self, ite_self]
  · rw [checkUIntOverflowSum_eq_false (by omega), checkUIntOverflowSum_eq_false (by omega),
      if_neg Bool.false_ne_true, if_neg Bool.false_ne_true, if_neg (by omega), if_neg (by omega)]

theorem find_of_lt {size offset : ℕ} (h : size < offset)
    (findChar : UInt8 → ℕ → ℕ → Option (Option ℕ)) (compare2 : ℕ → Bool) (needle : List UInt8)
    (searchSpace : ℕ) : find size findChar compare2 needle offset searchSpace = .done none := by
  unfold find
  split_ifs <;> rfl

section Loop

variable {findChar : ℕ → ℕ → Option (Option ℕ)} {compare2 candidate : ℕ → Bool} {size : ℕ}

/-- The search goes from candidate to candidate.  If the last place of the space is a candidate, the
loop looks once more, with no space left. -/
theorem findLoop_eq (hsize : size < 2 ^ 64)
    (hchar : ∀ offset space, 0 < space → offset + space ≤ size →
      findChar offset space = some (firstIn candidate offset space))
    {atEnd : Search} {fuel offset space : ℕ} (hspace : 0 < space) (hin : offset + space ≤ size)
    (hend : ∀ fuel, findLoop findChar compare2 (fuel + 2) (offset + space) 0 = atEnd)
    (hfuel : space + 2 ≤ fuel) :
    findLoop findChar compare2 fuel offset space =
      match firstIn (fun q => candidate q && compare2 q) offset space with
      | some p => .done (some p)
      | none => if candidate (offset + space - 1) then atEnd else .done none := by
  have himp : ∀ q, (candidate q && compare2 q) = true → candidate q = true := by
    intro q hq
    exact (Bool.and_eq_true_iff.mp hq).1
  induction fuel generalizing offset space with
  | zero => omega
  | succ fuel ih =>
      unfold findLoop
      rw [hchar offset space hspace hin]
      cases hf : firstIn candidate offset space with
      | none =>
          have hlast := firstIn_eq_none_iff.mp hf (offset + space - 1) (by omega) (by omega)
          rw [firstIn_miss himp hf, hlast]
          rfl
      | some p =>
          obtain ⟨hle, hlt, hcand, -⟩ := firstIn_eq_some_iff.mp hf
          have hpos : (offset + subSizeT p offset) % 2 ^ 64 = p := by
            rw [subSizeT_of_le hle (by omega), Nat.mod_eq_of_lt (by omega)]
            omega
          have hleft : subSizeT space (subSizeT p offset) = space - (p - offset) := by
            rw [subSizeT_of_le hle (by omega), subSizeT_of_le (by omega) (by omega)]
          have htest : (candidate p && compare2 p) = compare2 p := by rw [hcand, Bool.true_and]
          dsimp only
          rw [hpos, hleft]
          cases hm : compare2 p with
          | true => rw [if_pos rfl, firstIn_hit himp hf (htest.trans hm)]
          | false =>
              rw [if_neg (by simp), if_neg (by omega), Nat.mod_eq_of_lt (by omega),
                firstIn_next himp hf (htest.trans hm)]
              by_cases hlast : space - (p - offset) - 1 = 0
              · -- the candidate is the last place of the space
                have hp : p + 1 = offset + space := by omega
                obtain ⟨fuel, rfl⟩ := Nat.exists_eq_add_of_le' (show 2 ≤ fuel by omega)
                rw [hlast, firstIn_zero, hp, hend, show offset + space - 1 = p by omega,
                  if_pos hcand]
              · have hnext : p + 1 + (space - (p - offset) - 1) = offset + space := by omega
                rw [ih (by omega) (by omega) (fun fuel => by rw [hnext]; exact hend fuel)
                  (by omega), hnext]

end Loop

end BBase

/-! ## Chunked containers -/

namespace BChunks

variable {h : BChunks}

/-- `find` of a `B_Chunks`: neither of its two functions throws. -/
def search (h : BChunks) (needle : List UInt8) (caseSensitive : Bool) (offset searchSpace : ℕ) :
    Search :=
  BBase.find h.size (fun c offset space => some (h.findChar c offset space caseSensitive))
    (h.compare2 needle caseSensitive) needle offset searchSpace

/-- The search comes to an end, with the result that the subtractions of natural numbers give. -/
theorem search_eq (hlt : h.size < 2 ^ 64) (needle : List UInt8) (caseSensitive : Bool)
    {offset searchSpace : ℕ} (hoffset : offset ≤ h.size) (hin : offset + searchSpace ≤ h.size) :
    h.search needle caseSensitive offset searchSpace =
      .done (h.find needle caseSensitive offset searchSpace) := by
  have hspace : offset + spaceOf h.size offset searchSpace ≤ h.size := by
    unfold spaceOf
    split <;> omega
  cases needle with
  | nil =>
      unfold search BBase.find BChunks.find spaceOf
      dsimp only
      split_ifs <;> rfl
  | cons c needle =>
      have hne := List.cons_ne_nil c needle
      rw [find_eq hlt c needle caseSensitive hoffset hin, search,
        BBase.find_cons hoffset (by omega)]
      generalize spaceOf h.size offset searchSpace = space at hspace
      by_cases hshort : space < (c :: needle).length
      · rw [if_pos hshort, if_pos hshort]
      · have hlen : 0 < (c :: needle).length := Nat.succ_pos _
        have hloop :
          BBase.findLoop (fun offset space => some (h.findChar c offset space caseSensitive))
            (h.compare2 (c :: needle) caseSensitive) (space + 2) offset space = _ :=
          BBase.findLoop_eq hlt
            (fun offset space _ hin => congrArg some (findChar_eq hlt c hin caseSensitive))
            (show 0 < space by omega) hspace
            (fun fuel => show _ = Search.done none by
              unfold BBase.findLoop
              rw [findChar_eq hlt c (by omega)]
              rfl)
            le_rfl
        rw [if_neg hshort, if_neg hshort, hloop, ite_self]
        have htest : (fun q => candidate h.content c (caseSensitive && isalpha c) q &&
            h.compare2 (c :: needle) caseSensitive q) =
              h.reported c (c :: needle) caseSensitive := by
          funext q
          rw [compare2_eq hlt hne]
          rfl
        rw [htest]
        cases firstIn (h.reported c (c :: needle) caseSensitive) offset space <;> rfl

/-- A request that reaches beyond the end finds no character. -/
theorem findChar_eq_ite (hlt : h.size < 2 ^ 64) (c : UInt8) (offset searchSpace : ℕ)
    (caseSensitive : Bool) :
    h.findChar c offset searchSpace caseSensitive =
      if h.size < offset + searchSpace then none
      else firstIn (candidate h.content c (caseSensitive && isalpha c)) offset searchSpace := by
  split
  · unfold findChar
    split
    · rfl
    · rw [if_pos (Or.inr (by assumption))]
  · exact findChar_eq hlt c (by omega) caseSensitive

/-- What a `B_Chunks` with some bytes reports. -/
def firstReported (w : List UInt8) (c : UInt8) (needle : List UInt8) (caseSensitive : Bool)
    (offset searchSpace : ℕ) : Option ℕ :=
  if w.length < offset + searchSpace then none
  else if spaceOf w.length offset searchSpace < needle.length then none
  else
    firstIn (fun q => candidate w c (caseSensitive && isalpha c) q && matchesAt w needle
      caseSensitive q)
      offset (spaceOf w.length offset searchSpace)

theorem search_eq_firstReported (hlt : h.size < 2 ^ 64) (hcontent : h.content.length = h.size)
    (c : UInt8) (needle : List UInt8) (caseSensitive : Bool) {offset : ℕ}
      (hoffset : offset ≤ h.size)
    (searchSpace : ℕ) :
    h.search (c :: needle) caseSensitive offset searchSpace =
      .done (firstReported h.content c (c :: needle) caseSensitive offset searchSpace) := by
  unfold firstReported
  rw [hcontent]
  by_cases hin : offset + searchSpace ≤ h.size
  · rw [search_eq hlt _ caseSensitive hoffset hin, find_eq hlt c needle caseSensitive hoffset hin,
      if_neg (show ¬ h.size < offset + searchSpace by omega)]
    rfl
  · -- the first request for a character fails
    have hspace : spaceOf h.size offset searchSpace = searchSpace := if_neg (by omega)
    have hchar : h.findChar c offset searchSpace caseSensitive = none := by
      rw [findChar_eq_ite hlt, if_pos (by omega)]
    rw [if_pos (show h.size < offset + searchSpace by omega)]
    unfold search BBase.find BBase.findLoop
    dsimp only
    rw [hspace, hchar]
    split_ifs <;> rfl

/-- **An exact search returns the least place.**  Whatever the borders of the chunks are, the loop
comes to an end with the first place from the offset on at which the content has the needle, or with
nothing if there is none. -/
theorem search_isLeast (hlt : h.size < 2 ^ 64) {needle : List UInt8} (hne : needle ≠ [])
    {offset : ℕ} (hoffset : offset ≤ h.size) :
    (∃ result, h.search needle true offset 0 = .done result) ∧
      (∀ p, h.search needle true offset 0 = .done (some p) ↔
        IsLeast {q | offset ≤ q ∧ OccursAt needle h.content q} p) ∧
      (h.search needle true offset 0 = .done none ↔
        ∀ q, offset ≤ q → ¬ OccursAt needle h.content q) := by
  obtain ⟨c, needle, rfl⟩ := List.exists_cons_of_ne_nil hne
  have hlen : 0 < (c :: needle).length := Nat.succ_pos _
  have hend : ∀ q, OccursAt (c :: needle) h.content q → q + (c :: needle).length ≤ h.size := by
    intro q hq
    have hle := hq.add_length_le hne
    rw [length_content] at hle
    omega
  have hspace : spaceOf h.size offset 0 = h.size - offset := rfl
  have hfind : h.find (c :: needle) true offset 0 =
      firstIn (h.reported c (c :: needle) true) offset (h.size - offset) := by
    rw [find_eq hlt c needle true hoffset hoffset, hspace]
    split
    · -- too little is left for the needle
      symm
      rw [firstIn_eq_none_iff]
      intro q hq hq'
      rw [Bool.eq_false_iff, Ne, reported_true]
      intro hoc
      have := hend q hoc
      omega
    · rfl
  have hset : {q | offset ≤ q ∧ q < offset + (h.size - offset) ∧
      h.reported c (c :: needle) true q = true} =
        {q | offset ≤ q ∧ OccursAt (c :: needle) h.content q} := by
    ext q
    simp only [Set.mem_ofPred_eq, reported_true]
    refine ⟨fun ⟨h1, _, h3⟩ => ⟨h1, h3⟩, fun ⟨h1, h3⟩ => ⟨h1, ?_, h3⟩⟩
    have := hend q h3
    omega
  rw [search_eq hlt _ true hoffset hoffset, hfind]
  refine ⟨⟨_, rfl⟩, fun p => ?_, ?_⟩
  · rw [Search.done.injEq, firstIn_eq_some_iff_isLeast, hset]
  · rw [Search.done.injEq, firstIn_eq_none_iff]
    constructor
    · intro hnone q hq hoc
      have hin := hend q hoc
      have hfalse := hnone q hq (by omega)
      rw [(reported_true ..).mpr hoc] at hfalse
      exact Bool.false_ne_true hfalse.symm
    · intro hnone q hq _
      rw [Bool.eq_false_iff, Ne, reported_true]
      exact hnone q hq

/-- A needle over the border of two chunks. -/
theorem search_isLeast_two :
    let h : BChunks := { chunksVector := [⟨[1, 2], 0⟩, ⟨[3, 2, 3], 2⟩], containerBytes := 5 }
    IsLeast {q | 0 ≤ q ∧ OccursAt [2, 3] h.content q} 1 := by
  intro h
  have hleast : ∀ p, h.search [2, 3] true 0 0 = .done (some p) ↔ _ :=
    (search_isLeast (by decide) (by decide) (Nat.zero_le _)).2.1
  exact (hleast 1).mp (by decide)

end BChunks

end Mantids
