/-
# The container over a stretch of memory

`B_MEM` (`Memory/b_mem.cpp`) shows a stretch of memory that it does not own.  Searching it is
searching a `B_Chunks`, except that `findChar` reads the flag for the case the other way round,
takes no space for all that is left, and throws where the other one finds nothing.

* `BMem.findChar`, `compare2`, `find` — the search and its two functions;
* `BMem.find_eq` — what a search returns, `beyond` being what it does after the end of its space;
* `SearchedAlike` — two searches with one result, which misses no place when the case does not
  matter and stays in a space that was given;
* `searched_alike_iff` — when a `B_MEM` and a `B_Chunks` with the same bytes are searched alike.
-/
import Mantids.BBaseFind

namespace Mantids

open Occurrence Scan BChunks

/-- `B_MEM` over some memory, whose length is given as 32 bits. -/
structure BMem where
  linearMem : List UInt8 := []
  fits : linearMem.length < 2 ^ 32 := by decide
deriving DecidableEq

/-- The outcome of a `findChar`, which is nothing where it throws. -/
def Search.ofFindChar : Option (Option ℕ) → Search
  | none => .threw
  | some pos => .done pos

namespace BMem

variable {m : BMem} {c : UInt8} {needle : List UInt8} {caseSensitive : Bool}

def size (m : BMem) : ℕ := m.linearMem.length

theorem size_lt (m : BMem) : m.size < 2 ^ 64 := lt_trans m.fits (by decide)

/-- `B_MEM::findChar`; `none` if it throws. -/
def findChar (m : BMem) (c : UInt8) (offset searchSpace : ℕ) (caseSensitive : Bool) :
    Option (Option ℕ) :=
  let caseSensitive := caseSensitive && isalpha c
  if m.size = 0 then some none
  else if checkUIntOverflowSum offset searchSpace then none
  else if m.size < offset + searchSpace then none
  else
    let searchSpace := spaceOf m.size offset searchSpace
    let stretch := (m.linearMem.drop offset).take searchSpace
    -- both forms of a letter if the flag is not set
    some ((charPos stretch c (!caseSensitive)).map (· + offset))

def compare2 (m : BMem) (buf : List UInt8) (caseSensitive : Bool) (offset : ℕ) : Bool :=
  if checkUIntOverflowSum offset buf.length then false
  else if buf = [] then true
  else if m.size < offset + buf.length then false
  else memicmp2 ((m.linearMem.drop offset).take buf.length) buf caseSensitive

def find (m : BMem) (needle : List UInt8) (caseSensitive : Bool) (offset searchSpace : ℕ) :
    Search :=
  BBase.find m.size (fun c offset space => m.findChar c offset space caseSensitive)
    (m.compare2 needle caseSensitive) needle offset searchSpace

/-! ## What the search does -/

theorem findChar_eq (c : UInt8) {offset searchSpace : ℕ} (hin : offset + searchSpace ≤ m.size)
    (caseSensitive : Bool) :
    m.findChar c offset searchSpace caseSensitive =
      some (firstIn (candidate m.linearMem c !(caseSensitive && isalpha c)) offset
        (spaceOf m.size offset searchSpace)) := by
  have hlt := m.size_lt
  unfold findChar
  dsimp only
  by_cases h0 : m.size = 0
  · have hspace : spaceOf m.size offset searchSpace = 0 := by
      unfold spaceOf
      split <;> omega
    rw [if_pos h0, hspace, firstIn_zero]
  · rw [if_neg h0, checkUIntOverflowSum_eq_false (by omega), if_neg (by simp), if_neg (by omega),
      charPos_eq, findIdx?_drop_take]
    rfl

theorem compare2_eq (hne : needle ≠ []) (caseSensitive : Bool) (pos : ℕ) :
    m.compare2 needle caseSensitive pos = matchesAt m.linearMem needle caseSensitive pos := by
  have hlt := m.size_lt
  have hlen : m.size = m.linearMem.length := rfl
  have hpos := List.length_pos_iff.mpr hne
  have hmap : needle.map (foldCase caseSensitive) ≠ [] := by simpa using hne
  unfold compare2
  by_cases hin : pos + needle.length ≤ m.size
  · have htake : ((m.linearMem.drop pos).take needle.length).length = needle.length := by
      rw [List.length_take, List.length_drop]
      omega
    rw [checkUIntOverflowSum_eq_false (by omega), if_neg (by simp), if_neg hne, if_neg (by omega),
      memicmp2_eq htake, Bool.eq_iff_iff, beq_iff_eq, matchesAt, decide_eq_true_eq, OccursAt,
      List.prefix_iff_eq_take, List.length_map, ← List.map_drop, ← List.map_take]
    exact eq_comm
  · have hno : matchesAt m.linearMem needle caseSensitive pos = false := by
      rw [Bool.eq_false_iff]
      intro hm
      exact hin (add_length_le_of_matchesAt hne hm)
    rw [hno]
    split_ifs <;> first | rfl | omega

/-- What the search does when the last byte of its space was a candidate: with no space left,
`findChar` takes all the rest of the memory. -/
def beyond (m : BMem) (c : UInt8) (needle : List UInt8) (caseSensitive : Bool) (atEnd : ℕ) :
    Search :=
  match firstIn (candidate m.linearMem c !(caseSensitive && isalpha c)) atEnd
      (m.size - atEnd) with
  | none => .done none
  | some q =>
    if matchesAt m.linearMem needle caseSensitive q then .done (some q)
    else if q = atEnd then .done none
    else .threw

theorem findLoop_beyond (hne : needle ≠ []) {atEnd : ℕ} (hin : atEnd ≤ m.size) (fuel : ℕ) :
    BBase.findLoop (fun offset space => m.findChar c offset space caseSensitive)
      (m.compare2 needle caseSensitive) (fuel + 2) atEnd 0 =
        m.beyond c needle caseSensitive atEnd := by
  have hlt := m.size_lt
  have hspace : spaceOf m.size atEnd 0 = m.size - atEnd := if_pos rfl
  unfold BBase.findLoop beyond
  rw [findChar_eq c hin, hspace]
  cases hf : firstIn (candidate m.linearMem c !(caseSensitive && isalpha c)) atEnd
      (m.size - atEnd) with
  | none => rfl
  | some q =>
      obtain ⟨hle, hq, -, -⟩ := firstIn_eq_some_iff.mp hf
      have hpos : (atEnd + subSizeT q atEnd) % 2 ^ 64 = q := by
        rw [subSizeT_of_le hle (by omega), Nat.mod_eq_of_lt (by omega)]
        omega
      have hleft : subSizeT 0 (subSizeT q atEnd) =
          if q = atEnd then 0 else 2 ^ 64 - (q - atEnd) := by
        rw [subSizeT_of_le hle (by omega), subSizeT]
        split <;> omega
      dsimp only
      rw [hpos, hleft, compare2_eq hne]
      split
      · rfl
      · by_cases heq : q = atEnd
        · rw [if_pos heq, if_pos rfl, if_pos heq]
        · -- the space has gone below zero, and the next request overflows
          rw [if_neg heq, if_neg (by omega), if_neg heq]
          unfold BBase.findLoop findChar
          have hover : checkUIntOverflowSum ((q + 1) % 2 ^ 64) (2 ^ 64 - (q - atEnd) - 1) =
              true := by
            rw [checkUIntOverflowSum_iff]
            omega
          rw [if_neg (by omega), if_pos hover]

/-- A search returns the first place of its space at which the needle is.  If there is none, it ends
there, or goes on beyond the space. -/
theorem find_eq (c : UInt8) (needle : List UInt8) (caseSensitive : Bool) {offset searchSpace : ℕ}
    (hoffset : offset ≤ m.size) (hin : offset + searchSpace ≤ m.size) :
    m.find (c :: needle) caseSensitive offset searchSpace =
      if spaceOf m.size offset searchSpace < (c :: needle).length then .done none
      else
        match firstIn (matchesAt m.linearMem (c :: needle) caseSensitive) offset
            (spaceOf m.size offset searchSpace) with
        | some p => .done (some p)
        | none =>
          if candidate m.linearMem c (!(caseSensitive && isalpha c))
              (offset + spaceOf m.size offset searchSpace - 1) then
            m.beyond c (c :: needle) caseSensitive (offset + spaceOf m.size offset searchSpace)
          else .done none := by
  have hlt := m.size_lt
  have hlen : 0 < (c :: needle).length := Nat.succ_pos _
  have hspace : offset + spaceOf m.size offset searchSpace ≤ m.size := by
    unfold spaceOf
    split <;> omega
  have hchar : ∀ offset space, 0 < space → offset + space ≤ m.size →
      m.findChar c offset space caseSensitive =
        some (firstIn (candidate m.linearMem c !(caseSensitive && isalpha c)) offset space) := by
    intro offset space hpos hle
    rw [findChar_eq c hle, spaceOf, if_neg (by omega)]
  have htest : (fun q => candidate m.linearMem c (!(caseSensitive && isalpha c)) q &&
      m.compare2 (c :: needle) caseSensitive q) =
        matchesAt m.linearMem (c :: needle) caseSensitive := by
    funext q
    rw [compare2_eq (List.cons_ne_nil c needle)]
    cases hm : matchesAt m.linearMem (c :: needle) caseSensitive q with
    | false => rw [Bool.and_false]
    | true =>
        rw [Bool.and_true]
        exact candidate_of_matchesAt hm (by cases caseSensitive <;> simp)
  rw [find, BBase.find_cons hoffset (by omega)]
  generalize spaceOf m.size offset searchSpace = space at hspace
  by_cases hshort : space < (c :: needle).length
  · rw [if_pos hshort, if_pos hshort]
  · rw [if_neg hshort, if_neg hshort]
    have hloop := BBase.findLoop_eq hlt hchar (by omega) hspace
      (fun fuel => findLoop_beyond (List.cons_ne_nil c needle) hspace fuel) le_rfl
    rw [htest] at hloop
    exact hloop

end BMem

/-! ## Searching alike -/

/-- Two searches of the same bytes come to an end with the same result.  If the case does not matter
they do not pass over the needle in any spelling; if a space was given, what they find lies in it.
-/
def SearchedAlike (w needle : List UInt8) (caseSensitive : Bool) (offset searchSpace : ℕ)
    (search search' : Search) : Prop :=
  ∃ result, search = .done result ∧ search' = .done result ∧
    (caseSensitive = false → ∀ q, offset ≤ q → q < offset + spaceOf w.length offset searchSpace →
      q + needle.length ≤ offset + spaceOf w.length offset searchSpace →
      matchesAt w needle false q = true → ∃ p ≤ q, result = some p) ∧
    (searchSpace ≠ 0 → ∀ p, result = some p →
      offset ≤ p ∧ p + needle.length ≤ offset + searchSpace)

/-- The requests for a character that both containers answer alike.  With a space: the first place
that has the character in one of its two forms has the form asked for.  With all that is left: the
`B_MEM` has nothing to find there. -/
def CharAlike (w : List UInt8) (c : UInt8) (caseSensitive : Bool) (offset searchSpace : ℕ) : Prop :=
  if searchSpace = 0 then
    firstIn (candidate w c !(caseSensitive && isalpha c)) offset (w.length - offset) = none
  else ∀ p, firstIn (candidate w c true) offset searchSpace = some p → w[p]? = some c

/-- The requests for a needle that both containers answer alike.  If the needle is in the space, up
to case if the case does not matter, its first place starts with the very character that was asked
for, and the needle ends in the space that was given.  If it is not, the space does not end with a
candidate that is followed, in the rest of the memory, by a place of the needle or by a candidate
that is not the next byte. -/
def NeedleAlike (w : List UInt8) (needle : List UInt8) (caseSensitive : Bool)
    (offset searchSpace : ℕ) : Prop :=
  match needle with
  | [] => searchSpace ≠ 0 → offset = 0
  | c :: needle =>
    let space := spaceOf w.length offset searchSpace
    let either := !(caseSensitive && isalpha c)
    (c :: needle).length ≤ space →
      match firstIn (matchesAt w (c :: needle) caseSensitive) offset space with
      | some p => w[p]? = some c ∧
        (searchSpace ≠ 0 → p + (c :: needle).length ≤ offset + searchSpace)
      | none =>
        candidate w c either (offset + space - 1) = true →
          ∀ q, firstIn (candidate w c either) (offset + space) (w.length - (offset + space))
              = some q →
            matchesAt w (c :: needle) caseSensitive q = false ∧ q = offset + space

variable {m : BMem} {h : BChunks} {w needle : List UInt8} {c : UInt8} {caseSensitive : Bool}
  {offset searchSpace : ℕ}

theorem candidate_false (w : List UInt8) (c : UInt8) (q : ℕ) :
    candidate w c false q = true ↔ w[q]? = some c := by
  rw [candidate]
  cases w[q]? with
  | none => simp
  | some x => simp [looksLike]

theorem candidate_true_of_false (q : ℕ) (hq : candidate w c false q = true) :
    candidate w c true q = true := by
  rw [candidate_false] at hq
  rw [candidate, hq]
  exact looksLike_self c true

/-- The two readings of the flag find the same place if the first one with the character in one of
its two forms has it in the form asked for. -/
theorem firstIn_candidate_not (either : Bool) :
    firstIn (candidate w c !either) offset searchSpace =
        firstIn (candidate w c either) offset searchSpace ↔
      ∀ p, firstIn (candidate w c true) offset searchSpace = some p → w[p]? = some c := by
  have hsame : firstIn (candidate w c false) offset searchSpace =
      firstIn (candidate w c true) offset searchSpace ↔ _ :=
    firstIn_eq_iff_of_imp candidate_true_of_false
  simp only [candidate_false] at hsame
  cases either with
  | true => exact hsame
  | false => exact eq_comm.trans hsame

theorem charAlike_iff (hcontent : h.content = m.linearMem) (hsize : h.size = m.size) (c : UInt8)
    (caseSensitive : Bool) (hin : offset + searchSpace ≤ m.size) :
    SearchedAlike m.linearMem [c] caseSensitive offset searchSpace
        (.ofFindChar (m.findChar c offset searchSpace caseSensitive))
        (.done (h.findChar c offset searchSpace caseSensitive)) ↔
      CharAlike m.linearMem c caseSensitive offset searchSpace := by
  have hlt := m.size_lt
  have hlen : m.size = m.linearMem.length := rfl
  have hfold : ∀ q, caseSensitive = false → matchesAt m.linearMem [c] false q = true →
      candidate m.linearMem c (!(caseSensitive && isalpha c)) q = true := by
    intro q hcase hq
    exact candidate_of_matchesAt hq (by simp [hcase])
  rw [BMem.findChar_eq c hin, BChunks.findChar_eq (by omega) c (by omega), hcontent]
  unfold CharAlike SearchedAlike
  by_cases h0 : searchSpace = 0
  · have hspace : spaceOf m.size offset searchSpace = m.size - offset := if_pos h0
    rw [if_pos h0, ← hlen, hspace, h0, firstIn_zero]
    constructor
    · rintro ⟨result, hmem, hchunks, -⟩
      rw [← Search.done.inj hchunks] at hmem
      exact Search.done.inj hmem
    · intro hnone
      refine ⟨none, congrArg Search.done hnone, rfl, fun hcase q hq hq' _ hmatch => ?_,
        fun hne => absurd rfl hne⟩
      have hfalse := firstIn_eq_none_iff.mp hnone q hq hq'
      rw [hfold q hcase hmatch] at hfalse
      cases hfalse
  · have hspace : spaceOf m.size offset searchSpace = searchSpace := if_neg h0
    rw [if_neg h0, ← hlen, hspace, ← firstIn_candidate_not (caseSensitive && isalpha c)]
    constructor
    · rintro ⟨result, hmem, hchunks, -⟩
      exact Search.done.inj (hmem.trans hchunks.symm)
    · intro hsame
      refine ⟨_, rfl, congrArg Search.done hsame.symm, fun hcase q hq hq' _ hmatch => ?_,
        fun _ p hp => ?_⟩
      · exact exists_firstIn_le hq hq' (hfold q hcase hmatch)
      · obtain ⟨hle, hp', -, -⟩ := firstIn_eq_some_iff.mp hp
        exact ⟨hle, hp'⟩

theorem matchesAt_of_reported (q : ℕ) (hq : h.reported c needle caseSensitive q = true) :
    matchesAt h.content needle caseSensitive q = true :=
  (Bool.and_eq_true_iff.mp hq).2

/-- A place of the needle is reported if the needle starts there with the very character that is
asked for. -/
theorem reported_iff {p : ℕ} (hp : matchesAt h.content (c :: needle) caseSensitive p = true) :
    h.reported c (c :: needle) caseSensitive p = true ↔ h.content[p]? = some c := by
  rw [reported, hp, Bool.and_true]
  cases caseSensitive with
  | true =>
      obtain ⟨x, hx, hxc⟩ := foldCase_of_matchesAt hp
      obtain rfl : x = c := hxc
      exact iff_of_true (candidate_of_matchesAt hp (Or.inr rfl)) hx
  | false => exact candidate_false _ _ _

/-- After the end of its space a search finds nothing if there is no candidate in the rest of the
memory, or just the next byte and not the needle. -/
theorem beyond_eq_none_iff (m : BMem) (c : UInt8) (needle : List UInt8) (caseSensitive : Bool)
    (atEnd : ℕ) :
    m.beyond c needle caseSensitive atEnd = .done none ↔
      ∀ q, firstIn (candidate m.linearMem c !(caseSensitive && isalpha c)) atEnd
          (m.size - atEnd) = some q →
        matchesAt m.linearMem needle caseSensitive q = false ∧ q = atEnd := by
  unfold BMem.beyond
  cases firstIn (candidate m.linearMem c !(caseSensitive && isalpha c)) atEnd
      (m.size - atEnd) with
  | none => simp
  | some q => cases hm : matchesAt m.linearMem needle caseSensitive q <;> simp [hm]

theorem needleAlike_iff (hcontent : h.content = m.linearMem) (hsize : h.size = m.size)
    (needle : List UInt8) (caseSensitive : Bool) (hoffset : offset ≤ m.size)
    (hin : offset + searchSpace ≤ m.size) :
    SearchedAlike m.linearMem needle caseSensitive offset searchSpace
        (m.find needle caseSensitive offset searchSpace)
        (h.search needle caseSensitive offset searchSpace) ↔
      NeedleAlike m.linearMem needle caseSensitive offset searchSpace := by
  have hlt := m.size_lt
  have hlen : m.size = m.linearMem.length := rfl
  have hspace : offset + spaceOf m.size offset searchSpace ≤ m.size := by
    unfold spaceOf
    split <;> omega
  cases needle with
  | nil =>
      rw [BMem.find, BBase.find_nil hlt _ _ hoffset hin, BChunks.search,
        BBase.find_nil (by omega) _ _ (by omega) (by omega), hsize]
      unfold NeedleAlike SearchedAlike
      rw [← hlen]
      constructor
      · rintro ⟨result, hmem, -, -, hlimit⟩ hne
        have hspace : spaceOf m.size offset searchSpace = searchSpace := if_neg hne
        rw [hspace, if_neg hne] at hmem
        exact Nat.le_zero.mp (hlimit hne 0 (Search.done.inj hmem).symm).1
      · intro hzero
        refine ⟨_, rfl, rfl, fun _ q hq hq' _ _ => ⟨0, Nat.zero_le q, if_neg (by omega)⟩,
          fun hne p hp => ?_⟩
        have hspace : spaceOf m.size offset searchSpace = searchSpace := if_neg hne
        rw [hspace, if_neg hne] at hp
        obtain rfl := Option.some.inj hp
        exact ⟨(hzero hne).le, Nat.zero_le _⟩
  | cons c needle =>
      have hpos : 0 < (c :: needle).length := Nat.succ_pos _
      rw [BMem.find_eq c needle caseSensitive hoffset hin,
        search_eq (by omega) _ caseSensitive (by omega) (by omega),
        BChunks.find_eq (by omega) c needle caseSensitive (by omega) (by omega), hsize]
      unfold NeedleAlike SearchedAlike
      rw [← hlen]
      dsimp only
      by_cases hshort : spaceOf m.size offset searchSpace < (c :: needle).length
      · rw [if_pos hshort, if_pos hshort]
        refine iff_of_true ⟨none, rfl, rfl, fun _ q hq hq' hend => ?_, fun _ p hp => by cases hp⟩
          (fun hle => ?_) <;> omega
      · rw [if_neg hshort, if_neg hshort, forall_prop_of_true (by omega)]
        cases hf : firstIn (matchesAt m.linearMem (c :: needle) caseSensitive) offset
            (spaceOf m.size offset searchSpace) with
        | some p =>
            obtain ⟨hle, -, hp, hbefore⟩ := firstIn_eq_some_iff.mp hf
            have hsame : firstIn (h.reported c (c :: needle) caseSensitive) offset
                (spaceOf m.size offset searchSpace) = some p ↔ m.linearMem[p]? = some c := by
              rw [← hcontent, ← reported_iff (by rw [hcontent]; exact hp)]
              refine ⟨fun hr => (firstIn_eq_some_iff.mp hr).2.2.1, fun hr => ?_⟩
              refine firstIn_hit matchesAt_of_reported ?_ hr
              rw [hcontent]
              exact hf
            constructor
            · rintro ⟨result, hmem, hchunks, -, hlimit⟩
              obtain rfl := Search.done.inj hmem
              exact ⟨hsame.mp (Search.done.inj hchunks), fun hne => (hlimit hne p rfl).2⟩
            · rintro ⟨hfirst, hlimit⟩
              refine ⟨some p, rfl, congrArg Search.done (hsame.mpr hfirst),
                fun hcase q hq hq' _ hmatch => ?_, fun hne r hr => ?_⟩
              · rw [← hcase] at hmatch
                obtain ⟨r, hr, hfr⟩ := exists_firstIn_le hq hq' hmatch
                exact ⟨r, hr, hf.symm.trans hfr⟩
              · obtain rfl := Option.some.inj hr
                exact ⟨hle, hlimit hne⟩
        | none =>
            have hchunks : firstIn (h.reported c (c :: needle) caseSensitive) offset
                (spaceOf m.size offset searchSpace) = none := by
              refine firstIn_miss matchesAt_of_reported ?_
              rw [hcontent]
              exact hf
            rw [hchunks]
            dsimp only
            rw [← beyond_eq_none_iff]
            constructor
            · rintro ⟨result, hmem, hnone, -⟩ hlast
              rw [if_pos hlast] at hmem
              rw [hmem, ← Search.done.inj hnone]
            · intro hend
              refine ⟨none, ?_, rfl, fun hcase q hq hq' _ hmatch => ?_, fun _ p hp => by cases hp⟩
              · split
                · rename_i hlast
                  exact hend hlast
                · rfl
              · have hfalse := firstIn_eq_none_iff.mp hf q hq hq'
                rw [hcase, hmatch] at hfalse
                cases hfalse

/-- **When the two kinds of container are searched alike.**  A `B_MEM` and a `B_Chunks` with the
same bytes answer a request for a character alike exactly if the character is there in no other form
first, or nowhere if all that is left is to be searched; and a request for a needle exactly if its
first place starts with the character asked for and ends in the space, or, without such a place, the
space does not lead the `B_MEM` beyond its end. -/
theorem searched_alike_iff (hcontent : h.content = m.linearMem) (hsize : h.size = m.size)
    (c : UInt8) (needle : List UInt8) (caseSensitive : Bool) (hoffset : offset ≤ m.size)
    (hin : offset + searchSpace ≤ m.size) :
    (SearchedAlike m.linearMem [c] caseSensitive offset searchSpace
        (.ofFindChar (m.findChar c offset searchSpace caseSensitive))
        (.done (h.findChar c offset searchSpace caseSensitive)) ↔
      CharAlike m.linearMem c caseSensitive offset searchSpace) ∧
    (SearchedAlike m.linearMem needle caseSensitive offset searchSpace
        (m.find needle caseSensitive offset searchSpace)
        (h.search needle caseSensitive offset searchSpace) ↔
      NeedleAlike m.linearMem needle caseSensitive offset searchSpace) :=
  ⟨charAlike_iff hcontent hsize c caseSensitive hin,
    needleAlike_iff hcontent hsize needle caseSensitive hoffset hin⟩

/-- A capital letter in the text, asked for in its own form and then in the other one. -/
theorem searched_alike_iff_letter :
    let m : BMem := { linearMem := [97, 66] }
    let h : BChunks := { chunksVector := [⟨[97], 0⟩, ⟨[66], 1⟩], containerBytes := 2 }
    SearchedAlike [97, 66] [66] true 0 2 (.ofFindChar (m.findChar 66 0 2 true))
        (.done (h.findChar 66 0 2 true)) ∧
      ¬ SearchedAlike [97, 66] [98] false 0 0 (m.find [98] false 0 0)
        (h.search [98] false 0 0) := by
  intro m h
  have halike : ∀ caseSensitive searchSpace, 0 + searchSpace ≤ m.size → _ ∧ _ :=
    fun caseSensitive searchSpace hin => searched_alike_iff (h := h) (m := m) (by decide)
      (by decide)
      66 [98] caseSensitive (Nat.zero_le _) hin
  refine ⟨((halike true 2 (by decide)).1).mpr (fun p hp => ?_), ?_⟩
  · obtain rfl := Option.some.inj ((by decide : firstIn _ _ _ = some 1).symm.trans hp)
    rfl
  · rw [(halike false 0 (by decide)).2]
    intro hno
    exact absurd (hno (by decide)).1 (by decide)

/-- In `B_Chunks` a case sensitive search for a character finds its other form; a `B_MEM` throws
when the space that was given ends with a candidate. -/
theorem not_searched_alike :
    let m : BMem := { linearMem := [97, 66, 97, 66] }
    let h : BChunks := { chunksVector := [⟨[97, 66, 97, 66], 0⟩], containerBytes := 4 }
    m.findChar 65 0 4 true = some none ∧ h.findChar 65 0 4 true = some 0 ∧
      m.find [66, 99] true 0 2 = .threw ∧ h.search [66, 99] true 0 2 = .done none ∧
      ¬ SearchedAlike m.linearMem [65] true 0 4 (.ofFindChar (m.findChar 65 0 4 true))
        (.done (h.findChar 65 0 4 true)) ∧
      ¬ SearchedAlike m.linearMem [66, 99] true 0 2 (m.find [66, 99] true 0 2)
        (h.search [66, 99] true 0 2) := by
  intro m h
  have hchar : m.findChar 65 0 4 true = some none := by decide
  have hchar' : h.findChar 65 0 4 true = some 0 := by decide
  have hfind : m.find [66, 99] true 0 2 = .threw := by decide
  have hfind' : h.search [66, 99] true 0 2 = .done none := by decide
  refine ⟨hchar, hchar', hfind, hfind', ?_, ?_⟩
  · rw [hchar, hchar']
    rintro ⟨result, hmem, hchunks, -⟩
    exact absurd (hmem.trans hchunks.symm) (by decide)
  · rw [hfind]
    rintro ⟨result, hmem, -⟩
    cases hmem

end Mantids
