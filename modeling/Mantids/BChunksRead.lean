/-
# Reading a chunked container

The reading side of `B_Chunks`: searching for a word (`B_Base::find` over
`B_Chunks::findChar` and `B_Chunks::compare2`) and copying bytes out
(`B_Base::copyOut` over `B_Chunks::copyToBuffer2`).

* `content`, `PrefixSums` — what a container shows of the bytes of its chunks, and containers with
  right offsets and a right size;
* `candidate`, `matchesAt` — the places where a search stops, and those it reports;
* `find_eq` — a search is the first place in the content that is both;
* `PrefixSums.copyOut` — copying out delivers a slice of the content.

Searching walks over the chunks by their sizes and never looks at their offsets; copying out starts
at the chunk that the offsets name.
-/
import Mantids.BChunks
import Mantids.Lib.Occurrence
import Mantids.Lib.Scan

namespace Mantids

open Occurrence Scan

/-! ## Characters -/

/-- `isalpha` of the C locale. -/
def isalpha (c : UInt8) : Bool := (65 ≤ c && c ≤ 90) || (97 ≤ c && c ≤ 122)

def toupper (c : UInt8) : UInt8 := if 97 ≤ c && c ≤ 122 then c - 32 else c

def tolower (c : UInt8) : UInt8 := if 65 ≤ c && c ≤ 90 then c + 32 else c

/-- `Mem::icharcmp`: the table it compares with maps the capital letters to the small
ones. -/
def icharcmp (c1 c2 : UInt8) : Bool := tolower c1 == tolower c2

/-- `memchr`: the first position of a byte. -/
def memchr (data : List UInt8) (c : UInt8) : Option ℕ := data.findIdx? (· == c)

/-- `Mem::memicmp2` on two stretches of the same length; `true` is its zero. -/
def memicmp2 (s1 s2 : List UInt8) (caseSensitive : Bool) : Bool :=
  if caseSensitive then s1 == s2 else (s1.zip s2).all (fun x => icharcmp x.1 x.2)

/-- The form in which bytes are compared. -/
def foldCase (caseSensitive : Bool) (x : UInt8) : UInt8 := if caseSensitive then x else tolower x

theorem memicmp2_eq {s1 s2 : List UInt8} (h : s1.length = s2.length) (caseSensitive : Bool) :
    memicmp2 s1 s2 caseSensitive =
      (s1.map (foldCase caseSensitive) == s2.map (foldCase caseSensitive)) := by
  cases caseSensitive with
  | true =>
      have hid : foldCase true = id := rfl
      rw [hid, List.map_id, List.map_id]
      rfl
  | false =>
      induction s1 generalizing s2 with
      | nil =>
          rw [List.length_eq_zero_iff.mp h.symm]
          rfl
      | cons x xs ih =>
          cases s2 with
          | nil => cases h
          | cons y ys =>
              have hrest := ih (Nat.succ.inj h)
              simp only [memicmp2, Bool.false_eq_true, if_false] at hrest ⊢
              rw [List.zip_cons_cons, List.all_cons, hrest, List.map_cons, List.map_cons]
              rfl

theorem toNat_tolower (x : UInt8) :
    (tolower x).toNat = if 65 ≤ x.toNat ∧ x.toNat ≤ 90 then x.toNat + 32 else x.toNat := by
  have h65 : (65 : UInt8).toNat = 65 := rfl
  have h90 : (90 : UInt8).toNat = 90 := rfl
  have h32 : (32 : UInt8).toNat = 32 := rfl
  simp only [tolower, Bool.and_eq_true, decide_eq_true_eq, UInt8.le_iff_toNat_le, h65, h90]
  split
  · rw [UInt8.toNat_add, h32]
    omega
  · rfl

theorem toNat_toupper (x : UInt8) :
    (toupper x).toNat = if 97 ≤ x.toNat ∧ x.toNat ≤ 122 then x.toNat - 32 else x.toNat := by
  have h97 : (97 : UInt8).toNat = 97 := rfl
  have h122 : (122 : UInt8).toNat = 122 := rfl
  have h32 : (32 : UInt8).toNat = 32 := rfl
  simp only [toupper, Bool.and_eq_true, decide_eq_true_eq, UInt8.le_iff_toNat_le, h97, h122]
  split
  · rw [UInt8.toNat_sub, h32]
    omega
  · rfl

/-- A byte that is another one up to case is one of its two forms. -/
theorem eq_of_tolower_eq {x c : UInt8} (h : tolower x = tolower c) :
    x = toupper c ∨ x = tolower c := by
  have hx := toNat_tolower x
  rw [h, toNat_tolower c] at hx
  rw [← UInt8.toNat_inj, ← UInt8.toNat_inj, toNat_toupper, toNat_tolower]
  split_ifs at hx ⊢ <;> omega

namespace BChunks

/-! ## The content -/

/-- The content: as many bytes of the chunks as the size says. -/
def content (c : BChunks) : List UInt8 := c.bytes.take c.size

/-- The offset of each chunk is the sum of the sizes before it, the sums fit `size_t`, and the size
of the container is the size of its content. -/
structure PrefixSums (c : BChunks) : Prop where
  offsets : ∀ (i : ℕ) (h : i < c.chunksVector.length),
    (c.chunksVector.get ⟨i, h⟩).offset = sizes (c.chunksVector.take i)
  fits : sizes c.chunksVector < 2 ^ 64
  size_eq : c.content.length = c.size

theorem length_content (c : BChunks) : c.content.length = min c.size (sizes c.chunksVector) := by
  rw [content, List.length_take, length_bytes]

/-- A container whose stored size is the number of its bytes shows them all. -/
theorem content_eq_bytes {c : BChunks} (h : c.size = c.bytes.length) : c.content = c.bytes := by
  rw [content, h, List.take_length]

theorem PrefixSums.aligned {c : BChunks} (h : c.PrefixSums) : Aligned 0 c.chunksVector := by
  rw [aligned_iff]
  intro i hi
  rw [h.offsets i hi, Nat.zero_add]

theorem PrefixSums.size_le {c : BChunks} (h : c.PrefixSums) : c.size ≤ sizes c.chunksVector := by
  have hlen := c.length_content
  rw [h.size_eq] at hlen
  omega

theorem PrefixSums.size_lt {c : BChunks} (h : c.PrefixSums) : c.size < 2 ^ 64 :=
  lt_of_le_of_lt h.size_le h.fits

theorem Sound.prefixSums {c : BChunks} (h : c.Sound) : c.PrefixSums where
  offsets := h.1.offsets
  fits := by rw [← h.1.total]; exact h.2
  size_eq := by rw [content_eq_bytes h.1.length_bytes.symm, h.1.length_bytes]

/-! ## Searching -/

/-- The position of a character in a stretch of a chunk: for a letter in "case
sensitive" mode the nearer one of its two forms. -/
def charPos (data : List UInt8) (c : UInt8) (caseSensitive : Bool) : Option ℕ :=
  if caseSensitive then
    match memchr data (toupper c), memchr data (tolower c) with
    | some upper, some lower => if upper ≤ lower then some upper else some lower
    | some upper, none => some upper
    | none, some lower => some lower
    | none, none => none
  else memchr data c

/-- The loop of `findChar` over the chunks. -/
def findCharLoop (c : UInt8) (caseSensitive : Bool) :
    List BinaryContainerChunk → ℕ → ℕ → ℕ → Option ℕ
  | [], _, _, _ => none
  | b :: cs, offset, searchSpace, retpos =>
    if 0 < offset ∧ b.size < offset then
      findCharLoop c caseSensitive cs (offset - b.size) searchSpace (retpos + b.size)
    else
      let current := b.data.drop offset
      match charPos (current.take searchSpace) c caseSensitive with
      | some pos => some (offset + pos + retpos)
      | none =>
        if current.length < searchSpace then
          findCharLoop c caseSensitive cs 0 (searchSpace - current.length) (retpos + b.size)
        else none

def findChar (h : BChunks) (c : UInt8) (offset searchSpace : ℕ) (caseSensitive : Bool) :
    Option ℕ :=
  if checkUIntOverflowSum offset searchSpace then none
  else if h.size < offset ∨ h.size < offset + searchSpace then none
  else findCharLoop c (caseSensitive && isalpha c) h.chunksVector offset searchSpace 0

/-- The loop of `compare2` over the chunks. -/
def compare2Loop (caseSensitive : Bool) : List BinaryContainerChunk → List UInt8 → ℕ → Bool
  | [], buf, _ => buf.isEmpty
  | b :: cs, buf, offset =>
    if 0 < offset ∧ b.size < offset then compare2Loop caseSensitive cs buf (offset - b.size)
    else
      let current := b.data.drop offset
      let n := min buf.length current.length
      if !memicmp2 (current.take n) (buf.take n) caseSensitive then false
      else if buf.drop n = [] then true
      else compare2Loop caseSensitive cs (buf.drop n) 0

def compare2 (h : BChunks) (buf : List UInt8) (caseSensitive : Bool) (offset : ℕ) : Bool :=
  if checkUIntOverflowSum offset buf.length then false
  else if buf = [] then true
  else if h.size < offset + buf.length then false
  else compare2Loop caseSensitive h.chunksVector buf offset

/-- The loop of `find`; an iteration shrinks the search space. -/
def findLoop (h : BChunks) (c : UInt8) (needle : List UInt8) (caseSensitive : Bool) :
    ℕ → ℕ → ℕ → Option ℕ
  | 0, _, _ => none
  | fuel + 1, currentOffset, searchSpace =>
    match h.findChar c currentOffset searchSpace caseSensitive with
    | none => none
    | some pos =>
      let searchSpace := searchSpace - (pos - currentOffset)
      if h.compare2 needle caseSensitive pos then some pos
      else if searchSpace = 0 then none
      else findLoop h c needle caseSensitive fuel (pos + 1) (searchSpace - 1)

/-- `B_Base::find` over natural numbers, for containers that are no longer than a `size_t` counts:
`BBase.find` has the wraps, and `search_eq` says that they give the same. -/
def find (h : BChunks) (needle : List UInt8) (caseSensitive : Bool) (offset searchSpace : ℕ) :
    Option ℕ :=
  if checkUIntOverflowSum offset needle.length then none
  else if checkUIntOverflowSum offset searchSpace then none
  else if h.size < offset then none
  else
    let searchSpace := if searchSpace = 0 then h.size - offset else searchSpace
    if searchSpace = 0 then none
    else if searchSpace < needle.length then none
    else
      match needle with
      | [] => some 0
      | c :: _ => findLoop h c needle caseSensitive (searchSpace + 1) offset searchSpace

/-- `B_Base::find` over a list of needles, with the needle found. -/
def findAny (h : BChunks) (needles : List (List UInt8)) (caseSensitive : Bool)
    (offset searchSpace : ℕ) : Option (ℕ × List UInt8) :=
  needles.findSome? (fun needle =>
    (h.find needle caseSensitive offset searchSpace).map (fun pos => (pos, needle)))

/-! ## The search is the leftmost occurrence -/

/-- What a character search looks for. -/
def looksLike (c : UInt8) (caseSensitive : Bool) (x : UInt8) : Bool :=
  if caseSensitive then x == toupper c || x == tolower c else x == c

theorem charPos_eq (data : List UInt8) (c : UInt8) (caseSensitive : Bool) :
    charPos data c caseSensitive = data.findIdx? (looksLike c caseSensitive) := by
  cases caseSensitive with
  | false => rfl
  | true =>
      simp only [charPos, if_true, memchr]
      change _ = data.findIdx? (fun x => x == toupper c || x == tolower c)
      induction data with
      | nil => rfl
      | cons x xs ih =>
          simp only [List.findIdx?_cons]
          by_cases hu : x == toupper c
          · by_cases hl : x == tolower c
            · simp [hu, hl]
            · simp only [hu, hl, if_true, Bool.true_or]
              cases List.findIdx? (fun x => x == tolower c) xs <;> simp
          · by_cases hl : x == tolower c
            · simp only [hu, hl, if_true, Bool.or_true]
              cases List.findIdx? (fun x => x == toupper c) xs <;> simp
            · simp only [hu, hl, Bool.or_self]
              rw [← ih]
              cases List.findIdx? (fun x => x == toupper c) xs <;>
                cases List.findIdx? (fun x => x == tolower c) xs <;> simp
              split <;> rfl

theorem findCharLoop_eq (c : UInt8) (cs' : Bool) (cs : List BinaryContainerChunk)
    (offset searchSpace retpos : ℕ) :
    findCharLoop c cs' cs offset searchSpace retpos =
      ((((cs.flatMap (·.data)).drop offset).take searchSpace).findIdx? (looksLike c cs')).map
        (· + (offset + retpos)) := by
  induction cs generalizing offset searchSpace retpos with
  | nil => simp [findCharLoop]
  | cons b cs ih =>
      unfold findCharLoop
      rw [List.flatMap_cons]
      split
      · rename_i h
        have hb : b.data.length ≤ offset := h.2.le
        rw [ih, List.drop_append, List.drop_eq_nil_of_le hb, List.nil_append]
        have : offset - b.size + (retpos + b.size) = offset + retpos := by
          have : b.size < offset := h.2
          omega
        rw [this]
        rfl
      · rename_i h
        have hb : offset ≤ b.data.length := by
          have : ¬ (0 < offset ∧ b.data.length < offset) := h
          omega
        rw [List.drop_append_of_le_length hb, List.take_append, List.findIdx?_append]
        simp only [charPos_eq]
        cases hf : List.findIdx? (looksLike c cs') ((b.data.drop offset).take searchSpace) with
        | some pos =>
            simp only [Option.some_or, Option.map_some, Option.some.injEq]
            omega
        | none =>
            simp only [Option.none_or, Option.map_map]
            split
            · rename_i hlt
              rw [ih, List.length_take, Nat.min_eq_right hlt.le]
              congr 1
              funext x
              have : b.size = b.data.length := rfl
              simp only [List.length_drop, Function.comp]
              omega
            · rename_i hge
              rw [Nat.sub_eq_zero_of_le (Nat.le_of_not_lt hge)]
              simp

/-- Either form of a character looks like it, in particular the character itself. -/
theorem looksLike_self (c : UInt8) (either : Bool) : looksLike c either c = true := by
  cases either with
  | false => simp [looksLike]
  | true => simpa [looksLike] using eq_of_tolower_eq (rfl : tolower c = tolower c)

/-- A byte that is another one up to case looks like it in one mode of the search; in the other mode
a byte looks only like itself. -/
theorem looksLike_of_foldCase_eq {x c : UInt8} {caseSensitive : Bool}
    (h : foldCase caseSensitive x = foldCase caseSensitive c) :
    looksLike c (!caseSensitive) x = true := by
  cases caseSensitive with
  | true => simpa [looksLike, foldCase] using h
  | false => simpa [looksLike] using eq_of_tolower_eq h

/-- The places of some bytes at which the search for a character stops. -/
def candidate (w : List UInt8) (c : UInt8) (either : Bool) (q : ℕ) : Bool :=
  (w[q]?).any (looksLike c either)

/-- The places at which a needle is, up to case if the case does not matter. -/
def matchesAt (w needle : List UInt8) (caseSensitive : Bool) (q : ℕ) : Bool :=
  decide (OccursAt (needle.map (foldCase caseSensitive)) (w.map (foldCase caseSensitive)) q)

theorem matchesAt_true (w needle : List UInt8) (q : ℕ) :
    matchesAt w needle true q = true ↔ OccursAt needle w q := by
  have hid : foldCase true = id := rfl
  rw [matchesAt, decide_eq_true_eq, hid, List.map_id, List.map_id]

theorem add_length_le_of_matchesAt {w needle : List UInt8} {caseSensitive : Bool} {q : ℕ}
    (hne : needle ≠ []) (h : matchesAt w needle caseSensitive q = true) :
    q + needle.length ≤ w.length := by
  rw [matchesAt, decide_eq_true_eq] at h
  have hle := h.add_length_le (by simpa using hne)
  rwa [List.length_map, List.length_map] at hle

/-- A needle starts with its first character, up to case if need be. -/
theorem foldCase_of_matchesAt {w needle : List UInt8} {c : UInt8} {caseSensitive : Bool} {q : ℕ}
    (h : matchesAt w (c :: needle) caseSensitive q = true) :
    ∃ x, w[q]? = some x ∧ foldCase caseSensitive x = foldCase caseSensitive c := by
  rw [matchesAt, decide_eq_true_eq] at h
  obtain ⟨t, ht⟩ := h
  have hfirst : ((w.map (foldCase caseSensitive)).drop q)[0]? =
      some (foldCase caseSensitive c) := by
    rw [← ht]
    rfl
  rw [List.getElem?_drop, Nat.add_zero, List.getElem?_map, Option.map_eq_some_iff] at hfirst
  exact hfirst

/-- Where the needle is, the search for its first character stops: in the mode that goes with the
comparison, and in any mode if the comparison is exact. -/
theorem candidate_of_matchesAt {w needle : List UInt8} {c : UInt8} {caseSensitive : Bool} {q : ℕ}
    (h : matchesAt w (c :: needle) caseSensitive q = true) {either : Bool}
    (hmode : either = true ∨ caseSensitive = true) : candidate w c either q = true := by
  obtain ⟨x, hx, hfold⟩ := foldCase_of_matchesAt h
  rw [candidate, hx, Option.any_some]
  cases caseSensitive with
  | true =>
      obtain rfl : x = c := hfold
      exact looksLike_self x either
  | false =>
      obtain rfl : either = true := by simpa using hmode
      exact looksLike_of_foldCase_eq hfold

/-- The search for a character in a stretch of the container. -/
theorem findChar_eq {h : BChunks} (hlt : h.size < 2 ^ 64) (c : UInt8) {offset searchSpace : ℕ}
    (hin : offset + searchSpace ≤ h.size) (caseSensitive : Bool) :
    h.findChar c offset searchSpace caseSensitive =
      firstIn (candidate h.content c (caseSensitive && isalpha c)) offset searchSpace := by
  have hstretch : (h.bytes.drop offset).take searchSpace =
      (h.content.drop offset).take searchSpace := by
    rw [content, List.drop_take, List.take_take, Nat.min_eq_left (by omega)]
  unfold findChar
  rw [checkUIntOverflowSum_eq_false (by omega), if_neg (by simp), if_neg (by omega),
    findCharLoop_eq, Nat.add_zero]
  show (((h.bytes.drop offset).take searchSpace).findIdx? _).map _ = _
  rw [hstretch, findIdx?_drop_take]
  rfl

/-- The loop of `compare2` compares with the bytes from the offset on. -/
theorem compare2Loop_iff (caseSensitive : Bool) (cs : List BinaryContainerChunk)
    (buf : List UInt8) (offset : ℕ) :
    compare2Loop caseSensitive cs buf offset = true ↔
      buf.map (foldCase caseSensitive) <+:
        ((cs.flatMap (·.data)).drop offset).map (foldCase caseSensitive) := by
  induction cs generalizing buf offset with
  | nil => simp [compare2Loop]
  | cons b cs ih =>
      unfold compare2Loop
      rw [List.flatMap_cons]
      split
      · rename_i h
        have hb : b.data.length ≤ offset := h.2.le
        rw [ih, List.drop_append, List.drop_eq_nil_of_le hb, List.nil_append]
        rfl
      · rename_i h
        have hb : offset ≤ b.data.length := by
          have : ¬ (0 < offset ∧ b.data.length < offset) := h
          omega
        rw [List.drop_append_of_le_length hb]
        generalize b.data.drop offset = current
        dsimp only
        rcases Nat.lt_or_ge current.length buf.length with hlen | hlen
        · -- the chunk ends first
          have htake : (buf.take current.length).length = current.length :=
            List.length_take_of_le hlen.le
          rw [Nat.min_eq_right hlen.le, List.take_of_length_le (le_refl current.length),
            memicmp2_eq htake.symm]
          have hne : buf.drop current.length ≠ [] := by
            rw [Ne, List.drop_eq_nil_iff]
            omega
          rw [if_neg hne]
          by_cases heq : current.map (foldCase caseSensitive) =
              (buf.take current.length).map (foldCase caseSensitive)
          · rw [if_neg (by simpa using heq), ih, List.drop_zero]
            conv_rhs => rw [← List.take_append_drop current.length buf]
            rw [List.map_append, List.map_append, heq, List.prefix_append_right_inj]
          · rw [if_pos (by simpa using heq)]
            refine iff_of_false (by simp) (fun hpre => heq ?_)
            rw [List.map_append] at hpre
            have h1 := List.prefix_append (current.map (foldCase caseSensitive))
              ((cs.flatMap (·.data)).map (foldCase caseSensitive))
            have h2 := List.prefix_of_prefix_length_le h1 hpre (by simpa using hlen.le)
            rw [List.map_take, ← List.length_map (foldCase caseSensitive)]
            exact List.prefix_iff_eq_take.mp h2
        · have htake : (current.take buf.length).length = buf.length :=
            List.length_take_of_le hlen
          rw [Nat.min_eq_left hlen, List.take_of_length_le (le_refl buf.length),
            memicmp2_eq htake, List.drop_eq_nil_of_le (le_refl buf.length), List.map_append]
          have h1 := List.prefix_append (current.map (foldCase caseSensitive))
            ((cs.flatMap (·.data)).map (foldCase caseSensitive))
          by_cases heq : (current.take buf.length).map (foldCase caseSensitive) =
              buf.map (foldCase caseSensitive)
          · rw [if_neg (by simpa using heq), if_pos rfl]
            refine iff_of_true rfl (List.IsPrefix.trans ?_ h1)
            rw [List.prefix_iff_eq_take, List.length_map, ← List.map_take]
            exact heq.symm
          · rw [if_pos (by simpa using heq)]
            refine iff_of_false (by simp) (fun hpre => heq ?_)
            have h2 := List.prefix_of_prefix_length_le hpre h1 (by simpa using hlen)
            rw [List.prefix_iff_eq_take, List.length_map, ← List.map_take] at h2
            exact h2.symm

/-- The first bytes of a sequence have a word where the sequence has it early enough. -/
theorem occursAt_take {α : Type*} {d s : List α} (hd : d ≠ []) (n p : ℕ) :
    OccursAt d (s.take n) p ↔ p + d.length ≤ n ∧ OccursAt d s p := by
  constructor
  · intro h
    have hle := h.add_length_le hd
    rw [List.length_take] at hle
    refine ⟨by omega, ?_⟩
    have hall := h.append hd (s.drop n)
    rwa [List.take_append_drop] at hall
  · rintro ⟨hn, h⟩
    have hle := h.add_length_le hd
    rw [← List.take_append_drop n s] at h
    refine h.of_append hd ?_
    rw [List.length_take]
    omega

/-- `compare2` decides whether the needle is at a position. -/
theorem compare2_eq {h : BChunks} (hlt : h.size < 2 ^ 64) {needle : List UInt8}
    (hne : needle ≠ []) (caseSensitive : Bool) (pos : ℕ) :
    h.compare2 needle caseSensitive pos = matchesAt h.content needle caseSensitive pos := by
  have hmap : needle.map (foldCase caseSensitive) ≠ [] := by simpa using hne
  rw [Bool.eq_iff_iff, matchesAt, decide_eq_true_eq, content, List.map_take, occursAt_take hmap,
    List.length_map, OccursAt, ← List.map_drop]
  unfold compare2
  split
  · rename_i hov
    rw [checkUIntOverflowSum_iff] at hov
    exact iff_of_false (by simp) (fun hoc => by omega)
  · split
    · exact iff_of_false (by simp) (fun hoc => by omega)
    · rename_i hin
      rw [compare2Loop_iff]
      exact ⟨fun hp => ⟨by omega, hp⟩, fun hoc => hoc.2⟩

/-- The places that a search reports. -/
def reported (h : BChunks) (c : UInt8) (needle : List UInt8) (caseSensitive : Bool) (q : ℕ) :
    Bool :=
  candidate h.content c (caseSensitive && isalpha c) q && matchesAt h.content needle caseSensitive q

theorem candidate_of_reported {h : BChunks} {c : UInt8} {needle : List UInt8}
    {caseSensitive : Bool} (q : ℕ) (hq : h.reported c needle caseSensitive q = true) :
    candidate h.content c (caseSensitive && isalpha c) q = true :=
  (Bool.and_eq_true_iff.mp hq).1

/-- The loop of `find` goes from candidate to candidate. -/
theorem findLoop_eq {h : BChunks} (hlt : h.size < 2 ^ 64) (c : UInt8) {needle : List UInt8}
    (hne : needle ≠ []) (caseSensitive : Bool) {fuel offset searchSpace : ℕ}
    (hin : offset + searchSpace ≤ h.size) (hfuel : searchSpace < fuel) :
    findLoop h c needle caseSensitive fuel offset searchSpace =
      firstIn (h.reported c needle caseSensitive) offset searchSpace := by
  induction fuel generalizing offset searchSpace with
  | zero => omega
  | succ fuel ih =>
      have hchar := findChar_eq hlt c hin caseSensitive
      unfold findLoop
      rw [hchar]
      cases hf : firstIn (candidate h.content c (caseSensitive && isalpha c)) offset
          searchSpace with
      | none => exact (firstIn_miss candidate_of_reported hf).symm
      | some pos =>
          obtain ⟨hle, hpos, hcand, -⟩ := firstIn_eq_some_iff.mp hf
          dsimp only
          rw [compare2_eq hlt hne]
          have hrep : h.reported c needle caseSensitive pos =
              matchesAt h.content needle caseSensitive pos := by
            rw [reported, hcand, Bool.true_and]
          cases hm : matchesAt h.content needle caseSensitive pos with
          | true =>
              rw [if_pos rfl, firstIn_hit candidate_of_reported hf (hrep.trans hm)]
          | false =>
              rw [if_neg (by simp), if_neg (by omega), ih (by omega) (by omega),
                firstIn_next candidate_of_reported hf (hrep.trans hm)]

/-- The search space of a request: what is left of the container, if none is given. -/
def spaceOf (size offset searchSpace : ℕ) : ℕ :=
  if searchSpace = 0 then size - offset else searchSpace

/-- A search is the first place that is reported; requests that reach beyond the container find
nothing. -/
theorem find_eq {h : BChunks} (hlt : h.size < 2 ^ 64) (c : UInt8) (needle : List UInt8)
    (caseSensitive : Bool) {offset searchSpace : ℕ} (hoffset : offset ≤ h.size)
    (hin : offset + searchSpace ≤ h.size) :
    h.find (c :: needle) caseSensitive offset searchSpace =
      if spaceOf h.size offset searchSpace < (c :: needle).length then none
      else firstIn (h.reported c (c :: needle) caseSensitive) offset
        (spaceOf h.size offset searchSpace) := by
  have hlen : 0 < (c :: needle).length := Nat.succ_pos _
  have hspace : offset + spaceOf h.size offset searchSpace ≤ h.size := by
    unfold spaceOf
    split <;> omega
  unfold find
  change (if _ then _ else if _ then _ else if _ then _ else
    if spaceOf h.size offset searchSpace = 0 then _
    else if spaceOf h.size offset searchSpace < _ then _ else findLoop h c (c :: needle)
      caseSensitive (spaceOf h.size offset searchSpace + 1) offset
        (spaceOf h.size offset searchSpace)) = _
  generalize spaceOf h.size offset searchSpace = space at hspace
  by_cases hshort : space < (c :: needle).length
  · rw [if_pos hshort]
    split_ifs <;> rfl
  · rw [checkUIntOverflowSum_eq_false (by omega), checkUIntOverflowSum_eq_false (by omega),
      if_neg (by simp), if_neg (by simp), if_neg (by omega), if_neg (by omega), if_neg hshort,
      if_neg hshort, findLoop_eq hlt c (List.cons_ne_nil _ _) caseSensitive hspace (by omega)]

/-- What a case sensitive search reports is the needle, and it reports it wherever it is. -/
theorem reported_true (h : BChunks) (c : UInt8) (needle : List UInt8) (q : ℕ) :
    h.reported c (c :: needle) true q = true ↔ OccursAt (c :: needle) h.content q := by
  rw [reported, Bool.and_eq_true_iff, matchesAt_true]
  refine ⟨And.right, fun hoc => ⟨?_, hoc⟩⟩
  exact candidate_of_matchesAt ((matchesAt_true _ _ _).mpr hoc) (Or.inr rfl)

/-- **The search is exact.**  Whatever the borders of the chunks are, `find` returns the
leftmost occurrence of a non-empty needle in the bytes of the container. -/
theorem find_eq_first {h : BChunks} (ht : h.size = h.bytes.length) (hlt : h.size < 2 ^ 64)
    {needle : List UInt8} (hne : needle ≠ []) :
    h.find needle true 0 0 = first needle h.bytes := by
  obtain ⟨c, needle, rfl⟩ := List.exists_cons_of_ne_nil hne
  have hall : h.content = h.bytes := content_eq_bytes ht
  have hspace : spaceOf h.size 0 0 = h.size := rfl
  have hlen : ∀ q, OccursAt (c :: needle) h.bytes q → q + (c :: needle).length ≤ h.size := by
    intro q hq
    rw [ht]
    exact hq.add_length_le hne
  rw [find_eq hlt c needle true (Nat.zero_le _) (Nat.zero_le _), hspace]
  split
  · symm
    rw [first_eq_none_iff hne]
    intro q hq
    have := hlen q hq
    omega
  · cases hf : firstIn (h.reported c (c :: needle) true) 0 h.size with
    | none =>
        symm
        rw [first_eq_none_iff hne]
        intro q hq
        have hin := hlen q hq
        have hnot := firstIn_eq_none_iff.mp hf q (Nat.zero_le _) (by
          have : 0 < (c :: needle).length := Nat.succ_pos _
          omega)
        rw [← hall, ← reported_true, hnot] at hq
        exact Bool.false_ne_true hq
    | some p =>
        symm
        obtain ⟨-, -, hp, hbefore⟩ := firstIn_eq_some_iff.mp hf
        rw [first_eq_some_iff hne, ← hall]
        refine ⟨(reported_true ..).mp hp, fun q hq hoc => ?_⟩
        rw [← reported_true, hbefore q (Nat.zero_le _) hq] at hoc
        exact Bool.false_ne_true hoc

/-- A search for several needles tries them in the order of the list. -/
theorem findAny_eq {h : BChunks} (ht : h.size = h.bytes.length) (hlt : h.size < 2 ^ 64)
    {needles : List (List UInt8)} (hne : ∀ d ∈ needles, d ≠ []) :
    h.findAny needles true 0 0 =
      needles.findSome? (fun d => (first d h.bytes).map (fun pos => (pos, d))) := by
  unfold findAny
  induction needles with
  | nil => rfl
  | cons d ds ih =>
      rw [List.findSome?_cons, List.findSome?_cons,
        find_eq_first ht hlt (hne d (List.mem_cons_self ..)),
        ih (fun e he => hne e (List.mem_cons_of_mem _ he))]

/-! ## Copying out -/

/-- The loop of `copyToBuffer2` from the current chunk on; what it returns was written
to the destination. -/
def copyToBuffer2Loop : List BinaryContainerChunk → ℕ → List UInt8
  | [], _ => []
  | current :: rest, bytes =>
    if current.size < bytes then current.data ++ copyToBuffer2Loop rest (bytes - current.size)
    else current.data.take bytes

/-- `copyToBuffer2`: the bytes written to the destination, or `none` if it is left
alone. -/
def copyToBuffer2 (h : BChunks) (bytes offset : ℕ) : Option (List UInt8) :=
  if checkUIntOverflowSum offset bytes then none
  else if bytes = 0 then some []
  else if h.size < offset + bytes then none
  else
    match h.chunkGetPosForOffset offset with
    | none => none
    | some icurrentChunk =>
      match h.chunksVector.drop icurrentChunk with
      | [] => none
      | current :: rest => some (copyToBuffer2Loop (current.moveToOffset offset :: rest) bytes)

/-- `B_Base::copyOut`. -/
def copyOut (h : BChunks) (bytes offset : ℕ) : Option (List UInt8) :=
  if bytes = 2 ^ 64 - 1 ∧ h.size < offset then none
  else
    let bytes := if bytes = 2 ^ 64 - 1 then h.size - offset else bytes
    if checkUIntOverflowSum offset bytes then none
    else if bytes = 0 then some []
    else if h.size < offset + bytes then none
    else h.copyToBuffer2 bytes offset

theorem copyToBuffer2Loop_eq (cs : List BinaryContainerChunk) (n : ℕ) :
    copyToBuffer2Loop cs n = (cs.flatMap (·.data)).take n := by
  induction cs generalizing n with
  | nil => simp [copyToBuffer2Loop]
  | cons b cs ih =>
      unfold copyToBuffer2Loop
      rw [List.flatMap_cons, List.take_append]
      split
      · rename_i hlt
        have hlt : b.data.length < n := hlt
        rw [ih, List.take_of_length_le hlt.le]
        rfl
      · rename_i hge
        have hge : n ≤ b.data.length := Nat.le_of_not_lt hge
        rw [Nat.sub_eq_zero_of_le hge, List.take_zero, List.append_nil]

/-- The bytes before a chunk, those in it, and those behind it. -/
theorem bytes_split {c : BChunks} {ival : ℕ} (hi : ival < c.chunksVector.length) :
    ∃ b, c.chunksVector[ival]? = some b ∧
      c.chunksVector.drop ival = b :: c.chunksVector.drop (ival + 1) ∧
      c.bytes = (c.chunksVector.take ival).flatMap (·.data) ++
        (b.data ++ (c.chunksVector.drop (ival + 1)).flatMap (·.data)) := by
  have hdrop := List.drop_eq_getElem_cons hi
  refine ⟨_, List.getElem?_eq_getElem hi, hdrop, ?_⟩
  rw [← List.flatMap_cons (f := fun x : BinaryContainerChunk => x.data), ← hdrop,
    ← List.flatMap_append, List.take_append_drop]
  rfl

/-- The chunks from the one that holds an offset on, the first of them moved to it, hold
the bytes from that offset on. -/
theorem Aligned.drop_bytes {c : BChunks} (h : Aligned 0 c.chunksVector) {offset ival : ℕ}
    (hh : HoldsOffset c.chunksVector offset ival) :
    ∃ current rest, c.chunksVector.drop ival = current :: rest ∧
      (current.moveToOffset offset :: rest).flatMap (·.data) = c.bytes.drop offset := by
  obtain ⟨hi, hlo, hhi⟩ := hh
  obtain ⟨b, hb, hdrop, hbytes⟩ := bytes_split hi
  have hoff := h.offset hb
  rw [sizes_take_succ hb] at hhi
  refine ⟨b, c.chunksVector.drop (ival + 1), hdrop, ?_⟩
  have hlen := length_flatMap_data (c.chunksVector.take ival)
  have hsz : b.size = b.data.length := rfl
  have hfront : ((c.chunksVector.take ival).flatMap (·.data)).drop offset = [] :=
    List.drop_eq_nil_of_le (by omega)
  rw [hbytes, List.drop_append, hfront, List.nil_append, hlen,
    List.drop_append_of_le_length (by omega), List.flatMap_cons]
  simp only [BinaryContainerChunk.moveToOffset, hoff]

/-- Within the size a slice of the content is the slice of the bytes. -/
theorem slice_content (c : BChunks) {n offset : ℕ} (hin : offset + n ≤ c.size) :
    (c.content.drop offset).take n = (c.bytes.drop offset).take n := by
  rw [content, List.drop_take, List.take_take, Nat.min_eq_left (by omega)]

/-- The number of bytes that a request asks for: the greatest number means all there are. -/
def requested (size bytes offset : ℕ) : ℕ := if bytes = 2 ^ 64 - 1 then size - offset else bytes

/-- A request that reaches beyond the end, or beyond what `size_t` counts. -/
def Exceeds (size bytes offset : ℕ) : Prop :=
  if bytes = 2 ^ 64 - 1 then size < offset
  else 0 < bytes ∧ (2 ^ 64 ≤ offset + bytes ∨ size < offset + bytes)

instance (size bytes offset : ℕ) : Decidable (Exceeds size bytes offset) := by
  unfold Exceeds
  exact inferInstance

theorem add_requested_le {size bytes offset : ℕ} (h : ¬ Exceeds size bytes offset)
    (hpos : 0 < requested size bytes offset) : offset + requested size bytes offset ≤ size := by
  unfold Exceeds at h
  unfold requested at hpos ⊢
  split_ifs at h hpos ⊢ <;> omega

/-- The checks that `copyOut` and `toString` make before they copy. -/
theorem checkedRequest_eq {size bytes offset : ℕ} (hsize : size < 2 ^ 64)
    (hoffset : offset < 2 ^ 64)
    (copy : ℕ → Option (List UInt8)) :
    (if bytes = 2 ^ 64 - 1 ∧ size < offset then none
      else if checkUIntOverflowSum offset (requested size bytes offset) then none
      else if requested size bytes offset = 0 then some []
      else if size < offset + requested size bytes offset then none
      else copy (requested size bytes offset)) =
      if Exceeds size bytes offset then none
      else if requested size bytes offset = 0 then some []
      else copy (requested size bytes offset) := by
  have hover := checkUIntOverflowSum_iff offset (requested size bytes offset)
  by_cases hall : bytes = 2 ^ 64 - 1
  · have hex : Exceeds size bytes offset ↔ size < offset := by rw [Exceeds, if_pos hall]
    have hreq : requested size bytes offset = size - offset := if_pos hall
    rw [hreq] at hover ⊢
    by_cases hlt : size < offset
    · rw [if_pos ⟨hall, hlt⟩, if_pos (hex.mpr hlt)]
    · rw [if_neg (fun h => hlt h.2), if_neg (fun h => hlt (hex.mp h)),
        if_neg (show ¬ checkUIntOverflowSum offset (size - offset) = true by
          rw [hover]
          omega),
        if_neg (show ¬ size < offset + (size - offset) by omega)]
  · have hex : Exceeds size bytes offset ↔
        0 < bytes ∧ (2 ^ 64 ≤ offset + bytes ∨ size < offset + bytes) := by
      rw [Exceeds, if_neg hall]
    have hreq : requested size bytes offset = bytes := if_neg hall
    rw [hreq] at hover ⊢
    rw [if_neg (fun h => hall h.1)]
    simp only [hover, hex]
    split_ifs <;> first | rfl | omega

theorem PrefixSums.copyToBuffer2 {c : BChunks} (h : c.PrefixSums) {n offset : ℕ} (hn : 0 < n)
    (hin : offset + n ≤ c.size) :
    c.copyToBuffer2 n offset = some ((c.content.drop offset).take n) := by
  have hlt := h.size_lt
  have hle := h.size_le
  obtain ⟨ival, hpos, hh⟩ := chunkGetPosForOffset_holds h.aligned h.fits
    (show offset < sizes c.chunksVector by omega)
  obtain ⟨current, rest, hd, hb⟩ := h.aligned.drop_bytes hh
  unfold BChunks.copyToBuffer2
  rw [checkUIntOverflowSum_eq_false (by omega), if_neg (by simp), if_neg (by omega),
    if_neg (by omega)]
  simp only [hpos, hd]
  rw [copyToBuffer2Loop_eq, hb, slice_content c hin]

/-- **Copying out.**  With right offsets a request within the container delivers the slice of the
content that it names, and the others are refused. -/
theorem PrefixSums.copyOut {c : BChunks} (h : c.PrefixSums) (bytes : ℕ) {offset : ℕ}
    (hoffset : offset < 2 ^ 64) :
    c.copyOut bytes offset =
      if Exceeds c.size bytes offset then none
      else some ((c.content.drop offset).take (requested c.size bytes offset)) := by
  refine (checkedRequest_eq h.size_lt hoffset (fun n => c.copyToBuffer2 n offset)).trans ?_
  split
  · rfl
  · rename_i hex
    split
    · rename_i h0
      rw [h0, List.take_zero]
    · rename_i h0
      exact h.copyToBuffer2 (by omega) (add_requested_le hex (by omega))

/-- In a sound container the bytes asked for are the bytes copied. -/
theorem Sound.copyOut {c : BChunks} (h : c.Sound) {n offset : ℕ} (hin : offset + n ≤ c.size) :
    c.copyOut n offset = some ((c.bytes.drop offset).take n) := by
  have hlt := h.prefixSums.size_lt
  have hn : requested c.size n offset = n := by
    unfold requested
    split <;> omega
  have hex : ¬ Exceeds c.size n offset := by
    unfold Exceeds
    split <;> omega
  rw [h.prefixSums.copyOut n (by omega), if_neg hex, hn, slice_content c hin]

end BChunks

end Mantids
