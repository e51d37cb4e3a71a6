/-
# Moving a delimited piece

`B_Base::displaceUntil` looks for a needle, appends what is in front of it (and the needle, if it is
kept) to a destination, and removes it from the source.

* `Destination` — a container that is written to, over its `write`;
* `Source` — a container in memory that is read;
* `displaceUntil` — the function, over `copyUntil`;
* `MovesPiece` — it moves one piece, delimited by the first place of the needle, or nothing;
* `Movable` — the requests for which it does;
* `movesPiece_iff` — and these are all.

The search ignores the case.  What is removed is counted by the size of the destination afterwards,
which is more than the piece if the destination was not empty.  What `appendTo` returns is not
looked at.
-/
import Mantids.AppendTo
import Mantids.BMem
import Mantids.BChunksSlices

namespace Mantids

open Occurrence Scan BChunks

/-! ## Both sides -/

/-- A container that is written to.  A `write` throws (`none`), or returns a count or a failure. -/
structure Destination where
  State : Type
  write : State → List UInt8 → Option (State × Option ℕ)
  /-- `writeStatus.succeed`. -/
  succeed : State → Bool
  content : State → List UInt8
  size : State → ℕ
  size_eq : ∀ d, size d = (content d).length
  /-- No more is stored than was given. -/
  write_le : ∀ {d buf d' r}, write d buf = some (d', r) →
    (content d').length ≤ (content d).length + buf.length

/-- `copyToStreamableObjectUsingCleanVector`, for any container to write to. -/
def Destination.copyLoop (D : Destination) : D.State → List (List UInt8) → ℕ →
    Option (D.State × Option ℕ)
  | d, [], dataCopied => some (d, some dataCopied)
  | d, piece :: pieces, dataCopied =>
    match D.write d piece with
    | none => none
    | some (d, none) => some (d, none)
    | some (d, some bytesWritten) =>
      if D.succeed d = false then some (d, none)
      else if 2 ^ 64 ≤ bytesWritten + dataCopied then none
      else D.copyLoop d pieces (bytesWritten + dataCopied)

/-- A copy stores no more than it was given. -/
theorem Destination.copyLoop_le {D : Destination} {d d' : D.State} {ds : List (List UInt8)} {n : ℕ}
    {r : Option ℕ} (h : D.copyLoop d ds n = some (d', r)) :
    (D.content d').length ≤ (D.content d).length + ds.flatten.length := by
  induction ds generalizing d n with
  | nil =>
      cases h
      exact Nat.le_add_right _ _
  | cons piece pieces ih =>
      rw [List.flatten_cons, List.length_append]
      unfold copyLoop at h
      rcases hw : D.write d piece with _ | ⟨d₁, k⟩
      · rw [hw] at h
        cases h
      · have hle := D.write_le hw
        rw [hw] at h
        cases k with
        | none =>
            cases h
            omega
        | some k =>
            simp only at h
            split at h
            · cases h
              omega
            · split at h
              · cases h
              · have := ih h
                omega

/-- A `B_Chunks` in memory, whose count of bytes is right, as a destination. -/
def Destination.chunks : Destination where
  State := { o : StreamableChunks // o.container.Counted ∧ 0 < o.container.maxChunkSize }
  write o buf :=
    match h : o.1.write buf with
    | none => none
    | some (o', r) => some (⟨o', StreamableChunks.counted_write o.2.1 o.2.2 h⟩, r)
  succeed o := o.1.writeStatus.succeed
  content o := o.1.container.content
  size o := o.1.container.size
  size_eq o := by rw [content_eq_bytes o.2.1.size_eq, o.2.1.size_eq]
  write_le := by
    rintro ⟨o, ho⟩ buf ⟨o', ho'⟩ r h
    have hw : o.write buf = some (o', r) := by
      dsimp only at h
      split at h
      · cases h
      · rename_i hw
        cases h
        exact hw
    rw [content_eq_bytes ho.1.size_eq, content_eq_bytes ho'.1.size_eq]
    have hbytes := congrArg List.length (StreamableChunks.bytes_write hw)
    rw [List.length_append, List.length_take] at hbytes
    have hle : o'.container.bytes.length = o'.bytes.length := rfl
    have hle' : o.container.bytes.length = o.bytes.length := rfl
    omega

theorem Destination.content_chunks (o : Destination.chunks.State) :
    Destination.chunks.content o = o.1.bytes :=
  content_eq_bytes o.2.1.size_eq

theorem Destination.write_chunks (o : Destination.chunks.State) (buf : List UInt8) :
    (Destination.chunks.write o buf).map (fun r => (r.1.1, r.2)) = o.1.write buf := by
  dsimp only [chunks]
  split <;> rename_i h <;> exact h.symm

theorem Destination.copyLoop_chunks (o : Destination.chunks.State) (ds : List (List UInt8))
    (n : ℕ) :
    (Destination.chunks.copyLoop o ds n).map (fun r => (r.1.1, r.2)) = o.1.copyLoop ds n := by
  induction ds generalizing o n with
  | nil => rfl
  | cons d ds ih =>
      unfold copyLoop StreamableChunks.copyLoop
      rw [← write_chunks]
      rcases Destination.chunks.write o d with _ | ⟨o₁, _ | k⟩
      · rfl
      · rfl
      · dsimp only [Option.map_some]
        change Option.map _ (if o₁.1.writeStatus.succeed = false then _ else _) = _
        split_ifs
        · rfl
        · rfl
        · exact ih o₁ (k + n)

namespace BMem

/-- `B_MEM::displace2`, with no more bytes than there are. -/
def displace (m : BMem) (bytes : ℕ) : BMem where
  linearMem := m.linearMem.drop (min bytes m.size)
  fits := by
    rw [List.length_drop]
    exact lt_of_le_of_lt (Nat.sub_le _ _) m.fits

/-- The loop of `copyToStreamableObject2`: pieces of at most 64 KiB. -/
def memPieces : ℕ → List UInt8 → List (List UInt8)
  | 0, _ => []
  | fuel + 1, transmitMem =>
    if transmitMem = [] then []
    else transmitMem.take (64 * 1024) :: memPieces fuel (transmitMem.drop (64 * 1024))

theorem flatten_memPieces {fuel : ℕ} {w : List UInt8} (h : w.length ≤ fuel) :
    (memPieces fuel w).flatten = w := by
  induction fuel generalizing w with
  | zero =>
      rw [List.length_eq_zero_iff.mp (Nat.le_zero.mp h)]
      rfl
  | succ fuel ih =>
      unfold memPieces
      split
      · rename_i hw
        rw [hw]
        rfl
      · rename_i hw
        have hpos := List.length_pos_iff.mpr hw
        rw [List.flatten_cons, ih (by rw [List.length_drop]; omega), List.take_append_drop]

end BMem

/-- A container in memory. -/
inductive Source where
  | chunks (c : BChunks)
  | mem (m : BMem)
deriving DecidableEq

namespace Source

def size : Source → ℕ
  | .chunks c => c.size
  | .mem m => m.size

def content : Source → List UInt8
  | .chunks c => c.content
  | .mem m => m.linearMem

def find : Source → List UInt8 → Bool → ℕ → ℕ → Search
  | .chunks c => c.search
  | .mem m => m.find

/-- The pieces in which the first bytes are written. -/
def pieces : Source → ℕ → List (List UInt8)
  | .chunks c, bytes => slicePieces c.chunksVector 0 bytes
  | .mem m, bytes => BMem.memPieces bytes (m.linearMem.take bytes)

def displace : Source → ℕ → Source
  | .chunks c, bytes => .chunks (c.displace bytes).1
  | .mem m, bytes => .mem (m.displace bytes)

/-- `appendTo` from the front on. -/
def appendTo (S : Source) (D : Destination) (d : D.State) (bytes : ℕ) :
    Option (D.State × Option ℕ) :=
  if bytes = 0 then some (d, some 0) else D.copyLoop d (S.pieces (min bytes S.size)) 0

/-- `B_Base::copyUntil`; `none` if it throws. -/
def copyUntil (S : Source) (D : Destination) (d : D.State) (needle : List UInt8)
    (maxCopySize : ℕ) (removeNeedle : Bool) : Option (ℤ × D.State) :=
  match S.find needle false 0 maxCopySize with
  | .threw => none
  | .running => none
  | .done none => some (-1, d)
  | .done (some needlePos) =>
    if checkUIntOverflowSum needlePos needle.length then some (-1, d)
    else if removeNeedle then
      if maxCopySize < needlePos then some (-2, d)
      else (S.appendTo D d needlePos).map (fun r => (0, r.1))
    else if maxCopySize < needlePos + needle.length then some (-2, d)
    else (S.appendTo D d (needlePos + needle.length)).map (fun r => (0, r.1))

/-- `B_Base::displaceUntil`; `none` if it throws. -/
def displaceUntil (S : Source) (D : Destination) (d : D.State) (needle : List UInt8)
    (maxCopySize : ℕ) (removeNeedle : Bool) : Option (ℤ × Source × D.State) :=
  match S.copyUntil D d needle maxCopySize removeNeedle with
  | none => none
  | some (retr, d') =>
    if retr < 0 then some (retr, S, d')
    else
      some (0, S.displace ((D.size d' + if removeNeedle then needle.length else 0) % 2 ^ 64), d')

/-! ## One piece -/

/-- The places of a needle inside the first bytes: it starts there, and ends there if it is kept. -/
def inRange (needle : List UInt8) (maxCopySize : ℕ) (removeNeedle : Bool) : ℕ :=
  if removeNeedle then maxCopySize else maxCopySize + 1 - needle.length

/-- The length of the piece that ends at a place of the needle. -/
def pieceLength (needle : List UInt8) (removeNeedle : Bool) (p : ℕ) : ℕ :=
  if removeNeedle then p else p + needle.length

/-- The call returns zero exactly if the needle is inside the first bytes, and then moves what is in
front of its first place; it leaves both sides alone if it returns something negative. -/
def MovesPiece (S : Source) (D : Destination) (d : D.State) (needle : List UInt8)
    (maxCopySize : ℕ) (removeNeedle : Bool) : Prop :=
  ∃ retr S' d', S.displaceUntil D d needle maxCopySize removeNeedle = some (retr, S', d') ∧
    (retr = 0 ↔ ∃ q < inRange needle maxCopySize removeNeedle, OccursAt needle S.content q) ∧
    (retr = 0 → ∀ p, first needle S.content = some p →
      D.content d' = D.content d ++ S.content.take (pieceLength needle removeNeedle p) ∧
        S'.content = S.content.drop (p + needle.length)) ∧
    (retr < 0 → S' = S ∧ d' = d)

/-! ## When it does -/

/-- The places that the search of a source reports when the case does not matter. -/
def reported (S : Source) (needle : List UInt8) (q : ℕ) : Bool :=
  match S, needle with
  | _, [] => false
  | .chunks c, x :: needle => c.reported x (x :: needle) false q
  | .mem m, x :: needle => matchesAt m.linearMem (x :: needle) false q

/-- The destination stores all the bytes that are written to it piece by piece. -/
def Takes (D : Destination) (d : D.State) (pieces : List (List UInt8)) : Prop :=
  ∃ d' r, D.copyLoop d pieces 0 = some (d', r) ∧ D.content d' = D.content d ++ pieces.flatten

/-- A `B_Chunks` that can still be written to takes pieces exactly if it has chunks for them. -/
theorem takes_chunks_iff {o : Destination.chunks.State} (h : o.1.Ready) {pieces : List (List UInt8)}
    (hpieces : ∀ p ∈ pieces, p ≠ [] ∧ p.length < 2 ^ 63)
    (hlt : o.1.bytes.length + pieces.flatten.length < 2 ^ 64) :
    Takes .chunks o pieces ↔
      o.1.chunks + o.1.chunksForAll pieces ≤ o.1.container.maxChunks := by
  rw [← h.copyLoop_bytes_iff hpieces (Nat.zero_le _) hlt, ← Destination.copyLoop_chunks]
  constructor
  · rintro ⟨o', r, hcopy, hcontent⟩
    rw [Destination.content_chunks, Destination.content_chunks] at hcontent
    exact ⟨o'.1, r, by rw [hcopy]; rfl, hcontent⟩
  · rintro ⟨o', r, hcopy, hbytes⟩
    obtain ⟨⟨o₁, r₁⟩, hcopy₁, heq⟩ := Option.map_eq_some_iff.mp hcopy
    obtain ⟨rfl, rfl⟩ := Prod.mk.inj heq
    refine ⟨o₁, r₁, hcopy₁, ?_⟩
    rw [Destination.content_chunks, Destination.content_chunks]
    exact hbytes

/-- The search of a `B_MEM` does not go wrong beyond the first bytes.  If the needle is not among
them, and the last one is a candidate, the next candidate is the very next byte and no place of the
needle; or a place of the needle that is not taken. -/
def StaysInside (S : Source) (needle : List UInt8) (maxCopySize : ℕ) (removeNeedle : Bool) : Prop :=
  match S, needle with
  | .mem m, x :: needle =>
    firstIn (matchesAt m.linearMem (x :: needle) false) 0 maxCopySize = none →
      candidate m.linearMem x true (maxCopySize - 1) = true →
      ∀ q, firstIn (candidate m.linearMem x true) maxCopySize (m.size - maxCopySize) = some q →
        if matchesAt m.linearMem (x :: needle) false q then removeNeedle = true → q ≠ maxCopySize
        else q = maxCopySize
  | _, _ => True

/-- The requests that move one piece.  The first place that the search reports in the first bytes is
the needle as it was given; the destination is empty, or the needle ends the source; and the
destination takes the piece. -/
def Movable (S : Source) (D : Destination) (d : D.State) (needle : List UInt8)
    (maxCopySize : ℕ) (removeNeedle : Bool) : Prop :=
  match firstIn (S.reported needle) 0 (inRange needle maxCopySize removeNeedle) with
  | some p =>
    OccursAt needle S.content p ∧
      (D.content d = [] ∨ p + needle.length = S.size) ∧
      (pieceLength needle removeNeedle p = 0 ∨
        Takes D d (S.pieces (pieceLength needle removeNeedle p)))
  | none => S.StaysInside needle maxCopySize removeNeedle

/-! ### The parts -/

variable {S : Source} {D : Destination} {d : D.State} {x : UInt8} {needle : List UInt8}
  {maxCopySize : ℕ} {removeNeedle : Bool}

/-- The size of a source is the size of its content, less than half of what `size_t` counts. -/
structure Valid (S : Source) : Prop where
  content_size : S.content.length = S.size
  memory : S.size < 2 ^ 63

theorem Valid.size_le {c : BChunks} (h : Valid (.chunks c)) : c.size ≤ sizes c.chunksVector := by
  have hlen := c.length_content
  have hsize : c.content.length = c.size := h.content_size
  omega

theorem Valid.content_displace (h : S.Valid) (n : ℕ) :
    (S.displace n).content = S.content.drop (min n S.size) := by
  have hmem := h.memory
  cases S with
  | chunks c => exact (displace_slice h.size_le (lt_trans hmem (by decide)) n).2.1
  | mem m => rfl

theorem Valid.flatten_pieces (h : S.Valid) {n : ℕ} (hn : n ≤ S.size) :
    (S.pieces n).flatten = S.content.take n := by
  cases S with
  | chunks c =>
      have hslice : (c.content.drop 0).take n = (c.bytes.drop 0).take n :=
        slice_content c (by rw [Nat.zero_add]; exact hn)
      rw [List.drop_zero, List.drop_zero] at hslice
      rw [pieces, flatten_slicePieces, List.drop_zero]
      exact hslice.symm
  | mem m => exact BMem.flatten_memPieces (List.length_take_le ..)

/-- What the search does when the needle is not reported in the first bytes. -/
def pastEnd (S : Source) (needle : List UInt8) (maxCopySize : ℕ) : Search :=
  match S, needle with
  | .mem m, x :: needle =>
    if candidate m.linearMem x true (maxCopySize - 1) then
      m.beyond x (x :: needle) false maxCopySize
    else .done none
  | _, _ => .done none

theorem Valid.find_eq (h : S.Valid) (hlen : (x :: needle).length ≤ maxCopySize)
    (hmax : maxCopySize ≤ S.size) :
    S.find (x :: needle) false 0 maxCopySize =
      match firstIn (S.reported (x :: needle)) 0 maxCopySize with
      | some p => .done (some p)
      | none => S.pastEnd (x :: needle) maxCopySize := by
  have hmem := h.memory
  have hpos : 0 < (x :: needle).length := Nat.succ_pos _
  have hspace : ∀ size, spaceOf size 0 maxCopySize = maxCopySize := fun size => if_neg (by omega)
  cases S with
  | chunks c =>
      change maxCopySize ≤ c.size at hmax
      change c.size < 2 ^ 63 at hmem
      have hsearch := search_eq (h := c) (by omega) (x :: needle) false (Nat.zero_le _)
        (show 0 + maxCopySize ≤ c.size by omega)
      rw [BChunks.find_eq (by omega) x needle false (Nat.zero_le _) (by omega), hspace,
        if_neg (by omega)] at hsearch
      refine hsearch.trans ?_
      change _ = match firstIn (c.reported x (x :: needle) false) 0 maxCopySize with
        | some p => Search.done (some p)
        | none => .done none
      cases firstIn (c.reported x (x :: needle) false) 0 maxCopySize <;> rfl
  | mem m =>
      change maxCopySize ≤ m.size at hmax
      have hfind := BMem.find_eq (m := m) x needle false (Nat.zero_le _)
        (show 0 + maxCopySize ≤ m.size by omega)
      rw [hspace, if_neg (by omega), Nat.zero_add] at hfind
      refine hfind.trans ?_
      change _ = match firstIn (matchesAt m.linearMem (x :: needle) false) 0 maxCopySize with
        | some p => Search.done (some p)
        | none => _
      cases firstIn (matchesAt m.linearMem (x :: needle) false) 0 maxCopySize <;> rfl

theorem reported_of_occursAt {q : ℕ} (h : OccursAt (x :: needle) S.content q) :
    S.reported (x :: needle) q = true := by
  have hfold : ∀ w, OccursAt (x :: needle) w q → matchesAt w (x :: needle) false q = true := by
    intro w hw
    rw [matchesAt, decide_eq_true_eq, OccursAt, ← List.map_drop]
    exact hw.map _
  cases S with
  | chunks c =>
      refine Bool.and_eq_true_iff.mpr ⟨?_, hfold _ h⟩
      exact candidate_of_matchesAt ((matchesAt_true _ _ _).mpr h) (Or.inr rfl)
  | mem m => exact hfold _ h

theorem Valid.add_length_le (h : S.Valid) {q : ℕ} (hq : S.reported (x :: needle) q = true) :
    q + (x :: needle).length ≤ S.size := by
  rw [← h.content_size]
  cases S with
  | chunks c =>
      exact add_length_le_of_matchesAt (List.cons_ne_nil x needle) (Bool.and_eq_true_iff.mp hq).2
  | mem m => exact add_length_le_of_matchesAt (List.cons_ne_nil x needle) hq

/-! ### The whole -/

/-- A call that returns something negative is right if the needle is not in range. -/
theorem movesPiece_of_neg {retr : ℤ} (hneg : retr < 0)
    (h : S.displaceUntil D d needle maxCopySize removeNeedle = some (retr, S, d))
    (hnone : ∀ q < inRange needle maxCopySize removeNeedle, ¬ OccursAt needle S.content q) :
    S.MovesPiece D d needle maxCopySize removeNeedle := by
  refine ⟨retr, S, d, h, ?_, fun h0 => by omega, fun _ => ⟨rfl, rfl⟩⟩
  refine iff_of_false (by omega) ?_
  rintro ⟨q, hq, hoc⟩
  exact hnone q hq hoc

/-- A call that returns zero is wrong if the needle is not in range. -/
theorem not_movesPiece_of_zero {n : ℕ}
    (h : S.copyUntil D d needle maxCopySize removeNeedle =
      (S.appendTo D d n).map (fun r => (0, r.1)))
    (hnone : ∀ q < inRange needle maxCopySize removeNeedle, ¬ OccursAt needle S.content q) :
    ¬ S.MovesPiece D d needle maxCopySize removeNeedle := by
  rintro ⟨retr, S', d', hcall, hzero, -⟩
  rw [displaceUntil, h] at hcall
  cases happ : S.appendTo D d n with
  | none =>
      rw [happ] at hcall
      cases hcall
  | some r =>
      rw [happ] at hcall
      simp only [Option.map_some, lt_irrefl, if_false, Option.some.injEq, Prod.mk.injEq] at hcall
      obtain ⟨q, hq, hoc⟩ := hzero.mp hcall.1.symm
      exact hnone q hq hoc

/-- What is done with a position that the search returned. -/
theorem Valid.copyUntil_some (h : S.Valid) {p : ℕ} (hp : p + needle.length ≤ S.size)
    (hfind : S.find needle false 0 maxCopySize = .done (some p)) :
    S.copyUntil D d needle maxCopySize removeNeedle =
      if maxCopySize < pieceLength needle removeNeedle p then some (-2, d)
      else (S.appendTo D d (pieceLength needle removeNeedle p)).map (fun r => (0, r.1)) := by
  have hmem := h.memory
  unfold copyUntil
  rw [hfind]
  dsimp only
  rw [checkUIntOverflowSum_eq_false (by omega), if_neg Bool.false_ne_true]
  cases removeNeedle <;> rfl

theorem displaceUntil_neg {retr : ℤ} (hneg : retr < 0)
    (h : S.copyUntil D d needle maxCopySize removeNeedle = some (retr, d)) :
    S.displaceUntil D d needle maxCopySize removeNeedle = some (retr, S, d) := by
  unfold displaceUntil
  rw [h]
  exact if_pos hneg

/-- The piece is taken exactly if `appendTo` leaves it in the destination. -/
theorem Valid.appendTo_iff (h : S.Valid) {n : ℕ} (hn : n ≤ S.size) :
    (∃ d' r, S.appendTo D d n = some (d', r) ∧
        D.content d' = D.content d ++ S.content.take n) ↔
      (n = 0 ∨ Takes D d (S.pieces n)) := by
  unfold appendTo
  by_cases h0 : n = 0
  · rw [if_pos h0, h0]
    exact iff_of_true ⟨d, _, rfl, by rw [List.take_zero, List.append_nil]⟩ (Or.inl rfl)
  · rw [if_neg h0, or_iff_right h0, Nat.min_eq_left hn, ← h.flatten_pieces hn]
    rfl

theorem Valid.appendTo_le (h : S.Valid) {n : ℕ} (hn : n ≤ S.size) {d' : D.State} {r : Option ℕ}
    (happ : S.appendTo D d n = some (d', r)) :
    (D.content d').length ≤ (D.content d).length + n := by
  unfold appendTo at happ
  split at happ
  · cases happ
    exact Nat.le_add_right _ _
  · rw [Nat.min_eq_left hn] at happ
    have hle := Destination.copyLoop_le happ
    rw [h.flatten_pieces hn, List.length_take] at hle
    omega

/-- The search reports a place in range, and the piece in front of it is taken for the piece. -/
theorem Valid.movesPiece_iff_of_reported (h : S.Valid) (hd : D.size d < 2 ^ 63)
    (hlen : (x :: needle).length ≤ maxCopySize) (hmax : maxCopySize ≤ S.size) {p : ℕ}
    (hfirst : firstIn (S.reported (x :: needle)) 0
      (inRange (x :: needle) maxCopySize removeNeedle) = some p) :
    S.MovesPiece D d (x :: needle) maxCopySize removeNeedle ↔
      OccursAt (x :: needle) S.content p ∧
        (D.content d = [] ∨ p + (x :: needle).length = S.size) ∧
        (pieceLength (x :: needle) removeNeedle p = 0 ∨
          Takes D d (S.pieces (pieceLength (x :: needle) removeNeedle p))) := by
  have hmem := h.memory
  have hne := List.cons_ne_nil x needle
  have hpos := List.length_pos_iff.mpr hne
  obtain ⟨-, hrange, hrep, hbefore⟩ := firstIn_eq_some_iff.mp hfirst
  have hend := h.add_length_le hrep
  have hpiece : pieceLength (x :: needle) removeNeedle p +
      (if removeNeedle then (x :: needle).length else 0) = p + (x :: needle).length := by
    cases removeNeedle <;> rfl
  have hin : p < maxCopySize ∧ pieceLength (x :: needle) removeNeedle p ≤ maxCopySize := by
    cases removeNeedle <;>
      simp only [inRange, pieceLength, if_true, Bool.false_eq_true, if_false] at hrange ⊢ <;> omega
  have hcopy : S.copyUntil D d (x :: needle) maxCopySize removeNeedle =
      (S.appendTo D d (pieceLength (x :: needle) removeNeedle p)).map (fun r => (0, r.1)) := by
    have hfound : firstIn (S.reported (x :: needle)) 0 maxCopySize = some p :=
      firstIn_eq_some_iff.mpr ⟨Nat.zero_le _, by omega, hrep, hbefore⟩
    rw [h.copyUntil_some hend (by rw [h.find_eq hlen hmax, hfound]), if_neg (by omega)]
  have hno : ∀ q < p, ¬ OccursAt (x :: needle) S.content q := by
    intro q hq hoc
    have hfalse := hbefore q (Nat.zero_le _) hq
    rw [reported_of_occursAt hoc] at hfalse
    cases hfalse
  have hsize := D.size_eq d
  rw [← h.appendTo_iff (by omega)]
  constructor
  · rintro ⟨retr, S', d', hcall, hzero, hmove, -⟩
    rw [displaceUntil, hcopy] at hcall
    cases happ : S.appendTo D d (pieceLength (x :: needle) removeNeedle p) with
    | none =>
        rw [happ] at hcall
        cases hcall
    | some r =>
        obtain ⟨d₁, r⟩ := r
        rw [happ] at hcall
        dsimp only [Option.map_some] at hcall
        obtain ⟨rfl, rfl, rfl⟩ := hcall
        obtain ⟨q, -, hoc⟩ := hzero.mp rfl
        cases hfound : first (x :: needle) S.content with
        | none => exact absurd hoc ((first_eq_none_iff hne).mp hfound q)
        | some p₁ =>
            obtain ⟨hoc₁, -⟩ := (first_eq_some_iff hne).mp hfound
            obtain ⟨hcontent, hleft⟩ := hmove rfl p₁ hfound
            have hend₁ := hoc₁.add_length_le hne
            rw [h.content_size] at hend₁
            have hle₁ : p ≤ p₁ := Nat.le_of_not_lt (fun hlt => hno p₁ hlt hoc₁)
            -- the destination has not got more bytes than the piece has
            obtain rfl : p₁ = p := by
              have hle := h.appendTo_le (by omega) happ
              rw [hcontent, List.length_append, List.length_take_of_le (by
                rw [h.content_size]
                unfold pieceLength
                split <;> omega)] at hle
              unfold pieceLength at hle
              split at hle <;> omega
            refine ⟨hoc₁, ?_, d', r, rfl, hcontent⟩
            have hsize₁ := D.size_eq d'
            rw [hcontent, List.length_append, List.length_take_of_le (by
              rw [h.content_size]
              omega)] at hsize₁
            have hcut := congrArg List.length hleft
            rw [h.content_displace, List.length_drop, List.length_drop, h.content_size,
              Nat.mod_eq_of_lt (by omega)] at hcut
            rw [← List.length_eq_zero_iff]
            omega
  · rintro ⟨hoc, hdest, d', r, happ, hcontent⟩
    have hfound : first (x :: needle) S.content = some p :=
      (first_eq_some_iff hne).mpr ⟨hoc, hno⟩
    have hsize' := D.size_eq d'
    rw [hcontent, List.length_append, List.length_take_of_le (by
      rw [h.content_size]
      omega)] at hsize'
    have hcall : S.displaceUntil D d (x :: needle) maxCopySize removeNeedle =
        some (0, S.displace ((D.size d' + if removeNeedle then (x :: needle).length else 0) %
          2 ^ 64), d') := by
      rw [displaceUntil, hcopy, happ]
      rfl
    refine ⟨_, _, _, hcall, iff_of_true rfl ⟨p, by omega, hoc⟩, fun _ p₁ hp₁ => ?_, fun hneg => ?_⟩
    · obtain rfl : p = p₁ := Option.some.inj (hfound.symm.trans hp₁)
      refine ⟨hcontent, ?_⟩
      rw [h.content_displace, Nat.mod_eq_of_lt (by omega)]
      congr 1
      rcases hdest with hempty | hlast
      · rw [hempty, List.length_nil] at hsize'
        omega
      · omega
    · exact absurd hneg (lt_irrefl 0)

/-- The search reports no place in range. -/
theorem Valid.movesPiece_iff_of_not_reported (h : S.Valid)
    (hlen : (x :: needle).length ≤ maxCopySize) (hmax : maxCopySize ≤ S.size)
    (hnone : firstIn (S.reported (x :: needle)) 0
      (inRange (x :: needle) maxCopySize removeNeedle) = none) :
    S.MovesPiece D d (x :: needle) maxCopySize removeNeedle ↔
      S.StaysInside (x :: needle) maxCopySize removeNeedle := by
  have hmem := h.memory
  have hpos := List.length_pos_iff.mpr (List.cons_ne_nil x needle)
  have hno : ∀ q < inRange (x :: needle) maxCopySize removeNeedle,
      ¬ OccursAt (x :: needle) S.content q := by
    intro q hq hoc
    have hfalse := firstIn_eq_none_iff.mp hnone q (Nat.zero_le _) (by omega)
    rw [reported_of_occursAt hoc] at hfalse
    cases hfalse
  have hfind := h.find_eq hlen hmax
  have hminus : ∀ retr : ℤ, retr < 0 →
      S.copyUntil D d (x :: needle) maxCopySize removeNeedle = some (retr, d) →
        S.MovesPiece D d (x :: needle) maxCopySize removeNeedle :=
    fun retr hneg hcopy => movesPiece_of_neg hneg (displaceUntil_neg hneg hcopy) hno
  have hmissed : S.find (x :: needle) false 0 maxCopySize = .done none →
      S.MovesPiece D d (x :: needle) maxCopySize removeNeedle := by
    intro hdone
    refine hminus (-1) (by decide) ?_
    rw [copyUntil, hdone]
  cases hf : firstIn (S.reported (x :: needle)) 0 maxCopySize with
  | some p =>
      -- the needle is kept, and ends beyond the first bytes
      obtain ⟨-, hlt, hrep, -⟩ := firstIn_eq_some_iff.mp hf
      have hend := h.add_length_le hrep
      rw [hf] at hfind
      have hout : maxCopySize < pieceLength (x :: needle) removeNeedle p := by
        by_contra hle
        have hin : p < inRange (x :: needle) maxCopySize removeNeedle := by
          cases removeNeedle <;>
            simp only [inRange, pieceLength, if_true, Bool.false_eq_true, if_false] at hle ⊢ <;>
            omega
        rw [firstIn_eq_none_iff.mp hnone p (Nat.zero_le _) (by omega)] at hrep
        cases hrep
      refine iff_of_true (hminus (-2) (by decide) ?_) ?_
      · rw [h.copyUntil_some hend hfind, if_pos hout]
      · cases S with
        | chunks c => trivial
        | mem m =>
            intro hmatch
            cases hf.symm.trans hmatch
  | none =>
      rw [hf] at hfind
      cases S with
      | chunks c => exact iff_of_true (hmissed hfind) trivial
      | mem m =>
          have hbeyond : candidate m.linearMem x true (maxCopySize - 1) = true →
              m.find (x :: needle) false 0 maxCopySize =
                m.beyond x (x :: needle) false maxCopySize :=
            fun hlast => hfind.trans (if_pos hlast)
          by_cases hlast : candidate m.linearMem x true (maxCopySize - 1) = true
          · cases hq : firstIn (candidate m.linearMem x true) maxCopySize
                (m.size - maxCopySize) with
            | none =>
                have hdone : m.beyond x (x :: needle) false maxCopySize = .done none := by
                  rw [beyond_eq_none_iff]
                  intro q hq'
                  cases hq.symm.trans hq'
                refine iff_of_true (hmissed ((hbeyond hlast).trans hdone)) (fun _ _ q hq' => ?_)
                cases hq.symm.trans hq'
            | some q =>
                have hstays : StaysInside (.mem m) (x :: needle) maxCopySize removeNeedle ↔
                    if matchesAt m.linearMem (x :: needle) false q then
                      removeNeedle = true → q ≠ maxCopySize
                    else q = maxCopySize := by
                  refine ⟨fun hs => hs hf hlast q hq, fun hc _ _ q' hq' => ?_⟩
                  obtain rfl : q = q' := Option.some.inj (hq.symm.trans hq')
                  exact hc
                have hresult : m.beyond x (x :: needle) false maxCopySize =
                    if matchesAt m.linearMem (x :: needle) false q then .done (some q)
                    else if q = maxCopySize then .done none else .threw := by
                  have hnext : firstIn (candidate m.linearMem x !(false && isalpha x)) maxCopySize
                      (m.size - maxCopySize) = some q := hq
                  rw [BMem.beyond, hnext]
                have hcall := (hbeyond hlast).trans hresult
                obtain ⟨hle, -, -, -⟩ := firstIn_eq_some_iff.mp hq
                rw [hstays]
                by_cases hm : matchesAt m.linearMem (x :: needle) false q = true
                · -- a place behind the first bytes is returned
                  have hend : q + (x :: needle).length ≤ m.size :=
                    add_length_le_of_matchesAt (List.cons_ne_nil x needle) hm
                  rw [if_pos hm] at hcall ⊢
                  by_cases hout : maxCopySize < pieceLength (x :: needle) removeNeedle q
                  · refine iff_of_true (hminus (-2) (by decide) ?_) ?_
                    · rw [h.copyUntil_some hend hcall, if_pos hout]
                    · rintro rfl rfl
                      exact absurd hout (lt_irrefl _)
                  · have hremove : removeNeedle = true := by
                      by_contra hkeep
                      rw [pieceLength, if_neg hkeep] at hout
                      omega
                    have heq : q = maxCopySize := by
                      rw [pieceLength, if_pos hremove] at hout
                      omega
                    have hcopy :
                        copyUntil (.mem m) D d (x :: needle) maxCopySize removeNeedle = _ :=
                      h.copyUntil_some hend hcall
                    rw [if_neg hout] at hcopy
                    exact iff_of_false (not_movesPiece_of_zero hcopy hno) (fun hc => hc hremove heq)
                · rw [if_neg hm] at hcall ⊢
                  by_cases heq : q = maxCopySize
                  · rw [if_pos heq] at hcall
                    exact iff_of_true (hmissed hcall) heq
                  · rw [if_neg heq] at hcall
                    refine iff_of_false ?_ heq
                    rintro ⟨retr, S', d', hmoved, -⟩
                    have hthrew : copyUntil (.mem m) D d (x :: needle) maxCopySize removeNeedle =
                        none := by
                      rw [copyUntil, show find (.mem m) _ _ _ _ = _ from hcall]
                    rw [displaceUntil, hthrew] at hmoved
                    cases hmoved
          · refine iff_of_true (hmissed (hfind.trans (if_neg hlast))) (fun _ hc => ?_)
            exact absurd hc hlast

/-- **When one piece is moved.**  `displaceUntil` moves the piece in front of the first place of the
needle, or nothing, exactly if the request is movable. -/
theorem movesPiece_iff (h : S.Valid) (hd : D.size d < 2 ^ 63) (hne : needle ≠ [])
    (hlen : needle.length ≤ maxCopySize) (hmax : maxCopySize ≤ S.size) :
    S.MovesPiece D d needle maxCopySize removeNeedle ↔
      S.Movable D d needle maxCopySize removeNeedle := by
  obtain ⟨x, needle, rfl⟩ := List.exists_cons_of_ne_nil hne
  unfold Movable
  cases hf : firstIn (S.reported (x :: needle)) 0
      (inRange (x :: needle) maxCopySize removeNeedle) with
  | some p => exact h.movesPiece_iff_of_reported hd hlen hmax hf
  | none => exact h.movesPiece_iff_of_not_reported hlen hmax hf

/-- A line is moved to a new container without its end. -/
theorem movesPiece_iff_line :
    let S : Source :=
      .chunks { chunksVector := [⟨[65, 66], 0⟩, ⟨[10, 67], 2⟩], containerBytes := 4 }
    let d : Destination.chunks.State := ⟨{}, ⟨by decide, rfl, by decide⟩, by decide⟩
    S.MovesPiece .chunks d [10] 4 true := by
  intro S d
  have hmoved : S.MovesPiece .chunks d [10] 4 true ↔ S.Movable .chunks d [10] 4 true :=
    movesPiece_iff ⟨by decide, by decide⟩ (by decide) (by decide) (by decide) (by decide)
  refine hmoved.mpr ?_
  have hfirst : firstIn (S.reported [10]) 0 (inRange [10] 4 true) = some 2 := by decide
  unfold Movable
  rw [hfirst]
  exact ⟨by decide, Or.inl rfl, Or.inr ⟨_, _, rfl, by decide⟩⟩

/-- With two bytes in the destination, the two bytes behind the line are lost. -/
theorem not_movesPiece :
    let S : Source :=
      .chunks { chunksVector := [⟨[65, 66, 10, 67, 68, 69], 0⟩], containerBytes := 6 }
    let d : Destination.chunks.State :=
      ⟨⟨{ chunksVector := [⟨[120, 121], 0⟩], containerBytes := 2 }, {}⟩,
        ⟨by decide, rfl, by decide⟩, by decide⟩
    (S.displaceUntil .chunks d [10] 6 true).map (fun r => (r.1, r.2.1.content)) =
        some (0, [69]) ∧
      ¬ S.MovesPiece .chunks d [10] 6 true := by
  intro S d
  have hleft : (S.displaceUntil .chunks d [10] 6 true).map (fun r => (r.1, r.2.1.content)) =
      some (0, [69]) := by decide
  refine ⟨hleft, ?_⟩
  rintro ⟨retr, S', d', hcall, -, hmove, -⟩
  rw [hcall] at hleft
  obtain ⟨rfl, hcontent⟩ := Prod.mk.inj (Option.some.inj hleft)
  have hright := (hmove rfl 2 (by decide)).2
  rw [hcontent] at hright
  exact absurd hright (by decide)

end Source

end Mantids
