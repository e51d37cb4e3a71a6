/-
# Comparing a container with a block of memory

`B_Base::compare` is one function for every kind of container, and it is what references and mapped
files delegate to.  A `return` in front of its checks has made the rest of it dead: it answers yes
to every request that does not overflow.

* `Container` — the kinds of container, a reference being one to a container of any kind;
* `BBase.compare` — the function;
* `HoldsAt` — the block is in the content, up to case if the case does not matter;
* `compare_iff_holdsAt_iff` — when the answer is right.
-/
import Mantids.BMem
import Mantids.Spill

namespace Mantids

open BChunks

/-- `B_Base::compare`: neither the bounds nor `compare2` are reached. -/
def BBase.compare (mem : List UInt8) (_caseSensitive : Bool) (offset : ℕ) : Bool :=
  if checkUIntOverflowSum offset mem.length then false else true

theorem BBase.compare_eq (mem : List UInt8) (caseSensitive : Bool) (offset : ℕ) :
    compare mem caseSensitive offset = decide (offset + mem.length < 2 ^ 64) := by
  unfold compare
  by_cases hover : offset + mem.length < 2 ^ 64
  · rw [checkUIntOverflowSum_eq_false hover, if_neg (by simp), decide_eq_true hover]
  · rw [if_pos ((checkUIntOverflowSum_iff _ _).mpr (Nat.le_of_not_lt hover)),
      decide_eq_false hover]

/-! ## The kinds of container -/

/-- The size of a slice: what is left behind an offset, at most a number of bytes. -/
def sliceSize (size referencedOffset referencedMaxBytes : ℕ) : ℕ :=
  let availableBytes := subSizeT size referencedOffset
  if referencedMaxBytes = 2 ^ 64 - 1 ∨ availableBytes < referencedMaxBytes then availableBytes
  else referencedMaxBytes

theorem sliceSize_eq {size referencedOffset referencedMaxBytes : ℕ}
    (hoffset : referencedOffset ≤ size) (hlt : size < 2 ^ 64) :
    sliceSize size referencedOffset referencedMaxBytes =
      min referencedMaxBytes (size - referencedOffset) := by
  unfold sliceSize
  rw [subSizeT_of_le hoffset hlt]
  dsimp only
  split <;> omega

/-- A container of any kind. -/
inductive Container where
  | mem (m : BMem)
  /-- `B_Chunks`, in memory or moved to a file. -/
  | chunks (c : SpillingChunks)
  | mmap (m : BMmap)
  /-- A `B_Ref` to nothing. -/
  | nullRef
  | ref (referencedBC : Container) (referencedOffset referencedMaxBytes : ℕ)

namespace Container

def size : Container → ℕ
  | .mem m => m.size
  | .chunks c => c.size
  | .mmap m => m.size
  | .nullRef => 0
  | .ref referencedBC referencedOffset referencedMaxBytes =>
    sliceSize referencedBC.size referencedOffset referencedMaxBytes

/-- The bytes that a container shows. -/
def content : Container → List UInt8
  | .mem m => m.linearMem
  | .chunks c => (c.mmapContainer.elim c.chunks.content BMmap.mem)
  | .mmap m => m.mem
  | .nullRef => []
  | .ref referencedBC referencedOffset referencedMaxBytes =>
    (referencedBC.content.drop referencedOffset).take
      (sliceSize referencedBC.size referencedOffset referencedMaxBytes)

/-- `compare`, the same for all of them. -/
def compare (_x : Container) (mem : List UInt8) (caseSensitive : Bool) (offset : ℕ) : Bool :=
  BBase.compare mem caseSensitive offset

/-- A block lies in the content at an offset, up to case if the case does not matter. -/
def HoldsAt (x : Container) (mem : List UInt8) (caseSensitive : Bool) (offset : ℕ) : Prop :=
  offset + mem.length ≤ x.size ∧
    ((x.content.drop offset).take mem.length).map (foldCase caseSensitive) =
      mem.map (foldCase caseSensitive)

instance (x : Container) (mem : List UInt8) (caseSensitive : Bool) (offset : ℕ) :
    Decidable (x.HoldsAt mem caseSensitive offset) :=
  inferInstanceAs (Decidable (_ ∧ _))

/-- **When the answer is right.**  The comparison answers yes exactly where the block is, if the
block is there, or the request reaches beyond what `size_t` counts. -/
theorem compare_iff_holdsAt_iff {x : Container} (hlt : x.size < 2 ^ 64) (mem : List UInt8)
    (caseSensitive : Bool) (offset : ℕ) :
    (x.compare mem caseSensitive offset = true ↔ x.HoldsAt mem caseSensitive offset) ↔
      2 ^ 64 ≤ offset + mem.length ∨ x.HoldsAt mem caseSensitive offset := by
  rw [compare, BBase.compare_eq, decide_eq_true_eq]
  constructor
  · intro h
    rcases Nat.lt_or_ge (offset + mem.length) (2 ^ 64) with hin | hover
    · exact Or.inr (h.mp hin)
    · exact Or.inl hover
  · rintro (hover | hheld)
    · refine iff_of_false (by omega) (fun hheld => ?_)
      have := hheld.1
      omega
    · refine iff_of_true ?_ hheld
      have := hheld.1
      omega

/-- A slice that is compared with what it shows, and with something else. -/
theorem compare_iff_holdsAt_iff_ref :
    let x : Container := .ref (.mem { linearMem := [1, 2, 3] }) 1 5
    (x.compare [2, 3] true 0 = true ↔ x.HoldsAt [2, 3] true 0) ∧
      ¬ (x.compare [1, 2] true 0 = true ↔ x.HoldsAt [1, 2] true 0) := by
  intro x
  have hright := fun mem => compare_iff_holdsAt_iff (x := x) (by decide) mem true 0
  exact ⟨(hright [2, 3]).mpr (by decide), fun h => absurd ((hright [1, 2]).mp h) (by decide)⟩

/-- Every kind of container, when it holds one byte, equals any other byte, and any two bytes. -/
theorem compare_wrong :
    let m : BMem := { linearMem := [1] }
    let c : SpillingChunks := ⟨{ chunksVector := [⟨[1], 0⟩], containerBytes := 1 }, none⟩
    let f : BMmap := { fileReference := { contents := [1] }, memSize := 1 }
    ∀ x ∈ [Container.mem m, .chunks c, .mmap f, .ref (.mem m) 0 1],
      x.compare [2] true 0 = true ∧ ¬ x.HoldsAt [2] true 0 ∧
        x.compare [1, 1] true 0 = true ∧ ¬ x.HoldsAt [1, 1] true 0 := by
  decide

end Container

end Mantids
