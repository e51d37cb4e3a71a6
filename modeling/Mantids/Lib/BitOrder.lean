/-
# The first bits of a sequence of words

The bits of a sequence of words are counted word by word, in each of them from the lowest or from
the highest bit on.

* `LowFirst`, `HighFirst` — two sequences agree in their first bits;
* `LowBits`, `HighBits` — two words do;
* `lowFirst_iff`, `highFirst_iff` — whole words, and the bits of the next one;
* `lowFirst_iff_highFirst_iff` — when both ways of counting say the same.
-/
import Mathlib.Data.Nat.Basic
import Mathlib.Tactic.Common

namespace BitOrder

variable {w : ℕ}

/-- The first bits of two sequences agree, counted from the lowest bit of each word on. -/
def LowFirst (x y : ℕ → BitVec w) (n : ℕ) : Prop :=
  ∀ i < n, (x (i / w)).getLsbD (i % w) = (y (i / w)).getLsbD (i % w)

/-- The same, counted from the highest bit of each word on. -/
def HighFirst (x y : ℕ → BitVec w) (n : ℕ) : Prop :=
  ∀ i < n, (x (i / w)).getMsbD (i % w) = (y (i / w)).getMsbD (i % w)

/-- The lowest bits of two words agree. -/
def LowBits (a b : BitVec w) (n : ℕ) : Prop := ∀ j < n, a.getLsbD j = b.getLsbD j

/-- The highest bits of two words agree. -/
def HighBits (a b : BitVec w) (n : ℕ) : Prop := ∀ j < n, a.getMsbD j = b.getMsbD j

instance (a b : BitVec w) (n : ℕ) : Decidable (LowBits a b n) :=
  inferInstanceAs (Decidable (∀ j < n, _))

instance (a b : BitVec w) (n : ℕ) : Decidable (HighBits a b n) :=
  inferInstanceAs (Decidable (∀ j < n, _))

theorem lowBits_self_iff {a b : BitVec w} : LowBits a b w ↔ a = b :=
  ⟨fun h => BitVec.eq_of_getLsbD_eq h, fun h _ _ => by rw [h]⟩

theorem highBits_self_iff {a b : BitVec w} : HighBits a b w ↔ a = b :=
  ⟨fun h => BitVec.eq_of_getMsbD_eq h, fun h _ _ => by rw [h]⟩

/-- The first numbers, cut into blocks. -/
theorem forall_lt_iff (hw : 0 < w) (n : ℕ) (P : ℕ → ℕ → Prop) :
    (∀ i < n, P (i / w) (i % w)) ↔
      (∀ k < n / w, ∀ j < w, P k j) ∧ ∀ j < n % w, P (n / w) j := by
  have hn := Nat.div_add_mod n w
  constructor
  · intro h
    refine ⟨fun k hk j hj => ?_, fun j hj => ?_⟩
    · have hle : w * (k + 1) ≤ w * (n / w) := Nat.mul_le_mul_left w hk
      have hi := h (w * k + j) (by rw [Nat.mul_succ] at hle; omega)
      rwa [Nat.mul_add_div hw, Nat.div_eq_of_lt hj, Nat.add_zero, Nat.mul_add_mod,
        Nat.mod_eq_of_lt hj] at hi
    · have hlt : j < w := Nat.lt_trans hj (Nat.mod_lt n hw)
      have hi := h (w * (n / w) + j) (by omega)
      rwa [Nat.mul_add_div hw, Nat.div_eq_of_lt hlt, Nat.add_zero, Nat.mul_add_mod,
        Nat.mod_eq_of_lt hlt] at hi
  · rintro ⟨hblocks, hrest⟩ i hi
    rcases Nat.lt_or_ge (i / w) (n / w) with hlt | hge
    · exact hblocks _ hlt _ (Nat.mod_lt i hw)
    · have heq : i / w = n / w := Nat.le_antisymm (Nat.div_le_div_right (Nat.le_of_lt hi)) hge
      have hi' := Nat.div_add_mod i w
      rw [heq] at hi' ⊢
      exact hrest _ (by omega)

variable {x y : ℕ → BitVec w} {n : ℕ}

theorem lowFirst_iff (hw : 0 < w) :
    LowFirst x y n ↔ (∀ k < n / w, x k = y k) ∧ LowBits (x (n / w)) (y (n / w)) (n % w) := by
  simp only [← lowBits_self_iff]
  exact forall_lt_iff hw n fun k j => (x k).getLsbD j = (y k).getLsbD j

theorem highFirst_iff (hw : 0 < w) :
    HighFirst x y n ↔ (∀ k < n / w, x k = y k) ∧ HighBits (x (n / w)) (y (n / w)) (n % w) := by
  simp only [← highBits_self_iff]
  exact forall_lt_iff hw n fun k j => (x k).getMsbD j = (y k).getMsbD j

/-- **Both ways of counting.**  They say the same if a whole word differs already, or if they do of
the word that is counted in part. -/
theorem lowFirst_iff_highFirst_iff (hw : 0 < w) :
    (LowFirst x y n ↔ HighFirst x y n) ↔
      (∃ k < n / w, x k ≠ y k) ∨
        (LowBits (x (n / w)) (y (n / w)) (n % w) ↔ HighBits (x (n / w)) (y (n / w)) (n % w)) := by
  rw [lowFirst_iff hw, highFirst_iff hw]
  by_cases hwhole : ∀ k < n / w, x k = y k
  · have hno : ¬ ∃ k < n / w, x k ≠ y k := by
      rintro ⟨k, hk, hne⟩
      exact hne (hwhole k hk)
    rw [and_iff_right hwhole, and_iff_right hwhole, or_iff_right hno]
  · have hsome : ∃ k < n / w, x k ≠ y k := by
      by_contra hno
      exact hwhole fun k hk => by_contra fun hne => hno ⟨k, hk, hne⟩
    exact iff_of_true (iff_of_false (fun h => hwhole h.1) fun h => hwhole h.1) (Or.inl hsome)

end BitOrder
