/-
# The first place that passes a test

A search that jumps from one candidate to the next, and looks more closely at each, finds the first
place that passes both tests.

* `firstIn` — the first place of a stretch that passes a test;
* `firstIn_hit`, `firstIn_next`, `firstIn_miss` — what the first candidate tells about the search:
  it is the result, or the search goes on behind it, or there is none;
* `findIdx?_drop_take` — the test of an item, over a stretch of a list.
-/
import Mathlib.Data.List.Range
import Mathlib.Order.Bounds.Defs
import Mathlib.Tactic.Common

namespace Scan

/-- The first of `len` places from `start` on that passes a test. -/
def firstIn (P : ℕ → Bool) (start len : ℕ) : Option ℕ := (List.range' start len).find? P

variable {P Q : ℕ → Bool} {start len p : ℕ}

theorem firstIn_eq_some_iff :
    firstIn P start len = some p ↔
      start ≤ p ∧ p < start + len ∧ P p = true ∧ ∀ q, start ≤ q → q < p → P q = false := by
  rw [firstIn, List.find?_range'_eq_some, List.mem_range'_1]
  simp only [Bool.not_eq_true']
  constructor
  · rintro ⟨h1, ⟨h2, h3⟩, h4⟩
    exact ⟨h2, h3, h1, h4⟩
  · rintro ⟨h1, h2, h3, h4⟩
    exact ⟨h3, ⟨h1, h2⟩, h4⟩

theorem firstIn_eq_none_iff :
    firstIn P start len = none ↔ ∀ q, start ≤ q → q < start + len → P q = false := by
  rw [firstIn, List.find?_range'_eq_none]
  simp only [Bool.not_eq_true']

theorem firstIn_zero (P : ℕ → Bool) (start : ℕ) : firstIn P start 0 = none := rfl

/-- A place that passes the test is not passed over. -/
theorem exists_firstIn_le {q : ℕ} (hq : start ≤ q) (hq' : q < start + len) (hP : P q = true) :
    ∃ p ≤ q, firstIn P start len = some p := by
  cases hf : firstIn P start len with
  | none =>
      rw [firstIn_eq_none_iff.mp hf q hq hq'] at hP
      cases hP
  | some p =>
      refine ⟨p, ?_, rfl⟩
      by_contra hlt
      rw [(firstIn_eq_some_iff.mp hf).2.2.2 q hq (Nat.lt_of_not_le hlt)] at hP
      cases hP

/-- Two tests that agree on a stretch have the same first place there. -/
theorem firstIn_congr (h : ∀ q, start ≤ q → q < start + len → P q = Q q) :
    firstIn P start len = firstIn Q start len := by
  cases hQ : firstIn Q start len with
  | none =>
      rw [firstIn_eq_none_iff] at hQ ⊢
      intro q hq hq'
      rw [h q hq hq', hQ q hq hq']
  | some p =>
      rw [firstIn_eq_some_iff] at hQ ⊢
      obtain ⟨h1, h2, h3, h4⟩ := hQ
      refine ⟨h1, h2, by rw [h p h1 h2, h3], fun q hq hq' => ?_⟩
      rw [h q hq (by omega), h4 q hq hq']

/-- The first place is the least one. -/
theorem firstIn_eq_some_iff_isLeast :
    firstIn P start len = some p ↔ IsLeast {q | start ≤ q ∧ q < start + len ∧ P q = true} p := by
  rw [firstIn_eq_some_iff]
  constructor
  · rintro ⟨h1, h2, h3, h4⟩
    refine ⟨⟨h1, h2, h3⟩, fun q ⟨hq, _, hP⟩ => ?_⟩
    by_contra hlt
    rw [h4 q hq (Nat.lt_of_not_le hlt)] at hP
    exact Bool.false_ne_true hP
  · rintro ⟨⟨h1, h2, h3⟩, hleast⟩
    refine ⟨h1, h2, h3, fun q hq hq' => ?_⟩
    by_contra hP
    have hle := hleast ⟨hq, by omega, by simpa using hP⟩
    omega

/-! ## Candidates -/

theorem eq_false_of_imp (hQP : ∀ q, Q q = true → P q = true) {q : ℕ} (hP : P q = false) :
    Q q = false := by
  rw [Bool.eq_false_iff]
  intro hQ
  rw [hQP q hQ] at hP
  exact Bool.false_ne_true hP.symm

/-- Without a candidate there is nothing to find. -/
theorem firstIn_miss (hQP : ∀ q, Q q = true → P q = true) (h : firstIn P start len = none) :
    firstIn Q start len = none := by
  rw [firstIn_eq_none_iff] at h ⊢
  exact fun q hq hq' => eq_false_of_imp hQP (h q hq hq')

/-- The first candidate, if it passes the other test too, is what is looked for. -/
theorem firstIn_hit (hQP : ∀ q, Q q = true → P q = true) (h : firstIn P start len = some p)
    (hp : Q p = true) : firstIn Q start len = some p := by
  rw [firstIn_eq_some_iff] at h ⊢
  obtain ⟨h1, h2, -, h4⟩ := h
  exact ⟨h1, h2, hp, fun q hq hq' => eq_false_of_imp hQP (h4 q hq hq')⟩

/-- A test that passes more places finds the same first place only if the other test passes that
place too. -/
theorem firstIn_eq_iff_of_imp (hQP : ∀ q, Q q = true → P q = true) :
    firstIn Q start len = firstIn P start len ↔
      ∀ p, firstIn P start len = some p → Q p = true := by
  constructor
  · intro h p hp
    rw [← h, firstIn_eq_some_iff] at hp
    exact hp.2.2.1
  · intro h
    cases hf : firstIn P start len with
    | none => exact firstIn_miss hQP hf
    | some p => exact firstIn_hit hQP hf (h p hf)

/-- Otherwise the search goes on behind it. -/
theorem firstIn_next (hQP : ∀ q, Q q = true → P q = true) (h : firstIn P start len = some p)
    (hp : Q p = false) :
    firstIn Q start len = firstIn Q (p + 1) (len - (p - start) - 1) := by
  rw [firstIn_eq_some_iff] at h
  obtain ⟨h1, h2, -, h4⟩ := h
  have hbefore : ∀ q, start ≤ q → q < p + 1 → Q q = false := by
    intro q hq hq'
    by_cases heq : q = p
    · rw [heq, hp]
    · exact eq_false_of_imp hQP (h4 q hq (by omega))
  cases hQ : firstIn Q (p + 1) (len - (p - start) - 1) with
  | none =>
      rw [firstIn_eq_none_iff] at hQ ⊢
      intro q hq hq'
      rcases Nat.lt_or_ge q (p + 1) with hlt | hge
      · exact hbefore q hq hlt
      · exact hQ q hge (by omega)
  | some r =>
      rw [firstIn_eq_some_iff] at hQ ⊢
      obtain ⟨h5, h6, h7, h8⟩ := hQ
      refine ⟨by omega, by omega, h7, fun q hq hq' => ?_⟩
      rcases Nat.lt_or_ge q (p + 1) with hlt | hge
      · exact hbefore q hq hlt
      · exact h8 q hge hq'

/-! ## Items of a list -/

variable {α : Type*}

/-- The first item of a stretch of a list that passes a test, as a place in the list. -/
theorem findIdx?_drop_take (test : α → Bool) (l : List α) (start len : ℕ) :
    (((l.drop start).take len).findIdx? test).map (· + start) =
      firstIn (fun q => (l[q]?).any test) start len := by
  have hget : ∀ i, i < len → ((l.drop start).take len)[i]? = l[start + i]? := by
    intro i hi
    rw [List.getElem?_take_of_lt hi, List.getElem?_drop]
  cases hf : ((l.drop start).take len).findIdx? test with
  | none =>
      rw [Option.map_none]
      symm
      rw [firstIn_eq_none_iff]
      intro q hq hq'
      rw [List.findIdx?_eq_none_iff] at hf
      rw [show q = start + (q - start) by omega, ← hget (q - start) (by omega)]
      cases hitem : ((l.drop start).take len)[q - start]? with
      | none => rfl
      | some x => exact hf x (List.mem_of_getElem? hitem)
  | some i =>
      rw [Option.map_some]
      symm
      rw [List.findIdx?_eq_some_iff_getElem] at hf
      obtain ⟨hi, htest, hbefore⟩ := hf
      have hlen : i < len := by
        rw [List.length_take] at hi
        omega
      rw [firstIn_eq_some_iff]
      refine ⟨Nat.le_add_left _ _, by omega, ?_, fun q hq hq' => ?_⟩
      · rw [Nat.add_comm, ← hget i hlen, List.getElem?_eq_getElem hi]
        exact htest
      · have hlt : q - start < i := by omega
        rw [show q = start + (q - start) by omega, ← hget (q - start) (by omega),
          List.getElem?_eq_getElem (hlt.trans hi)]
        exact Bool.eq_false_iff.mpr (by simpa using hbefore (q - start) hlt)

end Scan
