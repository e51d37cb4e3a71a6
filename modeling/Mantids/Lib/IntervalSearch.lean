/-
# Searching among consecutive intervals

Boundaries `start 0 ≤ start 1 ≤ …` cut an order into the intervals from `start i` to below
`start (i + 1)`.  The interval of a value is looked for between two indexes; each look that fails
leaves the indexes on one side of it.

* `search` — the search, with the indexes that were looked at; where it looks next is a parameter;
* `InMiddle` — it looks between the bounds;
* `IsInterval.unique` — there is only one interval of a value;
* `Finds` — nothing outside of the bounds is looked at, and the interval of the value is found if it
  is between them;
* `search_spec` — the search ends so.
-/
import Mathlib.Order.Lattice
import Mathlib.Order.Monotone.Basic
import Mathlib.Tactic.Common

namespace IntervalSearch

variable {α : Type*} [LinearOrder α]

/-- The value is in the interval of the index. -/
def IsInterval (start : ℕ → α) (x : α) (i : ℕ) : Prop := start i ≤ x ∧ x < start (i + 1)

instance (start : ℕ → α) (x : α) (i : ℕ) : Decidable (IsInterval start x i) :=
  inferInstanceAs (Decidable (_ ∧ _))

/-- A middle of two indexes is not outside of them. -/
def InMiddle (mid : ℕ → ℕ → ℕ) : Prop :=
  ∀ ⦃lo hi : ℕ⦄, lo ≤ hi → lo ≤ mid lo hi ∧ mid lo hi ≤ hi

/-- The search, from an index between two others, for a bounded number of looks. -/
def search (start : ℕ → α) (mid : ℕ → ℕ → ℕ) (x : α) :
    ℕ → ℕ → ℕ → ℕ → Option (List ℕ × Option ℕ)
  | 0, _, _, _ => none
  | fuel + 1, pos, hi, lo =>
    if IsInterval start x pos then some ([pos], some pos)
    else if x < start pos then
      if pos = lo then some ([pos], none)
      else
        (search start mid x fuel (mid lo (pos - 1)) (pos - 1) lo).map fun r => (pos :: r.1, r.2)
    else
      if pos = hi then some ([pos], none)
      else
        (search start mid x fuel (mid (pos + 1) hi) hi (pos + 1)).map fun r => (pos :: r.1, r.2)

variable {start : ℕ → α} {mid : ℕ → ℕ → ℕ} {x : α} {i j : ℕ}

theorem IsInterval.unique (hstart : Monotone start) (hi : IsInterval start x i)
    (hj : IsInterval start x j) : i = j := by
  rcases Nat.lt_trichotomy i j with hlt | heq | hgt
  · exact absurd (hi.2.trans_le ((hstart hlt).trans hj.1)) (lt_irrefl x)
  · exact heq
  · exact absurd (hj.2.trans_le ((hstart hgt).trans hi.1)) (lt_irrefl x)

/-- Below the start of an interval there are only smaller indexes. -/
theorem IsInterval.lt_of_lt (hstart : Monotone start) (hi : IsInterval start x i)
    (hx : x < start j) : i < j := by
  by_contra hle
  exact absurd (hx.trans_le ((hstart (Nat.le_of_not_lt hle)).trans hi.1)) (lt_irrefl x)

/-- Behind the end of an interval there are only greater ones. -/
theorem IsInterval.lt_of_le (hstart : Monotone start) (hi : IsInterval start x i)
    (hx : start (j + 1) ≤ x) : j < i := by
  by_contra hle
  exact absurd (hi.2.trans_le ((hstart (Nat.succ_le_succ (Nat.le_of_not_lt hle))).trans hx))
    (lt_irrefl x)

/-- What a search between two indexes comes to: it looks at nothing outside of them, and finds the
interval of the value if it is between them. -/
def Finds (start : ℕ → α) (x : α) (lo hi : ℕ) (looks : List ℕ) (found : Option ℕ) : Prop :=
  (∀ k ∈ looks, lo ≤ k ∧ k ≤ hi) ∧ ∀ k, found = some k ↔ lo ≤ k ∧ k ≤ hi ∧ IsInterval start x k

/-- One look, at the interval of the value. -/
theorem finds_some {lo hi pos : ℕ} (hstart : Monotone start) (hlo : lo ≤ pos) (hhi : pos ≤ hi)
    (hin : IsInterval start x pos) : Finds start x lo hi [pos] (some pos) := by
  refine ⟨by simp [hlo, hhi], fun k => ?_⟩
  rw [Option.some.injEq]
  constructor
  · rintro rfl
    exact ⟨hlo, hhi, hin⟩
  · rintro ⟨-, -, hk⟩
    exact IsInterval.unique hstart hin hk

/-- One look, where there is nothing to find. -/
theorem finds_none {lo hi pos : ℕ} (hlo : lo ≤ pos) (hhi : pos ≤ hi)
    (hno : ∀ k, lo ≤ k → k ≤ hi → ¬ IsInterval start x k) : Finds start x lo hi [pos] none :=
  ⟨by simp [hlo, hhi], fun k => ⟨nofun, fun ⟨hk, hk', hkin⟩ => absurd hkin (hno k hk hk')⟩⟩

/-- One more look in front, where the interval of the value is not among those that it cuts off. -/
theorem Finds.widen {lo hi lo' hi' pos : ℕ} {looks : List ℕ} {found : Option ℕ}
    (h : Finds start x lo' hi' looks found) (hpos : lo ≤ pos ∧ pos ≤ hi) (hlo : lo ≤ lo')
    (hhi : hi' ≤ hi) (hcut : ∀ k, lo ≤ k → k ≤ hi → IsInterval start x k → lo' ≤ k ∧ k ≤ hi') :
    Finds start x lo hi (pos :: looks) found := by
  obtain ⟨hlooks, hfound⟩ := h
  refine ⟨?_, fun k => ?_⟩
  · rintro k (_ | ⟨_, hk⟩)
    · exact hpos
    · exact ⟨hlo.trans (hlooks k hk).1, (hlooks k hk).2.trans hhi⟩
  · rw [hfound]
    constructor
    · rintro ⟨hk, hk', hkin⟩
      exact ⟨hlo.trans hk, hk'.trans hhi, hkin⟩
    · rintro ⟨hk, hk', hkin⟩
      obtain ⟨hk₁, hk₂⟩ := hcut k hk hk' hkin
      exact ⟨hk₁, hk₂, hkin⟩

/-- **The search.**  It ends within as many looks as there are indexes, it does not leave them, and
what it finds is the interval of the value. -/
theorem search_spec (hstart : Monotone start) (hmid : InMiddle mid) (fuel : ℕ) {pos hi lo : ℕ}
    (hlo : lo ≤ pos) (hhi : pos ≤ hi) (hfuel : hi - lo < fuel) :
    ∃ looks found, search start mid x fuel pos hi lo = some (looks, found) ∧
      Finds start x lo hi looks found := by
  -- the interval that is left gets shorter, and the value is in none of those that were cut off
  induction fuel generalizing pos hi lo with
  | zero => omega
  | succ fuel ih =>
    unfold search
    by_cases hin : IsInterval start x pos
    · exact ⟨[pos], some pos, if_pos hin, finds_some hstart hlo hhi hin⟩
    · rw [if_neg hin]
      by_cases hdown : x < start pos
      · have hcut : ∀ k, IsInterval start x k → k < pos := fun k hk => hk.lt_of_lt hstart hdown
        rw [if_pos hdown]
        by_cases hend : pos = lo
        · refine ⟨[pos], none, if_pos hend, finds_none hlo hhi fun k hk _ hkin => ?_⟩
          exact absurd (hcut k hkin) (by omega)
        · obtain ⟨hl, hr⟩ := hmid (show lo ≤ pos - 1 by omega)
          obtain ⟨looks, found, hrun, hfinds⟩ := ih hl hr (by omega)
          refine ⟨pos :: looks, found, by rw [if_neg hend, hrun]; rfl, ?_⟩
          refine hfinds.widen ⟨hlo, hhi⟩ le_rfl (by omega) fun k hk _ hkin => ?_
          exact ⟨hk, Nat.le_sub_one_of_lt (hcut k hkin)⟩
      · have hup : start (pos + 1) ≤ x := by
          by_contra hlt
          exact hin ⟨not_lt.mp hdown, not_le.mp hlt⟩
        have hcut : ∀ k, IsInterval start x k → pos < k := fun k hk => hk.lt_of_le hstart hup
        rw [if_neg hdown]
        by_cases hend : pos = hi
        · refine ⟨[pos], none, if_pos hend, finds_none hlo hhi fun k _ hk hkin => ?_⟩
          exact absurd (hcut k hkin) (by omega)
        · obtain ⟨hl, hr⟩ := hmid (show pos + 1 ≤ hi by omega)
          obtain ⟨looks, found, hrun, hfinds⟩ := ih hl hr (by omega)
          refine ⟨pos :: looks, found, by rw [if_neg hend, hrun]; rfl, ?_⟩
          refine hfinds.widen ⟨hlo, hhi⟩ (by omega) le_rfl fun k _ hk hkin => ?_
          exact ⟨hcut k hkin, hk⟩

end IntervalSearch
