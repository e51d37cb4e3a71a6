/-
# Loops that may go on for ever

A turn of a loop goes on in a new state or leaves with a result.  A turn may itself run a loop, so
that it is given a bound on the turns too, and may not have come back within it (`none`).

* `run` — the loop, for a bounded number of turns;
* `Grows` — a turn that has come back does so within every larger bound;
* `run_mono` — and then so does the loop;
* `Goes`, `Leaves` — what a turn does in the end;
* `returns_of_goes_iff` — a loop returns what it returns after its first turn;
* `returns_iff` — the loop returns a result exactly if its turns go on to a state they leave with
  it;
* `returns_of_decreases` — a loop whose turns make a measure smaller returns;
* `Stays.not_returns` — a loop whose turns stay in an invariant does not return.
-/
import Mathlib.Logic.Relation
import Mathlib.Tactic.Common

namespace Loop

open Relation

variable {σ ρ : Type*}

/-- The loop, for a bounded number of turns. -/
def run (turn : ℕ → σ → Option (σ ⊕ ρ)) : ℕ → σ → Option ρ
  | 0, _ => none
  | fuel + 1, s =>
    match turn fuel s with
    | none => none
    | some (.inl s) => run turn fuel s
    | some (.inr r) => some r

/-- A turn that has come back does so within every larger bound. -/
def Grows {τ : Type*} (f : ℕ → σ → Option τ) : Prop :=
  ∀ ⦃fuel fuel' : ℕ⦄ ⦃s : σ⦄ ⦃t : τ⦄, fuel ≤ fuel' → f fuel s = some t → f fuel' s = some t

/-- What the turn does in a state within some bound. -/
def Goes (turn : ℕ → σ → Option (σ ⊕ ρ)) (s t : σ) : Prop := ∃ fuel, turn fuel s = some (.inl t)

def Leaves (turn : ℕ → σ → Option (σ ⊕ ρ)) (s : σ) (r : ρ) : Prop :=
  ∃ fuel, turn fuel s = some (.inr r)

variable {turn : ℕ → σ → Option (σ ⊕ ρ)} {s : σ} {r : ρ} {fuel : ℕ}

theorem run_succ_of_goes {t : σ} (h : turn fuel s = some (.inl t)) :
    run turn (fuel + 1) s = run turn fuel t := by
  rw [run, h]

theorem run_succ_of_leaves (h : turn fuel s = some (.inr r)) :
    run turn (fuel + 1) s = some r := by
  rw [run, h]

/-- The first turn of a loop that returns. -/
theorem run_succ_cases (h : run turn (fuel + 1) s = some r) :
    turn fuel s = some (.inr r) ∨ ∃ t, turn fuel s = some (.inl t) ∧ run turn fuel t = some r := by
  rw [run] at h
  rcases hturn : turn fuel s with _ | t | r'
  · rw [hturn] at h
    cases h
  · rw [hturn] at h
    exact Or.inr ⟨t, rfl, h⟩
  · rw [hturn] at h
    rw [Option.some.inj h]
    exact Or.inl rfl

/-- A turn that runs no loop of its own grows. -/
theorem grows_const {τ : Type*} (f : σ → Option τ) : Grows fun _ => f :=
  fun _ _ _ _ _ h => h

/-- More turns do not change what a loop returns. -/
theorem run_mono (hturn : Grows turn) : Grows (run turn) := by
  intro fuel fuel' s r hle h
  induction fuel generalizing s fuel' with
  | zero => cases h
  | succ fuel ih =>
    obtain ⟨fuel', rfl⟩ : ∃ k, fuel' = k + 1 := ⟨fuel' - 1, by omega⟩
    have hle' : fuel ≤ fuel' := Nat.succ_le_succ_iff.mp hle
    rcases run_succ_cases h with hleaves | ⟨t, hgoes, hrest⟩
    · exact run_succ_of_leaves (hturn hle' hleaves)
    · rw [run_succ_of_goes (hturn hle' hgoes)]
      exact ih hle' hrest

/-- A loop returns what it returns from the state its first turn goes on in. -/
theorem returns_of_goes_iff (hturn : Grows turn) {t : σ} (h : Goes turn s t) :
    (∃ fuel, run turn fuel s = some r) ↔ ∃ fuel, run turn fuel t = some r := by
  obtain ⟨k, hk⟩ := h
  constructor
  · rintro ⟨fuel, hrun⟩
    refine ⟨max k fuel, ?_⟩
    rw [← run_succ_of_goes (hturn (Nat.le_max_left k fuel) hk)]
    exact run_mono hturn (by omega) hrun
  · rintro ⟨fuel, hrun⟩
    -- a bound that is enough for the turn and for what is left
    refine ⟨max k fuel + 1, ?_⟩
    rw [run_succ_of_goes (hturn (Nat.le_max_left k fuel) hk)]
    exact run_mono hturn (Nat.le_max_right k fuel) hrun

/-- **When a loop returns.**  Its turns go on to a state that they leave with the result. -/
theorem returns_iff (hturn : Grows turn) :
    (∃ fuel, run turn fuel s = some r) ↔ ∃ t, ReflTransGen (Goes turn) s t ∧ Leaves turn t r := by
  constructor
  · rintro ⟨fuel, h⟩
    induction fuel generalizing s with
    | zero => cases h
    | succ fuel ih =>
      rcases run_succ_cases h with hleaves | ⟨t, hgoes, hrest⟩
      · exact ⟨s, .refl, fuel, hleaves⟩
      · obtain ⟨t', hg, hl⟩ := ih hrest
        exact ⟨t', .head ⟨fuel, hgoes⟩ hg, hl⟩
  · rintro ⟨t, hg, fuel, hleaves⟩
    induction hg using ReflTransGen.head_induction_on with
    | refl => exact ⟨fuel + 1, run_succ_of_leaves hleaves⟩
    | head hgoes _ ih => exact (returns_of_goes_iff hturn hgoes).mpr ih

/-- A loop returns if its turns come back, keep an invariant and make a measure smaller. -/
theorem returns_of_decreases {I : σ → Prop} (μ : σ → ℕ)
    (hturn : ∀ s, I s → ∀ fuel, (∃ r, turn fuel s = some (.inr r)) ∨
      ∃ t, turn fuel s = some (.inl t) ∧ I t ∧ μ t < μ s)
    (hs : I s) : ∃ fuel r, run turn fuel s = some r := by
  have hbound : ∀ n s, I s → μ s < n → ∃ r, run turn n s = some r := by
    intro n
    induction n with
    | zero => exact fun s _ h => absurd h (Nat.not_lt_zero _)
    | succ n ih =>
      intro s hs hlt
      rcases hturn s hs n with ⟨r, hleaves⟩ | ⟨t, hgoes, ht, hless⟩
      · exact ⟨r, run_succ_of_leaves hleaves⟩
      · rw [run_succ_of_goes hgoes]
        exact ih t ht (by omega)
  exact ⟨μ s + 1, hbound _ s hs (Nat.lt_succ_self _)⟩

/-- Every turn goes on in `I`, as far as it comes back. -/
def Stays (turn : ℕ → σ → Option (σ ⊕ ρ)) (I : σ → Prop) : Prop :=
  ∀ ⦃s : σ⦄, I s → ∀ fuel, turn fuel s = none ∨ ∃ t, turn fuel s = some (.inl t) ∧ I t

/-- A loop whose turns stay in an invariant does not return. -/
theorem Stays.not_returns {I : σ → Prop} (hI : Stays turn I) (hs : I s) (fuel : ℕ) :
    run turn fuel s = none := by
  induction fuel generalizing s with
  | zero => rfl
  | succ fuel ih =>
    rcases hI hs fuel with hnone | ⟨t, hgoes, ht⟩
    · rw [run, hnone]
    · rw [run_succ_of_goes hgoes]
      exact ih ht

end Loop
