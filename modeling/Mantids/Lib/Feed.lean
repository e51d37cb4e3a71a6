/-
# Feeding a stream to a consumer

A consumer is offered a stretch of data and answers how much of it it took, or that it
failed.  A stream arrives cut into writes; what the consumer leaves of a write is
offered to it again, until it asks to stop.

* `feed` — the run of a consumer over a list of writes, with the calls that were made;
* `feed_induction` — the rule for such runs: when every accepted call takes between one
  and all of the items offered, a run with enough fuel ends, and a property of runs
  follows from the four ways a run can go on;
* `taken` — how much of the stream the calls of a run took.
-/
import Mathlib

namespace Feed

variable {σ α : Type*}

/-- One call: the state before it, what was offered, the writes that were still to come,
and the answer. -/
structure Call (σ α : Type*) where
  before : σ
  offered : List α
  later : List (List α)
  answer : Option ℕ

/-- How a run ended. -/
inductive Outcome where
  /-- Everything was taken. -/
  | done
  /-- The consumer failed. -/
  | failed
  /-- The consumer asked to stop. -/
  | stopped
  /-- The fuel did not suffice. -/
  | outOfFuel
deriving DecidableEq

/-- A run: its calls, the last state and how it ended. -/
structure Result (σ α : Type*) where
  calls : List (Call σ α)
  final : σ
  outcome : Outcome

/-- What is offered after `k` items of the write `w` were taken. -/
def refeed (k : ℕ) (w : List α) (ws : List (List α)) : List (List α) :=
  if k < w.length then w.drop k :: ws else ws

/-- The run of `write` over a list of writes. -/
def feed (write : σ → List α → σ × Option ℕ) (stop : σ → Bool) :
    ℕ → σ → List (List α) → Result σ α
  | _, s, [] => ⟨[], s, .done⟩
  | 0, s, _ :: _ => ⟨[], s, .outOfFuel⟩
  | fuel + 1, s, w :: ws =>
    match write s w with
    | (s', none) => ⟨[⟨s, w, ws, none⟩], s', .failed⟩
    | (s', some k) =>
      if stop s' then ⟨[⟨s, w, ws, some k⟩], s', .stopped⟩
      else
        let r := feed write stop fuel s' (refeed k w ws)
        ⟨⟨s, w, ws, some k⟩ :: r.calls, r.final, r.outcome⟩

/-- The number of items that the calls of a run took. -/
def taken (calls : List (Call σ α)) : ℕ := (calls.map (fun c => c.answer.getD 0)).sum

@[simp] theorem taken_nil : taken ([] : List (Call σ α)) = 0 := rfl

@[simp] theorem taken_cons (c : Call σ α) (calls : List (Call σ α)) :
    taken (c :: calls) = c.answer.getD 0 + taken calls := by
  simp [taken]

theorem flatten_refeed {k : ℕ} {w : List α} (hk : k ≤ w.length) (ws : List (List α)) :
    (refeed k w ws).flatten = (w :: ws).flatten.drop k := by
  unfold refeed
  rw [List.flatten_cons, List.drop_append_of_le_length hk]
  split
  · rw [List.flatten_cons]
  · rw [List.drop_eq_nil_of_le (by omega), List.nil_append]

/-- Where the calls behind one take all that it left, they take all together. -/
theorem taken_cons_of_refeed {c : Call σ α} {calls : List (Call σ α)} {k : ℕ} {w : List α}
    {ws : List (List α)} (hk : k ≤ w.length) (hc : c.answer = some k)
    (h : taken calls = (refeed k w ws).flatten.length) :
    taken (c :: calls) = (w :: ws).flatten.length := by
  rw [flatten_refeed hk, List.length_drop, List.flatten_cons, List.length_append] at h
  rw [taken_cons, hc, Option.getD_some, h, List.flatten_cons, List.length_append]
  omega

theorem ne_nil_of_mem_refeed {k : ℕ} {w : List α} {ws : List (List α)}
    (hws : ∀ v ∈ ws, v ≠ []) : ∀ v ∈ refeed k w ws, v ≠ [] := by
  intro v hv
  unfold refeed at hv
  split at hv
  · rename_i hk
    rcases List.mem_cons.mp hv with rfl | hv
    · rw [Ne, List.drop_eq_nil_iff]
      omega
    · exact hws v hv
  · exact hws v hv

variable {write : σ → List α → σ × Option ℕ} {stop : σ → Bool}

theorem feed_failed {s s' : σ} {w : List α} (h : write s w = (s', none)) (fuel : ℕ)
    (ws : List (List α)) :
    feed write stop (fuel + 1) s (w :: ws) = ⟨[⟨s, w, ws, none⟩], s', .failed⟩ := by
  simp only [feed, h]

theorem feed_stopped {s s' : σ} {w : List α} {k : ℕ} (h : write s w = (s', some k))
    (hs : stop s' = true) (fuel : ℕ) (ws : List (List α)) :
    feed write stop (fuel + 1) s (w :: ws) = ⟨[⟨s, w, ws, some k⟩], s', .stopped⟩ := by
  simp only [feed, h, hs, if_true]

theorem feed_next {s s' : σ} {w : List α} {k : ℕ} (h : write s w = (s', some k))
    (hs : stop s' = false) (fuel : ℕ) (ws : List (List α)) :
    feed write stop (fuel + 1) s (w :: ws) =
      ⟨⟨s, w, ws, some k⟩ :: (feed write stop fuel s' (refeed k w ws)).calls,
        (feed write stop fuel s' (refeed k w ws)).final,
        (feed write stop fuel s' (refeed k w ws)).outcome⟩ := by
  simp only [feed, h, hs, Bool.false_eq_true, if_false]

/-- A run that was stopped is in a state in which the consumer asked for it. -/
theorem stop_of_stopped {fuel : ℕ} {s : σ} {ws : List (List α)}
    (h : (feed write stop fuel s ws).outcome = .stopped) :
    stop (feed write stop fuel s ws).final = true := by
  induction fuel generalizing s ws with
  | zero => rcases ws with _ | ⟨w, ws⟩ <;> cases h
  | succ fuel ih =>
      rcases ws with _ | ⟨w, ws⟩
      · cases h
      · rcases hwrite : write s w with ⟨s', _ | k⟩
        · rw [feed_failed hwrite] at h
          cases h
        · rcases hstop : stop s' with _ | _
          · rw [feed_next hwrite hstop] at h ⊢
            exact ih h
          · rw [feed_stopped hwrite hstop]
            exact hstop

/-- **Induction rule.**  `Inv` holds of the states between calls, and in such a state an
accepted call that meets the condition `G` takes between one and all of the items
offered.  Then a property of runs that follows from each way a run can go on holds of
every run all of whose calls meet `G`, given as much fuel as there are items. -/
theorem feed_induction (Inv : σ → Prop) (G : σ → List α → List (List α) → Prop)
    (P : σ → List (List α) → Result σ α → Prop)
    (progress : ∀ s w ws s' k, Inv s → w ≠ [] → G s w ws → write s w = (s', some k) →
      1 ≤ k ∧ k ≤ w.length)
    (keeps : ∀ s w ws s' k, Inv s → w ≠ [] → G s w ws → write s w = (s', some k) →
      stop s' = false → Inv s')
    (done : ∀ s, Inv s → P s [] ⟨[], s, .done⟩)
    (failed : ∀ s w ws s', Inv s → w ≠ [] → G s w ws → write s w = (s', none) →
      P s (w :: ws) ⟨[⟨s, w, ws, none⟩], s', .failed⟩)
    (stopped : ∀ s w ws s' k, Inv s → w ≠ [] → G s w ws → write s w = (s', some k) →
      stop s' = true → P s (w :: ws) ⟨[⟨s, w, ws, some k⟩], s', .stopped⟩)
    (next : ∀ s w ws s' k r, Inv s → w ≠ [] → G s w ws → write s w = (s', some k) →
      stop s' = false → P s' (refeed k w ws) r →
      P s (w :: ws) ⟨⟨s, w, ws, some k⟩ :: r.calls, r.final, r.outcome⟩)
    (fuel : ℕ) (s : σ) (ws : List (List α)) (hs : Inv s) (hws : ∀ w ∈ ws, w ≠ [])
    (hfuel : ws.flatten.length ≤ fuel)
    (hG : ∀ c ∈ (feed write stop fuel s ws).calls, G c.before c.offered c.later) :
    P s ws (feed write stop fuel s ws) := by
  induction fuel generalizing s ws with
  | zero =>
      cases ws with
      | nil => exact done s hs
      | cons w ws =>
          have hw := List.length_pos_iff.mpr (hws w (List.mem_cons_self ..))
          rw [List.flatten_cons, List.length_append] at hfuel
          omega
  | succ fuel ih =>
      cases ws with
      | nil => exact done s hs
      | cons w ws =>
          have hw := hws w (List.mem_cons_self ..)
          have hws' := fun v hv => hws v (List.mem_cons_of_mem w hv)
          rcases hwr : write s w with ⟨s', k⟩
          cases k with
          | none =>
              rw [feed_failed hwr] at hG ⊢
              exact failed s w ws s' hs hw (hG _ (List.mem_cons_self ..)) hwr
          | some k =>
              cases hst : stop s' with
              | true =>
                  rw [feed_stopped hwr hst] at hG ⊢
                  exact stopped s w ws s' k hs hw (hG _ (List.mem_cons_self ..)) hwr hst
              | false =>
                  rw [feed_next hwr hst] at hG ⊢
                  have hg : G s w ws := hG _ (List.mem_cons_self ..)
                  obtain ⟨h1, hk⟩ := progress s w ws s' k hs hw hg hwr
                  refine next s w ws s' k _ hs hw hg hwr hst
                    (ih s' _ (keeps s w ws s' k hs hw hg hwr hst) (ne_nil_of_mem_refeed hws') ?_
                      (fun c hc => hG c (List.mem_cons_of_mem _ hc)))
                  rw [flatten_refeed hk, List.length_drop]
                  omega

end Feed
