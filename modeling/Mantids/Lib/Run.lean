/-
# Runs of a step function

A machine is a step function `step : σ → ι → Option (σ × ο)`: in a state it is
given an input and either refuses it (`none`, the run ends there) or moves on with
an output.  A run over a list of inputs is the list of its transitions.

* `transitions` — the transitions of a run, in order;
* `Guarded` — every input of the run meets a condition on the state it arrives in;
* `Guarded.invariant` — the invariant rule: what every guarded step keeps holds
  before and after every transition of a guarded run;
* `guarded_iff` — the same, where the condition says exactly which steps have a property;
* `Guarded.length_transitions` — the progress rule: a guarded run that refuses nothing is complete;
* `Guarded.outputs_eq` — the simulation rule: two machines with the same outputs in every guarded
  step have the same outputs in a guarded run;
* `invariant_past` — the invariant rule where the invariant also speaks of the past;
* `stays_unless` — what holds after a transition holds until a later one ends it;
* `reach` — the state at the end of a run that takes all of its inputs, with `reach_append` and the
  invariant rule `reach_invariant`.
-/
import Mathlib.Data.List.Chain
import Mathlib.Tactic.Common

namespace Run

variable {σ ι ο : Type*}

/-- One step of a run. -/
structure Transition (σ ι ο : Type*) where
  before : σ
  input : ι
  output : ο
  after : σ

/-- The transitions of the run of `step` from a state over a list of inputs. -/
def transitions (step : σ → ι → Option (σ × ο)) : σ → List ι → List (Transition σ ι ο)
  | _, [] => []
  | s, i :: is =>
    match step s i with
    | none => []
    | some (s', o) => ⟨s, i, o, s'⟩ :: transitions step s' is

/-- The condition `G` holds of every input of the run in the state it arrives in. -/
def Guarded (step : σ → ι → Option (σ × ο)) (G : σ → ι → Prop) (s : σ) (is : List ι) : Prop :=
  ∀ t ∈ transitions step s is, G t.before t.input

variable {step : σ → ι → Option (σ × ο)} {G : σ → ι → Prop}

theorem transitions_cons_some {s s' : σ} {i : ι} {o : ο} {is : List ι}
    (h : step s i = some (s', o)) :
    transitions step s (i :: is) = ⟨s, i, o, s'⟩ :: transitions step s' is := by
  simp only [transitions, h]

theorem transitions_cons_none {s : σ} {i : ι} {is : List ι} (h : step s i = none) :
    transitions step s (i :: is) = [] := by
  simp only [transitions, h]

theorem mem_transitions_head {s s' : σ} {i : ι} {o : ο} {is : List ι}
    (h : step s i = some (s', o)) : ⟨s, i, o, s'⟩ ∈ transitions step s (i :: is) := by
  rw [transitions_cons_some h]
  exact List.mem_cons_self

theorem guarded_nil (s : σ) : Guarded step G s [] := by
  intro t ht
  cases ht

theorem Guarded.cons {s s' : σ} {i : ι} {o : ο} {is : List ι} (h : step s i = some (s', o))
    (hi : G s i) (his : Guarded step G s' is) : Guarded step G s (i :: is) := by
  intro t ht
  rw [transitions_cons_some h] at ht
  rcases List.mem_cons.mp ht with rfl | ht
  · exact hi
  · exact his t ht

/-- Each transition of a run is a step of the machine. -/
theorem step_of_mem_transitions {s : σ} {is : List ι} {t : Transition σ ι ο}
    (h : t ∈ transitions step s is) : step t.before t.input = some (t.after, t.output) := by
  induction is generalizing s with
  | nil => simp [transitions] at h
  | cons i is ih =>
      cases hs : step s i with
      | none =>
          rw [transitions_cons_none hs] at h
          simp at h
      | some r =>
          obtain ⟨s', o⟩ := r
          rw [transitions_cons_some hs] at h
          rcases List.mem_cons.mp h with rfl | h
          · exact hs
          · exact ih h

/-- **Invariant rule.**  An invariant that every guarded step keeps holds before and
after each transition of a guarded run. -/
theorem Guarded.invariant (Inv : σ → Prop) {s : σ} {is : List ι}
    (hstep : ∀ s i s' o, Inv s → G s i → step s i = some (s', o) → Inv s')
    (hinit : Inv s) (hg : Guarded step G s is) :
    ∀ t ∈ transitions step s is, Inv t.before ∧ Inv t.after := by
  induction is generalizing s with
  | nil =>
      intro t ht
      simp [transitions] at ht
  | cons i is ih =>
      intro t ht
      cases hs : step s i with
      | none =>
          rw [transitions_cons_none hs] at ht
          simp at ht
      | some r =>
          obtain ⟨s', o⟩ := r
          rw [Guarded, transitions_cons_some hs] at hg
          rw [transitions_cons_some hs] at ht
          have hinv : Inv s' :=
            hstep s i s' o hinit (hg ⟨s, i, o, s'⟩ (List.mem_cons_self ..)) hs
          rcases List.mem_cons.mp ht with rfl | ht
          · exact ⟨hinit, hinv⟩
          · exact ih hinv (fun t ht => hg t (List.mem_cons_of_mem _ ht)) t ht

/-- **Exact rule.**  If the condition says which steps have a property, and keeps what this rests
on, then every transition of a run has the property exactly if every step meets the condition. -/
theorem guarded_iff (Inv : σ → Prop) (P : Transition σ ι ο → Prop) {s : σ} {is : List ι}
    (hexact : ∀ s i s' o, Inv s → step s i = some (s', o) → (P ⟨s, i, o, s'⟩ ↔ G s i))
    (hkeep : ∀ s i s' o, Inv s → G s i → step s i = some (s', o) → Inv s') (hinit : Inv s) :
    (∀ t ∈ transitions step s is, P t) ↔ Guarded step G s is := by
  constructor
  · intro hall
    induction is generalizing s with
    | nil => exact guarded_nil s
    | cons i is ih =>
        cases hs : step s i with
        | none =>
            intro t ht
            rw [transitions_cons_none hs] at ht
            cases ht
        | some r =>
            obtain ⟨s', o⟩ := r
            rw [transitions_cons_some hs, List.forall_mem_cons] at hall
            obtain ⟨hnext, hrest⟩ := hall
            have hi := (hexact s i s' o hinit hs).mp hnext
            exact Guarded.cons hs hi (ih (hkeep s i s' o hinit hi hs) hrest)
  · intro hg t ht
    have hbefore := (hg.invariant Inv hkeep hinit t ht).1
    exact (hexact _ _ _ _ hbefore (step_of_mem_transitions ht)).mpr (hg t ht)

/-- **Exact invariant rule.**  If the condition says when a step keeps the invariant, every state of
a run meets the invariant exactly if every step meets the condition. -/
theorem guarded_iff_invariant (Inv : σ → Prop) {s : σ} {is : List ι}
    (hstep : ∀ s i s' o, Inv s → step s i = some (s', o) → (Inv s' ↔ G s i)) (hinit : Inv s) :
    (∀ t ∈ transitions step s is, Inv t.after) ↔ Guarded step G s is :=
  guarded_iff Inv (fun t => Inv t.after) hstep
    (fun s i s' o hs hi h => (hstep s i s' o hs h).mpr hi) hinit

/-- **Progress rule.**  Where the invariant of a guarded run excludes that the machine refuses an
input, the run takes all of its inputs. -/
theorem Guarded.length_transitions (Inv : σ → Prop) {s : σ} {is : List ι}
    (hstep : ∀ s i s' o, Inv s → G s i → step s i = some (s', o) → Inv s')
    (hsome : ∀ s i, Inv s → step s i ≠ none) (hinit : Inv s) (hg : Guarded step G s is) :
    (transitions step s is).length = is.length := by
  induction is generalizing s with
  | nil => rfl
  | cons i is ih =>
      obtain ⟨⟨s', o⟩, hs⟩ := Option.ne_none_iff_exists'.mp (hsome s i hinit)
      rw [Guarded, transitions_cons_some hs, List.forall_mem_cons] at hg
      rw [transitions_cons_some hs, List.length_cons, List.length_cons,
        ih (hstep s i s' o hinit hg.1 hs) hg.2]

/-- **Simulation rule.**  A machine that answers every guarded step as another one does, and stays
related to it, gives the same outputs over a guarded run. -/
theorem Guarded.outputs_eq {τ : Type*} {step' : τ → ι → Option (τ × ο)} (R : σ → τ → Prop)
    (hnone : ∀ s t i, R s t → step s i = none → step' t i = none)
    (hstep : ∀ s t i s' o, R s t → G s i → step s i = some (s', o) →
      ∃ t', step' t i = some (t', o) ∧ R s' t')
    {s : σ} {t : τ} {is : List ι} (hinit : R s t) (hg : Guarded step G s is) :
    (transitions step s is).map (·.output) = (transitions step' t is).map (·.output) := by
  induction is generalizing s t with
  | nil => rfl
  | cons i is ih =>
      cases hs : step s i with
      | none => rw [transitions_cons_none hs, transitions_cons_none (hnone s t i hinit hs)]; rfl
      | some r =>
          obtain ⟨s', o⟩ := r
          rw [Guarded, transitions_cons_some hs] at hg
          obtain ⟨t', ht, hnext⟩ := hstep s t i s' o hinit (hg _ List.mem_cons_self) hs
          rw [transitions_cons_some hs, transitions_cons_some ht, List.map_cons, List.map_cons,
            ih hnext (fun u hu => hg u (List.mem_cons_of_mem _ hu))]

/-- **Invariant rule with the past.**  An invariant of the past and the state that every step
keeps holds before and after each transition of a run. -/
theorem invariant_past (Inv : List (Transition σ ι ο) → σ → Prop) {s : σ} {is : List ι}
    (hstep : ∀ past s i s' o, Inv past s → step s i = some (s', o) →
      Inv (past ++ [⟨s, i, o, s'⟩]) s')
    (past : List (Transition σ ι ο)) (hinit : Inv past s) {pre post : List (Transition σ ι ο)}
    {t : Transition σ ι ο} (hrun : transitions step s is = pre ++ t :: post) :
    Inv (past ++ pre) t.before ∧ Inv (past ++ pre ++ [t]) t.after := by
  induction is generalizing s past pre with
  | nil => simp [transitions] at hrun
  | cons i is ih =>
      cases hs : step s i with
      | none =>
          rw [transitions_cons_none hs] at hrun
          simp at hrun
      | some r =>
          obtain ⟨s', o⟩ := r
          rw [transitions_cons_some hs] at hrun
          have hnext := hstep past s i s' o hinit hs
          cases pre with
          | nil =>
              obtain ⟨rfl, -⟩ := List.cons.inj hrun
              rw [List.append_nil]
              exact ⟨hinit, hnext⟩
          | cons u pre =>
              obtain ⟨rfl, hrest⟩ := List.cons.inj hrun
              have hrec := ih (past ++ [⟨s, i, o, s'⟩]) hnext hrest
              rwa [List.append_assoc past, List.singleton_append] at hrec

/-- A run goes on in the state that the transition before left. -/
theorem isChain_transitions (step : σ → ι → Option (σ × ο)) (s : σ) (is : List ι) :
    (transitions step s is).IsChain (fun t u => u.before = t.after) := by
  induction is generalizing s with
  | nil => exact List.IsChain.nil
  | cons i is ih =>
      cases hs : step s i with
      | none =>
          rw [transitions_cons_none hs]
          exact List.IsChain.nil
      | some r =>
          obtain ⟨s', o⟩ := r
          rw [transitions_cons_some hs]
          refine List.isChain_cons.mpr ⟨fun u hu => ?_, ih s'⟩
          cases is with
          | nil => simp [transitions] at hu
          | cons j js =>
              cases hs' : step s' j with
              | none => simp [transitions_cons_none hs'] at hu
              | some r' =>
                  obtain ⟨s'', o'⟩ := r'
                  rw [transitions_cons_some hs', List.head?_cons, Option.mem_some_iff] at hu
                  rw [← hu]

/-- A stretch of a run is part of it. -/
theorem mem_of_stretch {τ : Type*} {run pre mid post : List τ} {t : τ}
    (hrun : run = pre ++ t :: (mid ++ post)) : ∀ u ∈ t :: mid, u ∈ run := by
  intro u hu
  rw [hrun, ← List.cons_append]
  exact List.mem_append_right _ (List.mem_append_left _ hu)

/-- **Unless rule.**  What holds after a transition still holds after later ones, as long as
each of them keeps it. -/
theorem stays_unless {s : σ} {is : List ι} {pre mid post : List (Transition σ ι ο)}
    {t : Transition σ ι ο} (hrun : transitions step s is = pre ++ t :: (mid ++ post))
    (Q : σ → Prop) (ht : Q t.after) (hmid : ∀ u ∈ mid, Q u.before → Q u.after) :
    Q ((t :: mid).getLast (List.cons_ne_nil t mid)).after := by
  have hchain : (t :: mid).IsChain (fun t u => u.before = t.after) := by
    have hall := isChain_transitions step s is
    rw [hrun] at hall
    exact hall.infix ⟨pre, post, by simp⟩
  clear hrun
  induction mid generalizing t with
  | nil => exact ht
  | cons u mid ih =>
      rw [List.getLast_cons (List.cons_ne_nil u mid)]
      obtain ⟨hnext, hrest⟩ := List.isChain_cons_cons.mp hchain
      have hu : Q u.after := hmid u List.mem_cons_self (by rw [hnext]; exact ht)
      exact ih hu (fun v hv => hmid v (List.mem_cons_of_mem _ hv)) hrest

/-! ## The state at the end -/

/-- The state at the end of a run that takes all of its inputs. -/
def reach (step : σ → ι → Option (σ × ο)) : σ → List ι → Option σ
  | s, [] => some s
  | s, i :: is => (step s i).bind fun r => reach step r.1 is

theorem reach_cons_some {s s' : σ} {i : ι} {o : ο} (h : step s i = some (s', o)) (is : List ι) :
    reach step s (i :: is) = reach step s' is := by
  rw [reach, h]
  rfl

/-- A run goes on where the first part of it has come to. -/
theorem reach_append {s s' : σ} {is : List ι} (h : reach step s is = some s') (js : List ι) :
    reach step s (is ++ js) = reach step s' js := by
  induction is generalizing s with
  | nil =>
      obtain rfl := Option.some.inj h
      rfl
  | cons i is ih =>
      obtain ⟨⟨t, o⟩, ht, hrest⟩ := Option.bind_eq_some_iff.mp h
      rw [List.cons_append, reach_cons_some ht]
      exact ih hrest

/-- The step behind a run is a transition of the run with it. -/
theorem mem_transitions_of_reach {s s' s'' : σ} {is : List ι} {i : ι} {o : ο}
    (h : reach step s is = some s') (hs : step s' i = some (s'', o)) :
    ⟨s', i, o, s''⟩ ∈ transitions step s (is ++ [i]) := by
  induction is generalizing s with
  | nil =>
      obtain rfl := Option.some.inj h
      exact mem_transitions_head hs
  | cons j js ih =>
      obtain ⟨⟨t, p⟩, ht, hrest⟩ := Option.bind_eq_some_iff.mp h
      rw [List.cons_append, transitions_cons_some ht]
      exact List.mem_cons_of_mem _ (ih hrest)

/-- **Invariant rule for the end.**  An invariant that every step keeps holds at the end. -/
theorem reach_invariant (Inv : σ → Prop) {s s' : σ} {is : List ι}
    (hstep : ∀ s, ∀ i ∈ is, ∀ s' o, Inv s → step s i = some (s', o) → Inv s') (hinit : Inv s)
    (h : reach step s is = some s') : Inv s' := by
  induction is generalizing s with
  | nil =>
      obtain rfl := Option.some.inj h
      exact hinit
  | cons i is ih =>
      obtain ⟨⟨t, o⟩, ht, hrest⟩ := Option.bind_eq_some_iff.mp h
      exact ih (fun s j hj => hstep s j (List.mem_cons_of_mem i hj))
        (hstep s i List.mem_cons_self t o hinit ht) hrest

/-- The same for a guarded run. -/
theorem Guarded.reach_invariant (Inv : σ → Prop) {s s' : σ} {is : List ι}
    (hstep : ∀ s i s' o, Inv s → G s i → step s i = some (s', o) → Inv s') (hinit : Inv s)
    (hg : Guarded step G s is) (h : reach step s is = some s') : Inv s' := by
  induction is generalizing s with
  | nil =>
      obtain rfl := Option.some.inj h
      exact hinit
  | cons i is ih =>
      obtain ⟨⟨t, o⟩, ht, hrest⟩ := Option.bind_eq_some_iff.mp h
      rw [Guarded, transitions_cons_some ht] at hg
      have hi : G s i := hg ⟨s, i, o, t⟩ List.mem_cons_self
      exact ih (hstep s i t o hinit hi ht) (fun u hu => hg u (List.mem_cons_of_mem _ hu)) hrest

end Run
