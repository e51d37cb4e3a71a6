/-
# Queries and the destruction of their connector

`SQLConnector` (`DB/sqlconnector.cpp`) keeps the set of its queries, and its destructor waits until
the set is empty.  A `Query` (`DB/query.cpp`) leaves the set in the middle of its own destructor,
and unlocks the mutex of the database at the end of it.

* `SQLConnector` — the connector with its queries;
* `step` — a step of `createQuery`, of a destructor of a query, or of the connector's;
* `Unlocked` — the condition: the connector's wait ends while no query has left the set with the
  mutex still to be unlocked;
* `connector_not_touched` — what holds in every run that meets it.

A wait may end without a notification, so notifications are not kept.
-/
import Mathlib
import Mantids.Lib.Run

namespace Mantids

open Run

/-- Where a query is. -/
inductive QueryPc where
  /-- In the set, before `setSqlConnector`. -/
  | attached
  /-- `createQuery` is done with it. -/
  | ready
  /-- In its destructor, after `detachQuery`. -/
  | detached
  | destroyed
deriving DecidableEq

/-- `Query`. -/
structure Query where
  /-- `m_pSQLConnector` is set. -/
  hasConnector : Bool := false
  /-- `m_databaseLockMutex` is set. -/
  hasLock : Bool := false
  pc : QueryPc
deriving DecidableEq

/-- Where the connector is. -/
inductive ConnectorPc where
  | alive
  /-- In the wait of its destructor. -/
  | waiting
  /-- After the wait. -/
  | gone
deriving DecidableEq

/-- `SQLConnector`, with all queries that were created. -/
structure SQLConnector where
  maxQueryLockMilliseconds : ℕ := 10000
  querySet : Finset ℕ := ∅
  finalized : Bool := false
  /-- The query that holds `m_databaseLockMutex`. -/
  databaseLock : Option ℕ := none
  queries : List Query := []
  pc : ConnectorPc := .alive

/-- A step of one of the threads. -/
inductive QueryAction where
  /-- `createQuery0` and `attachQuery`. -/
  | createQuery
  /-- `setSqlConnector` gets the mutex. -/
  | setSqlConnector (i : ℕ)
  /-- `setSqlConnector` does not get the mutex in time. -/
  | lockTimeout (i : ℕ)
  /-- The first part of `~Query`. -/
  | detach (i : ℕ)
  /-- The rest of `~Query`. -/
  | unlock (i : ℕ)
  /-- `~SQLConnector` up to its wait. -/
  | destroyConnector
  /-- The wait ends, with or without a notification. -/
  | wake
deriving DecidableEq

namespace SQLConnector

def setQuery (s : SQLConnector) (i : ℕ) (q : Query) : SQLConnector :=
  { s with queries := s.queries.set i q }

/-- The test of the wait: the destructor goes on if the set is empty. -/
def awaitEmpty (s : SQLConnector) : SQLConnector :=
  { s with pc := if s.querySet = ∅ then .gone else .waiting }

/-- A step.  The output says whether a destructor of a query has accessed the connector. -/
def step (s : SQLConnector) : QueryAction → Option (SQLConnector × Bool)
  | .createQuery =>
    if s.pc = .gone then none
    -- A query that is not attached does not get the connector.
    else if s.finalized then some ({ s with queries := s.queries ++ [{ pc := .ready }] }, false)
    else
      some ({ s with
        querySet := insert s.queries.length s.querySet
        queries := s.queries ++ [{ pc := .attached }] }, false)
  | .setSqlConnector i =>
    match s.queries[i]? with
    | none => none
    | some q =>
      if q.pc = .attached ∧ s.databaseLock = none then
        some ({ s.setQuery i { hasConnector := true, hasLock := true, pc := .ready } with
          databaseLock := some i }, false)
      else none
  | .lockTimeout i =>
    match s.queries[i]? with
    | none => none
    | some q =>
      if q.pc = .attached ∧ s.maxQueryLockMilliseconds ≠ 0 then
        some (s.setQuery i { hasConnector := true, hasLock := false, pc := .ready }, false)
      else none
  | .detach i =>
    match s.queries[i]? with
    | none => none
    | some q =>
      if q.pc = .ready then
        if q.hasConnector then
          some ({ s.setQuery i { q with pc := .detached } with querySet := s.querySet.erase i },
            true)
        else some (s.setQuery i { q with pc := .detached }, false)
      else none
  | .unlock i =>
    match s.queries[i]? with
    | none => none
    | some q =>
      if q.pc = .detached then
        if q.hasLock then
          some ({ s.setQuery i { q with pc := .destroyed } with databaseLock := none }, true)
        else some (s.setQuery i { q with pc := .destroyed }, false)
      else none
  | .destroyConnector =>
    if s.pc = .alive then some ({ s with finalized := true }.awaitEmpty, false) else none
  | .wake => if s.pc = .waiting then some (s.awaitEmpty, false) else none

/-! ## The condition -/

/-- No query has left the set with the mutex still to be unlocked. -/
def NoneUnlocking (s : SQLConnector) : Prop :=
  ∀ q ∈ s.queries, q.pc = .detached → q.hasLock = false

/-- The condition on the steps that may end the wait of `~SQLConnector`. -/
def Unlocked (s : SQLConnector) : QueryAction → Prop
  | .destroyConnector => s.querySet = ∅ → s.NoneUnlocking
  | .wake => s.querySet = ∅ → s.NoneUnlocking
  | _ => True

/-! ## What a step keeps -/

/-- The query has the connector, or is about to get it, and was not detached. -/
def IsIn (q : Query) : Prop := q.pc = .attached ∨ (q.pc = .ready ∧ q.hasConnector = true)

/-- The queries that have the connector are in its set, and after the wait nothing is left to be
done with it. -/
structure Waited (s : SQLConnector) : Prop where
  inSet : ∀ i q, s.queries[i]? = some q → IsIn q → i ∈ s.querySet
  empty : s.pc = .gone → s.querySet = ∅ ∧ s.NoneUnlocking
  lock : ∀ q ∈ s.queries, q.hasLock = true → q.hasConnector = true

/-- A step of one query. -/
theorem Waited.set {s : SQLConnector} (h : s.Waited) {i : ℕ} {q q' : Query}
    (hq : s.queries[i]? = some q) {querySet : Finset ℕ}
    (hin : IsIn q' → i ∈ querySet) (hothers : ∀ j ∈ s.querySet, j ≠ i → j ∈ querySet)
    (hgone : s.pc = .gone → querySet = ∅ ∧ (q'.pc = .detached → q'.hasLock = false))
    (hlock : q'.hasLock = true → q'.hasConnector = true) (databaseLock : Option ℕ) :
    Waited { s with querySet, databaseLock, queries := s.queries.set i q' } := by
  obtain ⟨hlt, -⟩ := List.getElem?_eq_some_iff.mp hq
  constructor
  · intro j p hp hisIn
    by_cases hj : i = j
    · subst hj
      rw [List.getElem?_set_self hlt] at hp
      cases hp
      exact hin hisIn
    · rw [List.getElem?_set_ne hj] at hp
      exact hothers j (h.inSet j p hp hisIn) (Ne.symm hj)
  · intro hpc
    refine ⟨(hgone hpc).1, fun p hp hdetached => ?_⟩
    rcases List.mem_or_eq_of_mem_set hp with hp | rfl
    · exact (h.empty hpc).2 p hp hdetached
    · exact (hgone hpc).2 hdetached
  · intro p hp
    rcases List.mem_or_eq_of_mem_set hp with hp | rfl
    · exact h.lock p hp
    · exact hlock

/-- A query that stays in the set. -/
theorem Waited.set_of_mem {s : SQLConnector} (h : s.Waited) {i : ℕ} {q q' : Query}
    (hq : s.queries[i]? = some q) (hin : i ∈ s.querySet)
    (hunlocking : q'.pc = .detached → q'.hasLock = false)
    (hlock : q'.hasLock = true → q'.hasConnector = true) (databaseLock : Option ℕ) :
    Waited { s with databaseLock, queries := s.queries.set i q' } :=
  h.set hq (fun _ => hin) (fun _ hj _ => hj) (fun hgone => ⟨(h.empty hgone).1, hunlocking⟩) hlock
    databaseLock

/-- A new query. -/
theorem Waited.append {s : SQLConnector} (h : s.Waited) (hpc : s.pc ≠ .gone) {q : Query}
    {querySet : Finset ℕ} (hin : IsIn q → s.queries.length ∈ querySet)
    (hsub : s.querySet ⊆ querySet) (hnoLock : q.hasLock = false) :
    Waited { s with querySet, queries := s.queries ++ [q] } := by
  constructor
  · intro i p hp hisIn
    rw [List.getElem?_append] at hp
    split at hp
    · exact hsub (h.inSet i p hp hisIn)
    · obtain ⟨hlt, rfl⟩ := List.getElem?_eq_some_iff.mp hp
      rw [List.length_singleton] at hlt
      have hi : i = s.queries.length := by omega
      rw [hi]
      exact hin (by simpa using hisIn)
  · exact fun hgone => absurd hgone hpc
  · intro p hp hlock
    rcases List.mem_append.mp hp with hp | hp
    · exact h.lock p hp hlock
    · rw [List.mem_singleton.mp hp, hnoLock] at hlock
      cases hlock

/-- The end of the wait, or another turn of it. -/
theorem Waited.awaitEmpty {s : SQLConnector} (h : s.Waited)
    (hcondition : s.querySet = ∅ → s.NoneUnlocking) : s.awaitEmpty.Waited := by
  constructor
  · exact h.inSet
  · intro hpc
    have hempty : s.querySet = ∅ := by
      by_contra hne
      have hwaiting : s.awaitEmpty.pc = .waiting := if_neg hne
      rw [hwaiting] at hpc
      cases hpc
    exact ⟨hempty, hcondition hempty⟩
  · exact h.lock

theorem Waited.step {s s' : SQLConnector} {a : QueryAction} {o : Bool} (h : s.Waited)
    (hunlocked : s.Unlocked a) (hstep : s.step a = some (s', o)) : s'.Waited := by
  cases a with
  | createQuery =>
      by_cases hpc : s.pc = .gone
      · simp [SQLConnector.step, hpc] at hstep
      · simp only [SQLConnector.step, if_neg hpc] at hstep
        split at hstep
        · cases hstep
          apply h.append hpc
          · rintro (hattached | ⟨-, hconnector⟩)
            · cases hattached
            · cases hconnector
          · exact Finset.Subset.refl _
          · rfl
        · cases hstep
          apply h.append hpc
          · exact fun _ => Finset.mem_insert_self _ _
          · exact Finset.subset_insert _ _
          · rfl
  | setSqlConnector i =>
      cases hq : s.queries[i]? with
      | none => simp [SQLConnector.step, hq] at hstep
      | some q =>
          simp only [SQLConnector.step, hq] at hstep
          split at hstep
          · rename_i hg
            cases hstep
            have hin := h.inSet i q hq (Or.inl hg.1)
            exact h.set_of_mem hq hin (fun hdetached => by cases hdetached) (fun _ => rfl) _
          · cases hstep
  | lockTimeout i =>
      cases hq : s.queries[i]? with
      | none => simp [SQLConnector.step, hq] at hstep
      | some q =>
          simp only [SQLConnector.step, hq] at hstep
          split at hstep
          · rename_i hg
            cases hstep
            have hin := h.inSet i q hq (Or.inl hg.1)
            exact h.set_of_mem hq hin (fun _ => rfl) (fun _ => rfl) s.databaseLock
          · cases hstep
  | detach i =>
      cases hq : s.queries[i]? with
      | none => simp [SQLConnector.step, hq] at hstep
      | some q =>
          simp only [SQLConnector.step, hq] at hstep
          split at hstep
          · rename_i hready
            have hnotIn : ¬ IsIn { q with pc := .detached } := by
              rintro (hattached | ⟨hready', -⟩)
              · cases hattached
              · cases hready'
            split at hstep
            · rename_i hconnector
              cases hstep
              -- The query was in the set, so the connector still waits.
              have hin := h.inSet i q hq (Or.inr ⟨hready, hconnector⟩)
              refine h.set hq (fun hisIn => absurd hisIn hnotIn)
                (fun j hj hne => Finset.mem_erase.mpr ⟨hne, hj⟩) (fun hgone => ?_)
                (fun _ => hconnector) s.databaseLock
              rw [(h.empty hgone).1] at hin
              exact absurd hin (Finset.notMem_empty i)
            · rename_i hnoConnector
              cases hstep
              -- Without the connector there is no mutex to unlock.
              have hlock := h.lock q (List.mem_of_getElem? hq)
              refine h.set hq (fun hisIn => absurd hisIn hnotIn) (fun j hj _ => hj)
                (fun hgone => ⟨(h.empty hgone).1, fun _ => ?_⟩) hlock s.databaseLock
              rw [← Bool.not_eq_true]
              exact fun hyes => hnoConnector (hlock hyes)
          · cases hstep
  | unlock i =>
      cases hq : s.queries[i]? with
      | none => simp [SQLConnector.step, hq] at hstep
      | some q =>
          simp only [SQLConnector.step, hq] at hstep
          split at hstep
          · have hnotIn : ¬ IsIn { q with pc := .destroyed } := by
              rintro (hattached | ⟨hready, -⟩)
              · cases hattached
              · cases hready
            have hset : ∀ databaseLock, Waited { s with
                databaseLock, queries := s.queries.set i { q with pc := .destroyed } } :=
              fun databaseLock => h.set hq (fun hisIn => absurd hisIn hnotIn) (fun j hj _ => hj)
                (fun hgone => ⟨(h.empty hgone).1, fun hdetached => by cases hdetached⟩)
                (h.lock q (List.mem_of_getElem? hq)) databaseLock
            split at hstep
            · cases hstep
              exact hset none
            · cases hstep
              exact hset s.databaseLock
          · cases hstep
  | destroyConnector =>
      simp only [SQLConnector.step] at hstep
      split at hstep
      · rename_i hpc
        cases hstep
        have hfinal : Waited { s with finalized := true } :=
          ⟨h.inSet, fun hgone => absurd (hpc.symm.trans hgone) (by decide), h.lock⟩
        exact hfinal.awaitEmpty hunlocked
      · cases hstep
  | wake =>
      simp only [SQLConnector.step] at hstep
      split at hstep
      · cases hstep
        exact h.awaitEmpty hunlocked
      · cases hstep

/-! ## The connector is not touched -/

/-- A destructor of a query that accesses the connector finds it. -/
theorem Waited.not_gone {s s' : SQLConnector} {a : QueryAction} (h : s.Waited)
    (hstep : s.step a = some (s', true)) : s.pc ≠ .gone := by
  intro hgone
  obtain ⟨hempty, hnone⟩ := h.empty hgone
  cases a with
  | detach i =>
      cases hq : s.queries[i]? with
      | none => simp [SQLConnector.step, hq] at hstep
      | some q =>
          simp only [SQLConnector.step, hq] at hstep
          split at hstep
          · rename_i hready
            split at hstep
            · rename_i hconnector
              have hin := h.inSet i q hq (Or.inr ⟨hready, hconnector⟩)
              rw [hempty] at hin
              exact absurd hin (Finset.notMem_empty i)
            · cases hstep
          · cases hstep
  | unlock i =>
      cases hq : s.queries[i]? with
      | none => simp [SQLConnector.step, hq] at hstep
      | some q =>
          simp only [SQLConnector.step, hq] at hstep
          split at hstep
          · rename_i hdetached
            have hnoLock := hnone q (List.mem_of_getElem? hq) hdetached
            rw [if_neg (by rw [hnoLock]; exact Bool.false_ne_true)] at hstep
            cases hstep
          · cases hstep
  | createQuery => simp [SQLConnector.step, hgone] at hstep
  | setSqlConnector i =>
      simp only [SQLConnector.step] at hstep
      split at hstep
      · cases hstep
      · split at hstep <;> cases hstep
  | lockTimeout i =>
      simp only [SQLConnector.step] at hstep
      split at hstep
      · cases hstep
      · split at hstep <;> cases hstep
  | destroyConnector => simp [SQLConnector.step, hgone] at hstep
  | wake => simp [SQLConnector.step, hgone] at hstep

/-- A connector without queries. -/
def connected (maxQueryLockMilliseconds : ℕ) : SQLConnector := { maxQueryLockMilliseconds }

theorem waited_connected (maxQueryLockMilliseconds : ℕ) :
    (connected maxQueryLockMilliseconds).Waited := by
  constructor
  · intro i q hq
    simp [connected] at hq
  · intro hgone
    cases hgone
  · intro q hq
    cases hq

/-- **No query touches a destroyed connector.**  In every run of any number of queries and the
destruction of their connector, in which the connector's wait ends only when no query has left the
set with the mutex still to be unlocked: a destructor of a query that accesses the connector, or its
mutex, does so before the wait has ended. -/
theorem connector_not_touched (maxQueryLockMilliseconds : ℕ) (actions : List QueryAction)
    (hunlocked : Guarded step Unlocked (connected maxQueryLockMilliseconds) actions) :
    ∀ t ∈ transitions step (connected maxQueryLockMilliseconds) actions,
      t.output = true → t.before.pc ≠ .gone := by
  intro t ht haccess
  have hwaited : t.before.Waited :=
    (hunlocked.invariant Waited (fun s a s' o h hG hstep => h.step hG hstep)
      (waited_connected maxQueryLockMilliseconds) t ht).1
  have hstep := step_of_mem_transitions ht
  rw [haccess] at hstep
  exact hwaited.not_gone hstep

/-- A query is destroyed, and then its connector. -/
def orderly : List QueryAction :=
  [.createQuery, .setSqlConnector 0, .destroyConnector, .detach 0, .unlock 0, .wake]

theorem connector_not_touched_orderly :
    ∃ t ∈ transitions step (connected 10000) orderly,
      t.input = .unlock 0 ∧ t.output = true ∧ t.before.pc ≠ .gone := by
  have hunlocked : Guarded step Unlocked (connected 10000) orderly := by
    intro t ht
    have hrun : transitions step (connected 10000) orderly = [_, _, _, _, _, _] := rfl
    rw [hrun] at ht
    simp only [List.mem_cons, List.not_mem_nil, or_false] at ht
    obtain rfl | rfl | rfl | rfl | rfl | rfl := ht
    · trivial
    · trivial
    · intro hempty
      exact absurd hempty (by decide)
    · trivial
    · trivial
    · intro _ q hq hdetached
      rw [List.mem_singleton.mp hq] at hdetached
      cases hdetached
  have hmem := List.getElem_mem (l := transitions step (connected 10000) orderly) (n := 4)
    (by decide)
  exact ⟨_, hmem, rfl, rfl, connector_not_touched 10000 orderly hunlocked _ hmem rfl⟩

/-! ## A query that unlocks too late -/

/-- The connector's wait ends between the two parts of a query's destructor. -/
def overtaken : List QueryAction :=
  [.createQuery, .setSqlConnector 0, .destroyConnector, .detach 0, .wake, .unlock 0]

/-- The query unlocks the mutex of a connector that is gone. -/
theorem destroyed_mutex_unlocked :
    ∃ t ∈ transitions step (connected 10000) overtaken,
      t.input = .unlock 0 ∧ t.output = true ∧ t.before.pc = .gone := by
  have hmem := List.getElem_mem (l := transitions step (connected 10000) overtaken) (n := 5)
    (by decide)
  exact ⟨_, hmem, rfl, rfl, rfl⟩

end SQLConnector

end Mantids
