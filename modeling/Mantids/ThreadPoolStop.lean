/-
# Stopping the thread pool

`ThreadPool::stop` sets `m_terminate` and then notifies `m_insertedElementCond` once.  A worker
looks at the flag only after it was woken: `popTask` waits without looking at it when all queues are
empty.

* `Stopping` — the pool, with the notifications and one call of `stop`;
* `Stranded` — a worker that waits after `stop` has returned, with no notification for it;
* `Awaited` — the condition: no worker comes to empty queues after the notification;
* `none_stranded_iff` — no worker is ever stranded exactly if it is met.
-/
import Mantids.ThreadPool

namespace Mantids

open Run

/-- Where the call of `stop` is. -/
inductive StopPc where
  | notCalled
  /-- The flag is set. -/
  | terminating
  /-- The notification was sent. -/
  | returned
deriving DecidableEq

/-- A `ThreadPool` with the waits on `m_insertedElementCond`. -/
structure Stopping (F D : Type*) where
  pool : ThreadPool F D
  /-- The workers whose wait was notified. -/
  notified : ℕ → Bool := fun _ => false
  /-- The insertions whose notification is still to be sent. -/
  inserted : ℕ := 0
  stopPc : StopPc := .notCalled

/-- A step of one of the threads. -/
inductive StopAction (F D : Type*) where
  /-- A critical section of the pool, `stop`'s among them.  A worker may wake up without a
  notification. -/
  | pool (action : PoolAction F D)
  /-- `notify_one` after an insertion; it reaches a worker that waits, if there is one. -/
  | notifyOne (worker : Option ℕ)
  /-- `notify_all` in `stop`. -/
  | notifyAll

namespace Worker

variable {F D : Type*}

def isPopping : Worker F D → Bool
  | .popping => true
  | _ => false

def isWaiting : Worker F D → Bool
  | .waiting => true
  | _ => false

end Worker

namespace Stopping

variable {F D : Type*}

/-- The pool as it is made. -/
def make (threadsCount taskQueues : ℕ) : Stopping F D :=
  { pool := ThreadPool.make threadsCount taskQueues }

/-- Does a worker wait? -/
def isWaiting (s : Stopping F D) (j : ℕ) : Bool := s.pool.workers[j]?.any Worker.isWaiting

/-- Is a worker at the beginning of `popTask`? -/
def isPopping (s : Stopping F D) (j : ℕ) : Bool := s.pool.workers[j]?.any Worker.isPopping

/-- A step.  The output is not used. -/
def step (s : Stopping F D) : StopAction F D → Option (Stopping F D × Unit)
  | .pool .stop =>
    if s.stopPc = .notCalled then
      (s.pool.step .stop).map fun r => ({ s with pool := r.1, stopPc := .terminating }, ())
    else none
  | .pool (.producer i) =>
    (s.pool.step (.producer i)).map fun r =>
      ({ s with
        pool := r.1
        inserted :=
          if r.1.producers[i]?.any (·.pc = .returned true) then s.inserted + 1 else s.inserted },
        ())
  -- A worker that goes on has used up its notification.
  | .pool (.worker j queue) =>
    (s.pool.step (.worker j queue)).map fun r =>
      ({ s with pool := r.1, notified := Function.update s.notified j false }, ())
  | .pool action => (s.pool.step action).map fun r => ({ s with pool := r.1 }, ())
  | .notifyOne worker =>
    if s.inserted = 0 then none
    else
      match worker with
      | none => some ({ s with inserted := s.inserted - 1 }, ())
      | some j =>
        if s.isWaiting j then
          some ({ s with
            inserted := s.inserted - 1
            notified := Function.update s.notified j true }, ())
        else none
  | .notifyAll =>
    if s.stopPc = .terminating then
      some ({ s with
        notified := fun j => s.notified j || s.isWaiting j
        stopPc := .returned }, ())
    else none

/-- `stop` has returned, all queues are empty, and a worker waits with no notification for it. -/
def Stranded (s : Stopping F D) (j : ℕ) : Prop :=
  s.stopPc = .returned ∧ s.pool.allEmpty = true ∧ s.isWaiting j = true ∧ s.notified j = false

/-- The condition: after the notification, a worker that begins `popTask` finds a task. -/
def Awaited (s : Stopping F D) : StopAction F D → Prop
  | .pool (.worker j _) =>
    s.stopPc = .returned → s.isPopping j = true → s.pool.allEmpty = false
  | _ => True

/-! ## What a step keeps -/

/-- After the notification, every worker that waits was notified. -/
structure Notified (s : Stopping F D) : Prop where
  terminate : s.stopPc = .notCalled ∨ s.pool.terminate = true
  waiting : s.stopPc = .returned → ∀ j, s.isWaiting j = true → s.notified j = true

theorem notified_make (threadsCount taskQueues : ℕ) :
    (make threadsCount taskQueues : Stopping F D).Notified := by
  constructor
  · exact Or.inl rfl
  · intro hreturned
    cases hreturned

theorem isWaiting_set {s s' : ThreadPool F D} {j k : ℕ} {w : Worker F D}
    (hworkers : s'.workers = s.workers.set j w) (hw : w.isWaiting = false)
    (hwait : s'.workers[k]?.any Worker.isWaiting = true) :
    k ≠ j ∧ s.workers[k]?.any Worker.isWaiting = true := by
  rw [hworkers] at hwait
  by_cases hk : j = k
  · subst hk
    rw [List.getElem?_set] at hwait
    simp only [if_true] at hwait
    split at hwait
    · simp [hw] at hwait
    · simp at hwait
  · rw [List.getElem?_set_ne hk] at hwait
    exact ⟨Ne.symm hk, hwait⟩

/-- A worker's step puts it in another place: it waits only where all queues are empty, at the
beginning of `popTask` or before the pool is stopped. -/
theorem worker_cases {s s' : ThreadPool F D} {j queue : ℕ} {o : Unit}
    (h : s.step (.worker j queue) = some (s', o)) :
    s'.terminate = s.terminate ∧ ∃ w w', s.workers[j]? = some w ∧
      s'.workers = s.workers.set j w' ∧
      (w'.isWaiting = true → s.allEmpty = true ∧
        (w.isPopping = true ∨ s.terminate = false)) := by
  cases hw : s.workers[j]? with
  | none => simp [ThreadPool.step, hw] at h
  | some w =>
      simp only [ThreadPool.step, hw, Option.map_eq_some_iff, Prod.mk.injEq] at h
      obtain ⟨s₁, hwork, rfl, -⟩ := h
      -- Taking a task does not lead to a wait.
      have hpop : ∀ s₁, s.popFrom j queue = some s₁ → s₁.terminate = s.terminate ∧
          ∃ w', s₁.workers = s.workers.set j w' ∧ w'.isWaiting = false := by
        intro s₁ hpop
        unfold ThreadPool.popFrom at hpop
        split at hpop
        · cases hpop
          refine ⟨rfl, _, rfl, ?_⟩
          split <;> rfl
        · cases hpop
      cases w with
      | popping =>
          simp only [ThreadPool.work] at hwork
          by_cases hempty : s.allEmpty = true
          · rw [if_pos hempty] at hwork
            cases hwork
            exact ⟨rfl, _, _, rfl, rfl, fun _ => ⟨hempty, Or.inl rfl⟩⟩
          · rw [if_neg hempty] at hwork
            obtain ⟨hterm, w', hworkers, hw'⟩ := hpop s₁ hwork
            exact ⟨hterm, _, w', rfl, hworkers, fun hwait => by simp [hw'] at hwait⟩
      | waiting =>
          simp only [ThreadPool.work] at hwork
          by_cases hempty : s.allEmpty = true
          · rw [if_pos hempty] at hwork
            cases hwork
            refine ⟨rfl, _, _, rfl, rfl, fun hwait => ⟨hempty, Or.inr ?_⟩⟩
            cases hterm : s.terminate with
            | true =>
                rw [hterm, if_pos rfl] at hwait
                cases hwait
            | false => rfl
          · rw [if_neg hempty] at hwork
            obtain ⟨hterm, w', hworkers, hw'⟩ := hpop s₁ hwork
            exact ⟨hterm, _, w', rfl, hworkers, fun hwait => by simp [hw'] at hwait⟩
      | executing id t =>
          simp only [ThreadPool.work] at hwork
          by_cases htask : t.task.isSome = true
          · rw [if_pos htask] at hwork
            cases hwork
            exact ⟨rfl, _, _, rfl, rfl, fun hwait => by cases hwait⟩
          · rw [if_neg htask] at hwork
            cases hwork
      | left => cases hwork

/-- The other steps of the pool leave the workers alone, and do not take the flag back. -/
theorem pool_frame {s s' : ThreadPool F D} {action : PoolAction F D} {o : Unit}
    (h : s.step action = some (s', o)) (hno : ∀ j queue, action ≠ .worker j queue) :
    s'.workers = s.workers ∧ (s.terminate = true → s'.terminate = true) := by
  have hproducer : ∀ (i : ℕ) (p : Producer F D), (s.insertOrWait i p).workers = s.workers ∧
      (s.terminate = true → (s.insertOrWait i p).terminate = true) := by
    intro i p
    unfold ThreadPool.insertOrWait
    split
    · exact ⟨rfl, id⟩
    · exact ⟨rfl, id⟩
  cases action with
  | pushTask task queue timed =>
      simp only [ThreadPool.step] at h
      split at h
      · cases h
        exact ⟨rfl, id⟩
      · cases h
  | producer i =>
      simp only [ThreadPool.step] at h
      split at h
      · cases h
      · split at h
        · split at h
          · cases h
            exact ⟨rfl, id⟩
          · cases h
            exact hproducer _ _
        · cases h
          exact hproducer _ _
        · cases h
  | timeOut i =>
      simp only [ThreadPool.step] at h
      split at h
      · cases h
      · split at h
        · cases h
          exact ⟨rfl, id⟩
        · cases h
  | worker j queue => exact absurd rfl (hno j queue)
  | stop =>
      cases h
      exact ⟨rfl, fun _ => rfl⟩
  | setMaxTasksPerQueue value =>
      cases h
      exact ⟨rfl, id⟩

/-- A step of the pool that is not a worker's. -/
theorem Notified.frame {s s' : Stopping F D} (h : s.Notified)
    (hworkers : s'.pool.workers = s.pool.workers)
    (hterminate : s.pool.terminate = true → s'.pool.terminate = true)
    (hnotified : s'.notified = s.notified) (hstop : s'.stopPc = s.stopPc) : s'.Notified := by
  constructor
  · rw [hstop]
    exact h.terminate.imp_right hterminate
  · intro hreturned j hwait
    rw [hstop] at hreturned
    rw [isWaiting, hworkers] at hwait
    rw [hnotified]
    exact h.waiting hreturned j hwait

theorem Notified.pool_step {s s' : Stopping F D} {action : PoolAction F D} {o : Unit}
    (h : s.Notified) (hstep : s.step (.pool action) = some (s', o))
    (hworker : ∀ j queue, action ≠ .worker j queue) (hstop : action ≠ .stop) : s'.Notified := by
  obtain ⟨pool, hpool, rfl, hnotified, hpc⟩ : ∃ pool, s.pool.step action = some (pool, ()) ∧
      s'.pool = pool ∧ s'.notified = s.notified ∧ s'.stopPc = s.stopPc := by
    cases action with
    | worker j queue => exact absurd rfl (hworker j queue)
    | stop => exact absurd rfl hstop
    | _ =>
        simp only [Stopping.step, Option.map_eq_some_iff, Prod.mk.injEq] at hstep
        obtain ⟨⟨pool, o'⟩, hpool, rfl, -⟩ := hstep
        exact ⟨pool, hpool, rfl, rfl, rfl⟩
  obtain ⟨hworkers, hterm⟩ := pool_frame hpool hworker
  exact h.frame hworkers hterm hnotified hpc

theorem Notified.step {s s' : Stopping F D} {a : StopAction F D} {o : Unit} (h : s.Notified)
    (hawaited : s.Awaited a) (hstep : s.step a = some (s', o)) : s'.Notified := by
  cases a with
  | pool action =>
      cases action with
      | worker j queue =>
          simp only [Stopping.step, Option.map_eq_some_iff, Prod.mk.injEq] at hstep
          obtain ⟨⟨pool, o'⟩, hpool, rfl, -⟩ := hstep
          obtain ⟨hterm, w, w', hw, hworkers, hwaits⟩ := worker_cases hpool
          constructor
          · exact h.terminate.imp_right fun hset => hterm.trans hset
          · intro hreturned k hwait
            have hset : s.pool.terminate = true := by
              refine h.terminate.resolve_left fun hnot => ?_
              rw [show s.stopPc = .returned from hreturned] at hnot
              cases hnot
            -- The worker does not wait: it would have come to empty queues.
            have hw' : w'.isWaiting = false := by
              rw [← Bool.not_eq_true]
              intro hwait'
              obtain ⟨hempty, hpopping | hclear⟩ := hwaits hwait'
              · have hpop : s.isPopping j = true := by
                  rw [isPopping, hw]
                  exact hpopping
                exact absurd hempty (by rw [hawaited hreturned hpop]; exact Bool.false_ne_true)
              · rw [hset] at hclear
                cases hclear
            obtain ⟨hne, hwait⟩ := isWaiting_set hworkers hw' hwait
            show Function.update s.notified j false k = true
            rw [Function.update_of_ne hne]
            exact h.waiting hreturned k hwait
      | stop =>
          simp only [Stopping.step] at hstep
          by_cases hcalled : s.stopPc = .notCalled
          · rw [if_pos hcalled] at hstep
            cases hstep
            exact ⟨Or.inr rfl, fun hreturned => by cases hreturned⟩
          · rw [if_neg hcalled] at hstep
            cases hstep
      | pushTask task queue timed => exact h.pool_step hstep (by simp) (by simp)
      | producer i => exact h.pool_step hstep (by simp) (by simp)
      | timeOut i => exact h.pool_step hstep (by simp) (by simp)
      | setMaxTasksPerQueue value => exact h.pool_step hstep (by simp) (by simp)
  | notifyOne worker =>
      by_cases hnone : s.inserted = 0
      · simp [Stopping.step, hnone] at hstep
      · simp only [Stopping.step, if_neg hnone] at hstep
        cases worker with
        | none =>
            cases hstep
            exact h.frame rfl id rfl rfl
        | some j =>
            by_cases hwait : s.isWaiting j = true
            · simp only [if_pos hwait] at hstep
              cases hstep
              refine ⟨h.terminate, fun hreturned k hwaits => ?_⟩
              show Function.update s.notified j true k = true
              by_cases hk : k = j
              · rw [hk, Function.update_self]
              · rw [Function.update_of_ne hk]
                exact h.waiting hreturned k hwaits
            · simp only [if_neg hwait] at hstep
              cases hstep
  | notifyAll =>
      by_cases hterminating : s.stopPc = .terminating
      · rw [Stopping.step, if_pos hterminating] at hstep
        cases hstep
        constructor
        · exact Or.inr (h.terminate.resolve_left (by rw [hterminating]; decide))
        · intro _ j hwait
          show (s.notified j || s.isWaiting j) = true
          rw [show s.isWaiting j = true from hwait, Bool.or_true]
      · rw [Stopping.step, if_neg hterminating] at hstep
        cases hstep

/-! ## Who is stranded -/

/-- A worker that comes to empty queues after the notification is stranded at once. -/
theorem stranded_of_not_awaited {s s' : Stopping F D} {a : StopAction F D} {o : Unit}
    (hno : ¬ s.Awaited a) (hstep : s.step a = some (s', o)) : ∃ j, s'.Stranded j := by
  cases a with
  | pool action =>
      cases action with
      | worker j queue =>
          simp only [Awaited, Classical.not_imp, Bool.not_eq_false] at hno
          obtain ⟨hreturned, hpopping, hempty⟩ := hno
          obtain ⟨w, hw, hpop⟩ : ∃ w, s.pool.workers[j]? = some w ∧ w.isPopping = true := by
            unfold isPopping at hpopping
            cases hw : s.pool.workers[j]? with
            | none =>
                rw [hw] at hpopping
                cases hpopping
            | some w =>
                rw [hw] at hpopping
                exact ⟨w, rfl, hpopping⟩
          obtain ⟨hlt, -⟩ := List.getElem?_eq_some_iff.mp hw
          cases w with
          | popping =>
              simp only [Stopping.step, ThreadPool.step, hw, ThreadPool.work, if_pos hempty,
                Option.map_some] at hstep
              cases hstep
              refine ⟨j, hreturned, hempty, ?_, Function.update_self j false s.notified⟩
              simp [isWaiting, ThreadPool.setWorker, hlt, Worker.isWaiting]
          | waiting => cases hpop
          | executing id t => cases hpop
          | left => cases hpop
      | _ => exact absurd trivial hno
  | notifyOne worker => exact absurd trivial hno
  | notifyAll => exact absurd trivial hno

/-- **When `stop` leaves no worker behind.**  For every number of workers and queues, in every run
of the calls of `pushTask`, the workers, their notifications and one call of `stop`: no worker is
stranded in any state exactly if no worker begins `popTask` with all queues empty after the
notification of `stop`. -/
theorem none_stranded_iff (threadsCount taskQueues : ℕ) (actions : List (StopAction F D)) :
    (∀ t ∈ transitions step (make threadsCount taskQueues) actions, ∀ j, ¬ t.after.Stranded j) ↔
      Guarded step Awaited (make threadsCount taskQueues) actions := by
  constructor
  · intro hnone t ht
    by_contra hno
    obtain ⟨j, hj⟩ := stranded_of_not_awaited hno (step_of_mem_transitions ht)
    exact hnone t ht j hj
  · intro hawaited t ht j hj
    have hnotified := (hawaited.invariant Notified
      (fun s a s' o h hG hstep => h.step hG hstep) (notified_make threadsCount taskQueues) t ht).2
    obtain ⟨hreturned, -, hwait, hclear⟩ := hj
    rw [hnotified.waiting hreturned j hwait] at hclear
    cases hclear

/-! ## A worker that is left behind -/

/-- The pool is stopped while its only worker executes a task. -/
def busyRun : List (StopAction Unit Unit) :=
  [.pool (.pushTask ⟨some (), none⟩ 0 false), .pool (.producer 0), .notifyOne none,
    .pool (.worker 0 0), .pool .stop, .notifyAll, .pool (.worker 0 0), .pool (.worker 0 0)]

/-- The worker comes back to `popTask`, finds no task, and waits for a notification that was sent
before. -/
theorem busy_worker_stranded :
    ∃ t ∈ transitions step (make 1 1) busyRun, t.after.Stranded 0 ∧ t.after.inserted = 0 := by
  have hmem := List.getElem_mem (l := transitions step (make 1 1) busyRun) (n := 7) (by decide)
  refine ⟨_, hmem, ⟨?_, ?_, ?_, ?_⟩, ?_⟩
  · rfl
  · rfl
  · rfl
  · rfl
  · rfl

end Stopping

end Mantids
