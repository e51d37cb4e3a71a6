/-
# The limit of the queues

`ThreadPool::pushTask` waits while its queue holds more than `m_maxTasksPerQueue` tasks, and gives
up when a timed wait runs out.

* `QueueAction` — the steps of producers and workers, under a limit that stays what it is;
* `RespectsLimit` — no queue is over the limit, and who gives up has found the queue at the limit;
* `FindsRoom` — the condition: a call that puts its task in the queue does not find it at the limit;
* `limit_respected_iff` — along a run the first holds exactly if the second does.

The test for room lets a call pass whose queue holds exactly `m_maxTasksPerQueue` tasks, so that a
queue can hold one more.
-/
import Mantids.ThreadPool

namespace Mantids

open Run

/-- A step of a producer or of a worker. -/
inductive QueueAction (F D : Type*) where
  | pushTask (task : PoolTask F D) (queue : ℕ) (timed : Bool)
  | producer (i : ℕ)
  | timeOut (i : ℕ)
  | worker (j queue : ℕ)

namespace ThreadPool

variable {F D : Type*}

/-- The step of the pool. -/
def poolAction : QueueAction F D → PoolAction F D
  | .pushTask task queue timed => .pushTask task queue timed
  | .producer i => .producer i
  | .timeOut i => .timeOut i
  | .worker j queue => .worker j queue

def queueStep (s : ThreadPool F D) (a : QueueAction F D) : Option (ThreadPool F D × Unit) :=
  s.step (poolAction a)

/-- The pool as it is made, with another limit. -/
def makeWithLimit (threadsCount taskQueues maxTasksPerQueue : ℕ) : ThreadPool F D :=
  { make threadsCount taskQueues with maxTasksPerQueue := maxTasksPerQueue }

/-- The number of tasks in the queue of a call. -/
def queueLength (s : ThreadPool F D) (p : Producer F D) : ℕ :=
  (s.queues.getD p.currentQueue []).length

/-- No queue is over the limit after the step, and a timed call that gives up in it has found its
queue at the limit. -/
structure RespectsLimit (max : ℕ) (t : Transition (ThreadPool F D) (QueueAction F D) Unit) :
    Prop where
  bounded : ∀ q ∈ t.after.queues, q.length ≤ max
  gaveUp : ∀ i p, t.before.producers[i]? = some p → p.timed = true → p.pc ≠ .returned false →
    t.after.Returned i false → max ≤ t.before.queueLength p

/-- The condition: a call that puts its task in the queue does not find the queue at the limit. -/
def FindsRoom (s : ThreadPool F D) : QueueAction F D → Prop
  | .producer i => ∀ p ∈ s.producers[i]?, s.Inserts p → s.queueLength p ≠ s.maxTasksPerQueue
  | _ => True

/-- Within the limit nobody has to wait. -/
structure WithinLimit (max : ℕ) (s : ThreadPool F D) : Prop where
  limit : s.maxTasksPerQueue = max
  terminate : s.terminate = false
  bounded : ∀ q ∈ s.queues, q.length ≤ max
  queue : ∀ p ∈ s.producers, p.currentQueue < s.queues.length
  moving : ∀ p ∈ s.producers, p.pc = .called ∨ p.pc = .returned true

/-! ## What a step does within the limit -/

theorem withinLimit_make (threadsCount taskQueues max : ℕ) :
    WithinLimit max (makeWithLimit threadsCount taskQueues max : ThreadPool F D) := by
  refine ⟨rfl, rfl, fun q hq => ?_, fun p hp => ?_, fun p hp => ?_⟩
  · rw [List.eq_of_mem_replicate hq]
    exact Nat.zero_le _
  · exact absurd hp List.not_mem_nil
  · exact absurd hp List.not_mem_nil

variable {max : ℕ} {s s' : ThreadPool F D}

theorem WithinLimit.queueLength_le (h : s.WithinLimit max) {p : Producer F D}
    (hp : p ∈ s.producers) : s.queueLength p ≤ max := by
  rw [queueLength, getD_currentQueue (h.queue p hp)]
  exact h.bounded _ (List.getElem_mem _)

/-- The test for room never fails. -/
theorem WithinLimit.not_isFull (h : s.WithinLimit max) {p : Producer F D} (hp : p ∈ s.producers) :
    s.isFull p = false := by
  have hle := h.queueLength_le hp
  rw [isFull, h.limit]
  exact decide_eq_false (Nat.not_lt.mpr hle)

/-- A call that has not given up did not give up in a step that leaves nobody waiting. -/
theorem WithinLimit.not_returned (h : s.WithinLimit max) (i : ℕ) : ¬ s.Returned i false := by
  rintro ⟨p, hp, hpc⟩
  rcases h.moving p (List.mem_of_getElem? hp) with hcalled | hreturned
  · rw [hcalled] at hpc
    cases hpc
  · rw [hreturned] at hpc
    cases hpc

/-- The pool after a call has put its task in the queue. -/
def inserted (s : ThreadPool F D) (i : ℕ) (p : Producer F D) : ThreadPool F D :=
  { s.setProducer i p (.returned true) with
    queues := s.queues.set p.currentQueue
      (s.queues.getD p.currentQueue [] ++ [(i, p.task)]) }

/-- An insertion stays within the limit exactly if it does not find the queue at the limit. -/
theorem WithinLimit.inserted_iff (h : s.WithinLimit max) {i : ℕ} {p : Producer F D}
    (hp : s.producers[i]? = some p) :
    (∀ q ∈ (s.inserted i p).queues, q.length ≤ max) ↔ s.queueLength p ≠ max := by
  have hmem := List.mem_of_getElem? hp
  have hle := h.queueLength_le hmem
  have hlt := h.queue p hmem
  have hlength : (s.queues.getD p.currentQueue [] ++ [(i, p.task)]).length =
      s.queueLength p + 1 := by
    simp [queueLength]
  constructor
  · intro hall
    have hnew := hall _ (List.mem_set hlt (s.queues.getD p.currentQueue [] ++ [(i, p.task)]))
    omega
  · intro hne q hq
    rcases List.mem_or_eq_of_mem_set hq with hq | rfl
    · exact h.bounded q hq
    · omega

theorem WithinLimit.inserted (h : s.WithinLimit max) {i : ℕ} {p : Producer F D}
    (hp : s.producers[i]? = some p) (hne : s.queueLength p ≠ max) :
    (s.inserted i p).WithinLimit max := by
  refine ⟨h.limit, h.terminate, (h.inserted_iff hp).mpr hne, fun p' hp' => ?_, fun p' hp' => ?_⟩
  · show p'.currentQueue < (s.queues.set _ _).length
    rw [List.length_set]
    rcases List.mem_or_eq_of_mem_set hp' with hp' | rfl
    · exact h.queue p' hp'
    · exact h.queue p (List.mem_of_getElem? hp)
  · rcases List.mem_or_eq_of_mem_set hp' with hp' | rfl
    · exact h.moving p' hp'
    · exact Or.inr rfl

/-- The workers do not count for the limit. -/
theorem WithinLimit.setWorker (h : s.WithinLimit max) (j : ℕ) (w : Worker F D) :
    (s.setWorker j w).WithinLimit max :=
  ⟨h.limit, h.terminate, h.bounded, h.queue, h.moving⟩

/-- A queue from which a task is taken gets shorter. -/
theorem WithinLimit.popFrom (h : s.WithinLimit max) {j queue : ℕ}
    (hpop : s.popFrom j queue = some s') : s'.WithinLimit max := by
  unfold ThreadPool.popFrom at hpop
  split at hpop
  · rename_i item rest hqueue
    obtain ⟨hq, hhead⟩ := List.getElem?_eq_some_iff.mp hqueue
    obtain rfl := Option.some.inj hpop
    apply WithinLimit.setWorker
    refine ⟨h.limit, h.terminate, fun q hmem => ?_, fun p hp => ?_, h.moving⟩
    · rcases List.mem_or_eq_of_mem_set hmem with hmem | rfl
      · exact h.bounded q hmem
      · have hold := h.bounded _ (List.getElem_mem hq)
        rw [hhead, List.length_cons] at hold
        omega
    · show p.currentQueue < (s.queues.set queue rest).length
      rw [List.length_set]
      exact h.queue p hp
  · cases hpop

/-- A worker takes tasks out of the queues, if it does anything to them. -/
theorem WithinLimit.work (h : s.WithinLimit max) {j queue : ℕ} {w : Worker F D}
    (hwork : s.work j queue w = some s') : s'.WithinLimit max := by
  rcases w with _ | _ | ⟨id, t⟩ | _
  · simp only [ThreadPool.work] at hwork
    split at hwork
    · obtain rfl := Option.some.inj hwork
      exact h.setWorker j _
    · exact h.popFrom hwork
  · simp only [ThreadPool.work] at hwork
    split at hwork
    · obtain rfl := Option.some.inj hwork
      exact h.setWorker j _
    · exact h.popFrom hwork
  · -- the end of a task changes no queue
    simp only [ThreadPool.work] at hwork
    split at hwork
    · obtain rfl := Option.some.inj hwork
      exact ⟨h.limit, h.terminate, h.bounded, h.queue, h.moving⟩
    · cases hwork
  · cases hwork

/-- Within the limit, a step either keeps to it whatever the condition says, or it is an
insertion. -/
theorem WithinLimit.step_cases (h : s.WithinLimit max) {a : QueueAction F D} {o : Unit}
    (hs : s.queueStep a = some (s', o)) :
    (s'.WithinLimit max ∧ s.FindsRoom a) ∨
      ∃ i p, a = .producer i ∧ s.producers[i]? = some p ∧ s.Inserts p ∧ s' = s.inserted i p := by
  rcases a with ⟨task, queue, timed⟩ | i | i | ⟨j, queue⟩
  · -- a new call
    left
    simp only [queueStep, poolAction, ThreadPool.step, Option.ite_none_right_eq_some] at hs
    obtain ⟨hq, hs⟩ := hs
    obtain ⟨rfl, -⟩ := Prod.mk.inj (Option.some.inj hs)
    refine ⟨⟨h.limit, h.terminate, h.bounded, fun p hp => ?_, fun p hp => ?_⟩, trivial⟩
    · rcases List.mem_append.mp hp with hp | hp
      · exact h.queue p hp
      · rw [List.mem_singleton.mp hp]
        exact hq
    · rcases List.mem_append.mp hp with hp | hp
      · exact h.moving p hp
      · rw [List.mem_singleton.mp hp]
        exact Or.inl rfl
  · -- a call that gets the lock
    right
    rcases hp : s.producers[i]? with _ | p
    · simp [queueStep, poolAction, ThreadPool.step, hp] at hs
    · have hmem := List.mem_of_getElem? hp
      rcases h.moving p hmem with hpc | hpc
      · simp only [queueStep, poolAction, ThreadPool.step, hp, hpc, h.terminate,
          Bool.false_eq_true, if_false, insertOrWait, h.not_isFull hmem] at hs
        obtain ⟨rfl, -⟩ := Prod.mk.inj (Option.some.inj hs)
        exact ⟨i, p, rfl, hp, ⟨Or.inr ⟨hpc, h.terminate⟩, h.not_isFull hmem⟩, rfl⟩
      · simp [queueStep, poolAction, ThreadPool.step, hp, hpc] at hs
  · -- nobody waits, so no wait runs out
    exfalso
    rcases hp : s.producers[i]? with _ | p
    · simp [queueStep, poolAction, ThreadPool.step, hp] at hs
    · rcases h.moving p (List.mem_of_getElem? hp) with hpc | hpc
      · simp [queueStep, poolAction, ThreadPool.step, hp, hpc] at hs
      · simp [queueStep, poolAction, ThreadPool.step, hp, hpc] at hs
  · -- a worker
    left
    rcases hw : s.workers[j]? with _ | w
    · simp [queueStep, poolAction, ThreadPool.step, hw] at hs
    · simp only [queueStep, poolAction, ThreadPool.step, hw, Option.map_eq_some_iff,
        Prod.mk.injEq] at hs
      obtain ⟨s₁, hwork, rfl, -⟩ := hs
      exact ⟨h.work hwork, trivial⟩

/-- Within the limit the condition of an insertion speaks of the length of its queue. -/
theorem WithinLimit.findsRoom_producer (h : s.WithinLimit max) {i : ℕ} {p : Producer F D}
    (hp : s.producers[i]? = some p) (hinserts : s.Inserts p) :
    s.FindsRoom (.producer i) ↔ s.queueLength p ≠ max := by
  rw [FindsRoom, hp, h.limit]
  constructor
  · intro hall
    exact hall p rfl hinserts
  · rintro hne _ ⟨⟩ -
    exact hne

/-- **Step lemma.** -/
theorem WithinLimit.step (h : s.WithinLimit max) {a : QueueAction F D} {o : Unit}
    (hroom : s.FindsRoom a) (hs : s.queueStep a = some (s', o)) : s'.WithinLimit max := by
  rcases h.step_cases hs with ⟨hwithin, -⟩ | ⟨i, p, rfl, hp, hinserts, rfl⟩
  · exact hwithin
  · exact h.inserted hp ((h.findsRoom_producer hp hinserts).mp hroom)

theorem WithinLimit.respectsLimit_iff (h : s.WithinLimit max) {a : QueueAction F D} {o : Unit}
    (hs : s.queueStep a = some (s', o)) : RespectsLimit max ⟨s, a, o, s'⟩ ↔ s.FindsRoom a := by
  constructor
  · intro hrespects
    rcases h.step_cases hs with ⟨-, hroom⟩ | ⟨i, p, rfl, hp, hinserts, rfl⟩
    · exact hroom
    · exact (h.findsRoom_producer hp hinserts).mpr ((h.inserted_iff hp).mp hrespects.bounded)
  · intro hroom
    have hafter := h.step hroom hs
    exact ⟨hafter.bounded, fun i p _ _ _ hreturned => absurd hreturned (hafter.not_returned i)⟩

/-- **The queues respect their limit** in a run of producers and workers exactly if no call of the
run puts its task in a queue that it finds at the limit. -/
theorem limit_respected_iff (threadsCount taskQueues max : ℕ) (actions : List (QueueAction F D)) :
    (∀ t ∈ transitions queueStep (makeWithLimit threadsCount taskQueues max) actions,
        RespectsLimit max t) ↔
      Guarded queueStep FindsRoom (makeWithLimit threadsCount taskQueues max) actions := by
  apply guarded_iff (WithinLimit max) (RespectsLimit max)
  · intro s a s' o h hs
    exact h.respectsLimit_iff hs
  · intro s a s' o h hroom hs
    exact h.step hroom hs
  · exact withinLimit_make threadsCount taskQueues max

/-- With a limit of no tasks, one is put in the queue. -/
theorem limit_exceeded :
    ¬ ∀ t ∈ transitions queueStep (makeWithLimit 1 1 0)
        [.pushTask (⟨some (), none⟩ : PoolTask Unit Unit) 0 true, .producer 0],
      RespectsLimit 0 t := by
  intro hall
  have hlast := hall _ (List.mem_cons_of_mem _ List.mem_cons_self)
  have hlength := hlast.bounded [(0, ⟨some (), none⟩)] List.mem_cons_self
  exact absurd hlength (by decide)

end ThreadPool

end Mantids
