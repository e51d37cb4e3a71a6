/-
# The thread pool

`ThreadPool` (`Threads/threadpool.cpp`) has queues of tasks and worker threads that run them.  A
producer waits for room in its queue, a worker for a task in any queue, and `stop` lets the workers
leave once the queues are empty.

* `ThreadPool` — the queues, the calls of `pushTask`, and the workers;
* `step` — a step of any thread, one critical section of `m_queuesMutex` at a time;
* `Served` — the condition: a task is put in a queue while there is a worker that will look at it;
* `tasks_run_once` — what becomes of the tasks in every run that meets it.

A wait may end without a notification, so notifications are not kept.  The queue of a call and the
order in which a worker looks at the queues are random in the source; they are chosen freely here.
-/
import Mathlib
import Mantids.Lib.Run

namespace Mantids

open Run

/-- `ThreadPool::Task`; a null pointer is `none`. -/
structure PoolTask (F D : Type*) where
  task : Option F
  data : Option D

namespace PoolTask

variable {F D : Type*}

def isNull (t : PoolTask F D) : Bool := t.task.isNone && t.data.isNone

end PoolTask

/-- Where a call of `pushTask` is. -/
inductive ProducerPc where
  | called
  | waiting
  | returned (ok : Bool)
deriving DecidableEq

/-- A call of `pushTask`, with the queue it was given. -/
structure Producer (F D : Type*) where
  task : PoolTask F D
  currentQueue : ℕ
  /-- Is there a timeout? -/
  timed : Bool
  pc : ProducerPc

/-- Where a worker is in `taskProcessor`. -/
inductive Worker (F D : Type*) where
  /-- At the beginning of `popTask`. -/
  | popping
  | waiting
  | executing (id : ℕ) (t : PoolTask F D)
  | left

namespace Worker

variable {F D : Type*}

def isExecuting (id : ℕ) : Worker F D → Bool
  | .executing id' _ => id' = id
  | _ => false

/-- A task that the worker executes has a function. -/
def runs : Worker F D → Prop
  | .executing _ t => t.task.isSome = true
  | _ => True

end Worker

/-- `ThreadPool`.  A task is known by the number of the call that pushed it. -/
structure ThreadPool (F D : Type*) where
  maxTasksPerQueue : ℕ := 100
  terminate : Bool := false
  queues : List (List (ℕ × PoolTask F D))
  producers : List (Producer F D) := []
  workers : List (Worker F D)
  /-- The tasks that were executed, in order. -/
  executed : List ℕ := []

/-- A step of one of the threads. -/
inductive PoolAction (F D : Type*) where
  /-- A new call of `pushTask`, for which a queue was chosen. -/
  | pushTask (task : PoolTask F D) (queue : ℕ) (timed : Bool)
  /-- A call of `pushTask` gets the lock. -/
  | producer (i : ℕ)
  | timeOut (i : ℕ)
  /-- A worker gets the lock and comes to this queue first of those with tasks, or it executes the
  task it has. -/
  | worker (j queue : ℕ)
  | stop
  | setMaxTasksPerQueue (value : ℕ)

namespace ThreadPool

variable {F D : Type*}

/-- The pool as it is made. -/
def make (threadsCount taskQueues : ℕ) : ThreadPool F D :=
  { queues := List.replicate taskQueues [], workers := List.replicate threadsCount .popping }

/-- No queue has a task. -/
def allEmpty (s : ThreadPool F D) : Bool := s.queues.all List.isEmpty

def setProducer (s : ThreadPool F D) (i : ℕ) (p : Producer F D) (pc : ProducerPc) :
    ThreadPool F D :=
  { s with producers := s.producers.set i { p with pc } }

def setWorker (s : ThreadPool F D) (j : ℕ) (w : Worker F D) : ThreadPool F D :=
  { s with workers := s.workers.set j w }

/-- The queue of the call is full. -/
def isFull (s : ThreadPool F D) (p : Producer F D) : Bool :=
  s.maxTasksPerQueue < (s.queues.getD p.currentQueue []).length

/-- `pushTask` from the test for room on. -/
def insertOrWait (s : ThreadPool F D) (i : ℕ) (p : Producer F D) : ThreadPool F D :=
  if s.isFull p then s.setProducer i p .waiting
  else
    { s.setProducer i p (.returned true) with
      queues := s.queues.set p.currentQueue
        (s.queues.getD p.currentQueue [] ++ [(i, p.task)]) }

/-- The end of `popTask`: a worker that gets a null task leaves. -/
def popFrom (s : ThreadPool F D) (j queue : ℕ) : Option (ThreadPool F D) :=
  match s.queues[queue]? with
  | some (item :: rest) =>
    some ({ s with queues := s.queues.set queue rest }.setWorker j
      (if item.2.isNull then .left else .executing item.1 item.2))
  | _ => none

/-- A step of a worker. -/
def work (s : ThreadPool F D) (j queue : ℕ) : Worker F D → Option (ThreadPool F D)
  | .popping => if s.allEmpty then some (s.setWorker j .waiting) else s.popFrom j queue
  | .waiting =>
    if s.allEmpty then some (s.setWorker j (if s.terminate then .left else .waiting))
    else s.popFrom j queue
  -- A call through a null pointer ends the run.
  | .executing id t =>
    if t.task.isSome then some { s.setWorker j .popping with executed := s.executed ++ [id] }
    else none
  | .left => none

/-- A step.  The output is not used. -/
def step (s : ThreadPool F D) : PoolAction F D → Option (ThreadPool F D × Unit)
  | .pushTask task queue timed =>
    if queue < s.queues.length then
      some ({ s with producers := s.producers ++ [⟨task, queue, timed, .called⟩] }, ())
    else none
  | .producer i =>
    match s.producers[i]? with
    | none => none
    | some p =>
      match p.pc with
      | .called =>
        if s.terminate then some (s.setProducer i p (.returned false), ())
        else some (s.insertOrWait i p, ())
      -- After a wait, the termination is not looked at again.
      | .waiting => some (s.insertOrWait i p, ())
      | .returned _ => none
  | .timeOut i =>
    match s.producers[i]? with
    | none => none
    | some p =>
      if p.pc = .waiting ∧ p.timed = true then some (s.setProducer i p (.returned false), ())
      else none
  | .worker j queue =>
    match s.workers[j]? with
    | none => none
    | some w => (s.work j queue w).map (·, ())
  | .stop => some ({ s with terminate := true }, ())
  | .setMaxTasksPerQueue value => some ({ s with maxTasksPerQueue := value }, ())

/-! ## The condition -/

/-- The next step of the call puts its task in the queue. -/
def Inserts (s : ThreadPool F D) (p : Producer F D) : Prop :=
  (p.pc = .waiting ∨ (p.pc = .called ∧ s.terminate = false)) ∧ s.isFull p = false

/-- All workers have left `taskProcessor`. -/
def AllLeft (s : ThreadPool F D) : Prop := ∀ w ∈ s.workers, w = .left

/-- A task that is put in a queue has a function, and some worker has not left. -/
def Served (s : ThreadPool F D) : PoolAction F D → Prop
  | .producer i => ∀ p ∈ s.producers[i]?, s.Inserts p →
      p.task.task.isSome = true ∧ ¬ s.AllLeft
  | _ => True

/-! ## Where a task is -/

/-- The call of `pushTask` has returned with this result. -/
def Returned (s : ThreadPool F D) (id : ℕ) (ok : Bool) : Prop :=
  ∃ p, s.producers[id]? = some p ∧ p.pc = .returned ok

def isTask (id : ℕ) (item : ℕ × PoolTask F D) : Bool := item.1 = id

/-- How often a task is in the pool or was executed. -/
def places (s : ThreadPool F D) (id : ℕ) : ℕ :=
  s.executed.count id + s.queues.flatten.countP (isTask id)
    + s.workers.countP (Worker.isExecuting id)

/-- The pool keeps its tasks. -/
structure Kept (s : ThreadPool F D) : Prop where
  /-- A task is in one place if its call has returned `true`, and nowhere otherwise. -/
  accepted : ∀ id, s.Returned id true → s.places id = 1
  others : ∀ id, ¬ s.Returned id true → s.places id = 0
  queue : ∀ p ∈ s.producers, p.currentQueue < s.queues.length
  queued : ∀ item ∈ s.queues.flatten, item.2.task.isSome = true
  running : ∀ w ∈ s.workers, w.runs
  /-- The workers leave empty queues behind. -/
  left : s.AllLeft → s.allEmpty = true

/-! ## The parts of the pool -/

theorem countP_flatten_set {α : Type*} (P : α → Bool) (l : List (List α)) {q : ℕ}
    (hq : q < l.length) (x : List α) :
    (l.set q x).flatten.countP P + (l[q]).countP P = l.flatten.countP P + x.countP P := by
  induction l generalizing q with
  | nil => simp at hq
  | cons y l ih =>
      cases q with
      | zero =>
          simp only [List.set_cons_zero, List.flatten_cons, List.countP_append,
            List.getElem_cons_zero]
          omega
      | succ q =>
          have hrec := ih (Nat.lt_of_succ_lt_succ hq)
          simp only [List.set_cons_succ, List.flatten_cons, List.countP_append,
            List.getElem_cons_succ]
          omega

theorem mem_flatten_set {α : Type*} {l : List (List α)} {q : ℕ} {x : List α} {a : α}
    (ha : a ∈ (l.set q x).flatten) : a ∈ l.flatten ∨ a ∈ x := by
  obtain ⟨y, hy, hay⟩ := List.mem_flatten.mp ha
  rcases List.mem_or_eq_of_mem_set hy with hy | rfl
  · exact Or.inl (List.mem_flatten.mpr ⟨y, hy, hay⟩)
  · exact Or.inr hay

theorem countP_set_worker {workers : List (Worker F D)} {j : ℕ} {w : Worker F D}
    (hw : workers[j]? = some w) (w' : Worker F D) (P : Worker F D → Bool) :
    (workers.set j w').countP P + (if P w then 1 else 0) =
      workers.countP P + (if P w' then 1 else 0) := by
  obtain ⟨hlt, rfl⟩ := List.getElem?_eq_some_iff.mp hw
  have hset := List.countP_set (p := P) (a := w') hlt
  have hle : (if P workers[j] then 1 else 0) ≤ workers.countP P := by
    split
    · exact List.countP_pos_iff.mpr ⟨_, List.getElem_mem hlt, by assumption⟩
    · exact Nat.zero_le _
  omega

theorem mem_set_worker {workers : List (Worker F D)} {j : ℕ} {w w' : Worker F D}
    (hw : workers[j]? = some w) : w' ∈ workers.set j w' := by
  obtain ⟨hlt, -⟩ := List.getElem?_eq_some_iff.mp hw
  exact List.mem_set hlt w'

theorem returned_setProducer {s : ThreadPool F D} {i : ℕ} {p : Producer F D}
    (hp : s.producers[i]? = some p) (pc : ProducerPc) (id : ℕ) (ok : Bool) :
    (s.setProducer i p pc).Returned id ok ↔
      if id = i then pc = .returned ok else s.Returned id ok := by
  obtain ⟨hlt, -⟩ := List.getElem?_eq_some_iff.mp hp
  by_cases hid : id = i
  · subst hid
    simp [Returned, setProducer, hlt]
  · simp [Returned, setProducer, hid, List.getElem?_set_ne (Ne.symm hid)]

theorem not_returned {s : ThreadPool F D} {i : ℕ} {p : Producer F D} {ok : Bool}
    (hp : s.producers[i]? = some p) (hpc : p.pc ≠ .returned ok) : ¬ s.Returned i ok := by
  rintro ⟨p', hp', hpc'⟩
  rw [hp] at hp'
  cases hp'
  exact hpc hpc'

theorem getD_currentQueue {s : ThreadPool F D} {q : ℕ} (hq : q < s.queues.length) :
    s.queues.getD q [] = s.queues[q] := by
  rw [List.getD_eq_getElem?_getD, List.getElem?_eq_getElem hq, Option.getD_some]

/-! ## What a step keeps -/

theorem Kept.make (threadsCount taskQueues : ℕ) :
    (make threadsCount taskQueues : ThreadPool F D).Kept := by
  have hplaces : ∀ id,
      (ThreadPool.make threadsCount taskQueues : ThreadPool F D).places id = 0 := by
    intro id
    simp [places, ThreadPool.make, List.countP_replicate, Worker.isExecuting]
  refine ⟨?_, fun id _ => hplaces id, ?_, ?_, ?_, ?_⟩
  · rintro id ⟨p, hp, -⟩
    simp [ThreadPool.make] at hp
  · intro p hp
    simp [ThreadPool.make] at hp
  · intro item hitem
    simp [ThreadPool.make] at hitem
  · intro w hw
    rw [List.eq_of_mem_replicate hw]
    trivial
  · intro _
    simp [allEmpty, ThreadPool.make]

/-- A call that goes on without putting its task in the queue. -/
theorem Kept.setProducer {s : ThreadPool F D} (h : s.Kept) {i : ℕ} {p : Producer F D}
    (hp : s.producers[i]? = some p) (hpc : p.pc ≠ .returned true) {pc : ProducerPc}
    (hnew : pc ≠ .returned true) : (s.setProducer i p pc).Kept := by
  have hsame : ∀ id, (s.setProducer i p pc).Returned id true ↔ s.Returned id true := by
    intro id
    rw [returned_setProducer hp]
    by_cases hid : id = i
    · subst hid
      rw [if_pos rfl]
      exact iff_of_false hnew (not_returned hp hpc)
    · rw [if_neg hid]
  refine ⟨fun id hid => h.accepted id ((hsame id).mp hid),
    fun id hid => h.others id (fun hold => hid ((hsame id).mpr hold)), ?_, h.queued, h.running,
    h.left⟩
  intro p' hp'
  rcases List.mem_or_eq_of_mem_set hp' with hp' | rfl
  · exact h.queue p' hp'
  · exact h.queue p (List.mem_of_getElem? hp)

/-- A call that puts its task in the queue. -/
theorem Kept.insert {s : ThreadPool F D} (h : s.Kept) {i : ℕ} {p : Producer F D}
    (hp : s.producers[i]? = some p) (hpc : p.pc ≠ .returned true)
    (htask : p.task.task.isSome = true) (hserved : ¬ s.AllLeft) :
    ({ s.setProducer i p (.returned true) with
        queues := s.queues.set p.currentQueue
          (s.queues.getD p.currentQueue [] ++ [(i, p.task)]) } : ThreadPool F D).Kept := by
  have hq := h.queue p (List.mem_of_getElem? hp)
  rw [getD_currentQueue hq]
  -- The task of the call is in one more place, the others where they were.
  have hplaces : ∀ id, places ({ s.setProducer i p (.returned true) with
      queues := s.queues.set p.currentQueue
        (s.queues[p.currentQueue] ++ [(i, p.task)]) } : ThreadPool F D) id =
      s.places id + if id = i then 1 else 0 := by
    intro id
    have hcount := countP_flatten_set (isTask (F := F) (D := D) id) s.queues hq
      (s.queues[p.currentQueue] ++ [(i, p.task)])
    rw [List.countP_append, List.countP_singleton] at hcount
    have hone : (if isTask id (i, p.task) = true then 1 else 0) = if id = i then 1 else 0 := by
      simp [isTask, eq_comm (a := i)]
    rw [hone] at hcount
    show s.executed.count id + _ + s.workers.countP _ = _
    simp only [places]
    omega
  refine ⟨?_, ?_, ?_, ?_, h.running, fun hleft => absurd hleft hserved⟩
  · intro id hid
    rw [hplaces]
    have hid := (returned_setProducer hp _ id true).mp hid
    by_cases hi : id = i
    · subst hi
      rw [if_pos rfl, h.others id (not_returned hp hpc)]
    · rw [if_neg hi] at hid ⊢
      exact h.accepted id hid
  · intro id hid
    rw [hplaces]
    have hid := fun hold => hid ((returned_setProducer hp _ id true).mpr hold)
    by_cases hi : id = i
    · rw [if_pos hi] at hid
      exact absurd rfl hid
    · rw [if_neg hi] at hid ⊢
      exact h.others id hid
  · intro p' hp'
    show p'.currentQueue < (s.queues.set _ _).length
    rw [List.length_set]
    rcases List.mem_or_eq_of_mem_set hp' with hp' | rfl
    · exact h.queue p' hp'
    · exact hq
  · intro item hitem
    rcases mem_flatten_set hitem with hitem | hitem
    · exact h.queued item hitem
    · rcases List.mem_append.mp hitem with hitem | hitem
      · exact h.queued item (List.mem_flatten.mpr ⟨_, List.getElem_mem hq, hitem⟩)
      · rw [List.mem_singleton.mp hitem]
        exact htask

theorem Kept.insertOrWait {s : ThreadPool F D} (h : s.Kept) {i : ℕ} {p : Producer F D}
    (hp : s.producers[i]? = some p) (hpc : p.pc ≠ .returned true)
    (hserved : s.isFull p = false → p.task.task.isSome = true ∧ ¬ s.AllLeft) :
    (s.insertOrWait i p).Kept := by
  unfold ThreadPool.insertOrWait
  cases hfull : s.isFull p with
  | true =>
      rw [if_pos rfl]
      exact h.setProducer hp hpc (by simp)
  | false =>
      rw [if_neg (by simp)]
      exact h.insert hp hpc (hserved hfull).1 (hserved hfull).2

/-- A worker that changes its place where it has no task, before and afterwards. -/
theorem Kept.setWorker {s : ThreadPool F D} (h : s.Kept) {j : ℕ} {w w' : Worker F D}
    (hw : s.workers[j]? = some w) (hold : ∀ id, w.isExecuting id = false)
    (hnew : ∀ id, w'.isExecuting id = false) (hruns : w'.runs)
    (hleft : w' = .left → s.allEmpty = true) : (s.setWorker j w').Kept := by
  have hplaces : ∀ id, (s.setWorker j w').places id = s.places id := by
    intro id
    have hcount := countP_set_worker hw w' (Worker.isExecuting id)
    rw [hold id, hnew id] at hcount
    simp only [Bool.false_eq_true, if_false, Nat.add_zero] at hcount
    show s.executed.count id + s.queues.flatten.countP _ + (s.workers.set j w').countP _ = _
    rw [hcount, places]
  refine ⟨fun id hid => (hplaces id).trans (h.accepted id hid),
    fun id hid => (hplaces id).trans (h.others id hid), h.queue, h.queued, ?_, ?_⟩
  · intro v hv
    rcases List.mem_or_eq_of_mem_set hv with hv | rfl
    · exact h.running v hv
    · exact hruns
  · intro hall
    exact hleft (hall w' (mem_set_worker hw))

/-- A worker that takes a task. -/
theorem Kept.popFrom {s s' : ThreadPool F D} (h : s.Kept) {j queue : ℕ} {w : Worker F D}
    (hw : s.workers[j]? = some w) (hold : ∀ id, w.isExecuting id = false)
    (hpop : s.popFrom j queue = some s') : s'.Kept := by
  unfold ThreadPool.popFrom at hpop
  split at hpop
  · rename_i item rest hqueue
    obtain ⟨hq, hhead⟩ := List.getElem?_eq_some_iff.mp hqueue
    have hitem : item ∈ s.queues.flatten :=
      List.mem_flatten.mpr ⟨_, List.getElem_mem hq, by rw [hhead]; exact List.mem_cons_self⟩
    have htask := h.queued item hitem
    -- A queued task has a function, so the worker does not take it for the null task.
    have hnull : item.2.isNull = false := by
      rw [PoolTask.isNull, Option.isNone_eq_false_iff.mpr htask, Bool.false_and]
    rw [hnull, if_neg (by simp)] at hpop
    cases hpop
    have hplaces : ∀ id, places ({ s with queues := s.queues.set queue rest }.setWorker j
        (.executing item.1 item.2) : ThreadPool F D) id = s.places id := by
      intro id
      have hcount := countP_flatten_set (isTask (F := F) (D := D) id) s.queues hq rest
      rw [hhead, List.countP_cons] at hcount
      have hworkers := countP_set_worker hw (.executing item.1 item.2) (Worker.isExecuting id)
      rw [hold id] at hworkers
      have hsame : isTask id item = (Worker.executing item.1 item.2).isExecuting id := rfl
      rw [hsame] at hcount
      show s.executed.count id + (s.queues.set queue rest).flatten.countP _
        + (s.workers.set j _).countP _ = _
      simp only [places]
      simp only [Bool.false_eq_true, if_false] at hworkers
      omega
    refine ⟨fun id hid => (hplaces id).trans (h.accepted id hid),
      fun id hid => (hplaces id).trans (h.others id hid), ?_, ?_, ?_, ?_⟩
    · intro p hp
      show p.currentQueue < (s.queues.set queue rest).length
      rw [List.length_set]
      exact h.queue p hp
    · intro item' hitem'
      rcases mem_flatten_set hitem' with hitem' | hitem'
      · exact h.queued item' hitem'
      · refine h.queued item' (List.mem_flatten.mpr ⟨_, List.getElem_mem hq, ?_⟩)
        rw [hhead]
        exact List.mem_cons_of_mem _ hitem'
    · intro v hv
      rcases List.mem_or_eq_of_mem_set hv with hv | rfl
      · exact h.running v hv
      · exact htask
    · intro hall
      have hj : Worker.executing item.1 item.2 = .left := hall _ (mem_set_worker hw)
      cases hj
  · cases hpop

/-- A worker that has executed its task. -/
theorem Kept.execute {s : ThreadPool F D} (h : s.Kept) {j id : ℕ} {t : PoolTask F D}
    (hw : s.workers[j]? = some (.executing id t)) :
    ({ s.setWorker j .popping with executed := s.executed ++ [id] } : ThreadPool F D).Kept := by
  have hplaces : ∀ id', places ({ s.setWorker j .popping with
      executed := s.executed ++ [id] } : ThreadPool F D) id' = s.places id' := by
    intro id'
    have hworkers := countP_set_worker hw .popping (Worker.isExecuting id')
    show (s.executed ++ [id]).count id' + _ + (s.workers.set j _).countP _ = _
    rw [List.count_append, List.count_singleton]
    simp only [Worker.isExecuting, Bool.false_eq_true, if_false, decide_eq_true_eq] at hworkers
    simp only [beq_iff_eq]
    simp only [places]
    show _ + s.queues.flatten.countP _ + _ = _
    omega
  refine ⟨fun id hid => (hplaces id).trans (h.accepted id hid),
    fun id hid => (hplaces id).trans (h.others id hid), h.queue, h.queued, ?_, ?_⟩
  · intro v hv
    rcases List.mem_or_eq_of_mem_set hv with hv | rfl
    · exact h.running v hv
    · trivial
  · intro hall
    have hj : Worker.popping = .left := hall _ (mem_set_worker hw)
    cases hj

theorem Kept.work {s s' : ThreadPool F D} (h : s.Kept) {j queue : ℕ} {w : Worker F D}
    (hw : s.workers[j]? = some w) (hwork : s.work j queue w = some s') : s'.Kept := by
  cases w with
  | popping =>
      simp only [ThreadPool.work] at hwork
      by_cases hempty : s.allEmpty = true
      · rw [if_pos hempty] at hwork
        cases hwork
        exact h.setWorker hw (fun _ => rfl) (fun _ => rfl) trivial (by simp)
      · rw [if_neg hempty] at hwork
        exact h.popFrom hw (fun _ => rfl) hwork
  | waiting =>
      simp only [ThreadPool.work] at hwork
      by_cases hempty : s.allEmpty = true
      · rw [if_pos hempty] at hwork
        cases hwork
        cases s.terminate with
        | true => exact h.setWorker hw (fun _ => rfl) (fun _ => rfl) trivial (fun _ => hempty)
        | false => exact h.setWorker hw (fun _ => rfl) (fun _ => rfl) trivial (fun _ => hempty)
      · rw [if_neg hempty] at hwork
        exact h.popFrom hw (fun _ => rfl) hwork
  | executing id t =>
      simp only [ThreadPool.work] at hwork
      by_cases htask : t.task.isSome = true
      · rw [if_pos htask] at hwork
        cases hwork
        exact h.execute hw
      · rw [if_neg htask] at hwork
        cases hwork
  | left => cases hwork

/-- A new call of `pushTask`. -/
theorem Kept.pushTask {s : ThreadPool F D} (h : s.Kept) {queue : ℕ} (hq : queue < s.queues.length)
    (task : PoolTask F D) (timed : Bool) :
    ({ s with producers := s.producers ++ [⟨task, queue, timed, .called⟩] } :
      ThreadPool F D).Kept := by
  have hsame :
    ∀ id, Returned ({ s with producers := s.producers ++ [⟨task, queue, timed, .called⟩] } :
      ThreadPool F D) id true ↔ s.Returned id true := by
    intro id
    simp only [Returned, List.getElem?_append]
    split
    · rfl
    · rename_i hid
      rw [List.getElem?_eq_none (Nat.le_of_not_lt hid)]
      constructor
      · rintro ⟨p, hp, hpc⟩
        obtain rfl := List.mem_singleton.mp (List.mem_of_getElem? hp)
        cases hpc
      · rintro ⟨p, hp, -⟩
        cases hp
  refine ⟨fun id hid => h.accepted id ((hsame id).mp hid),
    fun id hid => h.others id (fun hold => hid ((hsame id).mpr hold)), ?_, h.queued, h.running,
    h.left⟩
  intro p hp
  rcases List.mem_append.mp hp with hp | hp
  · exact h.queue p hp
  · rw [List.mem_singleton.mp hp]
    exact hq

/-- **A step of any thread keeps the tasks**, if it is served. -/
theorem Kept.step {s s' : ThreadPool F D} {action : PoolAction F D} {o : Unit} (h : s.Kept)
    (hserved : s.Served action) (hstep : s.step action = some (s', o)) : s'.Kept := by
  cases action with
  | pushTask task queue timed =>
      by_cases hq : queue < s.queues.length
      · rw [ThreadPool.step, if_pos hq] at hstep
        cases hstep
        exact h.pushTask hq task timed
      · rw [ThreadPool.step, if_neg hq] at hstep
        cases hstep
  | producer i =>
      cases hp : s.producers[i]? with
      | none => simp [ThreadPool.step, hp] at hstep
      | some p =>
          have hserved := hserved p hp
          cases hpc : p.pc with
          | called =>
              simp only [ThreadPool.step, hp, hpc] at hstep
              cases hterm : s.terminate with
              | true =>
                  rw [hterm, if_pos rfl] at hstep
                  cases hstep
                  exact h.setProducer hp (by simp [hpc]) (by simp)
              | false =>
                  rw [hterm, if_neg (by simp)] at hstep
                  cases hstep
                  exact h.insertOrWait hp (by simp [hpc])
                    (fun hfull => hserved ⟨Or.inr ⟨hpc, hterm⟩, hfull⟩)
          | waiting =>
              simp only [ThreadPool.step, hp, hpc] at hstep
              cases hstep
              exact h.insertOrWait hp (by simp [hpc]) (fun hfull => hserved ⟨Or.inl hpc, hfull⟩)
          | returned ok => simp [ThreadPool.step, hp, hpc] at hstep
  | timeOut i =>
      cases hp : s.producers[i]? with
      | none => simp [ThreadPool.step, hp] at hstep
      | some p =>
          simp only [ThreadPool.step, hp] at hstep
          by_cases hwait : p.pc = .waiting ∧ p.timed = true
          · rw [if_pos hwait] at hstep
            cases hstep
            exact h.setProducer hp (by simp [hwait.1]) (by simp)
          · rw [if_neg hwait] at hstep
            cases hstep
  | worker j queue =>
      cases hw : s.workers[j]? with
      | none => simp [ThreadPool.step, hw] at hstep
      | some w =>
          simp only [ThreadPool.step, hw, Option.map_eq_some_iff, Prod.mk.injEq] at hstep
          obtain ⟨s₁, hwork, rfl, -⟩ := hstep
          exact h.work hw hwork
  | stop =>
      cases hstep
      exact ⟨h.accepted, h.others, h.queue, h.queued, h.running, h.left⟩
  | setMaxTasksPerQueue value =>
      cases hstep
      exact ⟨h.accepted, h.others, h.queue, h.queued, h.running, h.left⟩

/-! ## What becomes of the tasks -/

theorem Kept.count_le_one {s : ThreadPool F D} (h : s.Kept) (id : ℕ) : s.executed.count id ≤ 1 := by
  have hle : s.executed.count id ≤ s.places id := by
    unfold places
    omega
  by_cases hid : s.Returned id true
  · exact hle.trans (h.accepted id hid).le
  · exact hle.trans ((h.others id hid).le.trans (Nat.zero_le 1))

theorem Kept.not_executed {s : ThreadPool F D} (h : s.Kept) {id : ℕ} (hid : s.Returned id false) :
    id ∉ s.executed := by
  have hnot : ¬ s.Returned id true := by
    obtain ⟨p, hp, hpc⟩ := hid
    exact not_returned hp (by simp [hpc])
  have hzero := h.others id hnot
  intro hmem
  have hpos := List.count_pos_iff.mpr hmem
  unfold places at hzero
  omega

/-- When all workers have left, a task can only have been executed. -/
theorem Kept.executed_once {s : ThreadPool F D} (h : s.Kept) (hleft : s.AllLeft) {id : ℕ}
    (hid : s.Returned id true) : s.executed.count id = 1 := by
  have hone := h.accepted id hid
  have hqueues : s.queues.flatten.countP (isTask id) = 0 := by
    rw [List.flatten_eq_nil_iff.mpr]
    · rfl
    · intro q hq
      exact List.isEmpty_iff.mp (List.all_eq_true.mp (h.left hleft) q hq)
  have hworkers : s.workers.countP (Worker.isExecuting id) = 0 := by
    rw [List.countP_eq_zero]
    intro w hw
    rw [hleft w hw]
    simp [Worker.isExecuting]
  unfold places at hone
  omega

/-- **The pool runs every accepted task once.**  For every number of workers and queues and every
interleaving of the calls of `pushTask`, waiting or not, the workers, the limit and `stop`, in which
every task that is put in a queue has a function and some worker has not left then: no task is
executed twice, none is executed whose call returned `false`, and when all workers have left, each
task whose call returned `true` was executed once. -/
theorem tasks_run_once (threadsCount taskQueues : ℕ) (actions : List (PoolAction F D))
    (hserved : Guarded step Served (make threadsCount taskQueues) actions) :
    ∀ t ∈ transitions step (make threadsCount taskQueues) actions,
      (∀ id, t.after.executed.count id ≤ 1) ∧
      (∀ id, t.after.Returned id false → id ∉ t.after.executed) ∧
      (t.after.AllLeft → ∀ id, t.after.Returned id true → t.after.executed.count id = 1) := by
  intro t ht
  have hkept : t.after.Kept :=
    (hserved.invariant Kept (fun s i s' o hinv hG hstep => hinv.step hG hstep)
      (Kept.make threadsCount taskQueues) t ht).2
  exact ⟨hkept.count_le_one, fun id hid => hkept.not_executed hid,
    fun hleft id hid => hkept.executed_once hleft hid⟩

/-- A task is pushed, executed, and the pool is stopped. -/
def servedRun : List (PoolAction Unit Unit) :=
  [.pushTask ⟨some (), none⟩ 0 false, .producer 0, .worker 0 0, .worker 0 0, .worker 0 0, .stop,
    .worker 0 0]

theorem tasks_run_once_one :
    ∃ t ∈ transitions step (make 1 1) servedRun,
      t.after.AllLeft ∧ t.after.executed.count 0 = 1 := by
  have hserved : Guarded step Served (make 1 1) servedRun := by
    intro t ht
    have hrun : transitions step (make 1 1) servedRun = [_, _, _, _, _, _, _] := rfl
    rw [hrun] at ht
    simp only [List.mem_cons, List.not_mem_nil, or_false] at ht
    obtain rfl | rfl | rfl | rfl | rfl | rfl | rfl := ht
    · trivial
    · rintro p hp -
      cases hp
      refine ⟨rfl, fun hleft => ?_⟩
      cases hleft .popping List.mem_cons_self
    · trivial
    · trivial
    · trivial
    · trivial
    · trivial
  have hmem := List.getElem_mem (l := transitions step (make 1 1) servedRun) (n := 6) (by decide)
  have hleft : (transitions step (make 1 1) servedRun)[6].after.AllLeft := by
    intro w hw
    exact List.mem_singleton.mp hw
  exact ⟨_, hmem, hleft, (tasks_run_once 1 1 servedRun hserved _ hmem).2.2 hleft 0 ⟨_, rfl, rfl⟩⟩

/-! ## A task that nobody executes -/

/-- A call waits for room, the last task is executed, the pool is stopped, its worker leaves, and
then the call goes on. -/
def strandedRun : List (PoolAction Unit Unit) :=
  [.setMaxTasksPerQueue 0, .pushTask ⟨some (), none⟩ 0 false, .producer 0,
    .pushTask ⟨some (), none⟩ 0 false, .producer 1, .worker 0 0, .worker 0 0, .worker 0 0, .stop,
    .worker 0 0, .producer 1]

/-- A call that waits when the pool is stopped does not look at the termination again: it returns
`true` for a task that no worker is there to execute. -/
theorem waiting_task_stranded :
    ∃ t ∈ transitions step (make 1 1) strandedRun,
      t.after.AllLeft ∧ t.after.Returned 1 true ∧ t.after.executed.count 1 = 0 := by
  have hmem := List.getElem_mem (l := transitions step (make 1 1) strandedRun) (n := 10) (by decide)
  refine ⟨_, hmem, ?_, ⟨_, rfl, rfl⟩, rfl⟩
  intro w hw
  exact List.mem_singleton.mp hw

end ThreadPool

end Mantids
