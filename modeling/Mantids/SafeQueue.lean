/-
# The thread-safe queue

`Threads::Safe::Queue` (`Threads/queue.h`) is a bounded queue of pointers.  `push` waits while the
queue is full and `pop` while it is empty, each on a condition variable of its own and for a limited
time.  Who has put an item in, or taken one out, gives up the lock and notifies one thread that
waits for the opposite.

* `SafeQueue` — the queue, and the calls of all threads;
* `step` — a step of any thread, one critical section at a time;
* `items_in_order` — in every run the items come out in the order they went in, each to one call;
* `wakeup_not_lost` — who waits is woken, as long as no thread that was notified runs out of time
  before it has the lock.

A wait may end without a notification.
-/
import Mathlib.Data.Bool.Basic
import Mathlib.Data.List.Perm.Basic
import Mathlib.Tactic.Common
import Mantids.Lib.Run
import Mantids.Lib.Wakeups

namespace Mantids

open Run Wakeups

namespace SafeQueue

/-- What a thread asks for. -/
inductive QueueOp (α : Type*) where
  | push (item : α)
  | pop

def QueueOp.isPush {α : Type*} : QueueOp α → Bool
  | .push _ => true
  | .pop => false

/-- Where a call is. -/
inductive CallPc (α : Type*) where
  /-- Before the lock. -/
  | testing
  | waiting
  /-- Notified, and before the lock. -/
  | woken
  /-- The item is in the queue, or out of it. -/
  | notifying (item : α)
  /-- A `push` returns whether its item is in the queue. -/
  | returned (item : Option α)

/-- Where a call is, without its item. -/
inductive Stage where
  | testing
  | waiting
  | woken
  | notifying
  | returned
deriving DecidableEq

namespace CallPc

variable {α : Type*}

def stage : CallPc α → Stage
  | .testing => .testing
  | .waiting => .waiting
  | .woken => .woken
  | .notifying _ => .notifying
  | .returned _ => .returned

/-- The item that was put in or taken out. -/
def item? : CallPc α → Option α
  | .notifying item => some item
  | .returned item => item
  | _ => none

end CallPc

/-- A call of a thread. -/
structure QueueCall (α : Type*) where
  op : QueueOp α
  tmout_msecs : UInt32
  pc : CallPc α := .testing

end SafeQueue

open SafeQueue

/-- `Threads::Safe::Queue`, with all calls so far and a log of what they did. -/
structure SafeQueue (α : Type*) where
  queue : List α := []
  maxItems : ℕ := 0xFFFFFFFF
  calls : List (QueueCall α) := []
  /-- The items that were put in, in order. -/
  pushed : List α := []
  /-- The items that were taken out, in order. -/
  popped : List α := []

namespace SafeQueue

variable {α : Type*}

/-- A step of one of the threads. -/
inductive QueueAction (α : Type*) where
  | call (op : QueueOp α) (tmout_msecs : UInt32)
  /-- A call gets the lock: for the first time, after a notification, or for no reason. -/
  | go (i : ℕ)
  /-- A call gets the lock after its time has run out. -/
  | timeOut (i : ℕ)
  /-- `notify_one`, and the call that is chosen. -/
  | notify (i : ℕ) (chosen : Option ℕ)
  | setMaxItems (maxItems : ℕ)

def setPc (s : SafeQueue α) (i : ℕ) (c : QueueCall α) (pc : CallPc α) : SafeQueue α :=
  { s with calls := s.calls.set i { c with pc := pc } }

/-- The queue is full, or empty: the call waits, or it returns without a timeout. -/
def waitFor (s : SafeQueue α) (i : ℕ) (c : QueueCall α) : SafeQueue α :=
  s.setPc i c (if c.tmout_msecs = 0 then .returned none else .waiting)

/-- The loops of `push` and of `pop`, from the test on. -/
def test (s : SafeQueue α) (i : ℕ) (c : QueueCall α) : SafeQueue α :=
  match c.op with
  | .push item =>
    if s.maxItems ≤ s.queue.length then s.waitFor i c
    else
      { s.setPc i c (.notifying item) with
        queue := s.queue ++ [item], pushed := s.pushed ++ [item] }
  | .pop =>
    match s.queue with
    | [] => s.waitFor i c
    | item :: rest =>
      { s.setPc i c (.notifying item) with queue := rest, popped := s.popped ++ [item] }

/-- Is this a call that waits for the opposite of what the other call does? -/
def waitsFor (c d : QueueCall α) : Bool :=
  d.op.isPush != c.op.isPush && d.pc.stage == .waiting

/-- `notify_one`: one of the calls that wait, or none if there is none. -/
def notifyOne (s : SafeQueue α) (c : QueueCall α) : Option ℕ → Option (SafeQueue α)
  | none => if s.calls.any (waitsFor c) then none else some s
  | some j =>
    match s.calls[j]? with
    | none => none
    | some d => if waitsFor c d then some (s.setPc j d .woken) else none

/-- A step.  The output is not used. -/
def step (s : SafeQueue α) : QueueAction α → Option (SafeQueue α × Unit)
  | .call op tmout_msecs =>
    some ({ s with calls := s.calls ++ [{ op := op, tmout_msecs := tmout_msecs }] }, ())
  | .go i =>
    match s.calls[i]? with
    | none => none
    | some c =>
      if c.pc.stage = .testing ∨ c.pc.stage = .waiting ∨ c.pc.stage = .woken then
        some (s.test i c, ())
      else none
  | .timeOut i =>
    match s.calls[i]? with
    | none => none
    | some c =>
      if c.pc.stage = .waiting ∨ c.pc.stage = .woken then
        some (s.setPc i c (.returned none), ())
      else none
  | .notify i chosen =>
    match s.calls[i]? with
    | none => none
    | some c =>
      match c.pc with
      | .notifying item =>
        ((s.setPc i c (.returned (some item))).notifyOne c chosen).map fun s => (s, ())
      | _ => none
  | .setMaxItems maxItems => some ({ s with maxItems := maxItems }, ())

/-! ## Where the calls are -/

/-- So many calls of this kind are there. -/
def count (s : SafeQueue α) (isPush : Bool) (stage : Stage) : ℕ :=
  s.calls.countP fun c => decide (c.op.isPush = isPush ∧ c.pc.stage = stage)

/-- The items that calls of this kind have put in or taken out. -/
def moved (s : SafeQueue α) (isPush : Bool) : List α :=
  s.calls.filterMap fun c => if c.op.isPush = isPush then c.pc.item? else none

variable {s : SafeQueue α} {i : ℕ} {c : QueueCall α}

theorem count_setPc (hi : s.calls[i]? = some c) (pc : CallPc α) (isPush : Bool) (stage : Stage) :
    (s.setPc i c pc).count isPush stage +
        (if c.op.isPush = isPush ∧ c.pc.stage = stage then 1 else 0) =
      s.count isPush stage + (if c.op.isPush = isPush ∧ pc.stage = stage then 1 else 0) := by
  obtain ⟨hlt, rfl⟩ := List.getElem?_eq_some_iff.mp hi
  have hone : (if s.calls[i].op.isPush = isPush ∧ s.calls[i].pc.stage = stage then 1 else 0) ≤
      s.count isPush stage := by
    split
    · rename_i hc
      refine List.countP_pos_iff.mpr ⟨s.calls[i], List.getElem_mem hlt, ?_⟩
      exact decide_eq_true hc
    · exact Nat.zero_le _
  rw [count, setPc, List.countP_set hlt]
  simp only [decide_eq_true_eq]
  rw [count] at hone ⊢
  omega

theorem moved_setPc (hi : s.calls[i]? = some c) (pc : CallPc α) (isPush : Bool) :
    ((if c.op.isPush = isPush then c.pc.item? else none).toList ++
        (s.setPc i c pc).moved isPush).Perm
      ((if c.op.isPush = isPush then pc.item? else none).toList ++ s.moved isPush) := by
  obtain ⟨hlt, rfl⟩ := List.getElem?_eq_some_iff.mp hi
  set f : QueueCall α → Option α := fun c => if c.op.isPush = isPush then c.pc.item? else none
    with hf
  set rest := (s.calls.eraseIdx i).filterMap f with hrest
  have hfilter : ∀ d : QueueCall α, ((d :: s.calls.eraseIdx i).filterMap f).Perm
      ((f d).toList ++ rest) := by
    intro d
    rw [List.filterMap_cons]
    cases f d <;> exact List.Perm.refl _
  have hafter : ((s.setPc i s.calls[i] pc).moved isPush).Perm
      ((f { s.calls[i] with pc := pc }).toList ++ rest) :=
    ((List.set_perm_cons_eraseIdx hlt _).filterMap f).trans (hfilter _)
  have hbefore : (s.moved isPush).Perm ((f s.calls[i]).toList ++ rest) :=
    ((List.getElem_cons_eraseIdx_perm hlt).symm.filterMap f).trans (hfilter _)
  exact (hafter.append_left _).trans
    ((List.perm_append_comm_assoc _ _ _).trans (hbefore.symm.append_left _))

/-- The items stay where they are when a call moves on without one. -/
theorem moved_setPc_same (hi : s.calls[i]? = some c) {pc : CallPc α} (hitem : pc.item? = c.pc.item?)
    (isPush : Bool) : ((s.setPc i c pc).moved isPush).Perm (s.moved isPush) := by
  have h := moved_setPc hi pc isPush
  rw [hitem] at h
  exact (List.perm_append_left_iff _).mp h

/-- A call that moves on with an item adds it to those of its kind. -/
theorem moved_setPc_new (hi : s.calls[i]? = some c) (item : α) (hnone : c.pc.item? = none)
    (isPush : Bool) : ((s.setPc i c (.notifying item)).moved isPush).Perm
      (if c.op.isPush = isPush then item :: s.moved isPush else s.moved isPush) := by
  have h := moved_setPc hi (.notifying item) isPush
  rw [hnone] at h
  split
  · rename_i hkind
    rwa [if_pos hkind, if_pos hkind] at h
  · rename_i hkind
    rwa [if_neg hkind, if_neg hkind] at h

/-! ## What a step can do -/

/-- The test of a call keeps it from going on. -/
def Blocked (s : SafeQueue α) : QueueOp α → Prop
  | .push _ => s.maxItems ≤ s.queue.length
  | .pop => s.queue = []

/-- A call is before its test, or waits. -/
def Ready (c : QueueCall α) : Prop :=
  c.pc.stage = .testing ∨ c.pc.stage = .waiting ∨ c.pc.stage = .woken

theorem Ready.item?_eq_none (h : Ready c) : c.pc.item? = none := by
  rw [Ready] at h
  cases hpc : c.pc with
  | testing => rfl
  | waiting => rfl
  | woken => rfl
  | notifying item => simp [hpc, CallPc.stage] at h
  | returned item => simp [hpc, CallPc.stage] at h

/-- The steps, by what they lead to. -/
inductive StepKind (s : SafeQueue α) : QueueAction α → SafeQueue α → Prop where
  | call (op : QueueOp α) (tmout_msecs : UInt32) :
      StepKind s (.call op tmout_msecs)
        { s with calls := s.calls ++ [{ op := op, tmout_msecs := tmout_msecs }] }
  | blocked {i : ℕ} {c : QueueCall α} (hi : s.calls[i]? = some c) (hready : Ready c)
      (hblocked : Blocked s c.op) : StepKind s (.go i) (s.waitFor i c)
  | pushed {i : ℕ} {c : QueueCall α} {item : α} (hi : s.calls[i]? = some c) (hready : Ready c)
      (hop : c.op = .push item) (hroom : s.queue.length < s.maxItems) :
      StepKind s (.go i) { s.setPc i c (.notifying item) with
        queue := s.queue ++ [item], pushed := s.pushed ++ [item] }
  | popped {i : ℕ} {c : QueueCall α} {item : α} {rest : List α} (hi : s.calls[i]? = some c)
      (hready : Ready c) (hop : c.op = .pop) (hqueue : s.queue = item :: rest) :
      StepKind s (.go i) { s.setPc i c (.notifying item) with
        queue := rest, popped := s.popped ++ [item] }
  | timeOut {i : ℕ} {c : QueueCall α} (hi : s.calls[i]? = some c)
      (hstage : c.pc.stage = .waiting ∨ c.pc.stage = .woken) :
      StepKind s (.timeOut i) (s.setPc i c (.returned none))
  | notified {i j : ℕ} {c d : QueueCall α} {item : α} (hi : s.calls[i]? = some c)
      (hpc : c.pc = .notifying item)
      (hj : (s.setPc i c (.returned (some item))).calls[j]? = some d)
      (hwaits : waitsFor c d = true) :
      StepKind s (.notify i (some j)) ((s.setPc i c (.returned (some item))).setPc j d .woken)
  | notifiedNobody {i : ℕ} {c : QueueCall α} {item : α} (hi : s.calls[i]? = some c)
      (hpc : c.pc = .notifying item)
      (hnobody : ∀ d ∈ (s.setPc i c (.returned (some item))).calls, waitsFor c d = false) :
      StepKind s (.notify i none) (s.setPc i c (.returned (some item)))
  | setMaxItems (maxItems : ℕ) : StepKind s (.setMaxItems maxItems) { s with maxItems := maxItems }

theorem step_kind {s s' : SafeQueue α} {a : QueueAction α} {o : Unit}
    (h : s.step a = some (s', o)) : StepKind s a s' := by
  cases a with
  | call op tmout_msecs =>
      obtain ⟨rfl, -⟩ := Prod.mk.inj (Option.some.inj h)
      exact .call op tmout_msecs
  | go i =>
      rw [step] at h
      split at h
      · cases h
      · rename_i c hi
        split_ifs at h with hready
        obtain ⟨rfl, -⟩ := Prod.mk.inj (Option.some.inj h)
        rw [test]
        split
        · rename_i item hop
          split_ifs with hfull
          · exact .blocked hi hready (by rw [hop]; exact hfull)
          · exact .pushed hi hready hop (Nat.lt_of_not_le hfull)
        · rename_i hop
          split
          · rename_i hqueue
            exact .blocked hi hready (by rw [hop]; exact hqueue)
          · rename_i item rest hqueue
            exact .popped hi hready hop hqueue
  | timeOut i =>
      rw [step] at h
      split at h
      · cases h
      · rename_i c hi
        split_ifs at h with hstage
        obtain ⟨rfl, -⟩ := Prod.mk.inj (Option.some.inj h)
        exact .timeOut hi hstage
  | notify i chosen =>
      rw [step] at h
      split at h
      · cases h
      · rename_i c hi
        split at h
        · rename_i item hpc
          obtain ⟨t, ht, hnext⟩ := Option.map_eq_some_iff.mp h
          obtain ⟨rfl, -⟩ := Prod.mk.inj hnext
          cases chosen with
          | none =>
              rw [notifyOne] at ht
              split_ifs at ht with hany
              obtain rfl := Option.some.inj ht
              refine .notifiedNobody hi hpc fun d hd => ?_
              exact Bool.eq_false_iff.mpr fun hd' => hany (List.any_eq_true.mpr ⟨d, hd, hd'⟩)
          | some j =>
              rw [notifyOne] at ht
              split at ht
              · cases ht
              · rename_i d hj
                split_ifs at ht with hwaits
                obtain rfl := Option.some.inj ht
                exact .notified hi hpc hj hwaits
        · cases h
  | setMaxItems maxItems =>
      obtain ⟨rfl, -⟩ := Prod.mk.inj (Option.some.inj h)
      exact .setMaxItems maxItems

/-! ## The items -/

/-- The items are in order, and every one that went in or came out belongs to one call. -/
structure InOrder (s : SafeQueue α) : Prop where
  fifo : s.pushed = s.popped ++ s.queue
  pushes : (s.moved true).Perm s.pushed
  pops : (s.moved false).Perm s.popped
  own : ∀ c ∈ s.calls, ∀ item, c.pc.item? = some item → c.op = .pop ∨ c.op = .push item

/-- A call that moves on with the item it had, or without one. -/
theorem InOrder.setPc (h : s.InOrder) (hi : s.calls[i]? = some c) {pc : CallPc α}
    (hitem : pc.item? = c.pc.item?) : (s.setPc i c pc).InOrder where
  fifo := h.fifo
  pushes := (moved_setPc_same hi hitem true).trans h.pushes
  pops := (moved_setPc_same hi hitem false).trans h.pops
  own := by
    intro d hd item hsome
    rcases List.mem_or_eq_of_mem_set hd with hd | rfl
    · exact h.own d hd item hsome
    · exact h.own c (List.mem_of_getElem? hi) item (hitem ▸ hsome)

theorem InOrder.step {s s' : SafeQueue α} {a : QueueAction α} {o : Unit} (h : s.InOrder)
    (hstep : s.step a = some (s', o)) : s'.InOrder := by
  cases step_kind hstep with
  | call op tmout_msecs =>
      have hmoved : ∀ isPush, moved { s with
          calls := s.calls ++ [{ op := op, tmout_msecs := tmout_msecs }] } isPush =
            s.moved isPush := by
        intro isPush
        show List.filterMap _ (s.calls ++ [_]) = _
        rw [List.filterMap_append, List.filterMap_cons_none (by simp [CallPc.item?]),
          List.filterMap_nil, List.append_nil]
        rfl
      refine ⟨h.fifo, (hmoved true).symm ▸ h.pushes, (hmoved false).symm ▸ h.pops, ?_⟩
      intro d hd item hsome
      rcases List.mem_append.mp hd with hd | hd
      · exact h.own d hd item hsome
      · rw [List.mem_singleton.mp hd] at hsome
        cases hsome
  | @blocked i c hi hready hblocked =>
      refine h.setPc hi ?_
      rw [hready.item?_eq_none]
      split <;> rfl
  | @pushed i c item hi hready hop hroom =>
      have hnone := hready.item?_eq_none
      have hpush : c.op.isPush = true := by
        rw [hop]
        rfl
      refine ⟨?_, ?_, ?_, ?_⟩
      · show s.pushed ++ [item] = s.popped ++ (s.queue ++ [item])
        rw [h.fifo, List.append_assoc]
      · have hnew := moved_setPc_new hi item hnone true
        rw [if_pos hpush] at hnew
        exact hnew.trans ((h.pushes.cons item).trans (List.perm_append_singleton item _).symm)
      · have hnew := moved_setPc_new hi item hnone false
        rw [if_neg (by rw [hpush]; decide)] at hnew
        exact hnew.trans h.pops
      · intro d hd item' hsome
        rcases List.mem_or_eq_of_mem_set hd with hd | rfl
        · exact h.own d hd item' hsome
        · obtain rfl := Option.some.inj hsome
          exact Or.inr hop
  | @popped i c item rest hi hready hop hqueue =>
      have hnone := hready.item?_eq_none
      have hpop : c.op.isPush = false := by
        rw [hop]
        rfl
      refine ⟨?_, ?_, ?_, ?_⟩
      · show s.pushed = s.popped ++ [item] ++ rest
        rw [h.fifo, hqueue, List.append_assoc]
        rfl
      · have hnew := moved_setPc_new hi item hnone true
        rw [if_neg (by rw [hpop]; decide)] at hnew
        exact hnew.trans h.pushes
      · have hnew := moved_setPc_new hi item hnone false
        rw [if_pos hpop] at hnew
        exact hnew.trans ((h.pops.cons item).trans (List.perm_append_singleton item _).symm)
      · intro d hd item' hsome
        rcases List.mem_or_eq_of_mem_set hd with hd | rfl
        · exact h.own d hd item' hsome
        · exact Or.inl hop
  | @timeOut i c hi hstage =>
      refine h.setPc hi ?_
      have hready : Ready c := Or.inr hstage
      rw [hready.item?_eq_none]
      rfl
  | @notified i j c d item hi hpc hj hwaits =>
      have hreturned : (s.setPc i c (.returned (some item))).InOrder :=
        h.setPc hi (by rw [hpc]; rfl)
      have hwaiting : Ready d := by
        rw [waitsFor, Bool.and_eq_true] at hwaits
        exact Or.inr (Or.inl (eq_of_beq hwaits.2))
      exact hreturned.setPc hj hwaiting.item?_eq_none.symm
  | @notifiedNobody i c item hi hpc hnobody => exact h.setPc hi (by rw [hpc]; rfl)
  | setMaxItems maxItems => exact ⟨h.fifo, h.pushes, h.pops, h.own⟩

/-- **A queue keeps the order.**  In every run of any number of threads: what came out is what went
in, in its order, up to what is in the queue; every item that is in the queue or came out of it was
put in by one call of `push`, which has this item, and every item that came out was taken by one
call of `pop`; and the queue does not grow over a bound that its limit is never set above. -/
theorem items_in_order (maxItems : ℕ) (actions : List (QueueAction α)) {s : SafeQueue α}
    (hrun : reach step { maxItems := maxItems } actions = some s) :
    s.InOrder ∧
      ∀ bound, maxItems ≤ bound → (∀ m, .setMaxItems m ∈ actions → m ≤ bound) →
        s.queue.length ≤ bound := by
  have hinit : ({ maxItems := maxItems } : SafeQueue α).InOrder := by
    refine ⟨rfl, List.Perm.nil, List.Perm.nil, fun c hc => ?_⟩
    cases hc
  refine ⟨reach_invariant InOrder (fun s a _ s' o hs hstep => hs.step hstep) hinit hrun, ?_⟩
  intro bound hmax hset
  have hbound := reach_invariant (fun s => s.maxItems ≤ bound ∧ s.queue.length ≤ bound)
    (fun s a ha s' o hs hstep => ?_) ⟨hmax, Nat.zero_le bound⟩ hrun
  · exact hbound.2
  · cases step_kind hstep with
    | call | timeOut | notified | notifiedNobody | blocked => exact hs
    | pushed _ _ _ hroom =>
        refine ⟨hs.1, ?_⟩
        rw [List.length_append, List.length_singleton]
        exact Nat.le_trans hroom hs.1
    | popped _ _ _ hqueue =>
        have hlen := hs.2
        rw [hqueue, List.length_cons] at hlen
        exact ⟨hs.1, by dsimp only; omega⟩
    | setMaxItems m => exact ⟨hset m ha, hs.2⟩

/-! ## The wakeups -/

/-- What the calls of a kind wait for: `m_notFullCond` for `push`, `m_notEmptyCond` for `pop`. -/
def condition (s : SafeQueue α) (isPush : Bool) : Condition where
  available := if isPush then s.maxItems - s.queue.length else s.queue.length
  waiting := s.count isPush .waiting
  woken := s.count isPush .woken
  notifying := s.count (!isPush) .notifying

/-- Who waits is not forgotten: either nobody waits on a condition variable, or there are threads on
the way to all that is available. -/
def NobodyForgotten (s : SafeQueue α) : Prop := ∀ isPush, (s.condition isPush).Served

/-- A thread that was notified does not run out of time before it has the lock, and the limit is not
raised while a `push` waits. -/
def Timely (s : SafeQueue α) : QueueAction α → Prop
  | .timeOut i => ∀ c, s.calls[i]? = some c → c.pc.stage ≠ .woken
  | .setMaxItems maxItems => maxItems ≤ s.maxItems ∨ s.count true .waiting = 0
  | _ => True

theorem count_setPc_other (hi : s.calls[i]? = some c) (pc : CallPc α) {isPush : Bool}
    (hkind : c.op.isPush ≠ isPush) (stage : Stage) :
    (s.setPc i c pc).count isPush stage = s.count isPush stage := by
  have h := count_setPc hi pc isPush stage
  rwa [if_neg fun hc => hkind hc.1, if_neg fun hc => hkind hc.1] at h

theorem count_setPc_same (hi : s.calls[i]? = some c) {pc : CallPc α} (isPush : Bool) {stage : Stage}
    (hbefore : c.pc.stage ≠ stage) (hafter : pc.stage ≠ stage) :
    (s.setPc i c pc).count isPush stage = s.count isPush stage := by
  have h := count_setPc hi pc isPush stage
  rwa [if_neg fun hc => hbefore hc.2, if_neg fun hc => hafter hc.2] at h

theorem count_setPc_from (hi : s.calls[i]? = some c) (pc : CallPc α) {stage : Stage}
    (hbefore : c.pc.stage = stage) (hafter : pc.stage ≠ stage) :
    s.count c.op.isPush stage = (s.setPc i c pc).count c.op.isPush stage + 1 := by
  have h := count_setPc hi pc c.op.isPush stage
  rw [if_pos ⟨rfl, hbefore⟩, if_neg fun hc => hafter hc.2] at h
  exact h.symm

theorem count_setPc_to (hi : s.calls[i]? = some c) (pc : CallPc α) {stage : Stage}
    (hbefore : c.pc.stage ≠ stage) (hafter : pc.stage = stage) :
    (s.setPc i c pc).count c.op.isPush stage = s.count c.op.isPush stage + 1 := by
  have h := count_setPc hi pc c.op.isPush stage
  rwa [if_neg fun hc => hbefore hc.2, if_pos ⟨rfl, hafter⟩] at h

/-- A call that leaves a stage, or was not in it, is not there any more. -/
theorem count_setPc_le (hi : s.calls[i]? = some c) (pc : CallPc α) (isPush : Bool) (stage : Stage)
    (hafter : pc.stage ≠ stage) :
    (s.setPc i c pc).count isPush stage ≤ s.count isPush stage ∧
      s.count isPush stage ≤ (s.setPc i c pc).count isPush stage + 1 := by
  have h := count_setPc hi pc isPush stage
  have hzero : (if c.op.isPush = isPush ∧ pc.stage = stage then 1 else 0) = 0 :=
    if_neg fun hc => hafter hc.2
  rw [hzero] at h
  split_ifs at h <;> omega

theorem Ready.stage_ne_notifying (h : Ready c) : c.pc.stage ≠ .notifying := by
  intro hstage
  rw [Ready, hstage] at h
  rcases h with h | h | h <;> cases h

/-- The other kind of calls does not notice a call that moves on without an item. -/
theorem condition_setPc_other (hi : s.calls[i]? = some c) {pc : CallPc α} {isPush : Bool}
    (hkind : c.op.isPush ≠ isPush) (hbefore : c.pc.stage ≠ .notifying)
    (hafter : pc.stage ≠ .notifying) :
    (s.setPc i c pc).condition isPush = s.condition isPush := by
  rw [condition, condition, count_setPc_other hi pc hkind, count_setPc_other hi pc hkind,
    count_setPc_same hi _ hbefore hafter]
  rfl

theorem nobodyForgotten_blocked (h : s.NobodyForgotten) (hi : s.calls[i]? = some c)
    (hready : Ready c) (hblocked : Blocked s c.op) : (s.waitFor i c).NobodyForgotten := by
  intro isPush
  by_cases hkind : c.op.isPush = isPush
  · refine (h isPush).step (.wait ?_)
    show (if isPush then s.maxItems - s.queue.length else s.queue.length) = 0
    subst hkind
    cases hop : c.op with
    | push item =>
        rw [hop] at hblocked
        exact Nat.sub_eq_zero_of_le hblocked
    | pop =>
        rw [hop] at hblocked
        exact List.length_eq_zero_iff.mpr hblocked
  · rw [waitFor, condition_setPc_other hi hkind hready.stage_ne_notifying]
    · exact h isPush
    · split <;> exact fun hstage => by cases hstage

/-- A call that has put an item in, or taken one out. -/
theorem nobodyForgotten_moved (h : s.NobodyForgotten) (hi : s.calls[i]? = some c)
    (hready : Ready c) {item : α} {queue pushed popped : List α}
    (hown : (s.condition c.op.isPush).available =
      (if c.op.isPush then s.maxItems - queue.length else queue.length) + 1)
    (hother : (if !c.op.isPush then s.maxItems - queue.length else queue.length) =
      (s.condition (!c.op.isPush)).available + 1 ∨
        (if !c.op.isPush then s.maxItems - queue.length else queue.length) = 0) :
    NobodyForgotten { s.setPc i c (.notifying item) with queue, pushed, popped } := by
  intro isPush
  by_cases hkind : c.op.isPush = isPush
  · subst hkind
    have hwaiting := (count_setPc_le hi (.notifying item) c.op.isPush .waiting
      fun hstage => by cases hstage).1
    have hwoken := (count_setPc_le hi (.notifying item) c.op.isPush .woken
      fun hstage => by cases hstage).2
    have hnotifying := count_setPc_other hi (.notifying item) (Bool.self_ne_not c.op.isPush)
      .notifying
    exact (h c.op.isPush).step (.take hown hwaiting hwoken hnotifying)
  · obtain rfl : isPush = !c.op.isPush := by
      cases hc : c.op.isPush <;> cases isPush <;> simp_all
    have hnotifying := count_setPc_to hi (.notifying item) hready.stage_ne_notifying rfl
    have hsame := fun stage => count_setPc_other hi (.notifying item) hkind stage
    rcases hother with hsupply | hempty
    · refine (h (!c.op.isPush)).step (.supply hsupply (hsame _) (hsame _) ?_)
      show count _ (!!c.op.isPush) _ = s.count (!!c.op.isPush) _ + 1
      rw [Bool.not_not]
      exact hnotifying
    · exact (h (!c.op.isPush)).step (.wait hempty)

/-- A call that stops waiting without a notification. -/
theorem nobodyForgotten_timeOut (h : s.NobodyForgotten) (hi : s.calls[i]? = some c)
    (hstage : c.pc.stage = .waiting) : (s.setPc i c (.returned none)).NobodyForgotten := by
  intro isPush
  have hnotifying : ∀ isPush, (s.setPc i c (.returned none)).count isPush .notifying =
      s.count isPush .notifying := fun isPush =>
    count_setPc_same hi isPush (by rw [hstage]; decide) (fun hstage => by cases hstage)
  have hwoken : (s.setPc i c (.returned none)).count isPush .woken = s.count isPush .woken := by
    apply count_setPc_same hi isPush
    · rw [hstage]; decide
    · show Stage.returned ≠ Stage.woken
      decide
  have hwaiting := (count_setPc_le hi (.returned none) isPush .waiting
    fun hstage => by cases hstage).1
  exact (h isPush).step (.leave le_rfl hwaiting hwoken (hnotifying _))

/-- A call that has notified is counted nowhere else. -/
theorem count_notified {item : α} (hi : s.calls[i]? = some c) (hpc : c.pc = .notifying item)
    (isPush : Bool) {stage : Stage} (hne : stage ≠ .notifying) (hne' : stage ≠ .returned) :
    (s.setPc i c (.returned (some item))).count isPush stage = s.count isPush stage :=
  count_setPc_same hi isPush (by rw [hpc]; exact hne.symm) hne'.symm

/-- A notification that reaches a thread. -/
theorem nobodyForgotten_notified (h : s.NobodyForgotten) {item : α}
    (hi : s.calls[i]? = some c) (hpc : c.pc = .notifying item) {j : ℕ} {d : QueueCall α}
    (hj : (s.setPc i c (.returned (some item))).calls[j]? = some d)
    (hwaits : waitsFor c d = true) :
    ((s.setPc i c (.returned (some item))).setPc j d .woken).NobodyForgotten := by
  rw [waitsFor, Bool.and_eq_true, bne_iff_ne] at hwaits
  obtain ⟨hkinds, hwaiting⟩ := hwaits
  have hstage : d.pc.stage = .waiting := eq_of_beq hwaiting
  have hother : d.op.isPush = !c.op.isPush := by
    cases hc : c.op.isPush <;> cases hd : d.op.isPush <;> simp_all
  set t := s.setPc i c (.returned (some item)) with ht
  have hnotifying : c.pc.stage = .notifying := by
    rw [hpc]
    rfl
  have hfrom : s.count c.op.isPush .notifying = t.count c.op.isPush .notifying + 1 :=
    count_setPc_from hi _ hnotifying (fun hstage => by cases hstage)
  intro isPush
  by_cases hkind : c.op.isPush = isPush
  · subst hkind
    have hdifferent : d.op.isPush ≠ c.op.isPush := hkinds
    have hwait := (count_setPc_other hj .woken hdifferent .waiting).trans
      (count_notified hi hpc _ (by decide) (by decide))
    have hwoke := (count_setPc_other hj .woken hdifferent .woken).trans
      (count_notified hi hpc _ (by decide) (by decide))
    have hnotify : (t.setPc j d .woken).count (!c.op.isPush) .notifying =
        s.count (!c.op.isPush) .notifying :=
      (count_setPc_same hj _ (by rw [hstage]; decide) (fun hstage => by cases hstage)).trans
        (count_setPc_other hi _ (Bool.self_ne_not c.op.isPush) _)
    exact (h _).step (.leave le_rfl hwait.le hwoke hnotify)
  · obtain rfl : isPush = d.op.isPush := by
      rw [hother]
      cases hc : c.op.isPush <;> cases isPush <;> simp_all
    have hwait := count_setPc_from hj .woken hstage (fun hstage => by cases hstage)
    have hwoke := count_setPc_to hj .woken (show d.pc.stage ≠ .woken by rw [hstage]; decide) rfl
    rw [count_notified hi hpc _ (by decide) (by decide)] at hwait hwoke
    have hnotify : s.count c.op.isPush .notifying =
        (t.setPc j d .woken).count c.op.isPush .notifying + 1 := by
      rw [hfrom, count_setPc_other hj .woken hkinds]
    refine (h d.op.isPush).step (.notify rfl hwait hwoke ?_)
    show s.count (!d.op.isPush) .notifying = count _ (!d.op.isPush) .notifying + 1
    rw [hother, Bool.not_not]
    exact hnotify

/-- A notification that reaches nobody. -/
theorem nobodyForgotten_notifiedNobody (h : s.NobodyForgotten) {item : α}
    (hi : s.calls[i]? = some c) (hpc : c.pc = .notifying item)
    (hnobody : ∀ d ∈ (s.setPc i c (.returned (some item))).calls, waitsFor c d = false) :
    (s.setPc i c (.returned (some item))).NobodyForgotten := by
  intro isPush
  by_cases hkind : c.op.isPush = isPush
  · subst hkind
    exact (h _).step (.leave le_rfl (count_notified hi hpc _ (by decide) (by decide)).le
      (count_notified hi hpc _ (by decide) (by decide))
      (count_setPc_other hi _ (Bool.self_ne_not _) _))
  · refine (h isPush).step (.nobody ?_)
    refine List.countP_eq_zero.mpr fun d hd hwaits => ?_
    obtain ⟨hd', hstage⟩ := of_decide_eq_true hwaits
    have hnone := hnobody d hd
    rw [waitsFor, hd', hstage] at hnone
    simp [Ne.symm hkind] at hnone

theorem NobodyForgotten.step {s s' : SafeQueue α} {a : QueueAction α} {o : Unit}
    (h : s.NobodyForgotten) (htimely : s.Timely a) (hstep : s.step a = some (s', o)) :
    s'.NobodyForgotten := by
  cases step_kind hstep with
  | call op tmout_msecs =>
      intro isPush
      have hcount : ∀ isPush stage, stage ≠ .testing → count { s with
          calls := s.calls ++ [{ op := op, tmout_msecs := tmout_msecs }] } isPush stage =
            s.count isPush stage := by
        intro isPush stage hne
        rw [count, List.countP_append, List.countP_singleton, if_neg]
        · rfl
        · exact fun hc => hne (of_decide_eq_true hc).2.symm
      exact (h isPush).step (.leave le_rfl (hcount _ _ (by decide)).le (hcount _ _ (by decide))
        (hcount _ _ (by decide)))
  | blocked hi hready hblocked => exact nobodyForgotten_blocked h hi hready hblocked
  | @pushed i c item hi hready hop hroom =>
      refine nobodyForgotten_moved h hi hready ?_ ?_
      · rw [hop]
        show s.maxItems - s.queue.length = s.maxItems - (s.queue ++ [item]).length + 1
        rw [List.length_append, List.length_singleton]
        omega
      · rw [hop]
        exact Or.inl List.length_append
  | @popped i c item rest hi hready hop hqueue =>
      have hlen : s.queue.length = rest.length + 1 := by
        rw [hqueue, List.length_cons]
      refine nobodyForgotten_moved h hi hready ?_ ?_
      · rw [hop]
        exact hlen
      · -- there may be no room yet, if the limit was lowered
        rw [hop]
        show s.maxItems - rest.length = s.maxItems - s.queue.length + 1 ∨
          s.maxItems - rest.length = 0
        omega
  | @timeOut i c hi hstage =>
      exact nobodyForgotten_timeOut h hi (hstage.resolve_right (htimely c hi))
  | notified hi hpc hj hwaits => exact nobodyForgotten_notified h hi hpc hj hwaits
  | notifiedNobody hi hpc hnobody => exact nobodyForgotten_notifiedNobody h hi hpc hnobody
  | setMaxItems maxItems =>
      intro isPush
      cases isPush with
      | false => exact (h false).step (.leave le_rfl le_rfl rfl rfl)
      | true =>
          rcases htimely with hle | hzero
          · exact (h true).step (.leave (Nat.sub_le_sub_right hle _) le_rfl rfl rfl)
          · exact (h true).step (.nobody hzero)

/-- **No wakeup of the queue is lost.**  In every run in which no thread that was notified runs out
of time before it has the lock, and in which the limit is not raised while a `push` waits: whenever
calls of `pop` wait, for every item in the queue there is a thread that was notified or is going to
notify; and so for calls of `push`, and the room there is.  Once no such thread is left, the queue
is empty or no `pop` waits, and it is full or no `push` waits. -/
theorem wakeup_not_lost (maxItems : ℕ) (actions : List (QueueAction α))
    (htimely : Guarded step Timely { maxItems := maxItems } actions) :
    ∀ t ∈ transitions step { maxItems := maxItems } actions,
      t.after.NobodyForgotten ∧
        (t.after.count false .woken = 0 → t.after.count true .notifying = 0 →
          t.after.queue = [] ∨ t.after.count false .waiting = 0) ∧
        (t.after.count true .woken = 0 → t.after.count false .notifying = 0 →
          t.after.maxItems ≤ t.after.queue.length ∨ t.after.count true .waiting = 0) := by
  intro t ht
  have hinit : ({ maxItems := maxItems } : SafeQueue α).NobodyForgotten := fun isPush => Or.inl rfl
  have hserved := (htimely.invariant NobodyForgotten
    (fun s a s' o hs ha hstep => hs.step ha hstep) hinit t ht).2
  refine ⟨hserved, fun hwoken hnotifying => ?_, fun hwoken hnotifying => ?_⟩
  · exact ((hserved false).settled hwoken hnotifying).imp List.length_eq_zero_iff.mp id
  · exact ((hserved true).settled hwoken hnotifying).imp Nat.le_of_sub_eq_zero id

/-- A `pop` that waits is notified of the item of a `push`, and takes it. -/
def sampleCalls : List (QueueAction ℕ) :=
  [.call .pop 100, .call (.push 7) 100, .go 0, .go 1, .notify 1 (some 0), .go 0, .notify 0 none]

theorem items_in_order_sample : ∃ s, reach step { maxItems := 1 } sampleCalls = some s ∧
    s.InOrder ∧ s.popped = [7] ∧ s.queue.length ≤ 1 := by
  obtain ⟨horder, hbound⟩ := items_in_order 1 sampleCalls rfl
  exact ⟨_, rfl, horder, rfl, hbound 1 le_rfl (by simp [sampleCalls])⟩

theorem wakeup_not_lost_sample :
    ∃ t ∈ transitions step { maxItems := 1 } sampleCalls,
      t.input = .notify 1 (some 0) ∧ t.after.NobodyForgotten := by
  have htimely : Guarded step Timely { maxItems := 1 } sampleCalls := by
    intro t ht
    have hgo : ∀ u ∈ transitions step { maxItems := 1 } sampleCalls,
        (∃ op tmout_msecs, u.input = .call op tmout_msecs) ∨ (∃ i, u.input = .go i) ∨
          ∃ i chosen, u.input = .notify i chosen := by
      simp [sampleCalls, transitions, step, test, setPc, waitFor, notifyOne, waitsFor,
        CallPc.stage, QueueOp.isPush]
    rcases hgo t ht with ⟨op, tmout_msecs, hu⟩ | ⟨i, hu⟩ | ⟨i, chosen, hu⟩
    · rw [hu]
      trivial
    · rw [hu]
      trivial
    · rw [hu]
      trivial
  have hget : (transitions step { maxItems := 1 } sampleCalls)[4]? = some _ := rfl
  have hmem := List.mem_of_getElem? hget
  exact ⟨_, hmem, rfl, (wakeup_not_lost 1 sampleCalls htimely _ hmem).1⟩

end SafeQueue

end Mantids
