/-
# Wakeups

Threads wait on a condition variable until something is available.  A thread that makes something
available notifies one of those that wait, but after it has given up the lock, and the thread that
was notified has to get the lock first.

* `Condition` — how much is available, and how many threads are where;
* `Condition.Step` — what a thread can do;
* `Condition.Served` — somebody is on the way to what is available, or nobody waits for it;
* `Served.step` — every step keeps it.

The steps do not contain a thread that was notified and leaves without a look, and nothing becomes
available without a notification.
-/
import Mathlib.Tactic.Common

namespace Wakeups

/-- A condition variable. -/
structure Condition where
  available : ℕ
  /-- Threads that wait and were not notified. -/
  waiting : ℕ
  /-- Threads that were notified and do not have the lock yet. -/
  woken : ℕ
  /-- Threads that are going to notify. -/
  notifying : ℕ

namespace Condition

/-- A step of a thread, from one state of a condition variable to the next. -/
inductive Step (c c' : Condition) : Prop where
  /-- Something is made available; its notification is still to come. -/
  | supply (available : c'.available = c.available + 1) (waiting : c'.waiting = c.waiting)
      (woken : c'.woken = c.woken) (notifying : c'.notifying = c.notifying + 1)
  /-- Something is taken, by a thread that was notified or by another one. -/
  | take (available : c.available = c'.available + 1) (waiting : c'.waiting ≤ c.waiting)
      (woken : c.woken ≤ c'.woken + 1) (notifying : c'.notifying = c.notifying)
  /-- A thread finds nothing. -/
  | wait (available : c'.available = 0)
  | notify (available : c'.available = c.available) (waiting : c.waiting = c'.waiting + 1)
      (woken : c'.woken = c.woken + 1) (notifying : c.notifying = c'.notifying + 1)
  /-- Nobody waits. -/
  | nobody (waiting : c'.waiting = 0)
  /-- A thread stops waiting without a notification, or there is less than before. -/
  | leave (available : c'.available ≤ c.available) (waiting : c'.waiting ≤ c.waiting)
      (woken : c'.woken = c.woken) (notifying : c'.notifying = c.notifying)

/-- Nobody waits, or there are threads on the way to all that is available. -/
def Served (c : Condition) : Prop := c.waiting = 0 ∨ c.available ≤ c.woken + c.notifying

/-- **No wakeup is lost.** -/
theorem Served.step {c c' : Condition} (h : c.Served) (hstep : Step c c') : c'.Served := by
  unfold Served at h ⊢
  cases hstep with
  | supply available waiting woken notifying => omega
  | take available waiting woken notifying => omega
  | wait available => exact Or.inr (by omega)
  | notify available waiting woken notifying => omega
  | nobody waiting => exact Or.inl waiting
  | leave available waiting woken notifying => omega

/-- Where nobody is on the way, there is nothing available or nobody waits. -/
theorem Served.settled {c : Condition} (h : c.Served) (hwoken : c.woken = 0)
    (hnotifying : c.notifying = 0) : c.available = 0 ∨ c.waiting = 0 := by
  rcases h with hzero | hle
  · exact Or.inr hzero
  · rw [hwoken, hnotifying] at hle
    exact Or.inl (Nat.le_zero.mp hle)

end Condition

end Wakeups
