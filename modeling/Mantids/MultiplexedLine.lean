/-
# The window of a multiplexed line

`Socket_Multiplexed_Line::processLine` (`Net_Multiplexer/socket_multiplexed_line.cpp`) sends what it
reads from a socket as data messages, and counts a block in `remoteUnprocessedBytes` after it was
sent.  The messages of the peer about bytes it has read (`MPLX_LINE_BYTESREADEN`) arrive in another
thread and are subtracted there.

* `MultiplexedLine` — the sending loop, its counter, and the messages under way;
* `step` — a step of the loop, of the peer, or of the thread that receives;
* `Counted` — the condition: an acknowledgement is not larger than the counter;
* `window_kept_iff` — the bytes under way fit the window, and the counter comes back to zero exactly
  if every acknowledgement so far met the condition.

The peer acknowledges each data message once, with its length, in any order.
-/
import Mathlib
import Mantids.Lib.Run

namespace Mantids

open Run

/-- `MUX_LINE_SENDBUF`. -/
def muxLineSendBuf : ℕ := 8192

/-- Where `processLine` is. -/
inductive LinePc where
  /-- Before `getRemoteAvailableBytes`. -/
  | waiting
  | reading (avlen : ℕ)
  | sending (len : ℕ)
  /-- The block was sent and is not counted yet. -/
  | counting (len : ℕ)
  | left
deriving DecidableEq

/-- `Socket_Multiplexed_Line`, with the messages under way, by their lengths. -/
structure MultiplexedLine where
  remoteWindowSize : ℕ
  remoteUnprocessedBytes : ℕ := 0
  remoteUnprocessedFinished : Bool := false
  pc : LinePc := .waiting
  /-- Data messages that were sent and have not arrived. -/
  data : List ℕ := []
  /-- Data messages that the peer has not read yet. -/
  received : List ℕ := []
  /-- Acknowledgements that have not arrived. -/
  readen : List ℕ := []

/-- A step of one of the threads. -/
inductive LineAction where
  | getRemoteAvailableBytes
  /-- The socket gives so many bytes; none at its end. -/
  | partialRead (len : ℕ)
  | sendLineData (ok : Bool)
  | count
  /-- The next data message arrives. -/
  | arrive
  /-- The peer reads a message and acknowledges it. -/
  | sendReadenBytes (i : ℕ)
  /-- The next acknowledgement arrives. -/
  | updateReadenBytes
deriving DecidableEq

namespace MultiplexedLine

/-- A new line, whose peer has a window of this size. -/
def opened (remoteWindowSize : UInt32) : MultiplexedLine :=
  { remoteWindowSize := remoteWindowSize.toNat }

/-- `addProcessedBytes`. -/
def addProcessedBytes (s : MultiplexedLine) (value : ℕ) : MultiplexedLine :=
  if s.remoteUnprocessedFinished then { s with remoteUnprocessedBytes := 0 }
  else if s.remoteUnprocessedBytes < value then { s with remoteUnprocessedBytes := 0 }
  else { s with remoteUnprocessedBytes := s.remoteUnprocessedBytes - value }

/-- A step.  The output is not used. -/
def step (s : MultiplexedLine) : LineAction → Option (MultiplexedLine × Unit)
  | .getRemoteAvailableBytes =>
    -- It waits while the window is full.
    if s.pc = .waiting ∧ s.remoteUnprocessedBytes < s.remoteWindowSize then
      some ({ s with
        pc := .reading (min (s.remoteWindowSize - s.remoteUnprocessedBytes) muxLineSendBuf) }, ())
    else none
  | .partialRead len =>
    match s.pc with
    | .reading avlen =>
      if len = 0 then some ({ s with pc := .left }, ())
      else if len ≤ avlen then some ({ s with pc := .sending len }, ())
      else none
    | _ => none
  | .sendLineData ok =>
    match s.pc with
    | .sending len =>
      if ok then some ({ s with pc := .counting len, data := s.data ++ [len] }, ())
      else some ({ s with pc := .left }, ())
    | _ => none
  | .count =>
    match s.pc with
    | .counting len =>
      some ({ s with
        pc := .waiting
        remoteUnprocessedBytes := (s.remoteUnprocessedBytes + len) % 2 ^ 32 }, ())
    | _ => none
  | .arrive =>
    match s.data with
    | len :: data => some ({ s with data, received := s.received ++ [len] }, ())
    | [] => none
  | .sendReadenBytes i =>
    match s.received[i]? with
    | some len =>
      some ({ s with received := s.received.eraseIdx i, readen := s.readen ++ [len] }, ())
    | none => none
  | .updateReadenBytes =>
    match s.readen with
    | value :: readen => some ({ s with readen }.addProcessedBytes value, ())
    | [] => none

/-- The bytes that were sent and are not acknowledged. -/
def unacknowledged (s : MultiplexedLine) : ℕ := s.data.sum + s.received.sum + s.readen.sum

/-- The bytes that were sent and are not counted yet. -/
def uncounted (s : MultiplexedLine) : ℕ :=
  match s.pc with
  | .counting len => len
  | _ => 0

/-- The condition: an acknowledgement is not processed before the bytes it is for are counted, as
far as the counter shows. -/
def Counted (s : MultiplexedLine) : LineAction → Prop
  | .updateReadenBytes => ∀ value ∈ s.readen.head?, value ≤ s.remoteUnprocessedBytes
  | _ => True

/-! ## The invariant -/

/-- What the loop has claimed of the window fits it, in every place of the loop. -/
def Claimed (s : MultiplexedLine) : Prop :=
  match s.pc with
  | .reading avlen => s.remoteUnprocessedBytes + avlen ≤ s.remoteWindowSize
  | .sending len => s.remoteUnprocessedBytes + len ≤ s.remoteWindowSize
  | .counting len => s.remoteUnprocessedBytes + len ≤ s.remoteWindowSize
  | _ => s.remoteUnprocessedBytes ≤ s.remoteWindowSize

/-- The counter, with what is still to be counted, is never below what is under way. -/
structure Bounded (s : MultiplexedLine) : Prop where
  window : s.remoteWindowSize < 2 ^ 32
  unfinished : s.remoteUnprocessedFinished = false
  claimed : s.Claimed
  covers : s.unacknowledged ≤ s.remoteUnprocessedBytes + s.uncounted

/-- The counter is exact. -/
def Exact (s : MultiplexedLine) : Prop :=
  s.unacknowledged = s.remoteUnprocessedBytes + s.uncounted

theorem Bounded.le_window {s : MultiplexedLine} (h : s.Bounded) :
    s.remoteUnprocessedBytes + s.uncounted ≤ s.remoteWindowSize := by
  have hclaimed := h.claimed
  unfold Claimed at hclaimed
  unfold uncounted
  cases hpc : s.pc with
  | counting len => simpa only [hpc] using hclaimed
  | waiting => simpa only [hpc, Nat.add_zero] using hclaimed
  | left => simpa only [hpc, Nat.add_zero] using hclaimed
  | reading avlen =>
      simp only [hpc] at hclaimed ⊢
      omega
  | sending len =>
      simp only [hpc] at hclaimed ⊢
      omega

theorem bounded_opened (remoteWindowSize : UInt32) : (opened remoteWindowSize).Bounded := by
  constructor
  · exact remoteWindowSize.toNat_lt
  · rfl
  · exact Nat.zero_le _
  · exact le_refl 0

/-- A step of the loop alone, in which nothing is sent and nothing is counted. -/
theorem Bounded.move {s : MultiplexedLine} (h : s.Bounded) {pc : LinePc}
    (hold : s.uncounted = 0) (hnew : uncounted { s with pc } = 0)
    (hclaimed : Claimed { s with pc }) :
    Bounded { s with pc } ∧ (Exact { s with pc } ↔ s.Exact ∧ True) := by
  have hcovers := h.covers
  rw [hold] at hcovers
  constructor
  · refine ⟨h.window, h.unfinished, hclaimed, ?_⟩
    rw [hnew]
    exact hcovers
  · unfold Exact
    rw [hold, hnew, and_true]
    rfl

/-- The messages that move on stay unacknowledged. -/
theorem Bounded.messages {s : MultiplexedLine} (h : s.Bounded) {data received readen : List ℕ}
    (hsame : data.sum + received.sum + readen.sum = s.unacknowledged) :
    Bounded { s with data, received, readen } ∧
      (Exact { s with data, received, readen } ↔ s.Exact ∧ True) := by
  have hun : unacknowledged { s with data, received, readen } = s.unacknowledged := hsame
  constructor
  · refine ⟨h.window, h.unfinished, h.claimed, ?_⟩
    rw [hun]
    exact h.covers
  · unfold Exact
    rw [hun, and_true]
    rfl

/-- An acknowledgement arrives.  It takes the same off the counter, unless the counter is smaller:
then the counter keeps too much, once and for all. -/
theorem Bounded.acknowledged {s : MultiplexedLine} (h : s.Bounded) {value : ℕ} {readen : List ℕ}
    (hreaden : s.readen = value :: readen) :
    Bounded ({ s with readen }.addProcessedBytes value) ∧
      (Exact ({ s with readen }.addProcessedBytes value) ↔
        s.Exact ∧ value ≤ s.remoteUnprocessedBytes) := by
  have hcovers := h.covers
  have hclaimed := h.claimed
  have hun : s.unacknowledged = s.data.sum + s.received.sum + (value + readen.sum) := by
    rw [unacknowledged, hreaden, List.sum_cons]
  rw [hun] at hcovers
  have hopen : { s with readen }.remoteUnprocessedFinished = false := h.unfinished
  unfold addProcessedBytes
  rw [if_neg (by rw [hopen]; exact Bool.false_ne_true)]
  by_cases hlt : s.remoteUnprocessedBytes < value
  · rw [if_pos hlt]
    refine ⟨⟨h.window, h.unfinished, ?_, ?_⟩, ?_⟩
    · unfold Claimed at hclaimed ⊢
      cases hpc : s.pc <;> simp only [hpc] at hclaimed ⊢ <;> omega
    · show s.data.sum + s.received.sum + readen.sum ≤ 0 + s.uncounted
      omega
    · refine iff_of_false ?_ (fun hboth => absurd hboth.2 (not_le.mpr hlt))
      show s.data.sum + s.received.sum + readen.sum ≠ 0 + s.uncounted
      omega
  · rw [if_neg hlt]
    have hle := not_lt.mp hlt
    refine ⟨⟨h.window, h.unfinished, ?_, ?_⟩, ?_⟩
    · unfold Claimed at hclaimed ⊢
      cases hpc : s.pc <;> simp only [hpc] at hclaimed ⊢ <;> omega
    · show s.data.sum + s.received.sum + readen.sum ≤
        (s.remoteUnprocessedBytes - value) + s.uncounted
      omega
    · unfold Exact
      rw [hun, and_iff_left hle]
      show s.data.sum + s.received.sum + readen.sum =
        (s.remoteUnprocessedBytes - value) + s.uncounted ↔ _
      constructor
      · intro heq
        omega
      · intro heq
        omega

/-- **What a step keeps.**  The counter stays exact exactly if the step meets the condition. -/
theorem Bounded.step {s s' : MultiplexedLine} {a : LineAction} {o : Unit} (h : s.Bounded)
    (hstep : s.step a = some (s', o)) : s'.Bounded ∧ (s'.Exact ↔ s.Exact ∧ s.Counted a) := by
  have hclaimed := h.claimed
  unfold Claimed at hclaimed
  cases a with
  | getRemoteAvailableBytes =>
      by_cases hg : s.pc = .waiting ∧ s.remoteUnprocessedBytes < s.remoteWindowSize
      · rw [MultiplexedLine.step, if_pos hg] at hstep
        cases hstep
        refine h.move (by rw [uncounted, hg.1]) rfl ?_
        show s.remoteUnprocessedBytes + min _ _ ≤ s.remoteWindowSize
        omega
      · rw [MultiplexedLine.step, if_neg hg] at hstep
        cases hstep
  | partialRead len =>
      cases hpc : s.pc with
      | reading avlen =>
          simp only [hpc] at hclaimed
          simp only [MultiplexedLine.step, hpc] at hstep
          have hold : s.uncounted = 0 := by rw [uncounted, hpc]
          by_cases hend : len = 0
          · rw [if_pos hend] at hstep
            cases hstep
            refine h.move hold rfl ?_
            show s.remoteUnprocessedBytes ≤ s.remoteWindowSize
            omega
          · rw [if_neg hend] at hstep
            by_cases hlen : len ≤ avlen
            · rw [if_pos hlen] at hstep
              cases hstep
              refine h.move hold rfl ?_
              show s.remoteUnprocessedBytes + len ≤ s.remoteWindowSize
              omega
            · rw [if_neg hlen] at hstep
              cases hstep
      | waiting => simp [MultiplexedLine.step, hpc] at hstep
      | sending len' => simp [MultiplexedLine.step, hpc] at hstep
      | counting len' => simp [MultiplexedLine.step, hpc] at hstep
      | left => simp [MultiplexedLine.step, hpc] at hstep
  | sendLineData ok =>
      cases hpc : s.pc with
      | sending len =>
          simp only [hpc] at hclaimed
          simp only [MultiplexedLine.step, hpc] at hstep
          have hold : s.uncounted = 0 := by rw [uncounted, hpc]
          cases ok with
          | true =>
              rw [if_pos rfl] at hstep
              cases hstep
              -- The block is under way, and still to be counted.
              have hun : unacknowledged { s with pc := .counting len, data := s.data ++ [len] } =
                  s.unacknowledged + len := by
                simp only [unacknowledged, List.sum_append, List.sum_singleton]
                omega
              have hcovers := h.covers
              rw [hold] at hcovers
              refine ⟨⟨h.window, h.unfinished, hclaimed, ?_⟩, ?_⟩
              · rw [hun]
                show s.unacknowledged + len ≤ s.remoteUnprocessedBytes + len
                omega
              · unfold Exact
                rw [hun, hold]
                show s.unacknowledged + len = s.remoteUnprocessedBytes + len ↔ _ ∧ True
                rw [and_true]
                omega
          | false =>
              rw [if_neg Bool.false_ne_true] at hstep
              cases hstep
              refine h.move hold rfl ?_
              show s.remoteUnprocessedBytes ≤ s.remoteWindowSize
              omega
      | waiting => simp [MultiplexedLine.step, hpc] at hstep
      | reading avlen => simp [MultiplexedLine.step, hpc] at hstep
      | counting len => simp [MultiplexedLine.step, hpc] at hstep
      | left => simp [MultiplexedLine.step, hpc] at hstep
  | count =>
      cases hpc : s.pc with
      | counting len =>
          simp only [hpc] at hclaimed
          simp only [MultiplexedLine.step, hpc] at hstep
          cases hstep
          have hwindow := h.window
          have hcovers := h.covers
          have hun : s.uncounted = len := by rw [uncounted, hpc]
          have hmod : (s.remoteUnprocessedBytes + len) % 2 ^ 32 = s.remoteUnprocessedBytes + len :=
            Nat.mod_eq_of_lt (by omega)
          rw [hun] at hcovers
          rw [hmod]
          refine ⟨⟨h.window, h.unfinished, hclaimed, hcovers⟩, ?_⟩
          unfold Exact
          rw [hun]
          exact (and_iff_left trivial).symm
      | waiting => simp [MultiplexedLine.step, hpc] at hstep
      | reading avlen => simp [MultiplexedLine.step, hpc] at hstep
      | sending len => simp [MultiplexedLine.step, hpc] at hstep
      | left => simp [MultiplexedLine.step, hpc] at hstep
  | arrive =>
      cases hdata : s.data with
      | nil => simp [MultiplexedLine.step, hdata] at hstep
      | cons len data =>
          simp only [MultiplexedLine.step, hdata] at hstep
          cases hstep
          apply h.messages
          simp only [unacknowledged, hdata, List.sum_append, List.sum_cons, List.sum_nil]
          omega
  | sendReadenBytes i =>
      cases hreceived : s.received[i]? with
      | none => simp [MultiplexedLine.step, hreceived] at hstep
      | some len =>
          simp only [MultiplexedLine.step, hreceived] at hstep
          cases hstep
          apply h.messages
          obtain ⟨hlt, rfl⟩ := List.getElem?_eq_some_iff.mp hreceived
          have hperm := (List.getElem_cons_eraseIdx_perm hlt).sum_eq
          rw [List.sum_cons] at hperm
          rw [unacknowledged, List.sum_append, List.sum_singleton]
          omega
  | updateReadenBytes =>
      cases hreaden : s.readen with
      | nil => simp [MultiplexedLine.step, hreaden] at hstep
      | cons value readen =>
          simp only [MultiplexedLine.step, hreaden] at hstep
          cases hstep
          have hcondition : s.Counted .updateReadenBytes ↔ value ≤ s.remoteUnprocessedBytes := by
            simp [Counted, hreaden]
          rw [hcondition]
          exact h.acknowledged hreaden

/-! ## Runs -/

theorem step_remoteWindowSize {s s' : MultiplexedLine} {a : LineAction} {o : Unit}
    (hstep : s.step a = some (s', o)) : s'.remoteWindowSize = s.remoteWindowSize := by
  have hadd : ∀ (s : MultiplexedLine) value,
      (s.addProcessedBytes value).remoteWindowSize = s.remoteWindowSize := by
    intro s value
    unfold addProcessedBytes
    split
    · rfl
    · split <;> rfl
  unfold MultiplexedLine.step at hstep
  split at hstep
  all_goals (repeat' split at hstep)
  all_goals first
    | cases hstep; rfl
    | cases hstep; exact hadd _ _
    | cases hstep

/-- **The window is kept, and comes back if nothing is acknowledged too early.**  In every run of
the loop, the peer and the receiving thread: the bytes that were sent and are not acknowledged never
exceed the window, and whenever there are none, the counter is zero, with nothing left to be
counted, exactly if no acknowledgement so far was larger than the counter. -/
theorem window_kept_iff (remoteWindowSize : UInt32) (actions : List LineAction)
    (pre post : List (Transition MultiplexedLine LineAction Unit))
    (t : Transition MultiplexedLine LineAction Unit)
    (hrun : transitions step (opened remoteWindowSize) actions = pre ++ t :: post) :
    t.after.unacknowledged ≤ remoteWindowSize.toNat ∧
    (t.after.unacknowledged = 0 →
      ((t.after.remoteUnprocessedBytes = 0 ∧ t.after.uncounted = 0) ↔
        ∀ u ∈ pre ++ [t], u.before.Counted u.input)) := by
  have hinv := invariant_past
    (fun past s => s.Bounded ∧ s.remoteWindowSize = remoteWindowSize.toNat ∧
      (s.Exact ↔ ∀ u ∈ past, u.before.Counted u.input))
    (fun past s a s' o h hstep => by
      obtain ⟨hbounded, hwindow, hexact⟩ := h
      obtain ⟨hbounded', hexact'⟩ := hbounded.step hstep
      refine ⟨hbounded', (step_remoteWindowSize hstep).trans hwindow, ?_⟩
      rw [hexact', hexact]
      simp [or_imp, forall_and])
    [] ⟨bounded_opened remoteWindowSize, rfl, iff_of_true rfl (by simp)⟩ hrun
  rw [List.nil_append] at hinv
  obtain ⟨hbounded, hwindow, hexact⟩ := hinv.2
  constructor
  · exact hbounded.covers.trans (hbounded.le_window.trans hwindow.le)
  · intro hzero
    rw [← hexact, Exact, hzero]
    omega

/-- A block is sent, counted, read and acknowledged. -/
def countedInTime : List LineAction :=
  [.getRemoteAvailableBytes, .partialRead 5, .sendLineData true, .count, .arrive,
    .sendReadenBytes 0, .updateReadenBytes]

theorem window_kept_iff_block :
    ∃ t ∈ transitions step (opened 10) countedInTime, t.after.unacknowledged = 0 ∧
      t.after.remoteUnprocessedBytes = 0 ∧ t.after.uncounted = 0 := by
  have hrun : transitions step (opened 10) countedInTime = [_, _, _, _, _, _] ++ _ :: [] := rfl
  refine ⟨_, by rw [hrun]; exact List.mem_append_right _ List.mem_cons_self, rfl, ?_⟩
  refine ((window_kept_iff 10 countedInTime _ _ _ hrun).2 rfl).mpr ?_
  intro u hu
  simp only [List.cons_append, List.nil_append, List.mem_cons, List.not_mem_nil, or_false] at hu
  obtain rfl | rfl | rfl | rfl | rfl | rfl | rfl := hu
  · trivial
  · trivial
  · trivial
  · trivial
  · trivial
  · trivial
  · intro value hvalue
    cases hvalue
    decide

/-! ## An acknowledgement that is too early -/

/-- The peer acknowledges a block before the loop has counted it. -/
def countedTooLate : List LineAction :=
  [.getRemoteAvailableBytes, .partialRead 5, .sendLineData true, .arrive, .sendReadenBytes 0,
    .updateReadenBytes, .count]

/-- The acknowledgement finds nothing to subtract, and then the block is counted for ever. -/
theorem window_lost :
    ∃ t ∈ transitions step (opened 10) countedTooLate, t.after.unacknowledged = 0 ∧
      t.after.pc = .waiting ∧ t.after.remoteUnprocessedBytes = 5 := by
  have hmem := List.getElem_mem (l := transitions step (opened 10) countedTooLate) (n := 6)
    (by decide)
  exact ⟨_, hmem, rfl, rfl, rfl⟩

end MultiplexedLine

end Mantids
