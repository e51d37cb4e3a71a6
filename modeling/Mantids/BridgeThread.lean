/-
# Bridges of chunks and pings

A `Bridge_Thread` (`Net_Sockets/streams_bridge_thread.cpp`) in chunked mode reads blocks from one
socket and sends each of them over another one as its length, in two bytes, and its bytes; the
bridge at the other end takes the lengths off again.  From time to time a thread sends a ping, which
is the length zero alone.

* `Bridges` — the sending end, the connection and the receiving end;
* `step` — a read or a write of one piece, or what other threads do in between;
* `Carries` — the blocks in the bytes that are on the way;
* `bridge_transparent` — what comes out is what went in.

`writeFull` and `readFull` go piece by piece, so that a thread may stop anywhere in a frame.  The
lock `mt_fwd` is held over all pieces of a frame or of a ping.
-/
import Mantids.Lib.BigEndian
import Mathlib.Data.List.Basic

namespace Mantids

open BigEndian

namespace BridgeThread

/-! ## The two ends -/

/-- What a thread that holds `mt_fwd` has still to write: the rest of a `writeFull`, and the
`writeFull` behind it. -/
structure Writing where
  rest : List UInt8
  next : Option (List UInt8) := none

/-- The threads that take `mt_fwd`. -/
inductive Holder where
  | processPipe
  | sendPing
deriving DecidableEq

/-- The forward thread: `processPeer(SIDE_FORWARD)`. -/
inductive Forward where
  /-- In `partialRead` of its source. -/
  | reading
  /-- At `mt_fwd`, with the block that was read. -/
  | waiting (curBlock : List UInt8)
  /-- Behind `mt_fwd`. -/
  | writing
  | ended

/-- The backward thread: `processPeer(SIDE_BACKWARD)`. -/
inductive Backward where
  /-- In `readU`, with the bytes that have arrived. -/
  | readSize (received : List UInt8)
  /-- In `readFull` of a block. -/
  | readBlock (bytesReceived : ℕ) (received : List UInt8)
  /-- In `writeFull` to its source. -/
  | writing (rest : List UInt8)
  /-- A block was written behind the end of `m_blockBwd`. -/
  | outOfBounds
  | ended
deriving DecidableEq

/-- A sending end, a connection and a receiving end. -/
structure Bridges where
  /-- What the forward thread has read from its source. -/
  read : List UInt8 := []
  forward : Forward := .reading
  /-- `mt_fwd`. -/
  lock : Option (Holder × Writing) := none
  /-- The connection was shut down at the sending end: nothing more is accepted. -/
  isShutdown : Bool := false
  /-- The bytes on the connection. -/
  transit : List UInt8 := []
  backward : Backward := .readSize []
  /-- `m_terminated` of the receiving end. -/
  terminated : Bool := false
  /-- What the backward thread has written to its source. -/
  delivered : List UInt8 := []

/-- What happens next.  The numbers are the bytes that a partial read or write comes to; zero is an
error or the end. -/
inductive Action where
  | read (data : List UInt8)
  | lock
  | ping
  | write (sentBytes : ℕ)
  | shutdown
  | receive (receivedBytes : ℕ)
  | deliver (sentBytes : ℕ)
  | terminate

namespace Bridges

variable (blockSize : ℕ)

/-- A thread at the end of its writes lets go of the lock. -/
def unlock (s : Bridges) (holder : Holder) (forward : Forward) : Bridges :=
  match holder with
  | .processPipe => { s with lock := none, forward := forward }
  | .sendPing => { s with lock := none }

/-- What is accepted of a piece of at most 4096 bytes. -/
def accepted (s : Bridges) (w : Writing) (sentBytes : ℕ) : ℕ :=
  if s.isShutdown then 0 else min sentBytes (w.rest.take 4096).length

/-- The bytes of a piece were accepted: what comes next of the `writeFull`, or behind it. -/
def sent (s : Bridges) (holder : Holder) (w : Writing) (n : ℕ) : Bridges :=
  let s := { s with transit := s.transit ++ w.rest.take n }
  if w.rest.drop n ≠ [] then { s with lock := some (holder, { w with rest := w.rest.drop n }) }
  else
    match w.next with
    | some data => { s with lock := some (holder, { rest := data }) }
    | none => s.unlock holder .reading

/-- A piece of a `writeFull` to the connection; an error shuts it down. -/
def write (s : Bridges) (sentBytes : ℕ) : Bridges :=
  match s.lock with
  | none => s
  | some (holder, w) =>
    if s.accepted w sentBytes = 0 then unlock { s with isShutdown := true } holder .ended
    else s.sent holder w (s.accepted w sentBytes)

/-- `readU` is at its end: a ping, or a block. -/
def sizeReceived (s : Bridges) (bytesReceived : ℕ) : Backward :=
  if bytesReceived = 0 then
    if s.terminated then .ended else .readSize []
  else if blockSize < bytesReceived then .outOfBounds
  else .readBlock bytesReceived []

/-- A piece of a `readFull` from the connection. -/
def receive (s : Bridges) (receivedBytes : ℕ) : Bridges :=
  match s.backward with
  | .readSize received =>
    if receivedBytes = 0 then { s with backward := .ended }
    else
      let n := min receivedBytes (2 - received.length)
      let received := received ++ s.transit.take n
      { s with
        transit := s.transit.drop n
        backward :=
          if received.length < 2 then .readSize received
          else s.sizeReceived blockSize (decode received) }
  | .readBlock bytesReceived received =>
    if receivedBytes = 0 then { s with backward := .ended }
    else
      let n := min receivedBytes (min 4096 (bytesReceived - received.length))
      let received := received ++ s.transit.take n
      { s with
        transit := s.transit.drop n
        backward :=
          if received.length < bytesReceived then .readBlock bytesReceived received
          else .writing received }
  | _ => s

/-- A piece of a `writeFull` to the source of the receiving end. -/
def deliver (s : Bridges) (sentBytes : ℕ) : Bridges :=
  match s.backward with
  | .writing rest =>
    let n := min sentBytes (rest.take 4096).length
    if n = 0 then { s with backward := .ended }
    else
      { s with
        delivered := s.delivered ++ rest.take n
        backward := if rest.drop n ≠ [] then .writing (rest.drop n) else .readSize [] }
  | _ => s

/-- One action, if the thread that it belongs to is ready for it. -/
def step (s : Bridges) : Action → Bridges
  | .read data =>
    match s.forward with
    | .reading =>
      if data.take blockSize = [] then { s with forward := .ended }
      else
        { s with read := s.read ++ data.take blockSize, forward := .waiting (data.take blockSize) }
    | _ => s
  | .lock =>
    match s.forward, s.lock with
    | .waiting curBlock, none =>
      { s with
        forward := .writing
        lock := some (.processPipe, { rest := encode 2 curBlock.length, next := some curBlock }) }
    | _, _ => s
  | .ping =>
    match s.lock with
    | none => { s with lock := some (.sendPing, { rest := encode 2 0 }) }
    | some _ => s
  | .write sentBytes => s.write sentBytes
  | .shutdown => { s with isShutdown := true }
  | .receive receivedBytes => s.receive blockSize receivedBytes
  | .deliver sentBytes => s.deliver sentBytes
  | .terminate => { s with terminated := true }

/-- A run of both ends. -/
def run (actions : List Action) : Bridges := actions.foldl (step blockSize) {}

end Bridges

/-! ## What is on the way -/

/-- A block on the connection. -/
def frame (block : List UInt8) : List UInt8 := encode 2 block.length ++ block

/-- The blocks that the backward thread is going to deliver from the bytes that arrive. -/
inductive Carries (blockSize : ℕ) : Backward → List UInt8 → List UInt8 → Prop
  | readSize {received bytes : List UInt8} {blocks : List (List UInt8)} (hlt : received.length < 2)
      (hblocks : ∀ b ∈ blocks, b.length ≤ blockSize)
      (hbytes : received ++ bytes = blocks.flatMap frame) :
      Carries blockSize (.readSize received) bytes blocks.flatten
  | readBlock {block received bytes : List UInt8} {blocks : List (List UInt8)}
      (hlt : received.length < block.length) (hblocks : ∀ b ∈ blocks, b.length ≤ blockSize)
      (hbytes : received ++ bytes = block ++ blocks.flatMap frame) :
      Carries blockSize (.readBlock block.length received) bytes (block ++ blocks.flatten)
  | writing {rest bytes : List UInt8} {blocks : List (List UInt8)}
      (hblocks : ∀ b ∈ blocks, b.length ≤ blockSize) (hbytes : bytes = blocks.flatMap frame) :
      Carries blockSize (.writing rest) bytes (rest ++ blocks.flatten)

/-- One more frame on the way. -/
theorem Carries.frame {blockSize : ℕ} {b : Backward} {bytes data : List UInt8}
    (h : Carries blockSize b bytes data) {block : List UInt8} (hblock : block.length ≤ blockSize) :
    Carries blockSize b (bytes ++ frame block) (data ++ block) := by
  have hall : ∀ {blocks : List (List UInt8)}, (∀ b ∈ blocks, b.length ≤ blockSize) →
      ∀ b ∈ blocks ++ [block], b.length ≤ blockSize := by
    intro blocks hblocks b hb
    rcases List.mem_append.mp hb with hb | hb
    · exact hblocks b hb
    · rw [List.mem_singleton.mp hb]
      exact hblock
  have hflat : ∀ blocks : List (List UInt8),
      (blocks ++ [block]).flatten = blocks.flatten ++ block := by
    intro blocks
    rw [List.flatten_append, List.flatten_singleton]
  have hmap : ∀ blocks : List (List UInt8), (blocks ++ [block]).flatMap BridgeThread.frame =
      blocks.flatMap BridgeThread.frame ++ BridgeThread.frame block := by
    intro blocks
    rw [List.flatMap_append, List.flatMap_singleton]
  cases h with
  | readSize hlt hblocks hbytes =>
      rw [← hflat]
      refine .readSize hlt (hall hblocks) ?_
      rw [hmap, ← hbytes, List.append_assoc]
  | readBlock hlt hblocks hbytes =>
      rw [List.append_assoc, ← hflat]
      refine .readBlock hlt (hall hblocks) ?_
      rw [hmap, ← List.append_assoc, ← List.append_assoc, hbytes]
  | writing hblocks hbytes =>
      rw [List.append_assoc, ← hflat]
      refine .writing (hall hblocks) ?_
      rw [hmap, hbytes]

/-- A block with a length that the backward thread can read. -/
theorem decode_frame {blockSize : ℕ} (h16 : blockSize < 2 ^ 16) {block : List UInt8}
    (hblock : block.length ≤ blockSize) : decode (encode 2 block.length) = block.length :=
  decode_encode (by omega)

/-- What the backward thread has read of a length and a block. -/
theorem Carries.sizeReceived {blockSize : ℕ} (h16 : blockSize < 2 ^ 16) {s : Bridges}
    {received bytes : List UInt8} {blocks : List (List UInt8)} (hlen : received.length = 2)
    (hblocks : ∀ b ∈ blocks, b.length ≤ blockSize)
    (hbytes : received ++ bytes = blocks.flatMap BridgeThread.frame) :
    s.sizeReceived blockSize (decode received) = .ended ∨
      Carries blockSize (s.sizeReceived blockSize (decode received)) bytes blocks.flatten := by
  cases blocks with
  | nil =>
      rw [List.flatMap_nil, List.append_eq_nil_iff] at hbytes
      rw [hbytes.1] at hlen
      cases hlen
  | cons block blocks =>
      have hblock := hblocks block (List.mem_cons_self ..)
      rw [List.flatMap_cons, BridgeThread.frame, List.append_assoc] at hbytes
      obtain ⟨rfl, hrest⟩ := List.append_inj hbytes (by rw [hlen, length_encode])
      have hothers : ∀ b ∈ blocks, b.length ≤ blockSize :=
        fun b hb => hblocks b (List.mem_cons_of_mem block hb)
      rw [decode_frame h16 hblock, Bridges.sizeReceived]
      split
      · rename_i hzero
        rw [List.length_eq_zero_iff] at hzero
        subst hzero
        split
        · exact Or.inl rfl
        · rw [List.flatten_cons, List.nil_append]
          exact Or.inr (.readSize (by decide) hothers hrest)
      · rename_i hpos
        rw [if_neg (by omega), List.flatten_cons]
        refine Or.inr (.readBlock ?_ hothers hrest)
        rw [List.length_nil]
        omega

/-- The forward thread has read this, and it is not in a frame. -/
def Forward.block : Forward → List UInt8
  | .waiting curBlock => curBlock
  | _ => []

/-- The bytes that the thread behind `mt_fwd` has still to write. -/
def Bridges.unsent (s : Bridges) : List UInt8 :=
  match s.lock with
  | none => []
  | some (_, w) => w.rest ++ w.next.getD []

/-! ## Steps -/

/-- What is true at any time: what was read is what was delivered, the blocks on the way and what is
not on the way yet.  As long as the connection is open, `unsent` and `tail` are what the threads of
the sending end hold. -/
structure Sound (blockSize : ℕ) (s : Bridges) (unsent data tail : List UInt8) : Prop where
  read : s.read = s.delivered ++ data ++ tail
  carries : s.backward = .ended ∨ Carries blockSize s.backward (s.transit ++ unsent) data
  block_le : s.forward.block.length ≤ blockSize
  holder : ∀ w, s.lock = some (.processPipe, w) → s.forward = .writing
  unsent_eq : s.isShutdown = false → unsent = s.unsent
  tail_eq : s.isShutdown = false → tail = s.forward.block

/-- The same, of blocks that need not be told. -/
def Transparent (blockSize : ℕ) (s : Bridges) : Prop :=
  ∃ unsent data tail, Sound blockSize s unsent data tail

variable {blockSize : ℕ} {s : Bridges} {unsent data tail : List UInt8}

theorem sound_read (h : Sound blockSize s unsent data tail) (block : List UInt8) :
    Transparent blockSize (s.step blockSize (.read block)) := by
  simp only [Bridges.step]
  cases hforward : s.forward with
  | reading =>
      have hholder : ∀ w, s.lock ≠ some (.processPipe, w) := by
        intro w hw
        have hwriting := h.holder w hw
        rw [hforward] at hwriting
        cases hwriting
      have htail : s.isShutdown = false → tail = [] := fun hopen => by
        rw [h.tail_eq hopen, hforward]
        rfl
      simp only
      split
      · exact ⟨unsent, data, tail, h.read, h.carries, Nat.zero_le _,
          fun w hw => absurd hw (hholder w), h.unsent_eq, htail⟩
      · refine ⟨unsent, data, tail ++ block.take blockSize, ?_, h.carries, List.length_take_le _ _,
          fun w hw => absurd hw (hholder w), h.unsent_eq, fun hopen => ?_⟩
        · rw [h.read, List.append_assoc]
        · rw [htail hopen]
          rfl
  | waiting curBlock => exact ⟨unsent, data, tail, h⟩
  | writing => exact ⟨unsent, data, tail, h⟩
  | ended => exact ⟨unsent, data, tail, h⟩

theorem sound_lock (h : Sound blockSize s unsent data tail) :
    Transparent blockSize (s.step blockSize .lock) := by
  simp only [Bridges.step]
  split
  rotate_left
  · exact ⟨unsent, data, tail, h⟩
  rename_i curBlock hforward hlock
  have hle : curBlock.length ≤ blockSize := by
    have hblock := h.block_le
    rwa [hforward] at hblock
  cases hshut : s.isShutdown with
  | true =>
      refine ⟨unsent, data, tail, h.read, h.carries, Nat.zero_le _, fun _ _ => rfl, ?_, ?_⟩
      · intro hopen
        cases hopen
      · intro hopen
        cases hopen
  | false =>
      have hunsent : unsent = [] := by rw [h.unsent_eq hshut, Bridges.unsent, hlock]
      have htail : tail = curBlock := by rw [h.tail_eq hshut, hforward, Forward.block]
      refine ⟨frame curBlock, data ++ curBlock, [], ?_, ?_, Nat.zero_le _, fun _ _ => rfl,
        fun _ => rfl, fun _ => rfl⟩
      · rw [h.read, htail, List.append_nil, List.append_assoc]
      · refine h.carries.imp id fun hcarries => ?_
        rw [hunsent, List.append_nil] at hcarries
        exact hcarries.frame hle

theorem sound_ping (h : Sound blockSize s unsent data tail) :
    Transparent blockSize (s.step blockSize .ping) := by
  simp only [Bridges.step]
  cases hlock : s.lock with
  | some w => exact ⟨unsent, data, tail, h⟩
  | none =>
      have hholder : ∀ w, some (Holder.sendPing, ({ rest := encode 2 0 } : Writing)) =
          some (.processPipe, w) → s.forward = .writing := by
        intro w hw
        cases hw
      cases hshut : s.isShutdown with
      | true =>
          refine ⟨unsent, data, tail, h.read, h.carries, h.block_le, hholder, ?_, ?_⟩
          · intro hopen
            cases hopen
          · intro hopen
            cases hopen
      | false =>
          have hunsent : unsent = [] := by rw [h.unsent_eq hshut, Bridges.unsent, hlock]
          refine ⟨frame [], data, tail, h.read, ?_, h.block_le, hholder, fun _ => rfl,
            fun _ => h.tail_eq hshut⟩
          refine h.carries.imp id fun hcarries => ?_
          rw [hunsent, List.append_nil] at hcarries
          have hle : ([] : List UInt8).length ≤ blockSize := Nat.zero_le _
          have hframe := hcarries.frame hle
          rwa [List.append_nil] at hframe

/-- A thread that has written everything, or failed, lets go of the lock. -/
theorem sound_unlock {holder : Holder} {w : Writing} (hlock : s.lock = some (holder, w))
    (h : Sound blockSize s unsent data tail) (forward : Forward) (hforward : forward.block = [])
    (hwritten : s.isShutdown = false → s.unsent = []) :
    Sound blockSize (s.unlock holder forward) unsent data tail := by
  have hnone : s.isShutdown = false → unsent = [] := fun hopen =>
    (h.unsent_eq hopen).trans (hwritten hopen)
  cases holder with
  | processPipe =>
      have hwriting := h.holder w hlock
      refine ⟨h.read, h.carries, ?_, ?_, hnone, fun hopen => ?_⟩
      · show forward.block.length ≤ blockSize
        rw [hforward]
        exact Nat.zero_le _
      · intro v hv
        cases hv
      · rw [h.tail_eq hopen, hwriting]
        exact hforward.symm
  | sendPing =>
      refine ⟨h.read, h.carries, h.block_le, ?_, hnone, h.tail_eq⟩
      intro v hv
      cases hv

/-- Bytes of a frame that are accepted. -/
theorem sound_sent {holder : Holder} {w : Writing} (hlock : s.lock = some (holder, w))
    (hopen : s.isShutdown = false) (h : Sound blockSize s unsent data tail) (n : ℕ) :
    Sound blockSize (s.sent holder w n) (w.rest.drop n ++ w.next.getD []) data tail := by
  have hunsent : unsent = w.rest.take n ++ (w.rest.drop n ++ w.next.getD []) := by
    rw [h.unsent_eq hopen, Bridges.unsent, hlock, ← List.append_assoc, List.take_append_drop]
  have hcarries := h.carries
  rw [hunsent, ← List.append_assoc] at hcarries
  have hholder : ∀ v v' : Writing, some (holder, v) = some (.processPipe, v') →
      s.forward = .writing := by
    intro v v' hv
    cases hv
    exact h.holder w hlock
  rw [Bridges.sent]
  by_cases hrest : w.rest.drop n = []
  · rw [hrest, List.nil_append] at hcarries ⊢
    simp only [ne_eq, not_true_eq_false, if_false]
    cases hnext : w.next with
    | some next =>
        rw [hnext] at hcarries
        exact ⟨h.read, hcarries, h.block_le, hholder _, fun _ => (List.append_nil next).symm,
          h.tail_eq⟩
    | none =>
        rw [hnext] at hcarries
        have hunlock : ({ s with transit := s.transit ++ w.rest.take n } : Bridges).unlock holder
            .reading = ({ s with
              transit := s.transit ++ w.rest.take n
              lock := some (holder, { rest := [] }) } : Bridges).unlock holder .reading := by
          cases holder <;> rfl
        simp only [hunlock]
        exact sound_unlock (s := { s with
            transit := s.transit ++ w.rest.take n
            lock := some (holder, { rest := [] }) }) rfl
          ⟨h.read, hcarries, h.block_le, hholder _, fun _ => rfl, h.tail_eq⟩ _ rfl fun _ => rfl
  · rw [if_pos hrest]
    exact ⟨h.read, hcarries, h.block_le, hholder _, fun _ => rfl, h.tail_eq⟩

theorem sound_write (h : Sound blockSize s unsent data tail) (sentBytes : ℕ) :
    Transparent blockSize (s.step blockSize (.write sentBytes)) := by
  simp only [Bridges.step, Bridges.write]
  cases hlock : s.lock with
  | none => exact ⟨unsent, data, tail, h⟩
  | some hw =>
      obtain ⟨holder, w⟩ := hw
      simp only
      by_cases hn : s.accepted w sentBytes = 0
      · -- the write fails, and the connection is shut down
        rw [if_pos hn]
        refine ⟨unsent, data, tail,
          sound_unlock (s := { s with isShutdown := true }) (w := w) hlock ?_ _ rfl ?_⟩
        · refine ⟨h.read, h.carries, h.block_le, h.holder, ?_, ?_⟩
          · intro hopen
            cases hopen
          · intro hopen
            cases hopen
        · intro hopen
          cases hopen
      · have hopen : s.isShutdown = false := by
          cases hshut : s.isShutdown with
          | false => rfl
          | true => exact absurd (by rw [Bridges.accepted, if_pos hshut]) hn
        rw [if_neg hn]
        exact ⟨_, data, tail, sound_sent hlock hopen h _⟩

/-- The end of a thread does not take anything back. -/
theorem sound_ended (h : Sound blockSize s unsent data tail) (transit : List UInt8) :
    Sound blockSize { s with transit := transit, backward := .ended } unsent data tail :=
  ⟨h.read, Or.inl rfl, h.block_le, h.holder, h.unsent_eq, h.tail_eq⟩

theorem sound_receive (h16 : blockSize < 2 ^ 16) (h : Sound blockSize s unsent data tail)
    (receivedBytes : ℕ) : Transparent blockSize (s.step blockSize (.receive receivedBytes)) := by
  simp only [Bridges.step, Bridges.receive]
  have hsame : Transparent blockSize s := ⟨unsent, data, tail, h⟩
  have hended : Transparent blockSize { s with backward := .ended } :=
    ⟨unsent, data, tail, sound_ended h s.transit⟩
  have hcarries := h.carries
  -- what is taken from the connection has been received then
  have hmoved : ∀ (received : List UInt8) (n : ℕ),
      received ++ s.transit.take n ++ (s.transit.drop n ++ unsent) =
        received ++ (s.transit ++ unsent) := by
    intro received n
    rw [List.append_assoc, ← List.append_assoc (s.transit.take n), List.take_append_drop]
  cases hbackward : s.backward with
  | readSize received =>
      rw [hbackward] at hcarries
      obtain hcarries := hcarries.resolve_left (by simp)
      simp only
      split
      · exact hended
      generalize hn : min receivedBytes (2 - received.length) = n
      generalize hnext : (if (received ++ s.transit.take n).length < 2 then
        Backward.readSize (received ++ s.transit.take n)
          else s.sizeReceived blockSize (decode (received ++ s.transit.take n))) = b
      have hstep : b = .ended ∨ Carries blockSize b (s.transit.drop n ++ unsent) data := by
        cases hcarries with
        | readSize hlt hblocks hbytes =>
            rw [← hmoved received n] at hbytes
            rw [← hnext]
            split
            · rename_i hmore
              exact Or.inr (.readSize hmore hblocks hbytes)
            · rename_i hall
              refine Carries.sizeReceived h16 ?_ hblocks hbytes
              rw [List.length_append, List.length_take] at hall ⊢
              omega
      exact ⟨unsent, data, tail, h.read, hstep, h.block_le, h.holder, h.unsent_eq, h.tail_eq⟩
  | readBlock bytesReceived received =>
      rw [hbackward] at hcarries
      obtain hcarries := hcarries.resolve_left (by simp)
      simp only
      split
      · exact hended
      generalize hn : min receivedBytes (min 4096 (bytesReceived - received.length)) = n
      generalize hnext : (if (received ++ s.transit.take n).length < bytesReceived then
        Backward.readBlock bytesReceived (received ++ s.transit.take n)
          else .writing (received ++ s.transit.take n)) = b
      have hstep : Carries blockSize b (s.transit.drop n ++ unsent) data := by
        cases hcarries with
        | readBlock hlt hblocks hbytes =>
            rw [← hmoved received n] at hbytes
            rw [← hnext]
            split
            · rename_i hmore
              exact .readBlock hmore hblocks hbytes
            · rename_i block blocks hall
              have hlen : (received ++ s.transit.take n).length = block.length := by
                rw [List.length_append, List.length_take] at hall ⊢
                omega
              obtain ⟨hblock, hrest⟩ := List.append_inj hbytes hlen
              rw [hblock]
              exact .writing hblocks hrest
      exact ⟨unsent, data, tail, h.read, Or.inr hstep, h.block_le, h.holder, h.unsent_eq, h.tail_eq⟩
  | writing rest => exact hsame
  | outOfBounds => exact hsame
  | ended => exact hsame

theorem sound_deliver (h : Sound blockSize s unsent data tail) (sentBytes : ℕ) :
    Transparent blockSize (s.step blockSize (.deliver sentBytes)) := by
  simp only [Bridges.step, Bridges.deliver]
  have hsame : Transparent blockSize s := ⟨unsent, data, tail, h⟩
  have hcarries := h.carries
  cases hbackward : s.backward with
  | writing rest =>
      rw [hbackward] at hcarries
      obtain hcarries := hcarries.resolve_left (by simp)
      simp only
      split
      · exact ⟨unsent, data, tail, sound_ended h s.transit⟩
      generalize hn : min sentBytes (rest.take 4096).length = n
      cases hcarries with
      | writing hblocks hbytes =>
          rename_i blocks
          refine ⟨unsent, rest.drop n ++ blocks.flatten, tail, ?_, Or.inr ?_, h.block_le, h.holder,
            h.unsent_eq, h.tail_eq⟩
          · rw [h.read]
            simp only [List.append_assoc]
            rw [← List.append_assoc (rest.take n), List.take_append_drop]
          · by_cases hrest : rest.drop n = []
            · simp only [hrest, ne_eq, not_true_eq_false, if_false, List.nil_append]
              exact .readSize (by decide) hblocks hbytes
            · simp only [ne_eq, hrest, not_false_eq_true, if_true]
              exact .writing hblocks hbytes
  | readSize received => exact hsame
  | readBlock bytesReceived received => exact hsame
  | outOfBounds => exact hsame
  | ended => exact hsame

theorem transparent_step (h16 : blockSize < 2 ^ 16) (h : Transparent blockSize s) (a : Action) :
    Transparent blockSize (s.step blockSize a) := by
  obtain ⟨unsent, data, tail, h⟩ := h
  cases a with
  | read block => exact sound_read h block
  | lock => exact sound_lock h
  | ping => exact sound_ping h
  | write sentBytes => exact sound_write h sentBytes
  | shutdown =>
      refine ⟨unsent, data, tail, h.read, h.carries, h.block_le, h.holder, ?_, ?_⟩
      · intro hopen
        cases hopen
      · intro hopen
        cases hopen
  | receive receivedBytes => exact sound_receive h16 h receivedBytes
  | deliver sentBytes => exact sound_deliver h sentBytes
  | terminate =>
      exact ⟨unsent, data, tail, h.read, h.carries, h.block_le, h.holder, h.unsent_eq, h.tail_eq⟩

/-! ## Runs -/

theorem transparent_run (h16 : blockSize < 2 ^ 16) (actions : List Action) :
    Transparent blockSize (Bridges.run blockSize actions) := by
  have hfold : ∀ s : Bridges, Transparent blockSize s →
      Transparent blockSize (actions.foldl (Bridges.step blockSize) s) := by
    induction actions with
    | nil => exact fun s h => h
    | cons a actions ih => exact fun s h => ih _ (transparent_step h16 h a)
  have hempty : Carries blockSize (.readSize []) ([] ++ []) ([] : List (List UInt8)).flatten :=
    .readSize (by decide) (by simp) rfl
  refine hfold {} ⟨[], [], [], rfl, Or.inr hempty, Nat.zero_le _, ?_, fun _ => rfl, fun _ => rfl⟩
  intro w hw
  cases hw

/-- Nothing is on the way: neither at the sending end, nor on the connection, nor at the receiving
end. -/
structure Drained (s : Bridges) : Prop where
  isShutdown : s.isShutdown = false
  lock : s.lock = none
  forward : s.forward.block = []
  transit : s.transit = []
  backward : s.backward = .readSize []

instance (s : Bridges) : Decidable (Drained s) :=
  decidable_of_iff (s.isShutdown = false ∧ s.lock = none ∧ s.forward.block = [] ∧ s.transit = [] ∧
      s.backward = .readSize [])
    ⟨fun ⟨hopen, hlock, hforward, htransit, hbackward⟩ =>
      ⟨hopen, hlock, hforward, htransit, hbackward⟩,
      fun h => ⟨h.isShutdown, h.lock, h.forward, h.transit, h.backward⟩⟩

theorem Sound.delivered_eq (h : Sound blockSize s unsent data tail) (hdrained : Drained s) :
    s.delivered = s.read := by
  have hunsent : unsent = [] := by
    rw [h.unsent_eq hdrained.isShutdown, Bridges.unsent, hdrained.lock]
  have htail : tail = [] := by
    rw [h.tail_eq hdrained.isShutdown, hdrained.forward]
  have hcarries := h.carries
  rw [hdrained.backward, hdrained.transit, hunsent] at hcarries
  have hdata : data = [] := by
    cases hcarries.resolve_left (by simp) with
    | readSize hlt hblocks hbytes =>
        rename_i blocks
        cases blocks with
        | nil => rfl
        | cons block blocks =>
            have hlen := congrArg List.length hbytes
            simp only [List.flatMap_cons, frame, List.length_append, length_encode,
              List.length_nil] at hlen
            omega
  rw [h.read, hdata, htail, List.append_nil, List.append_nil]

/-- **Bridges are transparent.**  In whatever order the threads of both ends go on, and however the
source and the connection cut what is read and written, what the receiving end has delivered is a
prefix of what the sending end has read, and it is all of it when nothing is on the way, no matter
how many pings were sent.  No block is written behind the end of the buffer. -/
theorem bridge_transparent (blockSize : UInt16) (actions : List Action) :
    (Bridges.run blockSize.toNat actions).delivered <+: (Bridges.run blockSize.toNat actions).read ∧
      (Drained (Bridges.run blockSize.toNat actions) →
        (Bridges.run blockSize.toNat actions).delivered =
          (Bridges.run blockSize.toNat actions).read) ∧
      (Bridges.run blockSize.toNat actions).backward ≠ .outOfBounds := by
  obtain ⟨unsent, data, tail, h⟩ := transparent_run blockSize.toNat_lt actions
  refine ⟨⟨data ++ tail, ?_⟩, h.delivered_eq, fun hout => ?_⟩
  · rw [h.read, List.append_assoc]
  · have hcarries := h.carries
    rw [hout] at hcarries
    rcases hcarries with hended | hcarries
    · cases hended
    · cases hcarries

/-- Two blocks with a ping between them, cut up on the way: at the end nothing is left there. -/
example :
    let bridges := Bridges.run 8192 [.read [7, 8, 9], .lock, .write 2, .write 1, .receive 2, .ping,
      .write 2, .ping, .write 2, .receive 5, .deliver 2, .deliver 1, .receive 1, .receive 5,
      .read [5], .lock, .write 9, .write 9, .receive 9, .receive 9, .deliver 9]
    Drained bridges ∧ bridges.delivered = [7, 8, 9, 5] ∧ bridges.read = [7, 8, 9, 5] := by
  intro bridges
  decide +kernel

end BridgeThread

end Mantids
