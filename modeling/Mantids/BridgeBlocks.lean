/-
# The blocks of a bridge

`Bridge_Thread::processPipe` (`Net_Sockets/streams_bridge_thread.cpp`) moves one piece from one peer
to the other through a block of `blockSize` bytes, one block for each direction.  In chunked mode
the backward direction takes the length of a piece from the peer.

* `Peer`, `Bridge` — the two sockets, and a `Bridge_Thread` over them;
* `processPipe` — the function, with the bytes that it stores in its block;
* `step`, `run` — what the threads of a bridge call, in any order;
* `Overlong` — a call for which a piece longer than the block arrives;
* `bounded_iff` — when every call of a run stays within its block.
-/
import Mantids.BlockAllocation

namespace Mantids

namespace BridgeBlocks

open BigEndian SocketStream

/-! ## The sockets -/

/-- A `Socket_Stream`, with both ends of its connection. -/
structure Peer where
  receiver : Receiver
  sender : Sender

namespace Peer

/-- The socket behind a read.  It is shut down in both directions at once. -/
def received (p : Peer) (r : Receiver) : Peer :=
  { receiver := r, sender := if r.isShutdown then p.sender.shutdownSocket else p.sender }

/-- The socket behind a write. -/
def sent (p : Peer) (s : Sender) : Peer :=
  { receiver := if s.isShutdown then p.receiver.readDeSync else p.receiver, sender := s }

/-- `shutdownSocket()`. -/
def shutdownSocket (p : Peer) : Peer :=
  { receiver := p.receiver.readDeSync, sender := p.sender.shutdownSocket }

/-- `partialRead(data, datalen)`. -/
def partialRead (p : Peer) (datalen : ℕ) : ℤ × List UInt8 × Peer :=
  let r := p.receiver.partialRead datalen
  (r.1, r.2.1, p.received r.2.2)

/-- `readFull(data, expectedDataBytesCount)`. -/
def readFull (p : Peer) (expectedDataBytesCount : ℕ) : Bool × List UInt8 × Peer :=
  let r := p.receiver.readFull expectedDataBytesCount
  (r.1, r.2.2.1, p.received r.2.2.2)

/-- `readU<uint16_t>(&readOK)`. -/
def readU16 (p : Peer) : ℕ × Bool × Peer :=
  let r := p.receiver.readU 2
  (r.1, r.2.1, p.received r.2.2)

/-- `writeFull(data, datalen)`. -/
def writeFull (p : Peer) (data : List UInt8) : Bool × Peer :=
  let w := p.sender.writeFull data
  (w.1, p.sent w.2)

/-- `writeU<uint16_t>(c)`. -/
def writeU16 (p : Peer) (c : ℕ) : Bool × Peer :=
  let w := p.sender.writeU 2 c
  (w.1, p.sent w.2)

end Peer

/-! ## The bridge -/

/-- `Side`. -/
inductive Side where
  | forward
  | backward
deriving DecidableEq

/-- A `Bridge_Thread`. -/
structure Bridge where
  src : Peer
  dst : Peer
  blockSize : UInt16 := 8192
  chunked : Bool := false
  terminated : Bool := false

/-- What a call of `processPipe` comes to. -/
structure Piped where
  result : ℤ
  /-- The bytes that are stored in `curBlock`, from its beginning on. -/
  stored : List UInt8
  bridge : Bridge

/-- A piece in stream mode: the result, what is stored, and the sockets behind it. -/
def pipeStream (reader writer : Peer) (blockSize : ℕ) : ℤ × List UInt8 × Peer × Peer :=
  let r := reader.partialRead blockSize
  if 0 < r.1 then
    let w := writer.writeFull r.2.1
    (if w.1 then r.1 else -2, r.2.1, r.2.2, w.2)
  else (-1, r.2.1, r.2.2, writer)

namespace Bridge

/-- The forward direction in chunked mode. -/
def encapsulate (s : Bridge) : Piped :=
  let r := s.src.partialRead s.blockSize.toNat
  if 0 < r.1 then
    let size := s.dst.writeU16 r.1.toNat
    if size.1 = false then ⟨-2, r.2.1, { s with src := r.2.2, dst := size.2 }⟩
    else
      let w := size.2.writeFull r.2.1
      ⟨if w.1 then r.1 else -2, r.2.1, { s with src := r.2.2, dst := w.2 }⟩
  else ⟨-1, r.2.1, { s with src := r.2.2 }⟩

/-- The backward direction in chunked mode; a length of zero is a ping. -/
def decapsulate (s : Bridge) : Piped :=
  let size := s.dst.readU16
  if size.2.1 = false then ⟨-1, [], { s with dst := size.2.2 }⟩
  else if size.1 = 0 then ⟨if s.terminated then -2 else -3, [], { s with dst := size.2.2 }⟩
  else
    let r := size.2.2.readFull size.1
    if r.1 = false then ⟨-1, r.2.1, { s with dst := r.2.2 }⟩
    else
      let w := s.src.writeFull r.2.1
      ⟨if w.1 then size.1 else -2, r.2.1, { s with src := w.2, dst := r.2.2 }⟩

/-- `processPipe(fwd)`. -/
def processPipe (s : Bridge) (fwd : Side) : Piped :=
  if s.chunked = false then
    match fwd with
    | .forward =>
      let r := pipeStream s.src s.dst s.blockSize.toNat
      ⟨r.1, r.2.1, { s with src := r.2.2.1, dst := r.2.2.2 }⟩
    | .backward =>
      let r := pipeStream s.dst s.src s.blockSize.toNat
      ⟨r.1, r.2.1, { s with dst := r.2.2.1, src := r.2.2.2 }⟩
  else
    match fwd with
    | .forward => s.encapsulate
    | .backward => s.decapsulate

/-- `setBlockSize(value)`: both blocks are allocated anew. -/
def setBlockSize (s : Bridge) (value : UInt16) : Bridge := { s with blockSize := value }

/-- `terminate()`. -/
def terminate (s : Bridge) : Bridge := { s with terminated := true }

/-- `sendPing()`. -/
def sendPing (s : Bridge) : Bool × Bridge :=
  let w := s.dst.writeU16 0
  (w.1, { s with dst := w.2 })

end Bridge

/-! ## Runs -/

/-- What happens to a bridge. -/
inductive Event where
  | processPipe (fwd : Side)
  | setBlockSize (value : UInt16)
  | terminate
  | sendPing
  /-- The socket that a side writes to is shut down. -/
  | shutdown (side : Side)

/-- The bridge behind an event. -/
def Bridge.step (s : Bridge) : Event → Bridge
  | .processPipe fwd => (s.processPipe fwd).bridge
  | .setBlockSize value => s.setBlockSize value
  | .terminate => s.terminate
  | .sendPing => s.sendPing.2
  | .shutdown .forward => { s with dst := s.dst.shutdownSocket }
  | .shutdown .backward => { s with src := s.src.shutdownSocket }

/-- A property of every call of `processPipe` in a run, in the state in which it is made. -/
def Throughout (P : Bridge → Side → Prop) : List Event → Bridge → Prop
  | [], _ => True
  | .processPipe fwd :: es, s => P s fwd ∧ Throughout P es (s.step (.processPipe fwd))
  | e :: es, s => Throughout P es (s.step e)

/-- A call stores no more bytes than its block has. -/
def Bounded (s : Bridge) (fwd : Side) : Prop :=
  (s.processPipe fwd).stored.length ≤ s.blockSize.toNat

/-- The peer announces a piece that is longer than the block, and more bytes of it arrive than the
block has. -/
def Overlong (s : Bridge) (fwd : Side) : Prop :=
  s.chunked = true ∧ fwd = .backward ∧ s.dst.receiver.isShutdown = false ∧
    s.blockSize.toNat < decode (s.dst.receiver.incoming.take 2) ∧
    s.blockSize.toNat < (s.dst.receiver.incoming.drop 2).length

/-! ## What a read takes -/

/-- The receiver after some bytes were taken. -/
structure Took (r r' : Receiver) (data : List UInt8) : Prop where
  incoming_eq : r.incoming = data ++ r'.incoming
  delivers_eq : r'.delivers = r.delivers

theorem Took.refl (r : Receiver) : Took r r [] := ⟨rfl, rfl⟩

theorem Took.trans {r r' r'' : Receiver} {d e : List UInt8} (h : Took r r' d) (h' : Took r' r'' e) :
    Took r r'' (d ++ e) :=
  ⟨by rw [h.incoming_eq, h'.incoming_eq, List.append_assoc], h'.delivers_eq.trans h.delivers_eq⟩

theorem took_partialRead (r : Receiver) (n : ℕ) :
    Took r (r.partialRead n).2.2 (r.partialRead n).2.1 := by
  unfold Receiver.partialRead
  split_ifs with hshut hnil
  · exact .refl r
  · exact .refl r
  · exact ⟨(List.take_append_drop _ _).symm, rfl⟩

/-- A partial read stores no more than it is asked for. -/
theorem length_partialRead_le (r : Receiver) (n : ℕ) : (r.partialRead n).2.1.length ≤ n := by
  unfold Receiver.partialRead
  split_ifs with hshut hnil
  · exact Nat.zero_le n
  · exact Nat.zero_le n
  · have hcount := r.delivers_le r.calls (min n r.incoming.length)
    dsimp only
    rw [List.length_take]
    omega

/-- An error stores nothing. -/
theorem partialRead_eq_nil {r : Receiver} {n : ℕ} (h : (r.partialRead n).1 ≤ 0) :
    (r.partialRead n).2.1 = [] := by
  unfold Receiver.partialRead at h ⊢
  split_ifs at h ⊢ with hshut hnil
  · rfl
  · rfl
  · show r.incoming.take (Int.toNat _) = []
    rw [Int.toNat_of_nonpos h, List.take_zero]

theorem took_readLoop (n : ℕ) (received : List UInt8) (r : Receiver) :
    ∃ data, (Receiver.readLoop n received r).2.1 = received ++ data ∧
      Took r (Receiver.readLoop n received r).2.2 data := by
  induction received, r using Receiver.readLoop.induct n with
  | case1 received r hlt step hpos ih =>
    rw [Receiver.readLoop, if_pos hlt, dif_pos hpos]
    obtain ⟨data, hdata, htook⟩ := ih
    exact ⟨_, hdata.trans (List.append_assoc _ _ _), (took_partialRead r _).trans htook⟩
  | case2 received r hlt step hpos =>
    rw [Receiver.readLoop, if_pos hlt, dif_neg hpos]
    refine ⟨[], (List.append_nil _).symm, ?_⟩
    rw [← partialRead_eq_nil (not_lt.mp hpos)]
    exact took_partialRead r _
  | case3 received r hge =>
    rw [Receiver.readLoop, if_neg hge]
    exact ⟨[], (List.append_nil _).symm, .refl r⟩

theorem took_readFull (r : Receiver) (n : ℕ) :
    Took r (r.readFull n).2.2.2 (r.readFull n).2.2.1 := by
  unfold Receiver.readFull
  split_ifs with hzero
  · exact .refl r
  · obtain ⟨data, hdata, htook⟩ := took_readLoop n [] r
    obtain ⟨ok, received, r', hloop⟩ : ∃ ok received r',
        Receiver.readLoop n [] r = (ok, received, r') := ⟨_, _, _, rfl⟩
    rw [hloop] at hdata htook ⊢
    rw [show received = data from hdata]
    cases ok with
    | false => exact htook
    | true => exact htook

/-- Nothing is read from a socket that is shut down. -/
theorem readFull_shutdown {r : Receiver} (h : r.isShutdown = true) (n : ℕ) :
    (r.readFull n).2.2.1 = [] := by
  have hstep : ∀ m, r.partialRead m = (-1, [], r) := fun m => if_pos h
  have hloop : Receiver.readLoop n [] r = (decide (0 < n) == false, [], r) := by
    rw [Receiver.readLoop]
    by_cases hpos : 0 < n
    · simp [hstep, hpos]
    · simp [hpos]
  unfold Receiver.readFull
  rw [hloop]
  by_cases hpos : 0 < n
  · rw [if_neg (by omega), decide_eq_true hpos]
    rfl
  · rw [if_pos (by omega)]

/-- The count is the number of the bytes. -/
theorem readFull_count {r : Receiver} {n : ℕ} (h : (r.readFull n).1 = true) :
    (r.readFull n).2.1 = (r.readFull n).2.2.1.length := by
  unfold Receiver.readFull at h ⊢
  split_ifs at h ⊢ with hzero
  · rfl
  · obtain ⟨ok, received, r', hloop⟩ : ∃ ok received r',
        Receiver.readLoop n [] r = (ok, received, r') := ⟨_, _, _, rfl⟩
    rw [hloop] at h ⊢
    cases ok with
    | false => exact absurd h Bool.false_ne_true
    | true => rfl

/-- A length that was read is the first two bytes. -/
theorem readU16_spec {r : Receiver} (hok : (r.readU 2).2.1 = true) :
    r.isShutdown = false ∧ (r.readU 2).1 = decode (r.incoming.take 2) ∧
      (r.readU 2).2.2.incoming = r.incoming.drop 2 := by
  have htook := took_readFull r 2
  have hshut : r.isShutdown = true → (r.readFull 2).2.2.1 = [] := fun h => readFull_shutdown h 2
  have hcount : (r.readFull 2).1 = true → (r.readFull 2).2.1 = (r.readFull 2).2.2.1.length :=
    readFull_count
  obtain ⟨ok, count, received, r', hread⟩ : ∃ ok count received r',
      r.readFull 2 = (ok, count, received, r') := ⟨_, _, _, _, rfl⟩
  unfold Receiver.readU at hok ⊢
  rw [hread] at hok htook hshut hcount ⊢
  dsimp only at hok htook hshut hcount ⊢
  rw [if_pos hok]
  rw [Bool.and_eq_true, decide_eq_true_iff] at hok
  have hlen : received.length = 2 := (hcount hok.1).symm.trans hok.2
  have hincoming := htook.incoming_eq
  refine ⟨?_, ?_, ?_⟩
  · cases hs : r.isShutdown with
    | false => rfl
    | true =>
      rw [hshut hs] at hlen
      exact absurd hlen (by decide)
  · rw [hincoming, List.take_left' hlen, hlen]
    simp
  · rw [hincoming, List.drop_left' hlen]

/-! ## One call -/

theorem pipeStream_stored_le (reader writer : Peer) (n : ℕ) :
    (pipeStream reader writer n).2.1.length ≤ n := by
  have hle := length_partialRead_le reader.receiver n
  unfold pipeStream
  dsimp only
  split
  · exact hle
  · exact hle

theorem encapsulate_stored_le (s : Bridge) : s.encapsulate.stored.length ≤ s.blockSize.toNat := by
  have hle := length_partialRead_le s.src.receiver s.blockSize.toNat
  unfold Bridge.encapsulate
  dsimp only
  split
  · split
    · exact hle
    · exact hle
  · exact hle

/-- What the backward direction stores in chunked mode: nothing without a length, and behind a
length what a whole read gets. -/
theorem decapsulate_stored (s : Bridge) :
    s.decapsulate.stored
      = if s.dst.readU16.2.1 = true then (s.dst.readU16.2.2.readFull s.dst.readU16.1).2.1
        else [] := by
  unfold Bridge.decapsulate
  dsimp only
  cases hok : s.dst.readU16.2.1 with
  | false => rfl
  | true =>
    rw [if_neg (by decide), if_pos rfl]
    -- A ping stores nothing, and neither does a read of no bytes.
    by_cases hzero : s.dst.readU16.1 = 0
    · rw [if_pos hzero, hzero]
      rfl
    · rw [if_neg hzero]
      split
      · rfl
      · rfl

theorem processPipe_forward {s : Bridge} (h : s.chunked = true) :
    s.processPipe .forward = s.encapsulate :=
  if_neg (by rw [h]; decide)

theorem processPipe_backward {s : Bridge} (h : s.chunked = true) :
    s.processPipe .backward = s.decapsulate :=
  if_neg (by rw [h]; decide)

/-- A call that is not overlong stays within its block, whatever the transports do. -/
theorem bounded_of_not_overlong {s : Bridge} {fwd : Side} (h : ¬ Overlong s fwd) :
    Bounded s fwd := by
  cases hchunked : s.chunked with
  | false =>
    unfold Bounded Bridge.processPipe
    rw [if_pos hchunked]
    cases fwd with
    | forward => exact pipeStream_stored_le _ _ _
    | backward => exact pipeStream_stored_le _ _ _
  | true =>
    cases fwd with
    | forward =>
      unfold Bounded
      rw [processPipe_forward hchunked]
      exact encapsulate_stored_le s
    | backward =>
      -- The length comes from the peer, and the bytes from what arrives behind it.
      by_contra hover
      apply h
      unfold Bounded at hover
      rw [processPipe_backward hchunked, not_le, decapsulate_stored] at hover
      split_ifs at hover with hok
      · obtain ⟨hshut, hsize, hrest⟩ := readU16_spec (r := s.dst.receiver) hok
        have hle := Receiver.length_readFull_le (s.dst.receiver.readU 2).2.2
          (s.dst.receiver.readU 2).1
        have htook := (took_readFull (s.dst.receiver.readU 2).2.2
          (s.dst.receiver.readU 2).1).incoming_eq
        refine ⟨hchunked, rfl, hshut, ?_, ?_⟩
        · rw [← hsize]
          exact lt_of_lt_of_le hover hle
        · rw [← hrest, htook, List.length_append]
          exact lt_of_lt_of_le hover (Nat.le_add_right _ _)
      · exact absurd hover (Nat.not_lt_zero _)

/-- The transport of a socket delivers some bytes as long as there are any: an error is the end of
what arrives. -/
def Peer.Delivers (p : Peer) : Prop := ∀ k n, 0 < n → 0 < p.receiver.delivers k n

/-- An overlong call stores more bytes than its block has. -/
theorem not_bounded_of_overlong {s : Bridge} {fwd : Side} (hdel : s.dst.Delivers)
    (h : Overlong s fwd) : ¬ Bounded s fwd := by
  obtain ⟨hchunked, rfl, hshut, hsize, hrest⟩ := h
  obtain ⟨r, hr, hincoming, hread⟩ := Receiver.readFull_delivering
    (⟨hshut, hdel⟩ : s.dst.receiver.Delivering) 2
  have htwo : 2 ≤ s.dst.receiver.incoming.length := by
    rw [List.length_drop] at hrest
    omega
  have hu : s.dst.receiver.readU 2 = (decode (s.dst.receiver.incoming.take 2), true, r) := by
    have hlen : (s.dst.receiver.incoming.take 2).length = 2 := by
      rw [List.length_take]
      omega
    unfold Receiver.readU
    rw [hread]
    dsimp only
    rw [decide_eq_true htwo, min_eq_left htwo, hlen, Nat.sub_self, List.replicate_zero,
      List.append_nil]
    rfl
  -- The read of the piece gets its length, or all that arrives.
  obtain ⟨r', -, -, hblock⟩ := Receiver.readFull_delivering hr
    (decode (s.dst.receiver.incoming.take 2))
  have hstored : s.decapsulate.stored
      = (s.dst.receiver.incoming.drop 2).take (decode (s.dst.receiver.incoming.take 2)) := by
    rw [decapsulate_stored]
    simp only [Peer.readU16, Peer.readFull, Peer.received, hu, hblock, hincoming, if_true]
  unfold Bounded
  rw [processPipe_backward hchunked, not_le, hstored, List.length_take]
  exact lt_min hsize hrest

/-! ## Whole runs -/

/-- The transports of a bridge. -/
def Bridge.Delivers (s : Bridge) : Prop := s.src.Delivers ∧ s.dst.Delivers

theorem Peer.Delivers.received {p : Peer} (h : p.Delivers) {r : Receiver} {data : List UInt8}
    (htook : Took p.receiver r data) : (p.received r).Delivers := by
  intro k n hn
  show 0 < r.delivers k n
  rw [htook.delivers_eq]
  exact h k n hn

theorem Peer.Delivers.sent {p : Peer} (h : p.Delivers) (w : Sender) : (p.sent w).Delivers := by
  intro k n hn
  have hpos := h k n hn
  unfold Peer.sent
  dsimp only
  split
  · exact hpos
  · exact hpos

theorem Peer.Delivers.readU16 {p : Peer} (h : p.Delivers) : p.readU16.2.2.Delivers := by
  have htook := took_readFull p.receiver 2
  have hread : (p.receiver.readU 2).2.2.delivers = p.receiver.delivers := by
    rw [← htook.delivers_eq]
    unfold Receiver.readU
    dsimp only
    split
    · rfl
    · rfl
  intro k n hn
  show 0 < (p.receiver.readU 2).2.2.delivers k n
  rw [hread]
  exact h k n hn

theorem Peer.Delivers.shutdownSocket {p : Peer} (h : p.Delivers) : p.shutdownSocket.Delivers := h

theorem pipeStream_delivers {reader writer : Peer} (hr : reader.Delivers) (hw : writer.Delivers)
    (n : ℕ) :
    (pipeStream reader writer n).2.2.1.Delivers ∧ (pipeStream reader writer n).2.2.2.Delivers := by
  have hread : (reader.partialRead n).2.2.Delivers := hr.received (took_partialRead _ _)
  unfold pipeStream
  dsimp only
  split
  · exact ⟨hread, hw.sent _⟩
  · exact ⟨hread, hw⟩

theorem encapsulate_delivers {s : Bridge} (h : s.Delivers) : s.encapsulate.bridge.Delivers := by
  have hread : (s.src.partialRead s.blockSize.toNat).2.2.Delivers :=
    h.1.received (took_partialRead _ _)
  unfold Bridge.encapsulate
  dsimp only
  split
  · split
    · exact ⟨hread, h.2.sent _⟩
    · exact ⟨hread, Peer.Delivers.sent (h.2.sent _) _⟩
  · exact ⟨hread, h.2⟩

theorem decapsulate_delivers {s : Bridge} (h : s.Delivers) : s.decapsulate.bridge.Delivers := by
  have hsize := h.2.readU16
  have hread : (s.dst.readU16.2.2.readFull s.dst.readU16.1).2.2.Delivers :=
    hsize.received (took_readFull _ _)
  unfold Bridge.decapsulate
  dsimp only
  split
  · exact ⟨h.1, hsize⟩
  · split
    · exact ⟨h.1, hsize⟩
    · split
      · exact ⟨h.1, hread⟩
      · exact ⟨h.1.sent _, hread⟩

/-- No event changes the transports. -/
theorem Bridge.Delivers.step {s : Bridge} (h : s.Delivers) (e : Event) : (s.step e).Delivers := by
  cases e with
  | processPipe fwd =>
    show (s.processPipe fwd).bridge.Delivers
    unfold Bridge.processPipe
    split
    · cases fwd with
      | forward => exact pipeStream_delivers h.1 h.2 _
      | backward => exact (pipeStream_delivers h.2 h.1 _).symm
    · cases fwd with
      | forward => exact encapsulate_delivers h
      | backward => exact decapsulate_delivers h
  | setBlockSize value => exact h
  | terminate => exact h
  | sendPing => exact ⟨h.1, h.2.sent _⟩
  | shutdown side =>
    cases side with
    | forward => exact ⟨h.1, h.2.shutdownSocket⟩
    | backward => exact ⟨h.1.shutdownSocket, h.2⟩

/-- What follows from a property in every state that keeps an invariant holds of a whole run. -/
theorem Throughout.imp {P Q : Bridge → Side → Prop} (Inv : Bridge → Prop)
    (hstep : ∀ s e, Inv s → Inv (s.step e)) (himp : ∀ s fwd, Inv s → P s fwd → Q s fwd)
    {es : List Event} {s : Bridge} (hinv : Inv s) (h : Throughout P es s) : Throughout Q es s := by
  induction es generalizing s with
  | nil => trivial
  | cons e es ih =>
    cases e with
    | processPipe fwd => exact ⟨himp s fwd hinv h.1, ih (hstep s _ hinv) h.2⟩
    | setBlockSize value => exact ih (hstep s _ hinv) h
    | terminate => exact ih (hstep s _ hinv) h
    | sendPing => exact ih (hstep s _ hinv) h
    | shutdown side => exact ih (hstep s _ hinv) h

/-- In a run without overlong calls every call stays within its block, whatever the transports do;
and where an error of a transport is the end of what arrives, only in such a run. -/
theorem bounded_iff (es : List Event) (s : Bridge) :
    (Throughout (fun s fwd => ¬ Overlong s fwd) es s → Throughout Bounded es s) ∧
      (s.Delivers → Throughout Bounded es s →
        Throughout (fun s fwd => ¬ Overlong s fwd) es s) := by
  constructor
  · apply Throughout.imp (fun _ => True)
    · exact fun _ _ _ => trivial
    · exact fun s fwd _ h => bounded_of_not_overlong h
    · trivial
  · intro hdel
    apply Throughout.imp Bridge.Delivers
    · exact fun s e h => h.step e
    · exact fun s fwd h hbounded hover => not_bounded_of_overlong h.2 hover hbounded
    · exact hdel

/-- A socket with nothing sent on it, on which these bytes arrive. -/
def Peer.of (incoming : List UInt8) : Peer :=
  { receiver :=
      { incoming := incoming, delivers := fun _ n => n, delivers_le := Receiver.whole_le }
    sender := { accepts := fun _ n => n, accepts_le := Receiver.whole_le } }

/-- A peer announces 8193 bytes to a bridge with blocks of the default size, and sends them. -/
theorem not_bounded :
    ¬ Throughout Bounded [.processPipe .backward]
      { src := .of [], dst := .of ([32, 1] ++ List.replicate 8193 7), chunked := true } := by
  rintro ⟨hbounded, -⟩
  apply not_bounded_of_overlong _ _ hbounded
  · intro k n hn
    exact Int.natCast_pos.mpr hn
  · refine ⟨rfl, rfl, rfl, ?_, ?_⟩
    · show (8192 : UInt16).toNat < decode [32, 1]
      decide
    · show (8192 : UInt16).toNat < (List.replicate 8193 (7 : UInt8)).length
      rw [List.length_replicate]
      decide

end BridgeBlocks

end Mantids
