/-
# Chains of sockets

A `Socket_Chain` (`Net_Chains/socket_chain.cpp`) puts protocol sockets on top of a base socket.  A
layer is a protocol socket and the other end of its socket pair, with two threads: one takes what
comes out of the pair to the layer below, the other one brings what the layer below returns.

* `ChainElement` — the protocol sockets, `Socket_Chain_XOR` and `Socket_Chain_AES`;
* `Link` — one direction of two chains that are connected by their base sockets, down the layers of
  the end that writes and up those of the end that reads;
* `pump` — a step of `chainThread`, anywhere in the link;
* `step` — a step of any thread: the threads of the layers, and the two users;
* `chain_inOrder` — what is read is the beginning of what was written.

The system takes and delivers as much of each piece as it likes, or fails.  A layer of AES makes its
handshake over the layers below it, which goes through their key streams; the next layer is added
when both ends have made theirs.
-/
import Mantids.SocketChainAes
import Mantids.Lib.Run

namespace Mantids

open Keystream SocketChainAes

namespace SocketChain

/-! ## Protocol sockets -/

/-- A protocol socket. -/
inductive ChainElement (μ : Type*) where
  /-- `Socket_Chain_XOR`. -/
  | xor (xorByte : UInt8)
  | aes (socket : ChainSocket μ)

/-- `getXorCopy`. -/
def getXorCopy (xorByte : UInt8) (data : List UInt8) : List UInt8 := data.map (· ^^^ xorByte)

variable {μ : Type*} (P : Primitives μ)

namespace ChainElement

/-- `partialWrite`, as for `ChainSocket`.  The counter of `getXorCopy` has 32 bits: it does not come
to the end of data that is longer. -/
def partialWrite (data : List UInt8) (taken : ℤ) :
    ChainElement μ → Option (ℤ × List UInt8 × ChainElement μ)
  | .xor xorByte =>
    if data = [] then some (0, [], .xor xorByte)
    else if 2 ^ 32 ≤ data.length then none
    else
      let r := min taken data.length
      some (r, (getXorCopy xorByte data).take r.toNat, .xor xorByte)
  | .aes socket =>
    let w := socket.partialWrite P data taken
    some (w.1, w.2.1, .aes w.2.2)

/-- `partialRead` of bytes on the transport, as for `ChainSocket`. -/
def partialRead (datalen : ℕ) (wire : List UInt8) (delivered : ℤ) :
    ChainElement μ → Option (ℤ × List UInt8 × ChainElement μ)
  | .xor xorByte =>
    let r := min (min delivered datalen) wire.length
    if datalen = 0 then some (0, [], .xor xorByte)
    else if 2 ^ 32 ≤ r then none
    else some (r, getXorCopy xorByte (wire.take r.toNat), .xor xorByte)
  | .aes socket =>
    let r := socket.partialRead P datalen wire delivered
    some (r.1, r.2.1, .aes r.2.2)

end ChainElement

/-! ## Links -/

/-- Bytes that are under way from one socket to another, the first ones in front. -/
structure Channel where
  bytes : List UInt8 := []
  /-- The socket that writes was shut down. -/
  closed : Bool := false
deriving DecidableEq

namespace Channel

/-- What a call takes, where the system would take so many bytes. -/
def takes (c : Channel) (taken : ℤ) : ℤ := if c.closed then -1 else taken

/-- A call of `recv` returns: with bytes or an error, or at the end.  Otherwise it waits. -/
def Ready (c : Channel) (delivered : ℤ) : Prop :=
  if c.bytes = [] then c.closed = true else delivered ≠ 0

instance (c : Channel) (delivered : ℤ) : Decidable (c.Ready delivered) := by
  unfold Ready
  infer_instance

def append (c : Channel) (bytes : List UInt8) : Channel := { c with bytes := c.bytes ++ bytes }

def drop (c : Channel) (n : ℕ) : Channel := { c with bytes := c.bytes.drop n }

def close (c : Channel) : Channel := { c with closed := true }

end Channel

/-- `chainThread`: the bytes that it has read and not written yet. -/
structure ChainThread where
  buffer : List UInt8 := []
  ended : Bool := false
deriving DecidableEq

/-- A layer of the end that writes and the one above the same layers of the end that reads. -/
structure Layer (μ : Type*) where
  /-- `sock[0]` of the end that writes. -/
  tx : ChainElement μ
  /-- The socket pair, to its `sock[1]`. -/
  sent : Channel := {}
  /-- `thr1`, with `modeFWD`. -/
  thr1 : ChainThread := {}
  /-- `thr2`, at the end that reads. -/
  thr2 : ChainThread := {}
  /-- The socket pair, from its `sock[1]`. -/
  received : Channel := {}
  /-- `sock[0]` of the end that reads. -/
  rx : ChainElement μ

/-- One direction of two connected chains. -/
inductive Link (μ : Type*) where
  /-- The base sockets. -/
  | base (wire : Channel)
  | addToChain (below : Link μ) (layer : Layer μ)

namespace Link

/-- `partialWrite` of the uppermost socket, and the link behind it. -/
def partialWrite (data : List UInt8) (taken : ℤ) : Link μ → Option (ℤ × Link μ)
  | .base wire =>
    let r := min (wire.takes taken) data.length
    some (r, .base (wire.append (data.take r.toNat)))
  | .addToChain below l =>
    (l.tx.partialWrite P data (l.sent.takes taken)).map fun w =>
      (w.1, .addToChain below { l with tx := w.2.2, sent := l.sent.append w.2.1 })

/-- `partialRead` of the uppermost socket: the result, the bytes, and the link behind it. -/
def partialRead (datalen : ℕ) (delivered : ℤ) : Link μ → Option (ℤ × List UInt8 × Link μ)
  | .base wire =>
    if wire.Ready delivered then
      let r := min (min delivered datalen) wire.bytes.length
      some (r, wire.bytes.take r.toNat, .base (wire.drop r.toNat))
    else none
  | .addToChain below l =>
    if l.received.Ready delivered then
      (l.rx.partialRead P datalen l.received.bytes delivered).map fun r =>
        (r.1, r.2.1,
          .addToChain below { l with rx := r.2.2, received := l.received.drop r.1.toNat })
    else none

/-- `shutdownSocket(SHUT_WR)` of the uppermost socket. -/
def shutdownSocket : Link μ → Link μ
  | .base wire => .base wire.close
  | .addToChain below l => .addToChain below { l with sent := l.sent.close }

end Link

/-! ## Threads -/

/-- A call of `partialRead` or, in `writeFull`, of `partialWrite` by one of the two threads. -/
inductive ThreadAction where
  | read1 (delivered : ℤ)
  | write1 (taken : ℤ)
  | read2 (delivered : ℤ)
  | write2 (taken : ℤ)
deriving DecidableEq

namespace Link

/-- A step of a thread of the uppermost layer. -/
def chainThread (below : Link μ) (l : Layer μ) : ThreadAction → Option (Link μ)
  | .read1 delivered =>
    if l.thr1.ended = true ∨ l.thr1.buffer ≠ [] ∨ ¬ l.sent.Ready delivered then none
    else
      let r := min (min delivered 4096) l.sent.bytes.length
      if 0 < r then
        some (.addToChain below { l with
          sent := l.sent.drop r.toNat, thr1 := { buffer := l.sent.bytes.take r.toNat } })
      else some (.addToChain below.shutdownSocket { l with thr1 := { ended := true } })
  | .write1 taken =>
    if l.thr1.ended = true ∨ l.thr1.buffer = [] then none
    else
      (below.partialWrite P (l.thr1.buffer.take 4096) taken).map fun w =>
        if 0 < w.1 then
          .addToChain w.2 { l with thr1 := { buffer := l.thr1.buffer.drop w.1.toNat } }
        else .addToChain w.2.shutdownSocket { l with thr1 := { l.thr1 with ended := true } }
  | .read2 delivered =>
    if l.thr2.ended = true ∨ l.thr2.buffer ≠ [] then none
    else
      (below.partialRead P 4096 delivered).map fun r =>
        if 0 < r.1 then .addToChain r.2.2 { l with thr2 := { buffer := r.2.1 } }
        else .addToChain r.2.2 { l with thr2 := { ended := true }, received := l.received.close }
  | .write2 taken =>
    if l.thr2.ended = true ∨ l.thr2.buffer = [] then none
    else
      let r := min (l.received.takes taken) (l.thr2.buffer.take 4096).length
      if 0 < r then
        some (.addToChain below { l with
          received := l.received.append (l.thr2.buffer.take r.toNat)
          thr2 := { buffer := l.thr2.buffer.drop r.toNat } })
      else
        some (.addToChain below { l with
          thr2 := { l.thr2 with ended := true }, received := l.received.close })

/-- A step of a thread so many layers below the uppermost one. -/
def pump (a : ThreadAction) : ℕ → Link μ → Option (Link μ)
  | _, .base _ => none
  | 0, .addToChain below l => chainThread P below l a
  | depth + 1, .addToChain below l => (pump a depth below).map (.addToChain · l)

end Link

/-! ## Connections -/

/-- A step of a user or of a thread. -/
inductive Action where
  | partialWrite (data : List UInt8) (taken : ℤ)
  | partialRead (datalen : ℕ) (delivered : ℤ)
  | shutdownSocket
  | thread (depth : ℕ) (a : ThreadAction)

/-- A link, what its user at one end wrote, and what its user at the other end read. -/
structure Connection (μ : Type*) where
  link : Link μ
  accepted : List UInt8 := []
  returned : List UInt8 := []
  /-- A `partialRead` has said that there is nothing more to come. -/
  finished : Bool := false

namespace Connection

/-- A step.  The output is not used. -/
def step (c : Connection μ) : Action → Option (Connection μ × Unit)
  | .partialWrite data taken =>
    (c.link.partialWrite P data taken).map fun w =>
      ({ c with link := w.2, accepted := c.accepted ++ data.take w.1.toNat }, ())
  | .partialRead datalen delivered =>
    match c.link.partialRead P datalen delivered with
    | none => none
    | some (r, bytes, link) =>
      some ({ c with
        link := link
        returned := c.returned ++ bytes
        finished := c.finished || decide (r = 0 ∧ datalen ≠ 0) }, ())
  | .shutdownSocket => some ({ c with link := c.link.shutdownSocket }, ())
  | .thread depth a => (c.link.pump P a depth).map ({ c with link := · }, ())

end Connection

variable {P}

@[simp] theorem length_getXorCopy (xorByte : UInt8) (data : List UInt8) :
    (getXorCopy xorByte data).length = data.length := List.length_map _

theorem getXorCopy_append (xorByte : UInt8) (data more : List UInt8) :
    getXorCopy xorByte (data ++ more) = getXorCopy xorByte data ++ getXorCopy xorByte more :=
  List.map_append

theorem getXorCopy_take (xorByte : UInt8) (data : List UInt8) (n : ℕ) :
    (getXorCopy xorByte data).take n = getXorCopy xorByte (data.take n) := List.map_take.symm

theorem getXorCopy_drop (xorByte : UInt8) (data : List UInt8) (n : ℕ) :
    (getXorCopy xorByte data).drop n = getXorCopy xorByte (data.drop n) := List.map_drop.symm

theorem getXorCopy_getXorCopy (xorByte : UInt8) (data : List UInt8) :
    getXorCopy xorByte (getXorCopy xorByte data) = data := by
  have hbyte : ((· ^^^ xorByte) ∘ (· ^^^ xorByte) : UInt8 → UInt8) = id := by
    funext b
    show b ^^^ xorByte ^^^ xorByte = b
    exact xorByte_xorByte b xorByte
  rw [getXorCopy, getXorCopy, List.map_map, hbyte, List.map_id]

/-! ## A layer in step -/

theorem aes_partialWrite_result (s : ChainSocket μ) (data : List UInt8) (taken : ℤ) :
    (s.partialWrite P data taken).1 = min taken data.length := by
  rw [ChainSocket.partialWrite]
  split
  · rfl
  · rename_i hinit
    have hends := SideParams.enlarge_fst (P := P)
      (s.makesBlocks (Bool.eq_true_of_not_eq_false hinit)) data.length data.length s.writeParams
    split
    · rename_i hfalse
      rw [hfalse] at hends
      cases hends
    · rfl

theorem aes_partialRead_result (s : ChainSocket μ) (datalen : ℕ) (wire : List UInt8)
    (delivered : ℤ) :
    (s.partialRead P datalen wire delivered).1 = min (min delivered datalen) wire.length := by
  rw [ChainSocket.partialRead]
  split
  · rfl
  · rename_i hread
    have hinit : ¬ s.initialized = false := fun hfalse => hread (.inl hfalse)
    have hends := fun size => SideParams.enlarge_fst (P := P)
      (s.makesBlocks (Bool.eq_true_of_not_eq_false hinit)) size size s.readParams
    split
    · rename_i hfalse
      have htrue := hends (min (min delivered datalen) (wire.length : ℤ)).toNat
      rw [hfalse] at htrue
      cases htrue
    · rfl

theorem length_aes_partialWrite_le (s : ChainSocket μ) (data : List UInt8) (taken : ℤ) :
    (s.partialWrite P data taken).2.1.length ≤ taken.toNat := by
  rw [ChainSocket.partialWrite]
  split
  · show (data.take _).length ≤ _
    rw [List.length_take]
    omega
  · split
    · exact Nat.zero_le _
    · show (List.take _ _).length ≤ _
      rw [List.length_take]
      omega

variable (P) in
/-- What was written and not returned is on the way between the sockets of a layer; during a
handshake it is there as it is. -/
inductive Sync : ChainElement μ → ChainElement μ → List UInt8 → List UInt8 → Prop where
  | xor (xorByte : UInt8) (pending : List UInt8) :
      Sync (.xor xorByte) (.xor xorByte) pending (getXorCopy xorByte pending)
  | handshake {s t : ChainSocket μ} (hs : s.initialized = false) (ht : t.initialized = false)
      (pending : List UInt8) : Sync (.aes s) (.aes t) pending pending
  | aes {s t : ChainSocket μ} {n : ℕ} {pending wire : List UInt8}
      (h : InStep P n { writer := s, wire := wire, reader := t, accepted := pending } pending) :
      Sync (.aes s) (.aes t) pending wire

variable {tx rx : ChainElement μ} {pending wire : List UInt8}

theorem Sync.length_eq (h : Sync P tx rx pending wire) :
    wire.length = pending.length := by
  cases h with
  | xor xorByte => exact length_getXorCopy xorByte pending
  | handshake => rfl
  | aes h =>
      have hwire := congrArg List.length h.wire
      rwa [length_mask] at hwire

/-- What a write accepts is on the way behind what already was. -/
theorem sync_partialWrite
    (h : Sync P tx rx pending wire) {data : List UInt8} {taken : ℤ}
    {w : ℤ × List UInt8 × ChainElement μ}
    (hw : tx.partialWrite P data taken = some w) :
    w.1 ≤ data.length ∧
      Sync P w.2.2 rx (pending ++ data.take w.1.toNat) (wire ++ w.2.1) := by
  cases h with
  | xor xorByte =>
      rw [ChainElement.partialWrite] at hw
      split_ifs at hw with hnil hlong
      · obtain rfl := Option.some.inj hw
        refine ⟨Int.natCast_nonneg _, ?_⟩
        simp only [Int.toNat_zero, List.take_zero, List.append_nil]
        exact Sync.xor xorByte pending
      · obtain rfl := Option.some.inj hw
        refine ⟨min_le_right _ _, ?_⟩
        rw [getXorCopy_take, ← getXorCopy_append]
        exact Sync.xor xorByte _
  | handshake hs ht =>
      rw [ChainElement.partialWrite, ChainSocket.partialWrite, if_pos hs] at hw
      obtain rfl := Option.some.inj hw
      exact ⟨min_le_right _ _, Sync.handshake hs ht _⟩
  | @aes s t n _ _ h =>
      rw [ChainElement.partialWrite] at hw
      obtain rfl := Option.some.inj hw
      have hr : (s.partialWrite P data taken).1 = min taken data.length :=
        aes_partialWrite_result s data taken
      have hstep := inStep_partialWrite h data taken
      rw [← hr] at hstep
      exact ⟨hr ▸ min_le_right _ _, Sync.aes hstep⟩

variable (P) in
/-- A write of some bytes, not too many, is up to the system. -/
theorem exists_partialWrite (tx : ChainElement μ) {data : List UInt8} (hne : data ≠ [])
    (hlt : data.length < 2 ^ 32) (taken : ℤ) :
    ∃ w, tx.partialWrite P data taken = some w ∧ w.1 = min taken data.length := by
  cases tx with
  | xor xorByte =>
      rw [ChainElement.partialWrite, if_neg hne, if_neg (by omega)]
      exact ⟨_, rfl, rfl⟩
  | aes s =>
      exact ⟨_, rfl, aes_partialWrite_result s data taken⟩

/-- What a read delivers does not depend on what is behind it. -/
theorem partialRead_append (t : ChainSocket μ) (datalen : ℕ) (front rest : List UInt8)
    (delivered : ℤ) :
    t.partialRead P datalen front delivered =
      t.partialRead P datalen (front ++ rest)
        (min (min delivered datalen) front.length) := by
  have hr : min (min (min (min delivered datalen) (front.length : ℤ)) datalen)
      ((front ++ rest).length : ℤ) = min (min delivered datalen) front.length := by
    rw [List.length_append]
    omega
  have htake : (front ++ rest).take (min (min delivered datalen) (front.length : ℤ)).toNat =
      front.take (min (min delivered datalen) (front.length : ℤ)).toNat :=
    List.take_append_of_le_length (by omega)
  simp only [ChainSocket.partialRead, hr, htake]

/-- What a read returns is what was written first. -/
theorem sync_partialRead {front rest : List UInt8}
    (h : Sync P tx rx pending (front ++ rest)) {datalen : ℕ} {delivered : ℤ}
    {r : ℤ × List UInt8 × ChainElement μ}
    (hr : rx.partialRead P datalen front delivered = some r) :
    r.1 ≤ front.length ∧ r.2.1 = pending.take r.1.toNat ∧
      Sync P tx r.2.2 (pending.drop r.1.toNat)
        (front.drop r.1.toNat ++ rest) := by
  generalize hwire : front ++ rest = wire at h
  cases h with
  | xor xorByte =>
      rw [ChainElement.partialRead] at hr
      split_ifs at hr with hzero hlong
      · obtain rfl := Option.some.inj hr
        refine ⟨Int.natCast_nonneg _, List.take_zero.symm, ?_⟩
        show Sync _ _ _ (pending.drop 0) (front.drop 0 ++ rest)
        rw [List.drop_zero, List.drop_zero, hwire]
        exact Sync.xor xorByte pending
      · obtain rfl := Option.some.inj hr
        set n := (min (min delivered datalen) (front.length : ℤ)).toNat with hn
        have hle : n ≤ front.length := by omega
        refine ⟨min_le_right _ _, ?_, ?_⟩
        · have hfront : (front ++ rest).take n = front.take n := List.take_append_of_le_length hle
          show getXorCopy xorByte (front.take n) = pending.take n
          rw [← hfront, hwire, getXorCopy_take, getXorCopy_getXorCopy]
        · show Sync _ _ _ (pending.drop n) (front.drop n ++ rest)
          rw [← List.drop_append_of_le_length hle, hwire, getXorCopy_drop]
          exact Sync.xor xorByte _
  | handshake hs ht =>
      rw [ChainElement.partialRead, ChainSocket.partialRead, if_pos (Or.inl ht)] at hr
      obtain rfl := Option.some.inj hr
      subst hwire
      have hle : (min (min delivered datalen) (front.length : ℤ)).toNat ≤ front.length := by omega
      dsimp only
      rw [List.take_append_of_le_length hle, List.drop_append_of_le_length hle]
      exact ⟨min_le_right _ _, rfl, Sync.handshake hs ht _⟩
  | @aes s t k _ _ h =>
      rw [ChainElement.partialRead] at hr
      obtain rfl := Option.some.inj hr
      subst hwire
      set n := min (min delivered datalen) (front.length : ℤ) with hn
      have hmin : min (min n datalen) ((front ++ rest).length : ℤ) = n := by
        rw [List.length_append]
        omega
      have hstep := inStep_partialRead h datalen n
      rw [Ends.step, hmin] at hstep
      have hresult : (t.partialRead P datalen (front ++ rest) n).1 = n :=
        (aes_partialRead_result t datalen (front ++ rest) n).trans hmin
      have htaken : pending = (t.partialRead P datalen (front ++ rest) n).2.1 ++
          pending.drop n.toNat := hstep.accepted
      have hle : n.toNat ≤ front.length := by omega
      rw [partialRead_append t datalen front rest delivered, ← hn]
      dsimp only
      rw [hresult]
      refine ⟨min_le_right _ _, ?_, ?_⟩
      · refine List.append_cancel_right (htaken.symm.trans ?_)
        exact (List.take_append_drop n.toNat pending).symm
      · refine Sync.aes ⟨hstep.whole, hstep.writerSize, hstep.readerSize, hstep.writer,
          hstep.reader, rfl, ?_, hstep.stream⟩
        have hwire := hstep.wire
        dsimp only at hwire ⊢
        rw [hresult, List.drop_append_of_le_length hle] at hwire
        exact hwire

/-! ## A link in order -/

variable (P) in
/-- Every layer is in step over what is on its way, down and up again. -/
def Carries : Link μ → List UInt8 → Prop
  | .base wire, pending => wire.bytes = pending
  | .addToChain below l, pending =>
    ∃ inner, Carries below inner ∧ Sync P l.tx l.rx pending
      (l.received.bytes ++ (l.thr2.buffer ++ (inner ++ (l.thr1.buffer ++ l.sent.bytes))))

variable {link link' below : Link μ} {l : Layer μ}

theorem carries_partialWrite
    (h : Carries P link pending) {data : List UInt8} {taken : ℤ}
    {w : ℤ × Link μ} (hw : link.partialWrite P data taken = some w) :
    w.1 ≤ data.length ∧ Carries P w.2 (pending ++ data.take w.1.toNat) := by
  cases link with
  | base wire =>
      rw [Link.partialWrite] at hw
      obtain rfl := Option.some.inj hw
      refine ⟨min_le_right _ _, ?_⟩
      show wire.bytes ++ _ = pending ++ _
      rw [show wire.bytes = pending from h]
  | addToChain below l =>
      rw [Link.partialWrite] at hw
      obtain ⟨v, hv, rfl⟩ := Option.map_eq_some_iff.mp hw
      obtain ⟨inner, hinner, hsync⟩ := h
      obtain ⟨hle, hnext⟩ := sync_partialWrite hsync hv
      refine ⟨hle, inner, hinner, ?_⟩
      simp only [List.append_assoc] at hnext
      exact hnext

theorem carries_partialRead
    (h : Carries P link pending) {datalen : ℕ} {delivered : ℤ}
    {r : ℤ × List UInt8 × Link μ}
    (hr : link.partialRead P datalen delivered = some r) :
    r.2.1 = pending.take r.1.toNat ∧
      Carries P r.2.2 (pending.drop r.1.toNat) := by
  cases link with
  | base wire =>
      rw [Link.partialRead] at hr
      split_ifs at hr
      obtain rfl := Option.some.inj hr
      rw [Carries] at h
      subst h
      exact ⟨rfl, rfl⟩
  | addToChain below l =>
      rw [Link.partialRead] at hr
      split_ifs at hr
      obtain ⟨v, hv, rfl⟩ := Option.map_eq_some_iff.mp hr
      obtain ⟨inner, hinner, hsync⟩ := h
      obtain ⟨-, hbytes, hnext⟩ := sync_partialRead hsync hv
      exact ⟨hbytes, inner, hinner, hnext⟩

theorem carries_shutdownSocket (h : Carries P link pending) :
    Carries P link.shutdownSocket pending := by
  cases link with
  | base wire => exact h
  | addToChain below l => exact h

variable (P below l) in
/-- What a step of a thread of the uppermost layer can do. -/
inductive ThreadEffect : ThreadAction → Link μ → Prop where
  | read1 {delivered : ℤ} (n : ℕ) (halive : l.thr1.ended = false) (hempty : l.thr1.buffer = []) :
      ThreadEffect (.read1 delivered) (.addToChain below { l with
        sent := l.sent.drop n, thr1 := { buffer := l.sent.bytes.take n } })
  | ended1 {delivered : ℤ} (halive : l.thr1.ended = false) (hempty : l.thr1.buffer = [])
      (hend : 0 < delivered → l.sent.bytes = [] ∧ l.sent.closed = true) :
      ThreadEffect (.read1 delivered)
        (.addToChain below.shutdownSocket { l with thr1 := { ended := true } })
  | write1 {taken : ℤ} {w : ℤ × Link μ} (halive : l.thr1.ended = false)
      (hw : below.partialWrite P (l.thr1.buffer.take 4096) taken = some w)
      (hpos : 0 < w.1) :
      ThreadEffect (.write1 taken)
        (.addToChain w.2 { l with thr1 := { buffer := l.thr1.buffer.drop w.1.toNat } })
  | failed1 {taken : ℤ} {w : ℤ × Link μ} (halive : l.thr1.ended = false)
      (hne : l.thr1.buffer ≠ [])
      (hw : below.partialWrite P (l.thr1.buffer.take 4096) taken = some w)
      (hpos : ¬ 0 < w.1) :
      ThreadEffect (.write1 taken)
        (.addToChain w.2.shutdownSocket { l with thr1 := { l.thr1 with ended := true } })
  | read2 {delivered : ℤ} {r : ℤ × List UInt8 × Link μ} (halive : l.thr2.ended = false)
      (hempty : l.thr2.buffer = [])
      (hr : below.partialRead P 4096 delivered = some r) (hpos : 0 < r.1) :
      ThreadEffect (.read2 delivered) (.addToChain r.2.2 { l with thr2 := { buffer := r.2.1 } })
  | ended2 {delivered : ℤ} {r : ℤ × List UInt8 × Link μ} (halive : l.thr2.ended = false)
      (hempty : l.thr2.buffer = [])
      (hr : below.partialRead P 4096 delivered = some r) (hpos : ¬ 0 < r.1) :
      ThreadEffect (.read2 delivered) (.addToChain r.2.2 { l with
        thr2 := { ended := true }, received := l.received.close })
  | write2 {taken : ℤ} (n : ℕ) (halive : l.thr2.ended = false) :
      ThreadEffect (.write2 taken) (.addToChain below { l with
        received := l.received.append (l.thr2.buffer.take n)
        thr2 := { buffer := l.thr2.buffer.drop n } })
  | failed2 {taken : ℤ} (halive : l.thr2.ended = false)
      (hneg : 0 < taken → l.received.closed = true) :
      ThreadEffect (.write2 taken) (.addToChain below { l with
        thr2 := { l.thr2 with ended := true }, received := l.received.close })

theorem chainThread_cases {a : ThreadAction}
    (ha : Link.chainThread P below l a = some link') :
    ThreadEffect P below l a link' := by
  cases a with
  | read1 delivered =>
      rw [Link.chainThread] at ha
      by_cases hwait : l.thr1.ended = true ∨ l.thr1.buffer ≠ [] ∨ ¬ l.sent.Ready delivered
      · rw [if_pos hwait] at ha
        cases ha
      · rw [if_neg hwait] at ha
        push Not at hwait
        obtain ⟨halive, hempty, hready⟩ := hwait
        dsimp only at ha
        split at ha
        · obtain rfl := Option.some.inj ha
          exact ThreadEffect.read1 _ (Bool.eq_false_iff.mpr halive) hempty
        · rename_i hpos
          obtain rfl := Option.some.inj ha
          refine ThreadEffect.ended1 (Bool.eq_false_iff.mpr halive) hempty fun hdelivered => ?_
          rw [Channel.Ready] at hready
          have hnil : l.sent.bytes = [] := List.length_eq_zero_iff.mp (by omega)
          rw [if_pos hnil] at hready
          exact ⟨hnil, hready⟩
  | write1 taken =>
      rw [Link.chainThread] at ha
      split_ifs at ha with hwait
      push Not at hwait
      obtain ⟨w, hw, rfl⟩ := Option.map_eq_some_iff.mp ha
      split
      · rename_i hpos
        exact ThreadEffect.write1 (Bool.eq_false_iff.mpr hwait.1) hw hpos
      · rename_i hpos
        exact ThreadEffect.failed1 (Bool.eq_false_iff.mpr hwait.1) hwait.2 hw hpos
  | read2 delivered =>
      rw [Link.chainThread] at ha
      split_ifs at ha with hwait
      push Not at hwait
      obtain ⟨r, hr, rfl⟩ := Option.map_eq_some_iff.mp ha
      split
      · rename_i hpos
        exact ThreadEffect.read2 (Bool.eq_false_iff.mpr hwait.1) hwait.2 hr hpos
      · rename_i hpos
        exact ThreadEffect.ended2 (Bool.eq_false_iff.mpr hwait.1) hwait.2 hr hpos
  | write2 taken =>
      rw [Link.chainThread] at ha
      by_cases hwait : l.thr2.ended = true ∨ l.thr2.buffer = []
      · rw [if_pos hwait] at ha
        cases ha
      · rw [if_neg hwait] at ha
        push Not at hwait
        dsimp only at ha
        split at ha
        · obtain rfl := Option.some.inj ha
          exact ThreadEffect.write2 _ (Bool.eq_false_iff.mpr hwait.1)
        · rename_i hpos
          obtain rfl := Option.some.inj ha
          refine ThreadEffect.failed2 (Bool.eq_false_iff.mpr hwait.1) fun htaken => ?_
          have hlen : 0 < (l.thr2.buffer.take 4096).length := by
            rw [List.length_take]
            have hne := List.length_pos_iff.mpr hwait.2
            omega
          by_contra hopen
          rw [Channel.takes, if_neg hopen] at hpos
          omega

/-- A thread changes where the bytes are, but not what is on its way. -/
theorem carries_chainThread
    (h : Carries P (.addToChain below l) pending) {a : ThreadAction}
    (ha : Link.chainThread P below l a = some link') :
    Carries P link' pending := by
  obtain ⟨inner, hinner, hsync⟩ := h
  cases chainThread_cases ha with
  | read1 n _ hempty =>
      refine ⟨inner, hinner, ?_⟩
      rw [hempty, List.nil_append] at hsync
      show Sync _ _ _ _ (_ ++ (_ ++ (inner ++ (l.sent.bytes.take n ++ l.sent.bytes.drop n))))
      rwa [List.take_append_drop]
  | ended1 _ hempty =>
      rw [hempty] at hsync
      exact ⟨inner, carries_shutdownSocket hinner, hsync⟩
  | @write1 _ w _ hw =>
      obtain ⟨hle, hnext⟩ := carries_partialWrite hinner hw
      refine ⟨_, hnext, ?_⟩
      have htake : (l.thr1.buffer.take 4096).take w.1.toNat = l.thr1.buffer.take w.1.toNat := by
        rw [List.length_take] at hle
        rw [List.take_take, Nat.min_eq_left (by omega)]
      show Sync _ _ _ _ (_ ++ (_ ++ ((inner ++ (l.thr1.buffer.take 4096).take w.1.toNat) ++
        (l.thr1.buffer.drop w.1.toNat ++ l.sent.bytes))))
      rw [htake, List.append_assoc, ← List.append_assoc (l.thr1.buffer.take _),
        List.take_append_drop]
      exact hsync
  | @failed1 _ w _ _ hw hpos =>
      obtain ⟨-, hnext⟩ := carries_partialWrite hinner hw
      have hzero : w.1.toNat = 0 := by omega
      rw [hzero, List.take_zero, List.append_nil] at hnext
      exact ⟨inner, carries_shutdownSocket hnext, hsync⟩
  | @read2 _ r _ hempty hr =>
      obtain ⟨hbytes, hnext⟩ := carries_partialRead hinner hr
      refine ⟨_, hnext, ?_⟩
      rw [hempty, List.nil_append] at hsync
      show Sync _ _ _ _ (_ ++ (r.2.1 ++ (inner.drop r.1.toNat ++ (_ ++ _))))
      rw [hbytes, ← List.append_assoc (inner.take _), List.take_append_drop]
      exact hsync
  | @ended2 _ r _ hempty hr hpos =>
      obtain ⟨-, hnext⟩ := carries_partialRead hinner hr
      have hzero : r.1.toNat = 0 := by omega
      rw [hzero, List.drop_zero] at hnext
      rw [hempty] at hsync
      exact ⟨inner, hnext, hsync⟩
  | write2 n =>
      refine ⟨inner, hinner, ?_⟩
      show Sync _ _ _ _ ((l.received.bytes ++ l.thr2.buffer.take n) ++
        (l.thr2.buffer.drop n ++ (inner ++ (_ ++ _))))
      rw [List.append_assoc, ← List.append_assoc (l.thr2.buffer.take _), List.take_append_drop]
      exact hsync
  | failed2 => exact ⟨inner, hinner, hsync⟩

theorem carries_pump {a : ThreadAction} (depth : ℕ)
    (h : Carries P link pending)
    (ha : link.pump P a depth = some link') :
    Carries P link' pending := by
  induction depth generalizing link link' pending with
  | zero =>
      cases link with
      | base wire =>
          rw [Link.pump] at ha
          cases ha
      | addToChain below l =>
          rw [Link.pump] at ha
          exact carries_chainThread h ha
  | succ depth ih =>
      cases link with
      | base wire =>
          rw [Link.pump] at ha
          cases ha
      | addToChain below l =>
          rw [Link.pump] at ha
          obtain ⟨below', hbelow, rfl⟩ := Option.map_eq_some_iff.mp ha
          obtain ⟨inner, hinner, hsync⟩ := h
          exact ⟨inner, ih hinner hbelow, hsync⟩

/-! ## Connections over built links -/

open Run

variable {c c' : Connection μ}

variable (P) in
/-- What was accepted is what was returned and what is on its way. -/
def InTransit (c : Connection μ) : Prop :=
  ∃ pending, Carries P c.link pending ∧ c.accepted = c.returned ++ pending

theorem inTransit_step (h : InTransit P c)
    {a : Action} {o : Unit} (hstep : c.step P a = some (c', o)) :
    InTransit P c' := by
  obtain ⟨pending, hcarries, haccepted⟩ := h
  cases a with
  | partialWrite data taken =>
      rw [Connection.step] at hstep
      obtain ⟨w, hw, hnext⟩ := Option.map_eq_some_iff.mp hstep
      obtain ⟨rfl, -⟩ := Prod.mk.inj hnext
      refine ⟨_, (carries_partialWrite hcarries hw).2, ?_⟩
      show c.accepted ++ _ = c.returned ++ (pending ++ _)
      rw [haccepted, List.append_assoc]
  | partialRead datalen delivered =>
      rw [Connection.step] at hstep
      split at hstep
      · cases hstep
      · rename_i r bytes link hr
        obtain ⟨rfl, -⟩ := Prod.mk.inj (Option.some.inj hstep)
        obtain ⟨hbytes, hnext⟩ := carries_partialRead hcarries hr
        refine ⟨_, hnext, ?_⟩
        show c.accepted = c.returned ++ bytes ++ pending.drop r.toNat
        rw [show bytes = pending.take r.toNat from hbytes, List.append_assoc,
          List.take_append_drop, haccepted]
  | shutdownSocket =>
      obtain ⟨rfl, -⟩ := Prod.mk.inj (Option.some.inj hstep)
      exact ⟨pending, carries_shutdownSocket hcarries, haccepted⟩
  | thread depth a =>
      rw [Connection.step] at hstep
      obtain ⟨link, hlink, hnext⟩ := Option.map_eq_some_iff.mp hstep
      obtain ⟨rfl, -⟩ := Prod.mk.inj hnext
      exact ⟨pending, carries_pump depth hcarries hlink, haccepted⟩

theorem inTransit_run {link : Link μ} (hcarries : Carries P link []) {actions : List Action}
    (hrun : reach (Connection.step P) { link := link } actions = some c) : InTransit P c :=
  reach_invariant (InTransit P) (fun _ _ _ _ _ hs hstep => inTransit_step hs hstep)
    ⟨[], hcarries, rfl⟩ hrun

/-! ## Building a chain -/

/-- The system takes or delivers something. -/
def ThreadAction.Reliable : ThreadAction → Prop
  | .read1 n | .write1 n | .read2 n | .write2 n => 0 < n

instance (a : ThreadAction) : Decidable a.Reliable := by
  cases a with
  | read1 n => exact inferInstanceAs (Decidable (0 < n))
  | write1 n => exact inferInstanceAs (Decidable (0 < n))
  | read2 n => exact inferInstanceAs (Decidable (0 < n))
  | write2 n => exact inferInstanceAs (Decidable (0 < n))

/-- No thread of a layer is let down by the system. -/
def Action.Reliable : Action → Prop
  | .thread _ a => a.Reliable
  | _ => True

/-- Nor is the chain shut down: a step while it is built. -/
def Action.Undisturbed : Action → Prop
  | .shutdownSocket => False
  | a => a.Reliable

theorem Action.Undisturbed.reliable {a : Action} (h : a.Undisturbed) : a.Reliable := by
  cases a with
  | shutdownSocket => exact h.elim
  | partialWrite data taken => exact h
  | partialRead datalen delivered => exact h
  | thread depth a => exact h

/-- The sockets of the uppermost layer after their handshake. -/
def Link.initialized (s t : ChainSocket μ) : Link μ → Link μ
  | .base wire => .base wire
  | .addToChain below l => .addToChain below { l with tx := .aes s, rx := .aes t }

variable (P) in
/-- A layer of AES before its handshake. -/
def Layer.fresh (e e' : Settings) : Layer μ where
  tx := .aes (ChainSocket.fresh P e)
  rx := .aes (ChainSocket.fresh P e')

variable (P) in
/-- A link as `addToChain` builds it at both ends.  A layer of AES sends the bytes of its handshake
over the layers that are there, with any steps that are allowed, and the far end takes them. -/
inductive Built (allowed : Action → Prop) : Link μ → Prop where
  | base : Built allowed (.base {})
  | xor {below : Link μ} (h : Built allowed below) (xorByte : UInt8) :
      Built allowed (.addToChain below { tx := .xor xorByte, rx := .xor xorByte })
  | aes {below : Link μ} (h : Built allowed below) (e e' : Settings)
      (hsize : 112 ≤ e.aesRegenBlockSize) (hint : e.aesRegenBlockSize < 2 ^ 31)
      (hsame : e'.aesRegenBlockSize = e.aesRegenBlockSize) (phase1Key : List UInt8)
      (r r' : RandomBytes) {s t : ChainSocket μ}
      (hs : (ChainSocket.fresh P e).postAcceptSubInitialization P phase1Key r
        ((ChainSocket.fresh P e').transmit P phase1Key r').1 = some s)
      (ht : (ChainSocket.fresh P e').postAcceptSubInitialization P phase1Key r'
        ((ChainSocket.fresh P e).transmit P phase1Key r).1 = some t)
      {actions : List Action} (hallowed : ∀ a ∈ actions, allowed a) {c : Connection μ}
      (hrun : reach (Connection.step P)
        { link := .addToChain below (.fresh P e e') } actions = some c)
      (hsent : c.accepted = ((ChainSocket.fresh P e).transmit P phase1Key r).1)
      (hreturned : c.returned = c.accepted) :
      Built allowed (c.link.initialized s t)

/-- When all has been taken there is nothing left on the way. -/
theorem Carries.initialized (h : Carries P link []) {n : ℕ} {s t : ChainSocket μ}
    (hstep : InStep P n { writer := s, reader := t } []) : Carries P (link.initialized s t) [] := by
  cases link with
  | base wire => exact h
  | addToChain below l =>
      obtain ⟨inner, hinner, hsync⟩ := h
      have hlen := hsync.length_eq
      have hnil := List.length_eq_zero_iff.mp hlen
      refine ⟨inner, hinner, ?_⟩
      show Sync P (.aes s) (.aes t) [] (l.received.bytes ++ _)
      rw [hnil]
      exact Sync.aes hstep

variable {allowed : Action → Prop}

theorem Built.carries (h : Built P allowed link) : Carries P link [] := by
  induction h with
  | base => exact rfl
  | xor h xorByte ih => exact ⟨[], ih, Sync.xor xorByte []⟩
  | @aes below h e e' hsize hint hsame phase1Key r r' s t hs ht actions hallowed c hrun hsent
      hreturned ih =>
      have hfresh : Carries P (.addToChain below (.fresh P e e')) [] :=
        ⟨[], ih, Sync.handshake rfl rfl []⟩
      obtain ⟨pending, hcarries, haccepted⟩ := inTransit_run hfresh hrun
      have hnil : pending = [] := by
        rw [hreturned] at haccepted
        exact List.append_right_eq_self.mp haccepted.symm
      subst hnil
      exact hcarries.initialized (inStep_of_handshake e e' rfl hsame hsize hint hs ht)

/-- The settings of a sample end, whose memory has the byte `b` all over. -/
def sampleSettings (n : ℕ) (b : UInt8) : Settings := ⟨n, fun _ _ => b⟩

def sampleKey : List UInt8 := List.replicate 32 7

/-- A sample end after its handshake. -/
def sampleSocket {e : Settings} (hint : e.aesRegenBlockSize < 2 ^ 31) (own other : UInt8) :
    ChainSocket UInt64 where
  settings := e
  readParams := (ChainSocket.fresh samplePrimitives e).readParams.start samplePrimitives
    (sampleBytes other).header
  writeParams := (ChainSocket.fresh samplePrimitives e).writeParams.start samplePrimitives
    (sampleBytes own).header
  initialized := true
  makesBlocks _ := makesBlocks_of_lt hint

theorem postAcceptSubInitialization_sample {n : ℕ} (hsize : 112 ≤ n) (hint : n < 2 ^ 31)
    (b b' own other : UInt8) :
    (ChainSocket.fresh samplePrimitives (sampleSettings n b)).postAcceptSubInitialization
        samplePrimitives sampleKey (sampleBytes own) ((ChainSocket.fresh samplePrimitives
          (sampleSettings n b')).transmit samplePrimitives sampleKey (sampleBytes other)).1 =
      some (sampleSocket (e := sampleSettings n b) hint own other) := by
  have hmakes := makesBlocks_of_lt hint
  have hblock : ∀ b iv, (sampleSettings n b).cipherText samplePrimitives sampleKey iv =
      samplePrimitives.aes256gcm sampleKey iv (genPlainText n) := fun b iv =>
    Settings.cipherText_of_lt (e := sampleSettings n b) hint sampleKey iv
  exact postAcceptSubInitialization_of_begins (sampleSettings n b) (sampleSettings n b') sampleKey
    hmakes hmakes hsize hsize (sampleBytes own) (sampleBytes other) (by rw [hblock, hblock])

/-- All that there is goes down the layers of one end and up those of the other. -/
def throughLayers (layers : ℕ) : List Action :=
  (List.range layers).flatMap (fun k => [.thread k (.read1 4096), .thread k (.write1 4096)])
    ++ (List.range layers).reverse.flatMap
      fun k => [.thread k (.read2 4096), .thread k (.write2 4096)]

/-- The bytes of a sample handshake. -/
def sampleSent (n : ℕ) : List UInt8 :=
  ((ChainSocket.fresh samplePrimitives (sampleSettings n 0)).transmit samplePrimitives sampleKey
    (sampleBytes 1)).1

/-- A layer of AES is added over so many layers. -/
def sampleHandshake (n layers : ℕ) (below : Link UInt64) : Option (Connection UInt64) :=
  reach (Connection.step samplePrimitives)
    { link := .addToChain below
        (.fresh samplePrimitives (sampleSettings n 0) (sampleSettings n 1)) }
    (.partialWrite (sampleSent n) 128 :: (throughLayers (layers + 1) ++ [.partialRead 128 128]))

/-- The link with that layer. -/
def sampleLayer (n : ℕ) (hint : n < 2 ^ 31) (c : Connection UInt64) : Link UInt64 :=
  c.link.initialized (sampleSocket (e := sampleSettings n 0) hint 1 2)
    (sampleSocket (e := sampleSettings n 1) hint 2 1)

theorem built_sampleLayer {n layers : ℕ} {below : Link UInt64} {c : Connection UInt64}
    (hsize : 112 ≤ n) (hint : n < 2 ^ 31) (hbelow : Built samplePrimitives Action.Undisturbed below)
    (h : sampleHandshake n layers below = some c) (hsent : c.accepted = sampleSent n)
    (hreturned : c.returned = sampleSent n) :
    Built samplePrimitives Action.Undisturbed (sampleLayer n hint c) := by
  refine Built.aes hbelow (sampleSettings n 0) (sampleSettings n 1) hsize hint rfl
    sampleKey (sampleBytes 1) (sampleBytes 2)
    (postAcceptSubInitialization_sample hsize hint 0 1 1 2)
    (postAcceptSubInitialization_sample hsize hint 1 0 2 1) ?_ h hsent (hreturned.trans hsent.symm)
  intro a ha
  simp only [throughLayers, List.mem_cons, List.mem_append, List.mem_flatMap, List.not_mem_nil,
    or_false] at ha
  obtain rfl | (⟨k, -, rfl | rfl⟩ | ⟨k, -, rfl | rfl⟩) | rfl := ha
  · trivial
  all_goals first | trivial | exact (by decide : (0 : ℤ) < 4096)

/-- The first two layers: one of XOR, and one of AES over it. -/
def sampleFirst : Option (Connection UInt64) :=
  sampleHandshake 112 1 (.addToChain (.base {}) { tx := .xor 0x77, rx := .xor 0x77 })

/-- Another layer of AES, with a block size of its own. -/
def sampleSecond : Option (Connection UInt64) :=
  sampleFirst.bind fun c => sampleHandshake 200 2 (sampleLayer 112 (by decide) c)

def sampleLink : Option (Link UInt64) := sampleSecond.map (sampleLayer 200 (by decide))

theorem built_sampleLink : ∃ link, sampleLink = some link ∧
    Built samplePrimitives Action.Undisturbed link := by
  have hfirst : sampleFirst.map (fun c => (c.accepted, c.returned)) =
      some (sampleSent 112, sampleSent 112) := by decide +kernel
  have hsecond : sampleSecond.map (fun c => (c.accepted, c.returned)) =
      some (sampleSent 200, sampleSent 200) := by decide +kernel
  obtain ⟨c, hc, hpair⟩ := Option.map_eq_some_iff.mp hfirst
  obtain ⟨c', hc', hpair'⟩ := Option.map_eq_some_iff.mp hsecond
  have hlayer : Built samplePrimitives Action.Undisturbed (sampleLayer 112 (by decide) c) :=
    built_sampleLayer (by decide) (by decide) (.xor .base 0x77) hc (Prod.mk.inj hpair).1
      (Prod.mk.inj hpair).2
  have hadd : sampleHandshake 200 2 (sampleLayer 112 (by decide) c) = some c' := by
    rw [← hc', sampleSecond, hc, Option.bind_some]
  refine ⟨sampleLayer 200 (by decide) c', by rw [sampleLink, hc', Option.map_some], ?_⟩
  exact built_sampleLayer (by decide) (by decide) hlayer hadd (Prod.mk.inj hpair').1
    (Prod.mk.inj hpair').2

/-- A write of three bytes, the first two of which come through. -/
def sampleActions : List Action :=
  [.partialWrite [104, 101, 106] 3, .thread 0 (.read1 3), .thread 0 (.write1 2),
    .thread 1 (.read1 4), .thread 1 (.write1 2), .thread 2 (.read1 4), .thread 2 (.write1 2),
    .thread 2 (.read2 8), .thread 2 (.write2 2), .thread 1 (.read2 4), .thread 1 (.write2 2),
    .thread 0 (.read2 4), .thread 0 (.write2 2), .partialRead 16 16]

/-- A run over the sample link. -/
def sampleRun (actions : List Action) : Option (Connection UInt64) :=
  sampleLink.bind fun link => reach (Connection.step samplePrimitives) { link := link } actions

/-- What a run over the sample link comes to. -/
theorem sampleRun_spec {actions : List Action} {β : Type} {f : Connection UInt64 → β} {b : β}
    (h : (sampleRun actions).map f = some b) :
    ∃ link c, Built samplePrimitives Action.Undisturbed link ∧
      reach (Connection.step samplePrimitives) { link := link } actions = some c ∧ f c = b := by
  obtain ⟨link, hlink, hbuilt⟩ := built_sampleLink
  obtain ⟨c, hc, hf⟩ := Option.map_eq_some_iff.mp h
  rw [sampleRun, hlink, Option.bind_some] at hc
  exact ⟨link, c, hbuilt, hc, hf⟩

end SocketChain

end Mantids
