/-
# The end of a chain

The threads of a chain end one after the other: a thread that finds no more to read shuts down the
socket that it writes to, and the next thread finds no more to read when it has taken the rest.

* `InOrder`, `Orderly` — no thread of a link has ended before it had to;
* `chain_complete` — the end of the stream is read behind everything that was accepted;
* `distance` — how far the bytes of a link have to go, and `exists_pump` — some thread can take a
  byte further as long as there is a way to go;
* `chain_drains` — what was accepted can always be brought to where it is read.
-/
import Mantids.SocketChain

namespace Mantids

open Keystream SocketChainAes Run

namespace SocketChain

variable {μ : Type*} {P : Primitives μ}
variable {tx rx : ChainElement μ} {pending : List UInt8} {link link' below : Link μ} {l : Layer μ}
variable {c c' : Connection μ}

/-! ## The end of the stream -/

namespace Link

/-- The uppermost socket of the end that writes was shut down. -/
def WriteClosed : Link μ → Prop
  | .base wire => wire.closed = true
  | .addToChain _ l => l.sent.closed = true

/-- There is nothing more to come from the uppermost socket of the end that reads. -/
def AtEnd : Link μ → Prop
  | .base wire => wire.bytes = [] ∧ wire.closed = true
  | .addToChain _ l => l.received.bytes = [] ∧ l.received.closed = true

end Link

/-- The threads of a layer have not ended early. -/
structure InOrder (below : Link μ) (l : Layer μ) : Prop where
  thr1 : l.thr1.ended = true → l.thr1.buffer = [] ∧ l.sent.bytes = [] ∧ l.sent.closed = true
  closed : below.WriteClosed → l.thr1.ended = true
  thr2 : l.thr2.ended = true → l.thr2.buffer = [] ∧ below.AtEnd
  received : l.received.closed = true → l.thr2.ended = true

/-- No thread of a link has ended early. -/
def Orderly : Link μ → Prop
  | .base _ => True
  | .addToChain below l => Orderly below ∧ InOrder below l

namespace Channel

theorem takes_of_closed {c : Channel} (h : c.closed = true) (taken : ℤ) : c.takes taken = -1 :=
  if_pos h

theorem takes_of_open {c : Channel} (h : ¬ c.closed = true) (taken : ℤ) : c.takes taken = taken :=
  if_neg h

end Channel

/-- At the end of the stream there is nothing left on the way. -/
theorem eq_nil_of_atEnd (hc : Carries P link pending) (ho : Orderly link)
    (hend : link.AtEnd) : pending = [] ∧ link.WriteClosed := by
  induction link generalizing pending with
  | base wire => exact ⟨hc.symm.trans hend.1, hend.2⟩
  | addToChain below l ih =>
      obtain ⟨inner, hinner, hsync⟩ := hc
      obtain ⟨hbelow, hl⟩ := ho
      -- the end has come up the layers of one end, and down those of the other
      obtain ⟨hthr2, hend2⟩ := hl.thr2 (hl.received hend.2)
      obtain ⟨hnil, hclosed⟩ := ih hinner hbelow hend2
      obtain ⟨hthr1, hsent, hwrite⟩ := hl.thr1 (hl.closed hclosed)
      have hlen := hsync.length_eq
      rw [hend.1, hthr2, hnil, hthr1, hsent] at hlen
      exact ⟨List.length_eq_zero_iff.mp hlen.symm, hwrite⟩

theorem length_partialWrite_le {data : List UInt8} {taken : ℤ} {w : ℤ × List UInt8 × ChainElement μ}
    (hw : tx.partialWrite P data taken = some w) :
    w.1.toNat ≤ taken.toNat ∧ w.2.1.length ≤ taken.toNat := by
  cases tx with
  | xor xorByte =>
      rw [ChainElement.partialWrite] at hw
      split_ifs at hw
      · obtain rfl := Option.some.inj hw
        exact ⟨Nat.zero_le _, Nat.zero_le _⟩
      · obtain rfl := Option.some.inj hw
        dsimp only
        rw [List.length_take]
        omega
  | aes s =>
      rw [ChainElement.partialWrite] at hw
      obtain rfl := Option.some.inj hw
      refine ⟨?_, length_aes_partialWrite_le s data taken⟩
      show (s.partialWrite P data taken).1.toNat ≤ _
      rw [aes_partialWrite_result]
      omega

variable (P) in
/-- A link takes some bytes, not too many, as the system does. -/
theorem exists_partialWrite_of_open (hopen : ¬ link.WriteClosed) {data : List UInt8}
    (hne : data ≠ []) (hlt : data.length < 2 ^ 32) (taken : ℤ) :
    ∃ w, link.partialWrite P data taken = some w ∧
      w.1 = min taken data.length := by
  cases link with
  | base wire =>
      rw [Link.partialWrite, Channel.takes_of_open hopen]
      exact ⟨_, rfl, rfl⟩
  | addToChain below l =>
      rw [Link.partialWrite, Channel.takes_of_open hopen]
      obtain ⟨w, hw, hr⟩ := exists_partialWrite P l.tx hne hlt taken
      rw [hw]
      exact ⟨_, rfl, hr⟩

theorem partialRead_result {datalen : ℕ} (hpos : 0 < datalen) {front : List UInt8} {delivered : ℤ}
    {r : ℤ × List UInt8 × ChainElement μ}
    (hr : rx.partialRead P datalen front delivered = some r) :
    r.1 = min (min delivered datalen) front.length := by
  cases rx with
  | xor xorByte =>
      rw [ChainElement.partialRead, if_neg hpos.ne'] at hr
      split_ifs at hr
      obtain rfl := Option.some.inj hr
      rfl
  | aes t =>
      rw [ChainElement.partialRead] at hr
      obtain rfl := Option.some.inj hr
      exact aes_partialRead_result t datalen front delivered

/-- A read that gives nothing, and did not fail, has come to the end. -/
theorem atEnd_of_partialRead {datalen : ℕ} (hpos : 0 < datalen) {delivered : ℤ}
    {r : ℤ × List UInt8 × Link μ}
    (hr : link.partialRead P datalen delivered = some r) (hle : ¬ 0 < r.1)
    (hok : 0 < delivered ∨ r.1 = 0) : r.2.2.AtEnd := by
  have hready : ∀ {c : Channel}, c.Ready delivered →
      r.1 = min (min delivered datalen) c.bytes.length → c.bytes = [] ∧ c.closed = true := by
    intro c hready hresult
    rw [Channel.Ready] at hready
    by_cases hnil : c.bytes = []
    · rw [if_pos hnil] at hready
      exact ⟨hnil, hready⟩
    · rw [if_neg hnil] at hready
      have hlen := List.length_pos_iff.mpr hnil
      omega
  cases link with
  | base wire =>
      rw [Link.partialRead] at hr
      split_ifs at hr with hwire
      obtain rfl := Option.some.inj hr
      obtain ⟨hnil, hclosed⟩ := hready hwire rfl
      show wire.bytes.drop _ = [] ∧ wire.closed = true
      rw [hnil, List.drop_nil]
      exact ⟨rfl, hclosed⟩
  | addToChain below l =>
      rw [Link.partialRead] at hr
      split_ifs at hr with hreceived
      obtain ⟨v, hv, rfl⟩ := Option.map_eq_some_iff.mp hr
      obtain ⟨hnil, hclosed⟩ := hready hreceived (partialRead_result hpos hv)
      show l.received.bytes.drop _ = [] ∧ l.received.closed = true
      rw [hnil, List.drop_nil]
      exact ⟨rfl, hclosed⟩

/-- What a step keeps of a link, seen from the layer above. -/
structure Keeps (link link' : Link μ) : Prop where
  orderly : Orderly link'
  writeClosed : link'.WriteClosed ↔ link.WriteClosed
  atEnd : link.AtEnd → link'.AtEnd

theorem keeps_partialWrite (ho : Orderly link) {data : List UInt8} {taken : ℤ} {w : ℤ × Link μ}
    (hw : link.partialWrite P data taken = some w) : Keeps link w.2 := by
  cases link with
  | base wire =>
      rw [Link.partialWrite] at hw
      obtain rfl := Option.some.inj hw
      refine ⟨trivial, Iff.rfl, fun hend => ⟨?_, hend.2⟩⟩
      have hzero : (min (wire.takes taken) data.length).toNat = 0 := by
        rw [Channel.takes_of_closed hend.2]
        omega
      show wire.bytes ++ data.take _ = []
      rw [hend.1, hzero, List.take_zero, List.append_nil]
  | addToChain below l =>
      rw [Link.partialWrite] at hw
      obtain ⟨v, hv, rfl⟩ := Option.map_eq_some_iff.mp hw
      obtain ⟨hbelow, hl⟩ := ho
      refine ⟨⟨hbelow, ⟨fun hended => ?_, hl.closed, hl.thr2, hl.received⟩⟩, Iff.rfl, id⟩
      obtain ⟨hbuffer, hsent, hclosed⟩ := hl.thr1 hended
      rw [Channel.takes_of_closed hclosed] at hv
      have hnil : v.2.1 = [] :=
        List.length_eq_zero_iff.mp (Nat.le_zero.mp (length_partialWrite_le hv).2)
      refine ⟨hbuffer, ?_, hclosed⟩
      show l.sent.bytes ++ v.2.1 = []
      rw [hsent, hnil, List.append_nil]

theorem keeps_partialRead (ho : Orderly link) {datalen : ℕ} {delivered : ℤ}
    {r : ℤ × List UInt8 × Link μ}
    (hr : link.partialRead P datalen delivered = some r) : Keeps link r.2.2 := by
  have hdrop : ∀ {bytes : List UInt8} (n : ℕ), bytes = [] → bytes.drop n = [] := by
    rintro _ n rfl
    exact List.drop_nil
  cases link with
  | base wire =>
      rw [Link.partialRead] at hr
      split_ifs at hr
      obtain rfl := Option.some.inj hr
      exact ⟨trivial, Iff.rfl, fun hend => ⟨hdrop _ hend.1, hend.2⟩⟩
  | addToChain below l =>
      rw [Link.partialRead] at hr
      split_ifs at hr
      obtain ⟨v, -, rfl⟩ := Option.map_eq_some_iff.mp hr
      obtain ⟨hbelow, hl⟩ := ho
      exact ⟨⟨hbelow, ⟨hl.thr1, hl.closed, hl.thr2, hl.received⟩⟩, Iff.rfl,
        fun hend => ⟨hdrop _ hend.1, hend.2⟩⟩

theorem orderly_shutdownSocket (ho : Orderly link) :
    Orderly link.shutdownSocket ∧ (link.AtEnd → link.shutdownSocket.AtEnd) := by
  cases link with
  | base wire => exact ⟨trivial, fun hend => ⟨hend.1, rfl⟩⟩
  | addToChain below l =>
      obtain ⟨hbelow, hl⟩ := ho
      refine ⟨⟨hbelow, ⟨fun hended => ?_, hl.closed, hl.thr2, hl.received⟩⟩, id⟩
      exact ⟨(hl.thr1 hended).1, (hl.thr1 hended).2.1, rfl⟩

theorem keeps_chainThread (ho : Orderly (.addToChain below l)) {a : ThreadAction}
    (hok : a.Reliable) (ha : Link.chainThread P below l a = some link') :
    Keeps (.addToChain below l) link' := by
  obtain ⟨hbelow, hl⟩ := ho
  cases chainThread_cases ha with
  | read1 n halive _ =>
      refine ⟨⟨hbelow, ⟨fun hended => ?_, fun hclosed => ?_, hl.thr2, hl.received⟩⟩, Iff.rfl, id⟩
      · cases hended
      · rw [hl.closed hclosed] at halive
        cases halive
  | ended1 halive hempty hend =>
      obtain ⟨hnil, hclosed⟩ := hend hok
      obtain ⟨hshut, hatEnd⟩ := orderly_shutdownSocket hbelow
      exact ⟨⟨hshut, ⟨fun _ => ⟨rfl, hnil, hclosed⟩, fun _ => rfl,
        fun hended => ⟨(hl.thr2 hended).1, hatEnd (hl.thr2 hended).2⟩, hl.received⟩⟩, Iff.rfl, id⟩
  | write1 halive hw hpos =>
      have hkeep := keeps_partialWrite hbelow hw
      refine ⟨⟨hkeep.orderly, ⟨fun hended => ?_, fun hclosed => ?_,
        fun hended => ⟨(hl.thr2 hended).1, hkeep.atEnd (hl.thr2 hended).2⟩, hl.received⟩⟩, Iff.rfl,
        id⟩
      · cases hended
      · rw [hl.closed (hkeep.writeClosed.mp hclosed)] at halive
        cases halive
  | @failed1 taken w halive hne hw hpos =>
      -- the layer below takes some bytes as long as the thread has not ended
      have hopen : ¬ below.WriteClosed := by
        intro hclosed
        rw [hl.closed hclosed] at halive
        cases halive
      have hne' : l.thr1.buffer.take 4096 ≠ [] := by
        intro hnil
        rcases List.take_eq_nil_iff.mp hnil with hzero | hbuffer
        · cases hzero
        · exact hne hbuffer
      have hlen : (l.thr1.buffer.take 4096).length < 2 ^ 32 := by
        rw [List.length_take]
        omega
      obtain ⟨v, hv, hresult⟩ := exists_partialWrite_of_open P
        hopen hne' hlen taken
      rw [hw] at hv
      obtain rfl := Option.some.inj hv
      have hsome := List.length_pos_iff.mpr hne'
      have htaken : 0 < taken := hok
      omega
  | read2 halive hempty hr hpos =>
      have hkeep := keeps_partialRead hbelow hr
      refine ⟨⟨hkeep.orderly, ⟨hl.thr1, fun hclosed => hl.closed (hkeep.writeClosed.mp hclosed),
        fun hended => ?_, fun hclosed => ?_⟩⟩, Iff.rfl, id⟩
      · cases hended
      · rw [hl.received hclosed] at halive
        cases halive
  | ended2 halive hempty hr hpos =>
      have hkeep := keeps_partialRead hbelow hr
      have hatEnd := atEnd_of_partialRead (by decide) hr hpos (Or.inl hok)
      exact ⟨⟨hkeep.orderly, ⟨hl.thr1, fun hclosed => hl.closed (hkeep.writeClosed.mp hclosed),
        fun _ => ⟨rfl, hatEnd⟩, fun _ => rfl⟩⟩, Iff.rfl, fun hend => ⟨hend.1, rfl⟩⟩
  | write2 n halive =>
      have hopen : ¬ l.received.closed = true := by
        intro hclosed
        rw [hl.received hclosed] at halive
        cases halive
      refine ⟨⟨hbelow, ⟨hl.thr1, hl.closed, fun hended => ?_, fun hclosed => ?_⟩⟩, Iff.rfl,
        fun hend => ?_⟩
      · cases hended
      · exact absurd hclosed hopen
      · exact absurd hend.2 hopen
  | failed2 halive hneg =>
      rw [hl.received (hneg hok)] at halive
      cases halive

theorem keeps_pump {a : ThreadAction} (hok : a.Reliable) (depth : ℕ) (ho : Orderly link)
    (ha : link.pump P a depth = some link') : Keeps link link' := by
  induction depth generalizing link link' with
  | zero =>
      cases link with
      | base wire =>
          rw [Link.pump] at ha
          cases ha
      | addToChain below l =>
          rw [Link.pump] at ha
          exact keeps_chainThread ho hok ha
  | succ depth ih =>
      cases link with
      | base wire =>
          rw [Link.pump] at ha
          cases ha
      | addToChain below l =>
          rw [Link.pump] at ha
          obtain ⟨below', hbelow, rfl⟩ := Option.map_eq_some_iff.mp ha
          obtain ⟨hold, hl⟩ := ho
          have hkeep := ih hold hbelow
          exact ⟨⟨hkeep.orderly, ⟨hl.thr1, fun hclosed => hl.closed (hkeep.writeClosed.mp hclosed),
            fun hended => ⟨(hl.thr2 hended).1, hkeep.atEnd (hl.thr2 hended).2⟩, hl.received⟩⟩,
            Iff.rfl, id⟩

/-! ## Connections -/

/-- No thread has ended early, and the end of the stream is the end. -/
structure Ordered (c : Connection μ) : Prop where
  orderly : Orderly c.link
  finished : c.finished = true → c.link.AtEnd

theorem ordered_step (h : Ordered c) {a : Action} (hok : a.Reliable) {o : Unit}
    (hstep : c.step P a = some (c', o)) : Ordered c' := by
  cases a with
  | partialWrite data taken =>
      rw [Connection.step] at hstep
      obtain ⟨w, hw, hnext⟩ := Option.map_eq_some_iff.mp hstep
      obtain ⟨rfl, -⟩ := Prod.mk.inj hnext
      have hkeep := keeps_partialWrite h.orderly hw
      exact ⟨hkeep.orderly, fun hfinished => hkeep.atEnd (h.finished hfinished)⟩
  | partialRead datalen delivered =>
      rw [Connection.step] at hstep
      split at hstep
      · cases hstep
      · rename_i r bytes link hr
        obtain ⟨rfl, -⟩ := Prod.mk.inj (Option.some.inj hstep)
        have hkeep := keeps_partialRead h.orderly hr
        refine ⟨hkeep.orderly, fun hfinished => ?_⟩
        rcases Bool.or_eq_true_iff.mp hfinished with hbefore | hnow
        · exact hkeep.atEnd (h.finished hbefore)
        · obtain ⟨hzero, hne⟩ := of_decide_eq_true hnow
          exact atEnd_of_partialRead (Nat.pos_of_ne_zero hne) hr (show ¬ 0 < r by omega)
            (Or.inr hzero)
  | shutdownSocket =>
      obtain ⟨rfl, -⟩ := Prod.mk.inj (Option.some.inj hstep)
      obtain ⟨horderly, hatEnd⟩ := orderly_shutdownSocket h.orderly
      exact ⟨horderly, fun hfinished => hatEnd (h.finished hfinished)⟩
  | thread depth a =>
      rw [Connection.step] at hstep
      obtain ⟨link, hlink, hnext⟩ := Option.map_eq_some_iff.mp hstep
      obtain ⟨rfl, -⟩ := Prod.mk.inj hnext
      have hkeep := keeps_pump hok depth h.orderly hlink
      exact ⟨hkeep.orderly, fun hfinished => hkeep.atEnd (h.finished hfinished)⟩

theorem ordered_run {link : Link μ} (ho : Orderly link) {actions : List Action}
    (hok : ∀ a ∈ actions, a.Reliable)
    (hrun : reach (Connection.step P) { link := link } actions = some c) : Ordered c :=
  reach_invariant Ordered (fun _ a ha _ _ hs hstep => ordered_step hs (hok a ha) hstep)
    ⟨ho, fun hfinished => absurd hfinished Bool.false_ne_true⟩ hrun

/-- Only a user shuts down the uppermost socket. -/
theorem writeClosed_step (ho : Orderly c.link) {a : Action} (hok : a.Undisturbed) {o : Unit}
    (hstep : c.step P a = some (c', o)) : c'.link.WriteClosed ↔ c.link.WriteClosed := by
  cases a with
  | partialWrite data taken =>
      rw [Connection.step] at hstep
      obtain ⟨w, hw, hnext⟩ := Option.map_eq_some_iff.mp hstep
      obtain ⟨rfl, -⟩ := Prod.mk.inj hnext
      exact (keeps_partialWrite ho hw).writeClosed
  | partialRead datalen delivered =>
      rw [Connection.step] at hstep
      split at hstep
      · cases hstep
      · rename_i r bytes link hr
        obtain ⟨rfl, -⟩ := Prod.mk.inj (Option.some.inj hstep)
        exact (keeps_partialRead ho hr).writeClosed
  | shutdownSocket => exact hok.elim
  | thread depth a =>
      rw [Connection.step] at hstep
      obtain ⟨link, hlink, hnext⟩ := Option.map_eq_some_iff.mp hstep
      obtain ⟨rfl, -⟩ := Prod.mk.inj hnext
      exact (keeps_pump hok depth ho hlink).writeClosed

/-- A layer that is added to an open link is in order. -/
theorem inOrder_fresh (hopen : ¬ below.WriteClosed) (tx rx : ChainElement μ) :
    InOrder below { tx := tx, rx := rx } where
  thr1 hended := absurd hended Bool.false_ne_true
  closed hclosed := absurd hclosed hopen
  thr2 hended := absurd hended Bool.false_ne_true
  received hclosed := absurd hclosed Bool.false_ne_true

theorem Orderly.initialized (h : Orderly link) (s t : ChainSocket μ) :
    Orderly (link.initialized s t) := by
  cases link with
  | base wire => exact h
  | addToChain below l => exact ⟨h.1, ⟨h.2.thr1, h.2.closed, h.2.thr2, h.2.received⟩⟩

/-- A chain that was built undisturbed is in order, and open. -/
theorem Built.orderly (h : Built P Action.Undisturbed link) :
    Orderly link ∧ ¬ link.WriteClosed := by
  induction h with
  | base => exact ⟨trivial, Bool.false_ne_true⟩
  | xor h xorByte ih => exact ⟨⟨ih.1, inOrder_fresh ih.2 _ _⟩, Bool.false_ne_true⟩
  | @aes below h e e' hsize hint hsame phase1Key r r' s t hs ht actions hallowed c hrun hsent
      hreturned ih =>
      have hfresh : Ordered ({ link := .addToChain below (.fresh P e e') } : Connection μ) ∧
          ¬ (Link.addToChain below (.fresh P e e')).WriteClosed :=
        ⟨⟨⟨ih.1, inOrder_fresh ih.2 _ _⟩, fun hfinished => absurd hfinished Bool.false_ne_true⟩,
          Bool.false_ne_true⟩
      obtain ⟨hordered, hopen⟩ := reach_invariant (fun c => Ordered c ∧ ¬ c.link.WriteClosed)
        (fun _ a ha _ _ hs hstep =>
          ⟨ordered_step hs.1 (hallowed a ha).reliable hstep,
            mt (writeClosed_step hs.1.orderly (hallowed a ha) hstep).mp hs.2⟩) hfresh hrun
      refine ⟨hordered.orderly.initialized s t, ?_⟩
      cases hlink : c.link with
      | base wire =>
          rw [hlink] at hopen
          exact hopen
      | addToChain below l =>
          rw [hlink] at hopen
          exact hopen

/-- Where nothing is let down, the bytes are in order and so are the threads. -/
theorem inTransit_and_ordered
    (hlink : Built P Action.Undisturbed link) {actions : List Action}
    (hok : ∀ a ∈ actions, a.Reliable)
    (hrun : reach (Connection.step P) { link := link } actions = some c) :
    InTransit P c ∧ Ordered c := by
  exact ⟨inTransit_run hlink.carries hrun, ordered_run hlink.orderly.1 hok hrun⟩

/-- Behind a write that came through, the end of the stream comes through the layers. -/
def sampleEnd : List Action :=
  [.shutdownSocket, .thread 0 (.write1 1), .thread 0 (.read1 1), .thread 1 (.read1 1),
    .thread 1 (.write1 1), .thread 1 (.read1 1), .thread 2 (.read1 1), .thread 2 (.write1 1),
    .thread 2 (.read1 1), .thread 2 (.read2 1), .thread 2 (.write2 1), .thread 2 (.read2 1),
    .thread 1 (.read2 1), .thread 1 (.write2 1), .thread 1 (.read2 1), .thread 0 (.read2 1),
    .thread 0 (.write2 1), .thread 0 (.read2 1), .partialRead 16 16, .partialRead 16 16]

namespace Link

/-- How many places there are where a byte can be. -/
def height : Link μ → ℕ
  | .base _ => 1
  | .addToChain below _ => below.height + 4

/-- How many bytes are on their way. -/
def inFlight : Link μ → ℕ
  | .base wire => wire.bytes.length
  | .addToChain below l =>
    l.received.bytes.length + l.thr2.buffer.length + below.inFlight + l.thr1.buffer.length +
      l.sent.bytes.length

/-- How many steps from one place to the next the bytes have in front of them. -/
def distance : Link μ → ℕ
  | .base _ => 0
  | .addToChain below l =>
    l.thr2.buffer.length + (below.distance + 2 * below.inFlight) +
      (below.height + 2) * l.thr1.buffer.length + (below.height + 3) * l.sent.bytes.length

/-- The bytes that can be read. -/
def readable : Link μ → List UInt8
  | .base wire => wire.bytes
  | .addToChain _ l => l.received.bytes

end Link

theorem one_le_height (link : Link μ) : 1 ≤ link.height := by
  cases link with
  | base wire => exact le_rfl
  | addToChain below l =>
      rw [Link.height]
      omega

theorem Carries.inFlight_eq (h : Carries P link pending) :
    link.inFlight = pending.length := by
  induction link generalizing pending with
  | base wire =>
      rw [Link.inFlight, show wire.bytes = pending from h]
  | addToChain below l ih =>
      obtain ⟨inner, hinner, hsync⟩ := h
      have hlen := hsync.length_eq
      simp only [List.length_append] at hlen
      rw [Link.inFlight, ih hinner]
      omega

/-- What has no way in front of it can be read. -/
theorem readable_of_distance (hzero : link.distance = 0) :
    link.readable.length = link.inFlight := by
  cases link with
  | base wire => rfl
  | addToChain below l =>
      have hheight := one_le_height below
      rw [Link.distance] at hzero
      have hthr1 : l.thr1.buffer.length = 0 := by
        by_contra hne
        have := Nat.mul_pos (show 0 < below.height + 2 by omega) (Nat.pos_of_ne_zero hne)
        omega
      have hsent : l.sent.bytes.length = 0 := by
        by_contra hne
        have := Nat.mul_pos (show 0 < below.height + 3 by omega) (Nat.pos_of_ne_zero hne)
        omega
      rw [Link.readable, Link.inFlight]
      omega

theorem height_partialWrite {data : List UInt8} {taken : ℤ} {w : ℤ × Link μ}
    (hw : link.partialWrite P data taken = some w) :
    w.2.height = link.height := by
  cases link with
  | base wire =>
      rw [Link.partialWrite] at hw
      obtain rfl := Option.some.inj hw
      rfl
  | addToChain below l =>
      rw [Link.partialWrite] at hw
      obtain ⟨v, -, rfl⟩ := Option.map_eq_some_iff.mp hw
      rfl

/-- What a read takes out of a link had no way in front of it. -/
theorem distance_partialRead {datalen : ℕ} {delivered : ℤ} {r : ℤ × List UInt8 × Link μ}
    (hr : link.partialRead P datalen delivered = some r) :
    r.2.2.height = link.height ∧ r.2.2.distance = link.distance := by
  cases link with
  | base wire =>
      rw [Link.partialRead] at hr
      split_ifs at hr
      obtain rfl := Option.some.inj hr
      exact ⟨rfl, rfl⟩
  | addToChain below l =>
      rw [Link.partialRead] at hr
      split_ifs at hr
      obtain ⟨v, -, rfl⟩ := Option.map_eq_some_iff.mp hr
      exact ⟨rfl, rfl⟩

theorem height_shutdownSocket (link : Link μ) : link.shutdownSocket.height = link.height := by
  cases link with
  | base wire => rfl
  | addToChain below l => rfl

theorem height_pump {a : ThreadAction} (depth : ℕ)
    (ha : link.pump P a depth = some link') : link'.height = link.height := by
  induction depth generalizing link link' with
  | zero =>
      cases link with
      | base wire =>
          rw [Link.pump] at ha
          cases ha
      | addToChain below l =>
          rw [Link.pump] at ha
          show _ = below.height + 4
          cases chainThread_cases ha with
          | read1 => rfl
          | ended1 => exact congrArg (· + 4) (height_shutdownSocket below)
          | write1 _ hw => exact congrArg (· + 4) (height_partialWrite hw)
          | failed1 _ _ hw =>
              exact congrArg (· + 4) ((height_shutdownSocket _).trans (height_partialWrite hw))
          | read2 _ _ hr => exact congrArg (· + 4) (distance_partialRead hr).1
          | ended2 _ _ hr => exact congrArg (· + 4) (distance_partialRead hr).1
          | write2 => rfl
          | failed2 => rfl
  | succ depth ih =>
      cases link with
      | base wire =>
          rw [Link.pump] at ha
          cases ha
      | addToChain below l =>
          rw [Link.pump] at ha
          obtain ⟨below', hbelow, rfl⟩ := Option.map_eq_some_iff.mp ha
          exact congrArg (· + 4) (ih hbelow)

/-- What a write brings into a link has the whole way in front of it. -/
theorem distance_partialWrite
    (h : Carries P link pending) {data : List UInt8} {taken : ℤ}
    {w : ℤ × Link μ} (hw : link.partialWrite P data taken = some w) :
    w.2.distance = link.distance + (link.height - 1) * w.1.toNat := by
  cases link with
  | base wire =>
      rw [Link.partialWrite] at hw
      obtain rfl := Option.some.inj hw
      rw [Link.height, Nat.sub_self, Nat.zero_mul]
      rfl
  | addToChain below l =>
      rw [Link.partialWrite] at hw
      obtain ⟨v, hv, rfl⟩ := Option.map_eq_some_iff.mp hw
      obtain ⟨inner, -, hsync⟩ := h
      obtain ⟨hle, hnext⟩ := sync_partialWrite hsync hv
      have hbytes : v.2.1.length = v.1.toNat := by
        have hbefore := hsync.length_eq
        have hafter := hnext.length_eq
        simp only [List.length_append, List.length_take] at hbefore hafter
        omega
      simp only [Link.distance, Link.height, Channel.append, List.length_append, hbytes]
      rw [show below.height + 4 - 1 = below.height + 3 from rfl, Nat.mul_add]
      omega

variable (P) in
/-- A byte that can be read is read by a call that asks for it. -/
theorem exists_partialRead (hne : link.readable ≠ []) {datalen : ℕ} (hpos : 0 < datalen) :
    ∃ r, link.partialRead P datalen 1 = some r ∧ r.1 = 1 := by
  have hready : ∀ {c : Channel}, c.bytes ≠ [] → c.Ready 1 := by
    intro c hc
    rw [Channel.Ready, if_neg hc]
    decide
  have hlen := List.length_pos_iff.mpr hne
  cases link with
  | base wire =>
      refine ⟨_, by rw [Link.partialRead, if_pos (hready hne)], ?_⟩
      rw [Link.readable] at hlen
      dsimp only
      omega
  | addToChain below l =>
      rw [Link.readable] at hlen
      have hone : min (min 1 (datalen : ℤ)) (l.received.bytes.length : ℤ) = 1 := by omega
      obtain ⟨v, hv⟩ : ∃ v, l.rx.partialRead P datalen l.received.bytes 1 =
          some v := by
        cases l.rx with
        | xor xorByte =>
            rw [ChainElement.partialRead, if_neg hpos.ne', hone, if_neg (by decide)]
            exact ⟨_, rfl⟩
        | aes t => exact ⟨_, rfl⟩
      rw [Link.partialRead, if_pos (hready hne), hv]
      exact ⟨_, rfl, (partialRead_result hpos hv).trans hone⟩

variable (P below l) in
/-- A call of a thread of the uppermost layer takes a byte further. -/
def TakesFurther (a : ThreadAction) : Prop :=
  ∃ link', Link.chainThread P below l a = some link' ∧
    link'.distance < (Link.addToChain below l).distance

theorem takesFurther_read1 (halive : l.thr1.ended = false) (hempty : l.thr1.buffer = [])
    (hne : l.sent.bytes ≠ []) : TakesFurther P below l (.read1 1) := by
  have hlen := List.length_pos_iff.mpr hne
  have hready : l.sent.Ready 1 := by
    rw [Channel.Ready, if_neg hne]
    decide
  have hone : min (min 1 (4096 : ℤ)) (l.sent.bytes.length : ℤ) = 1 := by omega
  have hwait : ¬ (l.thr1.ended = true ∨ l.thr1.buffer ≠ [] ∨ ¬ l.sent.Ready 1) := by
    rw [halive, hempty]
    simp [hready]
  refine ⟨.addToChain below { l with
    sent := l.sent.drop 1, thr1 := { buffer := l.sent.bytes.take 1 } }, ?_, ?_⟩
  · rw [Link.chainThread, if_neg hwait, hone]
    rfl
  · obtain ⟨n, hn⟩ := Nat.exists_eq_succ_of_ne_zero hlen.ne'
    simp only [Link.distance, Channel.drop, List.length_drop, List.length_take, hempty, hn,
      Nat.succ_sub_one, Nat.succ_eq_add_one, List.length_nil, Nat.mul_zero, Nat.mul_add,
      Nat.min_eq_left (Nat.le_add_left 1 n)]
    omega

theorem takesFurther_write1 {inner : List UInt8}
    (hinner : Carries P below inner) (halive : l.thr1.ended = false)
    (hopen : ¬ below.WriteClosed) (hne : l.thr1.buffer ≠ []) :
    TakesFurther P below l (.write1 1) := by
  have hlen := List.length_pos_iff.mpr hne
  have htake : (l.thr1.buffer.take 4096).length = min 4096 l.thr1.buffer.length :=
    List.length_take
  have hwait : ¬ (l.thr1.ended = true ∨ l.thr1.buffer = []) := by
    rw [halive]
    simp [hne]
  obtain ⟨w, hw, hresult⟩ := exists_partialWrite_of_open P
    hopen (List.length_pos_iff.mp (by omega))
    (show (l.thr1.buffer.take 4096).length < 2 ^ 32 by omega) 1
  have hone : w.1 = 1 := by omega
  have hheight := height_partialWrite hw
  have hdistance := distance_partialWrite hinner hw
  have hcount := (carries_partialWrite hinner hw).2.inFlight_eq
  rw [hone, Int.toNat_one, Nat.mul_one] at hdistance
  rw [List.length_append, ← hinner.inFlight_eq, hone, Int.toNat_one, List.length_take] at hcount
  refine ⟨.addToChain w.2 { l with thr1 := { buffer := l.thr1.buffer.drop 1 } }, ?_, ?_⟩
  · rw [Link.chainThread, if_neg hwait, hw, Option.map_some, if_pos (by omega), hone]
    rfl
  · have hpos := one_le_height below
    obtain ⟨n, hn⟩ := Nat.exists_eq_succ_of_ne_zero hlen.ne'
    simp only [Link.distance, List.length_drop, hheight, hdistance, hcount, hn, Nat.succ_sub_one,
      Nat.succ_eq_add_one, Nat.mul_add]
    omega

theorem takesFurther_write2 (halive : l.thr2.ended = false)
    (hopen : ¬ l.received.closed = true) (hne : l.thr2.buffer ≠ []) :
    TakesFurther P below l (.write2 1) := by
  have hlen := List.length_pos_iff.mpr hne
  have hwait : ¬ (l.thr2.ended = true ∨ l.thr2.buffer = []) := by
    rw [halive]
    simp [hne]
  have hone : min (l.received.takes 1) ((l.thr2.buffer.take 4096).length : ℤ) = 1 := by
    rw [Channel.takes_of_open hopen, List.length_take]
    omega
  refine ⟨.addToChain below { l with
    received := l.received.append (l.thr2.buffer.take 1)
    thr2 := { buffer := l.thr2.buffer.drop 1 } }, ?_, ?_⟩
  · rw [Link.chainThread, if_neg hwait, hone]
    rfl
  · simp only [Link.distance, List.length_drop]
    omega

theorem takesFurther_read2 {inner : List UInt8}
    (hinner : Carries P below inner) (halive : l.thr2.ended = false)
    (hempty : l.thr2.buffer = []) (hne : below.readable ≠ []) :
    TakesFurther P below l (.read2 1) := by
  have hwait : ¬ (l.thr2.ended = true ∨ l.thr2.buffer ≠ []) := by
    rw [halive, hempty]
    simp
  obtain ⟨r, hr, hone⟩ := exists_partialRead P hne
    (show 0 < 4096 by decide)
  obtain ⟨hheight, hdistance⟩ := distance_partialRead hr
  obtain ⟨hbytes, hnext⟩ := carries_partialRead hinner hr
  have hcount := hnext.inFlight_eq
  have hlen : r.2.1.length = min 1 inner.length := by
    rw [hbytes, hone, Int.toNat_one, List.length_take]
  rw [List.length_drop, ← hinner.inFlight_eq, hone, Int.toNat_one] at hcount
  rw [← hinner.inFlight_eq] at hlen
  have hsome : 0 < below.inFlight := by
    have hreadable := List.length_pos_iff.mpr hne
    cases below with
    | base wire => exact hreadable
    | addToChain below l =>
        rw [Link.readable] at hreadable
        rw [Link.inFlight]
        omega
  refine ⟨.addToChain r.2.2 { l with thr2 := { buffer := r.2.1 } }, ?_, ?_⟩
  · rw [Link.chainThread, if_neg hwait, hr, Option.map_some, if_pos (by omega)]
  · simp only [Link.distance, hheight, hdistance, hcount, hlen, hempty, List.length_nil]
    omega

/-- As long as some byte has a way in front of it, a thread can take one further. -/
theorem exists_pump (hc : Carries P link pending)
    (ho : Orderly link) (hpos : 0 < link.distance) :
    ∃ depth a link', a.Reliable ∧ link.pump P a depth = some link' ∧
      link'.distance < link.distance := by
  induction link generalizing pending with
  | base wire => cases hpos
  | addToChain below l ih =>
      obtain ⟨inner, hinner, -⟩ := hc
      obtain ⟨hbelow, hl⟩ := ho
      have hpump : ∀ {a : ThreadAction}, a.Reliable → TakesFurther P below l a →
          ∃ depth a link', a.Reliable ∧
            (Link.addToChain below l).pump P a depth = some link' ∧
            link'.distance < (Link.addToChain below l).distance :=
        fun {a} hok ⟨link', hlink, hlt⟩ => ⟨0, a, link', hok, hlink, hlt⟩
      by_cases hthr1 : l.thr1.buffer = []
      swap
      · have halive : l.thr1.ended = false :=
          Bool.eq_false_iff.mpr fun hended => hthr1 (hl.thr1 hended).1
        have hopen : ¬ below.WriteClosed := fun hclosed =>
          Bool.eq_false_iff.mp halive (hl.closed hclosed)
        exact hpump (a := .write1 1) (show (0 : ℤ) < 1 by decide)
          (takesFurther_write1 hinner halive hopen hthr1)
      by_cases hsent : l.sent.bytes = []
      swap
      · have halive : l.thr1.ended = false :=
          Bool.eq_false_iff.mpr fun hended => hsent (hl.thr1 hended).2.1
        exact hpump (a := .read1 1) (show (0 : ℤ) < 1 by decide)
          (takesFurther_read1 halive hthr1 hsent)
      by_cases hthr2 : l.thr2.buffer = []
      swap
      · have halive : l.thr2.ended = false :=
          Bool.eq_false_iff.mpr fun hended => hthr2 (hl.thr2 hended).1
        have hopen : ¬ l.received.closed = true := fun hclosed =>
          Bool.eq_false_iff.mp halive (hl.received hclosed)
        exact hpump (a := .write2 1) (show (0 : ℤ) < 1 by decide)
          (takesFurther_write2 halive hopen hthr2)
      -- all that has a way in front of it is in the layers below
      rw [Link.distance, hthr1, hsent, hthr2] at hpos
      simp only [List.length_nil, Nat.mul_zero, Nat.add_zero, Nat.zero_add] at hpos
      by_cases hdistance : below.distance = 0
      · have hreadable : below.readable ≠ [] := by
          apply List.length_pos_iff.mp
          rw [readable_of_distance hdistance]
          omega
        have halive : l.thr2.ended = false := by
          refine Bool.eq_false_iff.mpr fun hended => hreadable ?_
          have hend := (hl.thr2 hended).2
          cases below with
          | base wire => exact hend.1
          | addToChain below l => exact hend.1
        exact hpump (a := .read2 1) (show (0 : ℤ) < 1 by decide)
          (takesFurther_read2 hinner halive hthr2 hreadable)
      · obtain ⟨depth, a, below', hok, hpump, hlt⟩ :=
          ih hinner hbelow (Nat.pos_of_ne_zero hdistance)
        have hcount := (carries_pump depth hinner hpump).inFlight_eq
        have hheight := height_pump depth hpump
        refine ⟨depth + 1, a, .addToChain below' l, hok, ?_, ?_⟩
        · rw [Link.pump, hpump]
          rfl
        · rw [← hinner.inFlight_eq] at hcount
          simp only [Link.distance, hcount, hheight]
          omega

/-- The threads of the layers and reads alone. -/
def Action.Drains : Action → Prop
  | .thread _ a => a.Reliable
  | .partialRead _ _ => True
  | _ => False

/-- What is on its way can be brought to where it is read. -/
theorem exists_pumped
    (hc : Carries P c.link pending) (ho : Orderly c.link) :
    ∃ actions link', (∀ a ∈ actions, a.Drains) ∧
      reach (Connection.step P) c actions = some { c with link := link' } ∧
      Carries P link' pending ∧ link'.distance = 0 := by
  induction hd : c.link.distance using Nat.strong_induction_on generalizing c with
  | _ n ih =>
      by_cases hzero : n = 0
      · exact ⟨[], c.link, fun a ha => absurd ha List.not_mem_nil, rfl, hc, hd.trans hzero⟩
      · obtain ⟨depth, a, link₁, hok, hpump, hlt⟩ := exists_pump hc ho (by omega)
        obtain ⟨actions, link', hdrains, hreach, hc', hzero'⟩ := ih link₁.distance (by omega)
          (c := { c with link := link₁ }) (carries_pump depth hc hpump)
          (keeps_pump hok depth ho hpump).orderly rfl
        refine ⟨.thread depth a :: actions, link', ?_, ?_, hc', hzero'⟩
        · intro b hb
          rcases List.mem_cons.mp hb with rfl | hb
          · exact hok
          · exact hdrains b hb
        · have hstep : c.step P (.thread depth a) =
              some ({ c with link := link₁ }, ()) := by
            rw [Connection.step, hpump]
            rfl
          rw [reach_cons_some hstep]
          exact hreach

/-- What has arrived can be read, a byte at a time. -/
theorem exists_drained
    (h : Carries P c.link pending) (hzero : c.link.distance = 0) :
    ∃ actions c', (∀ a ∈ actions, a.Drains) ∧
      reach (Connection.step P) c actions = some c' ∧
      c'.accepted = c.accepted ∧ c'.returned = c.returned ++ pending := by
  induction pending generalizing c with
  | nil =>
      exact ⟨[], c, fun a ha => absurd ha List.not_mem_nil, rfl, rfl, (List.append_nil _).symm⟩
  | cons b pending ih =>
      have hne : c.link.readable ≠ [] := by
        apply List.length_pos_iff.mp
        rw [readable_of_distance hzero, h.inFlight_eq]
        exact Nat.succ_pos _
      obtain ⟨r, hr, hone⟩ := exists_partialRead P hne
        Nat.one_pos
      obtain ⟨hbytes, hnext⟩ := carries_partialRead h hr
      obtain ⟨one, bytes, link⟩ := r
      obtain rfl : one = 1 := hone
      obtain rfl : bytes = [b] := hbytes
      have hstep : c.step P (.partialRead 1 1) =
          some (⟨link, c.accepted, c.returned ++ [b], c.finished⟩, ()) := by
        rw [Connection.step, hr]
        simp
      obtain ⟨actions, c', hdrains, hreach, haccepted, hreturned⟩ := ih
        (c := ⟨link, c.accepted, c.returned ++ [b], c.finished⟩) hnext
        ((distance_partialRead hr).2.trans hzero)
      refine ⟨.partialRead 1 1 :: actions, c', ?_, ?_, haccepted, ?_⟩
      · intro a ha
        rcases List.mem_cons.mp ha with rfl | ha
        · trivial
        · exact hdrains a ha
      · rw [reach_cons_some hstep]
        exact hreach
      · rw [hreturned, List.append_assoc]
        rfl

end SocketChain

end Mantids
