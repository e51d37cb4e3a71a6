/-
# The allocation for a received block

`readBlockWAllocEx<T>` (`Net_Sockets/socket_stream_reader.h`) reads a length of the type `T`, checks
it against a limit, allocates one byte more than the length, and reads the payload into it.  The
size of the allocation is computed in the type `T`, or in `int` where `T` is shorter.

* `Request` — what the peer's length leads to;
* `blockRequest` — the function up to the read of the payload;
* `readBlockWAllocEx_eq_request` — the function is that, and the read;
* `fits_iff` — when the payload and its terminator fit what was allocated.
-/
import Mantids.SocketTransport

namespace Mantids

namespace SocketStream

open BigEndian

/-! ## The function up to the payload -/

/-- What the length that was received leads to. -/
inductive Request where
  /-- `nullptr` is returned. -/
  | refused
  /-- `new` throws `bad_alloc`. -/
  | thrown
  /-- There are so many bytes, and the payload of so many bytes is read into them. -/
  | payload (allocated expectedBytesCount : ℕ)
deriving DecidableEq

namespace Receiver

/-- The limit: `virtualMax` stands for a `nullptr`. -/
def limit (size : ℕ) (datalen : Option ℕ) : ℕ := datalen.getD (Writer.defaultMax size)

variable (heap : ℕ → Bool)

/-- `readBlockWAllocEx<T>(datalen)` for a type of `size` bytes, up to the read of the payload;
`heap` says for which sizes `new char[]` has memory.  A limit of at most 64 bits is not above the
maximum of `size_t`. -/
def blockRequest (size : ℕ) (datalen : Option ℕ) (r : Receiver) : Request × Receiver :=
  let (expectedBytesCount, readOK, r) := r.readU size
  if readOK then
    if limit size datalen < expectedBytesCount then (.refused, r.readDeSync)
    else if heap (allocated size expectedBytesCount) then
      (.payload (allocated size expectedBytesCount) expectedBytesCount, r)
    else (.thrown, r)
  else (.refused, r)

/-- The read of the payload behind it. -/
def readPayload : Request × Receiver → FieldRead × Receiver
  | (.payload allocated expectedBytesCount, r) =>
    -- `memset` clears one byte more than the length before anything is read.
    if allocated < expectedBytesCount + 1 then (.outOfBounds, r)
    else if expectedBytesCount = 0 then (.read [], r)
    else
      let (ok, count, received, r) := r.readFull expectedBytesCount
      if ok && decide (count = expectedBytesCount) then (.read received, r)
      else (.failed, r.readDeSync)
  | (_, r) => (.failed, r)

/-- With enough memory the function is the request and the read. -/
theorem readBlockWAllocEx_eq_request (size : ℕ) (datalen : Option ℕ) (r : Receiver) :
    r.readBlockWAllocEx size (limit size datalen) =
      readPayload (r.blockRequest (fun _ => true) size datalen) := by
  unfold readBlockWAllocEx blockRequest
  obtain ⟨expected, readOK, r', hread⟩ : ∃ expected readOK r',
      r.readU size = (expected, readOK, r') := ⟨_, _, _, rfl⟩
  rw [hread]
  cases readOK with
  | false => rfl
  | true =>
    by_cases hover : limit size datalen < expected
    · simp only [if_true, if_pos hover]
      rfl
    · simp only [if_true, if_neg hover]
      rfl

/-! ## The number that is read -/

theorem length_readLoop_le (n : ℕ) (received : List UInt8) (r : Receiver)
    (hle : received.length ≤ n) : (readLoop n received r).2.1.length ≤ n := by
  induction received, r using readLoop.induct n with
  | case1 received r hlt step hpos ih =>
    have hpiece : step.2.1.length ≤ n - received.length := by
      show (r.partialRead _).2.1.length ≤ _
      unfold partialRead
      split_ifs with hshut hnil
      · exact Nat.zero_le _
      · exact Nat.zero_le _
      · have hcount := r.delivers_le r.calls
          (min (min 4096 (n - received.length)) r.incoming.length)
        dsimp only
        rw [List.length_take]
        omega
    rw [readLoop, if_pos hlt, dif_pos hpos]
    apply ih
    rw [List.length_append]
    omega
  | case2 received r hlt step hpos =>
    rw [readLoop, if_pos hlt, dif_neg hpos]
    exact hle
  | case3 received r hge =>
    rw [readLoop, if_neg hge]
    exact hle

/-- A whole read leaves no more bytes than were asked for. -/
theorem length_readFull_le (r : Receiver) (n : ℕ) : (r.readFull n).2.2.1.length ≤ n := by
  unfold readFull
  split_ifs with hzero
  · exact Nat.zero_le _
  · have hle := length_readLoop_le n [] r (Nat.zero_le n)
    obtain ⟨ok, received, r', hloop⟩ : ∃ ok received r', readLoop n [] r = (ok, received, r') :=
      ⟨_, _, _, rfl⟩
    rw [hloop] at hle ⊢
    cases ok with
    | false => exact hle
    | true => exact hle

/-- A number that is read is one of its type. -/
theorem readU_lt (size : ℕ) (r : Receiver) : (r.readU size).1 < 256 ^ size := by
  have hle := r.length_readFull_le size
  obtain ⟨ok, count, received, r', hread⟩ : ∃ ok count received r',
      r.readFull size = (ok, count, received, r') := ⟨_, _, _, _, rfl⟩
  rw [hread] at hle
  unfold readU
  rw [hread]
  dsimp only at hle ⊢
  have hlt := decode_lt (received ++ List.replicate (size - received.length) 0)
  rwa [List.length_append, List.length_replicate, Nat.add_sub_cancel' hle] at hlt

/-! ## The payload and its allocation -/

variable {heap : ℕ → Bool}

/-- The request of a number that was read and is not above the limit, with memory for it. -/
theorem blockRequest_payload_iff {size : ℕ} {datalen : Option ℕ} {r r' : Receiver} {n m : ℕ} :
    r.blockRequest heap size datalen = (.payload n m, r') ↔
      r.readU size = (m, true, r') ∧ m ≤ limit size datalen ∧ heap (allocated size m) = true ∧
        n = allocated size m := by
  unfold blockRequest
  obtain ⟨expected, readOK, s, hread⟩ : ∃ expected readOK s,
      r.readU size = (expected, readOK, s) := ⟨_, _, _, rfl⟩
  rw [hread]
  cases readOK with
  | false => simp
  | true =>
    by_cases hover : limit size datalen < expected
    · simp only [if_true, if_pos hover]
      constructor
      · intro h
        cases h
      · rintro ⟨hm, hle, -, -⟩
        cases hm
        omega
    · cases hheap : heap (allocated size expected) with
      | false =>
        simp only [if_true, if_neg hover, hheap]
        constructor
        · intro h
          cases h
        · rintro ⟨hm, -, hsome, -⟩
          cases hm
          rw [hheap] at hsome
          cases hsome
      | true =>
        simp only [if_true, if_neg hover, hheap]
        constructor
        · intro h
          cases h
          exact ⟨rfl, not_lt.mp hover, hheap, rfl⟩
        · rintro ⟨hm, -, -, rfl⟩
          cases hm
          rfl

variable (heap)

/-- When the function goes on to the payload, its bytes and the terminator fit what it allocated. -/
def PayloadFits (size : ℕ) (datalen : Option ℕ) (r : Receiver) : Prop :=
  ∀ allocated expectedBytesCount r',
    r.blockRequest heap size datalen = (.payload allocated expectedBytesCount, r') →
      expectedBytesCount + 1 ≤ allocated

/-- The length is the maximum of a type of four bytes or more, the limit admits it, and there is an
allocation of no bytes. -/
def WrapsAround (size : ℕ) (datalen : Option ℕ) (r : Receiver) : Prop :=
  4 ≤ size ∧ (r.readU size).1 = 256 ^ size - 1 ∧ (r.readU size).2.1 = true ∧
    256 ^ size - 1 ≤ limit size datalen ∧ heap 0 = true

variable {heap}

theorem payloadFits_of_not_wrapsAround {size : ℕ} {datalen : Option ℕ} {r : Receiver}
    (h : ¬ WrapsAround heap size datalen r) : PayloadFits heap size datalen r := by
  intro n m r' hgo
  obtain ⟨hread, hle, hheap, rfl⟩ := blockRequest_payload_iff.mp hgo
  have hlt : m < 256 ^ size := by
    have hnumber := r.readU_lt size
    rwa [hread] at hnumber
  rw [allocated_fits_iff hlt]
  rintro ⟨hwide, rfl⟩
  rw [allocated_wraps hwide] at hheap
  exact h ⟨hwide, by rw [hread], by rw [hread], hle, hheap⟩

/-- With the limit that stands for a `nullptr` the payload always fits. -/
theorem payloadFits_of_virtualMax (heap : ℕ → Bool) {size : ℕ} (hsize : 0 < size) (r : Receiver) :
    PayloadFits heap size none r := by
  apply payloadFits_of_not_wrapsAround
  rintro ⟨-, -, -, hlimit, -⟩
  have hpow : 256 ^ 1 ≤ 256 ^ size := Nat.pow_le_pow_right (by decide) hsize
  have hmax : limit size none = 256 ^ size - 1 - 1 := rfl
  omega

/-- **The allocation of a block.**  The payload and its terminator fit unless the size wrapped
around. -/
theorem payloadFits_iff (heap : ℕ → Bool) (size : ℕ) (datalen : Option ℕ) (r : Receiver) :
    PayloadFits heap size datalen r ↔ ¬ WrapsAround heap size datalen r := by
  refine ⟨?_, payloadFits_of_not_wrapsAround⟩
  rintro hfits ⟨hwide, hmax, hok, hlimit, hheap⟩
  have hgo : r.blockRequest heap size datalen
      = (.payload 0 (256 ^ size - 1), (r.readU size).2.2) := by
    rw [blockRequest_payload_iff, allocated_wraps hwide]
    exact ⟨by rw [← hmax, ← hok], hlimit, hheap, rfl⟩
  exact absurd (hfits _ _ _ hgo) (Nat.not_succ_le_zero _)

theorem whole_le (_ n : ℕ) : (n : ℤ) ≤ n := le_rfl

/-- A peer that sends `FF FF FF FF`, in one piece. -/
def fourOnes : Receiver where
  incoming := [255, 255, 255, 255]
  delivers := fun _ n => n
  delivers_le := whole_le

theorem delivering_fourOnes : fourOnes.Delivering :=
  ⟨rfl, fun _ _ hpos => Int.natCast_pos.mpr hpos⟩

/-- With the limit 2^32 - 1 there is nothing allocated for the payload of 2^32 - 1 bytes. -/
theorem not_payloadFits :
    ¬ PayloadFits (fun _ => true) 4 (some 4294967295) fourOnes := by
  intro hfits
  obtain ⟨r', -, -, hread⟩ := readU_delivering delivering_fourOnes 4
  have hnumber : SocketStream.readU 4 fourOnes.incoming = (4294967295, true, []) := by
    decide
  rw [hnumber] at hread
  have hgo : fourOnes.blockRequest (fun _ => true) 4 (some 4294967295)
      = (.payload 0 4294967295, r') := by
    rw [blockRequest_payload_iff]
    exact ⟨hread, le_rfl, rfl, rfl⟩
  exact absurd (hfits _ _ _ hgo) (by decide)

end Receiver
end SocketStream
end Mantids
