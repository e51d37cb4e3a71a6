/-
# The AES chain socket

A `Socket_Chain_AES` (`Net_Chains/socket_chain_aes.cpp`) combines what it sends with the blocks that
AES makes of a fixed text.  Each end tells the other one, in a handshake, the key of these blocks
and the seeds of the two generators that their IVs come from.

* `Primitives` — AES-GCM and the generator: parameters;
* `SideParams` — one direction at one end, with the block that is left;
* `postAcceptSubInitialization` — the handshake;
* `partialWrite`, `partialRead` — the calls of an end, over a transport that takes and delivers what
  it likes;
* `chain_transparent_iff` — for which block sizes what is read is what was written.

The block size is a `size_t`, and `EVP_EncryptUpdate` takes an `int`: of a larger block it writes a
part, and the rest of the block is what was in its memory.
-/
import Mantids.Lib.Keystream
import Mathlib.Data.UInt
import Mathlib.Tactic.Common

namespace Mantids

open Keystream

namespace SocketChainAes

/-- AES-GCM and the Mersenne twister. -/
structure Primitives (μ : Type*) where
  /-- `EVP_aes_256_gcm` with a key, an IV and a text. -/
  aes256gcm : List UInt8 → List UInt8 → List UInt8 → List UInt8
  length_aes256gcm : ∀ key iv text, (aes256gcm key iv text).length = text.length
  /-- `mt19937_64::seed`. -/
  seed : UInt64 → μ
  /-- The next number, over all numbers of 64 bits. -/
  next : μ → UInt64 × μ

/-- What `genRandomBytes` fills in at the beginning of a handshake. -/
structure RandomBytes where
  handShakeIV : List UInt8
  phase2Key : List UInt8
  ivSeed : List UInt8
  length_handShakeIV : handShakeIV.length = 16
  length_phase2Key : phase2Key.length = 32
  length_ivSeed : ivSeed.length = 16

/-- `sHandShakeHeader`. -/
structure HandShakeHeader where
  magicBytes : List UInt8 := [73, 72, 68, 82]
  ivSeed : List UInt8 := List.replicate 16 0
  phase2Key : List UInt8 := List.replicate 32 0
  reserved : List UInt8 := List.replicate 60 0
deriving DecidableEq

namespace HandShakeHeader

/-- The 112 bytes of a header. -/
def toBytes (h : HandShakeHeader) : List UInt8 :=
  h.magicBytes ++ (h.ivSeed ++ (h.phase2Key ++ h.reserved))

/-- The header in 112 bytes. -/
def ofBytes (bytes : List UInt8) : HandShakeHeader where
  magicBytes := bytes.take 4
  ivSeed := (bytes.drop 4).take 16
  phase2Key := (bytes.drop 20).take 32
  reserved := (bytes.drop 52).take 60

end HandShakeHeader

/-- A size as the `int` parameter of `EVP_EncryptUpdate`. -/
def inl (aesRegenBlockSize : ℕ) : ℤ := (aesRegenBlockSize : ℤ).bmod (2 ^ 32)

/-- A block of this size can be made: there are arrays of twice as many bytes, and the `int` is not
negative. -/
def MakesBlocks (aesRegenBlockSize : ℕ) : Prop :=
  aesRegenBlockSize * 2 < 2 ^ 63 ∧ 0 ≤ inl aesRegenBlockSize

instance : DecidablePred MakesBlocks := fun n =>
  inferInstanceAs (Decidable (n * 2 < 2 ^ 63 ∧ 0 ≤ inl n))

/-- What does not change at an end. -/
structure Settings where
  /-- `m_aesRegenBlockSize`. -/
  aesRegenBlockSize : ℕ
  /-- What is in the memory of a new block that nothing was written to, by the IV of the block and
  the place in it. -/
  garbage : List UInt8 → ℕ → UInt8

/-- `sSideParams`, apart from the IVs. -/
structure SideParams (μ : Type*) where
  mt19937IV : μ × μ
  handshake : HandShakeHeader := {}
  aesBlock : List UInt8 := []

/-- The bytes of a number in memory, the lowest first. -/
def bytesOfUInt64 (r : UInt64) : List UInt8 :=
  (List.range 8).map fun i => (r >>> (8 * UInt64.ofNat i)).toUInt8

/-- The number that the first eight bytes stand for. -/
def uInt64OfBytes (bytes : List UInt8) : UInt64 :=
  (bytes.take 8).foldr (fun b r => r <<< 8 ||| b.toUInt64) 0

/-- The text that is encrypted. -/
def genPlainText (aesRegenBlockSize : ℕ) : List UInt8 :=
  (List.range aesRegenBlockSize).map fun i => UInt8.ofNat (i * 487 % 256)

/-- `cryptoXOR` of a byte. -/
def xorByte (a b : UInt8) : UInt8 := a ^^^ b

variable {μ : Type*} (P : Primitives μ) (e : Settings)

/-- `cipherText` behind `EVP_EncryptUpdate`, as far as it is appended. -/
def Settings.cipherText (key iv : List UInt8) : List UInt8 :=
  P.aes256gcm key iv ((genPlainText e.aesRegenBlockSize).take (inl e.aesRegenBlockSize).toNat)
    ++ (List.range (e.aesRegenBlockSize - (inl e.aesRegenBlockSize).toNat)).map
      fun i => e.garbage iv ((inl e.aesRegenBlockSize).toNat + i)

namespace SideParams

/-- `reduce`. -/
def reduce (p : SideParams μ) (bytes : ℕ) : SideParams μ :=
  if p.aesBlock.length ≤ bytes then { p with aesBlock := [] }
  else { p with aesBlock := p.aesBlock.drop bytes }

/-- `cryptoXOR`: nothing happens to data that is longer than the block. -/
def cryptoXOR (p : SideParams μ) (dataBlock : List UInt8) (dontreduce : Bool) :
    List UInt8 × SideParams μ :=
  if p.aesBlock.length < dataBlock.length then (dataBlock, p)
  else
    (List.zipWith xorByte dataBlock p.aesBlock,
      if dontreduce then p else p.reduce dataBlock.length)

/-- `appendNewAESBlock`; `none` if it returns false or `new` throws. -/
def appendNewAESBlock (p : SideParams μ) (key iv : List UInt8) : Option (SideParams μ) :=
  if MakesBlocks e.aesRegenBlockSize then
    some { p with aesBlock := p.aesBlock ++ e.cipherText P key iv }
  else none

/-- `regenIV`: the new IV, and the generators behind it. -/
def regenIV (p : SideParams μ) : List UInt8 × SideParams μ :=
  (bytesOfUInt64 (P.next p.mt19937IV.1).1 ++ bytesOfUInt64 (P.next p.mt19937IV.2).1,
    { p with mt19937IV := ((P.next p.mt19937IV.1).2, (P.next p.mt19937IV.2).2) })

/-- The loop that enlarges the block, and whether it gets to its end; a block has some bytes, so
that `size` rounds suffice. -/
def enlarge (size : ℕ) : ℕ → SideParams μ → Bool × SideParams μ
  | 0, p => (true, p)
  | fuel + 1, p =>
    if p.aesBlock.length < size then
      let (iv, p) := regenIV P p
      match p.appendNewAESBlock P e p.handshake.phase2Key iv with
      | none => (false, p)
      | some p => enlarge size fuel p
    else (true, p)

/-- The generators are seeded with the halves of `IVSeed`, and the block is empty. -/
def start (p : SideParams μ) (handshake : HandShakeHeader) : SideParams μ :=
  { p with
    handshake := handshake
    aesBlock := []
    mt19937IV := (P.seed (uInt64OfBytes handshake.ivSeed),
      P.seed (uInt64OfBytes (handshake.ivSeed.drop 8))) }

end SideParams

/-- `Socket_Chain_AES`. -/
structure ChainSocket (μ : Type*) where
  settings : Settings
  readParams : SideParams μ
  writeParams : SideParams μ
  initialized : Bool := false
  /-- A handshake has made blocks. -/
  makesBlocks : initialized = true → MakesBlocks settings.aesRegenBlockSize

variable {P e} in
theorem makesBlocks_of_append {p p' : SideParams μ} {key iv : List UInt8}
    (h : p.appendNewAESBlock P e key iv = some p') : MakesBlocks e.aesRegenBlockSize := by
  unfold SideParams.appendNewAESBlock at h
  split_ifs at h with hmakes
  exact hmakes

namespace ChainSocket

/-- A socket before the handshake. -/
def fresh : ChainSocket μ where
  settings := e
  makesBlocks := fun h => absurd h Bool.false_ne_true
  readParams := { mt19937IV := (P.seed 5489, P.seed 5489) }
  writeParams := { mt19937IV := (P.seed 5489, P.seed 5489) }

/-- The transmission of the handshake: the bytes that are sent, and the end behind them if it goes
on. -/
def transmit (s : ChainSocket μ) (phase1Key : List UInt8) (r : RandomBytes) :
    List UInt8 × Option (ChainSocket μ) :=
  match s.writeParams.appendNewAESBlock P s.settings phase1Key r.handShakeIV with
  | none => (r.handShakeIV, none)
  | some p =>
    let handshake : HandShakeHeader :=
      { s.writeParams.handshake with phase2Key := r.phase2Key, ivSeed := r.ivSeed }
    (r.handShakeIV ++ (p.cryptoXOR handshake.toBytes false).1,
      some { s with writeParams := p.start P handshake })

/-- The reception of the handshake; `none` if the bytes do not suffice or are not a header. -/
def receive (s : ChainSocket μ) (phase1Key incoming : List UInt8) : Option (ChainSocket μ) :=
  if incoming.length < 128 then none
  else
    match h : s.readParams.appendNewAESBlock P s.settings phase1Key (incoming.take 16) with
    | none => none
    | some p =>
      let handshake :=
        HandShakeHeader.ofBytes (p.cryptoXOR ((incoming.drop 16).take 112) false).1
      if handshake.magicBytes = [73, 72, 68, 82] then
        some
          { s with
            readParams := p.start P handshake
            initialized := true
            makesBlocks := fun _ => makesBlocks_of_append h }
      else none

/-- `postAcceptSubInitialization`, with the bytes that the other end has sent. -/
def postAcceptSubInitialization (s : ChainSocket μ) (phase1Key : List UInt8) (r : RandomBytes)
    (incoming : List UInt8) : Option (ChainSocket μ) :=
  (s.transmit P phase1Key r).2.bind fun s => s.receive P phase1Key incoming

/-- `partialWrite`: the result, the bytes that are on the transport, and the end behind it.  The
transport takes `taken` bytes; if this is not positive, there is nothing on it. -/
def partialWrite (s : ChainSocket μ) (data : List UInt8) (taken : ℤ) :
    ℤ × List UInt8 × ChainSocket μ :=
  let r := min taken data.length
  if s.initialized = false then (r, data.take r.toNat, s)
  else
    match s.writeParams.enlarge P s.settings data.length data.length with
    -- Not after a handshake: `makesBlocks`.
    | (false, p) => (0, [], { s with writeParams := p })
    | (true, p) =>
      let edata := p.cryptoXOR data true
      (r, edata.1.take r.toNat,
        { s with writeParams := if 0 < r then edata.2.reduce r.toNat else edata.2 })

/-- `partialRead` of bytes on the transport: the result, the bytes that are returned, and the end
behind it.  The transport delivers `delivered` of them, but no more than were asked for. -/
def partialRead (s : ChainSocket μ) (datalen : ℕ) (wire : List UInt8) (delivered : ℤ) :
    ℤ × List UInt8 × ChainSocket μ :=
  let r := min (min delivered datalen) wire.length
  if s.initialized = false ∨ r ≤ 0 then (r, wire.take r.toNat, s)
  else
    match s.readParams.enlarge P s.settings r.toNat r.toNat with
    -- Not after a handshake: `makesBlocks`.
    | (false, p) => (0, [], { s with readParams := p })
    | (true, p) =>
      let data := p.cryptoXOR (wire.take r.toNat) false
      (r, data.1, { s with readParams := data.2 })

end ChainSocket

/-! ## Two ends -/

/-- The calls at the two ends of a transport. -/
inductive Call where
  | partialWrite (data : List UInt8) (taken : ℤ)
  | partialRead (datalen : ℕ) (delivered : ℤ)

/-- The end that writes, the transport, the end that reads, the bytes that were accepted and the
bytes that were returned. -/
structure Ends (μ : Type*) where
  writer : ChainSocket μ
  wire : List UInt8 := []
  reader : ChainSocket μ
  accepted : List UInt8 := []
  returned : List UInt8 := []

namespace Ends

def step (ends : Ends μ) : Call → Ends μ
  | .partialWrite data taken =>
    let w := ends.writer.partialWrite P data taken
    { ends with
      writer := w.2.2
      wire := ends.wire ++ w.2.1
      accepted := ends.accepted ++ data.take w.1.toNat }
  | .partialRead datalen delivered =>
    let r := ends.reader.partialRead P datalen ends.wire delivered
    { ends with
      reader := r.2.2
      wire := ends.wire.drop r.1.toNat
      returned := ends.returned ++ r.2.1 }

def run (ends : Ends μ) (calls : List Call) : Ends μ := calls.foldl (step P) ends

end Ends

/-! ## The blocks -/

variable {P e}

@[simp] theorem length_genPlainText (n : ℕ) : (genPlainText n).length = n := by
  rw [genPlainText, List.length_map, List.length_range]

theorem inl_le (n : ℕ) : (inl n).toNat ≤ n := by
  unfold inl
  have hle := Int.emod_nonneg (n : ℤ) (show (2 ^ 32 : ℤ) ≠ 0 by decide)
  rw [Int.bmod_def]
  split_ifs
  · omega
  · omega

theorem inl_of_lt {n : ℕ} (h : n < 2 ^ 31) : inl n = n := by
  unfold inl
  rw [Int.bmod_def, if_pos (by omega)]
  omega

theorem inl_lt (n : ℕ) : inl n < 2 ^ 31 := by
  unfold inl
  rw [Int.bmod_def]
  split_ifs
  · omega
  · omega

/-- A size that is no `int` and whose `int` is not negative is larger by a whole turn. -/
theorem le_of_makesBlocks {n : ℕ} (h : MakesBlocks n) (hlong : 2 ^ 31 ≤ n) : 2 ^ 32 ≤ n := by
  by_contra hlt
  have hneg : inl n < 0 := by
    unfold inl
    rw [Int.bmod_def, if_neg (by omega)]
    omega
  exact absurd h.2 (not_le.mpr hneg)

theorem makesBlocks_of_lt {n : ℕ} (h : n < 2 ^ 31) : MakesBlocks n := by
  refine ⟨by omega, ?_⟩
  rw [inl_of_lt h]
  exact Int.natCast_nonneg n

namespace Settings

theorem length_cipherText (key iv : List UInt8) :
    (e.cipherText P key iv).length = e.aesRegenBlockSize := by
  have hle := inl_le e.aesRegenBlockSize
  rw [cipherText, List.length_append, P.length_aes256gcm, List.length_take, List.length_map,
    List.length_range, length_genPlainText]
  omega

/-- A size that is an `int` leaves nothing unwritten. -/
theorem cipherText_of_lt (hint : e.aesRegenBlockSize < 2 ^ 31) (key iv : List UInt8) :
    e.cipherText P key iv = P.aes256gcm key iv (genPlainText e.aesRegenBlockSize) := by
  rw [cipherText, inl_of_lt hint, Int.toNat_natCast, Nat.sub_self, List.range_zero, List.map_nil,
    List.append_nil, List.take_of_length_le (length_genPlainText _).le]

/-- The beginning of a block is what `EVP_EncryptUpdate` has written. -/
theorem getElem?_cipherText_of_lt (key iv : List UInt8) {i : ℕ}
    (h : i < (inl e.aesRegenBlockSize).toNat) :
    (e.cipherText P key iv)[i]? = (P.aes256gcm key iv
      ((genPlainText e.aesRegenBlockSize).take (inl e.aesRegenBlockSize).toNat))[i]? := by
  have hle := inl_le e.aesRegenBlockSize
  rw [cipherText, List.getElem?_append_left (by
    rw [P.length_aes256gcm, List.length_take, length_genPlainText]; omega)]

/-- What `EVP_EncryptUpdate` has not written is garbage. -/
theorem getElem?_cipherText_of_ge (key iv : List UInt8) {i : ℕ}
    (h : (inl e.aesRegenBlockSize).toNat ≤ i) (hi : i < e.aesRegenBlockSize) :
    (e.cipherText P key iv)[i]? = some (e.garbage iv i) := by
  have hle := inl_le e.aesRegenBlockSize
  have hlen : (P.aes256gcm key iv
      ((genPlainText e.aesRegenBlockSize).take (inl e.aesRegenBlockSize).toNat)).length
        = (inl e.aesRegenBlockSize).toNat := by
    rw [P.length_aes256gcm, List.length_take, length_genPlainText]
    omega
  rw [cipherText, List.getElem?_append_right (by omega), hlen, List.getElem?_map,
    List.getElem?_range (by omega), Option.map_some, Nat.add_sub_cancel' h]

end Settings

namespace SideParams

theorem appendNewAESBlock_of_makesBlocks (hmakes : MakesBlocks e.aesRegenBlockSize)
    (p : SideParams μ) (key iv : List UInt8) :
    p.appendNewAESBlock P e key iv =
      some { p with aesBlock := p.aesBlock ++ e.cipherText P key iv } :=
  if_pos hmakes

theorem appendNewAESBlock_of_not (hnone : ¬ MakesBlocks e.aesRegenBlockSize) (p : SideParams μ)
    (key iv : List UInt8) : p.appendNewAESBlock P e key iv = none :=
  if_neg hnone

/-- With a size of which blocks can be made, the loop gets to its end. -/
theorem enlarge_fst (hmakes : MakesBlocks e.aesRegenBlockSize) (size fuel : ℕ) (p : SideParams μ) :
    (p.enlarge P e size fuel).1 = true := by
  induction fuel generalizing p with
  | zero => rfl
  | succ fuel ih =>
      rw [enlarge]
      split
      · dsimp only
        rw [appendNewAESBlock_of_makesBlocks hmakes]
        exact ih _
      · rfl

theorem reduce_eq (p : SideParams μ) (bytes : ℕ) :
    p.reduce bytes = { p with aesBlock := p.aesBlock.drop bytes } := by
  rw [reduce]
  split
  · rename_i hle
    rw [List.drop_eq_nil_of_le hle]
  · rfl

theorem cryptoXOR_of_le {p : SideParams μ} {data : List UInt8}
    (hle : data.length ≤ p.aesBlock.length) (dontreduce : Bool) :
    p.cryptoXOR data dontreduce = (List.zipWith xorByte data p.aesBlock,
      if dontreduce then p else p.reduce data.length) := by
  rw [cryptoXOR, if_neg (not_lt.mpr hle)]

end SideParams

/-! ## The key stream -/

/-- A block size with which `EVP_EncryptUpdate` writes all of a block. -/
def Whole (aesRegenBlockSize : ℕ) : Prop := 0 < aesRegenBlockSize ∧ aesRegenBlockSize < 2 ^ 31

variable (P) in
/-- The block that the generators in this state lead to. -/
def nextBlock (aesRegenBlockSize : ℕ) (phase2Key : List UInt8) (m : μ × μ) :
    List UInt8 × (μ × μ) :=
  (P.aes256gcm phase2Key (bytesOfUInt64 (P.next m.1).1 ++ bytesOfUInt64 (P.next m.2).1)
    (genPlainText aesRegenBlockSize), ((P.next m.1).2, (P.next m.2).2))

variable {n : ℕ}

theorem nextBlock_ne_nil (hsize : 0 < n) (key : List UInt8) (m : μ × μ) :
    (nextBlock P n key m).1 ≠ [] := by
  have hlen : (nextBlock P n key m).1.length = n := by
    rw [nextBlock, P.length_aes256gcm, length_genPlainText]
  intro hnil
  rw [hnil] at hlen
  rw [List.length_nil] at hlen
  omega

theorem xorByte_xorByte (a b : UInt8) : xorByte (xorByte a b) b = a := by
  rw [xorByte, xorByte, UInt8.xor_assoc, UInt8.xor_self, UInt8.xor_zero]

namespace SideParams

/-- What is left of the block, and the generators. -/
def buffer (p : SideParams μ) : Buffer (μ × μ) UInt8 := ⟨p.aesBlock, p.mt19937IV⟩

variable (P n) in
/-- The bytes that data is going to be combined with. -/
def keystream (p : SideParams μ) : ℕ → UInt8 :=
  p.buffer.stream (nextBlock P n p.handshake.phase2Key)

theorem enlarge_spec (hwhole : Whole n) (he : e.aesRegenBlockSize = n) (size fuel : ℕ)
    (p : SideParams μ) (hfuel : size ≤ p.aesBlock.length + fuel) :
    ∃ p', p.enlarge P e size fuel = (true, p') ∧ size ≤ p'.aesBlock.length ∧
      keystream P n p' = keystream P n p := by
  induction fuel generalizing p with
  | zero => exact ⟨p, rfl, hfuel, rfl⟩
  | succ fuel ih =>
      rw [enlarge]
      split
      rotate_left
      · rename_i hdone
        exact ⟨p, rfl, not_lt.mp hdone, rfl⟩
      · obtain ⟨hpos, hint⟩ := hwhole
        dsimp only
        rw [appendNewAESBlock_of_makesBlocks (makesBlocks_of_lt (he ▸ hint))]
        set q : SideParams μ := { (regenIV P p).2 with
          aesBlock := (regenIV P p).2.aesBlock ++
            e.cipherText P p.handshake.phase2Key (regenIV P p).1 } with hq
        have hbuffer : q.buffer = p.buffer.extend (nextBlock P n p.handshake.phase2Key) := by
          rw [buffer, hq, Settings.cipherText_of_lt (he ▸ hint), he]
          rfl
        have hsame : keystream P n q = keystream P n p := by
          show q.buffer.stream (nextBlock P n p.handshake.phase2Key) = _
          rw [hbuffer, Buffer.stream_extend (nextBlock_ne_nil hpos _)]
          rfl
        have hlen : q.aesBlock.length = p.aesBlock.length + n := by
          rw [hq, List.length_append, Settings.length_cipherText, he]
          rfl
        obtain ⟨p', henlarge, hle, hstream⟩ := ih q (by omega)
        exact ⟨p', henlarge, hle, hstream.trans hsame⟩

theorem keystream_reduce (hsize : 0 < n) (p : SideParams μ) {bytes : ℕ}
    (hle : bytes ≤ p.aesBlock.length) (i : ℕ) :
    keystream P n (p.reduce bytes) i = keystream P n p (bytes + i) := by
  rw [reduce_eq]
  exact Buffer.stream_drop (nextBlock_ne_nil hsize _) p.buffer hle i

/-- Data that is not longer than the block is combined with the key stream. -/
theorem cryptoXOR_eq (hsize : 0 < n) {p : SideParams μ} {data : List UInt8}
    (hle : data.length ≤ p.aesBlock.length) (dontreduce : Bool) :
    p.cryptoXOR data dontreduce = (mask xorByte (keystream P n p) data,
      if dontreduce then p else p.reduce data.length) := by
  have hmask : List.zipWith xorByte data p.aesBlock =
      mask xorByte (keystream P n p) data := by
    refine zipWith_eq_mask hle fun i hi => ?_
    exact Buffer.getD_rest (nextBlock_ne_nil hsize _) p.buffer hi
  rw [cryptoXOR_of_le hle, hmask]

end SideParams

/-! ## The handshake -/

/-- The header that is sent. -/
def RandomBytes.header (r : RandomBytes) : HandShakeHeader :=
  { phase2Key := r.phase2Key, ivSeed := r.ivSeed }

theorem RandomBytes.length_header (r : RandomBytes) : r.header.toBytes.length = 112 := by
  simp [header, HandShakeHeader.toBytes, r.length_phase2Key, r.length_ivSeed]

theorem RandomBytes.ofBytes_header (r : RandomBytes) :
    HandShakeHeader.ofBytes r.header.toBytes = r.header := by
  have hkey : r.phase2Key.length = 32 := r.length_phase2Key
  have hseed : r.ivSeed.length = 16 := r.length_ivSeed
  have hmagic : r.header.toBytes.take 4 = r.header.magicBytes := List.take_left' rfl
  have hdrop4 : r.header.toBytes.drop 4 = r.ivSeed ++ (r.phase2Key ++ r.header.reserved) :=
    List.drop_left' rfl
  have hdrop20 : r.header.toBytes.drop 20 = r.phase2Key ++ r.header.reserved := by
    rw [show 20 = 4 + 16 from rfl, ← List.drop_drop, hdrop4, List.drop_left' hseed]
  have hdrop52 : r.header.toBytes.drop 52 = r.header.reserved := by
    rw [show 52 = 20 + 32 from rfl, ← List.drop_drop, hdrop20, List.drop_left' hkey]
  rw [HandShakeHeader.ofBytes, hmagic, hdrop4, hdrop20, hdrop52, List.take_left' hseed,
    List.take_left' hkey]
  rfl

/-- Only as many items of a list count as there are in the other one. -/
theorem zipWith_take_right {data block : List UInt8} {m : ℕ} (h : data.length ≤ m) :
    List.zipWith xorByte data (block.take m) = List.zipWith xorByte data block := by
  induction data generalizing block m with
  | nil => rfl
  | cons b data ih =>
      obtain ⟨m, rfl⟩ := Nat.exists_eq_succ_of_ne_zero (Nat.ne_zero_of_lt h)
      cases block with
      | nil => rfl
      | cons c block => exact congrArg (xorByte b c :: ·) (ih (Nat.le_of_succ_le_succ h))

/-- What was combined with a block is itself again. -/
theorem zipWith_zipWith {data block : List UInt8} (h : data.length ≤ block.length) :
    List.zipWith xorByte (List.zipWith xorByte data block) block = data := by
  have hmask : ∀ data : List UInt8, data.length ≤ block.length →
      List.zipWith xorByte data block = mask xorByte (fun i => block.getD i default) data :=
    fun data hdata => zipWith_eq_mask hdata fun _ _ => rfl
  rw [hmask data h, hmask _ (by rw [length_mask]; exact h), mask_mask xorByte_xorByte]

namespace ChainSocket

variable {phase1Key : List UInt8}

theorem transmit_fresh (hmakes : MakesBlocks e.aesRegenBlockSize) (r : RandomBytes)
    (hsize : 112 ≤ e.aesRegenBlockSize) :
    (fresh P e).transmit P phase1Key r =
      (r.handShakeIV ++
          List.zipWith xorByte r.header.toBytes (e.cipherText P phase1Key r.handShakeIV),
        some { fresh P e with writeParams := (fresh P e).writeParams.start P r.header }) := by
  have hle : r.header.toBytes.length ≤ (e.cipherText P phase1Key r.handShakeIV).length := by
    rw [Settings.length_cipherText, r.length_header]
    exact hsize
  have happend : (fresh P e).writeParams.appendNewAESBlock P (fresh P e).settings phase1Key
      r.handShakeIV = some
        { (fresh P e).writeParams with aesBlock := e.cipherText P phase1Key r.handShakeIV } := by
    rw [SideParams.appendNewAESBlock_of_makesBlocks
      (show MakesBlocks (fresh P e).settings.aesRegenBlockSize from hmakes),
      show (fresh P e).writeParams.aesBlock = [] from rfl, List.nil_append]
    rfl
  have hheader : { (fresh P e).writeParams.handshake with
      phase2Key := r.phase2Key, ivSeed := r.ivSeed } = r.header := rfl
  unfold transmit
  rw [happend]
  dsimp only
  rw [hheader, SideParams.cryptoXOR_of_le hle]
  rfl

/-- Without blocks there is no handshake. -/
theorem postAcceptSubInitialization_of_not (hnone : ¬ MakesBlocks e.aesRegenBlockSize)
    (r : RandomBytes) (incoming : List UInt8) :
    (fresh P e).postAcceptSubInitialization P phase1Key r incoming = none := by
  have htransmit : ((fresh P e).transmit P phase1Key r).2 = none := by
    have happend : (fresh P e).writeParams.appendNewAESBlock P (fresh P e).settings phase1Key
        r.handShakeIV = none := SideParams.appendNewAESBlock_of_not hnone _ _ _
    unfold transmit
    rw [happend]
  rw [postAcceptSubInitialization, htransmit, Option.bind_none]

/-- The header arrives as it was sent, where the blocks of both ends begin alike. -/
theorem receive_of_begins {e' : Settings} (hmakes' : MakesBlocks e'.aesRegenBlockSize)
    (hsize : 112 ≤ e.aesRegenBlockSize) (hsize' : 112 ≤ e'.aesRegenBlockSize) (r : RandomBytes)
    (hbegins : (e.cipherText P phase1Key r.handShakeIV).take 112
      = (e'.cipherText P phase1Key r.handShakeIV).take 112)
    {t : ChainSocket μ} (hsettings : t.settings = e') (ht : t.readParams.aesBlock = []) :
    t.receive P phase1Key (r.handShakeIV ++
        List.zipWith xorByte r.header.toBytes (e.cipherText P phase1Key r.handShakeIV)) =
      some
        { t with
          readParams := t.readParams.start P r.header
          initialized := true
          makesBlocks := fun _ => hsettings ▸ hmakes' } := by
  subst hsettings
  set block := e.cipherText P phase1Key r.handShakeIV with hblock
  set block' := t.settings.cipherText P phase1Key r.handShakeIV with hblock'
  have hlen : block.length = e.aesRegenBlockSize := Settings.length_cipherText _ _
  have hlen' : block'.length = t.settings.aesRegenBlockSize := Settings.length_cipherText _ _
  have hheader := r.length_header
  set coded := List.zipWith xorByte r.header.toBytes block with hcoded
  have hcodedLen : coded.length = 112 := by
    rw [hcoded, List.length_zipWith]
    omega
  -- both ends combine with the same 112 bytes
  have hdecoded : List.zipWith xorByte coded block' = r.header.toBytes := by
    have hsame : coded = List.zipWith xorByte r.header.toBytes block' := by
      rw [hcoded, ← zipWith_take_right hheader.le, hbegins, zipWith_take_right hheader.le]
    rw [hsame, zipWith_zipWith (by omega)]
  have hiv : (r.handShakeIV ++ coded).take 16 = r.handShakeIV :=
    List.take_left' r.length_handShakeIV
  have hrest : ((r.handShakeIV ++ coded).drop 16).take 112 = coded := by
    rw [List.drop_left' r.length_handShakeIV, List.take_of_length_le hcodedLen.le]
  have hlong : ¬ (r.handShakeIV ++ coded).length < 128 := by
    rw [List.length_append, r.length_handShakeIV, hcodedLen]
    decide
  have happend : t.readParams.appendNewAESBlock P t.settings phase1Key
      ((r.handShakeIV ++ coded).take 16) = some { t.readParams with aesBlock := block' } := by
    rw [hiv, SideParams.appendNewAESBlock_of_makesBlocks hmakes', ht, List.nil_append]
  rw [receive, if_neg hlong]
  split
  · rename_i hnone
    rw [happend] at hnone
    cases hnone
  · rename_i p hp
    rw [happend] at hp
    obtain rfl := Option.some.inj hp
    dsimp only
    have hmagic : r.header.magicBytes = [73, 72, 68, 82] := rfl
    rw [hrest, SideParams.cryptoXOR_of_le (by show coded.length ≤ block'.length; omega)]
    dsimp only
    rw [hdecoded, r.ofBytes_header, if_pos hmagic]
    rfl

end ChainSocket

/-! ## Calls -/

/-- What has been accepted and not returned is on the transport, under the bytes that the reading
end is going to take next; the writing end is behind them. -/
structure InStep (P : Primitives μ) (n : ℕ) (ends : Ends μ) (pending : List UInt8) : Prop where
  whole : Whole n
  writerSize : ends.writer.settings.aesRegenBlockSize = n
  readerSize : ends.reader.settings.aesRegenBlockSize = n
  writer : ends.writer.initialized = true
  reader : ends.reader.initialized = true
  accepted : ends.accepted = ends.returned ++ pending
  wire : ends.wire = mask xorByte (ends.reader.readParams.keystream P n) pending
  stream : ∀ i, ends.writer.writeParams.keystream P n i =
    ends.reader.readParams.keystream P n (pending.length + i)

variable {ends : Ends μ} {pending : List UInt8}

theorem inStep_partialWrite (h : InStep P n ends pending) (data : List UInt8) (taken : ℤ) :
    InStep P n (ends.step P (.partialWrite data taken))
      (pending ++ data.take (min taken data.length).toNat) := by
  obtain ⟨p, henlarge, hle, hstream⟩ := SideParams.enlarge_spec (P := P) h.whole h.writerSize
    data.length data.length ends.writer.writeParams (Nat.le_add_left _ _)
  have hsize := h.whole.1
  have hxor := SideParams.cryptoXOR_eq (P := P) hsize hle true
  set m := (min taken data.length).toNat with hm
  have hmle : m ≤ data.length := by omega
  have hwrite : ends.writer.partialWrite P data taken =
      (min taken data.length,
        (mask xorByte (p.keystream P n) data).take m,
        { ends.writer with
          writeParams := if 0 < min taken data.length then p.reduce m else p }) := by
    rw [ChainSocket.partialWrite, if_neg (by rw [h.writer]; decide), henlarge]
    simp only [hxor]
    rfl
  have hbehind : ∀ i, SideParams.keystream P n
      (if 0 < min taken data.length then p.reduce m else p) i = p.keystream P n (m + i) := by
    intro i
    split
    · exact SideParams.keystream_reduce hsize p (hmle.trans hle) i
    · have hzero : m = 0 := by omega
      rw [hzero, Nat.zero_add]
  have hshift : p.keystream P n = fun i =>
      ends.reader.readParams.keystream P n (pending.length + i) := by
    funext i
    rw [hstream, h.stream]
  have htake : (data.take m).length = m := List.length_take_of_le hmle
  rw [Ends.step, hwrite]
  refine ⟨h.whole, h.writerSize, h.readerSize, h.writer, h.reader, ?_, ?_, ?_⟩
  · show ends.accepted ++ data.take m = _
    rw [h.accepted, List.append_assoc]
  · show ends.wire ++ (mask xorByte (p.keystream P n) data).take m = _
    rw [h.wire, mask_take, mask_append, hshift]
  · intro i
    show SideParams.keystream P n (if _ then _ else _) i = _
    rw [hbehind, hstream, h.stream, List.length_append, htake, Nat.add_assoc]

theorem inStep_partialRead (h : InStep P n ends pending) (datalen : ℕ) (delivered : ℤ) :
    InStep P n (ends.step P (.partialRead datalen delivered))
      (pending.drop (min (min delivered datalen) ends.wire.length).toNat) := by
  rw [Ends.step]
  by_cases hr : min (min delivered datalen) ends.wire.length ≤ 0
  · -- nothing was read
    have hzero : (min (min delivered datalen) (ends.wire.length : ℤ)).toNat = 0 := by omega
    rw [ChainSocket.partialRead, if_pos (Or.inr hr), hzero]
    simp only [List.take_zero, List.drop_zero, List.append_nil]
    exact h
  · set m := (min (min delivered datalen) (ends.wire.length : ℤ)).toNat with hm
    obtain ⟨p, henlarge, hle, hstream⟩ := SideParams.enlarge_spec (P := P) h.whole h.readerSize m m
      ends.reader.readParams (Nat.le_add_left _ _)
    have hsize := h.whole.1
    have hlen : (ends.wire.take m).length = m := by
      rw [List.length_take]
      omega
    have hxor := SideParams.cryptoXOR_eq (P := P) hsize
      (show (ends.wire.take m).length ≤ p.aesBlock.length by rw [hlen]; exact hle) false
    have hpending : mask xorByte (p.keystream P n) (ends.wire.take m) = pending.take m := by
      rw [hstream, h.wire, mask_take, mask_mask xorByte_xorByte]
    rw [hpending, hlen] at hxor
    have hread : ends.reader.partialRead P datalen ends.wire delivered =
        (min (min delivered datalen) ends.wire.length, pending.take m,
          { ends.reader with readParams := p.reduce m }) := by
      rw [ChainSocket.partialRead, if_neg (by
        rw [h.reader]
        exact fun hor => hor.elim (by decide) hr), ← hm, henlarge]
      simp only [hxor]
      rfl
    have hmle : m ≤ pending.length := by
      have hwire := congrArg List.length h.wire
      rw [length_mask] at hwire
      omega
    rw [hread]
    refine ⟨h.whole, h.writerSize, h.readerSize, h.writer, h.reader, ?_, ?_, ?_⟩
    · show ends.accepted = ends.returned ++ pending.take m ++ pending.drop m
      rw [List.append_assoc, List.take_append_drop]
      exact h.accepted
    · show ends.wire.drop m = mask xorByte ((p.reduce m).keystream P n) _
      rw [h.wire, mask_drop]
      congr 1
      funext i
      rw [SideParams.keystream_reduce hsize p hle, hstream]
    · intro i
      show _ = (p.reduce m).keystream P n _
      rw [SideParams.keystream_reduce hsize p hle, hstream, List.length_drop, ← Nat.add_assoc,
        Nat.add_sub_cancel' hmle]
      exact h.stream i

/-- What was accepted is what was returned and what is on the transport. -/
structure Transparent (ends : Ends μ) : Prop where
  returned_prefix : ends.returned <+: ends.accepted
  length : ends.accepted.length = ends.returned.length + ends.wire.length

theorem InStep.transparent (h : InStep P n ends pending) : Transparent ends where
  returned_prefix := ⟨pending, h.accepted.symm⟩
  length := by rw [h.accepted, h.wire, List.length_append, length_mask]

theorem inStep_run (calls : List Call) (h : InStep P n ends pending) :
    ∃ pending', InStep P n (ends.run P calls) pending' := by
  induction calls generalizing ends pending with
  | nil => exact ⟨pending, h⟩
  | cons c calls ih =>
      cases c with
      | partialWrite data taken => exact ih (inStep_partialWrite h data taken)
      | partialRead datalen delivered => exact ih (inStep_partialRead h datalen delivered)

/-! ## Two ends after a handshake -/

section Handshake

variable (e e' : Settings) (phase1Key : List UInt8)

/-- Both ends come out of a handshake, where their blocks begin alike. -/
theorem postAcceptSubInitialization_of_begins (hmakes : MakesBlocks e.aesRegenBlockSize)
    (hmakes' : MakesBlocks e'.aesRegenBlockSize) (hsize : 112 ≤ e.aesRegenBlockSize)
    (hsize' : 112 ≤ e'.aesRegenBlockSize) (r r' : RandomBytes)
    (hbegins : (e'.cipherText P phase1Key r'.handShakeIV).take 112
      = (e.cipherText P phase1Key r'.handShakeIV).take 112) :
    (ChainSocket.fresh P e).postAcceptSubInitialization P phase1Key r
        ((ChainSocket.fresh P e').transmit P phase1Key r').1 =
      some
        { settings := e
          readParams := (ChainSocket.fresh P e).readParams.start P r'.header
          writeParams := (ChainSocket.fresh P e).writeParams.start P r.header
          initialized := true
          makesBlocks := fun _ => hmakes } := by
  rw [ChainSocket.postAcceptSubInitialization, ChainSocket.transmit_fresh hmakes r hsize,
    ChainSocket.transmit_fresh hmakes' r' hsize', Option.bind_some]
  exact ChainSocket.receive_of_begins (t := { ChainSocket.fresh P e with
    writeParams := (ChainSocket.fresh P e).writeParams.start P r.header }) hmakes hsize' hsize r'
    hbegins rfl rfl

variable {phase1Key}

/-- Ends with the same whole blocks are in step after a handshake. -/
theorem inStep_of_handshake (he : e.aesRegenBlockSize = n) (he' : e'.aesRegenBlockSize = n)
    (hsize : 112 ≤ n) (hint : n < 2 ^ 31) {r r' : RandomBytes} {s t : ChainSocket μ}
    (hs : (ChainSocket.fresh P e).postAcceptSubInitialization P phase1Key r
      ((ChainSocket.fresh P e').transmit P phase1Key r').1 = some s)
    (ht : (ChainSocket.fresh P e').postAcceptSubInitialization P phase1Key r'
      ((ChainSocket.fresh P e).transmit P phase1Key r).1 = some t) :
    InStep P n { writer := s, reader := t } [] := by
  subst he
  have hsame : ∀ iv, e'.cipherText P phase1Key iv = e.cipherText P phase1Key iv := by
    intro iv
    rw [Settings.cipherText_of_lt (he' ▸ hint), Settings.cipherText_of_lt hint, he']
  have hmakes := makesBlocks_of_lt hint
  have hmakes' : MakesBlocks e'.aesRegenBlockSize := he'.symm ▸ hmakes
  have hsize' : 112 ≤ e'.aesRegenBlockSize := he'.symm ▸ hsize
  rw [postAcceptSubInitialization_of_begins e e' phase1Key hmakes hmakes' hsize hsize' r r'
    (by rw [hsame])] at hs
  rw [postAcceptSubInitialization_of_begins e' e phase1Key hmakes' hmakes hsize' hsize r' r
    (by rw [hsame])] at ht
  obtain rfl := Option.some.inj hs
  obtain rfl := Option.some.inj ht
  refine ⟨⟨by omega, hint⟩, rfl, he', rfl, rfl, rfl, rfl, fun i => ?_⟩
  rw [List.length_nil, Nat.zero_add]
  rfl

end Handshake

/-- What `genRandomBytes` may fill in. -/
def sampleBytes (b : UInt8) : RandomBytes where
  handShakeIV := List.replicate 16 b
  phase2Key := List.replicate 32 (b + 1)
  ivSeed := List.replicate 16 (b + 2)
  length_handShakeIV := List.length_replicate
  length_phase2Key := List.length_replicate
  length_ivSeed := List.length_replicate

/-! ## Blocks that are not whole -/

namespace SideParams

/-- The first round of the loop is enough for data that is not longer than a block. -/
theorem enlarge_nil (hmakes : MakesBlocks e.aesRegenBlockSize) {p : SideParams μ}
    (hnil : p.aesBlock = []) {size : ℕ} (hpos : 0 < size) (hle : size ≤ e.aesRegenBlockSize) :
    ∃ key iv p', p.enlarge P e size size = (true, p') ∧ p'.aesBlock = e.cipherText P key iv := by
  obtain ⟨fuel, rfl⟩ := Nat.exists_eq_succ_of_ne_zero hpos.ne'
  have hshort : p.aesBlock.length < fuel + 1 := by
    rw [hnil]
    exact hpos
  have henough : ∀ (q : SideParams μ) (k : ℕ), fuel + 1 ≤ q.aesBlock.length →
      q.enlarge P e (fuel + 1) k = (true, q) := by
    intro q k hq
    cases k with
    | zero => rfl
    | succ k => rw [enlarge, if_neg (not_lt.mpr hq)]
  refine ⟨p.handshake.phase2Key, (regenIV P p).1, { (regenIV P p).2 with
    aesBlock := e.cipherText P p.handshake.phase2Key (regenIV P p).1 }, ?_, rfl⟩
  have hblock : (regenIV P p).2.aesBlock = [] := hnil
  rw [enlarge, if_pos hshort]
  dsimp only
  rw [appendNewAESBlock_of_makesBlocks hmakes, hblock, List.nil_append]
  exact henough _ _ (by rw [Settings.length_cipherText]; exact hle)

end SideParams

namespace ChainSocket

variable {s : ChainSocket μ} {data : List UInt8}

/-- The first write of an end, no longer than a block, that is taken as a whole. -/
theorem partialWrite_first (hinit : s.initialized = true) (hnil : s.writeParams.aesBlock = [])
    (hne : data ≠ []) (hle : data.length ≤ s.settings.aesRegenBlockSize) :
    ∃ key iv, (s.partialWrite P data data.length).1 = data.length ∧
      (s.partialWrite P data data.length).2.1 =
        List.zipWith xorByte data (s.settings.cipherText P key iv) := by
  obtain ⟨key, iv, p, henlarge, hblock⟩ := SideParams.enlarge_nil (P := P) (s.makesBlocks hinit)
    hnil (List.length_pos_iff.mpr hne) hle
  have hlong : data.length ≤ p.aesBlock.length := by
    rw [hblock, Settings.length_cipherText]
    exact hle
  rw [partialWrite, if_neg (by rw [hinit]; decide), henlarge]
  dsimp only
  rw [SideParams.cryptoXOR_of_le hlong, hblock, min_self, Int.toNat_natCast]
  refine ⟨key, iv, rfl, List.take_of_length_le ?_⟩
  rw [List.length_zipWith]
  exact Nat.min_le_left _ _

/-- The first read of an end, no longer than a block, that takes all there is. -/
theorem partialRead_first (hinit : s.initialized = true) (hnil : s.readParams.aesBlock = [])
    (hne : data ≠ []) (hle : data.length ≤ s.settings.aesRegenBlockSize) :
    ∃ key iv, (s.partialRead P data.length data data.length).2.1 =
      List.zipWith xorByte data (s.settings.cipherText P key iv) := by
  have hpos := List.length_pos_iff.mpr hne
  obtain ⟨key, iv, p, henlarge, hblock⟩ := SideParams.enlarge_nil (P := P) (s.makesBlocks hinit)
    hnil hpos hle
  have hlong : data.length ≤ p.aesBlock.length := by
    rw [hblock, Settings.length_cipherText]
    exact hle
  have hsome : ¬ (s.initialized = false ∨
      min (min (data.length : ℤ) data.length) data.length ≤ 0) := by
    rintro (hfalse | hzero)
    · rw [hinit] at hfalse
      cases hfalse
    · omega
  rw [partialRead, if_neg hsome, min_self, min_self, Int.toNat_natCast, henlarge]
  dsimp only
  rw [List.take_length, SideParams.cryptoXOR_of_le hlong, hblock]
  exact ⟨key, iv, rfl⟩

end ChainSocket

/-- A cipher that leaves a text as it is, and a generator of zeros. -/
def plainPrimitives : Primitives Unit where
  aes256gcm _ _ text := text
  length_aes256gcm _ _ _ := rfl
  seed _ := ()
  next _ := (0, ())

/-- An end whose memory has the byte `b` behind the places of a header. -/
def garbled (aesRegenBlockSize : ℕ) (b : UInt8) : Settings where
  aesRegenBlockSize := aesRegenBlockSize
  garbage _ i := if i < 112 then 0 else b

theorem garbage_garbled {b : UInt8} {iv : List UInt8} {i : ℕ} (h : ¬ i < 112) :
    (garbled n b).garbage iv i = b :=
  if_neg h

theorem take_cipherText_garbled (hsize : 112 ≤ n) (b b' : UInt8) (key iv : List UInt8) :
    ((garbled n b).cipherText plainPrimitives key iv).take 112
      = ((garbled n b').cipherText plainPrimitives key iv).take 112 := by
  apply List.ext_getElem?
  intro i
  by_cases hi : i < 112
  · rw [List.getElem?_take_of_lt hi, List.getElem?_take_of_lt hi]
    by_cases hlt : i < (inl n).toNat
    · rw [Settings.getElem?_cipherText_of_lt (e := garbled n b) key iv hlt,
        Settings.getElem?_cipherText_of_lt (e := garbled n b') key iv hlt]
      rfl
    · have hin : i < n := by omega
      rw [Settings.getElem?_cipherText_of_ge (e := garbled n b) key iv (not_lt.mp hlt) hin,
        Settings.getElem?_cipherText_of_ge (e := garbled n b') key iv (not_lt.mp hlt) hin]
      show some (if i < 112 then 0 else b) = some (if i < 112 then 0 else b')
      rw [if_pos hi, if_pos hi]
  · rw [List.getElem?_eq_none (by rw [List.length_take]; omega),
      List.getElem?_eq_none (by rw [List.length_take]; omega)]

/-- The handshake of two such ends. -/
theorem postAcceptSubInitialization_garbled (hmakes : MakesBlocks n) (hsize : 112 ≤ n)
    (b b' : UInt8) :
    (ChainSocket.fresh plainPrimitives (garbled n b)).postAcceptSubInitialization plainPrimitives []
        (sampleBytes 1) ((ChainSocket.fresh plainPrimitives
          (garbled n b')).transmit plainPrimitives [] (sampleBytes 1)).1 =
      some
        { settings := garbled n b
          readParams := (ChainSocket.fresh plainPrimitives (garbled n b)).readParams.start
            plainPrimitives (sampleBytes 1).header
          writeParams := (ChainSocket.fresh plainPrimitives (garbled n b)).writeParams.start
            plainPrimitives (sampleBytes 1).header
          initialized := true
          makesBlocks := fun _ => hmakes } := by
  have hbegins := take_cipherText_garbled hsize b' b [] (sampleBytes 1).handShakeIV
  exact postAcceptSubInitialization_of_begins (garbled n b) (garbled n b') [] hmakes hmakes hsize
    hsize (sampleBytes 1) (sampleBytes 1) hbegins

/-- The place of the first byte that is not written and behind those of a header. -/
def firstGarbled (aesRegenBlockSize : ℕ) : ℕ := max (inl aesRegenBlockSize).toNat 112

theorem getElem?_cipherText_garbled (hlong : 2 ^ 32 ≤ n) (b : UInt8) (key iv : List UInt8) :
    ((garbled n b).cipherText plainPrimitives key iv)[firstGarbled n]? = some b := by
  have hinl := inl_lt n
  have hplace : firstGarbled n < n := by
    rw [firstGarbled]
    omega
  have hwritten : (inl n).toNat ≤ firstGarbled n := le_max_left _ _
  have hbehind : ¬ firstGarbled n < 112 := not_lt.mpr (le_max_right _ _)
  rw [Settings.getElem?_cipherText_of_ge (e := garbled n b) key iv hwritten hplace,
    garbage_garbled hbehind]

/-- A write up to the first byte that is not written, and a read of it. -/
def garbledCalls (aesRegenBlockSize : ℕ) : List Call :=
  [.partialWrite (List.replicate (firstGarbled aesRegenBlockSize + 1) 0)
      (firstGarbled aesRegenBlockSize + 1 : ℕ),
    .partialRead (firstGarbled aesRegenBlockSize + 1) (firstGarbled aesRegenBlockSize + 1 : ℕ)]

/-- Two ends whose memories differ there. -/
theorem not_transparent_garbled {s t : ChainSocket Unit} (hlong : 2 ^ 32 ≤ n)
    (hs : s.settings = garbled n 0) (ht : t.settings = garbled n 1)
    (hsinit : s.initialized = true) (htinit : t.initialized = true)
    (hsnil : s.writeParams.aesBlock = []) (htnil : t.readParams.aesBlock = []) :
    ¬ Transparent (Ends.run plainPrimitives { writer := s, reader := t } (garbledCalls n)) := by
  have hinl := inl_lt n
  set k := firstGarbled n with hk
  have hkn : k + 1 ≤ n := by
    rw [hk, firstGarbled]
    omega
  set data : List UInt8 := List.replicate (k + 1) 0 with hdata
  have hlen : data.length = k + 1 := List.length_replicate
  have hne : data ≠ [] := List.length_pos_iff.mp (by omega)
  obtain ⟨key, iv, hresult, hsent⟩ := ChainSocket.partialWrite_first (P := plainPrimitives) hsinit
    hsnil hne (by rw [hs, hlen]; exact hkn)
  set wire := List.zipWith xorByte data (s.settings.cipherText plainPrimitives key iv) with hwire
  have hwireLen : wire.length = k + 1 := by
    rw [hwire, List.length_zipWith, Settings.length_cipherText, hs, hlen]
    exact Nat.min_eq_left hkn
  obtain ⟨key', iv', hread⟩ := ChainSocket.partialRead_first (P := plainPrimitives) htinit htnil
    (List.length_pos_iff.mp (show 0 < wire.length by omega)) (by rw [ht, hwireLen]; exact hkn)
  rw [hlen] at hresult hsent
  rw [hwireLen] at hread
  have hrun : ∃ returned, (Ends.run plainPrimitives { writer := s, reader := t }
      (garbledCalls n)).accepted = data ∧
        (Ends.run plainPrimitives { writer := s, reader := t } (garbledCalls n)).returned = returned
          ∧ returned = List.zipWith xorByte wire (t.settings.cipherText plainPrimitives key' iv') :=
    by
    refine ⟨_, ?_, rfl, ?_⟩
    · show [] ++ data.take (s.partialWrite plainPrimitives data (k + 1 : ℕ)).1.toNat = data
      rw [hresult, Int.toNat_natCast, ← hlen, List.take_length, List.nil_append]
    · show [] ++ (t.partialRead plainPrimitives (k + 1)
        ([] ++ (s.partialWrite plainPrimitives data (k + 1 : ℕ)).2.1) (k + 1 : ℕ)).2.1 = _
      rw [hsent, List.nil_append, List.nil_append, hread]
  obtain ⟨returned, haccepted, hreturned, hzip⟩ := hrun
  -- the byte `k` comes out as what is in the memory of the reading end
  have hbyte : returned[k]? = some 1 := by
    rw [hzip, hwire, List.getElem?_zipWith, List.getElem?_zipWith, hs, ht,
      getElem?_cipherText_garbled hlong, getElem?_cipherText_garbled hlong, hdata,
      List.getElem?_replicate, if_pos (Nat.lt_succ_self k)]
    rfl
  intro h
  have hprefix := h.returned_prefix
  rw [hreturned, haccepted] at hprefix
  obtain ⟨rest, hrest⟩ := hprefix
  have hlt : k < returned.length := (List.getElem?_eq_some_iff.mp hbyte).1
  have hzero : (returned ++ rest)[k]? = some 0 := by
    rw [hrest, hdata, List.getElem?_replicate, if_pos (Nat.lt_succ_self k)]
  rw [List.getElem?_append_left hlt, hbyte] at hzero
  cases hzero

/-- **Which chains are transparent.**  Two ends with the same phase 1 key and the same block size
have made a handshake; the bytes are written in any pieces, the transport takes and delivers as many
of them at a time as it likes, and any number is asked for at the other end.  Then what the reads
return is the beginning of what the writes reported as accepted, up to the bytes that are still on
the transport, exactly if the block size is an `int`, or is one of which no block can be made. -/
theorem chain_transparent_iff (aesRegenBlockSize : ℕ) (hsize : 112 ≤ aesRegenBlockSize) :
    (∀ (μ : Type) (P : Primitives μ) (garbage garbage' : List UInt8 → ℕ → UInt8)
        (phase1Key : List UInt8) (r r' : RandomBytes) (s t : ChainSocket μ),
      let near := ChainSocket.fresh P ⟨aesRegenBlockSize, garbage⟩
      let far := ChainSocket.fresh P ⟨aesRegenBlockSize, garbage'⟩
      near.postAcceptSubInitialization P phase1Key r (far.transmit P phase1Key r').1 = some s →
      far.postAcceptSubInitialization P phase1Key r' (near.transmit P phase1Key r).1 = some t →
      ∀ calls, Transparent (Ends.run P { writer := s, reader := t } calls)) ↔
      aesRegenBlockSize < 2 ^ 31 ∨ ¬ MakesBlocks aesRegenBlockSize := by
  constructor
  · intro h
    by_contra hnot
    rw [not_or, not_not, not_lt] at hnot
    obtain ⟨hint, hmakes⟩ := hnot
    have hlong := le_of_makesBlocks hmakes hint
    exact not_transparent_garbled hlong rfl rfl rfl rfl rfl rfl
      (h Unit plainPrimitives _ _ [] (sampleBytes 1) (sampleBytes 1) _ _
        (postAcceptSubInitialization_garbled hmakes hsize 0 1)
        (postAcceptSubInitialization_garbled hmakes hsize 1 0) (garbledCalls aesRegenBlockSize))
  · rintro (hint | hnone) μ P garbage garbage' phase1Key r r' s t near far hs ht calls
    · obtain ⟨pending, h⟩ := inStep_run calls (inStep_of_handshake (n := aesRegenBlockSize)
        ⟨aesRegenBlockSize, garbage⟩ ⟨aesRegenBlockSize, garbage'⟩ rfl rfl hsize hint hs ht)
      exact h.transparent
    · rw [ChainSocket.postAcceptSubInitialization_of_not hnone] at hs
      cases hs

/-- A cipher and a generator to try the chain with. -/
def samplePrimitives : Primitives UInt64 where
  aes256gcm key iv text := text.map (· ^^^ (key ++ iv).sum)
  length_aes256gcm _ _ _ := List.length_map ..
  seed := id
  next m := (m * 6364136223846793005 + 1442695040888963407, m + 1)

/-- Two writes, the first of which is taken in part, and two reads; the memories of the ends have
nothing in common. -/
theorem chain_transparent_sample :
    let key := List.replicate 32 7
    let near := ChainSocket.fresh samplePrimitives ⟨112, fun _ _ => 0⟩
    let far := ChainSocket.fresh samplePrimitives ⟨112, fun _ _ => 1⟩
    ∃ s t,
      near.postAcceptSubInitialization samplePrimitives key (sampleBytes 1)
        (far.transmit samplePrimitives key (sampleBytes 2)).1 = some s ∧
      far.postAcceptSubInitialization samplePrimitives key (sampleBytes 2)
        (near.transmit samplePrimitives key (sampleBytes 1)).1 = some t ∧
      Transparent (Ends.run samplePrimitives { writer := s, reader := t }
        [.partialWrite [104, 101, 106] 2, .partialRead 8 1, .partialWrite [108] 1,
          .partialRead 8 8]) := by
  intro key near far
  have hmakes : MakesBlocks 112 := makesBlocks_of_lt (by decide)
  have hblock : ∀ iv, Settings.cipherText samplePrimitives ⟨112, fun _ _ => 0⟩ key iv =
      Settings.cipherText samplePrimitives ⟨112, fun _ _ => 1⟩ key iv := by
    intro iv
    rw [Settings.cipherText_of_lt (by decide), Settings.cipherText_of_lt (by decide)]
  have hs := postAcceptSubInitialization_of_begins (P := samplePrimitives) ⟨112, fun _ _ => 0⟩
    ⟨112, fun _ _ => 1⟩ key hmakes hmakes le_rfl le_rfl (sampleBytes 1) (sampleBytes 2)
    (by rw [hblock])
  have ht := postAcceptSubInitialization_of_begins (P := samplePrimitives) ⟨112, fun _ _ => 1⟩
    ⟨112, fun _ _ => 0⟩ key hmakes hmakes le_rfl le_rfl (sampleBytes 2) (sampleBytes 1)
    (by rw [hblock])
  exact ⟨_, _, hs, ht, (chain_transparent_iff 112 le_rfl).mpr (.inl (by decide)) UInt64
    samplePrimitives _ _ key (sampleBytes 1) (sampleBytes 2) _ _ hs ht _⟩

/-- A block size of 2^32 + 112: of a block 112 bytes are encrypted, which is enough for the
handshake, and the byte behind them comes out as it is in the memory of the reading end. -/
theorem chain_not_transparent : ∃ s t,
    let near := ChainSocket.fresh plainPrimitives (garbled (2 ^ 32 + 112) 0)
    let far := ChainSocket.fresh plainPrimitives (garbled (2 ^ 32 + 112) 1)
    near.postAcceptSubInitialization plainPrimitives [] (sampleBytes 1)
      (far.transmit plainPrimitives [] (sampleBytes 1)).1 = some s ∧
    far.postAcceptSubInitialization plainPrimitives [] (sampleBytes 1)
      (near.transmit plainPrimitives [] (sampleBytes 1)).1 = some t ∧
    ¬ Transparent (Ends.run plainPrimitives { writer := s, reader := t }
      (garbledCalls (2 ^ 32 + 112))) := by
  have hsize : 112 ≤ 2 ^ 32 + 112 := by decide
  have hmakes : MakesBlocks (2 ^ 32 + 112) := by decide
  exact ⟨_, _, postAcceptSubInitialization_garbled hmakes hsize 0 1,
    postAcceptSubInitialization_garbled hmakes hsize 1 0,
    not_transparent_garbled (by decide) rfl rfl rfl rfl rfl rfl⟩

end SocketChainAes

end Mantids
