/-
# Random bytes

`Socket_Chain_AES::genRandomBytes` fills a buffer from `/dev/random`.  If the device cannot be
opened, or a read is not complete, the buffer is filled by `genRandomWeakBytes` instead, from four
generators with seeds of 32 bits.

* `Device` — `/dev/random`, with what `fread` transfers at each call;
* `fread`, `genRandomWeakBytes`, `genRandomBytes` — the functions of the source;
* `strong_iff` — when the bytes of a device that delivers everything are kept.
-/
import Mantids.SocketChainAes

namespace Mantids

namespace SocketChainAes

/-! ## The weak generators -/

variable {μ : Type*} (P : Primitives μ)

/-- `eng1` to `eng4`. -/
structure Engines (μ : Type*) where
  eng1 : μ
  eng2 : μ
  eng3 : μ
  eng4 : μ

namespace Engines

/-- The engines with four numbers of the `random_device` as their seeds. -/
def seeded (rd : ℕ → UInt32) : Engines μ where
  eng1 := P.seed (rd 0).toUInt64
  eng2 := P.seed (rd 1).toUInt64
  eng3 := P.seed (rd 2).toUInt64
  eng4 := P.seed (rd 3).toUInt64

/-- The next number of the engine whose turn it is, and whose turn it is next. -/
def draw (e : Engines μ) : Fin 4 → UInt64 × Fin 4 × Engines μ
  | 0 => ((P.next e.eng1).1, 1, { e with eng1 := (P.next e.eng1).2 })
  | 1 => ((P.next e.eng2).1, 2, { e with eng2 := (P.next e.eng2).2 })
  | 2 => ((P.next e.eng3).1, 3, { e with eng3 := (P.next e.eng3).2 })
  | 3 => ((P.next e.eng4).1, 0, { e with eng4 := (P.next e.eng4).2 })

end Engines

/-- The loop of `genRandomWeakBytes`, with the bytes that are missing. -/
def weakLoop (mtv : Fin 4) (e : Engines μ) (x : ℕ) : List UInt8 :=
  if _hpos : 0 < x then
    let r64 := e.draw P mtv
    (bytesOfUInt64 r64.1).take (min 8 x) ++ weakLoop r64.2.1 r64.2.2 (x - min 8 x)
  else []
termination_by x
decreasing_by omega

/-- `genRandomWeakBytes(bytes, size)`: what is in the buffer. -/
def genRandomWeakBytes (rd : ℕ → UInt32) (size : ℕ) : List UInt8 :=
  weakLoop P 0 (.seeded P rd) size

/-! ## The device -/

/-- `/dev/random`. -/
structure Device where
  /-- Does `fopen` give a file? -/
  opens : Bool
  /-- The bytes of the device, in order. -/
  stream : ℕ → UInt8
  /-- How many bytes a call of `fread` transfers, by its number, when so many are requested. -/
  transfers : ℕ → ℕ → ℕ
  transfers_le : ∀ k n, transfers k n ≤ n

/-- Every `fread` transfers its full request. -/
def Device.Delivers (d : Device) : Prop := ∀ k n, d.transfers k n = n

/-- The buffer and the file, between two calls of `fread`. -/
structure Filling where
  bytes : List UInt8
  /-- How many bytes of the device were transferred. -/
  position : ℕ := 0
  calls : ℕ := 0

/-- `fread(bytes + offset, size, 1, fp)`: how many of the one item of `size` bytes were read, and
the buffer. -/
def fread (d : Device) (offset size : ℕ) (f : Filling) : ℕ × Filling :=
  let n := d.transfers f.calls size
  (if size ≠ 0 ∧ n = size then 1 else 0,
    { bytes := f.bytes.take offset ++ (List.range n).map (fun i => d.stream (f.position + i))
        ++ f.bytes.drop (offset + n)
      position := f.position + n
      calls := f.calls + 1 })

/-- What is in the buffer at the end; was it filled by `genRandomWeakBytes`, and how many bytes of
the device were used up? -/
structure Filled where
  bytes : List UInt8
  weak : Bool
  position : ℕ

/-- The loop of `genRandomBytes`. -/
def readDevice (rd : ℕ → UInt32) (d : Device) (size szRead : ℕ) (f : Filling) : Filled :=
  if _hlt : szRead < size then
    let curRead := fread d szRead (size - szRead) f
    if _hfull : curRead.1 = size - szRead then
      readDevice rd d size (szRead + curRead.1) curRead.2
    else ⟨genRandomWeakBytes P rd size, true, curRead.2.position⟩
  else ⟨f.bytes, false, f.position⟩
termination_by size - szRead
decreasing_by
  change (fread d szRead (size - szRead) f).1 = size - szRead at _hfull
  omega

/-- `genRandomBytes(bytes, size)`, for a buffer of `size` bytes. -/
def genRandomBytes (rd : ℕ → UInt32) (d : Device) (bytes : List UInt8) : Filled :=
  if d.opens then readDevice P rd d bytes.length 0 ⟨bytes, 0, 0⟩
  else ⟨genRandomWeakBytes P rd bytes.length, true, 0⟩

/-! ## What is kept -/

variable (rd : ℕ → UInt32) (d : Device)

/-- The count of items is one at most. -/
theorem fread_le_one (offset size : ℕ) (f : Filling) : (fread d offset size f).1 ≤ 1 := by
  show (if _ then 1 else 0) ≤ 1
  split_ifs
  · exact le_rfl
  · exact Nat.zero_le 1

variable {d} in
theorem fread_one (h : d.Delivers) (f : Filling) (hlen : f.bytes.length = 1) :
    fread d 0 1 f = (1, ⟨[d.stream f.position], f.position + 1, f.calls + 1⟩) := by
  have hfull : d.transfers f.calls 1 = 1 := h f.calls 1
  unfold fread
  dsimp only
  rw [hfull, List.take_zero, List.drop_eq_nil_of_le (by omega)]
  rfl

/-- A read of more than one byte counts as incomplete. -/
theorem readDevice_weak {size szRead : ℕ} (h : szRead + 2 ≤ size) (f : Filling) :
    readDevice P rd d size szRead f = ⟨genRandomWeakBytes P rd size, true,
      f.position + d.transfers f.calls (size - szRead)⟩ := by
  have hle := fread_le_one d szRead (size - szRead) f
  rw [readDevice, dif_pos (by omega), dif_neg (by omega)]
  rfl

/-- **A request of two bytes or more is always met by the weak generators.** -/
theorem genRandomBytes_weak (bytes : List UInt8) (h : 2 ≤ bytes.length) :
    (genRandomBytes P rd d bytes).bytes = genRandomWeakBytes P rd bytes.length ∧
      (genRandomBytes P rd d bytes).weak = true := by
  unfold genRandomBytes
  split_ifs
  · rw [readDevice_weak P rd d (by omega)]
    exact ⟨rfl, rfl⟩
  · exact ⟨rfl, rfl⟩

variable {d} in
theorem genRandomBytes_one (hopens : d.opens = true) (h : d.Delivers) {bytes : List UInt8}
    (hlen : bytes.length = 1) :
    genRandomBytes P rd d bytes = ⟨[d.stream 0], false, 1⟩ := by
  have hnext : fread d 0 1 ⟨bytes, 0, 0⟩ = (1, ⟨[d.stream 0], 1, 1⟩) := fread_one h _ hlen
  rw [genRandomBytes, if_pos hopens, hlen, readDevice, dif_pos Nat.one_pos, dif_pos (by rw [hnext]),
    hnext, readDevice]
  exact dif_neg (lt_irrefl 1)

/-- The buffer has the bytes of the device, the device has lost no others, and the weak generators
were not called. -/
def Strong (bytes : List UInt8) : Prop :=
  (genRandomBytes P rd d bytes).bytes = (List.range bytes.length).map d.stream ∧
    (genRandomBytes P rd d bytes).position = bytes.length ∧
      (genRandomBytes P rd d bytes).weak = false

/-- **Strong randomness.**  The bytes of a device that opens and delivers everything are kept
exactly if one byte was asked for. -/
theorem strong_iff (hopens : d.opens = true) (hfull : d.Delivers)
    (bytes : List UInt8) (hsize : 1 ≤ bytes.length) :
    Strong P rd d bytes ↔ bytes.length = 1 := by
  constructor
  · rintro ⟨-, -, hstrong⟩
    by_contra hne
    -- The one item that is counted is not the number of bytes.
    have hweak := (genRandomBytes_weak P rd d bytes (by omega)).2
    rw [hstrong] at hweak
    exact Bool.false_ne_true hweak
  · intro hone
    unfold Strong
    rw [genRandomBytes_one P rd hopens hfull hone, hone]
    exact ⟨rfl, rfl, rfl⟩

/-- A device of zeros that delivers everything. -/
def sampleDevice : Device where
  opens := true
  stream := fun _ => 0
  transfers := fun _ n => n
  transfers_le := fun _ _ => le_rfl

/-- One byte is strong. -/
theorem strong_byte : Strong samplePrimitives (fun _ => 1) sampleDevice [0] :=
  (strong_iff samplePrimitives (fun _ => 1) sampleDevice rfl (fun _ _ => rfl) [0] le_rfl).mpr rfl

/-- An IV of 16 bytes is not. -/
theorem not_strong_iv :
    ¬ Strong samplePrimitives (fun _ => 1) sampleDevice (List.replicate 16 0) := by
  rintro ⟨-, -, hstrong⟩
  have hweak := (genRandomBytes_weak samplePrimitives (fun _ => 1) sampleDevice
    (List.replicate 16 0) (by decide)).2
  rw [hstrong] at hweak
  exact Bool.false_ne_true hweak

end SocketChainAes
end Mantids
