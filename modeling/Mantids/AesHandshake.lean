/-
# What a handshake puts on the transport

`Socket_Chain_AES::postAcceptSubInitialization` sends an IV, makes a block of it, combines the
header with the block and sends it.  The model here has what `SocketChainAes` leaves out: the calls
may fail, the transport takes what it likes of the handshake too, and a block may be left from a
handshake that was broken off.

* `Evp`, `Heap` — AES-GCM as a keystream, and the memory: parameters;
* `appendNewAESBlock`, `transmission` — the functions of the source;
* `transmission_eq_transmit` — where nothing fails that need not, this is the model of
  `SocketChainAes`;
* `hidden_iff` — when the header is hidden.
-/
import Mantids.SocketChainAes
import Mantids.SocketTransport

namespace Mantids

namespace SocketChainAes

open Keystream SocketStream

/-! ## The model -/

/-- `EVP_aes_256_gcm`, with a keystream for a key and an IV. -/
structure Evp where
  keystream : List UInt8 → List UInt8 → ℕ → UInt8
  /-- Do the calls for a text of this length succeed? -/
  succeeds : List UInt8 → List UInt8 → ℤ → Bool
  /-- A negative length is more than the 2^36 bytes that this mode has. -/
  nonneg_of_succeeds : ∀ key iv inl, succeeds key iv inl = true → 0 ≤ inl

/-- The memory. -/
structure Heap where
  /-- Is there memory for so many bytes?  If not, `new` throws. -/
  gives : ℕ → Bool
  lt_of_gives : ∀ n, gives n = true → n < 2 ^ 63
  /-- What is in memory that nothing was written to. -/
  garbage : ℕ → UInt8

variable {μ : Type*} (E : Evp) (H : Heap) (aesRegenBlockSize : ℕ)

/-- `cipherText` behind `EVP_EncryptUpdate`, as far as it is appended. -/
def cipherText (key iv : List UInt8) : List UInt8 :=
  mask xorByte (E.keystream key iv)
    ((genPlainText aesRegenBlockSize).take (inl aesRegenBlockSize).toNat)
    ++ (List.range (aesRegenBlockSize - (inl aesRegenBlockSize).toNat)).map
      (fun i => H.garbage ((inl aesRegenBlockSize).toNat + i))

/-- `appendNewAESBlock`: the block behind it; `none` if it returns false or `new` throws. -/
def appendNewAESBlock (aesBlock key iv : List UInt8) : Option (List UInt8) :=
  -- The memory for the cipher text, for the plain text, and for the longer block.
  if H.gives (aesRegenBlockSize * 2 % 2 ^ 64) && H.gives aesRegenBlockSize
      && E.succeeds key iv (inl aesRegenBlockSize)
      && H.gives (aesRegenBlockSize + aesBlock.length) then
    some (aesBlock ++ cipherText E H aesRegenBlockSize key iv)
  else none

/-- What the sending half of a handshake leads to. -/
structure Transmission (μ : Type*) where
  /-- Does the handshake go on to its receiving half? -/
  goesOn : Bool
  /-- The bytes of the header that are on the transport. -/
  header : List UInt8
  sender : Sender
  writeParams : SideParams μ

/-- The sending half of `postAcceptSubInitialization`, at an end that is not initialized. -/
def transmission (phase1Key : List UInt8) (r : RandomBytes) (p : SideParams μ) (s : Sender) :
    Transmission μ :=
  let iv := s.writeFull r.handShakeIV
  if iv.1 = false then ⟨false, [], iv.2, p⟩
  else
    match appendNewAESBlock E H aesRegenBlockSize p.aesBlock phase1Key r.handShakeIV with
    | none => ⟨false, [], iv.2, p⟩
    | some block =>
      -- The other fields of the header are as its constructor has set them.
      let vFirstLoad := { p with aesBlock := block, handshake := r.header }.cryptoXOR
        r.header.toBytes false
      let w := iv.2.writeFull vFirstLoad.1
      ⟨w.1, w.2.sent.drop iv.2.sent.length, w.2,
        if w.1 then { vFirstLoad.2 with aesBlock := [] } else vFirstLoad.2⟩

/-- The stream that the header is combined with. -/
def blockStream (key iv : List UInt8) (i : ℕ) : UInt8 :=
  xorByte (UInt8.ofNat (i * 487 % 256)) (E.keystream key iv i)

/-- There is no memory for the block, or its size is a negative `int`. -/
def Impossible (aesBlock : List UInt8) : Prop :=
  2 ^ 63 ≤ aesRegenBlockSize * 2 ∨ 2 ^ 63 ≤ aesRegenBlockSize + aesBlock.length ∨
    inl aesRegenBlockSize < 0

/-- Every byte of the header that is on the transport is the byte of the header combined with the
stream of the phase 1 key and the IV. -/
def Hidden (phase1Key : List UInt8) (r : RandomBytes) (t : Transmission μ) : Prop :=
  t.header <+: mask xorByte (blockStream E phase1Key r.handShakeIV) r.header.toBytes

/-! ## The block -/

variable {E H aesRegenBlockSize}

theorem length_cipherText (key iv : List UInt8) :
    (cipherText E H aesRegenBlockSize key iv).length = aesRegenBlockSize := by
  have hle := inl_le aesRegenBlockSize
  rw [cipherText, List.length_append, length_mask, List.length_take, List.length_map,
    List.length_range, length_genPlainText]
  omega

/-- The beginning of the block is the stream. -/
theorem getElem?_cipherText_of_lt (key iv : List UInt8) {i : ℕ}
    (h : i < (inl aesRegenBlockSize).toNat) :
    (cipherText E H aesRegenBlockSize key iv)[i]? = some (blockStream E key iv i) := by
  have hle := inl_le aesRegenBlockSize
  rw [cipherText, List.getElem?_append_left (by
    rw [length_mask, List.length_take, length_genPlainText]; omega)]
  rw [mask, List.getElem?_mapIdx, List.getElem?_take_of_lt h, genPlainText, List.getElem?_map,
    List.getElem?_range (by omega)]
  rfl

/-- What `EVP_EncryptUpdate` has not written is garbage. -/
theorem getElem?_cipherText_of_ge (key iv : List UInt8) {i : ℕ}
    (h : (inl aesRegenBlockSize).toNat ≤ i) (hi : i < aesRegenBlockSize) :
    (cipherText E H aesRegenBlockSize key iv)[i]? = some (H.garbage i) := by
  have hlen : (mask xorByte (E.keystream key iv)
      ((genPlainText aesRegenBlockSize).take (inl aesRegenBlockSize).toNat)).length
        = (inl aesRegenBlockSize).toNat := by
    rw [length_mask, List.length_take, length_genPlainText]
    omega
  rw [cipherText, List.getElem?_append_right (by omega), hlen, List.getElem?_map,
    List.getElem?_range (by omega), Option.map_some, Nat.add_sub_cancel' h]

/-- Data that is not longer than what was encrypted is combined with the stream. -/
theorem zipWith_cipherText (key iv : List UInt8) {data : List UInt8}
    (h : data.length ≤ (inl aesRegenBlockSize).toNat) :
    List.zipWith xorByte data (cipherText E H aesRegenBlockSize key iv)
      = mask xorByte (blockStream E key iv) data := by
  apply List.ext_getElem?
  intro i
  rw [List.getElem?_zipWith, mask, List.getElem?_mapIdx]
  by_cases hi : i < data.length
  · rw [getElem?_cipherText_of_lt key iv (by omega), List.getElem?_eq_getElem hi]
    rfl
  · rw [List.getElem?_eq_none (by omega)]
    rfl

theorem appendNewAESBlock_eq_some {aesBlock key iv block : List UInt8}
    (h : appendNewAESBlock E H aesRegenBlockSize aesBlock key iv = some block) :
    block = aesBlock ++ cipherText E H aesRegenBlockSize key iv ∧
      ¬ Impossible aesRegenBlockSize aesBlock := by
  unfold appendNewAESBlock at h
  split_ifs at h with hgo
  simp only [Bool.and_eq_true] at hgo
  obtain ⟨⟨⟨hcipher, hplain⟩, hsucceeds⟩, hgives⟩ := hgo
  have hplain := H.lt_of_gives _ hplain
  have hcipher := H.lt_of_gives _ hcipher
  have hgives := H.lt_of_gives _ hgives
  have hinl := E.nonneg_of_succeeds _ _ _ hsucceeds
  refine ⟨(Option.some.inj h).symm, ?_⟩
  rintro (hsize | hsum | hneg)
  · rw [Nat.mod_eq_of_lt (by omega)] at hcipher
    omega
  · omega
  · omega

/-! ## The transport -/

theorem cryptoXOR_fst (p : SideParams μ) (data : List UInt8) (dontreduce : Bool) :
    (p.cryptoXOR data dontreduce).1 =
      if p.aesBlock.length < data.length then data else List.zipWith xorByte data p.aesBlock := by
  unfold SideParams.cryptoXOR
  split
  · rfl
  · rfl

/-- A call takes a beginning of the data. -/
theorem partialWrite_sent (data : List UInt8) (s : Sender) :
    (s.partialWrite data).1 ≤ data.length ∧
      (s.partialWrite data).2.sent = s.sent ++ data.take (s.partialWrite data).1.toNat := by
  unfold Sender.partialWrite
  split_ifs
  · exact ⟨by omega, (List.append_nil _).symm⟩
  · exact ⟨by omega, (List.append_nil _).symm⟩
  · exact ⟨s.accepts_le _ _, rfl⟩

/-- Whatever the transport does, a beginning of the data is sent. -/
theorem writeLoop_sent (data : List UInt8) (s : Sender) :
    ∃ m, (Sender.writeLoop data s).2.sent = s.sent ++ data.take m := by
  induction data, s using Sender.writeLoop.induct with
  | case1 s =>
    rw [Sender.writeLoop, dif_pos rfl]
    exact ⟨0, (List.append_nil _).symm⟩
  | case2 data s hnil sentBytes hsent =>
    rw [Sender.writeLoop, dif_neg hnil, dif_pos hsent]
    refine ⟨0, (partialWrite_sent (data.take 4096) s).2.trans ?_⟩
    rw [show (s.partialWrite (data.take 4096)).1.toNat = 0 from Int.toNat_of_nonpos hsent]
    rfl
  | case3 data s hnil sentBytes hsent ih =>
    obtain ⟨hle, hpiece⟩ : sentBytes.1 ≤ (data.take 4096).length ∧
        sentBytes.2.sent = s.sent ++ (data.take 4096).take sentBytes.1.toNat :=
      partialWrite_sent (data.take 4096) s
    obtain ⟨m, hm⟩ := ih
    rw [List.length_take] at hle
    rw [List.take_take, min_eq_left (by omega)] at hpiece
    rw [Sender.writeLoop, dif_neg hnil, dif_neg hsent]
    refine ⟨sentBytes.1.toNat + m, hm.trans ?_⟩
    rw [hpiece, List.append_assoc, ← List.take_add]

theorem writeFull_sent (data : List UInt8) (s : Sender) :
    ∃ m, (s.writeFull data).2.sent = s.sent ++ data.take m := by
  unfold Sender.writeFull
  split_ifs
  · exact ⟨0, (List.append_nil _).symm⟩
  · exact writeLoop_sent data s

/-- What is on the transport of the header is a beginning of the data that was made of it. -/
theorem header_transmission {phase1Key : List UInt8} {r : RandomBytes} {p : SideParams μ}
    {s : Sender} :
    (transmission E H aesRegenBlockSize phase1Key r p s).header = [] ∨
      ∃ block, appendNewAESBlock E H aesRegenBlockSize p.aesBlock phase1Key r.handShakeIV
          = some block ∧
        (transmission E H aesRegenBlockSize phase1Key r p s).header <+:
          ({ p with aesBlock := block, handshake := r.header }.cryptoXOR
            r.header.toBytes false).1 := by
  unfold transmission
  dsimp only
  split_ifs with hiv
  · exact .inl rfl
  · cases hblock : appendNewAESBlock E H aesRegenBlockSize p.aesBlock phase1Key r.handShakeIV with
    | none => exact .inl rfl
    | some block =>
      refine .inr ⟨block, rfl, ?_⟩
      dsimp only
      obtain ⟨m, hm⟩ := writeFull_sent
        ({ p with aesBlock := block, handshake := r.header }.cryptoXOR r.header.toBytes false).1
        (s.writeFull r.handShakeIV).2
      rw [hm, List.drop_left]
      exact List.take_prefix m _

/-! ## Handshakes that are hidden -/

/-- A block that is new and long enough hides the header. -/
theorem hidden_of_le {phase1Key : List UInt8} {r : RandomBytes} {p : SideParams μ} {s : Sender}
    (hp : p.aesBlock = []) (hsize : 112 ≤ inl aesRegenBlockSize) :
    Hidden E phase1Key r (transmission E H aesRegenBlockSize phase1Key r p s) := by
  unfold Hidden
  rcases header_transmission (E := E) (H := H) (p := p) (s := s)
    with hnil | ⟨block, happend, hheader⟩
  · rw [hnil]
    exact List.nil_prefix
  · have hblock := (appendNewAESBlock_eq_some happend).1
    rw [hp, List.nil_append] at hblock
    have hlen : r.header.toBytes.length ≤ (inl aesRegenBlockSize).toNat := by
      rw [r.length_header]
      omega
    have hle := inl_le aesRegenBlockSize
    have hxor := @SideParams.cryptoXOR_of_le μ
      { p with aesBlock := block, handshake := r.header } r.header.toBytes
      (by rw [hblock, length_cipherText]; omega) false
    rw [hxor] at hheader
    rw [← zipWith_cipherText phase1Key r.handShakeIV hlen, ← hblock]
    exact hheader

/-- Where no block can be made nothing of the header is sent. -/
theorem hidden_of_impossible {phase1Key : List UInt8} {r : RandomBytes} {p : SideParams μ}
    {s : Sender}
    (hnone : Impossible aesRegenBlockSize p.aesBlock) :
    Hidden E phase1Key r (transmission E H aesRegenBlockSize phase1Key r p s) := by
  unfold Hidden
  rcases header_transmission (E := E) (H := H) (p := p) (s := s) with hnil | ⟨block, happend, -⟩
  · rw [hnil]
    exact List.nil_prefix
  · exact absurd hnone (appendNewAESBlock_eq_some happend).2

/-! ## Handshakes that are not -/

/-- A cipher whose blocks have the same byte all over. -/
def constantEvp (c : UInt8) : Evp where
  keystream _ _ i := xorByte (UInt8.ofNat (i * 487 % 256)) c
  succeeds _ _ inl := decide (0 ≤ inl)
  nonneg_of_succeeds _ _ _ h := of_decide_eq_true h

/-- All the memory that there can be, with the same byte all over. -/
def constantHeap (g : UInt8) : Heap where
  gives n := decide (n < 2 ^ 63)
  lt_of_gives _ h := of_decide_eq_true h
  garbage _ := g

/-- A transport that takes everything. -/
def wideSender : Sender where
  accepts _ n := n
  accepts_le _ _ := le_rfl

theorem accepting_wideSender : wideSender.Accepting :=
  ⟨rfl, fun _ _ hpos => Int.natCast_pos.mpr hpos⟩

theorem xorByte_left (a b : UInt8) : xorByte a (xorByte a b) = b := by
  rw [xorByte, xorByte, ← UInt8.xor_assoc, UInt8.xor_self, UInt8.zero_xor]

theorem blockStream_constantEvp (c : UInt8) (key iv : List UInt8) (i : ℕ) :
    blockStream (constantEvp c) key iv i = c :=
  xorByte_left _ c

theorem appendNewAESBlock_constant {c g : UInt8} {aesBlock : List UInt8} (key iv : List UInt8)
    (h : ¬ Impossible aesRegenBlockSize aesBlock) :
    appendNewAESBlock (constantEvp c) (constantHeap g) aesRegenBlockSize aesBlock key iv =
      some (aesBlock ++ cipherText (constantEvp c) (constantHeap g) aesRegenBlockSize key iv) := by
  unfold Impossible at h
  push Not at h
  obtain ⟨hdouble, hsum, hinl⟩ := h
  unfold appendNewAESBlock
  rw [if_pos]
  simp only [constantEvp, constantHeap, Bool.and_eq_true, decide_eq_true_eq]
  omega

/-- Over a transport that takes some bytes of every piece, all of the header is sent. -/
theorem transmission_accepting {phase1Key : List UInt8} {r : RandomBytes} {p : SideParams μ}
    {s : Sender} (hs : s.Accepting) {block : List UInt8}
    (h : appendNewAESBlock E H aesRegenBlockSize p.aesBlock phase1Key r.handShakeIV = some block) :
    let data :=
      ({ p with aesBlock := block, handshake := r.header }.cryptoXOR r.header.toBytes false).1
    (transmission E H aesRegenBlockSize phase1Key r p s).header = data ∧
      (transmission E H aesRegenBlockSize phase1Key r p s).sender.sent =
        s.sent ++ (r.handShakeIV ++ data) := by
  intro data
  obtain ⟨hok, hiv⟩ := Sender.writeFull_accepting hs r.handShakeIV
    (by rw [r.length_handShakeIV]; decide)
  have hlen : data.length ≤ 112 := by
    show (SideParams.cryptoXOR _ _ _).1.length ≤ 112
    rw [cryptoXOR_fst]
    split_ifs
    · exact r.length_header.le
    · rw [List.length_zipWith, r.length_header]
      exact Nat.min_le_left _ _
  obtain ⟨-, hheader⟩ := Sender.writeFull_accepting hiv.2 data (by omega)
  unfold transmission
  dsimp only
  rw [if_neg (by rw [hok]; decide), h]
  refine ⟨?_, ?_⟩
  · show ((s.writeFull r.handShakeIV).2.writeFull data).2.sent.drop _ = data
    rw [hheader.1, List.drop_left]
  · show ((s.writeFull r.handShakeIV).2.writeFull data).2.sent = _
    rw [hheader.1, hiv.1, List.append_assoc]

/-- If such a handshake is hidden, the block has the byte of the cipher at all places of the
header. -/
theorem block_of_hidden {c g : UInt8} (hc : c ≠ 0) {phase1Key : List UInt8} {r : RandomBytes}
    {p : SideParams μ} (hmade : ¬ Impossible aesRegenBlockSize p.aesBlock)
    (h : Hidden (constantEvp c) phase1Key r
      (transmission (constantEvp c) (constantHeap g) aesRegenBlockSize phase1Key r p wideSender))
    {i : ℕ} (hi : i < 112) :
    (p.aesBlock ++ cipherText (constantEvp c) (constantHeap g) aesRegenBlockSize phase1Key
      r.handShakeIV)[i]? = some c := by
  have happend := appendNewAESBlock_constant (c := c) (g := g) phase1Key r.handShakeIV hmade
  set block := p.aesBlock ++ cipherText (constantEvp c) (constantHeap g) aesRegenBlockSize phase1Key
    r.handShakeIV with hblock
  unfold Hidden at h
  rw [(transmission_accepting accepting_wideSender happend).1] at h
  have hheader : i < r.header.toBytes.length := by
    rw [r.length_header]
    exact hi
  have hstream : (mask xorByte (blockStream (constantEvp c) phase1Key r.handShakeIV)
      r.header.toBytes)[i]? = some (xorByte (r.header.toBytes[i]) c) := by
    rw [mask, List.getElem?_mapIdx, List.getElem?_eq_getElem hheader, Option.map_some,
      blockStream_constantEvp]
  rw [cryptoXOR_fst] at h
  dsimp only at h
  have hcancel : ∀ b, some (xorByte r.header.toBytes[i] b)
      = some (xorByte r.header.toBytes[i] c) → b = c := by
    intro b heq
    have hboth := congrArg (xorByte r.header.toBytes[i]) (Option.some.inj heq)
    rwa [xorByte_left, xorByte_left] at hboth
  split_ifs at h with hshort
  · -- The header is in clear, which is the same as combined with zeros.
    have hclear := (List.prefix_iff_getElem?.mp h) i hheader
    have hzero : some (xorByte r.header.toBytes[i] 0) = some r.header.toBytes[i] :=
      congrArg some UInt8.xor_zero
    rw [hstream, ← hzero] at hclear
    exact absurd (hcancel 0 hclear.symm).symm hc
  · have hlong : i < block.length := by omega
    have hbyte : i < (List.zipWith xorByte r.header.toBytes block).length := by
      rw [List.length_zipWith]
      omega
    have hcoded := (List.prefix_iff_getElem?.mp h) i hbyte
    rw [hstream, List.getElem_zipWith] at hcoded
    rw [List.getElem?_eq_getElem hlong, hcancel _ hcoded.symm]

/-- **What a handshake exposes.**  Whatever the cipher, the memory, the random bytes and the
transport do, the header is hidden exactly if there can be no block at all, or nothing is left of an
older block and the size is at least 112 as an `int`. -/
theorem hidden_iff (aesRegenBlockSize : ℕ) (phase1Key : List UInt8) (p : SideParams μ) :
    (∀ E H r s, Hidden E phase1Key r (transmission E H aesRegenBlockSize phase1Key r p s)) ↔
      Impossible aesRegenBlockSize p.aesBlock ∨
        (p.aesBlock = [] ∧ 112 ≤ inl aesRegenBlockSize) := by
  constructor
  · intro h
    by_contra hnot
    push Not at hnot
    obtain ⟨hmade, hshort⟩ := hnot
    have hblock := fun (c g : UInt8) (hc : c ≠ 0) (i : ℕ) (hi : i < 112) =>
      @block_of_hidden μ aesRegenBlockSize c g hc phase1Key (sampleBytes 0) p hmade
        (h (constantEvp c) (constantHeap g) _ wideSender) i hi
    cases hleft : p.aesBlock with
    | cons b left =>
      -- A cipher that does not have the first byte of the older block.
      obtain ⟨c, hc, hother⟩ : ∃ c : UInt8, c ≠ 0 ∧ b ≠ c := by
        by_cases hb : b = 1
        · exact ⟨2, by decide, by rw [hb]; decide⟩
        · exact ⟨1, by decide, hb⟩
      have hfirst := hblock c 0 hc 0 (by decide)
      rw [hleft] at hfirst
      exact hother (Option.some.inj hfirst)
    | nil =>
      have hinl := hshort hleft
      have hnonneg : ¬ inl aesRegenBlockSize < 0 := fun hneg => hmade (.inr (.inr hneg))
      set k := (inl aesRegenBlockSize).toNat with hk
      have hgarbage := hblock 1 0 (by decide) k (by omega)
      rw [hleft, List.nil_append] at hgarbage
      by_cases hlt : k < aesRegenBlockSize
      · -- The first byte that was not written.
        rw [getElem?_cipherText_of_ge _ _ le_rfl hlt] at hgarbage
        exact absurd (Option.some.inj hgarbage) (show ¬ (0 : UInt8) = 1 by decide)
      · rw [List.getElem?_eq_none (by rw [length_cipherText]; omega)] at hgarbage
        cases hgarbage
  · rintro (hnone | ⟨hp, hsize⟩) E H r s
    · exact hidden_of_impossible hnone
    · exact hidden_of_le hp hsize

/-- With a size of 64 the header, with the session key in it, is not combined with anything. -/
theorem not_hidden :
    ¬ Hidden (constantEvp 1) (List.replicate 32 7) (sampleBytes 3)
      (transmission (constantEvp 1) (constantHeap 0) 64 (List.replicate 32 7) (sampleBytes 3)
        ({ mt19937IV := ((), ()) } : SideParams Unit) wideSender) := by
  intro h
  have hmade : ¬ Impossible 64 ([] : List UInt8) := by
    rintro (hdouble | hsum | hneg)
    · exact absurd hdouble (by decide)
    · exact absurd hsum (by decide)
    · exact absurd hneg (by decide)
  have hblock := block_of_hidden (by decide) hmade h (show 64 < 112 by decide)
  rw [List.nil_append, List.getElem?_eq_none (by rw [length_cipherText])] at hblock
  cases hblock

/-! ## The model without failures -/

/-- The cipher as one of the primitives of a chain. -/
def Evp.primitives (E : Evp) (seed : UInt64 → μ) (next : μ → UInt64 × μ) : Primitives μ where
  aes256gcm key iv text := mask xorByte (E.keystream key iv) text
  length_aes256gcm _ _ text := length_mask text
  seed := seed
  next := next

/-- The settings of an end with this memory. -/
def Heap.settings (H : Heap) (aesRegenBlockSize : ℕ) : Settings where
  aesRegenBlockSize := aesRegenBlockSize
  garbage _ := H.garbage

theorem cipherText_settings (seed : UInt64 → μ) (next : μ → UInt64 × μ) (key iv : List UInt8) :
    (H.settings aesRegenBlockSize).cipherText (E.primitives seed next) key iv =
      cipherText E H aesRegenBlockSize key iv := by
  simp only [Settings.cipherText, cipherText, Heap.settings, Evp.primitives]

/-- Where nothing fails that need not, a block can be made or not as in `SocketChainAes`. -/
theorem appendNewAESBlock_eq (hgives : ∀ n, H.gives n = decide (n < 2 ^ 63)) {key iv : List UInt8}
    (hsucceeds : E.succeeds key iv (inl aesRegenBlockSize) = decide (0 ≤ inl aesRegenBlockSize)) :
    appendNewAESBlock E H aesRegenBlockSize [] key iv =
      if MakesBlocks aesRegenBlockSize then some (cipherText E H aesRegenBlockSize key iv)
      else none := by
  unfold appendNewAESBlock
  rw [hgives, hgives, hgives, hsucceeds, List.length_nil, List.nil_append]
  by_cases hmakes : MakesBlocks aesRegenBlockSize
  · have hdouble := hmakes.1
    have hinl := hmakes.2
    rw [if_pos hmakes, if_pos]
    simp only [Bool.and_eq_true, decide_eq_true_eq]
    omega
  · rw [if_neg hmakes, if_neg]
    intro hgo
    simp only [Bool.and_eq_true, decide_eq_true_eq] at hgo
    exact hmakes ⟨by omega, hgo.1.2⟩

/-- Where nothing fails that need not, the bytes on the transport are those of
`ChainSocket.transmit`. -/
theorem transmission_eq_transmit (hgives : ∀ n, H.gives n = decide (n < 2 ^ 63))
    {phase1Key : List UInt8} {r : RandomBytes}
    (hsucceeds : E.succeeds phase1Key r.handShakeIV (inl aesRegenBlockSize)
      = decide (0 ≤ inl aesRegenBlockSize))
    (seed : UInt64 → μ) (next : μ → UInt64 × μ) {s : Sender} (hs : s.Accepting) :
    let P := E.primitives seed next
    let fresh := ChainSocket.fresh P (H.settings aesRegenBlockSize)
    (transmission E H aesRegenBlockSize phase1Key r fresh.writeParams s).sender.sent =
      s.sent ++ (fresh.transmit P phase1Key r).1 := by
  intro P fresh
  have happend := appendNewAESBlock_eq hgives hsucceeds
  by_cases hmakes : MakesBlocks aesRegenBlockSize
  · rw [if_pos hmakes] at happend
    have hblock : fresh.writeParams.appendNewAESBlock P fresh.settings phase1Key r.handShakeIV =
        some { fresh.writeParams with
          aesBlock := cipherText E H aesRegenBlockSize phase1Key r.handShakeIV } := by
      rw [SideParams.appendNewAESBlock_of_makesBlocks
        (show MakesBlocks fresh.settings.aesRegenBlockSize from hmakes),
        show fresh.writeParams.aesBlock = [] from rfl, List.nil_append]
      rw [show fresh.settings = H.settings aesRegenBlockSize from rfl, cipherText_settings]
    rw [(transmission_accepting (p := fresh.writeParams) hs happend).2, ChainSocket.transmit,
      hblock]
    dsimp only
    rw [cryptoXOR_fst, cryptoXOR_fst]
    rfl
  · rw [if_neg hmakes] at happend
    have hnone : fresh.writeParams.appendNewAESBlock P fresh.settings phase1Key
        r.handShakeIV = none := SideParams.appendNewAESBlock_of_not hmakes _ _ _
    obtain ⟨hok, hsent, -⟩ := Sender.writeFull_accepting hs r.handShakeIV
      (by rw [r.length_handShakeIV]; decide)
    unfold transmission
    dsimp only
    rw [if_neg (by rw [hok]; decide), show fresh.writeParams.aesBlock = [] from rfl, happend,
      ChainSocket.transmit, hnone]
    exact hsent

end SocketChainAes
end Mantids
