/-
# URL encoding

`Encoders::URL` writes a letter or a digit as it is and any other byte as `%XX`;
`Decoders::URL` reads that back from a stream that may be cut anywhere, with the bytes of an
unfinished `%XX` kept between two writes.

* `encode`, `EncoderURL.writeTo` — the encoder;
* `DecoderURL.writeTo`, `transform` — the decoder, which writes what it decodes to a stream;
* `decodeByte` — what one byte does to the kept bytes and to what comes out;
* `transform_encode` — decoding an encoded text gives the text back.
-/
import Mantids.Content

namespace Mantids

open StreamableChunks

/-! ## The encoder -/

/-- `isalnum` in the `C` locale. -/
def isalnum (c : UInt8) : Bool := isalpha c || (48 ≤ c && c ≤ 57)

/-- A byte as `%02X` prints it behind a `%`, or as it is. -/
def encodeByte (c : UInt8) : List UInt8 :=
  if isalnum c then [c] else [37, hexDigit (c.toNat / 16), hexDigit (c.toNat % 16)]

def encode (buf : List UInt8) : List UInt8 := buf.flatMap encodeByte

namespace EncoderURL

/-- `Encoders::URL::writeTo`: what it writes to a destination that takes everything, or `none`
if it marks the destination as failed because the buffer is too large. -/
def writeTo (buf : List UInt8) : Option (List UInt8) :=
  if (2 ^ 64 - 1) / 3 - 3 < buf.length then none else some (encode buf)

/-- `transform` of a container that is read in pieces. -/
def transform : List (List UInt8) → Option (List UInt8)
  | [] => some []
  | d :: ds => (writeTo d).bind (fun e => (transform ds).map (e ++ ·))

end EncoderURL

/-! ## The decoder -/

/-- `hexPairToByte`. -/
def hexPairToByte (a b : UInt8) : UInt8 :=
  if isxdigit a = false ∨ isxdigit b = false then 0
  else UInt8.ofNat (xdigitValue a * 16 + xdigitValue b)

namespace DecoderURL

/-- `getPlainBytesSize` looks for these two. -/
def isPlain (c : UInt8) : Bool := c != 37 && c != 43

/-- A status to which a failure is added; `none` if that throws. -/
def fail (dst : StreamableChunks) : Option StreamableChunks :=
  (dst.writeStatus.add (-1)).map (fun s => { dst with writeStatus := s })

/-- `writeFullStream` of bytes whose failure is added to the status. -/
def writeOrFail (dst : StreamableChunks) (buf : List UInt8) : Option StreamableChunks :=
  match dst.writeFullStream buf with
  | none => none
  | some (dst, true) => some dst
  | some (dst, false) => fail dst

/-- One turn of the loop of `Decoders::URL::writeTo`, with the bytes `m_bytes[0..m_filled)`:
the kept bytes, the destination and what is left to read after it, or `none` if writing
throws. -/
def turn (kept : List UInt8) (dst : StreamableChunks) (x : UInt8) (buf : List UInt8) :
    Option (List UInt8 × StreamableChunks × List UInt8) :=
  match kept with
  | [] =>
    if isPlain x then
      match dst.writeFullStream (x :: buf.takeWhile isPlain) with
      | none => none
      | some (dst, true) => some ([], dst, buf.dropWhile isPlain)
      | some (dst, false) => (fail dst).map (fun dst => ([], dst, x :: buf))
    else if x = 37 then some ([37], dst, buf)
    else (dst.writeFullStream [32]).map (fun r => ([], r.1, buf))
  | [a] =>
    if isxdigit x then some ([a, x], dst, buf)
    else (dst.writeFullStream [a, x]).map (fun r => ([], r.1, buf))
  | a :: b :: _ =>
    if isxdigit x then
      (writeOrFail dst [hexPairToByte b x]).map (fun dst => ([], dst, buf))
    else (dst.writeFullStream [a, b, x]).map (fun r => ([], r.1, buf))

/-- `Decoders::URL::writeTo`.  A turn takes a byte or leaves a failed destination. -/
def writeToLoop : ℕ → List UInt8 → StreamableChunks → List UInt8 →
    Option (List UInt8 × StreamableChunks)
  | _, kept, dst, [] => some (kept, dst)
  | 0, kept, dst, _ => some (kept, dst)
  | fuel + 1, kept, dst, x :: buf =>
    match turn kept dst x buf with
    | none => none
    | some (kept, dst, buf) =>
      if dst.writeStatus.succeed then writeToLoop fuel kept dst buf else some (kept, dst)

def writeTo (kept : List UInt8) (dst : StreamableChunks) (buf : List UInt8) :
    Option (List UInt8 × StreamableChunks) :=
  writeToLoop buf.length kept dst buf

/-- `transform` of a container that is read in pieces.  `StreamableTransformer::write` answers
`std::nullopt` once the destination has failed, which ends the copying; an unfinished `%XX` at
the end is not flushed. -/
def transformFrom : List UInt8 → StreamableChunks → List (List UInt8) → Option StreamableChunks
  | _, dst, [] => some dst
  | kept, dst, d :: ds =>
    match writeTo kept dst d with
    | none => none
    | some (kept, dst) =>
      if dst.writeStatus.succeed then transformFrom kept dst ds else some dst

def transform (pieces : List (List UInt8)) (dst : StreamableChunks) : Option StreamableChunks :=
  transformFrom [] dst pieces

/-! ## What comes out -/

/-- What one byte makes of the kept bytes, and what is written for it. -/
def decodeByte (kept : List UInt8) (x : UInt8) : List UInt8 × List UInt8 :=
  match kept with
  | [] => if isPlain x then ([], [x]) else if x = 37 then ([37], []) else ([], [32])
  | [a] => if isxdigit x then ([a, x], []) else ([], [a, x])
  | a :: b :: _ => if isxdigit x then ([], [hexPairToByte b x]) else ([], [a, b, x])

/-- The same for a stretch of bytes. -/
def decodeFrom : List UInt8 → List UInt8 → List UInt8 × List UInt8
  | kept, [] => (kept, [])
  | kept, x :: s =>
    let r := decodeFrom (decodeByte kept x).1 s
    (r.1, (decodeByte kept x).2 ++ r.2)

theorem decodeFrom_append (kept s t : List UInt8) :
    decodeFrom kept (s ++ t) = ((decodeFrom (decodeFrom kept s).1 t).1,
      (decodeFrom kept s).2 ++ (decodeFrom (decodeFrom kept s).1 t).2) := by
  induction s generalizing kept with
  | nil => rfl
  | cons x s ih =>
      rw [List.cons_append, decodeFrom, decodeFrom, ih]
      simp only [List.append_assoc]

/-- Plain bytes come out as they are. -/
theorem decodeFrom_plain {s : List UInt8} (h : ∀ x ∈ s, isPlain x = true) :
    decodeFrom [] s = ([], s) := by
  induction s with
  | nil => rfl
  | cons x s ih =>
      have hx := h x (List.mem_cons_self ..)
      have hstep : decodeByte [] x = ([], [x]) := by
        simp only [decodeByte, hx, if_true]
      rw [decodeFrom, hstep, ih (fun y hy => h y (List.mem_cons_of_mem _ hy))]
      rfl

section

variable {dst : StreamableChunks}

/-- A turn takes some bytes and writes what they decode to, in at most one chunk. -/
def TakesSome (kept : List UInt8) (dst : StreamableChunks) (x : UInt8) (buf : List UInt8) : Prop :=
  ∃ used dst' buf', turn kept dst x buf = some ((decodeFrom kept used).1, dst', buf') ∧
    x :: buf = used ++ buf' ∧ used ≠ [] ∧ Open dst' ∧
    dst'.bytes = dst.bytes ++ (decodeFrom kept used).2 ∧ dst'.chunks ≤ dst.chunks + 1

/-- A turn on an open destination with a chunk left. -/
theorem turn_open (h : Open dst) (hroom : dst.chunks < 256 * 1024) (kept : List UInt8) (x : UInt8)
    (buf : List UInt8) (hlen : (x :: buf).length ≤ 64 * 1024) : TakesSome kept dst x buf := by
  -- a turn that takes one byte and writes `out` for it
  have hwrite : ∀ out, out ≠ [] → out.length ≤ 3 → decodeByte kept x = ([], out) →
      turn kept dst x buf = (dst.writeFullStream out).map (fun r => ([], r.1, buf)) →
      TakesSome kept dst x buf := by
    intro out hne hthree hbyte hturn
    obtain ⟨dst', hw, hopen, hbytes, hchunks⟩ := h.writeFullStream_room hne (by omega) hroom
    refine ⟨[x], dst', buf, ?_, rfl, List.cons_ne_nil _ _, hopen, ?_, hchunks.le⟩
    · rw [hturn, hw, decodeFrom, hbyte]
      rfl
    · rw [hbytes, decodeFrom, hbyte]
      simp [decodeFrom]
  -- a turn that keeps the byte
  have hkeep : ∀ kept', decodeByte kept x = (kept', []) →
      turn kept dst x buf = some (kept', dst, buf) →
      TakesSome kept dst x buf := by
    intro kept' hbyte hturn
    refine ⟨[x], dst, buf, ?_, rfl, List.cons_ne_nil _ _, h, ?_, Nat.le_succ _⟩
    · rw [hturn, decodeFrom, hbyte]
      rfl
    · rw [decodeFrom, hbyte]
      simp [decodeFrom]
  match kept with
  | [] =>
      by_cases hplain : isPlain x = true
      · have hall : ∀ y ∈ x :: buf.takeWhile isPlain, isPlain y = true := by
          intro y hy
          rcases List.mem_cons.mp hy with rfl | hy
          · exact hplain
          · exact List.mem_takeWhile_imp hy
        have hshort : (x :: buf.takeWhile isPlain).length ≤ 64 * 1024 := by
          have := (List.takeWhile_prefix (l := buf) isPlain).length_le
          simp only [List.length_cons] at hlen ⊢
          omega
        obtain ⟨dst', hw, hopen, hbytes, hchunks⟩ :=
          h.writeFullStream_room (List.cons_ne_nil _ _) hshort hroom
        refine ⟨x :: buf.takeWhile isPlain, dst', buf.dropWhile isPlain, ?_, ?_,
          List.cons_ne_nil _ _, hopen, ?_, hchunks.le⟩
        · simp only [turn, hplain, if_true, hw]
          rw [decodeFrom_plain hall]
        · rw [List.cons_append, List.takeWhile_append_dropWhile]
        · rw [hbytes, decodeFrom_plain hall]
      · by_cases hx : x = 37
        · subst hx
          exact hkeep [37] (by simp [decodeByte, isPlain]) (by simp [turn, isPlain])
        · exact hwrite [32] (by simp) (by simp) (by simp [decodeByte, hplain, hx])
            (by simp [turn, hplain, hx])
  | [a] =>
      by_cases hx : isxdigit x = true
      · exact hkeep [a, x] (by simp [decodeByte, hx]) (by simp [turn, hx])
      · exact hwrite [a, x] (by simp) (by simp) (by simp [decodeByte, hx]) (by simp [turn, hx])
  | a :: b :: rest =>
      by_cases hx : isxdigit x = true
      · refine hwrite [hexPairToByte b x] (by simp) (by simp) (by simp [decodeByte, hx]) ?_
        obtain ⟨dst', hw, -⟩ := h.writeFullStream_room
          (show [hexPairToByte b x] ≠ [] by simp) (by simp) hroom
        simp [turn, hx, writeOrFail, hw]
      · exact hwrite [a, b, x] (by simp) (by simp) (by simp [decodeByte, hx]) (by simp [turn, hx])

/-- The loop on an open destination with a chunk for every byte. -/
theorem writeToLoop_open (fuel : ℕ) (h : Open dst) (kept buf : List UInt8)
    (hfuel : buf.length ≤ fuel) (hlen : buf.length ≤ 64 * 1024)
    (hroom : dst.chunks + buf.length ≤ 256 * 1024) :
    ∃ dst', writeToLoop fuel kept dst buf = some ((decodeFrom kept buf).1, dst') ∧ Open dst' ∧
      dst'.bytes = dst.bytes ++ (decodeFrom kept buf).2 ∧
      dst'.chunks ≤ dst.chunks + buf.length := by
  induction fuel generalizing dst kept buf with
  | zero =>
      obtain rfl : buf = [] := List.length_eq_zero_iff.mp (Nat.le_zero.mp hfuel)
      exact ⟨dst, by simp [writeToLoop, decodeFrom], h, by simp [decodeFrom], by simp⟩
  | succ fuel ih =>
      cases buf with
      | nil => exact ⟨dst, by simp [writeToLoop, decodeFrom], h, by simp [decodeFrom], by simp⟩
      | cons x buf =>
          obtain ⟨used, dst₁, buf', hturn, hsplit, hused, hopen, hbytes, hchunks⟩ :=
            turn_open h (by rw [List.length_cons] at hroom; omega) kept x buf hlen
          have hcount := congrArg List.length hsplit
          have hpos := List.length_pos_iff.mpr hused
          rw [List.length_append] at hcount
          obtain ⟨dst', hloop, hopen', hbytes', hchunks'⟩ :=
            ih hopen (decodeFrom kept used).1 buf' (by omega) (by omega) (by omega)
          refine ⟨dst', ?_, hopen', ?_, by omega⟩
          · simp only [writeToLoop, hturn, hopen.succeed, if_true]
            rw [hloop, hsplit, decodeFrom_append]
          · rw [hbytes', hbytes, List.append_assoc, hsplit, decodeFrom_append]

/-- A container is decoded piece by piece. -/
theorem transformFrom_open (ds : List (List UInt8)) (h : Open dst) (kept : List UInt8)
    (hlen : ds.flatten.length ≤ 64 * 1024) (hroom : dst.chunks + ds.flatten.length ≤ 256 * 1024) :
    ∃ dst', transformFrom kept dst ds = some dst' ∧ Open dst' ∧
      dst'.bytes = dst.bytes ++ (decodeFrom kept ds.flatten).2 := by
  induction ds generalizing dst kept with
  | nil => exact ⟨dst, rfl, h, by simp [decodeFrom]⟩
  | cons d ds ih =>
      rw [List.flatten_cons, List.length_append] at hlen hroom
      obtain ⟨dst₁, hloop, hopen, hbytes, hchunks⟩ :=
        writeToLoop_open d.length h kept d (le_refl _) (by omega) (by omega)
      obtain ⟨dst', hrest, hopen', hbytes'⟩ :=
        ih hopen (decodeFrom kept d).1 (by omega) (by omega)
      refine ⟨dst', ?_, hopen', ?_⟩
      · simp only [transformFrom, writeTo, hloop, hopen.succeed, if_true]
        exact hrest
      · rw [hbytes', hbytes, List.append_assoc, List.flatten_cons, decodeFrom_append]

end

/-- The digits of an encoded byte are read back. -/
theorem decodeFrom_encodeByte (c : UInt8) : decodeFrom [] (encodeByte c) = ([], [c]) := by
  revert c
  decide +kernel

/-- **Decoding.**  An encoded text comes out as it was. -/
theorem decodeFrom_encode (s : List UInt8) : decodeFrom [] (encode s) = ([], s) := by
  induction s with
  | nil => rfl
  | cons c s ih =>
      have hstep : encode (c :: s) = encodeByte c ++ encode s := List.flatMap_cons
      rw [hstep, decodeFrom_append, decodeFrom_encodeByte, ih]
      rfl

theorem transform_encode {ds : List (List UInt8)} {s : List UInt8} (hds : ds.flatten = encode s)
    (hlen : (encode s).length ≤ 64 * 1024) :
    ∃ dst, transform ds {} = some dst ∧ Open dst ∧ dst.bytes = s := by
  obtain ⟨dst, hdst, hopen, hbytes⟩ := transformFrom_open ds open_empty [] (by rw [hds]; exact hlen)
    (by rw [hds, show ({} : StreamableChunks).chunks = 0 from rfl]; omega)
  refine ⟨dst, hdst, hopen, ?_⟩
  rw [hbytes, hds, decodeFrom_encode]
  rfl

end DecoderURL

end Mantids
