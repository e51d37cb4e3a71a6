/-
# Strings through the URL transformers

`decodeURLStr` and `encodeURLStr` (`Protocol_HTTP/streamdecoder_url.cpp`,
`Protocol_HTTP/streamencoder_url.cpp`) take a string through a transformer into a `B_Chunks`, and
return what is in there if its status says both `succeed` and `finish`.  `B_Base::streamTo` does not
send the end of the stream, and a container that runs out of chunks throws, so that no status ever
says `finish`.

* `decodeURLStr`, `encodeURLStr` — the two functions, `none` where they throw;
* `percentDecode` — percent-decoding;
* `Turns` — a transformer that writes once in a turn or not at all, and how often for a text;
* `decoderWrites`, `encoderWrites` — how often the two write for a text;
* `decodeURLStr_eq`, `encodeURLStr_eq` — what they return is what they are given;
* `decodeURLStr_iff` — when that is the decoded text.
-/
import Mantids.HelpersUrl
import Mantids.Spill

namespace Mantids

open StreamableChunks

namespace UrlStrings

/-! ## The two functions -/

/-- The loop of `B_MEM::copyToStreamableObject2`. -/
def copyChunksLoop : ℕ → List UInt8 → List (List UInt8)
  | _, [] => []
  | 0, _ => []
  | fuel + 1, transmitMem =>
    transmitMem.take (64 * 1024) :: copyChunksLoop fuel (transmitMem.drop (64 * 1024))

/-- The pieces in which a `B_MEM` over a string is read; its length is given as 32 bits. -/
def copyChunks (url : List UInt8) : List (List UInt8) :=
  copyChunksLoop url.length (url.take (url.length % 2 ^ 32))

/-- `toStringEx`. -/
def toStringEx (c : BChunks) : List UInt8 :=
  (SpillingChunks.toString ⟨c, none⟩ (2 ^ 64 - 1) 0).getD []

/-- What is returned when the destination is left like this. -/
def returned (url : List UInt8) (dst : StreamableChunks) : List UInt8 :=
  if dst.writeStatus.succeed && dst.writeStatus.finish then toStringEx dst.container else url

/-- `decodeURLStr`; `none` if it throws. -/
def decodeURLStr (url : List UInt8) : Option (List UInt8) :=
  (DecoderURL.transform (copyChunks url) {}).map (returned url)

section

variable {κ : Type}

/-- The loop of a transformer: turns, as long as there is something to read and the destination has
not failed. -/
def writeToLoop (turn : κ → StreamableChunks → UInt8 → List UInt8 →
    Option (κ × StreamableChunks × List UInt8)) :
    ℕ → κ → StreamableChunks → List UInt8 → Option (κ × StreamableChunks)
  | _, kept, dst, [] => some (kept, dst)
  | 0, kept, dst, _ => some (kept, dst)
  | fuel + 1, kept, dst, x :: buf =>
    match turn kept dst x buf with
    | none => none
    | some (kept, dst, buf) =>
      if dst.writeStatus.succeed then writeToLoop turn fuel kept dst buf else some (kept, dst)

/-- `transform` of a container that is read in pieces. -/
def transformFrom (writeTo : κ → StreamableChunks → List UInt8 → Option (κ × StreamableChunks)) :
    κ → StreamableChunks → List (List UInt8) → Option StreamableChunks
  | _, dst, [] => some dst
  | kept, dst, d :: ds =>
    match writeTo kept dst d with
    | none => none
    | some (kept, dst) =>
      if dst.writeStatus.succeed then transformFrom writeTo kept dst ds else some dst

end

/-- One turn of the loop of `Encoders::URL::writeTo`, which keeps nothing. -/
def encodeTurn (_ : Unit) (dst : StreamableChunks) (x : UInt8) (buf : List UInt8) :
    Option (Unit × StreamableChunks × List UInt8) :=
  if isalnum x then
    (dst.writeFullStream (x :: buf.takeWhile isalnum)).map fun r =>
      ((), r.1, if r.2 then buf.dropWhile isalnum else x :: buf)
  else
    (dst.writeFullStream (encodeByte x)).map fun r => ((), r.1, if r.2 then buf else x :: buf)

/-- `Encoders::URL::writeTo`. -/
def encodeWriteTo (_ : Unit) (dst : StreamableChunks) (buf : List UInt8) :
    Option (Unit × StreamableChunks) :=
  if (2 ^ 64 - 1) / 3 - 3 < buf.length then (DecoderURL.fail dst).map ((), ·)
  else writeToLoop encodeTurn buf.length () dst buf

/-- `encodeURLStr`; `none` if it throws. -/
def encodeURLStr (url : List UInt8) : Option (List UInt8) :=
  (transformFrom encodeWriteTo () {} (copyChunks url)).map (returned url)

/-- The loop of the decoder is such a loop. -/
theorem decoder_writeToLoop (fuel : ℕ) (kept : List UInt8) (dst : StreamableChunks)
    (buf : List UInt8) :
    DecoderURL.writeToLoop fuel kept dst buf = writeToLoop DecoderURL.turn fuel kept dst buf := by
  induction fuel generalizing kept dst buf with
  | zero => cases buf <;> rfl
  | succ fuel ih =>
      cases buf with
      | nil => rfl
      | cons x buf =>
          rw [DecoderURL.writeToLoop, writeToLoop]
          rcases DecoderURL.turn kept dst x buf with _ | ⟨kept', dst', rest⟩
          · rfl
          · simp only [ih]

theorem decoder_transformFrom (kept : List UInt8) (dst : StreamableChunks)
    (ds : List (List UInt8)) :
    DecoderURL.transformFrom kept dst ds = transformFrom DecoderURL.writeTo kept dst ds := by
  induction ds generalizing kept dst with
  | nil => rfl
  | cons d ds ih =>
      rw [DecoderURL.transformFrom, transformFrom]
      rcases DecoderURL.writeTo kept dst d with _ | ⟨kept', dst'⟩
      · rfl
      · simp only [ih]

/-! ## Percent-decoding -/

/-- Every escape is its byte, a `+` is a blank, and any other byte is itself. -/
def percentDecode : List UInt8 → List UInt8
  | [] => []
  | c :: a :: b :: s =>
    if c = 37 ∧ isxdigit a ∧ isxdigit b then
      UInt8.ofNat (xdigitValue a * 16 + xdigitValue b) :: percentDecode s
    else (if c = 43 then 32 else c) :: percentDecode (a :: b :: s)
  | c :: s => (if c = 43 then 32 else c) :: percentDecode s

/-! ## Writes into a container -/

variable {dst : StreamableChunks}

/-- A container without chunks left takes nothing, which finishes the status; the next write of the
loop throws. -/
theorem writeFullStream_full (h : Open dst) {buf : List UInt8} (hbuf : buf ≠ [])
    (hlen : buf.length ≤ 64 * 1024) (hfull : dst.chunks = 256 * 1024) :
    dst.writeFullStream buf = none := by
  have hloop := BChunks.append2Loop_full (by rw [h.maxChunks]; exact hfull.ge) hbuf false
    (dst.container.maxChunks + 1) 0
  have happ := BChunks.append_eq_loop (h.stores hbuf hlen) false
  rw [hloop] at happ
  have hfirst := h.write_full hbuf hlen hfull
  have hsecond : StreamableChunks.write
      ⟨dst.container, { dst.writeStatus with succeed := true, finish := true }⟩ buf = none := by
    unfold StreamableChunks.write
    rw [happ]
    simp [WriteStatus.add]
  rw [writeFullStream, writeFullStreamLoop, if_neg hbuf, hfirst]
  simp only [Option.getD_some, List.drop_zero]
  rw [if_neg (by simp), writeFullStreamLoop, if_neg hbuf, hsecond]

/-- So many writes to a destination either fit, or one of them throws. -/
def Fills {κ : Type} (dst : StreamableChunks) (n : ℕ) (kept : κ)
    (r : Option (κ × StreamableChunks)) : Prop :=
  if dst.chunks + n ≤ 256 * 1024 then
    ∃ dst', r = some (kept, dst') ∧ Open dst' ∧ dst'.chunks = dst.chunks + n
  else r = none

theorem Fills.cases {κ : Type} {n : ℕ} {kept : κ} {r : Option (κ × StreamableChunks)}
    (h : Fills dst n kept r) :
    (∃ dst', r = some (kept, dst') ∧ Open dst' ∧ dst'.chunks = dst.chunks + n) ∨
      256 * 1024 < dst.chunks + n ∧ r = none := by
  unfold Fills at h
  split at h
  · exact Or.inl h
  · rename_i hroom
    exact Or.inr ⟨Nat.lt_of_not_le hroom, h⟩

/-- More writes follow. -/
theorem Fills.after {κ : Type} {dst' : StreamableChunks} {n m : ℕ} {kept : κ}
    {r : Option (κ × StreamableChunks)} (hchunks : dst'.chunks = dst.chunks + n)
    (h : Fills dst' m kept r) : Fills dst (n + m) kept r := by
  unfold Fills at h ⊢
  rw [hchunks, Nat.add_assoc] at h
  exact h

theorem fills_none {κ : Type} {n : ℕ} {kept : κ} (h : 256 * 1024 < dst.chunks + n) :
    Fills dst n kept none := by
  unfold Fills
  rw [if_neg (Nat.not_le.mpr h)]

theorem fills_zero {κ : Type} (h : Open dst) (kept : κ) : Fills dst 0 kept (some (kept, dst)) := by
  unfold Fills
  rw [Nat.add_zero, if_pos h.chunks_le]
  exact ⟨dst, rfl, h, rfl⟩

theorem writeFullStream_fills (h : Open dst) {buf : List UInt8} (hbuf : buf ≠ [])
    (hlen : buf.length ≤ 64 * 1024) :
    (∃ dst', dst.writeFullStream buf = some (dst', true) ∧ Open dst' ∧
      dst'.chunks = dst.chunks + 1) ∨
    256 * 1024 < dst.chunks + 1 ∧ dst.writeFullStream buf = none := by
  rcases Nat.lt_or_ge dst.chunks (256 * 1024) with hroom | hfull
  · obtain ⟨dst', hwrite, hopen, -, hchunks⟩ := h.writeFullStream_room hbuf hlen hroom
    exact Or.inl ⟨dst', hwrite, hopen, hchunks⟩
  · have hall : dst.chunks = 256 * 1024 := le_antisymm h.chunks_le hfull
    exact Or.inr ⟨by omega, writeFullStream_full h hbuf hlen hall⟩

/-! ## Transformers -/

variable {κ : Type}

/-- A turn that keeps what it reads, or writes once. -/
def WritesOnce
    (turn : κ → StreamableChunks → UInt8 → List UInt8 → Option (κ × StreamableChunks × List UInt8))
    (writes : κ → List UInt8 → ℕ) (after : κ → List UInt8 → κ)
    (kept : κ) (x : UInt8) (buf : List UInt8) : Prop :=
  ∃ kept' rest, rest.length ≤ buf.length ∧ after kept (x :: buf) = after kept' rest ∧
    ((∀ dst, turn kept dst x buf = some (kept', dst, rest)) ∧
        writes kept (x :: buf) = writes kept' rest ∨
      ∃ w, w ≠ [] ∧ w.length ≤ 64 * 1024 ∧ writes kept (x :: buf) = 1 + writes kept' rest ∧
        (∀ dst, dst.writeFullStream w = none → turn kept dst x buf = none) ∧
        ∀ dst dst', dst.writeFullStream w = some (dst', true) →
          turn kept dst x buf = some (kept', dst', rest))

/-- A transformer whose turns write once or not at all: `writes` says how often for a text, `after`
what is kept behind it. -/
structure Turns (κ : Type) where
  turn : κ → StreamableChunks → UInt8 → List UInt8 → Option (κ × StreamableChunks × List UInt8)
  writes : κ → List UInt8 → ℕ
  after : κ → List UInt8 → κ
  writes_nil : ∀ kept, writes kept [] = 0
  after_nil : ∀ kept, after kept [] = kept
  turn_cases : ∀ kept x buf, (x :: buf).length ≤ 64 * 1024 →
    WritesOnce turn writes after kept x buf

variable (T : Turns κ)

/-- The loop makes the writes of the text. -/
theorem Turns.writeToLoop_fills (fuel : ℕ) (h : Open dst) (kept : κ) (buf : List UInt8)
    (hfuel : buf.length ≤ fuel) (hlen : buf.length ≤ 64 * 1024) :
    Fills dst (T.writes kept buf) (T.after kept buf) (writeToLoop T.turn fuel kept dst buf) := by
  induction fuel generalizing dst kept buf with
  | zero =>
      obtain rfl : buf = [] := List.length_eq_zero_iff.mp (Nat.le_zero.mp hfuel)
      rw [T.writes_nil, T.after_nil, writeToLoop]
      exact fills_zero h kept
  | succ fuel ih =>
      rcases buf with _ | ⟨x, buf⟩
      · rw [T.writes_nil, T.after_nil, writeToLoop]
        exact fills_zero h kept
      obtain ⟨kept', rest, hrest, hafter, hturn⟩ := T.turn_cases kept x buf hlen
      rw [List.length_cons] at hfuel hlen
      have hnext : ∀ {dst : StreamableChunks}, Open dst →
          Fills dst (T.writes kept' rest) (T.after kept' rest)
            (writeToLoop T.turn fuel kept' dst rest) :=
        fun hopen => ih hopen kept' rest (by omega) (by omega)
      rw [hafter, writeToLoop]
      rcases hturn with ⟨hkeep, hwrites⟩ | ⟨w, hw, hwlen, hwrites, hthrows, htakes⟩
      · -- a byte is kept
        rw [hkeep, hwrites]
        simp only [h.succeed, if_true]
        exact hnext h
      · -- one write, which the container takes or throws at
        rw [hwrites]
        rcases writeFullStream_fills h hw hwlen with ⟨dst', hwrite, hopen, hchunks⟩ |
          ⟨hfull, hwrite⟩
        · rw [htakes dst dst' hwrite]
          simp only [hopen.succeed, if_true]
          exact (hnext hopen).after hchunks
        · rw [hthrows dst hwrite]
          exact fills_none (by omega)

/-- The writes for a container that is read in pieces. -/
def Turns.writesFor : κ → List (List UInt8) → ℕ
  | _, [] => 0
  | kept, d :: ds => T.writes kept d + writesFor (T.after kept d) ds

theorem Turns.transformFrom_cases {writeTo : κ → StreamableChunks → List UInt8 →
      Option (κ × StreamableChunks)}
    (hwriteTo : ∀ kept dst d, d.length ≤ 64 * 1024 →
      writeTo kept dst d = writeToLoop T.turn d.length kept dst d)
    (h : Open dst) (kept : κ) (ds : List (List UInt8)) (hds : ∀ d ∈ ds, d.length ≤ 64 * 1024) :
    if dst.chunks + T.writesFor kept ds ≤ 256 * 1024 then
      ∃ dst', transformFrom writeTo kept dst ds = some dst' ∧ Open dst'
    else transformFrom writeTo kept dst ds = none := by
  induction ds generalizing dst kept with
  | nil =>
      rw [Turns.writesFor, Nat.add_zero, if_pos h.chunks_le, transformFrom]
      exact ⟨dst, rfl, h⟩
  | cons d ds ih =>
      obtain ⟨hd, hrest⟩ := List.forall_mem_cons.mp hds
      have hloop := T.writeToLoop_fills d.length h kept d (le_refl _) hd
      rw [← hwriteTo kept dst d hd] at hloop
      rw [Turns.writesFor, transformFrom, ← Nat.add_assoc]
      rcases hloop.cases with ⟨dst', hwrite, hopen, hchunks⟩ | ⟨hfull, hwrite⟩
      · rw [hwrite, ← hchunks]
        simp only [hopen.succeed, if_true]
        exact ih hopen (T.after kept d) hrest
      · rw [hwrite, if_neg (by omega)]

/-! ## How often the two write -/

/-- A stretch of plain bytes, a blank, a decoded byte or a malformed escape is one write.  In a
stretch that is the last byte of it. -/
def endsDecoderWrite (kept : List UInt8) (x : UInt8) (s : List UInt8) : Bool :=
  match kept with
  | [] => if DecoderURL.isPlain x then !(s.head?.any DecoderURL.isPlain) else x != 37
  | [_] => !isxdigit x
  | _ => true

/-- The writes of the decoder for a piece. -/
def decoderWrites : List UInt8 → List UInt8 → ℕ
  | _, [] => 0
  | kept, x :: s =>
    (endsDecoderWrite kept x s).toNat + decoderWrites (DecoderURL.decodeByte kept x).1 s

/-- The writes of the encoder for a piece: the stretches of letters and digits, and the other bytes.
-/
def encoderWrites : List UInt8 → ℕ
  | [] => 0
  | x :: s => (!(isalnum x && s.head?.any isalnum)).toNat + encoderWrites s

theorem encoderWrites_alnum {x : UInt8} (hx : isalnum x = true) (s : List UInt8) :
    encoderWrites (x :: s) = 1 + encoderWrites (s.dropWhile isalnum) := by
  induction s generalizing x with
  | nil => simp [encoderWrites]
  | cons y s ih =>
      by_cases hy : isalnum y = true
      · rw [encoderWrites, List.dropWhile_cons_of_pos hy, ih hy]
        simp [hx, hy]
      · rw [encoderWrites, List.dropWhile_cons_of_neg hy]
        simp [hy]

theorem decoderWrites_plain {x : UInt8} (hx : DecoderURL.isPlain x = true) (s : List UInt8) :
    decoderWrites [] (x :: s) = 1 + decoderWrites [] (s.dropWhile DecoderURL.isPlain) := by
  induction s generalizing x with
  | nil => simp [decoderWrites, endsDecoderWrite, hx]
  | cons y s ih =>
      have hkept : (DecoderURL.decodeByte [] x).1 = [] := by
        rw [DecoderURL.decodeByte, if_pos hx]
      rw [decoderWrites, hkept]
      by_cases hy : DecoderURL.isPlain y = true
      · rw [List.dropWhile_cons_of_pos hy, ih hy]
        simp [endsDecoderWrite, hx, hy]
      · rw [List.dropWhile_cons_of_neg hy]
        simp [endsDecoderWrite, hx, hy]

theorem decodeFrom_dropWhile (s : List UInt8) :
    DecoderURL.decodeFrom [] s =
      ((DecoderURL.decodeFrom [] (s.dropWhile DecoderURL.isPlain)).1,
        s.takeWhile DecoderURL.isPlain ++
          (DecoderURL.decodeFrom [] (s.dropWhile DecoderURL.isPlain)).2) := by
  have hplain := DecoderURL.decodeFrom_plain
    (fun x (hx : x ∈ s.takeWhile DecoderURL.isPlain) => List.mem_takeWhile_imp hx)
  have hall := DecoderURL.decodeFrom_append [] (s.takeWhile DecoderURL.isPlain)
    (s.dropWhile DecoderURL.isPlain)
  rwa [List.takeWhile_append_dropWhile, hplain] at hall

theorem length_dropWhile_le {p : UInt8 → Bool} (s : List UInt8) :
    (s.dropWhile p).length ≤ s.length := (List.dropWhile_suffix p).length_le

theorem length_takeWhile_cons_le {p : UInt8 → Bool} {x : UInt8} {s : List UInt8} {n : ℕ}
    (h : (x :: s).length ≤ n) : (x :: s.takeWhile p).length ≤ n := by
  have hle := (List.takeWhile_prefix (l := s) p).length_le
  rw [List.length_cons] at h ⊢
  omega

/-- The encoder. -/
def encoder : Turns Unit where
  turn := encodeTurn
  writes _ := encoderWrites
  after _ _ := ()
  writes_nil _ := rfl
  after_nil _ := rfl
  turn_cases kept x buf hlen := by
    by_cases hx : isalnum x = true
    · refine ⟨(), buf.dropWhile isalnum, length_dropWhile_le buf, rfl, Or.inr
        ⟨x :: buf.takeWhile isalnum, List.cons_ne_nil _ _, length_takeWhile_cons_le hlen,
          encoderWrites_alnum hx buf, ?_, ?_⟩⟩
      · intro dst hwrite
        rw [encodeTurn, if_pos hx, hwrite]
        rfl
      · intro dst dst' hwrite
        rw [encodeTurn, if_pos hx, hwrite]
        rfl
    · have hthree : (encodeByte x).length ≤ 64 * 1024 := by
        rw [encodeByte, if_neg hx]
        simp
      refine ⟨(), buf, le_refl _, rfl, Or.inr ⟨encodeByte x, ?_, hthree, ?_, ?_, ?_⟩⟩
      · rw [encodeByte, if_neg hx]
        exact List.cons_ne_nil _ _
      · show encoderWrites (x :: buf) = 1 + encoderWrites buf
        rw [encoderWrites]
        simp [hx]
      · intro dst hwrite
        rw [encodeTurn, if_neg hx, hwrite]
        rfl
      · intro dst dst' hwrite
        rw [encodeTurn, if_neg hx, hwrite]
        rfl

/-- What a turn of the decoder does, whatever the destination. -/
abbrev DecoderWritesOnce (kept : List UInt8) (x : UInt8) (buf : List UInt8) : Prop :=
  WritesOnce DecoderURL.turn decoderWrites (fun kept s => (DecoderURL.decodeFrom kept s).1)
    kept x buf

/-- A turn that keeps the byte. -/
theorem decoderWritesOnce_of_kept {kept kept' : List UInt8} {x : UInt8} {buf : List UInt8}
    (hdecode : DecoderURL.decodeByte kept x = (kept', []))
    (hends : endsDecoderWrite kept x buf = false)
    (hturn : ∀ dst, DecoderURL.turn kept dst x buf = some (kept', dst, buf)) :
    DecoderWritesOnce kept x buf := by
  refine ⟨kept', buf, le_refl _, ?_, Or.inl ⟨hturn, ?_⟩⟩
  · simp only [DecoderURL.decodeFrom, hdecode]
  · rw [decoderWrites, hdecode, hends]
    exact Nat.zero_add _

/-- A turn that writes for one byte, with the check of a flush or without it. -/
theorem decoderWritesOnce_of_written {kept w : List UInt8} {x : UInt8} {buf : List UInt8}
    (hw : w ≠ []) (hthree : w.length ≤ 3) (hkept : (DecoderURL.decodeByte kept x).1 = [])
    (hends : endsDecoderWrite kept x buf = true)
    (hturn : (∀ dst, DecoderURL.turn kept dst x buf =
          (dst.writeFullStream w).map fun r => ([], r.1, buf)) ∨
        ∀ dst, DecoderURL.turn kept dst x buf =
          (DecoderURL.writeOrFail dst w).map fun dst => ([], dst, buf)) :
    DecoderWritesOnce kept x buf := by
  refine ⟨[], buf, le_refl _, ?_, Or.inr ⟨w, hw, by omega, ?_, ?_, ?_⟩⟩
  · simp only [DecoderURL.decodeFrom, hkept]
  · rw [decoderWrites, hkept, hends]
    rfl
  · intro dst hwrite
    rcases hturn with hturn | hturn
    · rw [hturn, hwrite]
      rfl
    · rw [hturn, DecoderURL.writeOrFail, hwrite]
      rfl
  · intro dst dst' hwrite
    rcases hturn with hturn | hturn
    · rw [hturn, hwrite]
      rfl
    · rw [hturn, DecoderURL.writeOrFail, hwrite]
      rfl

/-- A stretch of plain bytes goes out in one write. -/
theorem decoderWritesOnce_plain {x : UInt8} {buf : List UInt8}
    (hplain : DecoderURL.isPlain x = true) (hlen : (x :: buf).length ≤ 64 * 1024) :
    DecoderWritesOnce [] x buf := by
  refine ⟨[], buf.dropWhile DecoderURL.isPlain, length_dropWhile_le buf, ?_, Or.inr
    ⟨x :: buf.takeWhile DecoderURL.isPlain, List.cons_ne_nil _ _,
      length_takeWhile_cons_le hlen, decoderWrites_plain hplain buf, ?_, ?_⟩⟩
  · simp only [DecoderURL.decodeFrom, DecoderURL.decodeByte, if_pos hplain,
      decodeFrom_dropWhile buf]
  · intro dst hwrite
    rw [DecoderURL.turn, if_pos hplain, hwrite]
  · intro dst dst' hwrite
    rw [DecoderURL.turn, if_pos hplain, hwrite]

/-- Every turn keeps the byte, or writes. -/
theorem decoderWritesOnce (kept : List UInt8) (x : UInt8) (buf : List UInt8)
    (hlen : (x :: buf).length ≤ 64 * 1024) : DecoderWritesOnce kept x buf := by
  rcases kept with _ | ⟨a, _ | ⟨b, more⟩⟩
  · -- Nothing is kept.
    by_cases hplain : DecoderURL.isPlain x = true
    · exact decoderWritesOnce_plain hplain hlen
    · by_cases hx : x = 37
      · apply decoderWritesOnce_of_kept
        · rw [DecoderURL.decodeByte, if_neg hplain, if_pos hx]
        · rw [endsDecoderWrite, if_neg hplain, hx]
          rfl
        · intro dst
          rw [DecoderURL.turn, if_neg hplain, if_pos hx]
      · apply decoderWritesOnce_of_written (List.cons_ne_nil 32 []) (by simp)
        · rw [DecoderURL.decodeByte, if_neg hplain, if_neg hx]
        · simp [endsDecoderWrite, hplain, hx]
        · refine Or.inl (fun dst => ?_)
          rw [DecoderURL.turn, if_neg hplain, if_neg hx]
  · -- A percent sign is kept.
    by_cases hx : isxdigit x = true
    · apply decoderWritesOnce_of_kept
      · rw [DecoderURL.decodeByte, if_pos hx]
      · simp [endsDecoderWrite, hx]
      · intro dst
        rw [DecoderURL.turn, if_pos hx]
    · apply decoderWritesOnce_of_written (List.cons_ne_nil a [x]) (by simp)
      · rw [DecoderURL.decodeByte, if_neg hx]
      · simp [endsDecoderWrite, hx]
      · refine Or.inl (fun dst => ?_)
        rw [DecoderURL.turn, if_neg hx]
  · -- A digit behind it, too.
    by_cases hx : isxdigit x = true
    · apply decoderWritesOnce_of_written (List.cons_ne_nil (hexPairToByte b x) []) (by simp)
      · rw [DecoderURL.decodeByte, if_pos hx]
      · rfl
      · refine Or.inr (fun dst => ?_)
        rw [DecoderURL.turn, if_pos hx]
    · apply decoderWritesOnce_of_written (List.cons_ne_nil a [b, x]) (by simp)
      · rw [DecoderURL.decodeByte, if_neg hx]
      · rfl
      · refine Or.inl (fun dst => ?_)
        rw [DecoderURL.turn, if_neg hx]

/-- The decoder. -/
def decoder : Turns (List UInt8) where
  turn := DecoderURL.turn
  writes := decoderWrites
  after kept s := (DecoderURL.decodeFrom kept s).1
  writes_nil _ := rfl
  after_nil _ := rfl
  turn_cases := decoderWritesOnce

/-! ## What they return -/

theorem copyChunksLoop_le (fuel : ℕ) (s : List UInt8) :
    ∀ d ∈ copyChunksLoop fuel s, d.length ≤ 64 * 1024 := by
  induction fuel generalizing s with
  | zero =>
      intro d hd
      cases s <;> exact absurd hd List.not_mem_nil
  | succ fuel ih =>
      rcases s with _ | ⟨x, s⟩
      · intro d hd
        exact absurd hd List.not_mem_nil
      · rw [copyChunksLoop]
        · exact List.forall_mem_cons.mpr ⟨List.length_take_le _ _, ih _⟩
        · exact List.cons_ne_nil x s

/-- The writes of the decoder for a string. -/
def writesToDecode (url : List UInt8) : ℕ := decoder.writesFor [] (copyChunks url)

/-- The writes of the encoder for a string. -/
def writesToEncode (url : List UInt8) : ℕ := encoder.writesFor () (copyChunks url)

/-- A status that does not say `finish`. -/
theorem returned_open {dst : StreamableChunks} (h : Open dst) (url : List UInt8) :
    returned url dst = url := by
  rw [returned, h.succeed, h.finish]
  rfl

/-- A string is returned as it is, unless the container runs out of chunks. -/
theorem Turns.map_returned {writeTo : κ → StreamableChunks → List UInt8 →
      Option (κ × StreamableChunks)}
    (hwriteTo : ∀ kept dst d, d.length ≤ 64 * 1024 →
      writeTo kept dst d = writeToLoop T.turn d.length kept dst d) (kept : κ) (url : List UInt8) :
    (transformFrom writeTo kept {} (copyChunks url)).map (returned url) =
      if T.writesFor kept (copyChunks url) ≤ 256 * 1024 then some url else none := by
  have hcases := T.transformFrom_cases hwriteTo open_empty kept (copyChunks url)
    (copyChunksLoop_le _ _)
  rw [show ({} : StreamableChunks).chunks = 0 from rfl, Nat.zero_add] at hcases
  by_cases hroom : T.writesFor kept (copyChunks url) ≤ 256 * 1024
  · rw [if_pos hroom] at hcases ⊢
    obtain ⟨dst, htransform, hopen⟩ := hcases
    rw [htransform, Option.map_some, returned_open hopen]
  · rw [if_neg hroom] at hcases ⊢
    rw [hcases]
    rfl

theorem decodeURLStr_eq (url : List UInt8) :
    decodeURLStr url = if writesToDecode url ≤ 256 * 1024 then some url else none := by
  rw [decodeURLStr, DecoderURL.transform, decoder_transformFrom]
  exact decoder.map_returned (fun kept dst d _ => decoder_writeToLoop d.length kept dst d) [] url

theorem encodeURLStr_eq (url : List UInt8) :
    encodeURLStr url = if writesToEncode url ≤ 256 * 1024 then some url else none := by
  refine encoder.map_returned (fun kept dst d hd => ?_) () url
  rw [encodeWriteTo, if_neg (by omega)]
  rfl

/-! ## Percent-decoding again -/

theorem percentDecode_escape {a b : UInt8} (ha : isxdigit a = true) (hb : isxdigit b = true)
    (s : List UInt8) :
    percentDecode (37 :: a :: b :: s) =
      UInt8.ofNat (xdigitValue a * 16 + xdigitValue b) :: percentDecode s := by
  rw [percentDecode, if_pos ⟨rfl, ha, hb⟩]

theorem percentDecode_literal {c : UInt8} {s : List UInt8}
    (h : HelperEncoders.startsEscape (c :: s) = false) :
    percentDecode (c :: s) = (if c = 43 then 32 else c) :: percentDecode s := by
  rcases s with _ | ⟨a, _ | ⟨b, rest⟩⟩
  · rfl
  · rfl
  · rw [percentDecode, if_neg]
    rintro ⟨rfl, ha, hb⟩
    simp [HelperEncoders.startsEscape, ha, hb] at h

/-- By induction on the length of the text: it gets shorter if it has an escape. -/
theorem percentDecode_spec (s : List UInt8) :
    (percentDecode s).length ≤ s.length ∧
      (percentDecode s = s ↔ 43 ∉ s ∧ ¬ HelperEncoders.HasEscape s) := by
  induction hn : s.length using Nat.strong_induction_on generalizing s with
  | _ n ih =>
    rcases s with _ | ⟨c, s⟩
    · exact ⟨Nat.zero_le _, iff_of_true rfl ⟨List.not_mem_nil, HelperEncoders.hasEscape_nil⟩⟩
    rw [List.length_cons] at hn
    by_cases hstart : HelperEncoders.startsEscape (c :: s) = true
    · obtain ⟨a, b, rest, hs, ha, hb⟩ := HelperEncoders.exists_of_startsEscape hstart
      have hcount := congrArg List.length hs
      simp only [List.length_cons] at hcount
      obtain ⟨hlen, -⟩ := ih rest.length (by omega) rest rfl
      have hshort : (percentDecode (c :: s)).length < (c :: s).length := by
        rw [hs, percentDecode_escape ha hb]
        simp only [List.length_cons]
        omega
      rw [List.length_cons] at hshort
      refine ⟨by omega, iff_of_false ?_ ?_⟩
      · rw [← List.length_cons] at hshort
        exact ne_of_apply_ne List.length hshort.ne
      · rintro ⟨-, hno⟩
        exact hno ((HelperEncoders.hasEscape_cons_iff c s).mpr (Or.inl hstart))
    · obtain ⟨hlen, hiff⟩ := ih s.length (by omega) s rfl
      have hbyte : (if c = 43 then 32 else c) = c ↔ 43 ≠ c := by
        by_cases hc : c = 43
        · subst hc
          decide
        · rw [if_neg hc]
          exact iff_of_true rfl (Ne.symm hc)
      rw [percentDecode_literal (Bool.not_eq_true _ ▸ hstart), List.length_cons,
        List.cons_eq_cons, hiff, hbyte, List.mem_cons, HelperEncoders.hasEscape_cons_iff, not_or,
        not_or, and_iff_right hstart]
      exact ⟨by omega, and_assoc.symm⟩

/-- **Request URIs.**  A string is its own result, so that it is the decoded text exactly if it has
no `+` and no escape, and neither function runs out of chunks. -/
theorem decodeURLStr_iff (s : List UInt8) :
    (decodeURLStr s = some (percentDecode s) ∧ (encodeURLStr s).bind decodeURLStr = some s) ↔
      (43 ∉ s ∧ ¬ HelperEncoders.HasEscape s) ∧
        writesToDecode s ≤ 256 * 1024 ∧ writesToEncode s ≤ 256 * 1024 := by
  rw [decodeURLStr_eq, encodeURLStr_eq]
  by_cases hdecode : writesToDecode s ≤ 256 * 1024
  · rw [if_pos hdecode, Option.some.injEq, eq_comm, (percentDecode_spec s).2]
    refine and_congr_right (fun _ => ?_)
    by_cases hencode : writesToEncode s ≤ 256 * 1024
    · rw [if_pos hencode, Option.bind_some, decodeURLStr_eq, if_pos hdecode]
      exact iff_of_true rfl ⟨hdecode, hencode⟩
    · rw [if_neg hencode]
      exact iff_of_false (Option.some_ne_none s).symm (fun h => hencode h.2)
  · rw [if_neg hdecode]
    exact iff_of_false (fun h => (Option.some_ne_none _).symm h.1) (fun h => hdecode h.2.1)

/-- A blank that was encoded stays so. -/
theorem not_decodeURLStr :
    ¬ ∀ s : List UInt8,
      decodeURLStr s = some (percentDecode s) ∧ (encodeURLStr s).bind decodeURLStr = some s := by
  intro hclaim
  have hdecoded := (hclaim [97, 37, 50, 48, 98]).1
  rw [decodeURLStr_eq, if_pos (by decide)] at hdecoded
  exact absurd hdecoded (by decide)

end UrlStrings

end Mantids
