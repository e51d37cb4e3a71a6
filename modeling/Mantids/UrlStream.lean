/-
# URL encoding in a stream

`Encoders::URL` and `Decoders::URL` (`Protocol_HTTP/streamencoder_url.cpp`,
`Protocol_HTTP/streamdecoder_url.cpp`) are transformers: what is written to them goes on, encoded or
decoded, to another stream.  A write of no bytes is the end, where the decoder writes what it has
kept of an unfinished `%XX`.

* `AcceptingSink` — a stream that takes every write;
* `encodeWrites`, `decodeWrites` — a series of writes to the encoder, and to the decoder;
* `received_encodeWrites`, `received_decodeWrites` — what comes out, without the cuts;
* `url_round_trip` — what is encoded and decoded comes out as it was.
-/
import Mantids.UrlCodec

namespace Mantids

/-- A stream as its writer sees it, that takes every write as a whole. -/
structure AcceptingSink (σ : Type*) where
  write : σ → List UInt8 → σ × Option ℕ
  /-- `writeStatus.succeed`. -/
  succeed : σ → Bool
  /-- `writeStatus += -1`. -/
  fail : σ → σ
  /-- `writeStatus.succeed += -1`. -/
  turnOver : σ → σ
  received : σ → List UInt8
  whole : ∀ s buf n, (write s buf).2 = some n → n = buf.length
  accepts : ∀ s buf, succeed s = true → (write s buf).2 = some buf.length ∧
    succeed (write s buf).1 = true ∧ received (write s buf).1 = received s ++ buf

namespace AcceptingSink

variable {σ : Type*} (K : AcceptingSink σ)

/-- `writeFullStream`, whose loop ends after its first write. -/
def writeFullStream (dst : σ) (buf : List UInt8) : σ × Bool :=
  if buf = [] then (dst, true)
  else
    let r := K.write dst buf
    if r.2 = none ∨ K.succeed r.1 = false then (K.turnOver r.1, false) else (r.1, true)

/-- A sink that has taken these bytes. -/
def Took (dst : σ) (buf : List UInt8) (dst' : σ) : Prop :=
  K.succeed dst' = true ∧ K.received dst' = K.received dst ++ buf

variable {K} {dst dst₁ dst₂ : σ}

theorem Took.refl (h : K.succeed dst = true) : K.Took dst [] dst :=
  ⟨h, (List.append_nil _).symm⟩

theorem Took.trans {buf₁ buf₂ : List UInt8} (h₁ : K.Took dst buf₁ dst₁)
    (h₂ : K.Took dst₁ buf₂ dst₂) : K.Took dst (buf₁ ++ buf₂) dst₂ := by
  refine ⟨h₂.1, ?_⟩
  rw [h₂.2, h₁.2, List.append_assoc]

theorem writeFullStream_took (h : K.succeed dst = true) (buf : List UInt8) :
    ∃ dst', K.writeFullStream dst buf = (dst', true) ∧ K.Took dst buf dst' := by
  by_cases hbuf : buf = []
  · subst hbuf
    exact ⟨dst, if_pos rfl, Took.refl h⟩
  · obtain ⟨hcount, hsucceed, hreceived⟩ := K.accepts dst buf h
    refine ⟨(K.write dst buf).1, ?_, hsucceed, hreceived⟩
    rw [writeFullStream, if_neg hbuf]
    have htaken : ¬ ((K.write dst buf).2 = none ∨ K.succeed (K.write dst buf).1 = false) := by
      rw [hcount, hsucceed]
      simp
    exact if_neg htaken

end AcceptingSink

namespace UrlStream

variable {σ : Type*} (K : AcceptingSink σ)

/-! ## The encoder -/

/-- One turn of the loop of `Encoders::URL::writeTo`: the sink and what is left to read. -/
def encodeTurn (dst : σ) (x : UInt8) (buf : List UInt8) : σ × List UInt8 :=
  if isalnum x then
    match K.writeFullStream dst (x :: buf.takeWhile isalnum) with
    | (dst, true) => (dst, buf.dropWhile isalnum)
    | (dst, false) => (dst, x :: buf)
  else
    match K.writeFullStream dst (encodeByte x) with
    | (dst, true) => (dst, buf)
    | (dst, false) => (dst, x :: buf)

/-- The loop.  A turn takes a byte. -/
def encodeLoop : ℕ → σ → List UInt8 → σ × List UInt8
  | _, dst, [] => (dst, [])
  | 0, dst, buf => (dst, buf)
  | fuel + 1, dst, x :: buf =>
    let r := encodeTurn K dst x buf
    if K.succeed r.1 then encodeLoop fuel r.1 r.2 else r

/-- The largest write that the encoder takes. -/
def maxStream : ℕ := (2 ^ 64 - 1) / 3 - 3

/-- `Encoders::URL::writeTo`, with the bytes read. -/
def encodeWriteTo (dst : σ) (buf : List UInt8) : σ × ℕ :=
  if maxStream < buf.length then (K.fail dst, 2 ^ 64 - 1)
  else
    let r := encodeLoop K buf.length dst buf
    (r.1, buf.length - r.2.length)

/-- `StreamableTransformer::write` of the encoder.  There is nothing to do at the end. -/
def encodeWrite (dst : σ) (buf : List UInt8) : σ × Option ℕ :=
  let r := if buf = [] then (dst, 0) else encodeWriteTo K dst buf
  (r.1, if K.succeed r.1 then some r.2 else none)

/-- A series of writes, up to the first that fails. -/
def encodeWrites : σ → List (List UInt8) → σ
  | dst, [] => dst
  | dst, d :: ds =>
    match encodeWrite K dst d with
    | (dst, none) => dst
    | (dst, some _) => encodeWrites dst ds

/-! ## The decoder -/

open DecoderURL

/-- A write whose failure is added to the status. -/
def writeOrFail (dst : σ) (buf : List UInt8) : σ :=
  match K.writeFullStream dst buf with
  | (dst, true) => dst
  | (dst, false) => K.fail dst

/-- `flushBytesAndResetFilledCounter`. -/
def flush (kept : List UInt8) (dst : σ) : List UInt8 × σ := ([], (K.writeFullStream dst kept).1)

/-- One turn of the loop of `Decoders::URL::writeTo`, with the bytes `m_bytes[0..m_filled)`. -/
def decodeTurn (kept : List UInt8) (dst : σ) (x : UInt8) (buf : List UInt8) :
    (List UInt8 × σ) × List UInt8 :=
  match kept with
  | [] =>
    if isPlain x then
      match K.writeFullStream dst (x :: buf.takeWhile isPlain) with
      | (dst, true) => (([], dst), buf.dropWhile isPlain)
      | (dst, false) => (([], K.fail dst), x :: buf)
    else if x = 37 then (([37], dst), buf)
    else (flush K [32] dst, buf)
  | [a] => if isxdigit x then (([a, x], dst), buf) else (flush K [a, x] dst, buf)
  | a :: b :: _ =>
    if isxdigit x then (([], writeOrFail K dst [hexPairToByte b x]), buf)
    else (flush K [a, b, x] dst, buf)

/-- The loop, with the bytes that are kept. -/
def decodeLoop : ℕ → List UInt8 × σ → List UInt8 → (List UInt8 × σ) × List UInt8
  | _, d, [] => (d, [])
  | 0, d, buf => (d, buf)
  | fuel + 1, d, x :: buf =>
    let r := decodeTurn K d.1 d.2 x buf
    if K.succeed r.1.2 then decodeLoop fuel r.1 r.2 else r

/-- `Decoders::URL::writeTo`. -/
def decodeWriteTo (d : List UInt8 × σ) (buf : List UInt8) : (List UInt8 × σ) × ℕ :=
  let r := decodeLoop K buf.length d buf
  (r.1, buf.length - r.2.length)

/-- `StreamableTransformer::write` of the decoder.  At the end the kept bytes are written. -/
def decodeWrite (d : List UInt8 × σ) (buf : List UInt8) : (List UInt8 × σ) × Option ℕ :=
  let r :=
    if buf = [] then (flush K d.1 d.2, if (K.writeFullStream d.2 d.1).2 then 1 else 0)
    else decodeWriteTo K d buf
  (r.1, if K.succeed r.1.2 then some r.2 else none)

/-- A series of writes, up to the first that fails. -/
def decodeWrites : List UInt8 × σ → List (List UInt8) → List UInt8 × σ
  | d, [] => d
  | d, buf :: bufs =>
    match decodeWrite K d buf with
    | (d, none) => d
    | (d, some _) => decodeWrites d bufs

/-- What the sink has received from a new decoder after these writes and the end. -/
def decodeToEnd (dst : σ) (bufs : List (List UInt8)) : List UInt8 :=
  K.received (decodeWrites K ([], dst) (bufs ++ [[]])).2

/-! ## What comes out of the encoder -/

variable {K} {dst : σ}

theorem encode_append (s t : List UInt8) : encode (s ++ t) = encode s ++ encode t :=
  List.flatMap_append

/-- Letters and digits come out as they are. -/
theorem encode_alnum {s : List UInt8} (h : ∀ x ∈ s, isalnum x = true) : encode s = s := by
  induction s with
  | nil => rfl
  | cons x s ih =>
      have hrest := ih (fun y hy => h y (List.mem_cons_of_mem _ hy))
      have hx : encodeByte x = [x] := by
        rw [encodeByte, h x List.mem_cons_self]
        rfl
      rw [encode, List.flatMap_cons, hx]
      exact congrArg (x :: ·) hrest

theorem forall_mem_cons_takeWhile {p : UInt8 → Bool} {x : UInt8} {buf : List UInt8}
    (hx : p x = true) : ∀ y ∈ x :: buf.takeWhile p, p y = true := by
  intro y hy
  rcases List.mem_cons.mp hy with rfl | hy
  · exact hx
  · exact List.mem_takeWhile_imp hy

theorem encodeTurn_took (h : K.succeed dst = true) (x : UInt8) (buf : List UInt8) :
    ∃ used dst' rest, encodeTurn K dst x buf = (dst', rest) ∧ x :: buf = used ++ rest ∧
      used ≠ [] ∧ K.Took dst (encode used) dst' := by
  unfold encodeTurn
  by_cases hx : isalnum x = true
  · obtain ⟨dst', hwrite, htook⟩ :=
      AcceptingSink.writeFullStream_took h (x :: buf.takeWhile isalnum)
    rw [if_pos hx, hwrite]
    refine ⟨x :: buf.takeWhile isalnum, dst', buf.dropWhile isalnum, rfl, ?_,
      List.cons_ne_nil _ _, ?_⟩
    · rw [List.cons_append, List.takeWhile_append_dropWhile]
    · rw [encode_alnum (forall_mem_cons_takeWhile hx)]
      exact htook
  · obtain ⟨dst', hwrite, htook⟩ := AcceptingSink.writeFullStream_took h (encodeByte x)
    rw [if_neg hx, hwrite]
    refine ⟨[x], dst', buf, rfl, rfl, List.cons_ne_nil _ _, ?_⟩
    rw [encode, List.flatMap_singleton]
    exact htook

theorem encodeLoop_took (fuel : ℕ) (h : K.succeed dst = true) (buf : List UInt8)
    (hfuel : buf.length ≤ fuel) :
    ∃ dst', encodeLoop K fuel dst buf = (dst', []) ∧ K.Took dst (encode buf) dst' := by
  induction fuel generalizing dst buf with
  | zero =>
      obtain rfl : buf = [] := List.length_eq_zero_iff.mp (Nat.le_zero.mp hfuel)
      exact ⟨dst, by rw [encodeLoop], AcceptingSink.Took.refl h⟩
  | succ fuel ih =>
      cases buf with
      | nil => exact ⟨dst, by rw [encodeLoop], AcceptingSink.Took.refl h⟩
      | cons x buf =>
          obtain ⟨used, dst₁, rest, hturn, hsplit, hused, htook⟩ := encodeTurn_took h x buf
          have hlength := congrArg List.length hsplit
          rw [List.length_append] at hlength
          have hpos := List.length_pos_iff.mpr hused
          obtain ⟨dst', hloop, htook'⟩ := ih htook.1 rest (by omega)
          refine ⟨dst', ?_, ?_⟩
          · rw [encodeLoop]
            simp only [hturn]
            rw [if_pos htook.1, hloop]
          · rw [hsplit, encode_append]
            exact htook.trans htook'

/-- A write that is not too large is encoded. -/
theorem encodeWrite_took (h : K.succeed dst = true) {buf : List UInt8}
    (hlen : buf.length ≤ maxStream) :
    ∃ dst', encodeWrite K dst buf = (dst', some buf.length) ∧ K.Took dst (encode buf) dst' := by
  unfold encodeWrite
  by_cases hbuf : buf = []
  · subst hbuf
    refine ⟨dst, ?_, AcceptingSink.Took.refl h⟩
    simp only [if_true, h, List.length_nil]
  · obtain ⟨dst', hloop, htook⟩ := encodeLoop_took buf.length h buf (le_refl _)
    refine ⟨dst', ?_, htook⟩
    have hwrite : encodeWriteTo K dst buf = (dst', buf.length) := by
      rw [encodeWriteTo, if_neg (Nat.not_lt.mpr hlen), hloop]
      rfl
    simp only [if_neg hbuf, hwrite, htook.1, if_true]

/-- **The encoder.**  What comes out does not depend on the cuts. -/
theorem received_encodeWrites (h : K.succeed dst = true) {ds : List (List UInt8)}
    (hlen : ∀ d ∈ ds, d.length ≤ maxStream) :
    K.Took dst (encode ds.flatten) (encodeWrites K dst ds) := by
  induction ds generalizing dst with
  | nil => exact AcceptingSink.Took.refl h
  | cons d ds ih =>
      obtain ⟨dst₁, hwrite, htook⟩ := encodeWrite_took h (hlen d List.mem_cons_self)
      have hrest := ih htook.1 (fun e he => hlen e (List.mem_cons_of_mem _ he))
      rw [List.flatten_cons, encode_append, encodeWrites, hwrite]
      exact htook.trans hrest

/-! ## What comes out of the decoder -/

open AcceptingSink

theorem flush_took (h : K.succeed dst = true) (kept : List UInt8) :
    ∃ dst', flush K kept dst = ([], dst') ∧ K.Took dst kept dst' := by
  obtain ⟨dst', hwrite, htook⟩ := writeFullStream_took h kept
  refine ⟨dst', ?_, htook⟩
  rw [flush, hwrite]

theorem writeOrFail_took (h : K.succeed dst = true) (buf : List UInt8) :
    K.Took dst buf (writeOrFail K dst buf) := by
  obtain ⟨dst', hwrite, htook⟩ := writeFullStream_took h buf
  rw [writeOrFail, hwrite]
  exact htook

/-- A turn takes some bytes and writes what they decode to. -/
theorem decodeTurn_took (h : K.succeed dst = true) (kept : List UInt8) (x : UInt8)
    (buf : List UInt8) :
    ∃ used dst' rest, decodeTurn K kept dst x buf = (((decodeFrom kept used).1, dst'), rest) ∧
      x :: buf = used ++ rest ∧ used ≠ [] ∧ K.Took dst (decodeFrom kept used).2 dst' := by
  -- A turn that takes one byte decodes it.
  have hbyte : ∀ kept' out dst', decodeByte kept x = (kept', out) →
      decodeTurn K kept dst x buf = ((kept', dst'), buf) → K.Took dst out dst' →
      ∃ used dst' rest, decodeTurn K kept dst x buf = (((decodeFrom kept used).1, dst'), rest) ∧
        x :: buf = used ++ rest ∧ used ≠ [] ∧ K.Took dst (decodeFrom kept used).2 dst' := by
    intro kept' out dst' hdecode hturn htook
    refine ⟨[x], dst', buf, ?_, rfl, List.cons_ne_nil _ _, ?_⟩
    · rw [hturn, decodeFrom, hdecode]
      rfl
    · rw [decodeFrom, hdecode]
      simpa only [decodeFrom, List.append_nil] using htook
  rcases kept with _ | ⟨a, _ | ⟨b, more⟩⟩
  · -- Nothing is kept.
    by_cases hplain : isPlain x = true
    · have hall : ∀ y ∈ x :: buf.takeWhile isPlain, isPlain y = true :=
        forall_mem_cons_takeWhile hplain
      obtain ⟨dst', hwrite, htook⟩ := writeFullStream_took h (x :: buf.takeWhile isPlain)
      refine ⟨x :: buf.takeWhile isPlain, dst', buf.dropWhile isPlain, ?_, ?_,
        List.cons_ne_nil _ _, ?_⟩
      · simp only [decodeTurn, if_pos hplain, hwrite]
        rw [decodeFrom_plain hall]
      · rw [List.cons_append, List.takeWhile_append_dropWhile]
      · rw [decodeFrom_plain hall]
        exact htook
    · by_cases hx : x = 37
      · refine hbyte [37] [] dst ?_ ?_ (Took.refl h)
        · rw [decodeByte, if_neg hplain, if_pos hx]
        · rw [decodeTurn, if_neg hplain, if_pos hx]
      · obtain ⟨dst', hflush, htook⟩ := flush_took h [32]
        refine hbyte [] [32] dst' ?_ ?_ htook
        · rw [decodeByte, if_neg hplain, if_neg hx]
        · rw [decodeTurn, if_neg hplain, if_neg hx, hflush]
  · -- A percent sign is kept.
    by_cases hx : isxdigit x = true
    · refine hbyte [a, x] [] dst ?_ ?_ (Took.refl h)
      · rw [decodeByte, if_pos hx]
      · rw [decodeTurn, if_pos hx]
    · obtain ⟨dst', hflush, htook⟩ := flush_took h [a, x]
      refine hbyte [] [a, x] dst' ?_ ?_ htook
      · rw [decodeByte, if_neg hx]
      · rw [decodeTurn, if_neg hx, hflush]
  · -- A digit behind it, too.
    by_cases hx : isxdigit x = true
    · refine hbyte [] [hexPairToByte b x] _ ?_ ?_ (writeOrFail_took h _)
      · rw [decodeByte, if_pos hx]
      · rw [decodeTurn, if_pos hx]
    · obtain ⟨dst', hflush, htook⟩ := flush_took h [a, b, x]
      refine hbyte [] [a, b, x] dst' ?_ ?_ htook
      · rw [decodeByte, if_neg hx]
      · rw [decodeTurn, if_neg hx, hflush]

theorem decodeLoop_took (fuel : ℕ) (h : K.succeed dst = true) (kept buf : List UInt8)
    (hfuel : buf.length ≤ fuel) :
    ∃ dst', decodeLoop K fuel (kept, dst) buf = (((decodeFrom kept buf).1, dst'), []) ∧
      K.Took dst (decodeFrom kept buf).2 dst' := by
  induction fuel generalizing dst kept buf with
  | zero =>
      obtain rfl : buf = [] := List.length_eq_zero_iff.mp (Nat.le_zero.mp hfuel)
      exact ⟨dst, by rw [decodeLoop, decodeFrom], Took.refl h⟩
  | succ fuel ih =>
      cases buf with
      | nil => exact ⟨dst, by rw [decodeLoop, decodeFrom], Took.refl h⟩
      | cons x buf =>
          obtain ⟨used, dst₁, rest, hturn, hsplit, hused, htook⟩ := decodeTurn_took h kept x buf
          have hlength := congrArg List.length hsplit
          rw [List.length_append] at hlength
          have hpos := List.length_pos_iff.mpr hused
          obtain ⟨dst', hloop, htook'⟩ :=
            ih htook.1 (decodeFrom kept used).1 rest (by omega)
          refine ⟨dst', ?_, ?_⟩
          · rw [decodeLoop]
            simp only [hturn]
            rw [if_pos htook.1, hloop, hsplit, decodeFrom_append]
          · rw [hsplit, decodeFrom_append]
            exact htook.trans htook'

theorem decodeWrite_took (h : K.succeed dst = true) (kept : List UInt8) {buf : List UInt8}
    (hbuf : buf ≠ []) :
    ∃ dst', decodeWrite K (kept, dst) buf = (((decodeFrom kept buf).1, dst'), some buf.length) ∧
      K.Took dst (decodeFrom kept buf).2 dst' := by
  obtain ⟨dst', hloop, htook⟩ := decodeLoop_took buf.length h kept buf (le_refl _)
  refine ⟨dst', ?_, htook⟩
  have hwrite : decodeWriteTo K (kept, dst) buf =
      (((decodeFrom kept buf).1, dst'), buf.length) := by
    rw [decodeWriteTo, hloop]
    rfl
  simp only [decodeWrite, if_neg hbuf, hwrite, htook.1, if_true]

/-- **The decoder.**  What comes out by the end does not depend on the cuts. -/
theorem received_decodeWrites (h : K.succeed dst = true) {bufs : List (List UInt8)}
    (hbufs : [] ∉ bufs) :
    decodeToEnd K dst bufs = K.received dst ++
      ((decodeFrom [] bufs.flatten).2 ++ (decodeFrom [] bufs.flatten).1) := by
  have hall : ∀ kept, K.Took dst
      ((decodeFrom kept bufs.flatten).2 ++ (decodeFrom kept bufs.flatten).1)
      (decodeWrites K (kept, dst) (bufs ++ [[]])).2 := by
    induction bufs generalizing dst with
    | nil =>
        intro kept
        obtain ⟨dst', hflush, htook⟩ := flush_took h kept
        have hwrite : ∃ n, decodeWrite K (kept, dst) [] = (([], dst'), some n) := by
          simp only [decodeWrite, if_true, hflush, htook.1]
          exact ⟨_, rfl⟩
        obtain ⟨n, hwrite⟩ := hwrite
        rw [List.nil_append, decodeWrites, hwrite]
        exact htook
    | cons buf bufs ih =>
        intro kept
        obtain ⟨hne, hrest⟩ := not_or.mp (mt List.mem_cons.mpr hbufs)
        obtain ⟨dst₁, hwrite, htook⟩ := decodeWrite_took h kept (Ne.symm hne)
        have hnext := ih htook.1 hrest (decodeFrom kept buf).1
        rw [List.cons_append, decodeWrites, hwrite, List.flatten_cons, decodeFrom_append,
          List.append_assoc]
        exact htook.trans hnext
  exact (hall []).2

/-! ## The two together -/

/-- **Round trip.**  Whatever is written to the encoder, in writes that are not too large, comes
out of the decoder however the encoded text is cut; and no cut makes a difference to the decoder.
-/
theorem url_round_trip {τ : Type*} (E : AcceptingSink σ) (D : AcceptingSink τ) (encoded : σ)
    (decoded : τ) (hE : E.succeed encoded = true) (hnew : E.received encoded = [])
    (hD : D.succeed decoded = true) :
    (∀ (s : List UInt8) (pieces cut : List (List UInt8)), pieces.flatten = s →
      (∀ d ∈ pieces, d.length ≤ maxStream) →
      cut.flatten = E.received (encodeWrites E encoded pieces) → [] ∉ cut →
      decodeToEnd D decoded cut = D.received decoded ++ s) ∧
    (∀ cut cut' : List (List UInt8), [] ∉ cut → [] ∉ cut' → cut.flatten = cut'.flatten →
      decodeToEnd D decoded cut = decodeToEnd D decoded cut') := by
  constructor
  · intro s pieces cut hs hlen hcut hne
    have htook := (received_encodeWrites hE hlen).2
    rw [received_decodeWrites hD hne, hcut, htook, hnew, hs, List.nil_append, decodeFrom_encode,
      List.append_nil]
  · intro cut cut' hne hne' hcut
    rw [received_decodeWrites hD hne, received_decodeWrites hD hne', hcut]

/-- A sink that keeps what it receives until it has failed. -/
def collector : AcceptingSink (List UInt8 × Bool) where
  write s buf := ((s.1 ++ buf, s.2), some buf.length)
  succeed s := s.2
  fail s := (s.1, false)
  turnOver s := (s.1, !s.2)
  received s := s.1
  whole s buf n h := by
    cases h
    rfl
  accepts s buf h := ⟨rfl, h, rfl⟩

/-- A text with two bytes that are encoded, cut inside of them. -/
theorem url_round_trip_cut :
    encodeWrites collector ([], true) [[97, 47], [0, 98]] =
      ([97, 37, 50, 70, 37, 48, 48, 98], true) ∧
    decodeToEnd collector ([], true) [[97, 37], [50], [70, 37, 48], [48, 98]] =
      [97, 47, 0, 98] ∧
    decodeToEnd collector ([], true) [[97, 37, 50]] =
      decodeToEnd collector ([], true) [[97], [37], [50]] := by
  have hboth := url_round_trip collector collector ([], true) ([], true) rfl rfl rfl
  refine ⟨by decide, ?_, ?_⟩
  · exact hboth.1 _ [[97, 47], [0, 98]] _ rfl (by decide) (by decide) (by decide)
  · exact hboth.2 _ _ (by decide) (by decide) (by decide)

/-- A write that is too large makes the destination fail, and nothing comes out. -/
theorem received_encodeWrites_large {s : List UInt8} (hlarge : maxStream < s.length) :
    collector.received (encodeWrites collector ([], true) [s]) = [] := by
  have hne : s ≠ [] := by
    rintro rfl
    exact absurd hlarge (Nat.not_lt_zero _)
  rw [encodeWrites, encodeWrite]
  simp only [if_neg hne, encodeWriteTo, if_pos hlarge]
  rfl

theorem large_write_refused :
    ¬ ∀ (s : List UInt8) (pieces cut : List (List UInt8)), pieces.flatten = s →
      cut.flatten = collector.received (encodeWrites collector ([], true) pieces) → [] ∉ cut →
      decodeToEnd collector ([], true) cut = s := by
  intro hclaim
  have hlarge : maxStream < (List.replicate (maxStream + 1) (97 : UInt8)).length := by
    rw [List.length_replicate]
    exact Nat.lt_succ_self _
  have hempty := hclaim _ [List.replicate (maxStream + 1) 97] [] List.flatten_singleton
    (received_encodeWrites_large hlarge).symm List.not_mem_nil
  rw [← hempty] at hlarge
  exact absurd hlarge (by decide)

end UrlStream

end Mantids
