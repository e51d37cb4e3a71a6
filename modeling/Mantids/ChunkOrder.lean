/-
# What append and prepend do to the content

`B_Chunks::append2` cuts its data into pieces of at most `m_maxChunkSize` bytes.  At the end of the
vector the pieces stay in order; at its front each piece is put before the one that was put there
just before.

* `pieces` — the pieces that are stored, before the vector is full;
* `bytes_append2Loop` — the content after the loop, in both modes;
* `AppendsExactly`, `PrependsExactly` — the content becomes what the result says;
* `append_prepend_iff` — when it does.
-/
import Mantids.Spill

namespace Mantids

namespace SpillingChunks

open BChunks

/-! ## The pieces -/

/-- The first pieces of a buffer, at most `n` of them. -/
def pieces (maxChunkSize : ℕ) : ℕ → List UInt8 → List (List UInt8)
  | 0, _ => []
  | n + 1, buf =>
    if buf = [] then []
    else buf.take maxChunkSize :: pieces maxChunkSize n (buf.drop maxChunkSize)

/-- The pieces of the data that the vector has room for. -/
def stored (c : BChunks) (buf : List UInt8) : List (List UInt8) :=
  pieces c.maxChunkSize (c.maxChunks - c.chunksVector.length) buf

theorem flatten_pieces (k n : ℕ) (buf : List UInt8) :
    (pieces k n buf).flatten = buf.take (n * k) := by
  induction n generalizing buf with
  | zero => simp [pieces]
  | succ n ih =>
      unfold pieces
      by_cases hbuf : buf = []
      · rw [if_pos hbuf, hbuf, List.take_nil, List.flatten_nil]
      · rw [if_neg hbuf, List.flatten_cons, ih, Nat.succ_mul, Nat.add_comm, List.take_add]

/-- The stored bytes are the first ones of the buffer. -/
theorem flatten_stored (c : BChunks) (buf : List UInt8) :
    (stored c buf).flatten = buf.take (stored c buf).flatten.length := by
  rw [stored, flatten_pieces, List.length_take, ← List.take_eq_take_min]

/-! ## The content after the loop -/

/-- The content with the pieces behind or in front of it. -/
def grown (prependMode : Bool) (content : List UInt8) (ps : List (List UInt8)) : List UInt8 :=
  if prependMode then ps.reverse.flatten ++ content else content ++ ps.flatten

theorem grown_cons (p : Bool) (c : BChunks) (data : List UInt8) (ps : List (List UInt8)) :
    grown p (c.putChunk p data).bytes ps = grown p c.bytes (data :: ps) := by
  cases p with
  | false => simp [grown, putChunk, BChunks.bytes]
  | true => simp [grown, putChunk, BChunks.bytes]

/-- **The loop stores the pieces.**  It has enough turns for as many as the vector has room for. -/
theorem bytes_append2Loop (p : Bool) (fuel : ℕ) (c : BChunks) (buf : List UInt8) (n : ℕ)
    (hfuel : c.maxChunks - c.chunksVector.length < fuel) :
    (append2Loop p fuel c buf n).1.bytes = grown p c.bytes (stored c buf) ∧
      (append2Loop p fuel c buf n).2 = n + (stored c buf).flatten.length := by
  induction fuel generalizing c buf n with
  | zero => exact absurd hfuel (Nat.not_lt_zero _)
  | succ fuel ih =>
      have hnil : ∀ ps : List (List UInt8), ps = [] → grown p c.bytes ps = c.bytes := by
        rintro ps rfl
        cases p <;> simp [grown]
      unfold append2Loop
      by_cases hbuf : buf = []
      · have hstored : stored c buf = [] := by
          unfold stored
          cases c.maxChunks - c.chunksVector.length with
          | zero => rfl
          | succ k => rw [pieces, if_pos hbuf]
        rw [if_pos hbuf, hstored, hnil [] rfl]
        cases p with
        | false => exact ⟨rfl, rfl⟩
        | true => exact ⟨bytes_recalcChunkOffsets c, rfl⟩
      · rw [if_neg hbuf]
        by_cases hfull : c.maxChunks < c.chunksVector.length + 1
        · have hstored : stored c buf = [] := by
            rw [stored, Nat.sub_eq_zero_of_le (by omega)]
            rfl
          rw [if_pos hfull, hstored, hnil [] rfl]
          exact ⟨rfl, rfl⟩
        · rw [if_neg hfull]
          have hlen : (c.putChunk p (buf.take c.maxChunkSize)).chunksVector.length =
              c.chunksVector.length + 1 := by
            cases p <;> simp [putChunk]
          have hmax : (c.putChunk p (buf.take c.maxChunkSize)).maxChunks = c.maxChunks := rfl
          obtain ⟨hbytes, hcount⟩ := ih (c.putChunk p (buf.take c.maxChunkSize))
            (buf.drop c.maxChunkSize) (n + (buf.take c.maxChunkSize).length)
            (by rw [hlen, hmax]; omega)
          -- The first piece, and those of the rest of the buffer.
          have hstored : stored c buf = buf.take c.maxChunkSize ::
              stored (c.putChunk p (buf.take c.maxChunkSize)) (buf.drop c.maxChunkSize) := by
            unfold stored
            rw [hlen, hmax, show c.maxChunks - c.chunksVector.length =
              (c.maxChunks - (c.chunksVector.length + 1)) + 1 from by omega, pieces, if_neg hbuf]
            rfl
          rw [hbytes, hcount, hstored, grown_cons, List.flatten_cons, List.length_append]
          exact ⟨rfl, by omega⟩

/-! ## What the result says -/

/-- The content after a call, against its result and the content that the result stands for. -/
def Agrees (call : Option (SpillingChunks × Option ℕ)) (content : List UInt8)
    (become : ℕ → List UInt8) : Prop :=
  ∃ c' r, call = some (c', r) ∧
    match r with
    | some n => c'.bytes = become n
    | none => c'.bytes = content

/-- The content becomes the old one and the first bytes of the buffer, as many as `append` says. -/
def AppendsExactly (c : BChunks) (buf : List UInt8) : Prop :=
  Agrees (append ⟨c, none⟩ buf) c.bytes (fun n => c.bytes ++ buf.take n)

/-- The content becomes the first bytes of the buffer, as many as `prepend` says, and the old one.
-/
def PrependsExactly (c : BChunks) (buf : List UInt8) : Prop :=
  Agrees (prepend ⟨c, none⟩ buf) c.bytes (fun n => buf.take n ++ c.bytes)

/-- The data would exceed what is kept in memory. -/
def Exceeds (c : BChunks) (buf : List UInt8) : Prop :=
  ¬ (c.maxSizeInMemoryBeforeMovingToDisk = 0 ∨
    buf.length + c.size ≤ c.maxSizeInMemoryBeforeMovingToDisk)

/-- The pieces spell the same in reverse order. -/
def InOrder (c : BChunks) (buf : List UInt8) : Prop :=
  (stored c buf).reverse.flatten = (stored c buf).flatten

/-- A call that moves the bytes to disk: they cannot be read any more, and no call that stores
something says so. -/
theorem agrees_spill_iff {c : BChunks} {buf : List UInt8} {p : Bool} (h : Accepted c buf)
    (become : ℕ → List UInt8) (hne : become buf.length ≠ []) :
    Agrees (spill c buf p) c.bytes become ↔ copyToFS c = none := by
  constructor
  · rintro ⟨c', r, hspill, hagrees⟩
    cases hcopy : copyToFS c with
    | none => rfl
    | some m =>
        -- The file is new, so it takes the data, and shows nothing.
        have hm := memSize_copyToFS hcopy
        have hsize : m.size = 0 := hm
        have hfits : checkUIntOverflowSum buf.length m.size = false :=
          checkUIntOverflowSum_eq_false (by have := h.2.1; omega)
        have hcount : r = some buf.length := by
          rcases spill_cases h.1 hspill with hnone | ⟨hcount, -⟩
          · exfalso
            rw [hnone] at hspill
            unfold spill at hspill
            rw [hcopy] at hspill
            cases p with
            | false =>
                simp only [Bool.false_eq_true, if_false, Option.some.injEq, Prod.mk.injEq] at hspill
                have hres := hspill.2
                unfold BMmap.append BBase.append at hres
                rw [hfits, if_neg Bool.false_ne_true, if_neg (by have := h.2.1; omega),
                  if_neg h.1] at hres
                cases hres
            | true =>
                simp only [if_true, Option.map_eq_some_iff, Prod.mk.injEq] at hspill
                obtain ⟨⟨m', r'⟩, hres, -, hr⟩ := hspill
                unfold BMmap.prepend BBase.prepend at hres
                rw [hfits, if_neg Bool.false_ne_true, if_neg (by have := h.2.1; omega),
                  if_neg h.1] at hres
                obtain ⟨f, -, hf⟩ := Option.map_eq_some_iff.mp hres
                cases hf
                cases hr
          · exact hcount
        rw [hcount] at hspill hagrees
        rcases spill_cases h.1 hspill with hnone | ⟨-, hbytes⟩
        · cases hnone
        · exact absurd (hagrees.symm.trans hbytes) hne
  · intro hcopy
    refine ⟨⟨c, none⟩, none, ?_, rfl⟩
    rw [spill, hcopy]

/-- A call that stays in memory. -/
theorem agrees_loop_iff {c : BChunks} {buf : List UInt8} (p : Bool) (content : List UInt8)
    (become : ℕ → List UInt8) {call : Option (SpillingChunks × Option ℕ)}
    (hcall : call = some
      (⟨withLimit c.maxSizeInMemoryBeforeMovingToDisk
        (append2Loop p (c.maxChunks + 1) c buf 0).1, none⟩,
        some (append2Loop p (c.maxChunks + 1) c buf 0).2)) :
    Agrees call content become ↔
      grown p c.bytes (stored c buf) = become (stored c buf).flatten.length := by
  obtain ⟨hbytes, hcount⟩ := bytes_append2Loop p (c.maxChunks + 1) c buf 0
    (Nat.lt_succ_of_le (Nat.sub_le _ _))
  rw [Nat.zero_add] at hcount
  rw [hcall, hcount, ← hbytes]
  constructor
  · rintro ⟨c', r, hres, hagrees⟩
    cases hres
    exact hagrees
  · intro h
    exact ⟨_, _, rfl, h⟩

section

variable {c : BChunks} {buf : List UInt8} (h : Accepted c buf)

include h

theorem append_of_not_exceeds (hmem : ¬ Exceeds c buf) :
    append ⟨c, none⟩ buf = some
      (⟨withLimit c.maxSizeInMemoryBeforeMovingToDisk
        (append2Loop false (c.maxChunks + 1) c buf 0).1, none⟩,
        some (append2Loop false (c.maxChunks + 1) c buf 0).2) := by
  have hloop : c.append true buf = _ :=
    (append_of_accepted h c.maxSizeInMemoryBeforeMovingToDisk).trans
      (append2_of_accepted h (not_not.mp hmem) false)
  simp only [append, hloop]

theorem append_of_exceeds (hmem : Exceeds c buf) : append ⟨c, none⟩ buf = spill c buf false := by
  have hnone : c.append true buf = none :=
    (append_of_accepted h c.maxSizeInMemoryBeforeMovingToDisk).trans
      (append2_of_exceeded h hmem false)
  simp only [append, hnone]

theorem prepend_of_not_exceeds (hmem : ¬ Exceeds c buf) :
    prepend ⟨c, none⟩ buf = some
      (⟨withLimit c.maxSizeInMemoryBeforeMovingToDisk
        (append2Loop true (c.maxChunks + 1) c buf 0).1, none⟩,
        some (append2Loop true (c.maxChunks + 1) c buf 0).2) := by
  have hloop : c.prepend true buf = _ :=
    (prepend_of_accepted h c.maxSizeInMemoryBeforeMovingToDisk).trans
      (append2_of_accepted h (not_not.mp hmem) true)
  simp only [prepend, hloop]

theorem prepend_of_exceeds (hmem : Exceeds c buf) : prepend ⟨c, none⟩ buf = spill c buf true := by
  have hnone : c.prepend true buf = none :=
    (prepend_of_accepted h c.maxSizeInMemoryBeforeMovingToDisk).trans
      (append2_of_exceeded h hmem true)
  simp only [prepend, hnone]

end

/-! ## When the result is right -/

theorem appendsExactly_iff (c : BChunks) (buf : List UInt8) :
    AppendsExactly c buf ↔ (Accepted c buf → Exceeds c buf → copyToFS c = none) := by
  by_cases h : Accepted c buf
  · by_cases hmem : Exceeds c buf
    · rw [AppendsExactly, append_of_exceeds h hmem,
        agrees_spill_iff h _ (by simp [List.take_length, h.1])]
      exact ⟨fun hcopy _ _ => hcopy, fun hcopy => hcopy h hmem⟩
    · rw [AppendsExactly, agrees_loop_iff false _ _ (append_of_not_exceeds h hmem)]
      -- At the end of the vector the pieces are in order.
      refine iff_of_true ?_ (fun _ hmem' => absurd hmem' hmem)
      rw [← flatten_stored]
      rfl
  · have hnone : c.append true buf = some (c, none) :=
      append_of_not_accepted h c.maxSizeInMemoryBeforeMovingToDisk
    refine iff_of_true ⟨⟨c, none⟩, none, ?_, rfl⟩ (fun hacc => absurd hacc h)
    simp only [append, hnone]

theorem prependsExactly_iff (c : BChunks) (buf : List UInt8) :
    PrependsExactly c buf ↔ (Accepted c buf →
      (Exceeds c buf ∧ copyToFS c = none) ∨ (¬ Exceeds c buf ∧ InOrder c buf)) := by
  by_cases h : Accepted c buf
  · by_cases hmem : Exceeds c buf
    · rw [PrependsExactly, prepend_of_exceeds h hmem,
        agrees_spill_iff h _ (by simp [List.take_length, h.1])]
      constructor
      · exact fun hcopy _ => Or.inl ⟨hmem, hcopy⟩
      · intro hcond
        rcases hcond h with ⟨-, hcopy⟩ | ⟨hno, -⟩
        · exact hcopy
        · exact absurd hmem hno
    · rw [PrependsExactly, agrees_loop_iff true _ _ (prepend_of_not_exceeds h hmem),
        ← flatten_stored]
      have happend : grown true c.bytes (stored c buf) = (stored c buf).flatten ++ c.bytes ↔
          InOrder c buf := List.append_left_inj c.bytes
      rw [happend]
      constructor
      · exact fun horder _ => Or.inr ⟨hmem, horder⟩
      · intro hcond
        rcases hcond h with ⟨hyes, -⟩ | ⟨-, horder⟩
        · exact absurd hyes hmem
        · exact horder
  · refine iff_of_true ?_ (fun hacc => absurd hacc h)
    -- Nothing is stored: the data is refused, or there is none.
    have hcall : c.prepend true buf = some (c, none) ∨ c.prepend true buf = some (c, some 0) := by
      unfold BChunks.prepend
      by_cases hov : checkUIntOverflowSum buf.length c.size = true
      · exact Or.inl (by rw [if_pos hov])
      · rw [checkUIntOverflowSum_iff] at hov
        rw [checkUIntOverflowSum_eq_false (by omega), if_neg Bool.false_ne_true]
        by_cases hmax : c.maxSize < buf.length + c.size
        · exact Or.inl (by rw [if_pos hmax])
        · have hbuf : buf = [] := by
            by_contra hbuf
            exact h ⟨hbuf, by omega, by omega⟩
          exact Or.inr (by rw [if_neg hmax, if_pos hbuf])
    rcases hcall with hcall | hcall
    · exact ⟨⟨c, none⟩, none, by simp only [prepend, hcall], rfl⟩
    · exact ⟨⟨c, none⟩, some 0, by simp only [prepend, hcall], rfl⟩

/-- **When append and prepend do what their result says.**  For every container in memory and every
buffer: `append` does, unless the bytes are moved to disk.  `prepend` does exactly if they are not,
and the pieces that are stored spell the same in reverse order. -/
theorem append_prepend_iff (c : BChunks) (buf : List UInt8) :
    (AppendsExactly c buf ↔ (Accepted c buf → Exceeds c buf → copyToFS c = none)) ∧
    (PrependsExactly c buf ↔ (Accepted c buf →
      (Exceeds c buf ∧ copyToFS c = none) ∨ (¬ Exceeds c buf ∧ InOrder c buf))) :=
  ⟨appendsExactly_iff c buf, prependsExactly_iff c buf⟩

/-- Two bytes in front of a container with chunks of one byte: they come out in reverse order. -/
theorem prepended_in_reverse :
    prepend ⟨{ maxChunkSize := 1, maxChunks := 8 }, none⟩ [97, 98] = some
      (⟨{
        maxChunkSize := 1
        maxChunks := 8
        containerBytes := 2
        chunksVector := [{ data := [98], offset := 1 }, { data := [97] }] }, none⟩, some 2) ∧
    ¬ PrependsExactly { maxChunkSize := 1, maxChunks := 8 } [97, 98] := by
  refine ⟨by decide, ?_⟩
  rintro ⟨c', r, hcall, hagrees⟩
  cases hcall
  exact absurd hagrees (by decide)

end SpillingChunks

end Mantids
