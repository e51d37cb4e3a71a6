/-
# Reading a header block

A `MIME_Sub_Header` reads its block as a sub-parser in `PARSE_MODE_DELIMITER`, a line at a time, and
asks for the next sub-parser at an empty line.  Where the writes cut the block does not matter:

* `MimeSubHeader.read` — the sub-parser fed a list of writes;
* `read_block` — the options are those of the lines, and the run fails exactly at a line that does
  not fit in the buffer;
* `getOptionByName_received` — an option is found in a block that was written and read again exactly
  when it was there.
-/
import Mantids.DelimiterMode
import Mantids.MimeHeader

namespace Mantids

open Occurrence Feed

/-! ## What a write shows to `parse()` -/

namespace SubParser

variable {σ : Type*} (parse : Parse σ) (heap : ℕ → ℕ → UInt8)

/-- Storing data changes the buffer and nothing else. -/
theorem appendToUnparsedBuffer_buffer (p : SubParser σ) (buf : List UInt8) :
    ∃ c, (p.appendToUnparsedBuffer buf).1 = { p with unparsedBuffer := c } := by
  unfold appendToUnparsedBuffer
  simp only
  split
  · exact ⟨p.unparsedBuffer, rfl⟩
  split
  · exact ⟨p.unparsedBuffer, rfl⟩
  split
  · exact ⟨p.unparsedBuffer.clear, rfl⟩
  · rename_i c n _
    split
    · exact ⟨c, rfl⟩
    · exact ⟨c.clear, rfl⟩

/-- The concrete sub-parser and its status are what the last call of `parse()` made of them. -/
def Shown (p p' : SubParser σ) (b : List UInt8) : Prop :=
  p'.seen = p.seen ++ [⟨b, p.delimiterFound⟩] ∧
    ∃ st, p'.derived = (parse p.derived st ⟨b, p.delimiterFound⟩).1 ∧
      p'.parseStatus = (parse p.derived st ⟨b, p.delimiterFound⟩).2.2

theorem shown_callParse (p : SubParser σ) (c : BChunks) (b : List UInt8) :
    Shown parse p (({ p with unparsedBuffer := c } : SubParser σ).callParse parse b).clearUnparsed
      b :=
  ⟨rfl, _, rfl, rfl⟩

/-- A write in `PARSE_MODE_DELIMITER` calls `parse()` at most once. -/
theorem shown_write (p : SubParser σ) (hmode : p.parseMode = .delimiter) {buf : List UInt8}
    (hbuf : buf ≠ []) :
    ((p.write parse heap buf).1.seen = p.seen ∧ (p.write parse heap buf).1.derived = p.derived ∧
        (p.write parse heap buf).1.parseStatus = p.parseStatus) ∨
      ∃ b, Shown parse p (p.write parse heap buf).1 b := by
  obtain ⟨c, hc⟩ := p.appendToUnparsedBuffer_buffer buf
  have hwrite : (p.write parse heap buf).1 = (p.parseByDelimiter parse buf).1 := by
    simp only [write, writeIntoParser, if_neg hbuf, hmode]
  rw [hwrite, parseByDelimiter]
  rcases happ : p.appendToUnparsedBuffer buf with ⟨q, n⟩
  rw [happ] at hc
  obtain rfl : q = { p with unparsedBuffer := c } := hc
  cases n with
  | none => exact Or.inl ⟨rfl, rfl, rfl⟩
  | some n =>
      simp only
      split
      · exact Or.inr ⟨_, shown_callParse parse p c _⟩
      · split
        · exact Or.inr ⟨_, shown_callParse parse p c _⟩
        · exact Or.inl ⟨rfl, rfl, rfl⟩

/-- What a write can do to a buffer without a line break, when a line break is the delimiter. -/
inductive LineWritten (st : ParseSettings) (p : SubParser σ) (w : List UInt8) (p' : SubParser σ) :
    Option ℕ → Prop
  /-- There is no room in the buffer. -/
  | refused (hwhy : p.unparsedBuffer.getSizeLeft = 0 ∨ p.ChunkLimit w) : LineWritten st p w p' none
  /-- A line is complete. -/
  | line (q : ℕ)
      (hfirst : first [13, 10] (p.unparsedBuffer.bytes ++ w.take p.unparsedBuffer.getSizeLeft) =
        some q)
      (hfits : q + 2 ≤ st.parseDataTargetSize)
      (holds : Holds st p') (hbytes : p'.unparsedBuffer.bytes = [])
      (hshown : Shown parse p p'
        ((p.unparsedBuffer.bytes ++ w.take p.unparsedBuffer.getSizeLeft).take q)) :
      LineWritten st p w p' (some (q + 2 - p.unparsedBuffer.bytes.length))
  /-- The data is kept. -/
  | kept (hpos : w.take p.unparsedBuffer.getSizeLeft ≠ [])
      (hnone : first [13, 10] (p.unparsedBuffer.bytes ++ w.take p.unparsedBuffer.getSizeLeft) =
        none)
      (holds : Holds st p')
      (hbytes : p'.unparsedBuffer.bytes =
        p.unparsedBuffer.bytes ++ w.take p.unparsedBuffer.getSizeLeft)
      (hderived : p'.derived = p.derived) (hstatus : p'.parseStatus = p.parseStatus) :
      LineWritten st p w p' (some (w.take p.unparsedBuffer.getSizeLeft).length)

/-- The bytes up to the leftmost line break, and those that complete it. -/
theorem taken_of_line {u w : List UInt8} {left q : ℕ} (hnone : first [13, 10] u = none)
    (hfirst : first [13, 10] (u ++ w.take left) = some q) :
    u ++ w.take (q + 2 - u.length) = (u ++ w.take left).take q ++ [13, 10] ∧
      first [13, 10] ((u ++ w.take left).take q) = none ∧ q + 2 - u.length ≤ w.length := by
  have hlt := lt_of_first_append (by decide) hnone hfirst
  have hle := add_length_le_of_first (by decide) hfirst
  have htwo : [(13 : UInt8), 10].length = 2 := rfl
  rw [htwo] at hlt hle
  obtain ⟨hoccurs, hleft⟩ := (first_eq_some_iff (by decide)).mp hfirst
  refine ⟨?_, ?_, ?_⟩
  · have hpair : ((u ++ w.take left).drop q).take 2 = [13, 10] := by
      obtain ⟨r, hr⟩ := hoccurs
      rw [← hr]
      rfl
    have htake : (u ++ w.take left).take (q + 2) = u ++ w.take (q + 2 - u.length) := by
      rw [List.take_append, List.take_of_length_le hlt.le, List.take_take]
      congr 2
      rw [List.length_append, List.length_take] at hle
      omega
    rw [← htake, List.take_add, hpair]
  · rw [first_eq_none_iff (by decide)]
    intro i hi
    have hin := hi.add_length_le (by decide)
    rw [htwo, List.length_take] at hin
    refine hleft i (by omega) ?_
    rw [← List.take_append_drop q (u ++ w.take left)]
    exact hi.append (by decide) _
  · rw [List.length_append, List.length_take] at hle
    omega

theorem Holds.lineWritten {st : ParseSettings} {p : SubParser σ} {w : List UInt8} (h : Holds st p)
    (hkeep : KeepsSettings parse) (hmode : st.parseMode = .delimiter)
    (hdelim : st.parseDelimiter = [13, 10]) (hM : st.parseDataTargetSize < 2 ^ 64) (hw : w ≠ [])
    (hnone : first [13, 10] p.unparsedBuffer.bytes = none) :
    LineWritten parse st p w (p.write parse heap w).1 (p.write parse heap w).2 := by
  have hshown := shown_write parse heap p (h.parseMode.trans hmode) hw
  have hd : st.parseDelimiter ≠ [] := by rw [hdelim]; decide
  have htwo : st.parseDelimiter.length = 2 := congrArg List.length hdelim
  rcases write_delimiter_cases heap hkeep h hmode hd hM hw (by rw [hdelim]; exact hnone) with
    ⟨p', hwrite, -, hwhy⟩ | ⟨-, p', q, hfirst, hwrite, holds, hbytes, hseen⟩ |
    ⟨hleft, -, p', hfirst, hwrite, holds, hbytes, -, hseen⟩
  · rw [hwrite]
    exact .refused hwhy
  · rw [hwrite] at hshown ⊢
    have hle := add_length_le_of_first hd hfirst
    rw [hdelim] at hfirst
    rw [htwo] at hle ⊢
    refine .line q hfirst ?_ holds hbytes ?_
    · have hsize := h.size_le
      rw [List.length_append, List.length_take, h.getSizeLeft] at hle
      rw [h.size_eq] at hsize
      omega
    · rcases hshown with ⟨hsame, -⟩ | ⟨b, hb⟩
      · rw [hsame] at hseen
        exact absurd hseen (by simp)
      · have hpiece := hb.1.symm.trans hseen
        simp only [List.append_cancel_left_eq, List.cons.injEq, Seen.mk.injEq, and_true] at hpiece
        rw [← show b = _ from hpiece]
        exact hb
  · rw [hwrite] at hshown ⊢
    rw [hdelim] at hfirst
    rcases hshown with ⟨-, hderived, hstatus⟩ | ⟨b, hb⟩
    · refine .kept ?_ hfirst holds hbytes hderived hstatus
      intro hnil
      rcases List.take_eq_nil_iff.mp hnil with hzero | hnil
      · exact hleft hzero
      · exact hw hnil
    · have hsame := hb.1.symm.trans hseen
      exact absurd hsame (by simp)

/-! ### Behind the end of the stream -/

/-- The sub-parser with the mark that the stream has ended, or without it. -/
def withEnded (p : SubParser σ) (ended : Bool) : SubParser σ := { p with streamEnded := ended }

@[simp] theorem unparsedBuffer_withEnded (p : SubParser σ) (ended : Bool) :
    (p.withEnded ended).unparsedBuffer = p.unparsedBuffer := rfl

theorem withEnded_of_streamEnded {p : SubParser σ} {ended : Bool} (h : p.streamEnded = ended) :
    p.withEnded ended = p := by
  rw [← h]
  rfl

theorem appendToUnparsedBuffer_withEnded (p : SubParser σ) (ended : Bool) (buf : List UInt8) :
    (p.withEnded ended).appendToUnparsedBuffer buf =
      ((p.appendToUnparsedBuffer buf).1.withEnded ended, (p.appendToUnparsedBuffer buf).2) := by
  have hbuffer : (p.withEnded ended).unparsedBuffer = p.unparsedBuffer := rfl
  rw [appendToUnparsedBuffer, appendToUnparsedBuffer, hbuffer]
  dsimp only
  split_ifs
  · rfl
  · rfl
  rcases p.unparsedBuffer.append false (buf.take p.unparsedBuffer.getSizeLeft) with _ | ⟨c, n⟩
  · rfl
  · simp only
    split <;> rfl

/-- A piece without a line break was shown to `parse()`, and the buffer is empty. -/
structure PieceShown (st : ParseSettings) (p p' : SubParser σ) (l : List UInt8) : Prop where
  unbroken : first [13, 10] l = none
  holds : Holds st (p'.withEnded false)
  bytes : p'.unparsedBuffer.bytes = []
  shown : Shown parse p p' l

/-- What a write can do to a buffer without a line break, whether the stream has ended or not. -/
inductive PieceTaken (st : ParseSettings) (p : SubParser σ) (w : List UInt8) (p' : SubParser σ) :
    Option ℕ → Prop
  /-- There is no room in the buffer. -/
  | refused : PieceTaken st p w p' none
  /-- A line is complete. -/
  | line (l : List UInt8) (n : ℕ) (hn : n ≤ w.length) (h : PieceShown parse st p p' l)
      (hended : p'.streamEnded = p.streamEnded)
      (htaken : p.unparsedBuffer.bytes ++ w.take n = l ++ [13, 10]) :
      PieceTaken st p w p' (some n)
  /-- Behind the end of the stream everything is taken for a line. -/
  | cut (l : List UInt8) (n : ℕ) (hn : n ≤ w.length) (h : PieceShown parse st p p' l)
      (hended : p.streamEnded = true) (hne : l ≠ [])
      (htaken : p.unparsedBuffer.bytes ++ w.take n = l) : PieceTaken st p w p' (some n)
  /-- The data is kept. -/
  | kept (n : ℕ) (hn : n ≤ w.length) (hended : p'.streamEnded = p.streamEnded)
      (hnone : first [13, 10] (p.unparsedBuffer.bytes ++ w.take n) = none)
      (holds : Holds st (p'.withEnded false))
      (hbytes : p'.unparsedBuffer.bytes = p.unparsedBuffer.bytes ++ w.take n)
      (hderived : p'.derived = p.derived) (hstatus : p'.parseStatus = p.parseStatus) :
      PieceTaken st p w p' (some n)

theorem take_length_take (left : ℕ) (buf : List UInt8) :
    buf.take (buf.take left).length = buf.take left := by
  rw [List.length_take]
  rcases Nat.le_total left buf.length with hle | hle
  · rw [Nat.min_eq_left hle]
  · rw [Nat.min_eq_right hle, List.take_length, List.take_of_length_le hle]

section

variable {st : ParseSettings} {p : SubParser σ} {w : List UInt8}

/-- Before the end of the stream. -/
theorem pieceTaken_of_not_ended (h : Holds st p) (hkeep : KeepsSettings parse)
    (hmode : st.parseMode = .delimiter) (hdelim : st.parseDelimiter = [13, 10])
    (hM : st.parseDataTargetSize < 2 ^ 64) (hw : w ≠ [])
    (hnone : first [13, 10] p.unparsedBuffer.bytes = none) :
    PieceTaken parse st p w (p.write parse heap w).1 (p.write parse heap w).2 := by
  have hwritten := h.lineWritten parse heap hkeep hmode hdelim hM hw hnone
  generalize p.write parse heap w = r at hwritten ⊢
  obtain ⟨p', n⟩ := r
  have hcongr : ∀ q : SubParser σ, Holds st q → Holds st (q.withEnded false) := fun q hq =>
    ⟨hq.settings, rfl, hq.limits, hq.counted, hq.chunks, hq.size_le⟩
  cases hwritten with
  | refused => exact .refused
  | line q hfirst hfits holds hbytes hshown =>
      obtain ⟨htaken, hline, hle⟩ := taken_of_line hnone hfirst
      exact .line _ _ hle ⟨hline, hcongr p' holds, hbytes, hshown⟩
        (holds.streamEnded.trans h.streamEnded.symm) htaken
  | kept hpos hfirst holds hbytes hderived hstatus =>
      refine .kept _ (List.length_take_le' _ _) (holds.streamEnded.trans h.streamEnded.symm) ?_
        (hcongr p' holds) ?_ hderived hstatus
      · rw [take_length_take]
        exact hfirst
      · rw [take_length_take]
        exact hbytes

/-- Behind the end of the stream. -/
theorem pieceTaken_of_ended (h : Holds st (p.withEnded false)) (hended : p.streamEnded = true)
    (hkeep : KeepsSettings parse) (hmode : st.parseMode = .delimiter)
    (hdelim : st.parseDelimiter = [13, 10]) (hM : st.parseDataTargetSize < 2 ^ 64) (hw : w ≠ [])
    (hnone : first [13, 10] p.unparsedBuffer.bytes = none) :
    PieceTaken parse st p w (p.write parse heap w).1 (p.write parse heap w).2 := by
  have hd : ([13, 10] : List UInt8) ≠ [] := by decide
  have hmulti : st.parseMode ≠ .multiDelimiter := by rw [hmode]; decide
  have hwrite : p.write parse heap w =
      ((p.parseByDelimiter parse w).1, (p.parseByDelimiter parse w).2.toOption) := by
    have hmode' : p.parseMode = .delimiter := h.parseMode.trans hmode
    simp only [write, writeIntoParser, if_neg hw, hmode']
  have hback : p = (p.withEnded false).withEnded true := by
    rw [← hended]
    rfl
  have happend : p.appendToUnparsedBuffer w =
      (((p.withEnded false).appendToUnparsedBuffer w).1.withEnded true,
        ((p.withEnded false).appendToUnparsedBuffer w).2) := by
    rw [← appendToUnparsedBuffer_withEnded, ← hback]
  rw [hwrite, parseByDelimiter]
  by_cases hleft : (p.withEnded false).unparsedBuffer.getSizeLeft = 0
  · rw [happend, appendToUnparsedBuffer_full hw hleft]
    exact .refused
  by_cases hlimit : (p.withEnded false).ChunkLimit w
  · obtain ⟨c, hc⟩ := appendToUnparsedBuffer_chunkLimit h hM hw hleft hlimit
    rw [happend, hc]
    exact .refused
  obtain ⟨c, happ, hc, hbytes, -, -⟩ := appendToUnparsedBuffer_stored h hM hw hleft hlimit
  have hstored : p.appendToUnparsedBuffer w =
      ({ p with unparsedBuffer := c }, some (w.take p.unparsedBuffer.getSizeLeft).length) := by
    rw [happend, happ]
    show ({ p with unparsedBuffer := c, streamEnded := true }, _) = _
    rw [← hended]
    rfl
  have hfind : c.find p.parseDelimiter true 0 0 = first [13, 10] c.bytes := by
    rw [show p.parseDelimiter = [13, 10] from (h.parseDelimiter hmulti).trans hdelim]
    exact BChunks.find_eq_first hc.size_eq hc.counted.fits hd
  have hbuffer : c.bytes = p.unparsedBuffer.bytes ++ w.take p.unparsedBuffer.getSizeLeft := hbytes
  rw [hstored]
  cases hfirst : first [13, 10] c.bytes with
  | some q =>
      rw [hfirst] at hfind
      obtain ⟨h1, h2, -, -⟩ := hc.parsed parse hkeep (c.bytes.take q)
      rw [hbuffer] at hfirst
      obtain ⟨htaken, hline, hle⟩ := taken_of_line hnone hfirst
      have hlt := lt_of_first_append hd hnone hfirst
      have hin := add_length_le_of_first hd hfirst
      have htwo : [(13 : UInt8), 10].length = 2 := rfl
      have hcount : (subSizeT q p.unparsedBuffer.size + st.parseDelimiter.length) % 2 ^ 64 =
          q + 2 - p.unparsedBuffer.bytes.length := by
        have hsize : p.unparsedBuffer.size = p.unparsedBuffer.bytes.length := h.size_eq
        have hfits : c.size < 2 ^ 64 := hc.counted.fits
        have hcsize : c.size = c.bytes.length := hc.size_eq
        rw [← hbuffer, ← hcsize] at hin
        rw [hsize, hdelim, consumed_eq hlt.le (by omega), htwo]
      simp only [hfind]
      rw [show (({ p with unparsedBuffer := c } : SubParser σ).callParse parse
        (c.bytes.take q)).clearUnparsed.parseDelimiter = st.parseDelimiter from
          h1.parseDelimiter hmulti]
      simp only [hcount, Written.toOption]
      rw [hbuffer]
      refine .line _ _ hle ⟨hline, ?_, ?_, shown_callParse parse p c _⟩ rfl htaken
      · rw [hbuffer] at h1
        exact h1
      · have hclear := congrArg BChunks.bytes h2
        exact hclear
  | none =>
      rw [hfirst] at hfind
      obtain ⟨h1, h2, -, -⟩ := hc.parsed parse hkeep c.bytes
      simp only [hfind, hended, if_true, Written.toOption]
      rw [hbuffer] at hfirst
      refine .cut c.bytes _ (List.length_take_le' _ _)
        ⟨by rw [hbuffer]; exact hfirst, h1, ?_, shown_callParse parse p c _⟩ hended ?_ ?_
      · have hclear := congrArg BChunks.bytes h2
        exact hclear
      · rw [hbuffer]
        intro hnil
        rcases List.take_eq_nil_iff.mp (List.append_eq_nil_iff.mp hnil).2 with hzero | hnil
        · exact hleft hzero
        · exact hw hnil
      · rw [take_length_take, hbuffer]

theorem pieceTaken (h : Holds st (p.withEnded false)) (hkeep : KeepsSettings parse)
    (hmode : st.parseMode = .delimiter) (hdelim : st.parseDelimiter = [13, 10])
    (hM : st.parseDataTargetSize < 2 ^ 64) (hw : w ≠ [])
    (hnone : first [13, 10] p.unparsedBuffer.bytes = none) :
    PieceTaken parse st p w (p.write parse heap w).1 (p.write parse heap w).2 := by
  cases hended : p.streamEnded with
  | false =>
      rw [withEnded_of_streamEnded hended] at h
      exact pieceTaken_of_not_ended parse heap h hkeep hmode hdelim hM hw hnone
  | true => exact pieceTaken_of_ended parse heap h hended hkeep hmode hdelim hM hw hnone

/-- The end of the stream shows `parse()` what is in the buffer. -/
theorem pieceShown_ended (h : Holds st (p.withEnded false)) (hkeep : KeepsSettings parse)
    (hmode : st.parseMode = .delimiter) (hdelim : st.parseDelimiter = [13, 10])
    (hnone : first [13, 10] p.unparsedBuffer.bytes = none) :
    ∃ p', p.writeIntoParser parse heap [] = (p', .bytes 0) ∧
      PieceShown parse st p p' p.unparsedBuffer.bytes := by
  have hdelimiter : p.parseDelimiter = [13, 10] :=
    (h.parseDelimiter (by rw [hmode]; decide)).trans hdelim
  have hfind : p.unparsedBuffer.find p.parseDelimiter true 0 0 = none := by
    have hcounted : p.unparsedBuffer.Counted := h.counted
    have hfirst : p.unparsedBuffer.find [13, 10] true 0 0 =
        first [13, 10] p.unparsedBuffer.bytes :=
      BChunks.find_eq_first h.size_eq hcounted.fits (by decide)
    rw [hdelimiter, hfirst, hnone]
  have hmode' : p.parseMode = .delimiter := h.parseMode.trans hmode
  have hended : p.writeIntoParser parse heap [] = (p.withEnded true).parseByDelimiter parse [] := by
    rw [writeIntoParser, if_pos rfl]
    simp only [hmode', withEnded]
  obtain ⟨h1, h2, -, -⟩ := h.parsed parse hkeep p.unparsedBuffer.bytes
  refine ⟨((p.withEnded true).callParse parse p.unparsedBuffer.bytes).clearUnparsed, ?_, hnone, h1,
    ?_, shown_callParse parse (p.withEnded true) p.unparsedBuffer _⟩
  · rw [hended, parseByDelimiter, appendToUnparsedBuffer_nil]
    simp only [withEnded, hfind, if_true]
  · have hclear := congrArg BChunks.bytes h2
    exact hclear

end

end SubParser

/-! ## Lines -/

namespace MimeSubHeader

variable (tags : ℕ → List UInt8) (heap : ℕ → ℕ → UInt8)

/-- What the constructor sets: lines of at most 2 KB. -/
def settings : ParseSettings :=
  { parseMode := .delimiter, parseDelimiter := [13, 10], parseDataTargetSize := 2 * 1024 }

/-- The sub-parser asked for the next one. -/
def finished (p : SubParser MimeSubHeader) : Bool := p.parseStatus == .gotoNextSubparser

/-- A header block that arrives in the given writes. -/
def read (ws : List (List UInt8)) : Result (SubParser MimeSubHeader) UInt8 :=
  feed (SubParser.write (parse tags) heap) finished ws.flatten.length
    (SubParser.start settings {}) ws

/-- The lines of a block, and the empty one that ends it. -/
def block (lines : List (List UInt8)) : List UInt8 :=
  lines.flatMap (· ++ [13, 10]) ++ [13, 10]

theorem text_eq_block (h : MimeSubHeader) : h.text = block (h.sorted.map (·.toText)) := by
  rw [text, block, List.flatMap_map]

theorem keepsSettings_parse : SubParser.KeepsSettings (parse tags) := by
  intro h st shown
  unfold parse
  split <;> exact ⟨rfl, rfl, fun _ => rfl, fun _ => rfl⟩

/-- A line of a header block: it is not empty and not cut by a line break. -/
def Line (l : List UInt8) : Prop := l ≠ [] ∧ first [13, 10] l = none

/-- The block in front of a line break ends there. -/
theorem first_block_nil : first [13, 10] (block []) = some 0 := by decide

theorem block_cons (l : List UInt8) (lines : List (List UInt8)) :
    block (l :: lines) = l ++ 13 :: 10 :: block lines := by
  simp only [block, List.flatMap_cons, List.append_assoc, List.cons_append, List.nil_append]

theorem first_block_cons {l : List UInt8} (hl : Line l) (lines : List (List UInt8)) :
    first [13, 10] (block (l :: lines)) = some l.length := by
  rw [block_cons]
  exact first_pair (by decide) hl.2 _

/-- What is known of a run over the rest of a block: it ends at the empty line with the options of
its lines, unless a line is too long. -/
def ReadsBlock (p : SubParser MimeSubHeader) (ws : List (List UInt8))
    (r : Result (SubParser MimeSubHeader) UInt8) : Prop :=
  ∀ lines, (∀ l ∈ lines, Line l) → p.unparsedBuffer.bytes ++ ws.flatten = block lines →
    ((∀ l ∈ lines, l.length + 2 ≤ 2 * 1024) →
      r.outcome = .stopped ∧ r.final.derived = lines.foldl (parseOptionValue tags) p.derived) ∧
    ((∃ l ∈ lines, 2 * 1024 < l.length + 2) → r.outcome = .failed)

/-- A line is not the empty one that ends the block. -/
theorem parse_line {h : MimeSubHeader} {st : ParseSettings} {shown : Seen}
    (hb : shown.parsedBuffer ≠ []) :
    parse tags h st shown = (h.parseOptionValue tags shown.parsedBuffer, st, .getMoreData) :=
  if_neg hb

variable {p p' : SubParser MimeSubHeader} {w : List UInt8} {ws : List (List UInt8)}
  {r : Result (SubParser MimeSubHeader) UInt8}

/-- The state between two writes of a block. -/
structure Reading (p : SubParser MimeSubHeader) : Prop where
  holds : SubParser.Holds settings p
  unbroken : first [13, 10] p.unparsedBuffer.bytes = none
  unfinished : finished p = false

/-- What a write does to a block that is being read. -/
theorem Reading.lineWritten (h : Reading p) (hw : w ≠ []) :
    SubParser.LineWritten (parse tags) settings p w (p.write (parse tags) heap w).1
      (p.write (parse tags) heap w).2 :=
  h.holds.lineWritten (parse tags) heap (keepsSettings_parse tags) rfl rfl (by decide) hw
    h.unbroken

variable {tags}

/-- The number of bytes taken lies within the write, and the next state is again one between two
writes, unless the block has ended. -/
theorem Reading.next {n : ℕ} (h : Reading p)
    (hwrite : SubParser.LineWritten (parse tags) settings p w p' (some n)) :
    1 ≤ n ∧ n ≤ w.length ∧ (finished p' = false → Reading p') := by
  cases hwrite with
  | line q hfirst hfits holds hbytes hshown =>
      have hlt := lt_of_first_append (by decide) h.unbroken hfirst
      have hle := add_length_le_of_first (by decide) hfirst
      have htwo : [(13 : UInt8), 10].length = 2 := rfl
      rw [List.length_append, List.length_take] at hle
      refine ⟨by omega, by omega, fun hgoes => ⟨holds, ?_, hgoes⟩⟩
      rw [hbytes]
      exact first_nil (by decide)
  | kept hpos hnone holds hbytes hderived hstatus =>
      have hlen := List.length_pos_iff.mpr hpos
      refine ⟨hlen, List.length_take_le' _ _, fun hgoes => ⟨holds, ?_, hgoes⟩⟩
      rw [hbytes]
      exact hnone

/-- The leftmost line break of what arrived is the leftmost one of the block. -/
theorem first_of_line {q : ℕ} {lines : List (List UInt8)}
    (hfirst : first [13, 10] (p.unparsedBuffer.bytes ++ w.take p.unparsedBuffer.getSizeLeft) =
      some q)
    (hblock : p.unparsedBuffer.bytes ++ (w :: ws).flatten = block lines) :
    first [13, 10] (block lines) = some q := by
  rw [← hblock, ← SubParser.append_take_flatten _ _ _ p.unparsedBuffer.getSizeLeft]
  exact first_append (by decide) hfirst _

/-- The line that is complete, and what is left of the block behind it. -/
theorem rest_of_line {q : ℕ} {l rest : List UInt8} (h : Reading p)
    (hfirst : first [13, 10] (p.unparsedBuffer.bytes ++ w.take p.unparsedBuffer.getSizeLeft) =
      some q)
    (hq : q = l.length)
    (hblock : p.unparsedBuffer.bytes ++ (w :: ws).flatten = l ++ 13 :: 10 :: rest) :
    (p.unparsedBuffer.bytes ++ w.take p.unparsedBuffer.getSizeLeft).take q = l ∧
      (refeed (q + 2 - p.unparsedBuffer.bytes.length) w ws).flatten = rest := by
  have hlt := lt_of_first_append (by decide) h.unbroken hfirst
  have hle := add_length_le_of_first (by decide) hfirst
  have htwo : [(13 : UInt8), 10].length = 2 := rfl
  rw [List.length_append, List.length_take] at hle
  constructor
  · have hwhole := congrArg (List.take q) hblock
    rw [← SubParser.append_take_flatten _ _ _ p.unparsedBuffer.getSizeLeft,
      List.take_append_of_le_length (by rw [List.length_append, List.length_take]; omega),
      hq, List.take_left] at hwhole
    rw [hq]
    exact hwhole
  · rw [flatten_refeed (by omega)]
    have hdrop := congrArg (List.drop (q + 2)) hblock
    rw [List.drop_append, List.drop_eq_nil_of_le (by omega), List.nil_append] at hdrop
    rw [hdrop, hq, List.drop_append, List.drop_eq_nil_of_le (by omega), List.nil_append,
      Nat.add_sub_cancel_left]
    rfl

/-- What a complete line makes of the sub-parser. -/
theorem derived_of_line {b : List UInt8} (hshown : SubParser.Shown (parse tags) p p' b)
    (hb : b ≠ []) : p'.derived = p.derived.parseOptionValue tags b ∧ finished p' = false := by
  obtain ⟨-, st, hderived, hstatus⟩ := hshown
  rw [parse_line tags hb] at hderived hstatus
  refine ⟨hderived, ?_⟩
  rw [finished, hstatus]
  rfl

/-- What the empty line makes of it. -/
theorem derived_of_end (hshown : SubParser.Shown (parse tags) p p' []) :
    p'.derived = p.derived ∧ finished p' = true := by
  obtain ⟨-, st, hderived, hstatus⟩ := hshown
  refine ⟨hderived, ?_⟩
  rw [finished, hstatus]
  rfl

/-- A complete line takes the run on to the lines behind it. -/
theorem ReadsBlock.line {q : ℕ} (h : Reading p)
    (hfirst : first [13, 10] (p.unparsedBuffer.bytes ++ w.take p.unparsedBuffer.getSizeLeft) =
      some q)
    (hfits : q + 2 ≤ 2 * 1024) (hbytes : p'.unparsedBuffer.bytes = [])
    (hshown : SubParser.Shown (parse tags) p p'
      ((p.unparsedBuffer.bytes ++ w.take p.unparsedBuffer.getSizeLeft).take q))
    (hgoes : finished p' = false)
    (hr : ReadsBlock tags p' (refeed (q + 2 - p.unparsedBuffer.bytes.length) w ws) r)
    (calls : List (Feed.Call (SubParser MimeSubHeader) UInt8)) :
    ReadsBlock tags p (w :: ws) ⟨calls, r.final, r.outcome⟩ := by
  intro lines hlines hblock
  have hq := first_of_line hfirst hblock
  cases lines with
  | nil =>
      obtain rfl : q = 0 := Option.some.inj (hq.symm.trans first_block_nil)
      rw [List.take_zero] at hshown
      rw [(derived_of_end hshown).2] at hgoes
      cases hgoes
  | cons l lines =>
      have hl := hlines l (List.mem_cons_self ..)
      obtain rfl : q = l.length := Option.some.inj (hq.symm.trans (first_block_cons hl lines))
      rw [block_cons] at hblock
      obtain ⟨hpiece, hrest⟩ := rest_of_line h hfirst rfl hblock
      rw [hpiece] at hshown
      have hderived := (derived_of_line hshown hl.1).1
      obtain ⟨hdone, hfailed⟩ := hr lines (fun v hv => hlines v (List.mem_cons_of_mem l hv))
        (by rw [hbytes, List.nil_append, hrest])
      refine ⟨fun hshort => ?_, ?_⟩
      · rw [List.foldl_cons, ← hderived]
        exact hdone fun v hv => hshort v (List.mem_cons_of_mem l hv)
      · rintro ⟨v, hv, hlong⟩
        rcases List.mem_cons.mp hv with rfl | hv
        · omega
        · exact hfailed ⟨v, hv, hlong⟩

/-- The empty line ends the run. -/
theorem ReadsBlock.ended {q : ℕ}
    (hfirst : first [13, 10] (p.unparsedBuffer.bytes ++ w.take p.unparsedBuffer.getSizeLeft) =
      some q)
    (hshown : SubParser.Shown (parse tags) p p'
      ((p.unparsedBuffer.bytes ++ w.take p.unparsedBuffer.getSizeLeft).take q))
    (hends : finished p' = true)
    (calls : List (Feed.Call (SubParser MimeSubHeader) UInt8)) :
    ReadsBlock tags p (w :: ws) ⟨calls, p', .stopped⟩ := by
  intro lines hlines hblock
  have hq := first_of_line hfirst hblock
  cases lines with
  | nil =>
      obtain rfl : q = 0 := Option.some.inj (hq.symm.trans first_block_nil)
      rw [List.take_zero] at hshown
      exact ⟨fun _ => ⟨rfl, (derived_of_end hshown).1⟩, by simp⟩
  | cons l lines =>
      have hl := hlines l (List.mem_cons_self ..)
      obtain rfl : q = l.length := Option.some.inj (hq.symm.trans (first_block_cons hl lines))
      have hle := add_length_le_of_first (by decide) hfirst
      have hne : (p.unparsedBuffer.bytes ++ w.take p.unparsedBuffer.getSizeLeft).take l.length ≠
          [] := by
        rw [Ne, List.take_eq_nil_iff]
        rintro (hzero | hnil)
        · exact hl.1 (List.length_eq_zero_iff.mp hzero)
        · rw [hnil] at hle
          exact absurd hle (by simp)
      rw [(derived_of_line hshown hne).2] at hends
      cases hends

/-- A buffer that is full without a line break holds the start of a line that is too long. -/
theorem ReadsBlock.refused (h : Reading p)
    (hwhy : p.unparsedBuffer.getSizeLeft = 0 ∨ p.ChunkLimit w)
    (calls : List (Feed.Call (SubParser MimeSubHeader) UInt8)) (last : SubParser MimeSubHeader) :
    ReadsBlock tags p (w :: ws) ⟨calls, last, .failed⟩ := by
  have hfull : 2 * 1024 ≤ p.unparsedBuffer.bytes.length := by
    rcases hwhy with hleft | hlimit
    · rw [h.holds.getSizeLeft] at hleft
      exact Nat.sub_eq_zero_iff_le.mp hleft
    · exact absurd hlimit (h.holds.not_chunkLimit (by decide) w)
  intro lines hlines hblock
  refine ⟨fun hshort => ?_, fun _ => rfl⟩
  have hin : ∀ q, first [13, 10] (block lines) = some q → q + 2 ≤ 2 * 1024 → False := by
    intro q hq hle
    rw [← hblock] at hq
    have := lt_of_first_append (by decide) h.unbroken hq
    have htwo : [(13 : UInt8), 10].length = 2 := rfl
    omega
  cases lines with
  | nil => exact absurd (by decide) (hin 0 first_block_nil)
  | cons l lines =>
      have hl := hlines l (List.mem_cons_self ..)
      exact absurd (hshort l (List.mem_cons_self ..)) (hin _ (first_block_cons hl lines))

/-- Data without a line break stays in the buffer. -/
theorem ReadsBlock.kept
    (hbytes : p'.unparsedBuffer.bytes =
      p.unparsedBuffer.bytes ++ w.take p.unparsedBuffer.getSizeLeft)
    (hderived : p'.derived = p.derived)
    (hr : ReadsBlock tags p' (refeed (w.take p.unparsedBuffer.getSizeLeft).length w ws) r)
    (calls : List (Feed.Call (SubParser MimeSubHeader) UInt8)) :
    ReadsBlock tags p (w :: ws) ⟨calls, r.final, r.outcome⟩ := by
  intro lines hlines hblock
  have hstream : p'.unparsedBuffer.bytes ++
      (refeed (w.take p.unparsedBuffer.getSizeLeft).length w ws).flatten = block lines := by
    rw [hbytes, flatten_refeed (List.length_take_le' _ _), SubParser.append_take_flatten, hblock]
  rw [← hderived]
  exact hr lines hlines hstream

/-- A block is never complete before its empty line. -/
theorem ReadsBlock.done (h : Reading p) : ReadsBlock tags p [] ⟨[], p, .done⟩ := by
  intro lines hlines hblock
  rw [List.flatten_nil, List.append_nil] at hblock
  have hnone := h.unbroken
  rw [hblock] at hnone
  cases lines with
  | nil => rw [first_block_nil] at hnone; cases hnone
  | cons l lines =>
      rw [first_block_cons (hlines l (List.mem_cons_self ..))] at hnone
      cases hnone

/-- **Induction over a block.**  A property of the run over the rest of a block follows from what
the writes may do: nothing is left, the buffer is full, the empty line ends the run, a line is
complete, and the data is kept. -/
theorem block_induction
    (P : SubParser MimeSubHeader → List (List UInt8) → Result (SubParser MimeSubHeader) UInt8 →
      Prop)
    (done : ∀ p, Reading p → P p [] ⟨[], p, .done⟩)
    (refused : ∀ p w ws p', Reading p → p.unparsedBuffer.getSizeLeft = 0 ∨ p.ChunkLimit w →
      P p (w :: ws) ⟨[⟨p, w, ws, none⟩], p', .failed⟩)
    (ended : ∀ p w ws p' q, Reading p →
      first [13, 10] (p.unparsedBuffer.bytes ++ w.take p.unparsedBuffer.getSizeLeft) = some q →
      SubParser.Shown (parse tags) p p'
        ((p.unparsedBuffer.bytes ++ w.take p.unparsedBuffer.getSizeLeft).take q) →
      finished p' = true →
      P p (w :: ws) ⟨[⟨p, w, ws, some (q + 2 - p.unparsedBuffer.bytes.length)⟩], p', .stopped⟩)
    (line : ∀ p w ws p' q r, Reading p →
      first [13, 10] (p.unparsedBuffer.bytes ++ w.take p.unparsedBuffer.getSizeLeft) = some q →
      q + 2 ≤ 2 * 1024 → p'.unparsedBuffer.bytes = [] →
      SubParser.Shown (parse tags) p p'
        ((p.unparsedBuffer.bytes ++ w.take p.unparsedBuffer.getSizeLeft).take q) →
      finished p' = false → q + 2 - p.unparsedBuffer.bytes.length ≤ w.length →
      P p' (refeed (q + 2 - p.unparsedBuffer.bytes.length) w ws) r →
      P p (w :: ws)
        ⟨⟨p, w, ws, some (q + 2 - p.unparsedBuffer.bytes.length)⟩ :: r.calls, r.final, r.outcome⟩)
    (kept : ∀ p w ws p' r, Reading p →
      p'.unparsedBuffer.bytes = p.unparsedBuffer.bytes ++ w.take p.unparsedBuffer.getSizeLeft →
      p'.derived = p.derived →
      P p' (refeed (w.take p.unparsedBuffer.getSizeLeft).length w ws) r →
      P p (w :: ws)
        ⟨⟨p, w, ws, some (w.take p.unparsedBuffer.getSizeLeft).length⟩ :: r.calls, r.final,
          r.outcome⟩)
    (h : Reading p) (hws : ∀ w ∈ ws, w ≠ []) {fuel : ℕ} (hfuel : ws.flatten.length ≤ fuel) :
    P p ws (feed (SubParser.write (parse tags) heap) finished fuel p ws) := by
  refine feed_induction Reading (fun _ _ _ => True) P ?progress ?keeps done
    ?failed ?stopped ?next fuel p ws h hws hfuel (fun _ _ => trivial)
  case progress =>
    intro p w ws p' k h hw _ hwrite
    have hwritten := h.lineWritten tags heap hw
    rw [hwrite] at hwritten
    exact ⟨(h.next hwritten).1, (h.next hwritten).2.1⟩
  case keeps =>
    intro p w ws p' k h hw _ hwrite hgoes
    have hwritten := h.lineWritten tags heap hw
    rw [hwrite] at hwritten
    exact (h.next hwritten).2.2 hgoes
  case failed =>
    intro p w ws p' h hw _ hwrite
    have hwritten := h.lineWritten tags heap hw
    rw [hwrite] at hwritten
    cases hwritten with
    | refused hwhy => exact refused p w ws p' h hwhy
  case stopped =>
    intro p w ws p' k h hw _ hwrite hends
    have hwritten := h.lineWritten tags heap hw
    rw [hwrite] at hwritten
    cases hwritten with
    | line q hfirst _ _ _ hshown => exact ended p w ws p' q h hfirst hshown hends
    | kept _ _ _ _ _ hstatus =>
        -- the status is that of before, and that was not the end
        have hsame : finished p' = finished p := by rw [finished, hstatus, ← finished]
        rw [hsame, h.unfinished] at hends
        cases hends
  case next =>
    intro p w ws p' k r h hw _ hwrite hgoes hr
    have hwritten := h.lineWritten tags heap hw
    rw [hwrite] at hwritten
    have hle := (h.next hwritten).2.1
    cases hwritten with
    | line q hfirst hfits _ hbytes hshown =>
        exact line p w ws p' q r h hfirst hfits hbytes hshown hgoes hle hr
    | kept _ _ _ hbytes hderived _ => exact kept p w ws p' r h hbytes hderived hr

/-- The run over the rest of a block. -/
theorem readsBlock (h : Reading p) (hws : ∀ w ∈ ws, w ≠ []) {fuel : ℕ}
    (hfuel : ws.flatten.length ≤ fuel) :
    ReadsBlock tags p ws (feed (SubParser.write (parse tags) heap) finished fuel p ws) := by
  apply block_induction heap (ReadsBlock tags) ?done ?refused ?ended ?line ?kept h hws hfuel
  case done => exact fun p h => ReadsBlock.done h
  case refused => exact fun p w ws p' h hwhy => ReadsBlock.refused h hwhy _ _
  case ended =>
    intro p w ws p' q h hfirst hshown hends
    exact ReadsBlock.ended hfirst hshown hends _
  case line =>
    intro p w ws p' q r h hfirst hfits hbytes hshown hgoes _ hr
    exact ReadsBlock.line h hfirst hfits hbytes hshown hgoes hr _
  case kept =>
    intro p w ws p' r h hbytes hderived hr
    exact ReadsBlock.kept hbytes hderived hr _

variable (tags) in
/-- A block is read line by line, however it is cut into writes: unless a line is longer than the
buffer, which makes the run fail. -/
theorem read_block {lines : List (List UInt8)} (hlines : ∀ l ∈ lines, Line l)
    (hws : ∀ w ∈ ws, w ≠ []) (hblock : ws.flatten = block lines) :
    ((∀ l ∈ lines, l.length + 2 ≤ 2 * 1024) →
      (read tags heap ws).outcome = .stopped ∧
        (read tags heap ws).final.derived = lines.foldl (parseOptionValue tags) {}) ∧
    ((∃ l ∈ lines, 2 * 1024 < l.length + 2) → (read tags heap ws).outcome = .failed) := by
  have hstart : Reading (SubParser.start settings {}) :=
    ⟨SubParser.holds_start _ _, first_nil (by decide), rfl⟩
  exact readsBlock heap hstart hws le_rfl lines hlines hblock

end MimeSubHeader

/-! ## Options that are written and read again -/

namespace MimeHeaderOption

/-- The name can be told from the value, and the line is not taken for anything else. -/
structure Writable (opt : MimeHeaderOption) : Prop where
  name : first [58, 32] opt.origName = none
  start : opt.origName.head? ≠ some 32 ∧ opt.origName.head? ≠ some 9
  line : first [13, 10] opt.toText = none

/-- The option that a reader makes of the text of one. -/
def received (tag : List UInt8) (opt : MimeHeaderOption) : MimeHeaderOption :=
  ({ origName := opt.origName } : MimeHeaderOption).parseSubValues tag
    (opt.origValue.takeWhile (· ≠ 0))

theorem origName_addSubVar (opt : MimeHeaderOption) (varName varValue : List UInt8) :
    (opt.addSubVar varName varValue).origName = opt.origName ∧
      (opt.addSubVar varName varValue).origValue = opt.origValue := by
  unfold addSubVar
  repeat' split
  all_goals exact ⟨rfl, rfl⟩

theorem origName_addPart (putBack : List UInt8 → List UInt8) (opt : MimeHeaderOption)
    (value : List UInt8) : (addPart putBack opt value).origName = opt.origName ∧
      (addPart putBack opt value).origValue = opt.origValue := by
  unfold addPart
  split <;> exact origName_addSubVar ..

/-- Parsing a value sets the value as it was given and keeps the name. -/
theorem origName_parseSubValues (tag : List UInt8) (opt : MimeHeaderOption) (strName : List UInt8) :
    (opt.parseSubValues tag strName).origName = opt.origName ∧
      (opt.parseSubValues tag strName).origValue = strName := by
  have hfold : ∀ (putBack : List UInt8 → List UInt8) (vValues : List (List UInt8))
      (opt : MimeHeaderOption), (vValues.foldl (addPart putBack) opt).origName = opt.origName ∧
        (vValues.foldl (addPart putBack) opt).origValue = opt.origValue := by
    intro putBack vValues
    induction vValues with
    | nil => exact fun opt => ⟨rfl, rfl⟩
    | cons value vValues ih =>
        intro opt
        obtain ⟨hname, hvalue⟩ := ih (addPart putBack opt value)
        obtain ⟨hname', hvalue'⟩ := origName_addPart putBack opt value
        exact ⟨hname.trans hname', hvalue.trans hvalue'⟩
  unfold parseSubValues
  simp only
  split
  · exact ⟨rfl, rfl⟩
  · obtain ⟨hname, hvalue⟩ := hfold _ _ _
    obtain ⟨hname', hvalue'⟩ := origName_addPart _ _ _
    exact ⟨hname.trans hname', hvalue.trans hvalue'⟩

theorem getUpperName_received (tag : List UInt8) (opt : MimeHeaderOption) :
    (opt.received tag).getUpperName = opt.getUpperName := by
  rw [getUpperName, received, (origName_parseSubValues ..).1, getUpperName]

/-- The text of an option is one line. -/
theorem Writable.toText {opt : MimeHeaderOption} (h : Writable opt) :
    MimeSubHeader.Line opt.toText :=
  ⟨by simp [MimeHeaderOption.toText], h.line⟩

end MimeHeaderOption

namespace MimeSubHeader

open MimeHeaderOption

variable {h : MimeSubHeader} (tags : ℕ → List UInt8)

/-- A new option is the last one. -/
theorem add_of_room (hroom : h.headers.length < h.maxOptions)
    (optionName optionValue : List UInt8) :
    (h.add tags optionName optionValue).1 =
      { h with
        headers := h.headers ++ [(h.made,
          ({ origName := optionName } : MimeHeaderOption).parseSubValues (tags h.drawn)
            optionValue)]
        lastOpt := some h.made
        made := h.made + 1
        drawn := h.drawn + 1 } := by
  rw [add, if_neg hroom.ne]

/-- The line of an option adds the option that a reader makes of it. -/
theorem parseOptionValue_toText {opt : MimeHeaderOption} (hopt : opt.Writable) :
    h.parseOptionValue tags opt.toText =
      (h.add tags opt.origName (opt.origValue.takeWhile (· ≠ 0))).1 := by
  have hfirst : first [58, 32] opt.toText = some opt.origName.length := by
    have hpair := first_pair (by decide) hopt.name opt.origValue
    rwa [MimeHeaderOption.toText, List.append_assoc]
  have hhead : ¬ (opt.toText.head? = some 32 ∨ opt.toText.head? = some 9) := by
    rw [MimeHeaderOption.toText, List.append_assoc]
    cases hname : opt.origName with
    | nil => simp
    | cons c name =>
        have hstart := hopt.start
        rw [hname] at hstart
        exact not_or.mpr hstart
  rw [parseOptionValue, if_neg hhead, hfirst]
  simp only [MimeHeaderOption.toText, List.append_assoc, List.take_left]
  rw [List.drop_append, List.drop_eq_nil_of_le (by omega), List.nil_append,
    Nat.add_sub_cancel_left]
  rfl

/-- The options that are read are those that were written, in their order. -/
theorem foldl_parseOptionValue {opts : List MimeHeaderOption} (hopts : ∀ o ∈ opts, o.Writable)
    (hroom : h.headers.length + opts.length ≤ h.maxOptions) :
    ((opts.map (·.toText)).foldl (parseOptionValue tags) h).headers.map (·.2) =
      h.headers.map (·.2) ++
        (opts.zipIdx h.drawn).map (fun o => o.1.received (tags o.2)) := by
  induction opts generalizing h with
  | nil => simp
  | cons opt opts ih =>
      rw [List.length_cons] at hroom
      rw [List.map_cons, List.foldl_cons, parseOptionValue_toText tags (hopts opt (by simp)),
        add_of_room tags (by omega), ih (fun o ho => hopts o (List.mem_cons_of_mem opt ho))]
      · rw [List.map_append, List.append_assoc, List.zipIdx_cons, List.map_cons]
        rfl
      · simp only [List.length_append, List.length_singleton]
        omega

/-- The number of the tag under which an option was read. -/
theorem find?_received (p : MimeHeaderOption → Bool)
    (hp : ∀ tag opt, p (received tag opt) = p opt) (opts : List MimeHeaderOption) (k : ℕ) :
    ∃ i, ((opts.zipIdx k).map fun o => o.1.received (tags o.2)).find? p =
      (opts.find? p).map (received (tags i)) := by
  induction opts generalizing k with
  | nil => exact ⟨0, rfl⟩
  | cons opt opts ih =>
      rw [List.zipIdx_cons, List.map_cons, List.find?_cons, List.find?_cons, hp]
      cases p opt with
      | true => exact ⟨k, rfl⟩
      | false => exact ih (k + 1)

/-- Sorting does not move options of one name past each other. -/
theorem find?_sorted (h : MimeSubHeader) (name : List UInt8) :
    h.sorted.find? (fun opt => opt.getUpperName = name) =
      (h.headers.map (·.2)).find? (fun opt => opt.getUpperName = name) := by
  have hsub : ((h.headers.map (·.2)).filter fun opt => opt.getUpperName = name).Sublist
      h.sorted := by
    refine List.sublist_insertionSort ?_ List.filter_sublist
    refine List.pairwise_of_forall_mem_list ?_
    intro a ha b hb
    rw [List.mem_filter, decide_eq_true_eq] at ha hb
    rw [ha.2, hb.2]
    exact List.le_refl name
  have hfilter := hsub.filter (fun opt => decide (opt.getUpperName = name))
  rw [List.filter_filter] at hfilter
  simp only [Bool.and_self] at hfilter
  have hperm : h.sorted.Perm (h.headers.map (·.2)) := List.perm_insertionSort _ _
  have heq := hfilter.eq_of_length (hperm.filter _).length_eq.symm
  rw [← List.head?_filter, ← List.head?_filter, heq]

theorem getOptionByName_eq_sorted (h : MimeSubHeader) (name : List UInt8) :
    h.getOptionByName name = h.sorted.find? (fun opt => opt.getUpperName = toUpperBytes name) :=
  (find?_sorted h _).symm

theorem mem_sorted {h : MimeSubHeader} {opt : MimeHeaderOption} :
    opt ∈ h.sorted ↔ ∃ o ∈ h.headers, o.2 = opt := by
  rw [sorted, List.mem_insertionSort, List.mem_map]

theorem length_sorted (h : MimeSubHeader) : h.sorted.length = h.headers.length := by
  rw [sorted, List.length_insertionSort, List.length_map]

/-- What a reader finds under a name in the lines of a block. -/
theorem getOptionByName_lines {h : MimeSubHeader} (hopts : ∀ o ∈ h.headers, o.2.Writable)
    (hroom : h.headers.length ≤ 32) (name : List UInt8) :
    ∃ i, ((h.sorted.map (·.toText)).foldl (parseOptionValue tags) {}).getOptionByName name =
      (h.getOptionByName name).map (received (tags i)) := by
  have hwritable : ∀ opt ∈ h.sorted, opt.Writable := by
    intro opt hopt
    obtain ⟨o, ho, rfl⟩ := mem_sorted.mp hopt
    exact hopts o ho
  have hlength : h.sorted.length ≤ 32 := by
    rw [length_sorted]
    exact hroom
  have hheaders := foldl_parseOptionValue tags (h := {}) hwritable (by
    rw [List.length_nil, Nat.zero_add]
    exact hlength)
  obtain ⟨i, hi⟩ := find?_received tags (fun opt => opt.getUpperName = toUpperBytes name)
    (fun tag opt => by rw [getUpperName_received]) h.sorted 0
  refine ⟨i, ?_⟩
  rw [getOptionByName, hheaders, getOptionByName_eq_sorted, ← hi]
  rfl

/-- **Writing and reading a header block.**  The text of options that can be told apart, in whatever
writes it arrives, is read as a block with the same options, as long as there are no more than the
reader keeps and every line fits in its buffer; if a line does not, the run fails. -/
theorem read_text {h : MimeSubHeader} (heap : ℕ → ℕ → UInt8)
    (hopts : ∀ o ∈ h.headers, o.2.Writable) (hroom : h.headers.length ≤ 32)
    {ws : List (List UInt8)} (hws : ∀ w ∈ ws, w ≠ []) (htext : ws.flatten = h.text) :
    ((∀ o ∈ h.headers, o.2.toText.length + 2 ≤ 2 * 1024) →
      (read tags heap ws).outcome = .stopped ∧
        ∀ name, ∃ i, (read tags heap ws).final.derived.getOptionByName name =
          (h.getOptionByName name).map (received (tags i))) ∧
    ((∃ o ∈ h.headers, 2 * 1024 < o.2.toText.length + 2) →
      (read tags heap ws).outcome = .failed) := by
  have hwritable : ∀ opt ∈ h.sorted, opt.Writable := by
    intro opt hopt
    obtain ⟨o, ho, rfl⟩ := mem_sorted.mp hopt
    exact hopts o ho
  have hlines : ∀ l ∈ h.sorted.map (·.toText), Line l := by
    intro l hl
    obtain ⟨opt, hopt, rfl⟩ := List.mem_map.mp hl
    exact (hwritable opt hopt).toText
  obtain ⟨hread, hfail⟩ := read_block tags heap hlines hws (htext.trans (text_eq_block h))
  constructor
  · intro hfits
    obtain ⟨hstopped, hderived⟩ := hread (by
      intro l hl
      obtain ⟨opt, hopt, rfl⟩ := List.mem_map.mp hl
      obtain ⟨o, ho, rfl⟩ := mem_sorted.mp hopt
      exact hfits o ho)
    refine ⟨hstopped, fun name => ?_⟩
    rw [hderived]
    exact getOptionByName_lines tags hopts hroom name
  · rintro ⟨o, ho, hlong⟩
    exact hfail ⟨o.2.toText, List.mem_map_of_mem (mem_sorted.mpr ⟨o, ho, rfl⟩), hlong⟩

/-! ## Options of other names -/

theorem getOptionByName_remove {optionName varName : List UInt8}
    (hne : toUpperBytes varName ≠ toUpperBytes optionName) (h : MimeSubHeader) :
    (h.remove optionName).getOptionByName varName = h.getOptionByName varName := by
  simp only [getOptionByName, remove, List.find?_map, List.find?_filter]
  congr 2
  funext o
  by_cases hname : o.2.getUpperName = toUpperBytes varName
  · simp [hname, hne]
  · simp [hname]

theorem getOptionByName_add {optionName varName : List UInt8}
    (hne : toUpperBytes varName ≠ toUpperBytes optionName) (h : MimeSubHeader)
    (optionValue : List UInt8) :
    (h.add tags optionName optionValue).1.getOptionByName varName = h.getOptionByName varName := by
  unfold add
  split
  · rfl
  · have hother : (({ origName := optionName } : MimeHeaderOption).parseSubValues (tags h.drawn)
        optionValue).getUpperName ≠ toUpperBytes varName := by
      rw [getUpperName, (origName_parseSubValues ..).1]
      exact hne.symm
    simp [getOptionByName, List.find?_append, hother]

theorem getOptionByName_replace {optionName varName : List UInt8}
    (hne : toUpperBytes varName ≠ toUpperBytes optionName) (h : MimeSubHeader)
    (optionValue : List UInt8) :
    (h.replace tags optionName optionValue).getOptionByName varName =
      h.getOptionByName varName := by
  rw [replace, getOptionByName_add tags hne, getOptionByName_remove hne]

/-- A property of the options that a new one has as well is kept, and there are no more options than
the block keeps. -/
structure Keeps (P : MimeHeaderOption → Prop) (h : MimeSubHeader) : Prop where
  options : ∀ o ∈ h.headers, P o.2
  room : h.headers.length ≤ h.maxOptions

theorem Keeps.remove {P : MimeHeaderOption → Prop} {h : MimeSubHeader} (hP : Keeps P h)
    (optionName : List UInt8) : Keeps P (h.remove optionName) where
  options o ho := hP.options o (List.mem_of_mem_filter ho)
  room := (List.length_filter_le _ _).trans hP.room

theorem Keeps.add {P : MimeHeaderOption → Prop} {h : MimeSubHeader} (hP : Keeps P h)
    {optionName optionValue : List UInt8}
    (hnew : ∀ tag, P (({ origName := optionName } : MimeHeaderOption).parseSubValues tag
      optionValue)) : Keeps P (h.add tags optionName optionValue).1 := by
  unfold MimeSubHeader.add
  split
  · exact hP
  · rename_i hroom
    have hle := hP.room
    refine ⟨?_, ?_⟩
    · intro o ho
      rcases List.mem_append.mp ho with ho | ho
      · exact hP.options o ho
      · rw [List.mem_singleton.mp ho]
        exact hnew _
    · simp only [List.length_append, List.length_singleton]
      omega

theorem Keeps.replace {P : MimeHeaderOption → Prop} {h : MimeSubHeader} (hP : Keeps P h)
    {optionName optionValue : List UInt8}
    (hnew : ∀ tag, P (({ origName := optionName } : MimeHeaderOption).parseSubValues tag
      optionValue)) : Keeps P (h.replace tags optionName optionValue) :=
  (hP.remove optionName).add tags hnew

@[simp] theorem maxOptions_remove (h : MimeSubHeader) (optionName : List UInt8) :
    (h.remove optionName).maxOptions = h.maxOptions := rfl

@[simp] theorem maxOptions_add (h : MimeSubHeader) (optionName optionValue : List UInt8) :
    (h.add tags optionName optionValue).1.maxOptions = h.maxOptions := by
  unfold add
  split <;> rfl

@[simp] theorem maxOptions_replace (h : MimeSubHeader) (optionName optionValue : List UInt8) :
    (h.replace tags optionName optionValue).maxOptions = h.maxOptions := by
  rw [replace, maxOptions_add, maxOptions_remove]

end MimeSubHeader

end Mantids
