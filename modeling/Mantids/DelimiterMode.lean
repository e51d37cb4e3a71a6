/-
# Parsing up to a delimiter

A stream reaches a sub-parser cut into writes at arbitrary places.  In
`PARSE_MODE_DELIMITER` the cuts do not matter: `delimiter_segmentation` says that
`parse()` is shown the pieces between leftmost occurrences of the delimiter.  The run
fails exactly at a piece that is not ended within the target size, or whose writes use
up the chunks of the buffer.
-/
import Mantids.SubParser

namespace Mantids

open Occurrence Feed

namespace SubParser

variable {σ : Type*} {parse : Parse σ} (heap : ℕ → ℕ → UInt8)

/-- Where a stream is cut by a single delimiter. -/
def cut (d s : List UInt8) : Option (ℕ × List UInt8) := (first d s).map (fun p => (p, d))

variable {st : ParseSettings} {p : SubParser σ} {w d : List UInt8}

/-- What a write in `PARSE_MODE_DELIMITER` does to a buffer without a delimiter. -/
theorem write_delimiter_cases (hkeep : KeepsSettings parse) (h : Holds st p)
    (hmode : st.parseMode = .delimiter) (hd : st.parseDelimiter ≠ [])
    (hM : st.parseDataTargetSize < 2 ^ 64) (hw : w ≠ [])
    (hnone : first st.parseDelimiter p.unparsedBuffer.bytes = none) :
    (∃ p', p.write parse heap w = (p', none) ∧ p'.seen = p.seen ∧
        (p.unparsedBuffer.getSizeLeft = 0 ∨ p.ChunkLimit w)) ∨
      (¬ p.ChunkLimit w ∧ ∃ p' q,
        first st.parseDelimiter (p.unparsedBuffer.bytes ++ w.take p.unparsedBuffer.getSizeLeft) =
          some q ∧
        p.write parse heap w =
          (p', some (q + st.parseDelimiter.length - p.unparsedBuffer.bytes.length)) ∧
        Holds st p' ∧ p'.unparsedBuffer.bytes = [] ∧
        p'.seen = p.seen ++
          [⟨(p.unparsedBuffer.bytes ++ w.take p.unparsedBuffer.getSizeLeft).take q,
            p.delimiterFound⟩]) ∨
      (p.unparsedBuffer.getSizeLeft ≠ 0 ∧ ¬ p.ChunkLimit w ∧ ∃ p',
        first st.parseDelimiter (p.unparsedBuffer.bytes ++ w.take p.unparsedBuffer.getSizeLeft) =
          none ∧
        p.write parse heap w = (p', some (w.take p.unparsedBuffer.getSizeLeft).length) ∧
        Holds st p' ∧
        p'.unparsedBuffer.bytes = p.unparsedBuffer.bytes ++ w.take p.unparsedBuffer.getSizeLeft ∧
        p'.unparsedBuffer.chunksVector.length = p.unparsedBuffer.chunksVector.length +
          p.unparsedBuffer.chunksFor (w.take p.unparsedBuffer.getSizeLeft).length ∧
        p'.seen = p.seen) := by
  have hwrite : p.write parse heap w =
      ((p.parseByDelimiter parse w).1, (p.parseByDelimiter parse w).2.toOption) := by
    simp only [write, writeIntoParser, if_neg hw, h.parseMode, hmode]
  by_cases hleft : p.unparsedBuffer.getSizeLeft = 0
  · refine Or.inl ⟨p, ?_, rfl, Or.inl hleft⟩
    rw [hwrite, parseByDelimiter, appendToUnparsedBuffer_full hw hleft]
    rfl
  by_cases hlimit : p.ChunkLimit w
  · obtain ⟨c, hc⟩ := appendToUnparsedBuffer_chunkLimit h hM hw hleft hlimit
    refine Or.inl ⟨{ p with unparsedBuffer := c }, ?_, rfl, Or.inr hlimit⟩
    rw [hwrite, parseByDelimiter, hc]
    rfl
  obtain ⟨c, happ, hc, hbytes, hlen, -⟩ := appendToUnparsedBuffer_stored h hM hw hleft hlimit
  have hmode' : st.parseMode ≠ .multiDelimiter := by simp [hmode]
  have hfind : c.find p.parseDelimiter true 0 0 = first st.parseDelimiter c.bytes := by
    rw [h.parseDelimiter hmode']
    exact BChunks.find_eq_first hc.size_eq hc.counted.fits hd
  rw [hbytes] at hfind
  cases hfirst : first st.parseDelimiter
      (p.unparsedBuffer.bytes ++ w.take p.unparsedBuffer.getSizeLeft) with
  | some q =>
      rw [hfirst] at hfind
      have hlt := lt_of_first_append hd hnone hfirst
      have hle := add_length_le_of_first hd hfirst
      obtain ⟨h1, h2, h3, -⟩ := hc.parsed parse hkeep (c.bytes.take q)
      refine Or.inr (Or.inl ⟨hlimit, _, q, rfl, ?_, h1, ?_, ?_⟩)
      · rw [hwrite, parseByDelimiter, happ]
        simp only [hfind, Written.toOption]
        have hfits : c.size < 2 ^ 64 := hc.counted.fits
        have hsize : c.size = c.bytes.length := hc.size_eq
        rw [← hbytes, ← hsize] at hle
        rw [h1.parseDelimiter hmode', h.size_eq, consumed_eq hlt.le (by omega)]
      · rw [h2]
        rfl
      · rw [h3, hbytes]
  | none =>
      rw [hfirst] at hfind
      refine Or.inr (Or.inr ⟨hleft, hlimit, { p with unparsedBuffer := c }, rfl, ?_, hc, hbytes,
        hlen, rfl⟩)
      rw [hwrite, parseByDelimiter, happ]
      simp only [hfind, h.streamEnded, Bool.false_eq_true, if_false, Written.toOption]

/-- A run in `PARSE_MODE_DELIMITER`, seen from a state with some data in the buffer. -/
structure DelimiterRun (st : ParseSettings) (p : SubParser σ) (ws : List (List UInt8))
    (r : Result (SubParser σ) UInt8) : Prop where
  progress : ∀ c ∈ r.calls, ∀ k, c.answer = some k → 1 ≤ k ∧ k ≤ c.offered.length
  pieces : ∃ ps more rest,
    Splits (cut st.parseDelimiter) (p.unparsedBuffer.bytes ++ ws.flatten) (ps ++ more) rest ∧
    r.final.seen.map (·.parsedBuffer) = p.seen.map (·.parsedBuffer) ++ ps.map Prod.fst ∧
    (r.outcome = .done → more = [])
  ends : (r.outcome = .done ∧ taken r.calls = ws.flatten.length) ∨ r.outcome = .failed
  fails : r.outcome = .failed ↔
    Overlong st.parseDelimiter st.parseDataTargetSize (p.unparsedBuffer.bytes ++ ws.flatten) ∨
      ∃ c ∈ r.calls, c.before.ChunkLimit c.offered

theorem cut_eq_none_iff {s : List UInt8} : cut d s = none ↔ first d s = none := by
  simp [cut]

theorem exists_splits_cut (hd : d ≠ []) (s : List UInt8) : ∃ ps r, Splits (cut d) s ps r := by
  refine exists_splits (fun s q e h => ?_) s
  simp only [cut, Option.map_eq_some_iff, Prod.mk.injEq] at h
  obtain ⟨_, hq, rfl, rfl⟩ := h
  exact ⟨hd, add_length_le_of_first hd hq⟩

/-- What was stored of a write and what is left of the stream make up the stream. -/
theorem append_take_flatten (u w : List UInt8) (ws : List (List UInt8)) (left : ℕ) :
    (u ++ w.take left) ++ (w :: ws).flatten.drop (w.take left).length = u ++ (w :: ws).flatten := by
  have htake : w.take left ++ w.drop (w.take left).length = w := by
    rw [List.length_take]
    rcases Nat.le_total left w.length with h | h
    · rw [Nat.min_eq_left h, List.take_append_drop]
    · rw [Nat.min_eq_right h, List.take_of_length_le h, List.drop_length, List.append_nil]
  have hle : (w.take left).length ≤ w.length := List.length_take_le' _ _
  calc (u ++ w.take left) ++ (w :: ws).flatten.drop (w.take left).length
      = u ++ ((w.take left ++ w.drop (w.take left).length) ++ ws.flatten) := by
        rw [List.flatten_cons, List.drop_append_of_le_length hle]
        simp only [List.append_assoc]
    _ = u ++ (w :: ws).flatten := by rw [htake, List.flatten_cons]

/-- A write that completes a delimiter ends a piece, and the stream goes on behind it. -/
theorem DelimiterRun.found (hd : st.parseDelimiter ≠ [])
    (h : Holds st p) {p' : SubParser σ} {ws : List (List UInt8)} {q : ℕ}
    {r : Result (SubParser σ) UInt8} (hlimit : ¬ p.ChunkLimit w)
    (hnone : first st.parseDelimiter p.unparsedBuffer.bytes = none)
    (hfirst : first st.parseDelimiter
      (p.unparsedBuffer.bytes ++ w.take p.unparsedBuffer.getSizeLeft) = some q)
    (hbytes : p'.unparsedBuffer.bytes = [])
    (hseen : p'.seen = p.seen ++
      [⟨(p.unparsedBuffer.bytes ++ w.take p.unparsedBuffer.getSizeLeft).take q, p.delimiterFound⟩])
    (hr : DelimiterRun st p'
      (refeed (q + st.parseDelimiter.length - p.unparsedBuffer.bytes.length) w ws) r) :
    DelimiterRun st p (w :: ws)
      ⟨⟨p, w, ws, some (q + st.parseDelimiter.length - p.unparsedBuffer.bytes.length)⟩ :: r.calls,
        r.final, r.outcome⟩ := by
  have hlt := lt_of_first_append hd hnone hfirst
  have hle := add_length_le_of_first hd hfirst
  rw [List.length_append, List.length_take] at hle
  have hk : q + st.parseDelimiter.length - p.unparsedBuffer.bytes.length ≤ w.length := by omega
  have hleft := h.getSizeLeft
  have hin : q + st.parseDelimiter.length ≤ st.parseDataTargetSize := by
    have := h.size_le
    rw [h.size_eq] at this
    omega
  have hfull : first st.parseDelimiter (p.unparsedBuffer.bytes ++ (w :: ws).flatten) = some q := by
    rw [← append_take_flatten _ _ _ p.unparsedBuffer.getSizeLeft]
    exact first_append hd hfirst _
  have hdrop : (p.unparsedBuffer.bytes ++ (w :: ws).flatten).drop (q + st.parseDelimiter.length) =
      (refeed (q + st.parseDelimiter.length - p.unparsedBuffer.bytes.length) w ws).flatten := by
    rw [flatten_refeed hk, List.drop_append, List.drop_eq_nil_of_le hlt.le, List.nil_append]
  have hpiece : (p.unparsedBuffer.bytes ++ w.take p.unparsedBuffer.getSizeLeft).take q =
      (p.unparsedBuffer.bytes ++ (w :: ws).flatten).take q := by
    rw [← append_take_flatten _ _ _ p.unparsedBuffer.getSizeLeft]
    refine (List.take_append_of_le_length ?_).symm
    rw [List.length_append, List.length_take]
    omega
  obtain ⟨hprog, ⟨ps, more, rest, hsplit, hshown, hmore⟩, hends, hfails⟩ := hr
  rw [hbytes, List.nil_append] at hsplit hfails
  refine ⟨?_, ⟨((p.unparsedBuffer.bytes ++ (w :: ws).flatten).take q, st.parseDelimiter) :: ps,
    more, rest, ?_, ?_, hmore⟩, ?_, ?_⟩
  · intro c hc k hk'
    rcases List.mem_cons.mp hc with rfl | hc
    · cases hk'
      exact ⟨by omega, hk⟩
    · exact hprog c hc k hk'
  · refine Splits.piece (by rw [cut, hfull]; rfl) ?_
    rw [hdrop]
    exact hsplit
  · rw [hshown, hseen, hpiece]
    simp
  · rcases hends with ⟨hdone, htaken⟩ | hfailed
    · exact Or.inl ⟨hdone, taken_cons_of_refeed hk rfl htaken⟩
    · exact Or.inr hfailed
  · rw [hfails, overlong_iff_of_first hd hfull hin, hdrop]
    simp [hlimit]

/-- A write without a delimiter is kept in the buffer. -/
theorem DelimiterRun.kept {p' : SubParser σ} {ws : List (List UInt8)}
    {r : Result (SubParser σ) UInt8} (hw : w ≠ []) (hleft : p.unparsedBuffer.getSizeLeft ≠ 0)
    (hlimit : ¬ p.ChunkLimit w)
    (hbytes : p'.unparsedBuffer.bytes =
      p.unparsedBuffer.bytes ++ w.take p.unparsedBuffer.getSizeLeft)
    (hseen : p'.seen = p.seen)
    (hr : DelimiterRun st p'
      (refeed (w.take p.unparsedBuffer.getSizeLeft).length w ws) r) :
    DelimiterRun st p (w :: ws)
      ⟨⟨p, w, ws, some (w.take p.unparsedBuffer.getSizeLeft).length⟩ :: r.calls,
        r.final, r.outcome⟩ := by
  have hk : (w.take p.unparsedBuffer.getSizeLeft).length ≤ w.length := List.length_take_le' _ _
  have hpos := List.length_pos_iff.mpr hw
  have hstream : p'.unparsedBuffer.bytes ++
      (refeed (w.take p.unparsedBuffer.getSizeLeft).length w ws).flatten =
      p.unparsedBuffer.bytes ++ (w :: ws).flatten := by
    rw [hbytes, flatten_refeed hk, append_take_flatten]
  obtain ⟨hprog, ⟨ps, more, rest, hsplit, hshown, hmore⟩, hends, hfails⟩ := hr
  rw [hstream] at hsplit hfails
  refine ⟨?_, ⟨ps, more, rest, hsplit, by rw [hshown, hseen], hmore⟩, ?_, ?_⟩
  · intro c hc k hk'
    rcases List.mem_cons.mp hc with rfl | hc
    · cases hk'
      refine ⟨?_, hk⟩
      rw [List.length_take]
      omega
    · exact hprog c hc k hk'
  · rcases hends with ⟨hdone, htaken⟩ | hfailed
    · exact Or.inl ⟨hdone, taken_cons_of_refeed hk rfl htaken⟩
    · exact Or.inr hfailed
  · rw [hfails]
    simp [hlimit]

/-- The run of `PARSE_MODE_DELIMITER` over any list of writes. -/
theorem delimiterRun (hkeep : KeepsSettings parse) (hmode : st.parseMode = .delimiter)
    (hd : st.parseDelimiter ≠ []) (hM : st.parseDataTargetSize < 2 ^ 64) {fuel : ℕ}
    (h : Holds st p) (hnone : first st.parseDelimiter p.unparsedBuffer.bytes = none)
    {ws : List (List UInt8)} (hws : ∀ w ∈ ws, w ≠ []) (hfuel : ws.flatten.length ≤ fuel) :
    DelimiterRun st p ws (feed (write parse heap) (fun _ => false) fuel p ws) := by
  refine feed_induction
    (fun p => Holds st p ∧ first st.parseDelimiter p.unparsedBuffer.bytes = none)
    (fun _ _ _ => True) (DelimiterRun st) ?progress ?keeps ?done ?failed ?stopped ?next
    fuel p ws ⟨h, hnone⟩ hws hfuel (fun _ _ => trivial)
  case progress =>
    rintro p w ws p' k ⟨h, hnone⟩ hw - hwr
    rcases write_delimiter_cases heap hkeep h hmode hd hM hw hnone with
      ⟨q, hq, -, -⟩ | ⟨-, q, pos, hfirst, hq, -, -, -⟩ | ⟨hleft, -, q, -, hq, -⟩
    · rw [hq] at hwr
      cases hwr
    · rw [hq] at hwr
      cases hwr
      have hlt := lt_of_first_append hd hnone hfirst
      have hle := add_length_le_of_first hd hfirst
      rw [List.length_append, List.length_take] at hle
      omega
    · rw [hq] at hwr
      cases hwr
      have := List.length_pos_iff.mpr hw
      rw [List.length_take]
      omega
  case keeps =>
    rintro p w ws p' k ⟨h, hnone⟩ hw - hwr -
    rcases write_delimiter_cases heap hkeep h hmode hd hM hw hnone with
      ⟨q, hq, -, -⟩ | ⟨-, q, pos, -, hq, hholds, hbytes, -⟩ |
      ⟨-, -, q, hfirst, hq, hholds, hbytes, -, -⟩
    · rw [hq] at hwr
      cases hwr
    · rw [hq] at hwr
      cases hwr
      exact ⟨hholds, by rw [hbytes]; exact first_nil hd⟩
    · rw [hq] at hwr
      cases hwr
      exact ⟨hholds, by rw [hbytes]; exact hfirst⟩
  case done =>
    rintro p ⟨h, hnone⟩
    have hle := h.size_le
    rw [h.size_eq] at hle
    refine ⟨by simp, ⟨[], [], p.unparsedBuffer.bytes, ?_, by simp, fun _ => rfl⟩,
      Or.inl ⟨rfl, rfl⟩, ?_⟩
    · simpa using Splits.rest (cut_eq_none_iff.mpr hnone)
    · simpa using not_overlong hnone hle
  case failed =>
    rintro p w ws p' ⟨h, hnone⟩ hw - hwr
    rcases write_delimiter_cases heap hkeep h hmode hd hM hw hnone with
      ⟨q, hq, hseen, hwhy⟩ | ⟨-, q, pos, -, hq, -, -, -⟩ | ⟨-, -, q, -, hq, -⟩
    · rw [hq] at hwr
      cases hwr
      obtain ⟨ps, rest, hsplit⟩ :=
        exists_splits_cut hd (p.unparsedBuffer.bytes ++ (w :: ws).flatten)
      refine ⟨by simp, ⟨[], ps, rest, hsplit, by simp [hseen], by simp⟩, Or.inr rfl, ?_⟩
      simp only [List.mem_singleton, exists_eq_left, true_iff]
      rcases hwhy with hleft | hlimit
      · left
        have hle := h.size_le
        have hleft' := h.getSizeLeft
        rw [h.size_eq] at hle
        exact overlong_append hd hnone (by omega) (by simp [hw])
      · exact Or.inr hlimit
    · rw [hq] at hwr
      cases hwr
    · rw [hq] at hwr
      cases hwr
  case stopped =>
    intro p w ws p' k _ _ _ _ hstop
    cases hstop
  case next =>
    rintro p w ws p' k r ⟨h, hnone⟩ hw - hwr - hr
    rcases write_delimiter_cases heap hkeep h hmode hd hM hw hnone with
      ⟨q, hq, -, -⟩ | ⟨hlimit, q, pos, hfirst, hq, -, hbytes, hseen⟩ |
      ⟨hleft, hlimit, q, -, hq, -, hbytes, -, hseen⟩
    · rw [hq] at hwr
      cases hwr
    · rw [hq] at hwr
      cases hwr
      exact hr.found hd h hlimit hnone hfirst hbytes hseen
    · rw [hq] at hwr
      cases hwr
      exact hr.kept hw hleft hlimit hbytes hseen

/-- **`PARSE_MODE_DELIMITER`.**  For every way of cutting a stream into non-empty writes:
an accepted call takes between one byte and all it was offered; `parse()` is shown the
pieces between successive leftmost occurrences of the delimiter, all of them if the run
goes through; and the run fails exactly when some piece is not ended within the target
size, or some call finds the chunks of the buffer used up. -/
theorem delimiter_segmentation (hkeep : KeepsSettings parse) (hd : d ≠ []) (M : ℕ)
    (hM : M < 2 ^ 64) (derived : σ) (ws : List (List UInt8)) (hws : ∀ w ∈ ws, w ≠ []) (fuel : ℕ)
    (hfuel : ws.flatten.length ≤ fuel) :
    let st : ParseSettings :=
      { parseMode := .delimiter, parseDelimiter := d, parseDataTargetSize := M }
    let r := feed (write parse heap) (fun _ => false) fuel (start st derived) ws
    (∀ c ∈ r.calls, ∀ k, c.answer = some k → 1 ≤ k ∧ k ≤ c.offered.length) ∧
      (∃ ps more rest, Splits (cut d) ws.flatten (ps ++ more) rest ∧
        r.final.seen.map (·.parsedBuffer) = ps.map Prod.fst ∧ (r.outcome = .done → more = [])) ∧
      ((r.outcome = .done ∧ taken r.calls = ws.flatten.length) ∨ r.outcome = .failed) ∧
      (r.outcome = .failed ↔
        Overlong d M ws.flatten ∨ ∃ c ∈ r.calls, c.before.ChunkLimit c.offered) := by
  intro st r
  have hrun : DelimiterRun st (start st derived) ws r :=
    delimiterRun heap hkeep rfl hd hM (holds_start st derived) (first_nil hd) hws hfuel
  exact ⟨hrun.progress, hrun.pieces, hrun.ends, hrun.fails⟩

/-- Two lines and the start of a third, cut within the second line break. -/
theorem delimiter_segmentation_lines :
    let st : ParseSettings :=
      { parseMode := .delimiter, parseDelimiter := [13, 10], parseDataTargetSize := 8 }
    let r := feed (write idle (fun _ _ => 0)) (fun _ => false) 9 (start st ())
      [[97, 13, 10, 98, 13], [10, 99]]
    (∃ ps more rest, Splits (cut [13, 10]) [97, 13, 10, 98, 13, 10, 99] (ps ++ more) rest ∧
        r.final.seen.map (·.parsedBuffer) = ps.map Prod.fst ∧ (r.outcome = .done → more = [])) :=
  (delimiter_segmentation (fun _ _ => 0) keepsSettings_idle (by simp) 8 (by norm_num) ()
    [[97, 13, 10, 98, 13], [10, 99]] (by decide) 9 (by decide)).2.1

/-- A word is not found in a sequence of other bytes. -/
theorem first_replicate (k : ℕ) : first [10] (List.replicate k (0 : UInt8)) = none := by
  rw [first_eq_none_iff (by simp)]
  intro q hq
  have hmem : (10 : UInt8) ∈ List.replicate k 0 :=
    List.mem_of_mem_drop (hq.subset (List.mem_singleton_self _))
  have := List.eq_of_mem_replicate hmem
  cases this

/-- One-byte writes without a delimiter take a chunk each until there are none left. -/
theorem outcome_single_bytes {n m : ℕ} (hmode : st.parseMode = .delimiter)
    (hdelim : st.parseDelimiter = [10]) (hM : st.parseDataTargetSize = 2 ^ 64 - 1)
    (hkeep : KeepsSettings parse) (h : Holds st p)
    (hbytes : p.unparsedBuffer.bytes = List.replicate m 0)
    (hchunks : p.unparsedBuffer.chunksVector.length = m) (hover : 256 * 1024 < m + n) :
    (feed (write parse heap) (fun _ => false) n p (List.replicate n [0])).outcome = .failed := by
  have hmax : p.unparsedBuffer.maxChunks = 256 * 1024 := by
    have := congrArg BChunks.maxChunks h.limits
    exact this
  have hroom := h.chunks
  induction n generalizing p m with
  | zero => omega
  | succ n ih =>
      have hleft := h.getSizeLeft
      rw [hM, hbytes, List.length_replicate] at hleft
      have htake : [(0 : UInt8)].take p.unparsedBuffer.getSizeLeft = [0] :=
        List.take_of_length_le (by rw [List.length_singleton]; omega)
      rcases write_delimiter_cases heap hkeep h hmode (by simp [hdelim]) (by omega) (w := [0])
          (by simp) (by rw [hdelim, hbytes]; exact first_replicate m) with
        ⟨q, hq, -, -⟩ | ⟨-, q, pos, hfirst, -⟩ | ⟨-, hlimit, q, -, hq, hholds, hq', hlen, -⟩
      · rw [List.replicate_succ, feed_failed hq]
      · rw [htake, hdelim, hbytes, ← List.replicate_succ', first_replicate] at hfirst
        cases hfirst
      · rw [htake, List.length_singleton] at hq
        rw [List.replicate_succ, feed_next hq rfl]
        have hone : p.unparsedBuffer.chunksFor 1 = 1 := by
          simp [BChunks.chunksFor, h.maxChunkSize]
        rw [htake, hbytes, ← List.replicate_succ'] at hq'
        rw [htake, List.length_singleton, hone, hchunks] at hlen
        refine ih hholds hq' hlen (by omega) ?_ hholds.chunks
        have := congrArg BChunks.maxChunks hholds.limits
        exact this

/-- A line of 262145 bytes that arrive one at a time makes the parser fail, although the
target size leaves room for it. -/
theorem delimiter_fails_within_target :
    let st : ParseSettings :=
      { parseMode := .delimiter, parseDelimiter := [10], parseDataTargetSize := 2 ^ 64 - 1 }
    let ws := List.replicate 262145 [(0 : UInt8)]
    (feed (write idle (fun _ _ => 0)) (fun _ => false) 262145 (start st ()) ws).outcome = .failed ∧
      ¬ Overlong [10] (2 ^ 64 - 1) ws.flatten := by
  intro st ws
  refine ⟨outcome_single_bytes _ rfl rfl rfl keepsSettings_idle (holds_start st ()) (m := 0) rfl rfl
    (by norm_num), ?_⟩
  have hflat : ws.flatten = List.replicate 262145 0 := List.flatten_replicate_singleton
  rw [hflat]
  refine not_overlong (first_replicate _) ?_
  rw [List.length_replicate]
  norm_num

end SubParser

end Mantids
