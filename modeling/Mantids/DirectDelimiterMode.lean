/-
# Passing data on until a delimiter

`PARSE_MODE_DIRECT_DELIMITER` passes data on as it arrives and holds back only what may
still become the delimiter.  `directDelimiter_segmentation` says when the cuts of the
stream do not matter: as long as the part held back stays in one chunk, `parse()` is
shown, in portions, what stands before the first delimiter.

The part held back is what `displace` leaves, and `displace` restores the offsets of a
single chunk only; with several chunks `getLastBytesInCommon` compares other bytes than
the last ones.
-/
import Mantids.SubParser

namespace Mantids

open Occurrence Feed

namespace SubParser

variable {σ : Type*} {parse : Parse σ} (heap : ℕ → ℕ → UInt8)
variable {st : ParseSettings} {p : SubParser σ} {w d : List UInt8}

theorem take_getSizeLeft (hfit : w.length ≤ p.unparsedBuffer.getSizeLeft) :
    w.take p.unparsedBuffer.getSizeLeft = w := List.take_of_length_le hfit

variable (parse) in
/-- A write in `PARSE_MODE_DIRECT_DELIMITER` is stored, and then searched. -/
theorem write_directDelimiter_stored (h : Holds st p) (hmode : st.parseMode = .directDelimiter)
    (hM : st.parseDataTargetSize < 2 ^ 64) (hw : w ≠ [])
    (hfit : w.length ≤ p.unparsedBuffer.getSizeLeft) (hlimit : ¬ p.ChunkLimit w) :
    ∃ c, Holds st { p with delimiterFound := [], unparsedBuffer := c } ∧
      c.bytes = p.unparsedBuffer.bytes ++ w ∧ (p.unparsedBuffer.RepInv → c.RepInv) ∧
      { p with delimiterFound := [] }.appendToUnparsedBuffer w =
        ({ p with delimiterFound := [], unparsedBuffer := c }, some w.length) ∧
      p.write parse heap w = ((p.parseDirectDelimiter parse heap w).1,
        (p.parseDirectDelimiter parse heap w).2.toOption) := by
  have hleft : p.unparsedBuffer.getSizeLeft ≠ 0 := by
    have := List.length_pos_iff.mpr hw
    omega
  have h' : Holds st { p with delimiterFound := [] } :=
    ⟨h.settings, h.streamEnded, h.limits, h.counted, h.chunks, h.size_le⟩
  obtain ⟨c, happ, hc, hbytes, -, hrep⟩ := appendToUnparsedBuffer_stored h' hM hw hleft hlimit
  simp only [take_getSizeLeft hfit] at happ hbytes
  refine ⟨c, hc, hbytes, hrep, happ, ?_⟩
  simp only [write, writeIntoParser, if_neg hw, h.parseMode, hmode]

/-- The write that completes the delimiter. -/
theorem write_directDelimiter_found (hkeep : KeepsSettings parse) (h : Holds st p)
    (hmode : st.parseMode = .directDelimiter) (hd : st.parseDelimiter ≠ [])
    (hM : st.parseDataTargetSize < 2 ^ 64) (hw : w ≠ [])
    (hfit : w.length ≤ p.unparsedBuffer.getSizeLeft) (hlimit : ¬ p.ChunkLimit w)
    (hshort : p.unparsedBuffer.bytes.length < st.parseDelimiter.length) {q : ℕ}
    (hfirst : first st.parseDelimiter (p.unparsedBuffer.bytes ++ w) = some q) :
    ∃ p', p.write parse heap w =
        (p', some (q + st.parseDelimiter.length - p.unparsedBuffer.bytes.length)) ∧
      p'.delimiterFound = st.parseDelimiter ∧
      p'.seen = p.seen ++ [⟨(p.unparsedBuffer.bytes ++ w).take q, st.parseDelimiter⟩] := by
  obtain ⟨c, hc, hbytes, -, happ, hwrite⟩ :=
    write_directDelimiter_stored parse heap h hmode hM hw hfit hlimit
  have hmode' : st.parseMode ≠ .multiDelimiter := by simp [hmode]
  have hdelim : p.parseDelimiter = st.parseDelimiter := h.parseDelimiter hmode'
  have hfind : c.find p.parseDelimiter true 0 0 = some q := by
    rw [hdelim, ← hfirst, ← hbytes]
    exact BChunks.find_eq_first hc.size_eq hc.counted.fits hd
  -- the buffer as `parse()` finds it: emptied if the delimiter is all there is
  obtain ⟨p₁, hp₁, hholds, hseen, hfound, htake⟩ : ∃ p₁ : SubParser σ,
      (if q = 0 then ({ p with delimiterFound := p.parseDelimiter, unparsedBuffer := c } :
          SubParser σ).clearUnparsed
        else { p with delimiterFound := p.parseDelimiter, unparsedBuffer := c }) = p₁ ∧
      Holds st p₁ ∧ p₁.seen = p.seen ∧ p₁.delimiterFound = st.parseDelimiter ∧
      p₁.unparsedBuffer.bytes.take q = (p.unparsedBuffer.bytes ++ w).take q := by
    have hc' : Holds st { p with delimiterFound := p.parseDelimiter, unparsedBuffer := c } :=
      ⟨hc.settings, hc.streamEnded, hc.limits, hc.counted, hc.chunks, hc.size_le⟩
    by_cases hq : q = 0
    · refine ⟨_, if_pos hq, hc'.clearUnparsed, rfl, hdelim, ?_⟩
      rw [hq, List.take_zero, List.take_zero]
    · refine ⟨_, if_neg hq, hc', rfl, hdelim, ?_⟩
      rw [← hbytes]
  obtain ⟨h1, -, h3, h4⟩ := hholds.parsed parse hkeep (p₁.unparsedBuffer.bytes.take q)
  have hle := add_length_le_of_first hd hfirst
  have hfits : c.size < 2 ^ 64 := hc.counted.fits
  have hsize : c.size = c.bytes.length := hc.size_eq
  rw [← hbytes, ← hsize] at hle
  refine ⟨_, ?_, h4.trans hfound, ?_⟩
  · rw [hwrite, parseDirectDelimiter, happ]
    simp only [hfind, hp₁, Written.toOption]
    rw [h1.parseDelimiter hmode', h.size_eq, consumed_eq (by omega) (by omega)]
  · rw [h3, hseen, htake, hfound]

/-- A write without the delimiter: what cannot become a delimiter any more is shown to
`parse()`, the rest stays. -/
theorem write_directDelimiter_none (hkeep : KeepsSettings parse) (h : Holds st p)
    (hmode : st.parseMode = .directDelimiter) (hd : st.parseDelimiter ≠ [])
    (hd64 : st.parseDelimiter.length < 2 ^ 64)
    (hM : st.parseDataTargetSize < 2 ^ 64) (hw : w ≠ [])
    (hfit : w.length ≤ p.unparsedBuffer.getSizeLeft) (hlimit : ¬ p.ChunkLimit w)
    (hrep : p.unparsedBuffer.RepInv)
    (hnone : first st.parseDelimiter (p.unparsedBuffer.bytes ++ w) = none) {safe : ℕ}
    (hsafe : (p.unparsedBuffer.bytes ++ w).length -
      overlap st.parseDelimiter (p.unparsedBuffer.bytes ++ w) = safe) :
    ∃ p', p.write parse heap w = (p', some w.length) ∧ Holds st p' ∧ p'.delimiterFound = [] ∧
      p'.unparsedBuffer.bytes = (p.unparsedBuffer.bytes ++ w).drop safe ∧
      p'.seen = p.seen ++ [⟨(p.unparsedBuffer.bytes ++ w).take safe, []⟩] ∧
      (p'.unparsedBuffer.chunksVector.length ≤ 1 → p'.unparsedBuffer.RepInv) := by
  obtain ⟨c, hc, hbytes, hrep', happ, hwrite⟩ :=
    write_directDelimiter_stored parse heap h hmode hM hw hfit hlimit
  have hmode' : st.parseMode ≠ .multiDelimiter := by simp [hmode]
  have hdelim : p.parseDelimiter = st.parseDelimiter := h.parseDelimiter hmode'
  have hfind : c.find p.parseDelimiter true 0 0 = none := by
    rw [hdelim, ← hnone, ← hbytes]
    exact BChunks.find_eq_first hc.size_eq hc.counted.fits hd
  have hsound : c.Sound := ⟨hrep' hrep, hc.counted.fits⟩
  have hsize : c.size = c.bytes.length := hc.size_eq
  have hcommon : (getLastBytesInCommon heap
      ({ p with delimiterFound := [], unparsedBuffer := c } : SubParser σ) p.parseDelimiter).1 =
      overlap st.parseDelimiter c.bytes := by
    rw [hdelim]
    exact getLastBytesInCommon_eq heap hsound hd hd64
  rw [← hbytes] at hsafe ⊢
  generalize hm : (getLastBytesInCommon heap
      ({ p with delimiterFound := [], unparsedBuffer := c } : SubParser σ) p.parseDelimiter).2 =
    mallocs at *
  have hc' : Holds st { p with delimiterFound := [], unparsedBuffer := c, mallocs := mallocs } :=
    ⟨hc.settings, hc.streamEnded, hc.limits, hc.counted, hc.chunks, hc.size_le⟩
  rw [hwrite, parseDirectDelimiter, happ]
  simp only [hfind, hm, hcommon]
  by_cases hzero : overlap st.parseDelimiter c.bytes = 0
  · obtain ⟨h1, h2, h3, h4⟩ := hc'.parsed parse hkeep c.bytes
    have hall : safe = c.bytes.length := by omega
    rw [if_pos hzero, hall, List.drop_length, List.take_length]
    refine ⟨_, rfl, h1, h4, ?_, h3, fun _ => ?_⟩
    · rw [h2]
      rfl
    · rw [h2]
      exact BChunks.repInv_clear _
  · obtain ⟨h1, h2, h3⟩ := hc'.callParse parse hkeep (c.bytes.take safe)
    rw [if_neg hzero, hsize, hsafe]
    obtain ⟨d1, d2, d3, d4, -⟩ := h1.counted.displace safe
    refine ⟨_, rfl, h1.withBuffer d3 d1 ?_ ?_, rfl, ?_, h3, ?_⟩
    · rw [d3.maxChunks]
      exact le_trans (BChunks.length_displace_le h1.counted safe) h1.chunks
    · have hle := h1.size_le
      rw [d1.size_eq, d2, List.length_drop, ← h1.size_eq]
      omega
    · rw [d2, h2]
    · exact fun hone => (d4 hone).1

/-- The call fits the target size and the chunks of the buffer, and it either completes
the delimiter or finds no more than one chunk held back.  A held-back part of several
chunks has lost its offsets. -/
structure ReadsHeldBack (d : List UInt8) (p : SubParser σ) (w : List UInt8) : Prop where
  chunks : ¬ p.ChunkLimit w
  heldBack : p.unparsedBuffer.chunksVector.length ≤ 1 ∨
    first d (p.unparsedBuffer.bytes ++ w) ≠ none

/-- A run in `PARSE_MODE_DIRECT_DELIMITER`, seen from a state with some data held back. -/
def DirectRun (st : ParseSettings) (p : SubParser σ) (ws : List (List UInt8))
    (r : Result (SubParser σ) UInt8) : Prop :=
  ∀ pos, first st.parseDelimiter (p.unparsedBuffer.bytes ++ ws.flatten) = some pos →
    r.outcome = .stopped ∧ r.final.delimiterFound = st.parseDelimiter ∧
    (∃ shown, r.final.seen = p.seen ++ shown ∧
      (shown.map (·.parsedBuffer)).flatten =
        (p.unparsedBuffer.bytes ++ ws.flatten).take pos) ∧
    p.unparsedBuffer.bytes.length + taken r.calls = pos + st.parseDelimiter.length

/-- The state between two calls of a run in `PARSE_MODE_DIRECT_DELIMITER`. -/
structure HoldsBack (st : ParseSettings) (p : SubParser σ) : Prop where
  holds : Holds st p
  short : p.unparsedBuffer.bytes.length < st.parseDelimiter.length
  repInv : p.unparsedBuffer.chunksVector.length ≤ 1 → p.unparsedBuffer.RepInv

/-- A call either completes the delimiter or holds back what may become one. -/
theorem write_directDelimiter_cases (hkeep : KeepsSettings parse)
    (hmode : st.parseMode = .directDelimiter) (hd : st.parseDelimiter ≠ [])
    (hd64 : st.parseDelimiter.length < 2 ^ 64) (hM : st.parseDataTargetSize < 2 ^ 64)
    (h : HoldsBack st p) (hw : w ≠ [])
    (hg : w.length ≤ p.unparsedBuffer.getSizeLeft ∧ ReadsHeldBack st.parseDelimiter p w) :
    (∃ p' q, first st.parseDelimiter (p.unparsedBuffer.bytes ++ w) = some q ∧
        p.write parse heap w =
          (p', some (q + st.parseDelimiter.length - p.unparsedBuffer.bytes.length)) ∧
        p'.delimiterFound = st.parseDelimiter ∧
        p'.seen = p.seen ++ [⟨(p.unparsedBuffer.bytes ++ w).take q, st.parseDelimiter⟩]) ∨
      (∃ p' safe, first st.parseDelimiter (p.unparsedBuffer.bytes ++ w) = none ∧
        (p.unparsedBuffer.bytes ++ w).length -
          overlap st.parseDelimiter (p.unparsedBuffer.bytes ++ w) = safe ∧
        p.write parse heap w = (p', some w.length) ∧ p'.delimiterFound = [] ∧ HoldsBack st p' ∧
        p'.unparsedBuffer.bytes = (p.unparsedBuffer.bytes ++ w).drop safe ∧
        p'.seen = p.seen ++ [⟨(p.unparsedBuffer.bytes ++ w).take safe, []⟩]) := by
  obtain ⟨h, hshort, hrep⟩ := h
  obtain ⟨hfit, hlimit, hheld⟩ := hg
  cases hfirst : first st.parseDelimiter (p.unparsedBuffer.bytes ++ w) with
  | some q =>
      obtain ⟨p', h1, h2, h3⟩ :=
        write_directDelimiter_found heap hkeep h hmode hd hM hw hfit hlimit hshort hfirst
      exact Or.inl ⟨p', q, rfl, h1, h2, h3⟩
  | none =>
      have hone : p.unparsedBuffer.chunksVector.length ≤ 1 := by
        rcases hheld with hone | hfound
        · exact hone
        · exact absurd hfirst hfound
      obtain ⟨p', h1, h2, h3, h4, h5, h6⟩ := write_directDelimiter_none heap hkeep h hmode hd hd64
        hM hw hfit hlimit (hrep hone) hfirst rfl
      refine Or.inr ⟨p', _, rfl, rfl, h1, h3, ⟨h2, ?_, h6⟩, h4, h5⟩
      have hov := overlap_lt_length hd (p.unparsedBuffer.bytes ++ w)
      rw [h4, List.length_drop]
      omega

/-- What is held back is where a delimiter that is completed later must start. -/
theorem first_heldBack {u t : List UInt8} (hd : d ≠ []) {pos : ℕ} (hnone : first d u = none)
    (hpos : first d (u ++ t) = some pos) :
    u.length - overlap d u ≤ pos ∧
      first d (u.drop (u.length - overlap d u) ++ t) = some (pos - (u.length - overlap d u)) := by
  obtain ⟨hoc, hleft⟩ := (first_eq_some_iff hd).mp hpos
  have hle := le_of_occursAt_append hd hoc hnone
  have hdrop : u.drop (u.length - overlap d u) ++ t = (u ++ t).drop (u.length - overlap d u) :=
    (List.drop_append_of_le_length (Nat.sub_le _ _)).symm
  refine ⟨hle, ?_⟩
  rw [hdrop, first_eq_some_iff hd]
  refine ⟨hoc.drop_of_le hle, fun q hq hoc' => ?_⟩
  rw [occursAt_drop] at hoc'
  exact hleft _ (by omega) hoc'

/-- A call that holds part of the data back, followed by the rest of the run. -/
theorem DirectRun.heldBack (hd : st.parseDelimiter ≠ []) {p' : SubParser σ}
    {ws : List (List UInt8)} {r : Result (SubParser σ) UInt8}
    (hnone : first st.parseDelimiter (p.unparsedBuffer.bytes ++ w) = none) {safe : ℕ}
    (hsafe : (p.unparsedBuffer.bytes ++ w).length -
      overlap st.parseDelimiter (p.unparsedBuffer.bytes ++ w) = safe)
    (hbytes : p'.unparsedBuffer.bytes = (p.unparsedBuffer.bytes ++ w).drop safe)
    (hseen : p'.seen = p.seen ++ [⟨(p.unparsedBuffer.bytes ++ w).take safe, []⟩])
    (hr : DirectRun st p' (refeed w.length w ws) r) :
    DirectRun st p (w :: ws) ⟨⟨p, w, ws, some w.length⟩ :: r.calls, r.final, r.outcome⟩ := by
  intro pos hpos
  have hfeed : (refeed w.length w ws).flatten = ws.flatten := by
    simp [refeed]
  have hstream : p.unparsedBuffer.bytes ++ (w :: ws).flatten =
      (p.unparsedBuffer.bytes ++ w) ++ ws.flatten := by
    rw [List.flatten_cons, List.append_assoc]
  rw [hstream] at hpos
  obtain ⟨hle, hrest⟩ := first_heldBack hd hnone hpos
  rw [hsafe] at hle hrest
  obtain ⟨h1, h2, ⟨shown, h3, h4⟩, h5⟩ := hr (pos - safe) (by rw [hbytes, hfeed]; exact hrest)
  have hsafe' : safe ≤ (p.unparsedBuffer.bytes ++ w).length := by omega
  refine ⟨h1, h2, ⟨⟨(p.unparsedBuffer.bytes ++ w).take safe, []⟩ :: shown, ?_, ?_⟩, ?_⟩
  · rw [h3, hseen, List.append_assoc, List.singleton_append]
  · rw [hbytes, hfeed, ← List.drop_append_of_le_length hsafe'] at h4
    rw [List.map_cons, List.flatten_cons, h4, hstream]
    calc (p.unparsedBuffer.bytes ++ w).take safe ++
          (((p.unparsedBuffer.bytes ++ w) ++ ws.flatten).drop safe).take (pos - safe)
        = ((p.unparsedBuffer.bytes ++ w) ++ ws.flatten).take safe ++
          (((p.unparsedBuffer.bytes ++ w) ++ ws.flatten).drop safe).take (pos - safe) := by
          rw [List.take_append_of_le_length hsafe']
      _ = ((p.unparsedBuffer.bytes ++ w) ++ ws.flatten).take (safe + (pos - safe)) :=
          List.take_add.symm
      _ = ((p.unparsedBuffer.bytes ++ w) ++ ws.flatten).take pos := by
          rw [Nat.add_sub_cancel' hle]
  · rw [hbytes, List.length_drop, List.length_append] at h5
    rw [List.length_append] at hsafe'
    simp only [taken_cons, Option.getD_some]
    omega

/-- The run of `PARSE_MODE_DIRECT_DELIMITER` over any list of writes. -/
theorem directRun (hkeep : KeepsSettings parse) (hmode : st.parseMode = .directDelimiter)
    (hd : st.parseDelimiter ≠ []) (hd64 : st.parseDelimiter.length < 2 ^ 64)
    (hM : st.parseDataTargetSize < 2 ^ 64) {fuel : ℕ} (h : HoldsBack st p)
    {ws : List (List UInt8)} (hws : ∀ w ∈ ws, w ≠ []) (hfuel : ws.flatten.length ≤ fuel)
    (hG : ∀ c ∈ (feed (write parse heap) (fun p => p.delimiterFound ≠ []) fuel p ws).calls,
      c.offered.length ≤ c.before.unparsedBuffer.getSizeLeft ∧
        ReadsHeldBack st.parseDelimiter c.before c.offered) :
    DirectRun st p ws (feed (write parse heap) (fun p => p.delimiterFound ≠ []) fuel p ws) := by
  refine feed_induction (HoldsBack st)
    (fun p w _ => w.length ≤ p.unparsedBuffer.getSizeLeft ∧ ReadsHeldBack st.parseDelimiter p w)
    (DirectRun st) ?progress ?keeps ?done ?failed ?stopped ?next fuel p ws h hws hfuel hG
  case progress =>
    intro p w ws p' k h hw hg hwr
    have hshort := h.short
    rcases write_directDelimiter_cases heap hkeep hmode hd hd64 hM h hw hg with
      ⟨_, q, hfirst, hq, -, -⟩ | ⟨_, _, -, -, hq, -⟩
    · rw [hq] at hwr
      cases hwr
      have hle := add_length_le_of_first hd hfirst
      rw [List.length_append] at hle
      omega
    · rw [hq] at hwr
      cases hwr
      exact ⟨List.length_pos_iff.mpr hw, le_refl _⟩
  case keeps =>
    intro p w ws p' k h hw hg hwr hstop
    rcases write_directDelimiter_cases heap hkeep hmode hd hd64 hM h hw hg with
      ⟨_, q, -, hq, hfound, -⟩ | ⟨_, _, -, -, hq, -, hback, -⟩
    · rw [hq] at hwr
      cases hwr
      simp [hfound, hd] at hstop
    · rw [hq] at hwr
      cases hwr
      exact hback
  case done =>
    intro p h pos hpos
    have hle := add_length_le_of_first hd hpos
    have hshort := h.short
    rw [List.flatten_nil, List.append_nil] at hle
    omega
  case failed =>
    intro p w ws p' h hw hg hwr
    rcases write_directDelimiter_cases heap hkeep hmode hd hd64 hM h hw hg with
      ⟨_, q, -, hq, -⟩ | ⟨_, _, -, -, hq, -⟩
    · rw [hq] at hwr
      cases hwr
    · rw [hq] at hwr
      cases hwr
  case stopped =>
    intro p w ws p' k h hw hg hwr hstop pos hpos
    have hshort := h.short
    rcases write_directDelimiter_cases heap hkeep hmode hd hd64 hM h hw hg with
      ⟨_, q, hfirst, hq, hfound, hseen⟩ | ⟨_, _, -, -, hq, hempty, -⟩
    · rw [hq] at hwr
      cases hwr
      rw [List.flatten_cons, ← List.append_assoc] at hpos ⊢
      rw [first_append hd hfirst] at hpos
      cases hpos
      have hle := add_length_le_of_first hd hfirst
      refine ⟨rfl, hfound, ⟨_, hseen, ?_⟩, ?_⟩
      · rw [List.map_singleton, List.flatten_singleton]
        exact (List.take_append_of_le_length (by omega)).symm
      · simp only [taken_cons, taken_nil, Option.getD_some]
        omega
    · rw [hq] at hwr
      cases hwr
      simp [hempty] at hstop
  case next =>
    intro p w ws p' k r h hw hg hwr hstop hr
    rcases write_directDelimiter_cases heap hkeep hmode hd hd64 hM h hw hg with
      ⟨_, q, -, hq, hfound, -⟩ | ⟨_, safe, hnone, hsafe, hq, -, -, hbytes, hseen⟩
    · rw [hq] at hwr
      cases hwr
      simp [hfound, hd] at hstop
    · rw [hq] at hwr
      cases hwr
      exact hr.heldBack hd hnone hsafe hbytes hseen

/-- **`PARSE_MODE_DIRECT_DELIMITER`.**  A stream that contains the delimiter is cut into
non-empty writes that fit the target size.  As long as every call completes the delimiter
or finds at most one chunk held back, the run stops at the delimiter, `parse()` has been
shown exactly the bytes before its first occurrence, and the bytes taken end with it. -/
theorem directDelimiter_segmentation (hkeep : KeepsSettings parse) (hd : d ≠ [])
    (hd64 : d.length < 2 ^ 64) (M : ℕ) (hM : M < 2 ^ 64) (derived : σ) (ws : List (List UInt8))
    (hws : ∀ w ∈ ws, w ≠ []) (fuel : ℕ) (hfuel : ws.flatten.length ≤ fuel) (pos : ℕ)
    (hpos : first d ws.flatten = some pos) :
    let st : ParseSettings :=
      { parseMode := .directDelimiter, parseDelimiter := d, parseDataTargetSize := M }
    let r := feed (write parse heap) (fun p => p.delimiterFound ≠ []) fuel (start st derived) ws
    (∀ c ∈ r.calls, c.offered.length ≤ c.before.unparsedBuffer.getSizeLeft) →
    (∀ c ∈ r.calls, ReadsHeldBack d c.before c.offered) →
      r.outcome = .stopped ∧ r.final.delimiterFound = d ∧
      (r.final.seen.map (·.parsedBuffer)).flatten = ws.flatten.take pos ∧
      taken r.calls = pos + d.length := by
  intro st r hfit hheld
  have hback : HoldsBack st (start st derived) :=
    ⟨holds_start st derived, List.length_pos_iff.mpr hd,
      fun _ => BChunks.repInv_clear { maxSize := M }⟩
  obtain ⟨h1, h2, ⟨shown, h3, h4⟩, h5⟩ :=
    directRun heap hkeep rfl hd hd64 hM hback hws hfuel
      (fun c hc => ⟨hfit c hc, hheld c hc⟩) pos hpos
  refine ⟨h1, h2, ?_, ?_⟩
  · rw [h3]
    exact h4
  · exact (Nat.zero_add _).symm.trans h5

instance (d : List UInt8) (p : SubParser σ) (w : List UInt8) :
    Decidable (ReadsHeldBack d p w) :=
  decidable_of_iff (¬ p.ChunkLimit w ∧ (p.unparsedBuffer.chunksVector.length ≤ 1 ∨
    first d (p.unparsedBuffer.bytes ++ w) ≠ none)) ⟨fun h => ⟨h.1, h.2⟩, fun h => ⟨h.1, h.2⟩⟩

/-- A line break cut in two: the carriage return is held back as one chunk. -/
theorem directDelimiter_segmentation_line :
    let st : ParseSettings :=
      { parseMode := .directDelimiter, parseDelimiter := [13, 10], parseDataTargetSize := 8 }
    let r := feed (write idle (fun _ _ => 0)) (fun p => p.delimiterFound ≠ []) 5 (start st ())
      [[97, 98, 13], [10, 99]]
    r.outcome = .stopped ∧ r.final.delimiterFound = [13, 10] ∧
      (r.final.seen.map (·.parsedBuffer)).flatten = [97, 98] ∧ taken r.calls = 4 :=
  directDelimiter_segmentation (fun _ _ => 0) keepsSettings_idle (by simp) (by norm_num) 8
    (by norm_num) () [[97, 98, 13], [10, 99]] (by decide) 5 (by decide) 2 (by decide) (by decide)
    (by decide)

/-- A delimiter of four bytes that arrive one at a time: after the third byte two chunks
are held back, their offsets are wrong, and the delimiter is passed on as data. -/
theorem directDelimiter_misses_delimiter :
    let st : ParseSettings :=
      { parseMode := .directDelimiter, parseDelimiter := [1, 2, 3, 4],
        parseDataTargetSize := 2 ^ 64 - 1 }
    let ws := [[1], [2], [3], [(4 : UInt8)]]
    let r := feed (write idle (fun _ _ => 0)) (fun p => p.delimiterFound ≠ []) 4 (start st ()) ws
    first [1, 2, 3, 4] ws.flatten = some 0 ∧
      (∀ c ∈ r.calls, c.offered.length ≤ c.before.unparsedBuffer.getSizeLeft) ∧
      r.outcome = .done ∧ (r.final.seen.map (·.parsedBuffer)).flatten = [1, 2, 3, 4] := by
  decide

end SubParser

end Mantids
