/-
# Parsing up to one of several delimiters

In `PARSE_MODE_MULTIDELIMITER` the delimiters are tried in the order of their list, over
all the data that has arrived.  Which one ends a piece then depends on how much has
arrived: `multiDelimiter_segmentation` says that two ways of cutting a stream show
`parse()` the pieces between earliest delimiters exactly when at every call the delimiter
found by list order has no other one before it in the stream.
-/
import Mantids.SubParser

namespace Mantids

open Occurrence Feed

namespace SubParser

variable {σ : Type*} {parse : Parse σ} (heap : ℕ → ℕ → UInt8)
variable {st : ParseSettings} {p : SubParser σ} {w : List UInt8} {L : List (List UInt8)}

/-- The delimiter that a search of the data at hand comes up with: of those that occur,
the first in the list, where it occurs first. -/
def picked (L : List (List UInt8)) (s : List UInt8) : Option (ℕ × List UInt8) :=
  L.findSome? (fun d => (first d s).map (fun pos => (pos, d)))

/-- The call fits the chunks of the buffer, and the delimiter that it picks (if any) is
not preceded by another one in the stream from the start of the piece on. -/
structure PicksEarliest (L : List (List UInt8)) (p : SubParser σ) (w : List UInt8)
    (later : List (List UInt8)) : Prop where
  chunks : ¬ p.ChunkLimit w
  notPreceded : ∀ pos d, picked L (p.unparsedBuffer.bytes ++ w) = some (pos, d) →
    ∀ q < pos, ∀ e ∈ L, ¬ OccursAt e (p.unparsedBuffer.bytes ++ (w :: later).flatten) q

theorem picked_eq_none_iff (hL : PrefixFree L) {s : List UInt8} :
    picked L s = none ↔ ∀ d ∈ L, ∀ q, ¬ OccursAt d s q := by
  simp only [picked, List.findSome?_eq_none_iff, Option.map_eq_none_iff]
  constructor
  · intro h d hd
    exact (first_eq_none_iff (hL.nonempty d hd)).mp (h d hd)
  · intro h d hd
    exact (first_eq_none_iff (hL.nonempty d hd)).mpr (h d hd)

theorem occursAt_of_picked (hL : PrefixFree L) {s d : List UInt8} {pos : ℕ}
    (h : picked L s = some (pos, d)) : d ∈ L ∧ OccursAt d s pos := by
  obtain ⟨e, he, h⟩ := List.exists_of_findSome?_eq_some h
  simp only [Option.map_eq_some_iff, Prod.mk.injEq] at h
  obtain ⟨_, hfirst, rfl, rfl⟩ := h
  exact ⟨he, ((first_eq_some_iff (hL.nonempty _ he)).mp hfirst).1⟩

/-- A delimiter that is picked ends in the new data. -/
theorem length_lt_of_picked (hL : PrefixFree L) {u d : List UInt8} {pos : ℕ}
    (hu : ∀ d ∈ L, ∀ q, ¬ OccursAt d u q) (h : picked L (u ++ w) = some (pos, d)) :
    u.length < pos + d.length ∧ pos + d.length ≤ u.length + w.length := by
  obtain ⟨hd, hoc⟩ := occursAt_of_picked hL h
  have hne := hL.nonempty d hd
  have hle := hoc.add_length_le hne
  rw [List.length_append] at hle
  refine ⟨?_, hle⟩
  by_contra hlt
  exact hu d hd pos (hoc.of_append hne (by omega))

/-! ## One write -/

/-- The state between two calls: no delimiter is in the buffer. -/
structure Undelimited (st : ParseSettings) (p : SubParser σ) : Prop where
  holds : Holds st p
  none : ∀ d ∈ st.parseMultiDelimiter, ∀ q, ¬ OccursAt d p.unparsedBuffer.bytes q

/-- What a write in `PARSE_MODE_MULTIDELIMITER` does to a buffer without a delimiter. -/
theorem write_multiDelimiter_cases (hkeep : KeepsSettings parse)
    (hmode : st.parseMode = .multiDelimiter) (hL : PrefixFree st.parseMultiDelimiter)
    (hM : st.parseDataTargetSize < 2 ^ 64) (h : Undelimited st p) (hw : w ≠ [])
    (hfit : w.length ≤ p.unparsedBuffer.getSizeLeft) :
    (p.ChunkLimit w ∧ ∃ p', p.write parse heap w = (p', none) ∧ p'.seen = p.seen) ∨
      (¬ p.ChunkLimit w ∧ ∃ p' pos d,
        picked st.parseMultiDelimiter (p.unparsedBuffer.bytes ++ w) = some (pos, d) ∧
        p.write parse heap w = (p', some (pos + d.length - p.unparsedBuffer.bytes.length)) ∧
        Undelimited st p' ∧ p'.unparsedBuffer.bytes = [] ∧
        p'.seen = p.seen ++ [⟨(p.unparsedBuffer.bytes ++ w).take pos, d⟩]) ∨
      (¬ p.ChunkLimit w ∧ ∃ p',
        picked st.parseMultiDelimiter (p.unparsedBuffer.bytes ++ w) = none ∧
        p.write parse heap w = (p', some w.length) ∧ Undelimited st p' ∧
        p'.unparsedBuffer.bytes = p.unparsedBuffer.bytes ++ w ∧ p'.seen = p.seen) := by
  obtain ⟨h, hnone⟩ := h
  have hwrite : p.write parse heap w =
      ((p.parseByMultiDelimiter parse w).1, (p.parseByMultiDelimiter parse w).2.toOption) := by
    simp only [write, writeIntoParser, if_neg hw, h.parseMode, hmode]
  have hleft : p.unparsedBuffer.getSizeLeft ≠ 0 := by
    have := List.length_pos_iff.mpr hw
    omega
  by_cases hlimit : p.ChunkLimit w
  · obtain ⟨c, hc⟩ := appendToUnparsedBuffer_chunkLimit h hM hw hleft hlimit
    refine Or.inl ⟨hlimit, { p with unparsedBuffer := c }, ?_, rfl⟩
    rw [hwrite, parseByMultiDelimiter, hc]
    rfl
  obtain ⟨c, happ, hc, hbytes, -, -⟩ := appendToUnparsedBuffer_stored h hM hw hleft hlimit
  rw [List.take_of_length_le hfit] at happ hbytes
  have hfind : c.findAny p.parseMultiDelimiter true 0 0 =
      picked st.parseMultiDelimiter (p.unparsedBuffer.bytes ++ w) := by
    rw [h.parseMultiDelimiter hmode, ← hbytes]
    exact BChunks.findAny_eq hc.size_eq hc.counted.fits hL.nonempty
  cases hpick : picked st.parseMultiDelimiter (p.unparsedBuffer.bytes ++ w) with
  | some found =>
      obtain ⟨pos, d⟩ := found
      rw [hpick] at hfind
      have hc' : Holds st { p with unparsedBuffer := c, delimiterFound := d } :=
        ⟨hc.settings, hc.streamEnded, hc.limits, hc.counted, hc.chunks, hc.size_le⟩
      obtain ⟨h1, h2, h3, h4⟩ := hc'.parsed parse hkeep (c.bytes.take pos)
      obtain ⟨hlt, hle⟩ := length_lt_of_picked hL hnone hpick
      have hempty : ∀ d ∈ st.parseMultiDelimiter, ∀ q, ¬ OccursAt d ([] : List UInt8) q :=
        fun d hd q => (first_eq_none_iff (hL.nonempty d hd)).mp (first_nil (hL.nonempty d hd)) q
      refine Or.inr (Or.inl ⟨hlimit, _, pos, d, rfl, ?_, ⟨h1, ?_⟩, ?_, ?_⟩)
      · rw [hwrite, parseByMultiDelimiter, happ]
        simp only [hfind, Written.toOption]
        have hfits : c.size < 2 ^ 64 := hc.counted.fits
        have hsize : c.size = c.bytes.length := hc.size_eq
        rw [hbytes, List.length_append] at hsize
        have hmod : (pos + d.length) % 2 ^ 64 = pos + d.length := Nat.mod_eq_of_lt (by omega)
        simp only [h4, h.size_eq, hmod]
        rw [subSizeT_of_le hlt.le (by omega)]
      · rw [h2]
        exact hempty
      · rw [h2]
        rfl
      · rw [h3, hbytes]
  | none =>
      rw [hpick] at hfind
      have hc' : Holds st { p with unparsedBuffer := c, delimiterFound := [] } :=
        ⟨hc.settings, hc.streamEnded, hc.limits, hc.counted, hc.chunks, hc.size_le⟩
      refine Or.inr (Or.inr ⟨hlimit, { p with unparsedBuffer := c, delimiterFound := [] }, rfl, ?_,
        ⟨hc', ?_⟩, hbytes, rfl⟩)
      · rw [hwrite, parseByMultiDelimiter, happ]
        simp only [hfind, h.streamEnded, Bool.false_eq_true, if_false, Written.toOption]
      · rw [hbytes]
        exact (picked_eq_none_iff hL).mp hpick

/-! ## Whole runs -/

/-- The pieces of a stream as `parse()` is shown them. -/
def shown (ps : List (List UInt8 × List UInt8)) : List Seen := ps.map (fun x => ⟨x.1, x.2⟩)

/-- A run in `PARSE_MODE_MULTIDELIMITER`, seen from a state with some data in the buffer. -/
structure MultiRun (st : ParseSettings) (p : SubParser σ) (ws : List (List UInt8))
    (r : Result (SubParser σ) UInt8) : Prop where
  extends_seen : ∃ more, r.final.seen = p.seen ++ more
  exact_iff : (r.outcome = .done ∧ ∃ ps rest,
      Splits (earliest st.parseMultiDelimiter) (p.unparsedBuffer.bytes ++ ws.flatten) ps rest ∧
      r.final.seen = p.seen ++ shown ps) ↔
    ∀ c ∈ r.calls, PicksEarliest st.parseMultiDelimiter c.before c.offered c.later

/-- The pick of a call is the earliest delimiter of the stream exactly when none precedes
it. -/
theorem earliest_of_picked (hL : PrefixFree L) {u d t : List UInt8} {pos : ℕ}
    (h : picked L u = some (pos, d)) :
    earliest L (u ++ t) = some (pos, d) ↔ ∀ q < pos, ∀ e ∈ L, ¬ OccursAt e (u ++ t) q := by
  obtain ⟨hd, hoc⟩ := occursAt_of_picked hL h
  rw [earliest_eq_some_iff hL]
  exact ⟨fun h => h.2.2, fun h => ⟨hd, hoc.append (hL.nonempty d hd) t, h⟩⟩

/-- A call that ends a piece, followed by the rest of the run. -/
theorem MultiRun.found (hL : PrefixFree st.parseMultiDelimiter) {p' : SubParser σ}
    {ws : List (List UInt8)} {pos : ℕ} {d : List UInt8} {r : Result (SubParser σ) UInt8}
    (hlimit : ¬ p.ChunkLimit w)
    (hnone : ∀ d ∈ st.parseMultiDelimiter, ∀ q, ¬ OccursAt d p.unparsedBuffer.bytes q)
    (hpick : picked st.parseMultiDelimiter (p.unparsedBuffer.bytes ++ w) = some (pos, d))
    (hbytes : p'.unparsedBuffer.bytes = [])
    (hseen : p'.seen = p.seen ++ [⟨(p.unparsedBuffer.bytes ++ w).take pos, d⟩])
    (hr : MultiRun st p' (refeed (pos + d.length - p.unparsedBuffer.bytes.length) w ws) r) :
    MultiRun st p (w :: ws)
      ⟨⟨p, w, ws, some (pos + d.length - p.unparsedBuffer.bytes.length)⟩ :: r.calls,
        r.final, r.outcome⟩ := by
  obtain ⟨hlt, hle⟩ := length_lt_of_picked hL hnone hpick
  obtain ⟨⟨more, hmore⟩, hiff⟩ := hr
  have hk : pos + d.length - p.unparsedBuffer.bytes.length ≤ w.length := by omega
  have hstream : p.unparsedBuffer.bytes ++ (w :: ws).flatten =
      (p.unparsedBuffer.bytes ++ w) ++ ws.flatten := by
    rw [List.flatten_cons, List.append_assoc]
  have hdrop : (p.unparsedBuffer.bytes ++ (w :: ws).flatten).drop (pos + d.length) =
      (refeed (pos + d.length - p.unparsedBuffer.bytes.length) w ws).flatten := by
    rw [flatten_refeed hk, List.drop_append, List.drop_eq_nil_of_le hlt.le, List.nil_append]
  have hpiece : (p.unparsedBuffer.bytes ++ w).take pos =
      (p.unparsedBuffer.bytes ++ (w :: ws).flatten).take pos := by
    rw [hstream]
    refine (List.take_append_of_le_length ?_).symm
    rw [List.length_append]
    omega
  have hearliest := earliest_of_picked hL (t := ws.flatten) hpick
  rw [← hstream] at hearliest
  rw [hpiece] at hseen
  rw [hbytes, List.nil_append] at hiff
  refine ⟨⟨_, by rw [hmore, hseen, List.append_assoc]⟩, ?_⟩
  simp only [List.mem_cons, forall_eq_or_imp]
  constructor
  · rintro ⟨hdone, ps, rest, hsplit, hall⟩
    -- the first piece shown is the first piece of the stream
    have hshown : shown ps =
        ⟨(p.unparsedBuffer.bytes ++ (w :: ws).flatten).take pos, d⟩ :: more := by
      rw [hmore, hseen, List.append_assoc] at hall
      exact (List.append_cancel_left hall).symm
    cases hsplit with
    | rest _ => simp [shown] at hshown
    | @piece _ pos' d' ps' _ hnext hsplit' =>
        have hle' := (((earliest_eq_some_iff hL).mp hnext).2.1).add_length_le
          (hL.nonempty d' ((earliest_eq_some_iff hL).mp hnext).1)
        simp only [shown, List.map_cons, List.cons.injEq, Seen.mk.injEq] at hshown
        obtain ⟨⟨htake, rfl⟩, hrest⟩ := hshown
        have hpos : pos' = pos := by
          have hlen := congrArg List.length htake
          rw [List.length_take, List.length_take, List.length_append, List.flatten_cons,
            List.length_append] at hlen
          rw [List.length_append, List.flatten_cons, List.length_append] at hle'
          omega
        subst hpos
        rw [hdrop] at hsplit'
        refine ⟨⟨hlimit, ?_⟩, hiff.mp ⟨hdone, ps', rest, hsplit', ?_⟩⟩
        · intro q e hq
          rw [hpick] at hq
          cases hq
          exact hearliest.mp hnext
        · rw [hmore, ← hrest]
          rfl
  · rintro ⟨hcall, hcalls⟩
    obtain ⟨hdone, ps, rest, hsplit, hall⟩ := hiff.mpr hcalls
    refine ⟨hdone, _, rest, Splits.piece (hearliest.mpr (hcall.notPreceded pos d hpick))
      (by rw [hdrop]; exact hsplit), ?_⟩
    rw [hall, hseen, List.append_assoc]
    rfl

/-- A call that ends no piece, followed by the rest of the run. -/
theorem MultiRun.kept {p' : SubParser σ} {ws : List (List UInt8)}
    {r : Result (SubParser σ) UInt8} (hlimit : ¬ p.ChunkLimit w)
    (hpick : picked st.parseMultiDelimiter (p.unparsedBuffer.bytes ++ w) = none)
    (hbytes : p'.unparsedBuffer.bytes = p.unparsedBuffer.bytes ++ w) (hseen : p'.seen = p.seen)
    (hr : MultiRun st p' (refeed w.length w ws) r) :
    MultiRun st p (w :: ws) ⟨⟨p, w, ws, some w.length⟩ :: r.calls, r.final, r.outcome⟩ := by
  have hstream : p'.unparsedBuffer.bytes ++ (refeed w.length w ws).flatten =
      p.unparsedBuffer.bytes ++ (w :: ws).flatten := by
    rw [hbytes, flatten_refeed (le_refl _), List.flatten_cons, List.drop_left, List.append_assoc]
  have hcall : PicksEarliest st.parseMultiDelimiter p w ws := by
    refine ⟨hlimit, fun pos d hp => ?_⟩
    rw [hpick] at hp
    cases hp
  obtain ⟨hmore, hiff⟩ := hr
  rw [hstream, hseen] at hiff
  rw [hseen] at hmore
  refine ⟨hmore, ?_⟩
  simp only [List.mem_cons, forall_eq_or_imp]
  rw [hiff]
  exact ⟨fun h => ⟨hcall, h⟩, fun h => h.2⟩

/-- The run of `PARSE_MODE_MULTIDELIMITER` over any list of writes that fit the target
size. -/
theorem multiRun (hkeep : KeepsSettings parse) (hmode : st.parseMode = .multiDelimiter)
    (hL : PrefixFree st.parseMultiDelimiter) (hM : st.parseDataTargetSize < 2 ^ 64) {fuel : ℕ}
    (h : Undelimited st p) {ws : List (List UInt8)} (hws : ∀ w ∈ ws, w ≠ [])
    (hfuel : ws.flatten.length ≤ fuel)
    (hfit : ∀ c ∈ (feed (write parse heap) (fun _ => false) fuel p ws).calls,
      c.offered.length ≤ c.before.unparsedBuffer.getSizeLeft) :
    MultiRun st p ws (feed (write parse heap) (fun _ => false) fuel p ws) := by
  refine feed_induction (Undelimited st) (fun p w _ => w.length ≤ p.unparsedBuffer.getSizeLeft)
    (MultiRun st) ?progress ?keeps ?done ?failed ?stopped ?next fuel p ws h hws hfuel hfit
  case progress =>
    intro p w ws p' k h hw hg hwr
    rcases write_multiDelimiter_cases heap hkeep hmode hL hM h hw hg with
      ⟨-, _, hq, -⟩ | ⟨-, _, pos, d, hpick, hq, -⟩ | ⟨-, _, -, hq, -⟩
    · rw [hq] at hwr
      cases hwr
    · rw [hq] at hwr
      cases hwr
      have := length_lt_of_picked hL h.none hpick
      omega
    · rw [hq] at hwr
      cases hwr
      exact ⟨List.length_pos_iff.mpr hw, le_refl _⟩
  case keeps =>
    intro p w ws p' k h hw hg hwr _
    rcases write_multiDelimiter_cases heap hkeep hmode hL hM h hw hg with
      ⟨-, _, hq, -⟩ | ⟨-, _, pos, d, -, hq, hnext, -⟩ | ⟨-, _, -, hq, hnext, -⟩
    · rw [hq] at hwr
      cases hwr
    · rw [hq] at hwr
      cases hwr
      exact hnext
    · rw [hq] at hwr
      cases hwr
      exact hnext
  case done =>
    intro p h
    refine ⟨⟨[], by simp⟩, ?_⟩
    simp only [List.not_mem_nil, false_implies, implies_true, iff_true, List.flatten_nil,
      List.append_nil, true_and]
    exact ⟨[], _, .rest ((earliest_eq_none_iff hL).mpr h.none), by simp [shown]⟩
  case failed =>
    intro p w ws p' h hw hg hwr
    rcases write_multiDelimiter_cases heap hkeep hmode hL hM h hw hg with
      ⟨hlimit, _, hq, hseen⟩ | ⟨-, _, pos, d, -, hq, -⟩ | ⟨-, _, -, hq, -⟩
    · rw [hq] at hwr
      cases hwr
      refine ⟨⟨[], by simp [hseen]⟩, ?_⟩
      simp only [reduceCtorEq, false_and, List.mem_singleton, forall_eq, false_iff]
      exact fun hcall => hcall.chunks hlimit
    · rw [hq] at hwr
      cases hwr
    · rw [hq] at hwr
      cases hwr
  case stopped =>
    intro p w ws p' k _ _ _ _ hstop
    cases hstop
  case next =>
    intro p w ws p' k r h hw hg hwr _ hr
    rcases write_multiDelimiter_cases heap hkeep hmode hL hM h hw hg with
      ⟨-, _, hq, -⟩ | ⟨hlimit, _, pos, d, hpick, hq, -, hbytes, hseen⟩ |
      ⟨hlimit, _, hpick, hq, -, hbytes, hseen⟩
    · rw [hq] at hwr
      cases hwr
    · rw [hq] at hwr
      cases hwr
      exact hr.found hL hlimit h.none hpick hbytes hseen
    · rw [hq] at hwr
      cases hwr
      exact hr.kept hlimit hpick hbytes hseen

/-- **`PARSE_MODE_MULTIDELIMITER`.**  Two ways of cutting a stream into non-empty writes
that fit the target size go through and show `parse()` the same pairs, namely the pieces
between earliest delimiters with the delimiters that end them, exactly when at every call
of both the delimiter found by list order has no other one before it. -/
theorem multiDelimiter_segmentation (hkeep : KeepsSettings parse) (hL : PrefixFree L) (M : ℕ)
    (hM : M < 2 ^ 64) (derived : σ) (ws ws' : List (List UInt8)) (hws : ∀ w ∈ ws, w ≠ [])
    (hws' : ∀ w ∈ ws', w ≠ []) (hsame : ws.flatten = ws'.flatten) (fuel : ℕ)
    (hfuel : ws.flatten.length ≤ fuel) :
    let st : ParseSettings :=
      { parseMode := .multiDelimiter, parseMultiDelimiter := L, parseDataTargetSize := M }
    let r := feed (write parse heap) (fun _ => false) fuel (start st derived) ws
    let r' := feed (write parse heap) (fun _ => false) fuel (start st derived) ws'
    (∀ c ∈ r.calls, c.offered.length ≤ c.before.unparsedBuffer.getSizeLeft) →
    (∀ c ∈ r'.calls, c.offered.length ≤ c.before.unparsedBuffer.getSizeLeft) →
      ((r.outcome = .done ∧ r'.outcome = .done ∧ r.final.seen = r'.final.seen ∧
          ∃ ps rest, Splits (earliest L) ws.flatten ps rest ∧ r.final.seen = shown ps) ↔
        (∀ c ∈ r.calls, PicksEarliest L c.before c.offered c.later) ∧
          ∀ c ∈ r'.calls, PicksEarliest L c.before c.offered c.later) := by
  intro st r r' hfit hfit'
  have hstart : Undelimited st (start st derived) := by
    refine ⟨holds_start st derived, fun d hd q => ?_⟩
    exact (first_eq_none_iff (hL.nonempty d hd)).mp (first_nil (hL.nonempty d hd)) q
  have hrun : MultiRun st (start st derived) ws r :=
    multiRun heap hkeep rfl hL hM hstart hws hfuel hfit
  have hrun' : MultiRun st (start st derived) ws' r' :=
    multiRun heap hkeep rfl hL hM hstart hws' (hsame ▸ hfuel) hfit'
  have hiff : (r.outcome = .done ∧ ∃ ps rest, Splits (earliest L) ws.flatten ps rest ∧
      r.final.seen = shown ps) ↔ ∀ c ∈ r.calls, PicksEarliest L c.before c.offered c.later :=
    hrun.exact_iff
  have hiff' : (r'.outcome = .done ∧ ∃ ps rest, Splits (earliest L) ws'.flatten ps rest ∧
      r'.final.seen = shown ps) ↔ ∀ c ∈ r'.calls, PicksEarliest L c.before c.offered c.later :=
    hrun'.exact_iff
  rw [← hiff, ← hiff', ← hsame]
  constructor
  · rintro ⟨hdone, hdone', heq, ps, rest, hsplit, hseen⟩
    exact ⟨⟨hdone, ps, rest, hsplit, hseen⟩, hdone', ps, rest, hsplit, heq ▸ hseen⟩
  · rintro ⟨⟨hdone, ps, rest, hsplit, hseen⟩, hdone', ps', rest', hsplit', hseen'⟩
    obtain ⟨rfl, rfl⟩ := hsplit.functional hsplit'
    exact ⟨hdone, hdone', hseen.trans hseen'.symm, ps, rest, hsplit, hseen⟩

theorem prefixFree_form : PrefixFree [[(61 : UInt8)], [38]] := by
  refine ⟨by decide, ?_⟩
  intro d hd e he
  simp only [List.mem_cons, List.not_mem_nil, or_false] at hd he
  rcases hd with rfl | rfl <;> rcases he with rfl | rfl <;> decide

/-- Form data whose delimiters `=` and `&` come in the order of the list. -/
theorem multiDelimiter_segmentation_form :
    let st : ParseSettings :=
      { parseMode := .multiDelimiter, parseMultiDelimiter := [[61], [38]],
        parseDataTargetSize := 16 }
    let r := feed (write idle (fun _ _ => 0)) (fun _ => false) 4 (start st ()) [[97, 61, 98, 38]]
    let r' := feed (write idle (fun _ _ => 0)) (fun _ => false) 4 (start st ())
      [[97], [61, 98], [38]]
    (r.outcome = .done ∧ r'.outcome = .done ∧ r.final.seen = r'.final.seen ∧
        ∃ ps rest, Splits (earliest [[61], [38]]) [97, 61, 98, 38] ps rest ∧
          r.final.seen = shown ps) ↔
      (∀ c ∈ r.calls, PicksEarliest [[61], [38]] c.before c.offered c.later) ∧
        ∀ c ∈ r'.calls, PicksEarliest [[61], [38]] c.before c.offered c.later :=
  multiDelimiter_segmentation (fun _ _ => 0) keepsSettings_idle prefixFree_form 16 (by norm_num) ()
    [[97, 61, 98, 38]] [[97], [61, 98], [38]] (by decide) (by decide) (by decide) 4 (by decide)
    (by decide) (by decide)

/-- Form data in which a name without a value comes first: in one write it is taken for
part of the next name, in two writes it is not. -/
theorem multiDelimiter_depends_on_cut :
    let st : ParseSettings :=
      { parseMode := .multiDelimiter, parseMultiDelimiter := [[61], [38]],
        parseDataTargetSize := 16 }
    let r := feed (write idle (fun _ _ => 0)) (fun _ => false) 4 (start st ()) [[97, 38, 98, 61]]
    let r' := feed (write idle (fun _ _ => 0)) (fun _ => false) 4 (start st ()) [[97, 38], [98, 61]]
    PrefixFree [[(61 : UInt8)], [38]] ∧
      (∀ c ∈ r.calls, c.offered.length ≤ c.before.unparsedBuffer.getSizeLeft) ∧
      (∀ c ∈ r'.calls, c.offered.length ≤ c.before.unparsedBuffer.getSizeLeft) ∧
      r.final.seen = [⟨[97, 38, 98], [61]⟩] ∧
      r'.final.seen = [⟨[97], [38]⟩, ⟨[98], [61]⟩] :=
  ⟨prefixFree_form, by decide⟩

end SubParser

end Mantids
