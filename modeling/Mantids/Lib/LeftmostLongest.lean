/-
# Several words, from left to right and the longest first

A sequence is cut at the words of a list: at the leftmost place where any of them occurs, and there
at the longest one.

* `next` — the place and the word, and `next_eq_some_iff`, `next_eq_none_iff`: what they are;
* `next_congr` — words that do not occur do not matter;
* `Settled` — a beginning that no word occurs in, whatever follows;
* `next_append_of_settled` — the search behind such a beginning;
* `render` — the sequence with marks in place of the words;
* `Splits.restore`, `Splits.isNext` — the cuts of a sequence, in its own positions.
-/
import Mantids.Lib.Occurrence
import Mathlib.Data.List.MinMax

namespace LeftmostLongest

open Occurrence

variable {α : Type*}

/-! ## The next word -/

/-- `d` is the longest word at the leftmost place where there is one. -/
structure IsNext (L : List (List α)) (s : List α) (p : ℕ) (d : List α) : Prop where
  mem : d ∈ L
  occurs : OccursAt d s p
  leftmost : ∀ q < p, ∀ e ∈ L, ¬ OccursAt e s q
  longest : ∀ e ∈ L, OccursAt e s p → e.length ≤ d.length

theorem IsNext.unique {L : List (List α)} {s d e : List α} {p q : ℕ} (h : IsNext L s p d)
    (h' : IsNext L s q e) : p = q ∧ d = e := by
  obtain rfl : p = q := by
    rcases Nat.lt_trichotomy p q with hlt | heq | hlt
    · exact absurd h.occurs (h'.leftmost p hlt d h.mem)
    · exact heq
    · exact absurd h'.occurs (h.leftmost q hlt e h'.mem)
  refine ⟨rfl, ?_⟩
  have hlen : d.length = e.length :=
    Nat.le_antisymm (h'.longest d h.mem h.occurs) (h.longest e h'.mem h'.occurs)
  exact (List.prefix_of_prefix_length_le h.occurs h'.occurs hlen.le).eq_of_length hlen

section Next

variable [DecidableEq α]

/-- The leftmost place where a word of the list occurs, and the longest word there. -/
def next (L : List (List α)) (s : List α) : Option (ℕ × List α) :=
  ((List.range (s.length + 1)).find? fun p => ∃ d ∈ L, OccursAt d s p).bind fun p =>
    ((L.filter fun d => OccursAt d s p).argmax List.length).map (Prod.mk p)

variable {L : List (List α)} {s : List α}

theorem isNext_of_next {p : ℕ} {d : List α} (h : next L s = some (p, d)) : IsNext L s p d := by
  unfold next at h
  obtain ⟨q, hq, hmax⟩ := Option.bind_eq_some_iff.mp h
  obtain ⟨e, he, heq⟩ := Option.map_eq_some_iff.mp hmax
  obtain ⟨rfl, rfl⟩ := Prod.mk.inj heq
  obtain ⟨hmem, hlongest, -⟩ := List.mem_argmax_iff.mp he
  obtain ⟨hL, hoccurs⟩ := List.mem_filter.mp hmem
  refine ⟨hL, of_decide_eq_true hoccurs, ?_, ?_⟩
  · rw [List.find?_range_eq_some] at hq
    intro r hr f hf hoc
    have hnot := hq.2.2 r hr
    simp only [Bool.not_eq_true', decide_eq_false_iff_not] at hnot
    exact hnot ⟨f, hf, hoc⟩
  · intro f hf hoc
    exact hlongest f (List.mem_filter.mpr ⟨hf, decide_eq_true hoc⟩)

theorem next_eq_none_iff (hne : ∀ e ∈ L, e ≠ []) :
    next L s = none ↔ ∀ e ∈ L, ∀ p, ¬ OccursAt e s p := by
  unfold next
  rw [Option.bind_eq_none_iff]
  constructor
  · intro h e he p hoc
    have hle := hoc.add_length_le (hne e he)
    cases hf : (List.range (s.length + 1)).find? (fun p => ∃ d ∈ L, OccursAt d s p) with
    | none =>
      rw [List.find?_range_eq_none] at hf
      have hnot := hf p (by omega)
      simp only [Bool.not_eq_true', decide_eq_false_iff_not] at hnot
      exact hnot ⟨e, he, hoc⟩
    | some q =>
      have hempty := h q hf
      rw [Option.map_eq_none_iff, List.argmax_eq_none, List.filter_eq_nil_iff] at hempty
      have hq := List.find?_some hf
      simp only [decide_eq_true_eq] at hq
      obtain ⟨d, hd, hoc'⟩ := hq
      exact hempty d hd (decide_eq_true hoc')
  · intro h p hf
    have hp := List.find?_some hf
    simp only [decide_eq_true_eq] at hp
    obtain ⟨d, hd, hoc⟩ := hp
    exact absurd hoc (h d hd p)

theorem next_eq_some_iff (hne : ∀ e ∈ L, e ≠ []) {p : ℕ} {d : List α} :
    next L s = some (p, d) ↔ IsNext L s p d := by
  refine ⟨isNext_of_next, fun h => ?_⟩
  cases hnext : next L s with
  | none => exact absurd h.occurs ((next_eq_none_iff hne).mp hnext d h.mem p)
  | some qe =>
    obtain ⟨hp, hd⟩ := h.unique (isNext_of_next (show next L s = some (qe.1, qe.2) from hnext))
    rw [hp, hd]

/-- Words that do not occur do not matter. -/
theorem next_congr {L' : List (List α)} (hne : ∀ e ∈ L, e ≠ []) (hsub : L' ⊆ L)
    (hrest : ∀ e ∈ L, e ∉ L' → ∀ p, ¬ OccursAt e s p) : next L' s = next L s := by
  have hne' : ∀ e ∈ L', e ≠ [] := fun e he => hne e (hsub he)
  have hin : ∀ e ∈ L, ∀ p, OccursAt e s p → e ∈ L' := by
    intro e he p hoc
    by_contra hnot
    exact hrest e he hnot p hoc
  -- Both searches are determined by the occurrences, and these are the same.
  cases hnext : next L s with
  | none =>
    rw [next_eq_none_iff hne] at hnext
    rw [next_eq_none_iff hne']
    exact fun e he => hnext e (hsub he)
  | some pd =>
    obtain ⟨p, d⟩ := pd
    obtain ⟨hmem, hoccurs, hleft, hlong⟩ := (next_eq_some_iff hne).mp hnext
    rw [next_eq_some_iff hne']
    exact ⟨hin d hmem p hoccurs, hoccurs, fun q hq e he => hleft q hq e (hsub he),
      fun e he => hlong e (hsub he)⟩

end Next

/-! ## Beginnings without a word -/

/-- No word of the list starts in `s`, whatever follows. -/
def Settled (L : List (List α)) (s : List α) : Prop :=
  ∀ t, ∀ q < s.length, ∀ e ∈ L, ¬ OccursAt e (s ++ t) q

theorem settled_nil (L : List (List α)) : Settled L [] :=
  fun _ q hq => absurd hq (Nat.not_lt_zero q)

/-- An occurrence behind such a beginning. -/
theorem occursAt_append_right (e s t : List α) (q : ℕ) :
    OccursAt e (s ++ t) (s.length + q) ↔ OccursAt e t q := by
  rw [OccursAt, OccursAt, List.drop_append, List.drop_eq_nil_of_le (by omega), List.nil_append,
    Nat.add_sub_cancel_left]

/-- The part in front of a place, with a mark of other letters behind it, is settled. -/
theorem settled_take_append {L : List (List α)} {s mark : List α} {p : ℕ} (hmark : mark ≠ [])
    (hother : ∀ e ∈ L, ∀ c ∈ mark, c ∉ e) (hne : ∀ e ∈ L, e ≠ [])
    (hnone : ∀ q < p, ∀ e ∈ L, ¬ OccursAt e s q) : Settled L (s.take p ++ mark) := by
  intro t q hq e he hoc
  obtain ⟨c, cs, rfl⟩ := List.exists_cons_of_ne_nil hmark
  have hne := hne e he
  have hlen := List.length_pos_iff.mpr hne
  rw [List.append_assoc] at hoc
  by_cases hin : q + e.length ≤ (s.take p).length
  · -- The word is in the part in front.
    have hfront := hoc.of_append hne hin
    have hwhole := hfront.append hne (s.drop p)
    rw [List.take_append_drop] at hwhole
    rw [List.length_take] at hin
    exact hnone q (by omega) e he hwhole
  · -- A letter of the mark is in the word.
    set k := max q (s.take p).length with hk
    have hkmark : k - (s.take p).length < (c :: cs).length := by
      have hpos : 0 < (c :: cs).length := Nat.succ_pos _
      rw [List.length_append] at hq
      omega
    have hletter : (s.take p ++ (c :: cs ++ t))[k]? = some (c :: cs)[k - (s.take p).length] := by
      rw [List.getElem?_append_right (by omega), List.getElem?_append_left hkmark,
        List.getElem?_eq_getElem hkmark]
    have hword : e[k - q]? = (s.take p ++ (c :: cs ++ t))[k]? := by
      obtain ⟨rest, hrest⟩ := hoc
      have hget : (e ++ rest)[k - q]? = (s.take p ++ (c :: cs ++ t))[k]? := by
        rw [hrest, List.getElem?_drop, Nat.add_sub_cancel' (by omega)]
      rwa [List.getElem?_append_left (by omega)] at hget
    rw [hletter] at hword
    exact hother e he _ (List.getElem_mem hkmark) (List.mem_of_getElem? hword)

theorem Settled.append {L : List (List α)} {s t : List α} (h : Settled L s) (ht : Settled L t) :
    Settled L (s ++ t) := by
  intro u q hq e he hoc
  rw [List.append_assoc] at hoc
  -- An occurrence starts in one of the two parts.
  by_cases hlt : q < s.length
  · exact h (t ++ u) q hlt e he hoc
  · obtain ⟨k, rfl⟩ := Nat.exists_eq_add_of_le (Nat.le_of_not_lt hlt)
    rw [occursAt_append_right] at hoc
    rw [List.length_append] at hq
    exact ht u k (by omega) e he hoc

theorem Settled.occursAt_iff {L : List (List α)} {s t e : List α} (h : Settled L s) (he : e ∈ L)
    (p : ℕ) : OccursAt e (s ++ t) p ↔ ∃ q, p = s.length + q ∧ OccursAt e t q := by
  constructor
  · intro hoc
    have hle : s.length ≤ p := by
      by_contra hlt
      exact h t p (Nat.lt_of_not_le hlt) e he hoc
    obtain ⟨k, rfl⟩ := Nat.exists_eq_add_of_le hle
    exact ⟨k, rfl, (occursAt_append_right e s t k).mp hoc⟩
  · rintro ⟨q, rfl, hoc⟩
    exact (occursAt_append_right e s t q).mpr hoc

/-- The search finds what it finds behind the beginning. -/
theorem next_append_of_settled [DecidableEq α] {L : List (List α)} {s : List α}
    (hne : ∀ e ∈ L, e ≠ []) (h : Settled L s) (t : List α) :
    next L (s ++ t) = (next L t).map fun pd => (s.length + pd.1, pd.2) := by
  cases hnext : next L t with
  | none =>
    rw [next_eq_none_iff hne] at hnext
    rw [Option.map_none, next_eq_none_iff hne]
    intro e he p hoc
    obtain ⟨q, -, hq⟩ := (h.occursAt_iff he p).mp hoc
    exact hnext e he q hq
  | some pd =>
    obtain ⟨p, d⟩ := pd
    obtain ⟨hmem, hoccurs, hleft, hlong⟩ := (next_eq_some_iff hne).mp hnext
    rw [Option.map_some, next_eq_some_iff hne]
    refine ⟨hmem, (occursAt_append_right d s t p).mpr hoccurs, fun q hq e he hoc => ?_,
      fun e he hoc => hlong e he ((occursAt_append_right e s t p).mp hoc)⟩
    obtain ⟨k, rfl, hk⟩ := (h.occursAt_iff he q).mp hoc
    exact hleft k (by omega) e he hk

/-! ## Marks in place of the words -/

/-- The pieces with marks behind them, which are numbered from `k` on. -/
def render (mark : ℕ → List α) (k : ℕ) : List (List α × List α) → List α
  | [] => []
  | piece :: ps => piece.1 ++ mark k ++ render mark (k + 1) ps

/-- The pieces with the words behind them. -/
def whole (ps : List (List α × List α)) : List α := ps.flatMap fun piece => piece.1 ++ piece.2

theorem whole_cons (a d : List α) (ps : List (List α × List α)) :
    whole ((a, d) :: ps) = a ++ d ++ whole ps := rfl

/-- Where the word of a piece stands in the sequence. -/
def start (ps : List (List α × List α)) (k : ℕ) : ℕ :=
  (whole (ps.take k)).length + (ps.getD k ([], [])).1.length

theorem start_succ (a d : List α) (ps : List (List α × List α)) (k : ℕ) :
    start ((a, d) :: ps) (k + 1) = a.length + d.length + start ps k := by
  rw [start, start, List.take_succ_cons, List.getD_cons_succ, whole_cons, List.length_append,
    List.length_append, Nat.add_assoc]

/-! ## The cuts of a sequence -/

section Splits

variable [DecidableEq α] {L : List (List α)} {s r : List α} {ps : List (List α × List α)}

theorem exists_splits_next (hne : ∀ e ∈ L, e ≠ []) (s : List α) :
    ∃ ps r, Splits (next L) s ps r := by
  apply exists_splits
  intro s p d h
  have hnext := isNext_of_next h
  exact ⟨hne d hnext.mem, hnext.occurs.add_length_le (hne d hnext.mem)⟩

/-- The pieces, the words and the rest are the sequence. -/
theorem restore (h : Splits (next L) s ps r) : whole ps ++ r = s := by
  induction h with
  | rest => rfl
  | @piece s p d ps r hs _ ih =>
    have hoccurs : d <+: s.drop p := (isNext_of_next hs).occurs
    obtain ⟨t, ht⟩ := hoccurs
    have hbehind : s.drop (p + d.length) = t := by
      rw [← List.drop_drop, ← ht, List.drop_left]
    rw [hbehind] at ih
    rw [whole_cons, List.append_assoc, ih, List.append_assoc, ht, List.take_append_drop]

/-- What is not in the sequence is in none of the pieces, and not in the rest. -/
theorem not_mem_of_splits (h : Splits (next L) s ps r) {c : α} (hc : c ∉ s) :
    (∀ piece ∈ ps, c ∉ piece.1) ∧ c ∉ r := by
  rw [← restore h, List.mem_append, not_or] at hc
  refine ⟨?_, hc.2⟩
  intro piece hpiece hin
  apply hc.1
  exact List.mem_flatMap.mpr ⟨piece, hpiece, List.mem_append_left _ hin⟩

theorem mem_of_splits (h : Splits (next L) s ps r) : ∀ piece ∈ ps, piece.2 ∈ L := by
  induction h with
  | rest => exact fun piece hpiece => absurd hpiece List.not_mem_nil
  | piece hs _ ih =>
    intro piece hpiece
    rcases List.mem_cons.mp hpiece with rfl | hin
    · exact (isNext_of_next hs).mem
    · exact ih piece hin

theorem length_le_of_splits (hne : ∀ e ∈ L, e ≠ []) (h : Splits (next L) s ps r) :
    ps.length ≤ s.length := by
  induction h with
  | rest => exact Nat.zero_le _
  | @piece s p d ps r hs _ ih =>
    have hnext := isNext_of_next hs
    have hpos := List.length_pos_iff.mpr (hne d hnext.mem)
    have hle := hnext.occurs.add_length_le (hne d hnext.mem)
    rw [List.length_drop] at ih
    rw [List.length_cons]
    omega

/-- No word occurs in what is left. -/
theorem not_occursAt_rest (hne : ∀ e ∈ L, e ≠ []) (h : Splits (next L) s ps r) :
    ∀ e ∈ L, ∀ p, ¬ OccursAt e r p := by
  induction h with
  | rest hs => exact (next_eq_none_iff hne).mp hs
  | piece _ _ ih => exact ih

/-- **The words of the cuts.**  Each is the longest at its place, and no word starts between it and
the word before. -/
theorem isNext_start (hne : ∀ e ∈ L, e ≠ []) (h : Splits (next L) s ps r) {k : ℕ}
    (hk : k < ps.length) :
    OccursAt ps[k].2 s (start ps k) ∧
      (∀ e ∈ L, OccursAt e s (start ps k) → e.length ≤ ps[k].2.length) ∧
        ∀ q, (whole (ps.take k)).length ≤ q → q < start ps k → ∀ e ∈ L, ¬ OccursAt e s q := by
  induction h generalizing k with
  | rest => exact absurd hk (Nat.not_lt_zero k)
  | @piece s p d ps r hs hrest ih =>
    have hnext := isNext_of_next hs
    have hle := hnext.occurs.add_length_le (hne d hnext.mem)
    have htake : (s.take p).length = p := by
      rw [List.length_take]
      omega
    cases k with
    | zero =>
      have hstart : start ((s.take p, d) :: ps) 0 = p := by
        rw [start, List.take_zero, List.getD_cons_zero, htake]
        exact Nat.zero_add p
      rw [hstart]
      exact ⟨hnext.occurs, hnext.longest, fun q _ hq => hnext.leftmost q hq⟩
    | succ k =>
      obtain ⟨hoccurs, hlongest, hbetween⟩ := ih (Nat.lt_of_succ_lt_succ hk)
      rw [start_succ, htake]
      refine ⟨(occursAt_drop _ _ _ _).mp hoccurs, fun e he hoc => ?_, fun q hge hlt e he hoc => ?_⟩
      · exact hlongest e he ((occursAt_drop _ _ _ _).mpr hoc)
      · rw [List.take_succ_cons, whole_cons, List.length_append, List.length_append, htake] at hge
        obtain ⟨j, rfl⟩ := Nat.exists_eq_add_of_le (show p + d.length ≤ q by omega)
        exact hbetween j (by omega) (by omega) e he ((occursAt_drop _ _ _ _).mpr hoc)

/-- With marks of letters that no word has, no word occurs any more. -/
theorem settled_render {mark : ℕ → List α} (hne : ∀ e ∈ L, e ≠ []) (hmark : ∀ k, mark k ≠ [])
    (hother : ∀ k, ∀ e ∈ L, ∀ c ∈ mark k, c ∉ e) (h : Splits (next L) s ps r) (k : ℕ) :
    Settled L (render mark k ps) := by
  induction h generalizing k with
  | rest => exact settled_nil L
  | @piece s p d ps r hs hrest ih =>
    rw [render]
    apply Settled.append
    · exact settled_take_append (hmark k) (hother k) hne (isNext_of_next hs).leftmost
    · exact ih (k + 1)

end Splits

end LeftmostLongest
