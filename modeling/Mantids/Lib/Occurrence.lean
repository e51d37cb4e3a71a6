/-
# Occurrences of a word in a sequence

A word `d` occurs in a sequence `s` at `p` when `s` continues with `d` from `p` on.

* `OccursAt`, `first` — occurrences and the leftmost one;
* `first_append` — the leftmost occurrence stays where it is when more data arrives;
* `overlap` — how many bytes at the end of a sequence may still become the word, and
  `le_of_occursAt_append`: a word that is only completed by later data starts there;
* `earliest` — the leftmost occurrence of any word of a list;
* `Splits` — cutting a sequence at successive occurrences;
* `Overlong` — some piece of a sequence is not ended within a bound.
-/
import Mathlib.Data.List.Infix
import Mathlib.Data.List.Lemmas
import Mathlib.Data.Nat.Find
import Mathlib.Tactic.Common

namespace Occurrence

variable {α : Type*}

/-! ## Occurrences -/

/-- The word `d` occurs in `s` at position `p`. -/
def OccursAt (d s : List α) (p : ℕ) : Prop := d <+: s.drop p

instance [DecidableEq α] (d s : List α) (p : ℕ) : Decidable (OccursAt d s p) :=
  inferInstanceAs (Decidable (_ <+: _))

theorem OccursAt.add_length_le {d s : List α} {p : ℕ} (hd : d ≠ []) (h : OccursAt d s p) :
    p + d.length ≤ s.length := by
  have hle := h.length_le
  have hpos := List.length_pos_iff.mpr hd
  rw [List.length_drop] at hle
  omega

theorem OccursAt.append {d s : List α} {p : ℕ} (hd : d ≠ []) (h : OccursAt d s p) (t : List α) :
    OccursAt d (s ++ t) p := by
  have hle := h.add_length_le hd
  rw [OccursAt, List.drop_append_of_le_length (by omega)]
  exact h.trans (List.prefix_append _ _)

theorem OccursAt.of_append {d s t : List α} {p : ℕ} (hd : d ≠ []) (h : OccursAt d (s ++ t) p)
    (hp : p + d.length ≤ s.length) : OccursAt d s p := by
  have hpos := List.length_pos_iff.mpr hd
  rw [OccursAt, List.drop_append_of_le_length (by omega)] at h
  refine List.prefix_of_prefix_length_le h (List.prefix_append _ _) ?_
  rw [List.length_drop]
  omega

theorem occursAt_drop (d s : List α) (k p : ℕ) :
    OccursAt d (s.drop k) p ↔ OccursAt d s (k + p) := by
  rw [OccursAt, OccursAt, List.drop_drop]

/-- What is cut off in front of an occurrence does not matter. -/
theorem OccursAt.drop_of_le {d s : List α} {k p : ℕ} (h : OccursAt d s p) (hk : k ≤ p) :
    OccursAt d (s.drop k) (p - k) := by
  rw [occursAt_drop, Nat.add_sub_cancel' hk]
  exact h

/-! ## The leftmost occurrence -/

section First

variable [DecidableEq α]

/-- The position of the leftmost occurrence. -/
def first (d s : List α) : Option ℕ :=
  (List.range (s.length + 1)).find? (fun p => OccursAt d s p)

theorem first_eq_some_iff {d s : List α} (hd : d ≠ []) {p : ℕ} :
    first d s = some p ↔ OccursAt d s p ∧ ∀ q < p, ¬ OccursAt d s q := by
  simp only [first, List.find?_range_eq_some, List.mem_range, decide_eq_true_eq,
    Bool.not_eq_true', decide_eq_false_iff_not]
  constructor
  · rintro ⟨h1, -, h2⟩
    exact ⟨h1, h2⟩
  · rintro ⟨h1, h2⟩
    have := h1.add_length_le hd
    exact ⟨h1, by omega, h2⟩

theorem first_eq_none_iff {d s : List α} (hd : d ≠ []) :
    first d s = none ↔ ∀ p, ¬ OccursAt d s p := by
  simp only [first, List.find?_range_eq_none, Bool.not_eq_true', decide_eq_false_iff_not]
  constructor
  · intro h p hp
    have := hp.add_length_le hd
    exact h p (by omega) hp
  · intro h p _
    exact h p

theorem first_nil {d : List α} (hd : d ≠ []) : first d [] = none := by
  rw [first_eq_none_iff hd]
  intro p hp
  have hle := hp.add_length_le hd
  have hpos := List.length_pos_iff.mpr hd
  rw [List.length_nil] at hle
  omega

theorem add_length_le_of_first {d s : List α} (hd : d ≠ []) {p : ℕ} (h : first d s = some p) :
    p + d.length ≤ s.length :=
  ((first_eq_some_iff hd).mp h).1.add_length_le hd

/-- More data behind it does not move the leftmost occurrence. -/
theorem first_append {d s : List α} (hd : d ≠ []) {p : ℕ} (h : first d s = some p)
    (t : List α) : first d (s ++ t) = some p := by
  have hle := add_length_le_of_first hd h
  rw [first_eq_some_iff hd] at h ⊢
  obtain ⟨hp, hleft⟩ := h
  refine ⟨hp.append hd t, fun q hq hoc => hleft q hq ?_⟩
  exact hoc.of_append hd (by omega)

/-- A word that is not there yet can only be completed by the data that follows. -/
theorem lt_of_first_append {d s t : List α} (hd : d ≠ []) {p : ℕ} (hnone : first d s = none)
    (h : first d (s ++ t) = some p) : s.length < p + d.length := by
  by_contra hle
  have hoc := ((first_eq_some_iff hd).mp h).1.of_append hd (Nat.le_of_not_lt hle)
  exact (first_eq_none_iff hd).mp hnone p hoc

/-- A word that starts with a letter not seen before is found where it was put. -/
theorem first_append_cons {c : α} {d s : List α} (hc : c ∉ s) (t : List α) :
    first (c :: d) (s ++ (c :: d ++ t)) = some s.length := by
  rw [first_eq_some_iff (by simp)]
  refine ⟨?_, fun q hq hoc => hc ?_⟩
  · rw [OccursAt, List.drop_left]
    exact List.prefix_append _ _
  · rw [OccursAt, List.drop_append_of_le_length hq.le] at hoc
    obtain ⟨r, hr⟩ := hoc
    rw [List.drop_eq_getElem_cons hq, List.cons_append, List.cons_append, List.cons.injEq] at hr
    rw [hr.1]
    exact List.getElem_mem hq

/-- A word that starts with a letter not in the sequence does not occur. -/
theorem first_eq_none_of_not_mem {c : α} {s : List α} (hc : c ∉ s) (d : List α) :
    first (c :: d) s = none := by
  rw [first_eq_none_iff (by simp)]
  rintro q ⟨r, hr⟩
  refine hc (List.mem_of_mem_drop (i := q) ?_)
  rw [← hr]
  simp

/-- A word of two different letters is found where it was put, when it was not there before. -/
theorem first_pair {a b : α} (hab : a ≠ b) {s : List α} (hnone : first [a, b] s = none)
    (t : List α) : first [a, b] (s ++ a :: b :: t) = some s.length := by
  rw [first_eq_some_iff (by simp)]
  refine ⟨?_, fun q hq hoc => ?_⟩
  · rw [OccursAt, List.drop_left]
    exact ⟨t, rfl⟩
  · by_cases hlast : q + 2 ≤ s.length
    · exact (first_eq_none_iff (by simp)).mp hnone q (hoc.of_append (by simp) hlast)
    · rw [OccursAt, List.drop_append_of_le_length hq.le, List.drop_eq_getElem_cons hq,
        List.drop_eq_nil_of_le (by omega)] at hoc
      obtain ⟨r, hr⟩ := hoc
      simp only [List.cons_append, List.nil_append, List.cons.injEq] at hr
      exact hab hr.2.1.symm

/-- In front of a sequence without the first letter of the word nothing changes. -/
theorem first_append_eq_none_of_not_mem {c : α} {d s t : List α} (hc : c ∉ s)
    (hnone : first (c :: d) t = none) : first (c :: d) (s ++ t) = none := by
  rw [first_eq_none_iff (by simp)] at hnone ⊢
  intro q hoc
  by_cases hq : q < s.length
  · obtain ⟨r, hr⟩ := hoc
    rw [List.drop_append_of_le_length hq.le, List.drop_eq_getElem_cons hq, List.cons_append,
      List.cons_append, List.cons.injEq] at hr
    exact hc (hr.1 ▸ List.getElem_mem hq)
  · refine hnone (q - s.length) ?_
    rw [OccursAt, List.drop_append, List.drop_eq_nil_of_le (by omega), List.nil_append] at hoc
    exact hoc

/-- Letters other than the second of a word of two do not complete it. -/
theorem first_pair_append_eq_none {a b : α} {s t : List α} (hnone : first [a, b] s = none)
    (hb : b ∉ t) : first [a, b] (s ++ t) = none := by
  rw [first_eq_none_iff (by simp)] at hnone ⊢
  intro q hoc
  by_cases hq : q + 2 ≤ s.length
  · exact hnone q (hoc.of_append (by simp) hq)
  · obtain ⟨r, hr⟩ := hoc
    have hdrop : b :: r = List.drop (q + 1) (s ++ t) := by
      rw [← List.drop_drop, ← hr]
      rfl
    rw [List.drop_append, List.drop_eq_nil_of_le (by omega), List.nil_append] at hdrop
    refine hb (List.mem_of_mem_drop (i := q + 1 - s.length) ?_)
    rw [← hdrop]
    exact List.mem_cons_self

/-! ## The part of a sequence that may still become the word -/

/-- The length of the longest proper beginning of `d` that `s` ends with. -/
def overlap (d s : List α) : ℕ :=
  Nat.findGreatest (fun v => s.drop (s.length - v) = d.take v) (min s.length (d.length - 1))

theorem overlap_lt_length {d : List α} (hd : d ≠ []) (s : List α) : overlap d s < d.length := by
  have hle : overlap d s ≤ min s.length (d.length - 1) := Nat.findGreatest_le _
  have hpos := List.length_pos_iff.mpr hd
  omega

/-- A word that straddles the end of `s` starts within its overlap. -/
theorem le_of_occursAt_append {d s t : List α} (hd : d ≠ []) {p : ℕ}
    (h : OccursAt d (s ++ t) p) (hnone : first d s = none) : s.length - overlap d s ≤ p := by
  by_contra hlt
  have hpos := List.length_pos_iff.mpr hd
  have hps : p < s.length := by omega
  have hend : s.length < p + d.length := by
    by_contra hle
    exact (first_eq_none_iff hd).mp hnone p (h.of_append hd (by omega))
  -- the end of `s` from `p` on is a beginning of the word
  have hov : s.drop (s.length - (s.length - p)) = d.take (s.length - p) := by
    rw [Nat.sub_sub_self hps.le]
    rw [OccursAt, List.drop_append_of_le_length hps.le] at h
    have h1 : d.take (s.length - p) <+: s.drop p ++ t :=
      (List.take_prefix _ _).trans h
    have h2 : (d.take (s.length - p)).length = (s.drop p).length := by
      rw [List.length_take, List.length_drop]
      omega
    exact ((List.prefix_of_prefix_length_le h1 (List.prefix_append _ _) h2.le).eq_of_length h2).symm
  have hge : s.length - p ≤ overlap d s := Nat.le_findGreatest (by omega) hov
  omega

end First

/-! ## The earliest of several words -/

/-- No word of the list is empty, and none is a proper beginning of another. -/
structure PrefixFree (L : List (List α)) : Prop where
  nonempty : ∀ d ∈ L, d ≠ []
  eq_of_prefix : ∀ d ∈ L, ∀ e ∈ L, d <+: e → d = e

/-- Two words at one position are the same. -/
theorem PrefixFree.eq_of_occursAt {L : List (List α)} (hL : PrefixFree L) {d e s : List α}
    {p : ℕ} (hd : d ∈ L) (he : e ∈ L) (h : OccursAt d s p) (h' : OccursAt e s p) : d = e := by
  rcases List.prefix_or_prefix_of_prefix h h' with hpre | hpre
  · exact hL.eq_of_prefix d hd e he hpre
  · exact (hL.eq_of_prefix e he d hd hpre).symm

section Earliest

variable [DecidableEq α]

/-- The leftmost position where some word of the list occurs, with that word. -/
def earliest (L : List (List α)) (s : List α) : Option (ℕ × List α) :=
  match (List.range (s.length + 1)).find? (fun p => ∃ d ∈ L, OccursAt d s p) with
  | none => none
  | some p => (L.find? (fun d => OccursAt d s p)).map (fun d => (p, d))

theorem earliest_eq_none_iff {L : List (List α)} (hL : PrefixFree L) {s : List α} :
    earliest L s = none ↔ ∀ d ∈ L, ∀ p, ¬ OccursAt d s p := by
  unfold earliest
  constructor
  · intro h d hd p hp
    have hle := hp.add_length_le (hL.nonempty d hd)
    cases hf : (List.range (s.length + 1)).find? (fun p => ∃ d ∈ L, OccursAt d s p) with
    | none =>
        rw [List.find?_range_eq_none] at hf
        have := hf p (by omega)
        simp only [Bool.not_eq_true', decide_eq_false_iff_not] at this
        exact this ⟨d, hd, hp⟩
    | some q =>
        simp only [hf, Option.map_eq_none_iff, List.find?_eq_none, decide_eq_true_eq] at h
        have hq := List.find?_some hf
        simp only [decide_eq_true_eq] at hq
        obtain ⟨e, he, hoc⟩ := hq
        exact h e he hoc
  · intro h
    have hf : (List.range (s.length + 1)).find? (fun p => ∃ d ∈ L, OccursAt d s p) = none := by
      rw [List.find?_eq_none]
      intro p _ hp
      simp only [decide_eq_true_eq] at hp
      obtain ⟨d, hd, hoc⟩ := hp
      exact h d hd p hoc
    rw [hf]

theorem earliest_eq_some_iff {L : List (List α)} (hL : PrefixFree L) {s d : List α} {p : ℕ} :
    earliest L s = some (p, d) ↔
      d ∈ L ∧ OccursAt d s p ∧ ∀ q < p, ∀ e ∈ L, ¬ OccursAt e s q := by
  unfold earliest
  constructor
  · intro h
    cases hf : (List.range (s.length + 1)).find? (fun p => ∃ d ∈ L, OccursAt d s p) with
    | none => simp [hf] at h
    | some q =>
        simp only [hf, Option.map_eq_some_iff, Prod.mk.injEq] at h
        obtain ⟨e, he, rfl, rfl⟩ := h
        rw [List.find?_range_eq_some] at hf
        have hoc := List.find?_some he
        simp only [decide_eq_true_eq] at hoc
        refine ⟨List.mem_of_find?_eq_some he, hoc, fun r hr e' he' hoc' => ?_⟩
        have := hf.2.2 r hr
        simp only [Bool.not_eq_true', decide_eq_false_iff_not] at this
        exact this ⟨e', he', hoc'⟩
  · rintro ⟨hd, hoc, hleft⟩
    have hle := hoc.add_length_le (hL.nonempty d hd)
    have hf : (List.range (s.length + 1)).find? (fun p => ∃ d ∈ L, OccursAt d s p) = some p := by
      rw [List.find?_range_eq_some]
      refine ⟨by simpa using ⟨d, hd, hoc⟩, List.mem_range.mpr (by omega), fun q hq => ?_⟩
      simp only [Bool.not_eq_true', decide_eq_false_iff_not]
      rintro ⟨e, he, hoc'⟩
      exact hleft q hq e he hoc'
    cases hfind : L.find? (fun d => OccursAt d s p) with
    | none =>
        rw [List.find?_eq_none] at hfind
        exact absurd (by simpa using hoc) (hfind d hd)
    | some e =>
        have hoc' := List.find?_some hfind
        simp only [decide_eq_true_eq] at hoc'
        have heq := hL.eq_of_occursAt hd (List.mem_of_find?_eq_some hfind) hoc hoc'
        simp only [hf, hfind, Option.map_some, heq]

end Earliest

/-! ## Cutting at successive occurrences -/

/-- `Splits next s ps r`: cutting `s` at the occurrence that `next` reports, then the
rest behind it again, gives the pieces `ps` (each with the word it ended at) and leaves
`r`, in which `next` reports nothing. -/
inductive Splits (next : List α → Option (ℕ × List α)) :
    List α → List (List α × List α) → List α → Prop
  | rest {s : List α} (h : next s = none) : Splits next s [] s
  | piece {s : List α} {p : ℕ} {d : List α} {ps : List (List α × List α)} {r : List α}
      (h : next s = some (p, d)) (hr : Splits next (s.drop (p + d.length)) ps r) :
      Splits next s ((s.take p, d) :: ps) r

/-- There is one way to cut a sequence. -/
theorem Splits.functional {next : List α → Option (ℕ × List α)} {s r r' : List α}
    {ps ps' : List (List α × List α)} (h : Splits next s ps r) (h' : Splits next s ps' r') :
    ps = ps' ∧ r = r' := by
  induction h generalizing ps' r' with
  | rest hn =>
      cases h' with
      | rest => exact ⟨rfl, rfl⟩
      | piece hs => rw [hn] at hs; cases hs
  | piece hs _ ih =>
      cases h' with
      | rest hn => rw [hs] at hn; cases hn
      | piece hs' hr' =>
          rw [hs] at hs'
          cases hs'
          obtain ⟨rfl, rfl⟩ := ih hr'
          exact ⟨rfl, rfl⟩

/-- Every sequence can be cut, if no occurrence is empty. -/
theorem exists_splits {next : List α → Option (ℕ × List α)}
    (hnext : ∀ s p d, next s = some (p, d) → d ≠ [] ∧ p + d.length ≤ s.length) (s : List α) :
    ∃ ps r, Splits next s ps r := by
  induction hn : s.length using Nat.strong_induction_on generalizing s with
  | _ n ih =>
      subst hn
      cases hs : next s with
      | none => exact ⟨[], s, .rest hs⟩
      | some pd =>
          obtain ⟨p, d⟩ := pd
          obtain ⟨hd, hle⟩ := hnext s p d hs
          have hpos := List.length_pos_iff.mpr hd
          obtain ⟨ps, r, hr⟩ := ih (s.drop (p + d.length)).length
            (by rw [List.length_drop]; omega) _ rfl
          exact ⟨_, r, .piece hs hr⟩

/-! ## Pieces that are too long -/

section Overlong

variable [DecidableEq α]

/-- Counted from the start of some piece, no occurrence of `d` ends within the first `M`
items, and there are more than `M`. -/
inductive Overlong (d : List α) (M : ℕ) : List α → Prop
  | here {s : List α} (hlong : M < s.length) (hlate : ∀ q, OccursAt d s q → M < q + d.length) :
      Overlong d M s
  | later {s : List α} {q : ℕ} (h : first d s = some q) (hin : q + d.length ≤ M)
      (hr : Overlong d M (s.drop (q + d.length))) : Overlong d M s

theorem overlong_iff_of_first {d s : List α} (hd : d ≠ []) {M q : ℕ} (h : first d s = some q)
    (hin : q + d.length ≤ M) : Overlong d M s ↔ Overlong d M (s.drop (q + d.length)) := by
  constructor
  · intro ho
    cases ho with
    | here hlong hlate =>
        have := hlate q ((first_eq_some_iff hd).mp h).1
        omega
    | later h' _ hr =>
        rw [h] at h'
        cases h'
        exact hr
  · intro hr
    exact .later h hin hr

theorem not_overlong {d s : List α} {M : ℕ} (hnone : first d s = none) (hle : s.length ≤ M) :
    ¬ Overlong d M s := by
  intro ho
  cases ho with
  | here hlong _ => omega
  | later h _ _ => rw [hnone] at h; cases h

/-- Without an occurrence in its first `M` items, any further item makes the piece too
long. -/
theorem overlong_append {d s t : List α} (hd : d ≠ []) {M : ℕ} (hnone : first d s = none)
    (hlen : s.length = M) (ht : t ≠ []) : Overlong d M (s ++ t) := by
  have hpos := List.length_pos_iff.mpr ht
  refine .here (by rw [List.length_append]; omega) (fun q hq => ?_)
  by_contra hle
  exact (first_eq_none_iff hd).mp hnone q (hq.of_append hd (by omega))

end Overlong

end Occurrence
