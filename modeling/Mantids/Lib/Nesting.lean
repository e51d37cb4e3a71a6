/-
# Replacing until nothing is left

A rewriter finds a word in a text and puts another one in for all its occurrences, as long as it
finds any.  It is over exactly if what it puts in nests to a bounded depth, where a letter is one
deeper than the deepest of those it was put in for.

* `depth`, `replaceDeeper` — letters with their depths, and the replacement on them;
* `ranks` — under a bound on the depth a replacement is a step down in the order of multisets;
* `Turn` — what the rewriter does once;
* `acc_iff_depth_bounded` — the rewriter is over exactly if there is one.
-/
import Mathlib.Data.Multiset.DershowitzManna
import Mantids.Lib.Occurrence

namespace Nesting

open Occurrence Relation

variable {α : Type*}

/-! ## Letters with their depths -/

/-- The depth of the deepest letter. -/
def depth (s : List (α × ℕ)) : ℕ := (s.map Prod.snd).foldr max 0

/-- A text that nothing was put into. -/
def atTop (s : List α) : List (α × ℕ) := s.map (·, 0)

/-- What is put in for a word. -/
def deeper (replacement : List α) (replaced : List (α × ℕ)) : List (α × ℕ) :=
  replacement.map (·, depth replaced + 1)

@[simp] theorem map_atTop (s : List α) : (atTop s).map Prod.fst = s := by
  simp [atTop, Function.comp_def]

@[simp] theorem map_deeper (replacement : List α) (replaced : List (α × ℕ)) :
    (deeper replacement replaced).map Prod.fst = replacement := by
  simp [deeper, Function.comp_def]

theorem depth_le_iff {s : List (α × ℕ)} {d : ℕ} : depth s ≤ d ↔ ∀ c ∈ s, c.2 ≤ d := by
  unfold depth
  induction s with
  | nil => simp
  | cons c s ih =>
      rw [List.map_cons, List.foldr_cons, max_le_iff, ih, List.forall_mem_cons]

theorem exists_mem_depth {s : List (α × ℕ)} (h : s ≠ []) : ∃ c ∈ s, c.2 = depth s := by
  induction s with
  | nil => exact absurd rfl h
  | cons c s ih =>
      rcases le_total (depth s) c.2 with hle | hle
      · exact ⟨c, List.mem_cons_self, (max_eq_left hle).symm⟩
      · rcases eq_or_ne s [] with rfl | hne
        · exact ⟨c, List.mem_cons_self, (max_eq_left (Nat.zero_le _)).symm⟩
        · obtain ⟨e, he, hdepth⟩ := ih hne
          exact ⟨e, List.mem_cons_of_mem _ he, hdepth.trans (max_eq_right hle).symm⟩

/-! ## Steps down -/

/-- How far above the bound the letters are. -/
def ranks (d : ℕ) (s : List (α × ℕ)) : Multiset ℕ := (s.map fun c => d - c.2 : List ℕ)

theorem ranks_append (d : ℕ) (s t : List (α × ℕ)) :
    ranks d (s ++ t) = ranks d s + ranks d t := by
  simp [ranks]

theorem mem_ranks {d : ℕ} {s : List (α × ℕ)} {n : ℕ} :
    n ∈ ranks d s ↔ ∃ c ∈ s, d - c.2 = n := by
  simp [ranks]

theorem isDershowitzMannaLT_add_left {M N : Multiset ℕ} (K : Multiset ℕ)
    (h : M.IsDershowitzMannaLT N) : (K + M).IsDershowitzMannaLT (K + N) := by
  obtain ⟨X, Y, Z, hZ, rfl, rfl, hlt⟩ := h
  exact ⟨K + X, Y, Z, hZ, (add_assoc K X Y).symm, (add_assoc K X Z).symm, hlt⟩

/-- What is put in is below the letter that it is one deeper than. -/
theorem ranks_deeper_lt {replacement : List α} {replaced : List (α × ℕ)} {d : ℕ}
    (hne : replaced ≠ []) (hd : depth (deeper replacement replaced) ≤ d) :
    ∀ y ∈ ranks d (deeper replacement replaced), ∃ z ∈ ranks d replaced, y < z := by
  intro y hy
  obtain ⟨c, hc, rfl⟩ := mem_ranks.mp hy
  have hle := depth_le_iff.mp hd c hc
  obtain ⟨a, -, rfl⟩ := List.mem_map.mp hc
  obtain ⟨e, he, hdepth⟩ := exists_mem_depth hne
  refine ⟨d - e.2, mem_ranks.mpr ⟨e, he, rfl⟩, ?_⟩
  dsimp only at hle ⊢
  omega

/-- A replacement is a step down, whatever the steps down behind it are. -/
theorem ranks_replaced_lt {replacement : List α} {a replaced rest later : List (α × ℕ)} {d : ℕ}
    (hne : replaced ≠ []) (hd : depth (a ++ deeper replacement replaced ++ later) ≤ d)
    (hlater : ranks d later = ranks d rest ∨
      (ranks d later).IsDershowitzMannaLT (ranks d rest)) :
    (ranks d (a ++ deeper replacement replaced ++ later)).IsDershowitzMannaLT
      (ranks d (a ++ replaced ++ rest)) := by
  have hnew : depth (deeper replacement replaced) ≤ d :=
    depth_le_iff.mpr fun c hc => depth_le_iff.mp hd c (by simp [hc])
  have hhere : (ranks d (a ++ deeper replacement replaced) + ranks d rest).IsDershowitzMannaLT
      (ranks d (a ++ replaced ++ rest)) := by
    refine ⟨ranks d a + ranks d rest, ranks d (deeper replacement replaced), ranks d replaced,
      ?_, ?_, ?_, ranks_deeper_lt hne hnew⟩
    · obtain ⟨c, hc, -⟩ := exists_mem_depth hne
      intro hempty
      have hmem : d - c.2 ∈ ranks d replaced := mem_ranks.mpr ⟨c, hc, rfl⟩
      rw [hempty] at hmem
      exact Multiset.notMem_zero _ hmem
    · rw [ranks_append, add_right_comm]
    · rw [ranks_append, ranks_append, add_right_comm]
  rw [ranks_append]
  rcases hlater with heq | hlt
  · rw [heq]
    exact hhere
  · exact (isDershowitzMannaLT_add_left _ hlt).trans hhere

section Replace

variable [DecidableEq α]

/-- All occurrences of a word are replaced; each round leaves less to search. -/
def replaceDeeper (search replacement : List α) : ℕ → List (α × ℕ) → List (α × ℕ)
  | 0, s => s
  | fuel + 1, s =>
    match first search (s.map Prod.fst) with
    | none => s
    | some p =>
      s.take p ++ deeper replacement ((s.drop p).take search.length) ++
        replaceDeeper search replacement fuel (s.drop (p + search.length))

variable {search replacement : List α} {s : List (α × ℕ)} {d : ℕ}

/-- The text around an occurrence. -/
theorem of_first_map (hne : search ≠ []) {p : ℕ} (hfirst : first search (s.map Prod.fst) = some p) :
    (s.drop p).take search.length ≠ [] ∧
      s = s.take p ++ (s.drop p).take search.length ++ s.drop (p + search.length) := by
  have hlen := add_length_le_of_first hne hfirst
  have hpos := List.length_pos_iff.mpr hne
  rw [List.length_map] at hlen
  constructor
  · rw [ne_eq, ← List.length_eq_zero_iff, List.length_take, List.length_drop]
    omega
  · rw [← List.drop_drop, List.append_assoc, List.take_append_drop, List.take_append_drop]

/-- The steps of a round go down, if all the letters stay above the bound. -/
theorem ranks_replaceDeeper (hne : search ≠ []) (fuel : ℕ)
    (hd : depth (replaceDeeper search replacement fuel s) ≤ d) :
    ranks d (replaceDeeper search replacement fuel s) = ranks d s ∨
      (ranks d (replaceDeeper search replacement fuel s)).IsDershowitzMannaLT (ranks d s) := by
  induction fuel generalizing s with
  | zero => exact .inl rfl
  | succ fuel ih =>
      rw [replaceDeeper] at hd ⊢
      rcases hfirst : first search (s.map Prod.fst) with _ | p
      · exact .inl rfl
      · rw [hfirst] at hd
        obtain ⟨hsome, hs⟩ := of_first_map hne hfirst
        have hlater := ih (s := s.drop (p + search.length))
          (depth_le_iff.mpr fun c hc => depth_le_iff.mp hd c (List.mem_append_right _ hc))
        have hlt := ranks_replaced_lt hsome hd hlater
        rw [← hs] at hlt
        exact .inr hlt

/-- A round that finds its word is a step down. -/
theorem ranks_replaceDeeper_lt (hne : search ≠ []) {p : ℕ}
    (hfirst : first search (s.map Prod.fst) = some p)
    (hd : depth (replaceDeeper search replacement s.length s) ≤ d) :
    (ranks d (replaceDeeper search replacement s.length s)).IsDershowitzMannaLT (ranks d s) := by
  obtain ⟨hsome, hs⟩ := of_first_map hne hfirst
  obtain ⟨fuel, hfuel⟩ : ∃ fuel, s.length = fuel + 1 := by
    refine Nat.exists_eq_succ_of_ne_zero fun hzero => hsome ?_
    rw [List.length_eq_zero_iff.mp hzero, List.drop_nil, List.take_nil]
  rw [hfuel, replaceDeeper, hfirst] at hd ⊢
  have hlater := ranks_replaceDeeper (s := s.drop (p + search.length)) hne fuel
    (depth_le_iff.mpr fun c hc => depth_le_iff.mp hd c (List.mem_append_right _ hc))
  have hlt := ranks_replaced_lt hsome hd hlater
  rwa [← hs] at hlt

/-! ## The rewriter -/

/-- What the rewriter does once: `next` finds the word of a text and what is put in for it. -/
def Turn (next : List α → Option (List α × List α)) (s t : List (α × ℕ)) : Prop :=
  ∃ search replacement, next (s.map Prod.fst) = some (search, replacement) ∧
    t = replaceDeeper search replacement s.length s

/-- The words that are found are words of the text. -/
def Finds (next : List α → Option (List α × List α)) : Prop :=
  ∀ ⦃s search replacement⦄, next s = some (search, replacement) →
    search ≠ [] ∧ first search s ≠ none

variable {next : List α → Option (List α × List α)}

theorem Turn.functional {s t u : List (α × ℕ)} (ht : Turn next s t) (hu : Turn next s u) :
    t = u := by
  obtain ⟨search, replacement, hnext, rfl⟩ := ht
  obtain ⟨_, _, hnext', rfl⟩ := hu
  rw [hnext] at hnext'
  cases hnext'
  rfl

/-- A turn is a step down, if all the letters stay above the bound. -/
theorem Turn.ranks_lt (hfinds : Finds next) {s t : List (α × ℕ)} (h : Turn next s t)
    (hd : depth t ≤ d) : (ranks d t).IsDershowitzMannaLT (ranks d s) := by
  obtain ⟨search, replacement, hnext, rfl⟩ := h
  obtain ⟨hne, hfound⟩ := hfinds hnext
  obtain ⟨p, hp⟩ := Option.ne_none_iff_exists'.mp hfound
  exact ranks_replaceDeeper_lt hne hp hd

/-- **When a rewriter is over.**  What it puts in nests to a bounded depth. -/
theorem acc_iff_depth_bounded (hfinds : Finds next) {s : List (α × ℕ)} :
    Acc (fun t s => Turn next s t) s ↔
      ∃ d, ∀ t, ReflTransGen (Turn next) s t → depth t ≤ d := by
  constructor
  · intro h
    induction h with
    | intro s _ ih =>
        by_cases hturn : ∃ t, Turn next s t
        · obtain ⟨t, ht⟩ := hturn
          obtain ⟨d, hd⟩ := ih t ht
          refine ⟨max (depth s) d, fun u hu => ?_⟩
          rcases hu.cases_head with rfl | ⟨t', ht', hrest⟩
          · exact le_max_left _ _
          · rw [ht'.functional ht] at hrest
            exact (hd u hrest).trans (le_max_right _ _)
        · refine ⟨depth s, fun u hu => ?_⟩
          rcases hu.cases_head with rfl | ⟨t, ht, -⟩
          · exact le_rfl
          · exact absurd ⟨t, ht⟩ hturn
  · rintro ⟨d, hd⟩
    -- the ranks go down from turn to turn
    have hwf := InvImage.wf (ranks d (α := α)) Multiset.wellFounded_isDershowitzMannaLT
    induction s using hwf.induction with
    | _ s ih =>
        refine .intro s fun t ht => ih t (ht.ranks_lt hfinds ?_) fun u hu => ?_
        · exact hd t (.single ht)
        · exact hd u (.head ht hu)

end Replace

end Nesting
