/-
# Named parameters of a query

A query names its parameters, and the databases want marks in their places.
`Query::replaceFirstKey` (`DB/query.cpp`) puts a mark in place of the first name it finds, and
`postBindInputVars` of a driver calls it until there is none.

* `scanKeys`, `replaceFirstKey` — the function of the source;
* `replaceKeys` — the loop around it, with the mark of each turn;
* `scanKeys_spec` — the scan finds the leftmost name, and the longest one there;
* `replaceKeys_spec` — the loop cuts the query at these names, from left to right.
-/
import Mantids.Lib.LeftmostLongest
import Mathlib.Data.UInt
import Mathlib.Order.Lattice

namespace Mantids

namespace NamedParameters

open Occurrence LeftmostLongest

/-! ## The functions -/

/-- The scan of the keys, with `firstKeyPos` and `firstKeyFound` (there is no position yet if they
are `none`), and `toDelete`. -/
def scanKeys (sqlQuery : List UInt8) :
    List (List UInt8) → Option (ℕ × List UInt8) → List (List UInt8) →
      Option (ℕ × List UInt8) × List (List UInt8)
  | [], firstKey, toDelete => (firstKey, toDelete)
  | key :: keysIn, firstKey, toDelete =>
    match first key sqlQuery with
    | some pos =>
      -- `npos` is not below any position.
      if firstKey.all fun f => pos ≤ f.1 then scanKeys sqlQuery keysIn (some (pos, key)) toDelete
      else scanKeys sqlQuery keysIn firstKey toDelete
    | none => scanKeys sqlQuery keysIn firstKey (toDelete ++ [key])

/-- `m_query`, `keysIn` and `m_keysByPos`. -/
structure Rewriting where
  query : List UInt8
  keysIn : List (List UInt8)
  keysByPos : List (List UInt8) := []

/-- `replaceFirstKey(sqlQuery, keysIn, keysOutByPos, replaceBy)`. -/
def replaceFirstKey (replaceBy : List UInt8) (w : Rewriting) : Bool × Rewriting :=
  let scanned := scanKeys w.query w.keysIn none []
  -- `std::list::remove`, for every needle that was not found.
  let keysIn := scanned.2.foldl (fun keysIn needle => keysIn.filter (· ≠ needle)) w.keysIn
  match scanned.1 with
  | some (pos, key) =>
    (true, {
      query := w.query.take pos ++ replaceBy ++ w.query.drop (pos + key.length)
      keysIn := keysIn
      keysByPos := w.keysByPos ++ [key] })
  | none => (false, { w with keysIn := keysIn })

/-- `while (replaceFirstKey(...))`, with the mark of the turn; `none` if so many turns do not
suffice. -/
def replaceKeys (replaceBy : ℕ → List UInt8) : ℕ → ℕ → Rewriting → Option (ℕ × Rewriting)
  | 0, _, _ => none
  | fuel + 1, turn, w =>
    let r := replaceFirstKey (replaceBy turn) w
    if r.1 then replaceKeys replaceBy fuel (turn + 1) r.2 else some (turn, r.2)

/-! ## The scan -/

section Scan

variable {q : List UInt8}

/-- What the scan has found so far. -/
def Best (q : List UInt8) (seen : List (List UInt8)) : Option (ℕ × List UInt8) → Prop
  | none => ∀ e ∈ seen, first e q = none
  | some (p, d) => d ∈ seen ∧ first d q = some p ∧
      ∀ e ∈ seen, ∀ pos, first e q = some pos → p ≤ pos ∧ (pos = p → e.length ≤ d.length)

/-- Of two names at one place the later one in the order is the longer one. -/
theorem length_le_of_lt {d e : List UInt8} {p : ℕ} (hlt : e < d) (hd : OccursAt d q p)
    (he : OccursAt e q p) : e.length ≤ d.length := by
  by_contra hlong
  have hprefix : d <+: e := List.prefix_of_prefix_length_le hd he (by omega)
  exact hprefix.le hlt

/-- One key more. -/
theorem Best.found {seen : List (List UInt8)} {f : Option (ℕ × List UInt8)} (h : Best q seen f)
    {key : List UInt8} {pos : ℕ} (hkey : key ≠ []) (hne : ∀ e ∈ seen, e ≠ [])
    (hafter : ∀ e ∈ seen, e < key) (hpos : first key q = some pos)
    (hle : f.all (fun f => pos ≤ f.1) = true) : Best q (seen ++ [key]) (some (pos, key)) := by
  refine ⟨List.mem_append_right _ (List.mem_singleton_self key), hpos, fun e he pos' hpos' => ?_⟩
  rcases List.mem_append.mp he with hseen | hlast
  · cases f with
    | none =>
      rw [h e hseen] at hpos'
      cases hpos'
    | some pd =>
      obtain ⟨-, -, hbest⟩ := h
      have hfront := (hbest e hseen pos' hpos').1
      have hpd : pos ≤ pd.1 := of_decide_eq_true hle
      refine ⟨by omega, fun heq => ?_⟩
      subst heq
      exact length_le_of_lt (hafter e hseen) ((first_eq_some_iff hkey).mp hpos).1
        ((first_eq_some_iff (hne e hseen)).mp hpos').1
  · rw [List.mem_singleton.mp hlast, hpos] at hpos'
    cases hpos'
    exact ⟨le_rfl, fun _ => by rw [List.mem_singleton.mp hlast]⟩

theorem Best.behind {seen : List (List UInt8)} {f : Option (ℕ × List UInt8)} (h : Best q seen f)
    {key : List UInt8} {pos : ℕ} (hpos : first key q = some pos)
    (hlt : ¬ f.all (fun f => pos ≤ f.1) = true) : Best q (seen ++ [key]) f := by
  cases f with
  | none => exact absurd rfl hlt
  | some pd =>
    obtain ⟨hmem, hfirst, hbest⟩ := h
    refine ⟨List.mem_append_left _ hmem, hfirst, fun e he pos' hpos' => ?_⟩
    rcases List.mem_append.mp he with hseen | hlast
    · exact hbest e hseen pos' hpos'
    · rw [List.mem_singleton.mp hlast, hpos] at hpos'
      cases hpos'
      have hgt : ¬ pos ≤ pd.1 := fun hle => hlt (decide_eq_true hle)
      exact ⟨by omega, fun heq => absurd heq.le hgt⟩

theorem Best.absent {seen : List (List UInt8)} {f : Option (ℕ × List UInt8)} (h : Best q seen f)
    {key : List UInt8} (hnone : first key q = none) : Best q (seen ++ [key]) f := by
  cases f with
  | none =>
    intro e he
    rcases List.mem_append.mp he with hseen | hlast
    · exact h e hseen
    · rw [List.mem_singleton.mp hlast]
      exact hnone
  | some pd =>
    obtain ⟨hmem, hfirst, hbest⟩ := h
    refine ⟨List.mem_append_left _ hmem, hfirst, fun e he pos' hpos' => ?_⟩
    rcases List.mem_append.mp he with hseen | hlast
    · exact hbest e hseen pos' hpos'
    · rw [List.mem_singleton.mp hlast, hnone] at hpos'
      cases hpos'

theorem best_scanKeys (keys seen toDelete : List (List UInt8)) (f : Option (ℕ × List UInt8))
    (hsorted : (seen ++ keys).Pairwise (· < ·)) (hne : ∀ e ∈ seen ++ keys, e ≠ [])
    (h : Best q seen f) :
    Best q (seen ++ keys) (scanKeys q keys f toDelete).1 ∧
      (scanKeys q keys f toDelete).2 = toDelete ++ keys.filter (fun e => (first e q).isNone) := by
  induction keys generalizing seen toDelete f with
  | nil => exact ⟨by rwa [List.append_nil], by rw [List.filter_nil, List.append_nil]; rfl⟩
  | cons key keys ih =>
    have hshift : seen ++ key :: keys = (seen ++ [key]) ++ keys := by
      rw [List.append_assoc]
      rfl
    have hkey : key ≠ [] := hne key (List.mem_append_right _ List.mem_cons_self)
    have hseen : ∀ e ∈ seen, e ≠ [] := fun e he => hne e (List.mem_append_left _ he)
    have hafter : ∀ e ∈ seen, e < key := fun e he =>
      (List.pairwise_append.mp hsorted).2.2 e he key List.mem_cons_self
    rw [hshift] at hsorted hne ⊢
    rw [scanKeys]
    cases hfirst : first key q with
    | none =>
      rw [List.filter_cons_of_pos (by rw [hfirst]; rfl)]
      obtain ⟨hbest, hdel⟩ := ih (seen ++ [key]) (toDelete ++ [key]) f hsorted hne (h.absent hfirst)
      exact ⟨hbest, by rw [hdel, List.append_assoc]; rfl⟩
    | some pos =>
      rw [List.filter_cons_of_neg (by rw [hfirst]; exact Bool.false_ne_true)]
      dsimp only
      split
      · rename_i hle
        exact ih (seen ++ [key]) toDelete _ hsorted hne (h.found hkey hseen hafter hfirst hle)
      · rename_i hlt
        exact ih (seen ++ [key]) toDelete f hsorted hne (h.behind hfirst hlt)

/-- **The scan.**  In the order of a map, it finds the leftmost name and the longest one there, and
drops the names that do not occur. -/
theorem scanKeys_spec {keys : List (List UInt8)} (hsorted : keys.Pairwise (· < ·))
    (hne : ∀ e ∈ keys, e ≠ []) :
    (scanKeys q keys none []).1 = next keys q ∧
      (scanKeys q keys none []).2 = keys.filter fun e => (first e q).isNone := by
  obtain ⟨hbest, hdel⟩ := best_scanKeys keys [] [] none hsorted hne
    (fun e he => absurd he List.not_mem_nil)
  rw [List.nil_append] at hbest hdel
  refine ⟨?_, hdel⟩
  cases hscan : (scanKeys q keys none []).1 with
  | none =>
    rw [hscan] at hbest
    symm
    rw [next_eq_none_iff hne]
    exact fun e he => (first_eq_none_iff (hne e he)).mp (hbest e he)
  | some pd =>
    obtain ⟨p, d⟩ := pd
    rw [hscan] at hbest
    obtain ⟨hmem, hfirst, hall⟩ := hbest
    symm
    rw [next_eq_some_iff hne]
    have hat : ∀ e ∈ keys, ∀ r, OccursAt e q r → ∃ pos ≤ r, first e q = some pos := by
      intro e he r hoc
      cases hf : first e q with
      | none => exact absurd hoc ((first_eq_none_iff (hne e he)).mp hf r)
      | some pos =>
        refine ⟨pos, ?_, rfl⟩
        by_contra hgt
        exact ((first_eq_some_iff (hne e he)).mp hf).2 r (by omega) hoc
    refine ⟨hmem, ((first_eq_some_iff (hne d hmem)).mp hfirst).1, fun r hr e he hoc => ?_,
      fun e he hoc => ?_⟩
    · obtain ⟨pos, hpos, hf⟩ := hat e he r hoc
      have hle := (hall e he pos hf).1
      omega
    · obtain ⟨pos, hpos, hf⟩ := hat e he p hoc
      obtain ⟨hle, hlen⟩ := hall e he pos hf
      exact hlen (by omega)

end Scan

/-! ## One turn -/

theorem foldl_remove (needles keysIn : List (List UInt8)) :
    needles.foldl (fun keysIn needle => keysIn.filter (· ≠ needle)) keysIn
      = keysIn.filter (· ∉ needles) := by
  induction needles generalizing keysIn with
  | nil => simp
  | cons needle needles ih =>
    rw [List.foldl_cons, ih, List.filter_filter]
    apply List.filter_congr
    intro e _
    simp [Bool.and_comm]

/-- The names that are left for the turns behind this one. -/
def kept (w : Rewriting) : List (List UInt8) :=
  (scanKeys w.query w.keysIn none []).2.foldl
    (fun keysIn needle => keysIn.filter (· ≠ needle)) w.keysIn

theorem kept_sublist (w : Rewriting) : (kept w).Sublist w.keysIn := by
  rw [kept, foldl_remove]
  exact List.filter_sublist

theorem not_occursAt_of_not_mem_kept {w : Rewriting} (hsorted : w.keysIn.Pairwise (· < ·))
    (hne : ∀ e ∈ w.keysIn, e ≠ []) {e : List UInt8} (he : e ∈ w.keysIn) (hdropped : e ∉ kept w)
    (p : ℕ) : ¬ OccursAt e w.query p := by
  have hnone : first e w.query = none := by
    by_contra hsome
    rw [kept, foldl_remove, List.mem_filter, (scanKeys_spec hsorted hne).2] at hdropped
    refine hdropped ⟨he, decide_eq_true fun hin => hsome ?_⟩
    exact Option.isNone_iff_eq_none.mp (List.mem_filter.mp hin).2
  exact (first_eq_none_iff (hne e he)).mp hnone p

/-- A turn puts the mark in place of the next name. -/
theorem replaceFirstKey_of_next (w : Rewriting) (replaceBy : List UInt8)
    (hsorted : w.keysIn.Pairwise (· < ·)) (hne : ∀ e ∈ w.keysIn, e ≠ []) {p : ℕ} {d : List UInt8}
    (hnext : next w.keysIn w.query = some (p, d)) :
    replaceFirstKey replaceBy w = (true,
      ⟨w.query.take p ++ replaceBy ++ w.query.drop (p + d.length), kept w,
        w.keysByPos ++ [d]⟩) := by
  have hscan := (scanKeys_spec (q := w.query) hsorted hne).1
  rw [hnext] at hscan
  unfold replaceFirstKey
  dsimp only
  rw [hscan]
  rfl

theorem replaceFirstKey_of_none (w : Rewriting) (replaceBy : List UInt8)
    (hsorted : w.keysIn.Pairwise (· < ·)) (hne : ∀ e ∈ w.keysIn, e ≠ [])
    (hnext : next w.keysIn w.query = none) :
    replaceFirstKey replaceBy w = (false, { w with keysIn := kept w }) := by
  have hscan := (scanKeys_spec (q := w.query) hsorted hne).1
  rw [hnext] at hscan
  unfold replaceFirstKey
  dsimp only
  rw [hscan]
  rfl

/-! ## The loop -/

variable {names : List (List UInt8)} {replaceBy : ℕ → List UInt8}

/-- The search behind a settled beginning, with the names that are left. -/
theorem next_kept (hne : ∀ e ∈ names, e ≠ []) {s done : List UInt8} (hdone : Settled names done)
    {keysIn : List (List UInt8)} (hsub : keysIn.Sublist names)
    (hdropped : ∀ e ∈ names, e ∉ keysIn → ∀ p, ¬ OccursAt e s p) :
    next keysIn (done ++ s) = (next names s).map fun pd => (done.length + pd.1, pd.2) := by
  rw [← next_append_of_settled hne hdone]
  apply next_congr hne hsub.subset
  intro e he hnot p hoc
  obtain ⟨k, -, hk⟩ := (hdone.occursAt_iff he p).mp hoc
  exact hdropped e he hnot k hk

/-- The loop from a settled beginning on. -/
theorem replaceKeys_step (hsorted : names.Pairwise (· < ·)) (hne : ∀ e ∈ names, e ≠ [])
    (hmark : ∀ k, replaceBy k ≠ []) (hother : ∀ k, ∀ e ∈ names, ∀ c ∈ replaceBy k, c ∉ e)
    {s r : List UInt8} {ps : List (List UInt8 × List UInt8)} (h : Splits (next names) s ps r)
    (turn : ℕ) {done : List UInt8} (hdone : Settled names done)
    {keysIn : List (List UInt8)} (hsub : keysIn.Sublist names)
    (hdropped : ∀ e ∈ names, e ∉ keysIn → ∀ p, ¬ OccursAt e s p) (out : List (List UInt8)) :
    ∃ keysIn', ∀ fuel, ps.length < fuel → replaceKeys replaceBy fuel turn ⟨done ++ s, keysIn, out⟩ =
      some (turn + ps.length,
        ⟨done ++ (render replaceBy turn ps ++ r), keysIn', out ++ ps.map Prod.snd⟩) := by
  induction h generalizing turn done keysIn out with
  | @rest s hs =>
    have hnext := next_kept hne hdone hsub hdropped
    rw [hs, Option.map_none] at hnext
    set w : Rewriting := ⟨done ++ s, keysIn, out⟩ with hw
    have hturn := replaceFirstKey_of_none w (replaceBy turn)
      (hsorted.sublist hsub) (fun e he => hne e (hsub.subset he)) hnext
    refine ⟨kept w, fun fuel hfuel => ?_⟩
    obtain ⟨fuel, rfl⟩ : ∃ k, fuel = k + 1 := ⟨fuel - 1, by omega⟩
    rw [replaceKeys, hturn]
    dsimp only
    rw [if_neg Bool.false_ne_true, List.map_nil, List.append_nil]
    rfl
  | @piece s p d ps r hs hrest ih =>
    have hnext := next_kept hne hdone hsub hdropped
    rw [hs, Option.map_some] at hnext
    dsimp only at hnext
    set w : Rewriting := ⟨done ++ s, keysIn, out⟩ with hw
    have hsorted' : w.keysIn.Pairwise (· < ·) := hsorted.sublist hsub
    have hne' : ∀ e ∈ w.keysIn, e ≠ [] := fun e he => hne e (hsub.subset he)
    have hturn := replaceFirstKey_of_next w (replaceBy turn) hsorted' hne' hnext
    -- The beginning that is settled now, and the rest behind the name.
    have hquery : (done ++ s).take (done.length + p) ++ replaceBy turn
        ++ (done ++ s).drop (done.length + p + d.length)
          = (done ++ (s.take p ++ replaceBy turn)) ++ s.drop (p + d.length) := by
      rw [List.take_length_add_append, Nat.add_assoc, List.drop_length_add_append]
      simp only [List.append_assoc]
    have hsettled : Settled names (done ++ (s.take p ++ replaceBy turn)) :=
      hdone.append (settled_take_append (hmark turn) (hother turn) hne (isNext_of_next hs).leftmost)
    have hbehind : ∀ e ∈ names, e ∉ kept w → ∀ k, ¬ OccursAt e (s.drop (p + d.length)) k := by
      intro e he hnot k hoc
      rw [occursAt_drop] at hoc
      by_cases hin : e ∈ keysIn
      · exact not_occursAt_of_not_mem_kept hsorted' hne' hin hnot _
          ((occursAt_append_right e done s _).mpr hoc)
      · exact hdropped e he hin _ hoc
    obtain ⟨keysIn', hloop⟩ := ih (turn + 1) hsettled ((kept_sublist w).trans hsub) hbehind
      (out ++ [d])
    refine ⟨keysIn', fun fuel hfuel => ?_⟩
    rw [List.length_cons] at hfuel
    obtain ⟨fuel, rfl⟩ : ∃ k, fuel = k + 1 := ⟨fuel - 1, by omega⟩
    rw [replaceKeys, hturn]
    dsimp only
    rw [if_pos rfl, hquery, hloop fuel (by omega), render, List.length_cons, List.map_cons]
    simp only [List.append_assoc, List.cons_append, List.nil_append, Nat.add_assoc, Nat.add_comm 1]

/-- **The loop.**  It cuts the query at the names and puts a mark in place of each; the names are
the keys by their positions. -/
theorem replaceKeys_spec (hsorted : names.Pairwise (· < ·)) (hne : ∀ e ∈ names, e ≠ [])
    (hmark : ∀ k, replaceBy k ≠ []) (hother : ∀ k, ∀ e ∈ names, ∀ c ∈ replaceBy k, c ∉ e)
    {query r : List UInt8} {ps : List (List UInt8 × List UInt8)}
    (h : Splits (next names) query ps r) :
    ∃ keysIn, ∀ fuel, query.length < fuel → replaceKeys replaceBy fuel 0 ⟨query, names, []⟩ =
      some (ps.length, ⟨render replaceBy 0 ps ++ r, keysIn, ps.map Prod.snd⟩) := by
  obtain ⟨keysIn, hloop⟩ := replaceKeys_step hsorted hne hmark hother h 0 (settled_nil names)
    (List.Sublist.refl names) (fun e he hnot => absurd he hnot) []
  refine ⟨keysIn, fun fuel hfuel => ?_⟩
  rw [← Nat.zero_add ps.length]
  exact hloop fuel ((length_le_of_splits hne h).trans_lt hfuel)

end NamedParameters
end Mantids
