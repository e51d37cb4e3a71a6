/-
# The parameters of a MariaDB query

`Query_MariaDB::postBindInputVars` (`DB_MariaDB/query_mariadb.cpp`) puts a `?` in place of every
parameter name and keeps the names in `m_keysByPos`, before it binds the values.

* `rewriteQuery` — the loop of the source;
* `restore`, `beforeMark` — the way back;
* `Faithful` — what the query and the names have to do with each other;
* `rewriteQuery_faithful` — the loop ends, and is faithful.
-/
import Mantids.NamedParameters
import Mathlib.Data.List.GetD

namespace Mantids

namespace MariaDbBinding

open Occurrence LeftmostLongest NamedParameters

/-! ## The loop, and the way back -/

/-- The loop of `postBindInputVars`, on the names of `m_inputVars`; `none` if so many turns do not
suffice. -/
def rewriteQuery (fuel : ℕ) (inputVars : List (List UInt8)) (query : List UInt8) :
    Option Rewriting :=
  (replaceKeys (fun _ => [63]) fuel 0 ⟨query, inputVars, []⟩).map Prod.snd

/-- The names in place of the `?`, one after the other. -/
def restore : List (List UInt8) → List UInt8 → List UInt8
  | _, [] => []
  | keysByPos, c :: text =>
    if c = 63 then keysByPos.headD [] ++ restore keysByPos.tail text
    else c :: restore keysByPos text

/-- The text in front of the `?` with this number. -/
def beforeMark : ℕ → List UInt8 → List UInt8
  | _, [] => []
  | 0, c :: text => if c = 63 then [] else c :: beforeMark 0 text
  | k + 1, c :: text => c :: beforeMark (if c = 63 then k else k + 1) text

/-- Where the `?` with this number stood in the query. -/
def place (keysByPos : List (List UInt8)) (result : List UInt8) (k : ℕ) : ℕ :=
  (restore keysByPos (beforeMark k result)).length

/-- The rewritten query stands for the query. -/
structure Faithful (inputVars : List (List UInt8)) (query : List UInt8) (w : Rewriting) : Prop where
  absent : ∀ name ∈ inputVars, ∀ p, ¬ OccursAt name w.query p
  count : w.query.count 63 = w.keysByPos.length
  restores : restore w.keysByPos w.query = query
  /-- At every place the longest of the names that match there was chosen. -/
  longest : ∀ k (hk : k < w.keysByPos.length),
    w.keysByPos[k] ∈ inputVars ∧ OccursAt w.keysByPos[k] query (place w.keysByPos w.query k) ∧
      ∀ name ∈ inputVars, OccursAt name query (place w.keysByPos w.query k) →
        name.length ≤ w.keysByPos[k].length

/-! ## The pieces of the query -/

variable {ps : List (List UInt8 × List UInt8)} {r : List UInt8}

theorem restore_append {a : List UInt8} (ha : 63 ∉ a) (keysByPos : List (List UInt8))
    (text : List UInt8) : restore keysByPos (a ++ text) = a ++ restore keysByPos text := by
  induction a with
  | nil => rfl
  | cons c a ih =>
    have hc : c ≠ 63 := fun heq => ha (heq ▸ List.mem_cons_self)
    rw [List.cons_append, restore, if_neg hc, ih fun hin => ha (List.mem_cons_of_mem _ hin)]
    rfl

theorem beforeMark_append {a : List UInt8} (ha : 63 ∉ a) (k : ℕ) (text : List UInt8) :
    beforeMark k (a ++ text) = a ++ beforeMark k text := by
  induction a with
  | nil => rfl
  | cons c a ih =>
    have hc : c ≠ 63 := fun heq => ha (heq ▸ List.mem_cons_self)
    have hrest := ih fun hin => ha (List.mem_cons_of_mem _ hin)
    cases k with
    | zero => rw [List.cons_append, beforeMark, if_neg hc, hrest]; rfl
    | succ k => rw [List.cons_append, beforeMark, if_neg hc, hrest]; rfl

/-- The names come back in front of the rest. -/
theorem restore_render (hps : ∀ piece ∈ ps, 63 ∉ piece.1) (more : List (List UInt8))
    (turn : ℕ) (text : List UInt8) :
    restore (ps.map Prod.snd ++ more) (render (fun _ => [63]) turn ps ++ text)
      = whole ps ++ restore more text := by
  induction ps generalizing turn with
  | nil => rfl
  | cons piece ps ih =>
    obtain ⟨a, d⟩ := piece
    rw [render, whole_cons, List.append_assoc, List.append_assoc,
      restore_append (hps (a, d) List.mem_cons_self), List.append_assoc, List.append_assoc]
    congr 1
    show d ++ restore (ps.map Prod.snd ++ more) (render (fun _ => [63]) (turn + 1) ps ++ text) = _
    rw [ih fun piece hpiece => hps piece (List.mem_cons_of_mem _ hpiece)]

theorem beforeMark_render (hps : ∀ piece ∈ ps, 63 ∉ piece.1) (turn : ℕ) (text : List UInt8) {k : ℕ}
    (hk : k < ps.length) :
    beforeMark k (render (fun _ => [63]) turn ps ++ text)
      = render (fun _ => [63]) turn (ps.take k) ++ ps[k].1 := by
  induction ps generalizing turn k with
  | nil => exact absurd hk (Nat.not_lt_zero k)
  | cons piece ps ih =>
    have hpiece := hps piece List.mem_cons_self
    rw [render, List.append_assoc, List.append_assoc, beforeMark_append hpiece]
    cases k with
    | zero =>
      show piece.1 ++ [] = [] ++ piece.1
      rw [List.append_nil, List.nil_append]
    | succ k =>
      show piece.1 ++ 63 :: beforeMark k (render (fun _ => [63]) (turn + 1) ps ++ text) = _
      rw [ih (fun piece hpiece => hps piece (List.mem_cons_of_mem _ hpiece)) (turn + 1)
        (Nat.lt_of_succ_lt_succ hk), List.take_succ_cons, render, List.append_assoc,
        List.append_assoc]
      rfl

theorem count_render (hps : ∀ piece ∈ ps, 63 ∉ piece.1) (turn : ℕ) :
    (render (fun _ => [63]) turn ps).count 63 = ps.length := by
  induction ps generalizing turn with
  | nil => rfl
  | cons piece ps ih =>
    rw [render, List.count_append, List.count_append,
      List.count_eq_zero_of_not_mem (hps piece List.mem_cons_self),
      ih fun piece hpiece => hps piece (List.mem_cons_of_mem _ hpiece), List.length_cons]
    show 0 + 1 + ps.length = _
    omega

/-! ## The rewriting -/

/-- **The parameters of MariaDB.**  The loop ends, and what it leaves stands for the query. -/
theorem rewriteQuery_faithful (inputVars : List (List UInt8)) (hsorted : inputVars.Pairwise (· < ·))
    (hne : ∀ name ∈ inputVars, name ≠ []) (hnames : ∀ name ∈ inputVars, 63 ∉ name)
    (query : List UInt8) (hquery : 63 ∉ query) :
    ∃ w, (∀ fuel, query.length < fuel → rewriteQuery fuel inputVars query = some w) ∧
      Faithful inputVars query w := by
  obtain ⟨ps, r, hcut⟩ := exists_splits_next hne query
  have hmark : ∀ _ : ℕ, [(63 : UInt8)] ≠ [] := fun _ => List.cons_ne_nil _ _
  have hother : ∀ _ : ℕ, ∀ e ∈ inputVars, ∀ c ∈ [(63 : UInt8)], c ∉ e := fun _ e he c hc => by
    rw [List.mem_singleton.mp hc]
    exact hnames e he
  obtain ⟨keysIn, hloop⟩ := replaceKeys_spec hsorted hne hmark hother hcut
  refine ⟨_, fun fuel hfuel => congrArg (Option.map Prod.snd) (hloop fuel hfuel), ?_⟩
  -- There is no `?` in the pieces and in the rest.
  obtain ⟨hpieces, hrest⟩ := not_mem_of_splits hcut hquery
  have hplace : ∀ k (hk : k < ps.length),
      place (ps.map Prod.snd) (render (fun _ => [63]) 0 ps ++ r) k = start ps k := by
    intro k hk
    have hnames : ps.map Prod.snd = (ps.take k).map Prod.snd ++ (ps.drop k).map Prod.snd := by
      rw [← List.map_append, List.take_append_drop]
    rw [place, beforeMark_render hpieces 0 r hk, hnames,
      restore_render fun piece hpiece => hpieces piece (List.mem_of_mem_take hpiece)]
    have hpiece :=
      restore_append (hpieces ps[k] (List.getElem_mem hk)) ((ps.drop k).map Prod.snd) []
    rw [List.append_nil] at hpiece
    rw [hpiece, restore, List.append_nil, List.length_append, start, List.getD_eq_getElem _ _ hk]
  exact {
    absent := by
      intro name hname p hoc
      have hsettled := settled_render hne hmark hother hcut 0
      obtain ⟨q, -, hq⟩ := (hsettled.occursAt_iff hname p).mp hoc
      exact not_occursAt_rest hne hcut name hname q hq
    count := by
      show (render (fun _ => [63]) 0 ps ++ r).count 63 = (ps.map Prod.snd).length
      rw [List.count_append, count_render hpieces 0, List.count_eq_zero_of_not_mem hrest,
        List.length_map, Nat.add_zero]
    restores := by
      have h := restore_render hpieces [] 0 r
      rw [List.append_nil] at h
      show restore (ps.map Prod.snd) (render (fun _ => [63]) 0 ps ++ r) = query
      have hr := restore_append hrest [] []
      rw [List.append_nil] at hr
      rw [h, hr, restore, List.append_nil, LeftmostLongest.restore hcut]
    longest := by
      intro k hk
      change k < (ps.map Prod.snd).length at hk
      rw [List.length_map] at hk
      have hnext := isNext_start hne hcut hk
      show (ps.map Prod.snd)[k] ∈ inputVars ∧ _
      rw [List.getElem_map]
      refine ⟨mem_of_splits hcut ps[k] (List.getElem_mem hk), ?_⟩
      show OccursAt _ query (place (ps.map Prod.snd) (render (fun _ => [63]) 0 ps ++ r) k) ∧
        ∀ name ∈ inputVars, OccursAt name query
          (place (ps.map Prod.snd) (render (fun _ => [63]) 0 ps ++ r) k) → _
      rw [hplace k hk]
      exact ⟨hnext.1, hnext.2.1⟩ }

/-- The names `:a` and `:ab` in `:ab,:a`. -/
theorem rewriteQuery_faithful_two :
    ∃ w, (∀ fuel, 6 < fuel →
        rewriteQuery fuel [[58, 97], [58, 97, 98]] [58, 97, 98, 44, 58, 97] = some w) ∧
      Faithful [[58, 97], [58, 97, 98]] [58, 97, 98, 44, 58, 97] w :=
  rewriteQuery_faithful [[58, 97], [58, 97, 98]] (by decide) (by decide) (by decide)
    [58, 97, 98, 44, 58, 97] (by decide)

end MariaDbBinding
end Mantids
