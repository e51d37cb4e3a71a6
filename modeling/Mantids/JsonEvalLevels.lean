/-
# Levels are compiled as they should

A level is a row of operands.  Its groups are replaced by placeholders, and what is left is cut at
its operators.

* `places`, `groupsOf` — what stands in a level once its groups were taken out, and the groups;
* `takeGroups_marked` — they are what `detectSubExpr` makes of the text of a level;
* `compileLevel_intercalate` — the text that is left is compiled piece by piece.
-/
import Mantids.JsonEvalGroups

namespace Mantids

namespace Expressions

open Occurrence

/-! ## Operands in a row -/

def Operands.toList : Operands → List Operand
  | .last o => [o]
  | .more o os => o :: os.toList

theorem Operands.toList_ne_nil (os : Operands) : os.toList ≠ [] := by
  rcases os with o | ⟨o, os⟩ <;> simp [Operands.toList]

/-- The text of an operand once its literals were put aside. -/
def Operand.marked (order : List (List UInt8)) (o : Operand) : List UInt8 :=
  render (mark order) o.pieces

def Operands.marked (order : List (List UInt8)) (conj : Bool) (os : Operands) : List UInt8 :=
  render (mark order) (os.pieces conj)

theorem Operands.render_eq (f : List UInt8 → List UInt8) (conj : Bool) (os : Operands) :
    render f (os.pieces conj) =
      (operator conj).intercalate (os.toList.map (fun o => render f o.pieces)) := by
  induction os using Operands.rec (motive_1 := fun _ => True) with
  | atom => trivial
  | group => trivial
  | last o => simp [Operands.pieces, Operands.toList]
  | more o os _ ih =>
      obtain ⟨o', rest, hrest⟩ := List.exists_cons_of_ne_nil os.toList_ne_nil
      rw [Operands.pieces, Operands.toList, render_append, render_plain, ih, hrest, List.map_cons,
        List.map_cons, List.map_cons, List.intercalate_cons_cons, List.append_assoc]

variable {order : List (List UInt8)}

theorem Operand.marked_atom (a : Atom) : Operand.marked order (.atom a) = a.marked order := rfl

theorem Operand.marked_group (negative conj : Bool) (os : Operands) :
    Operand.marked order (.group negative conj os) =
      groupText negative (os.marked order conj) := by
  simp [Operand.marked, Operand.pieces, Operands.marked, groupText]

/-- What is compiled of a row: calls, and the numbers of groups. -/
def places : ℕ → List Operand → List (Atom ⊕ ℕ)
  | _, [] => []
  | pos, .atom a :: os => .inl a :: places pos os
  | pos, .group _ _ _ :: os => .inr pos :: places (pos + 1) os

/-- What stands for an operand in the text of its level. -/
def placeText (order : List (List UInt8)) : Atom ⊕ ℕ → List UInt8
  | .inl a => a.marked order
  | .inr pos => placeholder pos

/-- The groups of a row, with what is compiled of them. -/
def groupsOf (order : List (List UInt8)) : List Operand → List (Bool × List UInt8)
  | [] => []
  | .atom _ :: os => groupsOf order os
  | .group negative conj operands :: os =>
    (negative, operands.marked order conj) :: groupsOf order os

/-! ## Shapes of texts -/

/-- A placeholder has letters and digits only. -/
theorem not_mem_placeholder {c : UInt8} (hc : c < 48) (pos : ℕ) : c ∉ placeholder pos :=
  not_mem_numbered (by decide) hc pos

theorem parenFree_placeholder (pos : ℕ) : ParenFree (placeholder pos) :=
  ⟨not_mem_placeholder (by decide) pos, not_mem_placeholder (by decide) pos⟩

theorem parenFree_operator (conj : Bool) : ParenFree (operator conj) := by
  rcases conj with _ | _ <;> simp [ParenFree, operator] <;> decide

/-- The part of a call in front of its parenthesis. -/
theorem Atom.marked_eq_head (a : Atom) :
    a.marked order = a.head ++ 40 :: (a.call.markedArguments order ++ [41]) := by
  simp [Atom.marked_eq, Atom.head, Call.marked]

/-- The head of a call has letters, behind the exclamation mark that it may have. -/
theorem Atom.not_mem_head (a : Atom) {c : UInt8} (hmark : c ≠ 33) (hlow : c < 65) :
    c ∉ a.head := by
  have hletter : ¬ 65 ≤ c := UInt8.not_le.mpr hlow
  intro hc
  rw [Atom.head, List.mem_append, List.mem_append] at hc
  rcases hc with hc | hc | hc
  · split at hc
    · exact hmark (List.mem_singleton.mp hc)
    · simp at hc
  · split at hc
    · obtain rfl := List.mem_singleton.mp hc
      exact hletter (by decide)
    · simp at hc
  · exact hletter (EvalOperator.mem_name _ c hc).1

theorem Atom.parenFree_head (a : Atom) : ParenFree a.head :=
  ⟨a.not_mem_head (by decide) (by decide), a.not_mem_head (by decide) (by decide)⟩

theorem EvalOperator.getLast?_name : ∀ op : EvalOperator, op ≠ .undefined →
    ∃ c ∈ op.name.getLast?, isalnum c = true := by
  have hall : ∀ op : EvalOperator, op ≠ .undefined →
      (op.name.getLast?).any isalnum = true := by
    rintro (_ | _ | _ | _ | _ | _ | _) <;> decide
  intro op hop
  obtain ⟨c, hc, halnum⟩ := (Option.any_eq_true isalnum _).mp (hall op hop)
  exact ⟨c, hc, halnum⟩

theorem Atom.getLast?_head (a : Atom) : ∃ c ∈ a.head.getLast?, isalnum c = true := by
  obtain ⟨c, hc, halnum⟩ := EvalOperator.getLast?_name _ a.call.evalOperator_ne
  refine ⟨c, ?_, halnum⟩
  rw [Atom.head, List.getLast?_append, List.getLast?_append]
  rw [Option.mem_def] at hc
  rw [hc]
  rfl

theorem Call.parenFree_markedArguments (c : Call) : ParenFree (c.markedArguments order) :=
  ⟨fun hmem => (Call.mem_markedArguments 40 hmem).2 (by decide),
    fun hmem => (Call.mem_markedArguments 41 hmem).2 (by decide)⟩

/-- A call behind a text without groups. -/
theorem Flat.atom {a : List UInt8} (ha : Flat a) (call : Atom) : Flat (a ++ call.marked order) := by
  rw [Atom.marked_eq_head]
  exact Flat.call ha call.parenFree_head call.getLast?_head call.call.parenFree_markedArguments

theorem Atom.balanced (a : Atom) : Balanced (a.marked order) := by
  rw [Atom.marked_eq_head]
  apply a.parenFree_head.balanced.append
  exact Balanced.group a.call.parenFree_markedArguments.balanced Balanced.nil

mutual

theorem Operand.balanced : ∀ o : Operand, Balanced (o.marked order)
  | .atom a => a.balanced
  | .group negative conj os => by
    rw [Operand.marked_group, groupText]
    apply Balanced.append
    · apply ParenFree.balanced
      rcases negative with _ | _ <;> simp [ParenFree]
    · exact Balanced.group (Operands.balanced conj os) Balanced.nil

theorem Operands.balanced (conj : Bool) : ∀ os : Operands, Balanced (os.marked order conj)
  | .last o => Operand.balanced o
  | .more o os => by
    rw [Operands.marked, Operands.pieces, render_append, render_plain]
    exact (Operand.balanced o).append
      ((parenFree_operator conj).balanced.append (Operands.balanced conj os))

end

theorem OpensFirst.append {s : List UInt8} (hs : OpensFirst s) (t : List UInt8) :
    OpensFirst (s ++ t) := by
  obtain ⟨h, r, rfl, hh⟩ := hs
  exact ⟨h, r ++ t, by rw [List.append_assoc, List.cons_append], hh⟩

theorem Operand.opensFirst (o : Operand) : OpensFirst (o.marked order) := by
  rcases o with a | ⟨negative, conj, os⟩
  · exact ⟨a.head, _, a.marked_eq_head, a.parenFree_head⟩
  · rw [Operand.marked_group]
    exact ⟨_, _, rfl, by rcases negative with _ | _ <;> simp [ParenFree]⟩

theorem Operands.opensFirst (conj : Bool) (os : Operands) : OpensFirst (os.marked order conj) := by
  rcases os with o | ⟨o, os⟩
  · exact o.opensFirst
  · rw [Operands.marked, Operands.pieces, render_append]
    exact o.opensFirst.append _

/-! ## The groups of a level -/

theorem getLast?_append_operator (a : List UInt8) (conj : Bool) :
    ∀ c ∈ (a ++ operator conj).getLast?, c = 32 := by
  have hlast : (operator conj).getLast? = some 32 := by
    rcases conj with _ | _ <;> decide
  intro c hc
  rw [List.getLast?_append, hlast] at hc
  exact (Option.some.inj hc).symm

/-- **All groups of a level are taken out.**  By induction on the operands that are left, behind a
text without groups. -/
theorem detectSubExprs_intercalate {n : ℕ} (conj : Bool) (ops : List Operand) (hne : ops ≠ [])
    {a : List UInt8} (ha : Flat a) (hlast : ∀ c ∈ a.getLast?, c = 32) {expr : List UInt8}
    (hexpr : expr = a ++ (operator conj).intercalate (ops.map (Operand.marked order)))
    (hn : parens expr ≤ n) (groups : List (Bool × List UInt8)) :
    detectSubExprs (fun negative (subexpr : {t : List UInt8 // parens t < n}) =>
        (negative, subexpr.1)) expr hn 0 groups =
      (some (a ++ (operator conj).intercalate ((places groups.length ops).map (placeText order))),
        groups ++ groupsOf order ops) := by
  induction ops generalizing a expr groups with
  | nil => exact absurd rfl hne
  | cons o ops ih =>
      rcases ops with _ | ⟨o', ops⟩
      · -- the last operand
        rw [List.map_singleton, List.intercalate_singleton] at hexpr
        rcases o with call | ⟨negative, conj', os⟩
        · rw [Operand.marked_atom] at hexpr
          subst hexpr
          simpa [places, placeText, groupsOf] using detectSubExprs_flat_end (ha.atom call) hn groups
        · rw [Operand.marked_group] at hexpr
          obtain ⟨hlt, hn', hround⟩ := detectSubExprs_groupText
            (fun negative (subexpr : {t : List UInt8 // parens t < n}) => (negative, subexpr.1))
            ha hlast (Operands.balanced conj' os) (os.opensFirst conj') negative (s := [])
            (hexpr.trans (by rw [List.append_nil])) hn groups
          rw [hround]
          simp only [List.append_nil]
          rw [detectSubExprs_flat_end (ha.plain (parenFree_placeholder _))]
          simp [places, placeText, groupsOf]
      · -- an operand, the operator behind it, and the rest
        rw [List.map_cons, List.map_cons, List.intercalate_cons_cons] at hexpr
        rcases o with call | ⟨negative, conj', os⟩
        · have hnext : expr = (a ++ call.marked order ++ operator conj) ++
              (operator conj).intercalate ((o' :: ops).map (Operand.marked order)) := by
            rw [hexpr, Operand.marked_atom, List.map_cons]
            simp only [List.append_assoc]
          rw [ih (List.cons_ne_nil _ _) ((ha.atom call).plain (parenFree_operator conj))
            (getLast?_append_operator _ conj) hnext]
          obtain ⟨p, ps, hps⟩ : ∃ p ps, places groups.length (o' :: ops) = p :: ps := by
            rcases o' with _ | ⟨_, _, _⟩ <;> simp [places]
          simp [places, placeText, groupsOf, hps, List.intercalate_cons_cons]
        · rw [Operand.marked_group] at hexpr
          obtain ⟨hlt, hn', hround⟩ := detectSubExprs_groupText
            (fun negative (subexpr : {t : List UInt8 // parens t < n}) => (negative, subexpr.1))
            ha hlast (Operands.balanced conj' os) (os.opensFirst conj') negative
            (hexpr.trans (by rw [List.append_assoc])) hn groups
          have hflat : Flat (a ++ placeholder groups.length ++ operator conj) :=
            (ha.plain (parenFree_placeholder _)).plain (parenFree_operator conj)
          rw [hround, ih (List.cons_ne_nil _ _) hflat (getLast?_append_operator _ conj) (by simp)]
          obtain ⟨p, ps, hps⟩ : ∃ p ps, places (groups.length + 1) (o' :: ops) = p :: ps := by
            rcases o' with _ | ⟨_, _, _⟩ <;> simp [places]
          simp [places, placeText, groupsOf, hps, List.intercalate_cons_cons]

/-- What is left of the text of a level, and its groups. -/
theorem takeGroups_marked (conj : Bool) (os : Operands) :
    takeGroups (os.marked order conj) =
      (some ((operator conj).intercalate ((places 0 os.toList).map (placeText order))),
        groupsOf order os.toList) := by
  have h := detectSubExprs_intercalate conj os.toList os.toList_ne_nil Flat.nil
    (by simp) (Operands.render_eq (mark order) conj os) le_rfl []
  simpa [takeGroups, Operands.marked] using h

/-! ## The operators of a level -/

theorem not_contains_iff {s word : List UInt8} (hword : word ≠ []) :
    ¬ Contains s word ↔ ∀ p, ¬ OccursAt word s p := by
  rw [← first_eq_none_iff hword, Contains, ← Option.isSome_iff_exists,
    Option.not_isSome_iff_eq_none]

theorem occursAt_append_right {word a s : List UInt8} (q : ℕ) :
    OccursAt word (a ++ s) (a.length + q) ↔ OccursAt word s q := by
  rw [← occursAt_drop, List.drop_left]

theorem not_occursAt_nil {word : List UInt8} (hword : word ≠ []) (q : ℕ) :
    ¬ OccursAt word [] q := by
  rw [OccursAt, List.drop_nil, List.prefix_nil]
  exact hword

/-- The byte that an operator has twice. -/
def operatorByte (conj : Bool) : UInt8 := if conj then 38 else 124

theorem operator_eq (conj : Bool) :
    operator conj = [32, operatorByte conj, operatorByte conj, 32] := by
  rcases conj with _ | _ <;> decide

theorem operator_ne_nil (conj : Bool) : operator conj ≠ [] := by
  rw [operator_eq]
  exact List.cons_ne_nil _ _

theorem length_operator (conj : Bool) : (operator conj).length = 4 := by
  rw [operator_eq]
  rfl

/-- A text between two operators. -/
structure IsPlace (s : List UInt8) : Prop where
  first : ∃ c t, s = c :: t ∧ c ≠ 38 ∧ c ≠ 124
  oneWord : 32 ∉ s ∧ 10 ∉ s

/-- An operator begins with a blank, so it does not begin in a place. -/
theorem IsPlace.not_occursAt {t : List UInt8} (ht : IsPlace t) (conj : Bool) (s : List UInt8) :
    ∀ q < t.length, ¬ OccursAt (operator conj) (t ++ s) q := by
  rw [operator_eq]
  exact not_occursAt_of_not_mem ht.oneWord.1 s

/-- An operator is replaced between the texts that it joins. -/
theorem replaceAllFrom_intercalate (conj : Bool) {ts : List (List UInt8)}
    (hts : ∀ t ∈ ts, IsPlace t) {fuel : ℕ}
    (hfuel : ((operator conj).intercalate ts).length ≤ fuel) :
    replaceAllFrom (operator conj) [10] fuel ((operator conj).intercalate ts) =
      List.intercalate [10] ts := by
  have hne := operator_ne_nil conj
  induction ts generalizing fuel with
  | nil => exact replaceAllFrom_nil hne fuel
  | cons t ts ih =>
      rw [List.forall_mem_cons] at hts
      rcases ts with _ | ⟨t', ts⟩
      · rw [List.intercalate_singleton, List.intercalate_singleton]
        exact replaceAllFrom_of_not_occursAt hne fuel (hts.1.not_occursAt conj [])
      · rw [List.intercalate_cons_cons] at hfuel ⊢
        rw [List.intercalate_cons_cons, List.append_assoc,
          replaceAllFrom_skip hne fuel _ (hts.1.not_occursAt conj _)]
        simp only [List.length_append, length_operator] at hfuel
        obtain ⟨fuel, rfl⟩ : ∃ k, fuel = k + 1 := ⟨fuel - 1, by omega⟩
        rw [replaceAllFrom_hit hne, ih hts.2 (by omega), List.append_assoc]

/-- A level begins like its first place. -/
theorem intercalate_eq_cons (conj : Bool) {t : List UInt8} (ht : IsPlace t)
    (ts : List (List UInt8)) :
    ∃ c r, (operator conj).intercalate (t :: ts) = c :: r ∧ c ≠ 38 ∧ c ≠ 124 := by
  obtain ⟨c, r, rfl, hamp, hbar⟩ := ht.first
  rcases ts with _ | ⟨t', ts⟩
  · exact ⟨c, r, List.intercalate_singleton, hamp, hbar⟩
  · refine ⟨c, r ++ operator conj ++ (operator conj).intercalate (t' :: ts), ?_, hamp, hbar⟩
    rw [List.intercalate_cons_cons, List.cons_append, List.cons_append]

/-- The other operator does not begin inside an operator: not at its bytes, and not at its last
blank either, behind which there is a place. -/
theorem not_occursAt_operator (conj : Bool) {c : UInt8} (hamp : c ≠ 38) (hbar : c ≠ 124)
    (r : List UInt8) {q : ℕ} (hq : q < 4) :
    ¬ OccursAt (operator !conj) (operator conj ++ c :: r) q := by
  have hother : operatorByte (!conj) ≠ operatorByte conj := by rcases conj with _ | _ <;> decide
  have hblank : ∀ b, operatorByte b ≠ 32 := by
    rintro (_ | _) <;> decide
  have hplace : ∀ b, c ≠ operatorByte b := by
    rintro (_ | _)
    · exact hbar
    · exact hamp
  rw [operator_eq, operator_eq, OccursAt]
  interval_cases q
  · simp [hother]
  · simp [Ne.symm (hblank conj)]
  · simp [Ne.symm (hblank conj)]
  · simp [Ne.symm (hplace !conj)]

/-- The other operator is nowhere in a level. -/
theorem not_occursAt_intercalate (conj : Bool) {ts : List (List UInt8)}
    (hts : ∀ t ∈ ts, IsPlace t) (q : ℕ) :
    ¬ OccursAt (operator !conj) ((operator conj).intercalate ts) q := by
  have hne := operator_ne_nil !conj
  induction ts generalizing q with
  | nil => exact not_occursAt_nil hne q
  | cons t ts ih =>
      rw [List.forall_mem_cons] at hts
      rcases ts with _ | ⟨t', ts⟩
      · rw [List.intercalate_singleton, ← List.append_nil t]
        rcases Nat.lt_or_ge q t.length with hlt | hge
        · exact hts.1.not_occursAt (!conj) [] q hlt
        · obtain ⟨q, rfl⟩ := Nat.exists_eq_add_of_le hge
          rw [occursAt_append_right]
          exact not_occursAt_nil hne q
      · -- in the place, in the operator behind it, or in the rest
        rw [List.intercalate_cons_cons, List.append_assoc]
        rcases Nat.lt_or_ge q t.length with hlt | hge
        · exact hts.1.not_occursAt (!conj) _ q hlt
        · obtain ⟨q, rfl⟩ := Nat.exists_eq_add_of_le hge
          rw [occursAt_append_right]
          rcases Nat.lt_or_ge q 4 with hlt | hge
          · obtain ⟨c, r, hr, hamp, hbar⟩ :=
              intercalate_eq_cons conj (hts.2 t' List.mem_cons_self) ts
            rw [hr]
            exact not_occursAt_operator conj hamp hbar r hlt
          · obtain ⟨q, rfl⟩ := Nat.exists_eq_add_of_le ((length_operator conj).le.trans hge)
            rw [occursAt_append_right]
            exact ih hts.2 q

theorem not_contains_intercalate (conj : Bool) {ts : List (List UInt8)}
    (hts : ∀ t ∈ ts, IsPlace t) :
    ¬ Contains ((operator conj).intercalate ts) (operator !conj) :=
  (not_contains_iff (operator_ne_nil _)).mpr (not_occursAt_intercalate conj hts)

/-- The operator itself is in a level of two operands or more. -/
theorem contains_intercalate (conj : Bool) (t t' : List UInt8) (ts : List (List UInt8)) :
    Contains ((operator conj).intercalate (t :: t' :: ts)) (operator conj) := by
  by_contra hnot
  apply (not_contains_iff (operator_ne_nil conj)).mp hnot t.length
  rw [List.intercalate_cons_cons, List.append_assoc, OccursAt, List.drop_left]
  exact List.prefix_append _ _

/-- The blanks of a level are those of its operators. -/
theorem blank_not_mem_intercalate {ts : List (List UInt8)} (hts : ∀ t ∈ ts, IsPlace t) :
    32 ∉ List.intercalate [10] ts := by
  induction ts with
  | nil => simp
  | cons t ts ih =>
      rw [List.forall_mem_cons] at hts
      rcases ts with _ | ⟨t', ts⟩
      · rw [List.intercalate_singleton]
        exact hts.1.oneWord.1
      · rw [List.intercalate_cons_cons, List.mem_append, List.mem_append, not_or, not_or]
        exact ⟨⟨hts.1.oneWord.1, by decide⟩, ih hts.2⟩

/-- The mode of a level. -/
def modeOf (conj : Bool) (ts : List (List UInt8)) : EvalMode :=
  if conj = true ∧ 2 ≤ ts.length then .and else .or

/-- The operator of a level, and the texts that it joins. -/
theorem separate_intercalate (conj : Bool) {ts : List (List UInt8)} (hts : ∀ t ∈ ts, IsPlace t)
    (hne : ts ≠ []) :
    JSONEval.separate ((operator conj).intercalate ts) =
      (modeOf conj ts, List.intercalate [10] ts) := by
  have hand : bytesOf " && " = operator true := rfl
  have hor : bytesOf " || " = operator false := rfl
  obtain ⟨t, ts, rfl⟩ := List.exists_cons_of_ne_nil hne
  rw [JSONEval.separate, hand, hor]
  rcases ts with _ | ⟨t', ts⟩
  · -- a level of one operand is read as one of `||`
    have hsame : (operator conj).intercalate [t] = (operator false).intercalate [t] := rfl
    have hnot : ¬ Contains ((operator false).intercalate [t]) (operator true) :=
      not_contains_intercalate false hts
    rw [hsame, if_neg hnot, replaceAll, replaceAllFrom_intercalate false hts le_rfl]
    simp [modeOf]
  · have hmode : modeOf conj (t :: t' :: ts) = if conj then .and else .or := by
      simp [modeOf]
    rw [hmode]
    rcases conj with _ | _
    · have hnot : ¬ Contains ((operator false).intercalate (t :: t' :: ts)) (operator true) :=
        not_contains_intercalate false hts
      rw [if_neg hnot, replaceAll, replaceAllFrom_intercalate false hts le_rfl]
      rfl
    · rw [if_pos (contains_intercalate true t t' ts), replaceAll,
        replaceAllFrom_intercalate true hts le_rfl]
      rfl

/-- A level is compiled piece by piece. -/
theorem compileLevel_intercalate (e : JSONEval) (conj : Bool) {ts : List (List UInt8)}
    (hts : ∀ t ∈ ts, IsPlace t) (hne : ts ≠ []) :
    JSONEval.compileLevel e ((operator conj).intercalate ts) =
      JSONEval.compileAtoms { e with evaluationMode := modeOf conj ts } ts := by
  have hboth : ¬ (Contains ((operator conj).intercalate ts) (bytesOf " && ") ∧
      Contains ((operator conj).intercalate ts) (bytesOf " || ")) := by
    rintro ⟨hand, hor⟩
    have hnot := not_contains_intercalate conj hts
    rcases conj with _ | _
    · exact hnot hand
    · exact hnot hor
  rw [JSONEval.compileLevel, if_neg hboth, separate_intercalate conj hts hne]
  dsimp only
  rw [if_neg (blank_not_mem_intercalate hts),
    List.splitOn_intercalate 10 (fun t ht => (hts t ht).oneWord.2) hne]

end Expressions

end Mantids
