/-
# Atomic calls are compiled as they should

`AtomicExpression::compile` reads the text of a call in which marks stand for the string literals.

* `Side.compiled`, `Atom.compiled` — what a call is compiled to;
* `Atom.compile_marked` — it is;
* `Atom.evaluate_compiled` — and has the value of the call.
-/
import Mantids.JsonEvalLiterals
import Mantids.Lib.Cut
import Mantids.Texts

namespace Mantids

open Occurrence

namespace Expressions

/-! ## Sides -/

/-- Bytes of which the arguments of a call are made. -/
def IsArgument (s : List UInt8) : Prop :=
  s ≠ [] ∧ ∀ c ∈ s, isspace c = false ∧ c ∉ ([34, 40, 41, 44] : List UInt8)

theorem isArgument_of_le {s : List UInt8} (hne : s ≠ []) (h : ∀ c ∈ s, 48 ≤ c) : IsArgument s := by
  refine ⟨hne, fun c hc => ⟨isspace_of_le (h c hc), ?_⟩⟩
  · have hle := h c hc
    intro hmem
    simp only [List.mem_cons, List.not_mem_nil, or_false] at hmem
    rcases hmem with rfl | rfl | rfl | rfl <;> exact absurd hle (by decide)

theorem le_of_mem_staticMark (pos : ℕ) : ∀ c ∈ staticMark pos, 48 ≤ c := by
  intro c hc
  by_contra hlt
  exact not_mem_staticMark (UInt8.not_le.mp hlt) pos hc

/-- Marks stand for the literals. -/
def mark (order : List (List UInt8)) (text : List UInt8) : List UInt8 :=
  staticMark (order.idxOf text)

variable {order : List (List UInt8)}

/-- The text of a side once its literal was put aside. -/
def Side.marked (order : List (List UInt8)) (s : Side) : List UInt8 := render (mark order) s.pieces

@[simp] theorem Side.marked_path (p : PathText) :
    Side.marked order (.path p) = 36 :: p.bytes := by
  simp [Side.marked, Side.pieces]

@[simp] theorem Side.marked_number (n : NumberText) : Side.marked order (.number n) = n.bytes := by
  simp [Side.marked, Side.pieces]

@[simp] theorem Side.marked_literal (t : LiteralText) :
    Side.marked order (.literal t) = staticMark (order.idxOf t.bytes) := by
  simp [Side.marked, Side.pieces, mark]

/-- The number of a mark is behind its eight letters. -/
theorem drop_staticMark (pos : ℕ) : (staticMark pos).drop 8 = decimal pos := by
  have hlength : (bytesOf "_STATIC_").length = 8 := by decide
  rw [staticMark, ← hlength, List.drop_left]

theorem Side.isArgument_marked (s : Side) : IsArgument (s.marked order) := by
  rcases s with p | n | t
  · rw [Side.marked_path]
    refine ⟨List.cons_ne_nil _ _, fun c hc => ?_⟩
    rcases List.mem_cons.mp hc with rfl | hc
    · decide
    · exact p.word c hc
  · rw [Side.marked_number]
    apply isArgument_of_le n.digits.1
    intro c hc
    have hdigit := n.digits.2 c hc
    simp only [isdigit, Bool.and_eq_true, decide_eq_true_eq] at hdigit
    exact hdigit.1
  · rw [Side.marked_literal]
    apply isArgument_of_le
    · intro hnil
      exact decimal_ne_nil _ (List.append_eq_nil_iff.mp hnil).2
    · exact le_of_mem_staticMark _

theorem IsArgument.trimBytes_eq {s : List UInt8} (h : IsArgument s) : trimBytes s = s := by
  apply trimBytes_eq_self
  · exact fun c hc => (h.2 c (List.mem_of_head? hc)).1
  · exact fun c hc => (h.2 c (List.mem_of_getLast? hc)).1

/-- What a side is compiled to. -/
def Side.compiled (order : List (List UInt8)) (s : Side) : AtomicExpressionSide where
  expr := s.marked order
  mode :=
    match s with
    | .path _ => .jsonPath
    | .number _ => .numeric
    | .literal _ => .staticString

/-- The literals of a side were put aside. -/
def Side.Known (order : List (List UInt8)) : Side → Prop
  | .literal t => t.bytes ∈ order
  | _ => True

theorem Side.calcMode_marked {s : Side} (hs : s.Known order) (horder : order.length < 2 ^ 64)
    (side : AtomicExpressionSide) :
    (side.setExpr (s.marked order)).calcMode order = (true, s.compiled order) := by
  have harg : IsArgument (s.marked order) := s.isArgument_marked
  have hset : side.setExpr (s.marked order) = { side with expr := s.marked order } := by
    rw [AtomicExpressionSide.setExpr, harg.trimBytes_eq]
  rw [hset, AtomicExpressionSide.calcMode]
  dsimp only
  rw [if_neg harg.1]
  rcases s with p | n | t
  · rw [Side.marked_path, if_pos List.head?_cons, Side.compiled, Side.marked_path]
  · have hall : n.bytes.all isdigit = true := List.all_eq_true.mpr n.digits.2
    have hdollar : n.bytes.head? ≠ some 36 := by
      intro hhead
      exact absurd (n.digits.2 36 (List.mem_of_head? hhead)) (by decide)
    rw [Side.marked_number, if_neg hdollar, if_pos hall, Side.compiled, Side.marked_number]
  · -- neither a path nor a number begins like a mark
    have hlt : order.idxOf t.bytes < order.length := List.idxOf_lt_length_of_mem hs
    have hhead : (staticMark (order.idxOf t.bytes)).head? = some 95 := rfl
    have hall : ¬ (staticMark (order.idxOf t.bytes)).all isdigit = true := by
      rw [staticMark, List.all_append, show (bytesOf "_STATIC_").all isdigit = false by decide]
      simp
    rw [Side.marked_literal, hhead, if_neg (by decide), if_neg hall, drop_staticMark,
      strtoull_decimal (by omega), if_pos ⟨List.prefix_append _ _, hlt⟩, Side.compiled,
      Side.marked_literal]

variable (lib : Libraries) (values : Json)

/-- A compiled side stands for the texts of the side. -/
theorem Side.resolve_compiled {s : Side} (hs : s.Known order) (horder : order.length < 2 ^ 64)
    (resolveRegex ignoreCase : Bool) :
    (s.compiled order).resolve lib values order resolveRegex ignoreCase =
      s.resolve lib values resolveRegex ignoreCase := by
  rcases s with p | n | t
  · simp [AtomicExpressionSide.resolve, Side.compiled, Side.resolve]
  · simp [AtomicExpressionSide.resolve, Side.compiled, Side.resolve]
  · have hlt : order.idxOf t.bytes < order.length := List.idxOf_lt_length_of_mem hs
    simp only [AtomicExpressionSide.resolve, Side.compiled, Side.resolve, Side.marked_literal,
      drop_staticMark]
    rw [strtoull_decimal (by omega), List.getElem?_idxOf hs, Option.getD_some]

/-! ## Patterns -/

theorem upTo_append {c : UInt8} {a : List UInt8} (hne : a ≠ []) (hc : c ∉ a) (rest : List UInt8) :
    upTo c (a ++ c :: rest) = some (a, rest) := by
  have htake := Cut.takeWhile_ne_append hc rest
  have hdrop := Cut.dropWhile_ne_append hc rest
  obtain ⟨x, a, rfl⟩ := List.exists_cons_of_ne_nil hne
  rw [upTo, htake, hdrop]

theorem isspace_of_isSeparator {c : UInt8} (h : isSeparator c = true) : isspace c = true := by
  simp only [isSeparator, Bool.or_eq_true, beq_iff_eq] at h
  rcases h with (rfl | rfl) | rfl <;> decide

theorem regexSearch_false (op : EvalOperator) {s : List UInt8}
    (h : ∀ c ∈ s, isSeparator c = false) : regexSearch op false s = none := by
  induction s with
  | nil => rfl
  | cons c s ih =>
      rw [List.forall_mem_cons] at h
      rw [regexSearch, h.1]
      simpa using ih h.2

/-- In a text of one line, a pattern is looked for at the beginning. -/
theorem regexSearch_true (op : EvalOperator) {s : List UInt8} (hne : s ≠ [])
    (h : ∀ c ∈ s, isSeparator c = false) : regexSearch op true s = matchLine op s := by
  obtain ⟨c, s, rfl⟩ := List.exists_cons_of_ne_nil hne
  rw [List.forall_mem_cons] at h
  rw [regexSearch, h.1, Bool.false_and, regexSearch_false op h.2]
  rcases matchLine op (c :: s) with _ | groups <;> rfl

/-- The name of a call is that of no other operator. -/
theorem not_prefix_of_ne {op op' : EvalOperator} (hne : op' ≠ op) (hop : op ≠ .undefined)
    (hop' : op' ≠ .undefined) (s : List UInt8) :
    ¬ op'.name ++ [40] <+: op.name ++ 40 :: s := by
  have hnames : ∀ o o' : EvalOperator, o' ≠ o → o ≠ .undefined → o' ≠ .undefined →
      ¬ o'.name ++ [40] <+: o.name ++ [40] := by
    rintro (_ | _ | _ | _ | _ | _ | _) (_ | _ | _ | _ | _ | _ | _) <;> decide
  intro hprefix
  have hown : op.name ++ [40] <+: op.name ++ 40 :: s := ⟨s, by simp⟩
  rcases List.prefix_or_prefix_of_prefix hprefix hown with h | h
  · exact hnames op op' hne hop hop' h
  · exact hnames op' op (Ne.symm hne) hop' hop h

/-! ## Calls -/

theorem Call.evalOperator_ne (c : Call) : c.evalOperator ≠ .undefined := by
  rcases c with ⟨op, _, _⟩ | _
  · rcases op with _ | _ | _ | _ | _ <;> simp [Call.evalOperator, Comparison.evalOperator]
  · simp [Call.evalOperator]

/-- The text between the parentheses of a call. -/
def Call.markedArguments (order : List (List UInt8)) (c : Call) : List UInt8 :=
  render (mark order) c.arguments

/-- The text of a call without its marks for negation and case. -/
def Call.marked (order : List (List UInt8)) (c : Call) : List UInt8 :=
  c.evalOperator.name ++ 40 :: (c.markedArguments order ++ [41])

theorem Call.markedArguments_compare (op : Comparison) (left right : Side) :
    Call.markedArguments order (.compare op left right) =
      left.marked order ++ 44 :: right.marked order := by
  simp [Call.markedArguments, Call.arguments, Side.marked]

theorem Call.markedArguments_isNull (side : Side) :
    Call.markedArguments order (.isNull side) = side.marked order := rfl

/-- The bytes between the parentheses of a call. -/
theorem Call.mem_markedArguments {c : Call} :
    ∀ x ∈ c.markedArguments order, isspace x = false ∧ x ∉ ([34, 40, 41] : List UInt8) := by
  have hside : ∀ s : Side, ∀ x ∈ s.marked order,
      isspace x = false ∧ x ∉ ([34, 40, 41] : List UInt8) := by
    intro s x hx
    obtain ⟨hspace, hmem⟩ := s.isArgument_marked.2 x hx
    refine ⟨hspace, fun hx' => hmem ?_⟩
    simp only [List.mem_cons, List.not_mem_nil, or_false] at hx' ⊢
    tauto
  intro x hx
  rcases c with ⟨op, left, right⟩ | side
  · rw [Call.markedArguments_compare, List.mem_append, List.mem_cons] at hx
    rcases hx with hx | rfl | hx
    · exact hside left x hx
    · decide
    · exact hside right x hx
  · exact hside side x hx

theorem EvalOperator.name_ne_nil : ∀ op : EvalOperator, op ≠ .undefined → op.name ≠ [] := by
  rintro (_ | _ | _ | _ | _ | _ | _) <;> decide

theorem EvalOperator.mem_name (op : EvalOperator) :
    ∀ x ∈ op.name, 65 ≤ x ∧ x ≤ 95 := by
  have hall : op.name.all (fun x => 65 ≤ x && x ≤ 95) = true := by
    rcases op with _ | _ | _ | _ | _ | _ | _ <;> decide
  intro x hx
  simpa using List.all_eq_true.mp hall x hx

theorem Call.isspace_of_mem_marked {c : Call} : ∀ x ∈ c.marked order, isspace x = false := by
  intro x hx
  rw [Call.marked, List.mem_append, List.mem_cons, List.mem_append] at hx
  rcases hx with hx | rfl | hx | hx
  · obtain ⟨hlow, -⟩ := EvalOperator.mem_name _ x hx
    have h48 : (48 : UInt8) ≤ 65 := by decide
    exact isspace_of_le (UInt8.le_trans h48 hlow)
  · decide
  · exact (Call.mem_markedArguments x hx).1
  · obtain rfl := List.mem_singleton.mp hx
    decide

theorem Call.isSeparator_of_mem_marked {c : Call} :
    ∀ x ∈ c.marked order, isSeparator x = false := by
  intro x hx
  by_contra hsep
  rw [Bool.not_eq_false] at hsep
  exact Bool.false_ne_true
    ((Call.isspace_of_mem_marked x hx).symm.trans (isspace_of_isSeparator hsep))

theorem Call.marked_ne_nil (c : Call) : c.marked order ≠ [] := by simp [Call.marked]

/-- The groups that the pattern of a call has. -/
def Call.groups (order : List (List UInt8)) : Call → List UInt8 × List UInt8
  | .compare _ left right => (left.marked order, right.marked order)
  | .isNull side => (side.marked order, [])

theorem Call.matchLine_marked (c : Call) :
    matchLine c.evalOperator (c.marked order) = some (c.groups order) := by
  have hprefix : c.evalOperator.name ++ [40] <+: c.marked order :=
    ⟨c.markedArguments order ++ [41], by simp [Call.marked]⟩
  have hdrop : (c.marked order).drop (c.evalOperator.name.length + 1) =
      c.markedArguments order ++ [41] := by
    rw [Call.marked, ← List.drop_drop, List.drop_left]
    rfl
  have hend : endsLine [] = true := by decide
  have hside : ∀ s : Side, ∀ x ∈ ([34, 40, 41, 44] : List UInt8), x ∉ s.marked order :=
    fun s x hx hmem => (s.isArgument_marked.2 x hmem).2 hx
  rw [matchLine, if_pos hprefix, hdrop]
  rcases c with ⟨op, left, right⟩ | side
  · have hop : Call.evalOperator (.compare op left right) ≠ .isNull := by
      rcases op with _ | _ | _ | _ | _ <;> simp [Call.evalOperator, Comparison.evalOperator]
    dsimp only
    rw [if_neg hop, Call.markedArguments_compare, List.append_assoc, List.cons_append,
      upTo_append left.isArgument_marked.1 (hside left 44 (by decide)), Option.bind_some]
    dsimp only
    rw [upTo_append right.isArgument_marked.1 (hside right 41 (by decide)), Option.bind_some]
    simp only [hend, if_true, Call.groups]
  · dsimp only
    rw [if_pos (show Call.evalOperator (.isNull side) = .isNull from rfl),
      Call.markedArguments_isNull,
      upTo_append side.isArgument_marked.1 (hside side 41 (by decide)), Option.bind_some]
    simp only [hend, if_true, Call.groups]

/-- The literals of a call were put aside. -/
def Call.Known (order : List (List UInt8)) : Call → Prop
  | .compare _ left right => left.Known order ∧ right.Known order
  | .isNull side => side.Known order

/-- The two sides that a call is compiled to. -/
def Call.compiled (order : List (List UInt8)) : Call → AtomicExpressionSide × AtomicExpressionSide
  | .compare _ left right => (left.compiled order, right.compiled order)
  | .isNull side => (side.compiled order, { mode := .null })

theorem Call.calcMode_groups {c : Call} (hc : c.Known order) (horder : order.length < 2 ^ 64) :
    (AtomicExpressionSide.setExpr {} (c.groups order).1).calcMode order =
        (true, (c.compiled order).1) ∧
      (AtomicExpressionSide.setExpr {} (c.groups order).2).calcMode order =
        (true, (c.compiled order).2) := by
  rcases c with ⟨op, left, right⟩ | side
  · exact ⟨Side.calcMode_marked hc.1 horder _, Side.calcMode_marked hc.2 horder _⟩
  · refine ⟨Side.calcMode_marked hc horder _, ?_⟩
    rfl

/-- What a call is compiled to. -/
def Atom.compiled (order : List (List UInt8)) (a : Atom) : AtomicExpression where
  expr := a.call.marked order
  left := (a.call.compiled order).1
  right := (a.call.compiled order).2
  evalOperator := a.call.evalOperator
  negativeExpression := a.negative
  ignoreCase := a.ignoreCase

/-- The operators in front of that of the call do not match, and leave everything as it is. -/
theorem Call.tryOperators_marked {c : Call} (hc : c.Known order) (horder : order.length < 2 ^ 64)
    (negative ignoreCase : Bool) (ops : List EvalOperator) (hops : c.evalOperator ∈ ops)
    (hdefined : ∀ op ∈ ops, op ≠ .undefined) :
    AtomicExpression.tryOperators order ops
        { expr := c.marked order, negativeExpression := negative, ignoreCase := ignoreCase } =
      (true, Atom.compiled order ⟨negative, ignoreCase, c⟩) := by
  have hline : ∀ op, regexSearch op true (c.marked order) = matchLine op (c.marked order) :=
    fun op => regexSearch_true op c.marked_ne_nil Call.isSeparator_of_mem_marked
  induction ops with
  | nil => simp at hops
  | cons op ops ih =>
      rw [List.forall_mem_cons] at hdefined
      rw [AtomicExpression.tryOperators, AtomicExpression.substractExpressions]
      dsimp only
      rw [hline]
      by_cases hsame : op = c.evalOperator
      · subst hsame
        obtain ⟨hleft, hright⟩ := Call.calcMode_groups hc horder
        rw [Call.matchLine_marked]
        simp only [hleft, hright, Bool.not_true, Bool.false_eq_true, if_false]
        rfl
      · -- the pattern of another operator
        have hnone : matchLine op (c.marked order) = none := by
          rw [matchLine, Call.marked,
            if_neg (not_prefix_of_ne hsame c.evalOperator_ne hdefined.1 _)]
        rw [hnone]
        apply ih
        · exact (List.mem_cons.mp hops).resolve_left (Ne.symm hsame)
        · exact hdefined.2

/-- The text of a call once its literals were put aside. -/
def Atom.marked (order : List (List UInt8)) (a : Atom) : List UInt8 := render (mark order) a.pieces

theorem Atom.marked_eq (a : Atom) :
    a.marked order = (if a.negative then [33] else []) ++
      ((if a.ignoreCase then [105] else []) ++ a.call.marked order) := by
  simp [Atom.marked, Atom.pieces, Atom.head, Call.marked, Call.markedArguments]

/-- **A call is compiled.** -/
theorem Atom.compile_marked {a : Atom} (ha : a.call.Known order) (horder : order.length < 2 ^ 64) :
    AtomicExpression.compile order (a.marked order) = (true, a.compiled order) := by
  obtain ⟨negative, ignoreCase, c⟩ := a
  have hne : c.marked order ≠ [] := c.marked_ne_nil
  obtain ⟨x, s, hx⟩ := List.exists_cons_of_ne_nil hne
  obtain ⟨y, t, hy⟩ := List.exists_cons_of_ne_nil (EvalOperator.name_ne_nil _ c.evalOperator_ne)
  -- the name of an operator begins with none of the two marks
  have hfirst : x ≠ 33 ∧ x ≠ 105 := by
    have hxy : x = y := by
      rw [Call.marked, hy, List.cons_append] at hx
      exact (List.cons.inj hx).1.symm
    have hmem : y ∈ c.evalOperator.name := by
      rw [hy]
      exact List.mem_cons_self
    obtain ⟨hlow, hhigh⟩ := EvalOperator.mem_name c.evalOperator y hmem
    constructor
    · rintro rfl
      subst hxy
      exact absurd hlow (by decide)
    · rintro rfl
      subst hxy
      exact absurd hhigh (by decide)
  have hlisted : ∀ op : EvalOperator, op ≠ .undefined →
      op ∈ [.isEqual, .regexMatch, .contains, .startsWith, .endsWith, .isNull] := by
    rintro (_ | _ | _ | _ | _ | _ | _) <;> decide
  have htry := Call.tryOperators_marked ha horder negative ignoreCase _
    (hlisted _ c.evalOperator_ne) (by decide)
  have h33 : (x == 33) = false := by simpa using hfirst.1
  have h105 : (x == 105) = false := by simpa using hfirst.2
  rw [Atom.marked_eq, AtomicExpression.compile, ← htry]
  rcases negative with _ | _ <;> rcases ignoreCase with _ | _ <;> simp [hx, h33, h105]

variable (lib : Libraries) (values : Json)

/-- **A compiled call has the value of the call.** -/
theorem Atom.evaluate_compiled {a : Atom} (ha : a.call.Known order)
    (horder : order.length < 2 ^ 64) :
    (a.compiled order).evaluate lib values order = a.value lib values := by
  obtain ⟨negative, ignoreCase, c⟩ := a
  rcases c with ⟨op, left, right⟩ | side
  · have hregex : op.evalOperator = .regexMatch ↔ op = .regexMatch := by
      rcases op with _ | _ | _ | _ | _ <;> decide
    simp only [AtomicExpression.evaluate, Atom.compiled, Call.compiled, Call.evalOperator, hregex,
      Side.resolve_compiled lib values ha.1 horder, Side.resolve_compiled lib values ha.2 horder,
      Atom.value]
  · simp only [AtomicExpression.evaluate, Atom.compiled, Call.compiled, Call.evalOperator,
      Side.resolve_compiled lib values ha horder, Atom.value]
    simp [AtomicExpressionSide.resolve, EvalOperator.holds, Option.map_eq_bind]

end Expressions

end Mantids
