/-
# Expressions are compiled as they should

An expression of the language is compiled, and evaluated, as its syntax says, if its string literals
can be put aside.

* `Operands.size`, `Operands.Known` — the number of operands, and that all literals were put aside;
* `compileAtoms_places`, `evaluateItems_places` — the pieces of a level, and their values;
* `construct_eq` — what a level is compiled to;
* `construct_correct` — an expression at any depth, by induction on its groups;
* `compiles_correctly` — the whole expression;
* `straddling_not_compiled` — an expression whose literals are not apart.
-/
import Mantids.JsonEvalShapes

namespace Mantids

namespace Expressions

open Occurrence

variable {order : List (List UInt8)}

/-! ## What is assumed of the operands -/

mutual

/-- The number of operands, at all depths. -/
def Operand.size : Operand → ℕ
  | .atom _ => 1
  | .group _ _ operands => Operands.size operands + 1

def Operands.size : Operands → ℕ
  | .last o => Operand.size o
  | .more o os => Operand.size o + Operands.size os

end

/-- The literals of an operand were put aside. -/
def Operand.Known (order : List (List UInt8)) (o : Operand) : Prop :=
  ∀ a ∈ o.atoms, a.call.Known order

def Operands.Known (order : List (List UInt8)) (os : Operands) : Prop :=
  ∀ a ∈ os.atoms, a.call.Known order

theorem Operands.known_of_mem {os : Operands} (h : os.Known order) :
    ∀ o ∈ os.toList, o.Known order := by
  induction os using Operands.rec (motive_1 := fun _ => True) with
  | atom => trivial
  | group => trivial
  | last o =>
      intro o' ho'
      rw [Operands.toList, List.mem_singleton] at ho'
      subst ho'
      exact fun a ha => h a (by rwa [Operands.atoms])
  | more o os _ ih =>
      simp only [Operands.Known, Operands.atoms, List.mem_append] at h
      intro o' ho'
      rw [Operands.toList, List.mem_cons] at ho'
      rcases ho' with rfl | ho'
      · exact fun a ha => h a (Or.inl ha)
      · exact ih (fun a ha => h a (Or.inr ha)) o' ho'

theorem Operand.size_pos (o : Operand) : 0 < o.size := by
  rcases o with _ | ⟨_, _, _⟩ <;> simp [Operand.size]

theorem Operands.length_toList_le (os : Operands) : os.toList.length ≤ os.size := by
  induction os using Operands.rec (motive_1 := fun _ => True) with
  | atom => trivial
  | group => trivial
  | last o => exact o.size_pos
  | more o os _ ih =>
      have hpos := o.size_pos
      simp only [Operands.toList, List.length_cons, Operands.size]
      omega

theorem length_groupsOf_le (ops : List Operand) : (groupsOf order ops).length ≤ ops.length := by
  induction ops with
  | nil => exact le_rfl
  | cons o ops ih =>
      rcases o with _ | ⟨_, _, _⟩ <;> simp only [groupsOf, List.length_cons] <;> omega

/-! ## What a level is compiled to -/

/-- What is compiled of a place. -/
def compiledPlace (order : List (List UInt8)) : Atom ⊕ ℕ → AtomicExpression ⊕ ℕ
  | .inl a => .inl (a.compiled order)
  | .inr pos => .inr pos

/-- The calls of a place are known, or its number is that of a group. -/
def PlaceKnown (order : List (List UInt8)) (groups : ℕ) : Atom ⊕ ℕ → Prop
  | .inl a => a.call.Known order
  | .inr pos => pos < groups

/-- **The pieces of a level are compiled.** -/
theorem compileAtoms_places (ps : List (Atom ⊕ ℕ)) {e : JSONEval} (hstatic : e.staticTexts = order)
    (horder : order.length < 2 ^ 64) (hsize : e.subExpressions.length < 2 ^ 64)
    (hps : ∀ p ∈ ps, PlaceKnown order e.subExpressions.length p) :
    JSONEval.compileAtoms e (ps.map (placeText order)) =
      { e with
        atomExpressions := e.atomExpressions ++ ps.map (compiledPlace order)
        lastError := ""
        isCompiled := true } := by
  induction ps generalizing e with
  | nil => simp [JSONEval.compileAtoms]
  | cons p ps ih =>
      rw [List.forall_mem_cons] at hps
      rw [List.map_cons, JSONEval.compileAtoms]
      rcases p with a | pos
      · -- a call does not begin like a placeholder
        have hprefix : ¬ bytesOf "_SUBEXPR_" <+: placeText order (.inl a) := by
          obtain ⟨c, t, hct, -, -, -, hc⟩ := a.exists_cons order
          rw [placeText, hct, show bytesOf "_SUBEXPR_" = 95 :: bytesOf "SUBEXPR_" by decide,
            List.cons_prefix_cons]
          exact fun h => hc h.1.symm
        have hcompile : AtomicExpression.compile e.staticTexts (a.marked order) =
            (true, a.compiled order) := by
          rw [hstatic]
          exact Atom.compile_marked hps.1 horder
        rw [if_neg hprefix, placeText, hcompile]
        dsimp only
        rw [ih (e := { e with atomExpressions := e.atomExpressions ++ [.inl (a.compiled order)] })
          hstatic hsize hps.2]
        simp [compiledPlace]
      · -- the number of a placeholder is read back
        have hprefix : bytesOf "_SUBEXPR_" <+: placeText order (.inr pos) := List.prefix_append _ _
        have hnumber : (placeText order (.inr pos)).drop 9 = decimal pos := by
          have hlength : (bytesOf "_SUBEXPR_").length = 9 := by decide
          rw [placeText, placeholder, ← hlength, List.drop_left]
        have hpos : pos < e.subExpressions.length := hps.1
        rw [if_pos hprefix, hnumber, strtoull_decimal (by omega)]
        dsimp only
        rw [if_neg (by omega),
          ih (e := { e with atomExpressions := e.atomExpressions ++ [.inr pos] }) hstatic hsize
            hps.2]
        simp [compiledPlace]

theorem placeKnown_places {ops : List Operand} (hops : ∀ o ∈ ops, o.Known order) {pos n : ℕ}
    (hn : pos + (groupsOf order ops).length ≤ n) :
    ∀ p ∈ places pos ops, PlaceKnown order n p := by
  induction ops generalizing pos with
  | nil => simp [places]
  | cons o ops ih =>
      rw [List.forall_mem_cons] at hops
      rcases o with a | ⟨negative, conj, os⟩
      · simp only [groupsOf] at hn
        rw [places, List.forall_mem_cons]
        exact ⟨hops.1 a (by simp [Operand.atoms]), ih hops.2 hn⟩
      · simp only [groupsOf, List.length_cons] at hn
        rw [places, List.forall_mem_cons]
        refine ⟨?_, ih hops.2 (by omega)⟩
        show pos < n
        omega

/-! ## The value of a level -/

section Value

variable (lib : Libraries) (values : Json)

/-- The values of the groups of a row. -/
def groupValues : List Operand → List (Option Bool)
  | [] => []
  | .atom _ :: ops => groupValues ops
  | .group negative conj os :: ops =>
    Operand.denote lib values (.group negative conj os) :: groupValues ops

/-- **What a level is compiled to has the values of its operands.** -/
theorem evaluateItems_places (through : Bool) {ops : List Operand} (hops : ∀ o ∈ ops, o.Known order)
    (horder : order.length < 2 ^ 64) (done : List (Option Bool)) :
    evaluateItems (itemValue lib values order (done ++ groupValues lib values ops)) through
        ((places done.length ops).map (compiledPlace order)) =
      evaluateItems (Operand.denote lib values) through ops := by
  induction ops generalizing done with
  | nil => rfl
  | cons o ops ih =>
      rw [List.forall_mem_cons] at hops
      rcases o with a | ⟨negative, conj, os⟩
      · have hknown : a.call.Known order := hops.1 a (by simp [Operand.atoms])
        have hvalue : itemValue lib values order (done ++ groupValues lib values ops)
            (.inl (a.compiled order)) = Operand.denote lib values (.atom a) := by
          rw [itemValue, Atom.evaluate_compiled lib values hknown horder, Operand.denote]
        simp only [places, List.map_cons, compiledPlace, evaluateItems, groupValues, hvalue,
          ih hops.2]
      · -- the group is the next behind those that are done
        have hvalue : itemValue lib values order
            (done ++ groupValues lib values (.group negative conj os :: ops)) (.inr done.length) =
              Operand.denote lib values (.group negative conj os) := by
          simp [itemValue, groupValues]
        have hrest := ih hops.2 (done ++ [Operand.denote lib values (.group negative conj os)])
        rw [List.append_assoc, List.singleton_append, List.length_append, List.length_singleton]
          at hrest
        simp only [places, List.map_cons, compiledPlace, evaluateItems, hvalue]
        simp only [groupValues, hrest]

theorem evaluateItems_toList (conj : Bool) (os : Operands) :
    evaluateItems (Operand.denote lib values) conj os.toList = os.denote lib values conj := by
  induction os using Operands.rec (motive_1 := fun _ => True) with
  | atom => trivial
  | group => trivial
  | last o =>
      rw [Operands.toList, evaluateItems, Operands.denote]
      rcases o.denote lib values with _ | b
      · rfl
      · rw [Option.bind_some, evaluateItems]
        split
        · rename_i hb
          rw [hb]
        · rfl
  | more o os _ ih => rw [Operands.toList, evaluateItems, ih, Operands.denote]

/-- A level of one operand has the value of the operand, in either mode. -/
theorem evaluateItems_modeOf (conj : Bool) (os : Operands) (ts : List (List UInt8))
    (hlength : ts.length = os.toList.length) :
    evaluateItems (Operand.denote lib values) (decide (modeOf conj ts = .and)) os.toList =
      os.denote lib values conj := by
  rw [modeOf, hlength]
  by_cases hmode : conj = true ∧ 2 ≤ os.toList.length
  · obtain ⟨rfl, h2⟩ := hmode
    rw [if_pos ⟨rfl, h2⟩, decide_eq_true rfl]
    exact evaluateItems_toList lib values true os
  · rw [if_neg hmode, decide_eq_false (by decide)]
    rcases conj with _ | _
    · exact evaluateItems_toList lib values false os
    · rcases os with o | ⟨o, os⟩
      · exact evaluateItems_toList lib values false (.last o)
      · have hne := List.length_pos_iff.mpr os.toList_ne_nil
        exact absurd ⟨rfl, by rw [Operands.toList, List.length_cons]; omega⟩ hmode

end Value

/-! ## One level -/

/-- A text without quotes has no literals to put aside. -/
theorem takeStaticTexts_of_not_mem (fuel : ℕ) (staticTexts : List (List UInt8)) {s : List UInt8}
    (hs : 34 ∉ s) : takeStaticTexts fuel staticTexts s = (staticTexts, s) := by
  rcases fuel with _ | fuel
  · rfl
  · have hquoted : MimeHeaderOption.quoted s = none := by
      have hdrop : s.dropWhile (· ≠ 34) = [] := by
        rw [List.dropWhile_eq_nil_iff]
        intro c hc
        simpa using fun heq : c = 34 => hs (heq ▸ hc)
      rw [MimeHeaderOption.quoted, hdrop]
      rfl
    rw [takeStaticTexts, hquoted]

/-- In a group all literals were put aside before. -/
theorem literalsOf_marked (conj : Bool) (os : Operands) :
    literalsOf order (os.marked order conj) = (order, os.marked order conj) := by
  have hquote : 34 ∉ os.marked order conj :=
    fun hmem => (Operands.plainByte_of_mem conj os 34 hmem).1 rfl
  rw [literalsOf, Operands.marked, Operands.trimBytes_render]
  exact takeStaticTexts_of_not_mem _ _ hquote

theorem compressSpaces_of_spaced {s : List UInt8} (hs : Spaced s) (fuel : ℕ) :
    compressSpaces fuel s = s := by
  rcases fuel with _ | fuel
  · rfl
  · rw [compressSpaces, if_neg ((not_contains_iff (List.cons_ne_nil _ _)).mpr hs.not_occursAt)]

/-- **What a level is compiled to**, once its literals were put aside. -/
theorem construct_eq {statics : List (List UInt8)} {expr : List UInt8} {conj : Bool} {os : Operands}
    (hliterals : literalsOf statics expr = (order, os.marked order conj)) (hknown : os.Known order)
    (horder : order.length < 2 ^ 64) (hsize : os.size < 2 ^ 64) (negative : Bool) :
    JSONEval.construct statics negative expr =
      { expression := trimBytes expr
        lastError := ""
        staticTexts := order
        subExpressions :=
          (groupsOf order os.toList).map (fun g => JSONEval.construct order g.1 g.2)
        atomExpressions := (places 0 os.toList).map (compiledPlace order)
        negativeExpression := negative
        isCompiled := true
        evaluationMode := modeOf conj ((places 0 os.toList).map (placeText order)) } := by
  have hquote : 34 ∉ os.marked order conj :=
    fun hmem => (Operands.plainByte_of_mem conj os 34 hmem).1 rfl
  have hline : 10 ∉ os.marked order conj :=
    fun hmem => (Operands.plainByte_of_mem conj os 10 hmem).2 rfl
  have hkeyword : ¬ Contains (os.marked order conj) (bytesOf "_SUBEXPR_") :=
    (not_contains_iff keyword_ne_nil).mpr (Operands.noKeyword conj os)
  have hgroups : (groupsOf order os.toList).length ≤ os.size :=
    (length_groupsOf_le os.toList).trans os.length_toList_le
  have hplaces : ∀ t ∈ (places 0 os.toList).map (placeText order), IsPlace t := by
    intro t ht
    obtain ⟨p, -, rfl⟩ := List.mem_map.mp ht
    exact isPlace_placeText p
  have hne : (places 0 os.toList).map (placeText order) ≠ [] := by
    obtain ⟨o, rest, hrest⟩ := List.exists_cons_of_ne_nil os.toList_ne_nil
    rw [hrest]
    rcases o with _ | ⟨_, _, _⟩ <;> simp [places]
  rw [JSONEval.construct]
  dsimp only
  rw [JSONEval.detectSubExprs_construct, hliterals]
  dsimp only
  -- no check stops the compilation
  rw [if_neg hquote, if_neg hline, if_neg hkeyword,
    compressSpaces_of_spaced (Operands.spaced conj os), takeGroups_marked]
  dsimp only
  rw [compileLevel_intercalate _ conj hplaces hne, compileAtoms_places _ rfl horder]
  · rfl
  · rw [List.length_map]
    omega
  · apply placeKnown_places (Operands.known_of_mem hknown)
    simp

/-- The value of an expression that has a mode. -/
theorem evaluate_eq (lib : Libraries) (values : Json) {e : JSONEval}
    (hmode : e.evaluationMode ≠ .undefined) :
    e.evaluate lib values =
      (evaluateItems (itemValue lib values e.staticTexts
          (e.subExpressions.map (JSONEval.evaluate lib values)))
        (decide (e.evaluationMode = .and)) e.atomExpressions).map
          (calcNegative e.negativeExpression) := by
  rcases e with ⟨_, _, staticTexts, subExpressions, atoms, negative, _, mode⟩
  rcases mode with _ | _ | _
  · rw [JSONEval.evaluate, JSONEval.evaluateAll_eq]
    rfl
  · rw [JSONEval.evaluate, JSONEval.evaluateAll_eq]
    rfl
  · exact absurd rfl hmode

theorem modeOf_ne_undefined (conj : Bool) (ts : List (List UInt8)) :
    modeOf conj ts ≠ .undefined := by
  rw [modeOf]
  split <;> decide

theorem length_places (pos : ℕ) (ops : List Operand) : (places pos ops).length = ops.length := by
  induction ops generalizing pos with
  | nil => rfl
  | cons o ops ih =>
      rcases o with _ | ⟨_, _, _⟩ <;> simp only [places, List.length_cons, ih]

/-- What the constructor makes of an expression whose literals were put aside. -/
structure Correct (order : List (List UInt8)) (conj : Bool) (os : Operands) (negative : Bool)
    (e : JSONEval) : Prop where
  isCompiled : e.isCompiled = true
  evaluate : ∀ lib values,
    e.evaluate lib values = (os.denote lib values conj).map (calcNegative negative)

/-- A level is as it should be if its groups are. -/
theorem construct_level {statics : List (List UInt8)} {expr : List UInt8} {conj : Bool}
    {os : Operands} (hliterals : literalsOf statics expr = (order, os.marked order conj))
    (hknown : os.Known order) (horder : order.length < 2 ^ 64) (hsize : os.size < 2 ^ 64)
    (hgroups : ∀ lib values,
      (groupsOf order os.toList).map
          (fun g => (JSONEval.construct order g.1 g.2).evaluate lib values) =
        groupValues lib values os.toList) (negative : Bool) :
    Correct order conj os negative (JSONEval.construct statics negative expr) := by
  rw [construct_eq hliterals hknown horder hsize]
  refine ⟨rfl, fun lib values => ?_⟩
  rw [evaluate_eq lib values (modeOf_ne_undefined _ _)]
  dsimp only
  rw [List.map_map]
  have hplaces := evaluateItems_places lib values
    (decide (modeOf conj ((places 0 os.toList).map (placeText order)) = .and))
    (Operands.known_of_mem hknown) horder []
  rw [List.nil_append, ← hgroups lib values] at hplaces
  apply congrArg
  refine hplaces.trans (evaluateItems_modeOf lib values conj os _ ?_)
  rw [List.length_map, length_places]

/-! ## All levels -/

theorem groupsOf_cons (o : Operand) (ops : List Operand) :
    groupsOf order (o :: ops) = groupsOf order [o] ++ groupsOf order ops := by
  rcases o with _ | ⟨_, _, _⟩ <;> rfl

theorem groupValues_cons (lib : Libraries) (values : Json) (o : Operand) (ops : List Operand) :
    groupValues lib values (o :: ops) =
      groupValues lib values [o] ++ groupValues lib values ops := by
  rcases o with _ | ⟨_, _, _⟩ <;> rfl

mutual

/-- The group that an operand may be has its value. -/
theorem Operand.evaluate_group (horder : order.length < 2 ^ 64) (lib : Libraries) (values : Json) :
    ∀ o : Operand, o.Known order → o.size < 2 ^ 64 →
      (groupsOf order [o]).map (fun g => (JSONEval.construct order g.1 g.2).evaluate lib values) =
        groupValues lib values [o]
  | .atom _ => fun _ _ => rfl
  | .group negative conj os => by
    intro hknown hsize
    rw [Operand.Known, Operand.atoms] at hknown
    rw [Operand.size] at hsize
    have hlevel := construct_level (literalsOf_marked conj os) hknown horder (by omega)
      (fun lib values => Operands.evaluate_groups horder lib values os hknown (by omega)) negative
    simp only [groupsOf, groupValues, List.map_cons, List.map_nil, Operand.denote,
      hlevel.evaluate lib values]

/-- **The groups of a level have their values**, by induction on their depth. -/
theorem Operands.evaluate_groups (horder : order.length < 2 ^ 64) (lib : Libraries)
    (values : Json) :
    ∀ os : Operands, os.Known order → os.size < 2 ^ 64 →
      (groupsOf order os.toList).map
          (fun g => (JSONEval.construct order g.1 g.2).evaluate lib values) =
        groupValues lib values os.toList
  | .last o => by
    intro hknown hsize
    rw [Operands.Known, Operands.atoms] at hknown
    rw [Operands.size] at hsize
    exact Operand.evaluate_group horder lib values o hknown hsize
  | .more o os => by
    intro hknown hsize
    rw [Operands.Known, Operands.atoms, List.forall_mem_append] at hknown
    rw [Operands.size] at hsize
    rw [Operands.toList, groupsOf_cons, groupValues_cons, List.map_append,
      Operand.evaluate_group horder lib values o hknown.1 (by omega),
      Operands.evaluate_groups horder lib values os hknown.2 (by omega)]

end

/-- An expression is as it should be once its literals are put aside. -/
theorem construct_correct {statics : List (List UInt8)} {expr : List UInt8} {conj : Bool}
    {os : Operands} (hliterals : literalsOf statics expr = (order, os.marked order conj))
    (hknown : os.Known order) (horder : order.length < 2 ^ 64) (hsize : os.size < 2 ^ 64)
    (negative : Bool) : Correct order conj os negative (JSONEval.construct statics negative expr) :=
  construct_level hliterals hknown horder hsize
    (fun lib values => Operands.evaluate_groups horder lib values os hknown hsize) negative

/-! ## The literals of an expression -/

theorem literals_append (ps qs : List Piece) :
    literals (ps ++ qs) = literals ps ++ literals qs := by
  induction ps with
  | nil => rfl
  | cons p ps ih =>
      rcases p with bytes | text
      · exact ih
      · exact congrArg (text :: ·) ih

theorem Side.known_of_literals {s : Side} (h : literals s.pieces ⊆ order) : s.Known order := by
  rcases s with p | n | t
  · trivial
  · trivial
  · exact h (by simp [Side.pieces, literals])

theorem Atom.known_of_literals {a : Atom} (h : literals a.pieces ⊆ order) : a.call.Known order := by
  obtain ⟨negative, ignoreCase, ⟨op, left, right⟩ | side⟩ := a
  · simp only [Atom.pieces, Call.arguments, literals, literals_append, List.append_subset] at h
    exact ⟨Side.known_of_literals h.1.1, Side.known_of_literals h.1.2⟩
  · simp only [Atom.pieces, Call.arguments, literals, literals_append, List.append_subset] at h
    exact Side.known_of_literals h.1

mutual

theorem Operand.known_of_literals : ∀ o : Operand, literals o.pieces ⊆ order → o.Known order
  | .atom a => by
    intro h b hb
    rw [Operand.atoms, List.mem_singleton] at hb
    subst hb
    exact Atom.known_of_literals h
  | .group negative conj os => by
    intro h
    rw [Operand.Known, Operand.atoms]
    rw [Operand.pieces, literals, literals_append, List.append_subset] at h
    exact Operands.known_of_literals conj os h.1

theorem Operands.known_of_literals (conj : Bool) :
    ∀ os : Operands, literals (os.pieces conj) ⊆ order → os.Known order
  | .last o => by
    intro h
    rw [Operands.Known, Operands.atoms]
    exact Operand.known_of_literals o h
  | .more o os => by
    intro h
    rw [Operands.pieces, literals_append, literals, List.append_subset] at h
    rw [Operands.Known, Operands.atoms, List.forall_mem_append]
    exact ⟨Operand.known_of_literals o h.1, Operands.known_of_literals conj os h.2⟩

end

theorem Side.quoteless (s : Side) : Quoteless s.pieces := by
  rcases s with p | n | t
  · have hpath : 34 ∉ p.bytes := fun hmem => (p.word 34 hmem).2 (by simp)
    simp [Side.pieces, hpath]
  · have hnumber : 34 ∉ n.bytes := fun hmem => absurd (n.digits.2 34 hmem) (by decide)
    simp [Side.pieces, hnumber]
  · have htext : 34 ∉ t.bytes := fun hmem => (t.oneLine 34 hmem).1 rfl
    simp [Side.pieces, htext]

theorem Atom.quoteless (a : Atom) : Quoteless a.pieces := by
  have hhead : 34 ∉ a.head ++ [40] := by
    intro hmem
    rcases List.mem_append.mp hmem with hmem | hmem
    · exact a.not_mem_head (by decide) (by decide) hmem
    · exact absurd hmem (by decide)
  have harguments : Quoteless a.call.arguments := by
    rcases a.call with ⟨op, left, right⟩ | side
    · simp [Call.arguments, left.quoteless, right.quoteless]
    · exact side.quoteless
  rw [Atom.pieces, quoteless_plain, quoteless_append]
  exact ⟨hhead, harguments, by simp⟩

mutual

theorem Operand.quoteless : ∀ o : Operand, Quoteless o.pieces
  | .atom a => a.quoteless
  | .group negative conj os => by
    rw [Operand.pieces, quoteless_plain, quoteless_append]
    refine ⟨?_, Operands.quoteless conj os, by simp⟩
    rcases negative with _ | _ <;> decide

theorem Operands.quoteless (conj : Bool) : ∀ os : Operands, Quoteless (os.pieces conj)
  | .last o => Operand.quoteless o
  | .more o os => by
    rw [Operands.pieces, quoteless_append, quoteless_plain]
    refine ⟨Operand.quoteless o, ?_, Operands.quoteless conj os⟩
    rcases conj with _ | _ <;> decide

end

/-! ### Lengths -/

mutual

theorem Operand.size_le (f : List UInt8 → List UInt8) :
    ∀ o : Operand, o.size ≤ (render f o.pieces).length
  | .atom a => by
    simp only [Operand.size, Operand.pieces, Atom.pieces, render_plain, List.length_append,
      List.length_singleton]
    omega
  | .group negative conj os => by
    have hle := Operands.size_le f conj os
    simp only [Operand.size, Operand.pieces, render_plain, render_append, List.length_append,
      List.length_singleton]
    omega

theorem Operands.size_le (f : List UInt8 → List UInt8) (conj : Bool) :
    ∀ os : Operands, os.size ≤ (render f (os.pieces conj)).length
  | .last o => Operand.size_le f o
  | .more o os => by
    have ho := Operand.size_le f o
    have hos := Operands.size_le f conj os
    simp only [Operands.size, Operands.pieces, render_plain, render_append, List.length_append]
    omega

end

/-! ## Whole expressions -/

/-- The literals of an expression are put aside where they stand. -/
theorem literalsOf_text {conj : Bool} {os : Operands} (hapart : LiteralsApart (os.pieces conj)) :
    literalsOf [] (os.text conj) =
      (literalOrder (os.pieces conj), os.marked (literalOrder (os.pieces conj)) conj) := by
  have hnone : ∀ ps : List Piece, aside [] ps = ps := asideBy_nil staticMark
  have haside := takeStaticTexts_aside (Operands.quoteless conj os) [] _ rfl hapart
    (length_literalOrder_le _)
  rw [hnone, render_aside_literalOrder] at haside
  rw [literalsOf, Operands.text, Operands.trimBytes_render]
  exact haside

/-- An expression is compiled, and has the value that its syntax gives it. -/
structure CompiledCorrectly (conj : Bool) (os : Operands) : Prop where
  isCompiled : (JSONEval.ofExpr (os.text conj)).isCompiled = true
  evaluate : ∀ lib values,
    (JSONEval.ofExpr (os.text conj)).evaluate lib values = os.denote lib values conj
  holds : ∀ lib values (v : Atom → Bool), (∀ a ∈ os.atoms, a.value lib values = some (v a)) →
    (JSONEval.ofExpr (os.text conj)).evaluate lib values = some (os.holds v conj)

/-- **Expressions are compiled and evaluated as they should**, if their literals are apart. -/
theorem compiles_correctly (conj : Bool) (os : Operands)
    (hlength : (os.text conj).length < 2 ^ 64) (hapart : LiteralsApart (os.pieces conj)) :
    CompiledCorrectly conj os := by
  have hknown : os.Known (literalOrder (os.pieces conj)) := by
    apply Operands.known_of_literals conj os
    intro text htext
    rw [literalOrder]
    exact List.mem_eraseDups.mpr htext
  have horder : (literalOrder (os.pieces conj)).length < 2 ^ 64 :=
    (length_literalOrder_le _).trans_lt hlength
  have hsize : os.size < 2 ^ 64 := (Operands.size_le quote conj os).trans_lt hlength
  have hcorrect := construct_correct (literalsOf_text hapart) hknown horder hsize false
  have hevaluate : ∀ lib values,
      (JSONEval.ofExpr (os.text conj)).evaluate lib values = os.denote lib values conj := by
    intro lib values
    refine (hcorrect.evaluate lib values).trans ?_
    rcases os.denote lib values conj with _ | _ <;> rfl
  refine ⟨hcorrect.isCompiled, hevaluate, fun lib values v hv => ?_⟩
  rw [hevaluate, Operands.denote_eq_holds lib values conj os hv]

/-- A literal of one character. -/
def charLiteral (c : UInt8) (h : c ≠ 34 ∧ c ≠ 10) : Side :=
  .literal ⟨[c], List.forall_mem_singleton.mpr h⟩

/-- A path of one character. -/
def charPath (c : UInt8) (h : isspace c = false ∧ c ∉ ([34, 40, 41, 44] : List UInt8)) : Side :=
  .path ⟨[c], List.forall_mem_singleton.mpr h,
    (not_contains_iff keyword_ne_nil).mpr (fun p hp => by
      have hlength := hp.length_le
      have hdrop : ([c].drop p).length ≤ 1 := by
        rw [List.length_drop]
        exact Nat.sub_le _ _
      exact absurd (hlength.trans hdrop) (by decide))⟩

/-- `!(IS_EQUAL($a,"b") || iCONTAINS($a,"c")) && IS_NULL($d)`. -/
def exclusion : Operands :=
  .more (.group true false
      (.more (.atom ⟨false, false,
          .compare .isEqual (charPath 97 (by decide)) (charLiteral 98 (by decide))⟩)
        (.last (.atom ⟨false, true,
          .compare .contains (charPath 97 (by decide)) (charLiteral 99 (by decide))⟩))))
    (.last (.atom ⟨false, false, .isNull (charPath 100 (by decide))⟩))

/-- A group and two literals that are apart. -/
theorem compiles_correctly_exclusion : CompiledCorrectly true exclusion :=
  compiles_correctly true exclusion (by decide) (by decide)

/-- `IS_EQUAL($a,",") && IS_EQUAL("b","c")`: the comma is also between two literals. -/
def straddling : Operands :=
  .more (.atom ⟨false, false,
      .compare .isEqual (charPath 97 (by decide)) (charLiteral 44 (by decide))⟩)
    (.last (.atom ⟨false, false,
      .compare .isEqual (charLiteral 98 (by decide)) (charLiteral 99 (by decide))⟩))

/-- The second call is left with one side, `_STATIC_1`. -/
def straddlingLevel : List UInt8 := bytesOf "IS_EQUAL($a,_STATIC_0) && IS_EQUAL(_STATIC_1)"

/-- The comma between the last two literals is put aside with the quotes around it, and the call
that had it is none any more. -/
theorem straddling_not_compiled : ¬ CompiledCorrectly true straddling := by
  have hliterals : literalsOf [] (straddling.text true) =
      ([[44], bytesOf "b_STATIC_0c"], straddlingLevel) := by
    rw [straddlingLevel, bytesOf_ofList]
    decide +kernel
  have hspaces : compressSpaces straddlingLevel.length straddlingLevel = straddlingLevel := by
    rw [straddlingLevel, bytesOf_ofList]
    decide +kernel
  -- both calls stay as they are
  have hgroups : takeGroups straddlingLevel = (some straddlingLevel, []) := by
    have hfirst : scan (straddlingLevel.drop 0) 0 0 0 = .closed 8 21 := by decide +kernel
    have hsecond : scan (straddlingLevel.drop 22) 22 0 0 = .closed 34 44 := by decide +kernel
    rw [takeGroups, detectSubExprs_call hfirst (by decide +kernel),
      detectSubExprs_call hsecond (by decide +kernel)]
    exact detectSubExprs_finished (by decide +kernel)
  intro h
  obtain ⟨level, hlevel, hwell⟩ := ((JSONEval.isCompiled_iff _ _ _).mp h.isCompiled).level
  rw [hliterals] at hlevel hwell
  dsimp only at hlevel hwell
  rw [hspaces, hgroups] at hlevel hwell
  obtain rfl := Option.some.inj hlevel
  have hatom := hwell.atoms (bytesOf "IS_EQUAL(_STATIC_1)") (by decide +kernel)
  exact absurd hatom (by decide +kernel)

/-- A number of one digit. -/
def digitNumber (c : UInt8) (h : isdigit c = true) : Side :=
  .number ⟨[c], List.cons_ne_nil c [], List.forall_mem_singleton.mpr h⟩

/-- A literal with what stands between the calls of `masked`. -/
def gapLiteral : Side :=
  .literal ⟨bytesOf ") && IS_EQUAL($d,", List.all_iff_forall_prop.mp (by decide +kernel)⟩

/-- `IS_EQUAL(1,2)`, which is false, in front of other calls. -/
def behindFalse (os : Operands) : Operands :=
  .more (.atom ⟨false, false,
    .compare .isEqual (digitNumber 49 (by decide)) (digitNumber 50 (by decide))⟩) os

theorem denote_behindFalse (lib : Libraries) (values : Json) (os : Operands) :
    (behindFalse os).denote lib values true = some false := by
  have hfalse : Operand.denote lib values (.atom ⟨false, false,
      .compare .isEqual (digitNumber 49 (by decide)) (digitNumber 50 (by decide))⟩) =
        some false := by
    simp [Operand.denote, Atom.value, Side.resolve, digitNumber, resolveText, EvalOperator.holds,
      Comparison.evalOperator, folded, calcNegative]
  rw [behindFalse, Operands.denote, hfalse]
  rfl

/-- `IS_EQUAL(1,2) && IS_EQUAL($a,") && IS_EQUAL($d,") && IS_EQUAL($a,"b") && IS_EQUAL($d,"c")`. -/
def masked : Operands :=
  behindFalse (.more (.atom ⟨false, false, .compare .isEqual (charPath 97 (by decide)) gapLiteral⟩)
    (.more (.atom ⟨false, false,
        .compare .isEqual (charPath 97 (by decide)) (charLiteral 98 (by decide))⟩)
      (.last (.atom ⟨false, false,
        .compare .isEqual (charPath 100 (by decide)) (charLiteral 99 (by decide))⟩))))

/-- What is compiled for it. -/
def unmasked : Operands :=
  behindFalse (.more (.atom ⟨false, false, .compare .isEqual (charPath 97 (by decide)) gapLiteral⟩)
    (.last (.atom ⟨false, false, .compare .isEqual (charPath 97 (by decide))
      (.literal ⟨bytesOf "b_STATIC_0c",
        List.all_iff_forall_prop.mp (by decide +kernel)⟩)⟩)))

/-- The condition is not necessary: a call that is false hides those behind it. -/
theorem masked_correctly : CompiledCorrectly true masked ∧
    ¬ LiteralsApart (masked.pieces true) := by
  have hliterals : literalsOf [] (masked.text true) =
      ([bytesOf ") && IS_EQUAL($d,", bytesOf "b_STATIC_0c"],
        unmasked.marked [bytesOf ") && IS_EQUAL($d,", bytesOf "b_STATIC_0c"] true) := by
    decide
  have hknown : unmasked.Known [bytesOf ") && IS_EQUAL($d,", bytesOf "b_STATIC_0c"] := by
    apply Operands.known_of_literals true unmasked
    decide
  have hcorrect := construct_correct hliterals hknown (by decide) (by decide) false
  have hevaluate : ∀ lib values,
      (JSONEval.ofExpr (masked.text true)).evaluate lib values = masked.denote lib values true := by
    intro lib values
    refine (hcorrect.evaluate lib values).trans ?_
    rw [masked, unmasked, denote_behindFalse, denote_behindFalse]
    rfl
  refine ⟨⟨hcorrect.isCompiled, hevaluate, fun lib values v hv => ?_⟩, by decide⟩
  rw [hevaluate, Operands.denote_eq_holds lib values true masked hv]

end Expressions

end Mantids
