/-
# The value of an expression

What `JSONEval` has compiled is evaluated on a JSON document (`Scripts_JSONExprEval/jsoneval.cpp`,
`atomicexpression.cpp`, `atomicexpressionside.cpp`).

* `Libraries` — what is used of JsonCpp and of the regular expressions;
* `AtomicExpressionSide.resolve` — the texts that a side stands for;
* `AtomicExpression.evaluate`, `JSONEval.evaluate` — the value, if nothing throws.
-/
import Mantids.Json
import Mantids.JsonEval

namespace Mantids

namespace Expressions

/-! ## What is used of the libraries -/

/-- JsonCpp and Boost, as far as an evaluation needs them. -/
structure Libraries where
  /-- `boost::regex`. -/
  Regex : Type
  /-- `Json::Path(path).resolve(v)`. -/
  resolvePath : List UInt8 → Json → Json
  /-- `asString`; some values throw. -/
  asString : Json → Option (List UInt8)
  /-- The constructor of an extended regular expression, with `icase` or without; a pattern that is
  none throws. -/
  regex : Bool → List UInt8 → Option Regex
  /-- `boost::regex_match`. -/
  regexMatch : Regex → List UInt8 → Bool

/-- What a pointer to characters shows of a text. -/
def cString (s : List UInt8) : List UInt8 := s.takeWhile (· ≠ 0)

variable (lib : Libraries) (values : Json)

/-- The texts of a path: those of the elements of an array, or that of a value without elements. -/
def resolveJsonPath (path : List UInt8) : Option (Finset (List UInt8)) :=
  match lib.resolvePath path values with
  | .null => some ∅
  | .array (x :: xs) => ((x :: xs).mapM lib.asString).map List.toFinset
  -- an object has no element 0
  | .object (_ :: _) => none
  | result => (lib.asString result).map ({·})

/-- A text as an operand: as a pattern, it is compiled, and there is no operand. -/
def resolveText (resolveRegex ignoreCase : Bool) (text : List UInt8) :
    Option (Finset (List UInt8) × Option lib.Regex) :=
  if resolveRegex then (lib.regex ignoreCase (cString text)).map (fun r => (∅, some r))
  else some ({text}, none)

/-! ## Atomic expressions -/

/-- `resolve`, with the regular expression of the side afterwards.  It is kept from one evaluation
to the next, but it is the same every time. -/
def AtomicExpressionSide.resolve (s : AtomicExpressionSide) (staticTexts : List (List UInt8))
    (resolveRegex ignoreCase : Bool) : Option (Finset (List UInt8) × Option lib.Regex) :=
  match s.mode with
  | .jsonPath => (resolveJsonPath lib values (s.expr.drop 1)).map (·, none)
  | .staticString =>
    resolveText lib resolveRegex ignoreCase
      ((staticTexts[strtoull (s.expr.drop 8)]?).getD [])
  | .numeric => resolveText lib resolveRegex ignoreCase s.expr
  | .null | .undefined => some (∅, none)

/-- The comparison of two texts, in which the case may not count. -/
def folded (ignoreCase : Bool) (s : List UInt8) : List UInt8 :=
  if ignoreCase then toUpperBytes s else s

/-- The loops of `evaluate` over the texts of both sides. -/
def EvalOperator.holds (op : EvalOperator) (ignoreCase : Bool)
    (lvalues rvalues : Finset (List UInt8)) (regexp : Option lib.Regex) : Bool :=
  match op with
  | .undefined => false
  | .endsWith => ∃ l ∈ lvalues, ∃ r ∈ rvalues, folded ignoreCase r <:+ folded ignoreCase l
  | .startsWith => ∃ l ∈ lvalues, ∃ r ∈ rvalues, folded ignoreCase r <+: folded ignoreCase l
  | .isEqual => ∃ r ∈ rvalues, ∃ l ∈ lvalues, folded ignoreCase r = folded ignoreCase l
  | .isNull => lvalues = ∅
  | .contains => ∃ l ∈ lvalues, ∃ r ∈ rvalues, folded ignoreCase r <:+: folded ignoreCase l
  | .regexMatch => ∃ l ∈ lvalues, regexp.any (fun r => lib.regexMatch r (cString l)) = true

/-- `calcNegative`. -/
def calcNegative (negativeExpression r : Bool) : Bool := if negativeExpression then !r else r

/-- `evaluate`; `none` if something throws. -/
def AtomicExpression.evaluate (a : AtomicExpression) (staticTexts : List (List UInt8)) :
    Option Bool :=
  let resolveRegex := decide (a.evalOperator = .regexMatch)
  (a.left.resolve lib values staticTexts resolveRegex a.ignoreCase).bind (fun left =>
    (a.right.resolve lib values staticTexts resolveRegex a.ignoreCase).map (fun right =>
      calcNegative a.negativeExpression
        (a.evalOperator.holds lib a.ignoreCase left.1 right.1 right.2)))

/-! ## Expressions -/

/-- The loop of a mode: the first value that is not `through` ends it. -/
def evaluateItems {α : Type*} (value : α → Option Bool) (through : Bool) : List α → Option Bool
  | [] => some through
  | i :: items =>
    (value i).bind (fun b => if b = through then evaluateItems value through items else some b)

/-- The value of an atomic expression, or that of a subexpression. -/
def itemValue (staticTexts : List (List UInt8)) (subExpressions : List (Option Bool)) :
    AtomicExpression ⊕ ℕ → Option Bool
  | .inl a => a.evaluate lib values staticTexts
  | .inr pos => (subExpressions[pos]?).join

mutual

/-- `evaluate`.  What a subexpression would do is only asked for when its turn comes. -/
def JSONEval.evaluate : JSONEval → Option Bool
  | ⟨_, _, staticTexts, subExpressions, atomExpressions, negativeExpression, _, evaluationMode⟩ =>
    let value := itemValue lib values staticTexts (JSONEval.evaluateAll subExpressions)
    match evaluationMode with
    | .and => (evaluateItems value true atomExpressions).map (calcNegative negativeExpression)
    | .or => (evaluateItems value false atomExpressions).map (calcNegative negativeExpression)
    | .undefined => some false

def JSONEval.evaluateAll : List JSONEval → List (Option Bool)
  | [] => []
  | e :: es => JSONEval.evaluate e :: JSONEval.evaluateAll es

end

theorem JSONEval.evaluateAll_eq (es : List JSONEval) :
    JSONEval.evaluateAll lib values es = es.map (JSONEval.evaluate lib values) := by
  induction es with
  | nil => rfl
  | cons e es ih => rw [JSONEval.evaluateAll, ih, List.map_cons]

end Expressions

end Mantids
