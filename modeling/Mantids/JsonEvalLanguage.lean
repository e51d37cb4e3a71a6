/-
# The language of the expressions

The texts that `JSONEval` is written for, and what they mean.

* `Side`, `Call`, `Atom` — an atomic call, which may be negated and made to ignore the case;
* `Operand`, `Operands` — calls and groups, joined by one operator;
* `Operands.pieces` — the text of an expression, as pieces with its string literals apart;
* `Operands.denote` — its value on a JSON document, if no library throws;
* `Operands.holds`, `Operands.denote_eq_holds` — its value, given those of its calls.
-/
import Mantids.JsonEvaluate

namespace Mantids

namespace Expressions

open Occurrence

/-! ## Syntax -/

/-- A path of JsonCpp, without the dollar sign. -/
structure PathText where
  bytes : List UInt8
  word : ∀ c ∈ bytes, isspace c = false ∧ c ∉ ([34, 40, 41, 44] : List UInt8)
  noKeyword : ¬ Contains bytes (bytesOf "_SUBEXPR_")

structure NumberText where
  bytes : List UInt8
  digits : bytes ≠ [] ∧ ∀ c ∈ bytes, isdigit c = true

structure LiteralText where
  bytes : List UInt8
  oneLine : ∀ c ∈ bytes, c ≠ 34 ∧ c ≠ 10

/-- One side of an atomic call. -/
inductive Side where
  | path (p : PathText)
  | number (n : NumberText)
  | literal (t : LiteralText)

/-- The operators with two sides. -/
inductive Comparison where
  | contains
  | regexMatch
  | isEqual
  | startsWith
  | endsWith
deriving DecidableEq

def Comparison.evalOperator : Comparison → EvalOperator
  | .contains => .contains
  | .regexMatch => .regexMatch
  | .isEqual => .isEqual
  | .startsWith => .startsWith
  | .endsWith => .endsWith

inductive Call where
  | compare (op : Comparison) (left right : Side)
  | isNull (side : Side)

structure Atom where
  negative : Bool := false
  ignoreCase : Bool := false
  call : Call

mutual

/-- A call, or a group with the operands between its parentheses, which `conj` joins by `&&`. -/
inductive Operand where
  | atom (a : Atom)
  | group (negative conj : Bool) (operands : Operands)

/-- One operand, or more. -/
inductive Operands where
  | last (o : Operand)
  | more (o : Operand) (os : Operands)

end

/-! ## Texts -/

/-- A piece of a text: a string literal, or what is between them. -/
inductive Piece where
  | plain (bytes : List UInt8)
  | literal (text : List UInt8)
deriving DecidableEq

/-- The text of some pieces, in which something stands for each literal. -/
def render (f : List UInt8 → List UInt8) (ps : List Piece) : List UInt8 :=
  ps.flatMap (fun
    | .plain bytes => bytes
    | .literal text => f text)

/-- A literal between its quotes. -/
def quote (text : List UInt8) : List UInt8 := 34 :: (text ++ [34])

def Side.pieces : Side → List Piece
  | .path p => [.plain (36 :: p.bytes)]
  | .number n => [.plain n.bytes]
  | .literal t => [.literal t.bytes]

def Call.evalOperator : Call → EvalOperator
  | .compare op _ _ => op.evalOperator
  | .isNull _ => .isNull

/-- The sides of a call, with the comma between them. -/
def Call.arguments : Call → List Piece
  | .compare _ left right => left.pieces ++ .plain [44] :: right.pieces
  | .isNull side => side.pieces

/-- What stands in front of the parenthesis of a call. -/
def Atom.head (a : Atom) : List UInt8 :=
  (if a.negative then [33] else []) ++ ((if a.ignoreCase then [105] else []) ++
    a.call.evalOperator.name)

def Atom.pieces (a : Atom) : List Piece :=
  .plain (a.head ++ [40]) :: (a.call.arguments ++ [.plain [41]])

/-- The operator between two operands. -/
def operator (conj : Bool) : List UInt8 := if conj then bytesOf " && " else bytesOf " || "

mutual

def Operand.pieces : Operand → List Piece
  | .atom a => a.pieces
  | .group negative conj operands =>
    .plain ((if negative then [33] else []) ++ [40]) ::
      (Operands.pieces conj operands ++ [.plain [41]])

def Operands.pieces (conj : Bool) : Operands → List Piece
  | .last o => Operand.pieces o
  | .more o os => Operand.pieces o ++ .plain (operator conj) :: Operands.pieces conj os

end

/-- The text of an expression as it is written. -/
def Operands.text (conj : Bool) (os : Operands) : List UInt8 := render quote (os.pieces conj)

/-! ## Meaning -/

variable (lib : Libraries) (values : Json)

/-- The texts that a side stands for, or the pattern that it is. -/
def Side.resolve (resolveRegex ignoreCase : Bool) :
    Side → Option (Finset (List UInt8) × Option lib.Regex)
  | .path p => (resolveJsonPath lib values p.bytes).map (·, none)
  | .number n => resolveText lib resolveRegex ignoreCase n.bytes
  | .literal t => resolveText lib resolveRegex ignoreCase t.bytes

/-- The value of an atomic call; a library may throw. -/
def Atom.value (a : Atom) : Option Bool :=
  match a.call with
  | .compare op left right =>
    let resolveRegex := decide (op = .regexMatch)
    (left.resolve lib values resolveRegex a.ignoreCase).bind (fun l =>
      (right.resolve lib values resolveRegex a.ignoreCase).map (fun r =>
        calcNegative a.negative (op.evalOperator.holds lib a.ignoreCase l.1 r.1 r.2)))
  | .isNull side =>
    (side.resolve lib values false a.ignoreCase).map (fun l =>
      calcNegative a.negative (l.1 = ∅))

mutual

/-- The value of an operand: calls are asked from left to right, as far as is needed. -/
def Operand.denote : Operand → Option Bool
  | .atom a => a.value lib values
  | .group negative conj operands =>
    (Operands.denote conj operands).map (calcNegative negative)

def Operands.denote (conj : Bool) : Operands → Option Bool
  | .last o => Operand.denote o
  | .more o os =>
    (Operand.denote o).bind (fun b => if b = conj then Operands.denote conj os else some b)

end

mutual

/-- The boolean that an operand denotes, given those of its calls. -/
def Operand.holds (v : Atom → Bool) : Operand → Bool
  | .atom a => v a
  | .group negative conj operands => calcNegative negative (Operands.holds v conj operands)

def Operands.holds (v : Atom → Bool) (conj : Bool) : Operands → Bool
  | .last o => Operand.holds v o
  | .more o os =>
    if conj then Operand.holds v o && Operands.holds v conj os
    else Operand.holds v o || Operands.holds v conj os

end

mutual

/-- The calls of an operand. -/
def Operand.atoms : Operand → List Atom
  | .atom a => [a]
  | .group _ _ operands => Operands.atoms operands

def Operands.atoms : Operands → List Atom
  | .last o => Operand.atoms o
  | .more o os => Operand.atoms o ++ Operands.atoms os

end

mutual

/-- Where all calls have a value, the operand has the one that they give it. -/
theorem Operand.denote_eq_holds {v : Atom → Bool} (o : Operand)
    (h : ∀ a ∈ o.atoms, a.value lib values = some (v a)) :
    o.denote lib values = some (o.holds v) := by
  rcases o with a | ⟨negative, conj, os⟩
  · simp only [Operand.denote, Operand.holds]
    exact h a (by simp [Operand.atoms])
  · simp only [Operand.denote, Operand.holds]
    rw [Operands.denote_eq_holds conj os (by simpa [Operand.atoms] using h), Option.map_some]

theorem Operands.denote_eq_holds {v : Atom → Bool} (conj : Bool) (os : Operands)
    (h : ∀ a ∈ os.atoms, a.value lib values = some (v a)) :
    os.denote lib values conj = some (os.holds v conj) := by
  rcases os with o | ⟨o, os⟩
  · simp only [Operands.denote, Operands.holds]
    exact Operand.denote_eq_holds o (by simpa [Operands.atoms] using h)
  · have ho := Operand.denote_eq_holds o
      (fun a ha => h a (by rw [Operands.atoms]; exact List.mem_append_left _ ha))
    have hos := Operands.denote_eq_holds conj os
      (fun a ha => h a (by rw [Operands.atoms]; exact List.mem_append_right _ ha))
    simp only [Operands.denote, Operands.holds, ho, hos, Option.bind_some]
    rcases conj with _ | _ <;> rcases o.holds v with _ | _ <;> simp

end

end Expressions

end Mantids
