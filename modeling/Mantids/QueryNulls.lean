/-
# The NULLs of a row

`Query::step` (`DB/query.cpp`) clears `m_fieldIsNull`.  Then the `step0` of a driver appends a mark
for each variable that it copies a column to, and `Query::isNull` looks one up.

* `Query.isNull` — the function of the source, for the marks of a row;
* `Query.isNull_marks` — what it says with a mark for each of the first columns.
-/
import Mathlib.Data.List.GetD
import Mathlib.Tactic.Common

namespace Mantids

namespace Query

/-- `Query::isNull(column)`. -/
def isNull (fieldIsNull : List Bool) (column : ℕ) : Bool :=
  if fieldIsNull.length < column + 1 then true else fieldIsNull.getD column true

/-- A column that has no mark is NULL. -/
theorem isNull_of_length_le {fieldIsNull : List Bool} {column : ℕ}
    (h : fieldIsNull.length ≤ column) : isNull fieldIsNull column = true := by
  rw [isNull, if_pos (Nat.lt_succ_of_le h)]

/-- The marks of the first columns are read back. -/
theorem isNull_marks (mark : ℕ → Bool) {columns column : ℕ} (h : column < columns) :
    isNull ((List.range columns).map mark) column = mark column := by
  have hmark : column < ((List.range columns).map mark).length := by
    rw [List.length_map, List.length_range]
    exact h
  rw [isNull, if_neg (by omega), List.getD_eq_getElem _ _ hmark, List.getElem_map,
    List.getElem_range]

end Query

end Mantids
