/-
# Walking the rows of a PostgreSQL result

`Query::step` (`DB/query.cpp`) calls `Query_PostgreSQL::step0` (`DB_PostgreSQL/query_pgsql.cpp`),
which copies the next row of the result to the variables that are bound and keeps which of its
columns are NULL.

* `PGresult` — a result, with the accessors of libpq;
* `VarClasses` — what the classes of the variables do with a text: a parameter;
* `step0`, `step`, `isNull` — the functions of the source;
* `row_delivered`, `behind_rows` — what every call leaves;
* `walked_iff` — when the values that are returned say so.
-/
import Mantids.QueryNulls
import Mathlib.Logic.Function.Iterate
import Mathlib.Tactic.Common

namespace Mantids

namespace QueryPostgreSQL

/-! ## Results and variables -/

/-- `Memory::Abstract::Var::Type`. -/
inductive VarType where
  | bool | int8 | int16 | int32 | int64 | uint8 | uint16 | uint32 | uint64 | double
  | bin | string | varchar | stringlist | ipv4 | ipv6 | macaddr | ptr | datetime | null
deriving DecidableEq, Repr

/-- `ExecStatusType`. -/
inductive ExecStatusType where
  | emptyQuery | commandOk | tuplesOk | copyOut | copyIn | badResponse | nonfatalError | fatalError
  | copyBoth | singleTuple
deriving DecidableEq, Repr

/-- A cell; the value of a NULL is empty. -/
structure Cell where
  isNull : Bool := false
  value : List UInt8 := []
deriving DecidableEq

/-- `PGresult`: `PQntuples`, and what `PQgetisnull`, `PQgetvalue` and `PQgetlength` give for a row
and a column. -/
structure PGresult where
  ntuples : ℕ
  cell : ℕ → ℕ → Cell

/-- What the variables do, for a state `V` of a variable. -/
structure VarClasses (V : Type*) where
  /-- `fromString` of a type.  That of `DOUBLE` throws for a text without a number, as its handlers
  catch pointers; such a text is left out. -/
  fromString : VarType → List UInt8 → V → V
  /-- `BINARY::setValue`, with all the bytes of a container. -/
  setContainer : List UInt8 → V → V
  /-- `VARCHAR::setValue` and `STRING::setValue`. -/
  setText : VarType → List UInt8 → V → V
  /-- `PTR::setValue`, with a pointer to the bytes. -/
  setPointer : List UInt8 → V → V

/-- A variable that a column is copied to. -/
structure ResultVar (V : Type*) where
  varType : VarType
  value : V

/-- Where a text is expected, it ends at its first NUL. -/
def Cell.text (c : Cell) : List UInt8 := c.value.takeWhile (· ≠ 0)

variable {V : Type*} (K : VarClasses V)

/-- The `switch` of `step0`. -/
def ResultVar.copy (c : Cell) (v : ResultVar V) : ResultVar V :=
  match v.varType with
  | .bin => { v with value := K.setContainer c.value v.value }
  | .varchar => { v with value := K.setText .varchar c.text v.value }
  | .string => { v with value := K.setText .string c.text v.value }
  | .ptr => { v with value := K.setPointer c.value v.value }
  | .null => v
  | type => { v with value := K.fromString type c.text v.value }

/-! ## The query -/

/-- The fields of a `Query_PostgreSQL` that the walk works on. -/
structure Rows (V : Type*) where
  results : Option PGresult
  execStatus : ExecStatusType
  currentRow : ℕ := 0
  fieldIsNull : List Bool := []
  resultVars : List (ResultVar V)

namespace Rows

/-- The loop of `step0` over the variables, from a column on: the marks, and the variables. -/
def copyColumns (res : PGresult) (i : ℕ) :
    ℕ → List Bool → List (ResultVar V) → List Bool × List (ResultVar V)
  | _, fieldIsNull, [] => (fieldIsNull, [])
  | columnpos, fieldIsNull, outputVar :: resultVars =>
    let rest := copyColumns res i (columnpos + 1)
      (fieldIsNull ++ [(res.cell i columnpos).isNull]) resultVars
    (rest.1, outputVar.copy K (res.cell i columnpos) :: rest.2)

/-- `Query_PostgreSQL::step0()`. -/
def step0 (q : Rows V) : Bool × Rows V :=
  match q.results with
  | none => (false, q)
  | some res =>
    if q.execStatus ≠ .tuplesOk then (false, q)
    else if res.ntuples ≤ q.currentRow then (false, q)
    else
      let copied := copyColumns K res q.currentRow 0 q.fieldIsNull q.resultVars
      -- The last line is `return false`.
      (false, { q with
        fieldIsNull := copied.1
        resultVars := copied.2
        currentRow := q.currentRow + 1 })

/-- `Query::step()`. -/
def step (q : Rows V) : Bool × Rows V := step0 K { q with fieldIsNull := [] }

/-- `Query::isNull(column)`. -/
def isNull (q : Rows V) (column : ℕ) : Bool := Query.isNull q.fieldIsNull column

/-- The query after some calls of `step`. -/
def stepped (q : Rows V) (i : ℕ) : Rows V := (fun q => (step K q).2)^[i] q

/-- A successful result that nothing was read of. -/
structure Fetched (q : Rows V) (res : PGresult) : Prop where
  results : q.results = some res
  execStatus : q.execStatus = .tuplesOk
  currentRow : q.currentRow = 0

/-! ## One call -/

variable {K} {q : Rows V} {res : PGresult}

theorem copyColumns_eq (i columnpos : ℕ) (fieldIsNull : List Bool) (vars : List (ResultVar V)) :
    copyColumns K res i columnpos fieldIsNull vars =
      (fieldIsNull ++ (List.range vars.length).map fun c => (res.cell i (columnpos + c)).isNull,
        vars.mapIdx fun c v => v.copy K (res.cell i (columnpos + c))) := by
  induction vars generalizing columnpos fieldIsNull with
  | nil => rw [copyColumns, List.length_nil, List.range_zero, List.map_nil, List.append_nil]; rfl
  | cons v vars ih =>
    have hnext : ∀ c, columnpos + 1 + c = columnpos + (c + 1) := fun c => by omega
    rw [copyColumns, ih, List.length_cons, List.range_succ_eq_map, List.map_cons, List.map_map,
      List.mapIdx_cons, List.append_assoc]
    simp only [hnext, Nat.add_zero]
    rfl

/-- A call before the end copies the row, and goes on to the next one. -/
theorem step_row (hres : q.results = some res) (hok : q.execStatus = .tuplesOk)
    (hrow : q.currentRow < res.ntuples) :
    step K q = (false, { q with
      fieldIsNull := (List.range q.resultVars.length).map fun c => (res.cell q.currentRow c).isNull
      resultVars := q.resultVars.mapIdx fun c v => v.copy K (res.cell q.currentRow c)
      currentRow := q.currentRow + 1 }) := by
  unfold step step0
  dsimp only
  rw [hres]
  dsimp only
  rw [if_neg (not_not.mpr hok), if_neg (Nat.not_le.mpr hrow), copyColumns_eq]
  simp only [Nat.zero_add, List.nil_append]

/-- A call at the end changes nothing but the marks. -/
theorem step_end (hres : q.results = some res) (hok : q.execStatus = .tuplesOk)
    (hrow : res.ntuples ≤ q.currentRow) : step K q = (false, { q with fieldIsNull := [] }) := by
  unfold step step0
  dsimp only
  rw [hres]
  dsimp only
  rw [if_neg (not_not.mpr hok), if_pos hrow]

/-! ## All calls -/

theorem stepped_succ (K : VarClasses V) (q : Rows V) (i : ℕ) :
    stepped K q (i + 1) = (step K (stepped K q i)).2 :=
  Function.iterate_succ_apply' _ _ _

/-- After some calls the query is at the row with their number, or behind the last one. -/
theorem fetched_stepped (h : Fetched q res) (i : ℕ) :
    (stepped K q i).results = some res ∧ (stepped K q i).execStatus = .tuplesOk ∧
      (stepped K q i).currentRow = min i res.ntuples ∧
        (stepped K q i).resultVars.length = q.resultVars.length := by
  induction i with
  | zero => exact ⟨h.results, h.execStatus, by rw [Nat.zero_min]; exact h.currentRow, rfl⟩
  | succ i ih =>
    obtain ⟨hres, hok, hrow, hlen⟩ := ih
    rw [stepped_succ]
    by_cases hlt : i < res.ntuples
    · rw [step_row hres hok (by omega)]
      refine ⟨hres, hok, ?_, ?_⟩
      · show (stepped K q i).currentRow + 1 = _
        omega
      · show (List.mapIdx _ _).length = _
        rw [List.length_mapIdx, hlen]
    · rw [step_end hres hok (by omega)]
      refine ⟨hres, hok, ?_, hlen⟩
      show (stepped K q i).currentRow = _
      omega

/-- The call after so many others leaves a row in the variables, and its marks. -/
def Delivered (K : VarClasses V) (q : Rows V) (res : PGresult) (i : ℕ) : Prop :=
  (stepped K q (i + 1)).resultVars
      = (stepped K q i).resultVars.mapIdx (fun c v => v.copy K (res.cell i c)) ∧
    ∀ c < q.resultVars.length, (stepped K q (i + 1)).isNull c = (res.cell i c).isNull

/-- **Each row comes in its turn.** -/
theorem row_delivered (h : Fetched q res) {i : ℕ} (hi : i < res.ntuples) : Delivered K q res i := by
  obtain ⟨hres, hok, hrow, hlen⟩ := fetched_stepped (K := K) h i
  rw [Nat.min_eq_left (by omega)] at hrow
  have hnext := stepped_succ K q i
  rw [step_row hres hok (by omega), hrow] at hnext
  refine ⟨by rw [hnext], fun c hc => ?_⟩
  have hmark : c < (stepped K q i).resultVars.length := by rwa [hlen]
  rw [hnext, isNull, Query.isNull_marks _ hmark]

/-- Behind the last row nothing comes. -/
theorem behind_rows (h : Fetched q res) {i : ℕ} (hi : res.ntuples ≤ i) :
    (stepped K q (i + 1)).resultVars = (stepped K q i).resultVars := by
  obtain ⟨hres, hok, hrow, -⟩ := fetched_stepped (K := K) h i
  have hnext := stepped_succ K q i
  rw [step_end hres hok (by omega)] at hnext
  rw [hnext]

/-- No call returns true. -/
theorem step_false (q : Rows V) : (step K q).1 = false := by
  unfold step step0
  dsimp only
  -- With a row, without one or with an error: `step0` returns false.
  cases q.results with
  | none => rfl
  | some res =>
    dsimp only
    split_ifs
    · rfl
    · rfl
    · rfl

/-- The calls return true for every row and deliver it, and then they return false and leave the
variables as they are. -/
def Walked (K : VarClasses V) (q : Rows V) (res : PGresult) : Prop :=
  (∀ i < res.ntuples, (step K (stepped K q i)).1 = true ∧ Delivered K q res i) ∧
    ∀ i ≥ res.ntuples, (step K (stepped K q i)).1 = false ∧
      (stepped K q (i + 1)).resultVars = (stepped K q i).resultVars

/-- **The walk.**  The rows are delivered, but the caller is told so only if there are none. -/
theorem walked_iff (K : VarClasses V) {q : Rows V} {res : PGresult} (h : Fetched q res) :
    Walked K q res ↔ res.ntuples = 0 := by
  constructor
  · rintro ⟨hrows, -⟩
    by_contra hne
    have htrue := (hrows 0 (Nat.pos_of_ne_zero hne)).1
    rw [step_false] at htrue
    exact Bool.false_ne_true htrue
  · intro hzero
    refine ⟨fun i hi => absurd hi (by omega), fun i hi => ⟨step_false _, behind_rows h hi⟩⟩

/-! ## A result of one row -/

/-- Variables that keep the bytes they are given. -/
def sampleClasses : VarClasses (List UInt8) where
  fromString _ text _ := text
  setContainer bytes _ := bytes
  setText _ text _ := text
  setPointer bytes _ := bytes

/-- A result of so many rows with the text "1" in all their cells, to be read into a `STRING`. -/
def sampleRows (n : ℕ) : Rows (List UInt8) where
  results := some ⟨n, fun _ _ => { value := [49] }⟩
  execStatus := .tuplesOk
  resultVars := [⟨.string, []⟩]

theorem walked_nothing : Walked sampleClasses (sampleRows 0) ⟨0, fun _ _ => { value := [49] }⟩ :=
  (walked_iff sampleClasses ⟨rfl, rfl, rfl⟩).mpr rfl

/-- The row is in the variable, and the call says that there is none. -/
theorem not_walked : ¬ Walked sampleClasses (sampleRows 1) ⟨1, fun _ _ => { value := [49] }⟩ := by
  rintro ⟨hrows, -⟩
  have htrue := (hrows 0 Nat.one_pos).1
  rw [step_false] at htrue
  exact Bool.false_ne_true htrue

end Rows
end QueryPostgreSQL
end Mantids
