/-
# The rows of a SQLite result, and their NULLs

`Query::step` (`DB/query.cpp`) calls `Query_SQLite3::step0` (`DB_SQLite3/query_sqlite3.cpp`), which
copies the columns of the next row to the variables that are bound and keeps which of them are NULL.
For a NULL, SQLite gives a null pointer as the text and as the blob, and it goes to the class of the
variable as it is.

* `Column`, `ResultVar` — what SQLite gives for a column, and what it is copied to;
* `VARCHAR.setValue`, `BINARY.setValue`, `STRING.setValue` — where the pointer is used;
* `step0`, `step`, `isNull` — the functions of the source;
* `Takes` — a variable takes a column, NULL or not;
* `null_handled_iff` — when a row with NULLs is handled.
-/
import Mantids.QueryNulls
import Mathlib.Data.Int.Notation
import Mathlib.Data.Nat.Notation
import Mathlib.Tactic.Common

namespace Mantids

namespace QuerySQLite3

/-! ## Columns -/

/-- The types of `sqlite3_column_type`. -/
inductive ColumnType where
  | integer | float | text | blob | null
deriving DecidableEq, Repr

/-- What SQLite gives for a column; `none` is a null pointer. -/
structure Column where
  /-- `sqlite3_column_type`. -/
  columnType : ColumnType
  /-- `sqlite3_column_int64`. -/
  int64 : BitVec 64 := 0
  /-- The bits of `sqlite3_column_double`. -/
  double : BitVec 64 := 0
  /-- `sqlite3_column_text`. -/
  text : Option (List UInt8)
  /-- `sqlite3_column_blob`; it may be a null pointer for an empty blob as well. -/
  blob : Option (List UInt8)
  text_eq_none : text = none ↔ columnType = .null
  blob_eq_none : columnType = .null → blob = none

namespace Column

/-- A NULL. -/
def null : Column := ⟨.null, 0, 0, none, none, iff_of_true rfl rfl, fun _ => rfl⟩

/-- `sqlite3_column_int`: the lower half. -/
def int (c : Column) : BitVec 32 := c.int64.setWidth 32

/-- `sqlite3_column_bytes`. -/
def bytes (c : Column) : ℕ := (c.blob.getD []).length

end Column

/-- The columns of a row. -/
abbrev Row := List Column

/-- Behind the last column SQLite gives a NULL. -/
def Row.column (row : Row) (c : ℕ) : Column := row.getD c .null

/-! ## What is done with the pointers -/

/-- How a call ends without a result. -/
inductive Failure where
  | runtimeError (what : String)
  /-- A `std::string` of a null pointer. -/
  | builtOfNull
  /-- `strnlen` of a null pointer. -/
  | measuredNull
  /-- `memcpy` out of a null pointer. -/
  | copiedOfNull
deriving DecidableEq, Repr

/-- The classes whose values are read from texts. -/
inductive TextClass where
  | stringlist | datetime | ipv4 | macaddr | ipv6
deriving DecidableEq, Repr

/-- What the rest of the program does, for a state `V` of a variable. -/
structure Classes (V : Type) where
  /-- `fromString` of a class. -/
  fromString : TextClass → List UInt8 → V → V
  /-- `memcpy` takes a null pointer where there is nothing to copy. -/
  memcpyOfNothing : Bool

/-- A `std::string` of a `char *`. -/
def buildString : Option (List UInt8) → Except Failure (List UInt8)
  | none => .error .builtOfNull
  | some s => .ok (s.takeWhile (· ≠ 0))

/-- `strnlen`. -/
def strnlen : Option (List UInt8) → ℕ → Except Failure ℕ
  | none, _ => .error .measuredNull
  | some s, maxlen => .ok (min (s.takeWhile (· ≠ 0)).length maxlen)

variable {V : Type} (K : Classes V)

/-- `memcpy`: the bytes that are copied. -/
def memcpy : Option (List UInt8) → ℕ → Except Failure (List UInt8)
  | none, n => if n = 0 ∧ K.memcpyOfNothing = true then .ok [] else .error .copiedOfNull
  | some s, n => .ok (s.take n)

/-! ## The variables -/

/-- A `VARCHAR`, with the text in front of the NUL of its buffer. -/
structure VARCHAR where
  varSize : ℕ
  value : List UInt8
  wasTruncated : Bool := false
deriving DecidableEq

/-- `VARCHAR::setValue`. -/
def VARCHAR.setValue (value : Option (List UInt8)) (v : VARCHAR) :
    Except Failure (Bool × VARCHAR) := do
  let szVar ← strnlen value (v.varSize + 1)
  let wasTruncated := decide (v.varSize < szVar)
  let szVar := if wasTruncated then v.varSize else szVar
  let stored ← (if 0 < szVar then memcpy K value szVar else .ok [])
  return (!wasTruncated, { v with value := stored, wasTruncated := wasTruncated })

/-- `BINARY::setValue`. -/
def BINARY.setValue (ptr : Option (List UInt8)) (dataSize : ℕ) :
    Except Failure (Bool × List UInt8) := do
  let copied ← memcpy K ptr dataSize
  return (true, copied)

/-- `STRING::setValue(const char *)`. -/
def STRING.setValue : Option (List UInt8) → Except Failure (List UInt8)
  | none => .ok []
  | some s => buildString (some s)

/-- A variable that a column is copied to. -/
inductive ResultVar (V : Type) where
  | bool (value : Bool)
  | int8 (value : BitVec 8)
  | int16 (value : BitVec 16)
  | int32 (value : BitVec 32)
  | int64 (value : BitVec 64)
  | uint8 (value : BitVec 8)
  | uint16 (value : BitVec 16)
  | uint32 (value : BitVec 32)
  | uint64 (value : BitVec 64)
  | double (value : BitVec 64)
  | bin (value : List UInt8)
  | varchar (v : VARCHAR)
  | string (value : List UInt8)
  | text (type : TextClass) (state : V)
  | ptr (value : Option (List UInt8))
  | null

/-- The text of the exception. -/
def uint64Error : String :=
  "UINT64 is not supported by SQLite3 and can lead to precision errors, check your implementation"

namespace ResultVar

/-- The `switch` of `step0`. -/
def copy (c : Column) : ResultVar V → Except Failure (ResultVar V)
  | bool _ => .ok (bool (c.int ≠ 0))
  | int8 _ => .ok (int8 (c.int.setWidth 8))
  | int16 _ => .ok (int16 (c.int.setWidth 16))
  | int32 _ => .ok (int32 c.int)
  | int64 _ => .ok (int64 c.int64)
  | uint8 _ => .ok (uint8 (c.int.setWidth 8))
  | uint16 _ => .ok (uint16 (c.int.setWidth 16))
  | uint32 _ => .ok (uint32 (c.int64.setWidth 32))
  | uint64 _ => .error (.runtimeError uint64Error)
  | double _ => .ok (double c.double)
  | bin _ => do
    let (_, value) ← BINARY.setValue K c.blob c.bytes
    return bin value
  | varchar v => do
    let (_, v) ← v.setValue K c.text
    return varchar v
  | string _ => do
    let value ← STRING.setValue c.text
    return string value
  | text type state => do
    let s ← buildString c.text
    return text type (K.fromString type s state)
  | ptr _ => .ok (ptr c.text)
  | null => .ok null

/-- All types but `UINT64`. -/
def Supported : ResultVar V → Prop
  | uint64 _ => False
  | _ => True

/-- The types for which a NULL is handled: not for those that measure its text or build a string of
it, and for those that copy its blob only if nothing may be copied out of a null pointer. -/
def Takes (c : Column) : ResultVar V → Prop
  | varchar _ => c.columnType ≠ .null
  | text _ _ => c.columnType ≠ .null
  | bin _ => c.blob ≠ none ∨ K.memcpyOfNothing = true
  | _ => True

end ResultVar

/-! ## The query -/

/-- The fields of a `Query_SQLite3` that a step works on. -/
structure Rows (V : Type) where
  lastSQLReturnValue : ℤ := 0
  fieldIsNull : List Bool := []
  resultVars : List (ResultVar V)

/-- `SQLITE_ROW`. -/
def sqliteRow : ℤ := 100

namespace Rows

/-- The loop of `step0` over the variables, from a column on: the marks, and the variables. -/
def copyColumns (row : Row) :
    ℕ → List Bool → List (ResultVar V) → Except Failure (List Bool × List (ResultVar V))
  | _, fieldIsNull, [] => .ok (fieldIsNull, [])
  | columnpos, fieldIsNull, outputVar :: resultVars => do
    let copied ← outputVar.copy K (row.column columnpos)
    let rest ← copyColumns row (columnpos + 1)
      (fieldIsNull ++ [decide ((row.column columnpos).columnType = .null)]) resultVars
    return (rest.1, copied :: rest.2)

/-- `Query_SQLite3::step0()`, for what `sqlite3_step` returns and the row it is at. -/
def step0 (sqlite3Step : ℤ × Row) (q : Rows V) : Except Failure (Bool × Rows V) := do
  let q := { q with lastSQLReturnValue := sqlite3Step.1 }
  if q.lastSQLReturnValue = sqliteRow then
    let copied ← copyColumns K sqlite3Step.2 0 q.fieldIsNull q.resultVars
    return (decide (q.lastSQLReturnValue = sqliteRow),
      { q with fieldIsNull := copied.1, resultVars := copied.2 })
  else
    return (decide (q.lastSQLReturnValue = sqliteRow), q)

/-- `Query::step()`. -/
def step (sqlite3Step : ℤ × Row) (q : Rows V) : Except Failure (Bool × Rows V) :=
  step0 K sqlite3Step { q with fieldIsNull := [] }

/-- `Query::isNull(column)`. -/
def isNull (q : Rows V) (column : ℕ) : Bool := Query.isNull q.fieldIsNull column

end Rows

/-! ## One variable -/

section

variable {K} {c : Column} {row : Row}

/-- A call that goes on with the result of another one. -/
theorem bind_ok_iff {α β : Type} {x : Except Failure α} {f : α → Except Failure β} {b : β} :
    (x >>= f) = .ok b ↔ ∃ a, x = .ok a ∧ f a = .ok b := by
  cases x with
  | error e => exact iff_of_false (fun h => by cases h) fun ⟨_, h, _⟩ => by cases h
  | ok a => exact ⟨fun h => ⟨a, rfl, h⟩, fun ⟨_, h, hb⟩ => Except.ok.inj h ▸ hb⟩

/-- The call has a result. -/
def Ends {α : Type} (x : Except Failure α) : Prop := ∃ a, x = .ok a

theorem ends_ok {α : Type} (a : α) : Ends (.ok a) := ⟨a, rfl⟩

theorem not_ends_error {α : Type} (e : Failure) : ¬ Ends (.error e : Except Failure α) := by
  rintro ⟨_, h⟩
  cases h

theorem ends_bind {α β : Type} {x : Except Failure α} {f : α → Except Failure β} :
    Ends (x >>= f) ↔ ∃ a, x = .ok a ∧ Ends (f a) := by
  constructor
  · rintro ⟨b, h⟩
    obtain ⟨a, ha, hb⟩ := bind_ok_iff.mp h
    exact ⟨a, ha, b, hb⟩
  · rintro ⟨a, ha, b, hb⟩
    exact ⟨b, bind_ok_iff.mpr ⟨a, ha, hb⟩⟩

/-- Where the rest has a result, it depends on the first call. -/
theorem ends_bind_iff {α β : Type} {x : Except Failure α} {f : α → Except Failure β}
    (hf : ∀ a, x = .ok a → Ends (f a)) : Ends (x >>= f) ↔ Ends x := by
  rw [ends_bind]
  exact ⟨fun ⟨a, ha, _⟩ => ⟨a, ha⟩, fun ⟨a, ha⟩ => ⟨a, ha, hf a ha⟩⟩

/-- What fails for a null pointer only has a result for all texts but NULLs. -/
theorem ends_text_iff {α : Type} {f : Option (List UInt8) → Except Failure α} {e : Failure}
    (hnone : f none = .error e) (hsome : ∀ s, Ends (f (some s))) :
    Ends (f c.text) ↔ c.columnType ≠ .null := by
  rw [ne_eq, ← c.text_eq_none]
  cases c.text with
  | none =>
    rw [hnone]
    exact iff_of_false (not_ends_error e) fun h => h rfl
  | some s => exact iff_of_true (hsome s) (Option.some_ne_none s)

theorem ends_buildString_iff : Ends (buildString c.text) ↔ c.columnType ≠ .null :=
  ends_text_iff rfl fun _ => ends_ok _

theorem ends_strnlen_iff (maxlen : ℕ) : Ends (strnlen c.text maxlen) ↔ c.columnType ≠ .null :=
  ends_text_iff (f := fun p => strnlen p maxlen) rfl fun _ => ends_ok _

/-- What could be measured can be copied. -/
theorem ends_memcpy_of_strnlen {p : Option (List UInt8)} {maxlen n : ℕ}
    (h : strnlen p maxlen = .ok n) (m : ℕ) : Ends (memcpy K p m) := by
  cases p with
  | none => cases h
  | some s => exact ends_ok _

/-- The bytes of a blob are copied, unless that is refused for a null pointer. -/
theorem ends_memcpy_blob_iff :
    Ends (memcpy K c.blob c.bytes) ↔ c.blob ≠ none ∨ K.memcpyOfNothing = true := by
  rw [Column.bytes]
  cases c.blob with
  | none =>
    rw [memcpy, Option.getD_none, List.length_nil]
    by_cases hnothing : K.memcpyOfNothing = true
    · rw [if_pos ⟨rfl, hnothing⟩]
      exact iff_of_true (ends_ok _) (Or.inr hnothing)
    · rw [if_neg fun h => hnothing h.2]
      exact iff_of_false (not_ends_error _) (not_or.mpr ⟨fun h => h rfl, hnothing⟩)
  | some s => exact iff_of_true (ends_ok _) (Or.inl (Option.some_ne_none s))

/-- A text is measured, and then it is copied. -/
theorem ends_setVarchar_iff (v : VARCHAR) :
    Ends (v.setValue K c.text) ↔ c.columnType ≠ .null := by
  rw [← ends_strnlen_iff (v.varSize + 1), VARCHAR.setValue]
  refine ends_bind_iff fun szVar hszVar => ?_
  refine (ends_bind_iff fun stored _ => ends_ok _).mpr ?_
  split_ifs
  · exact ends_memcpy_of_strnlen hszVar _
  · exact ends_ok _
  · exact ends_memcpy_of_strnlen hszVar _
  · exact ends_ok _

theorem ends_setString (p : Option (List UInt8)) : Ends (STRING.setValue p) := by
  cases p with
  | none => exact ends_ok _
  | some s => exact ends_ok _

/-- **One variable.** -/
theorem ends_copy_iff {v : ResultVar V} (hv : v.Supported) : Ends (v.copy K c) ↔ v.Takes K c := by
  cases v with
  | uint64 value => exact absurd hv id
  | bin value =>
    refine (ends_bind_iff fun r _ => ends_ok _).trans ?_
    exact (ends_bind_iff fun r _ => ends_ok _).trans ends_memcpy_blob_iff
  | varchar v => exact (ends_bind_iff fun r _ => ends_ok _).trans (ends_setVarchar_iff v)
  | text type state => exact (ends_bind_iff fun s _ => ends_ok _).trans ends_buildString_iff
  | string value =>
    refine iff_of_true ?_ trivial
    exact (ends_bind_iff fun s _ => ends_ok _).mpr (ends_setString c.text)
  | _ => exact iff_of_true (ends_ok _) trivial

/-! ## The row -/

namespace Rows

/-- The marks are those of the columns. -/
theorem marks_of_copyColumns {columnpos : ℕ} {fieldIsNull : List Bool} {vars : List (ResultVar V)}
    {r : List Bool × List (ResultVar V)}
    (h : copyColumns K row columnpos fieldIsNull vars = .ok r) :
    r.1 = fieldIsNull ++ (List.range vars.length).map
      fun c => decide ((row.column (columnpos + c)).columnType = .null) := by
  induction vars generalizing columnpos fieldIsNull r with
  | nil =>
    rw [← Except.ok.inj h]
    exact (List.append_nil fieldIsNull).symm
  | cons v vars ih =>
    obtain ⟨copied, -, hrest⟩ := bind_ok_iff.mp h
    obtain ⟨rest, hrest, hr⟩ := bind_ok_iff.mp hrest
    have hnext : ∀ c, columnpos + 1 + c = columnpos + (c + 1) := fun c => by omega
    rw [← Except.ok.inj hr, ih hrest, List.length_cons, List.range_succ_eq_map, List.map_cons,
      List.map_map, List.append_assoc]
    simp only [hnext, Nat.add_zero]
    rfl

/-- The loop ends if every variable takes its column. -/
theorem ends_copyColumns_iff (columnpos : ℕ) (fieldIsNull : List Bool) (vars : List (ResultVar V))
    (hvars : ∀ v ∈ vars, v.Supported) :
    Ends (copyColumns K row columnpos fieldIsNull vars) ↔
      ∀ (c : ℕ) (v : ResultVar V), vars[c]? = some v →
        v.Takes K (row.column (columnpos + c)) := by
  induction vars generalizing columnpos fieldIsNull with
  | nil => exact iff_of_true (ends_ok _) fun c v h => by cases h
  | cons v vars ih =>
    rw [List.forall_mem_cons] at hvars
    have hnext : ∀ c, columnpos + 1 + c = columnpos + (c + 1) := fun c => by omega
    have hsplit : Ends (copyColumns K row columnpos fieldIsNull (v :: vars)) ↔
        v.Takes K (row.column columnpos) ∧
          ∀ (c : ℕ) (w : ResultVar V), vars[c]? = some w →
            w.Takes K (row.column (columnpos + 1 + c)) := by
      rw [← ends_copy_iff hvars.1, ← ih _ _ hvars.2, copyColumns, ends_bind]
      constructor
      · rintro ⟨a, ha, hrest⟩
        exact ⟨⟨a, ha⟩, (ends_bind_iff fun _ _ => ends_ok _).mp hrest⟩
      · rintro ⟨⟨a, ha⟩, hrest⟩
        exact ⟨a, ha, (ends_bind_iff fun _ _ => ends_ok _).mpr hrest⟩
    rw [hsplit]
    constructor
    · rintro ⟨hhead, htail⟩ c w hw
      cases c with
      | zero =>
        rw [List.getElem?_cons_zero] at hw
        exact Option.some.inj hw ▸ hhead
      | succ c =>
        rw [← hnext]
        exact htail c w hw
    · refine fun h => ⟨h 0 v rfl, fun c w hw => ?_⟩
      rw [hnext]
      exact h (c + 1) w hw

/-- The step goes through, and the marks are right for every column. -/
def Handled (K : Classes V) (q : Rows V) (row : Row) : Prop :=
  ∃ q', step K (sqliteRow, row) q = .ok (true, q') ∧
    ∀ c, q'.isNull c = true ↔ (row.column c).columnType = .null

/-- A step that goes through. -/
theorem step_eq_ok_iff {q q' : Rows V} :
    step K (sqliteRow, row) q = .ok (true, q') ↔
      ∃ r, copyColumns K row 0 [] q.resultVars = .ok r ∧
        q' = { lastSQLReturnValue := sqliteRow, fieldIsNull := r.1, resultVars := r.2 } := by
  have hstep : step K (sqliteRow, row) q = (copyColumns K row 0 [] q.resultVars >>= fun r =>
      .ok (true, { lastSQLReturnValue := sqliteRow, fieldIsNull := r.1, resultVars := r.2 })) := rfl
  rw [hstep, bind_ok_iff]
  refine exists_congr fun r => and_congr_right fun _ => ?_
  rw [Except.ok.injEq, Prod.mk.injEq, eq_comm (a := q')]
  exact and_iff_right rfl

/-- A mark is left for every variable. -/
theorem isNull_of_copyColumns {r : List Bool × List (ResultVar V)} {vars : List (ResultVar V)}
    (hr : copyColumns K row 0 [] vars = .ok r) (lastSQLReturnValue : ℤ) (c : ℕ) :
    isNull ⟨lastSQLReturnValue, r.1, r.2⟩ c = true ↔
      vars.length ≤ c ∨ (row.column c).columnType = .null := by
  have hmarks := marks_of_copyColumns hr
  rw [List.nil_append] at hmarks
  rw [isNull, hmarks]
  by_cases hc : vars.length ≤ c
  · refine iff_of_true (Query.isNull_of_length_le ?_) (Or.inl hc)
    rwa [List.length_map, List.length_range]
  · rw [Query.isNull_marks _ (Nat.lt_of_not_le hc), or_iff_right hc, Nat.zero_add,
      decide_eq_true_eq]

/-- **NULLs.**  A row is handled if no NULL comes to a variable that measures its text or builds a
string of it, no null pointer to one that copies it, and all columns behind the variables are
NULLs. -/
theorem null_handled_iff (K : Classes V) (q : Rows V) (row : Row)
    (hvars : ∀ v ∈ q.resultVars, v.Supported) :
    Handled K q row ↔
      (∀ (c : ℕ) (v : ResultVar V), q.resultVars[c]? = some v → v.Takes K (row.column c)) ∧
        ∀ c ≥ q.resultVars.length, (row.column c).columnType = .null := by
  have hends : Ends (copyColumns K row 0 [] q.resultVars) ↔ _ :=
    ends_copyColumns_iff 0 [] q.resultVars hvars
  simp only [Nat.zero_add] at hends
  rw [← hends]
  constructor
  · rintro ⟨q', hstep, hmarks⟩
    obtain ⟨r, hr, rfl⟩ := step_eq_ok_iff.mp hstep
    exact ⟨⟨r, hr⟩, fun c hc => (hmarks c).mp ((isNull_of_copyColumns hr _ c).mpr (Or.inl hc))⟩
  · rintro ⟨⟨r, hr⟩, hbehind⟩
    refine ⟨_, step_eq_ok_iff.mpr ⟨r, hr, rfl⟩, fun c => ?_⟩
    rw [isNull_of_copyColumns hr]
    exact ⟨fun h => h.elim (hbehind c) id, Or.inr⟩

end Rows

end

/-! ## Rows of NULLs -/

/-- Classes whose values are not looked at. -/
def sampleClasses : Classes Unit := ⟨fun _ _ state => state, true⟩

/-- A query with these variables. -/
def sampleRows (vars : List (ResultVar Unit)) : Rows Unit := ⟨0, [], vars⟩

/-- A number and a `STRING` take NULLs. -/
theorem null_handled_string :
    Rows.Handled sampleClasses (sampleRows [.int32 7, .string [97]]) [.null, .null] := by
  have hvars : ∀ v ∈ (sampleRows [.int32 7, .string [97]]).resultVars, v.Supported := by
    simp [sampleRows, ResultVar.Supported]
  have htakes : ∀ v ∈ (sampleRows [.int32 7, .string [97]]).resultVars,
      v.Takes sampleClasses Column.null := by
    simp [sampleRows, ResultVar.Takes]
  have hcolumn : ∀ c, Row.column [.null, .null] c = .null
    | 0 => rfl
    | 1 => rfl
    | _ + 2 => rfl
  refine (Rows.null_handled_iff _ _ _ hvars).mpr ⟨fun c v hv => ?_, fun c _ => ?_⟩
  · rw [hcolumn]
    exact htakes v (List.mem_of_getElem? hv)
  · rw [hcolumn]
    rfl

/-- A `VARCHAR` measures the text of a NULL. -/
theorem not_null_handled :
    (∀ v ∈ (sampleRows [.varchar ⟨10, [], false⟩]).resultVars, v.Supported) ∧
      ¬ Rows.Handled sampleClasses (sampleRows [.varchar ⟨10, [], false⟩]) [.null] := by
  refine ⟨by simp [sampleRows, ResultVar.Supported], ?_⟩
  rintro ⟨q', hstep, -⟩
  have hfails : Rows.step sampleClasses (sqliteRow, [.null])
      (sampleRows [.varchar ⟨10, [], false⟩]) = .error .measuredNull := rfl
  rw [hfails] at hstep
  cases hstep

end QuerySQLite3
end Mantids
