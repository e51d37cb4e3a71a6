/-
# Looking variables up

`URLVars` finds the values of a name with `equal_range` and goes through them with an iterator
(`Protocol_HTTP/common_urlvars.cpp`); `Vars::toJSON` (`Memory/vars.cpp`) does so for every name.

* `lowerBound`, `upperBound` — the two ends of the range, as positions;
* `varCount`, `getValues`, `toJson` — the loops, as far as a number of rounds allows;
* `lowerBound_eq_upperBound_iff` — the range is empty if no value has the name;
* `lookups_iff` — when the loops end with what they are for.

None of the loops over a range moves its iterator.
-/
import Mantids.JsonWriter
import Mantids.UrlVars

namespace Mantids

open JsonWriter (Value)

namespace URLVars

/-! ## The lookups -/

/-- Where the entries begin whose key is not less. -/
def lowerBound (vars : Variables) (k : List UInt8) : ℕ :=
  (vars.takeWhile fun e => decide (e.1 < k)).length

/-- Where the entries begin whose key is greater. -/
def upperBound (vars : Variables) (k : List UInt8) : ℕ :=
  (vars.takeWhile fun e => !decide (k < e.1)).length

/-- The loop of `varCount`: what is counted is all that changes. -/
def varCountLoop (iterator last : ℕ) : ℕ → UInt32 → Option UInt32
  | 0, _ => none
  -- the iterator is compared, but not advanced
  | fuel + 1, i => if iterator ≠ last then varCountLoop iterator last fuel (i + 1) else some i

/-- `varCount`, or `none` if the rounds do not suffice. -/
def varCount (fuel : ℕ) (vars : Variables) (varName : List UInt8) : Option UInt32 :=
  varCountLoop (lowerBound vars (upperCopy varName)) (upperBound vars (upperCopy varName)) fuel 0

/-- `getValue`: the first value of the range. -/
def getValue (vars : Variables) (varName : List UInt8) : Option BChunks :=
  if lowerBound vars (upperCopy varName) ≠ upperBound vars (upperCopy varName) then
    vars[lowerBound vars (upperCopy varName)]?.map (·.2)
  else none

/-- The loop of `getValues`: what is pushed back is all that changes. -/
def getValuesLoop (vars : Variables) (iterator last : ℕ) : ℕ → List BChunks → Option (List BChunks)
  | 0, _ => none
  | fuel + 1, r =>
    if iterator ≠ last then
      getValuesLoop vars iterator last fuel (r ++ (vars[iterator]?.map (·.2)).toList)
    else some r

/-- `getValues`. -/
def getValues (fuel : ℕ) (vars : Variables) (varName : List UInt8) : Option (List BChunks) :=
  getValuesLoop vars (lowerBound vars (upperCopy varName))
    (upperBound vars (upperCopy varName)) fuel []

/-- `getKeysList`; the names are in order, and so is the set. -/
def getKeysList (vars : Variables) : List (List UInt8) := (vars.map (·.1)).dedup

/-- `toString` of a value. -/
def valueString (value : BChunks) : Value := .string value.pieces.flatten

/-- The loop of `toJSON`. -/
def toJsonLoop (fuel : ℕ) (vars : Variables) :
    List (List UInt8) → List (List UInt8 × Value) → Option (List (List UInt8 × Value))
  | [], jsonMap => some jsonMap
  | key :: keysList, jsonMap =>
    match varCount fuel vars key with
    | none => none
    | some count =>
      if count = 1 then
        match getValue vars key with
        | none => none
        | some value => toJsonLoop fuel vars keysList (jsonMap ++ [(key, valueString value)])
      else if 1 < count then
        match getValues fuel vars key with
        | none => none
        | some values =>
          toJsonLoop fuel vars keysList (jsonMap ++ [(key, .array (values.map valueString))])
      else toJsonLoop fuel vars keysList jsonMap

/-- `Vars::toJSON`; a value that no member was put into is null. -/
def toJson (fuel : ℕ) (vars : Variables) : Option Value :=
  (toJsonLoop fuel vars (getKeysList vars) []).map fun jsonMap =>
    if jsonMap.isEmpty then .null else .object jsonMap

/-! ## The range of a name -/

/-- The values under a name, in their order. -/
def valuesOf (vars : Variables) (varName : List UInt8) : List BChunks :=
  (vars.filter fun e => e.1 = upperCopy varName).map (·.2)

/-- Both ends of the range meet if no entry has the key. -/
theorem lowerBound_eq_upperBound_iff {vars : Variables} (hsorted : Sorted vars) (k : List UInt8) :
    lowerBound vars k = upperBound vars k ↔ ∀ e ∈ vars, e.1 ≠ k := by
  unfold lowerBound upperBound
  induction vars with
  | nil => simp
  | cons e vars ih =>
      obtain ⟨hfirst, hsorted⟩ := List.pairwise_cons.mp hsorted
      rw [List.forall_mem_cons]
      by_cases hless : e.1 < k
      · -- both ends are behind the entry
        have hgreater : ¬ k < e.1 := List.lt_asymm hless
        have hne : e.1 ≠ k := fun heq => List.lt_irrefl k (heq ▸ hless)
        rw [List.takeWhile_cons_of_pos (by simpa using hless),
          List.takeWhile_cons_of_pos (by simpa using hgreater), List.length_cons, List.length_cons,
          Nat.add_right_cancel_iff, ih hsorted]
        exact ⟨fun hall => ⟨hne, hall⟩, fun hall => hall.2⟩
      · rw [List.takeWhile_cons_of_neg (by simpa using hless)]
        by_cases hgreater : k < e.1
        · -- both are in front of it, and what follows is not less
          rw [List.takeWhile_cons_of_neg (by simpa using hgreater)]
          refine ⟨fun _ => ⟨?_, fun e' he' heq => ?_⟩, fun _ => rfl⟩
          · exact fun heq => List.lt_irrefl k (heq ▸ hgreater)
          · exact hfirst e' he' (heq ▸ hgreater)
        · -- the entry has the key
          have heq : e.1 = k := List.le_antisymm (List.not_lt.mp hgreater) (List.not_lt.mp hless)
          rw [List.takeWhile_cons_of_pos (by simpa using hgreater), List.length_cons,
            List.length_nil]
          exact ⟨fun hzero => absurd hzero (Nat.succ_ne_zero _).symm, fun hall => absurd heq hall.1⟩

/-- The range of a name is empty if no value is stored under it. -/
theorem range_eq_iff {vars : Variables} (hsorted : Sorted vars) (varName : List UInt8) :
    lowerBound vars (upperCopy varName) = upperBound vars (upperCopy varName) ↔
      valuesOf vars varName = [] := by
  rw [lowerBound_eq_upperBound_iff hsorted, valuesOf, List.map_eq_nil_iff, List.filter_eq_nil_iff]
  simp only [decide_eq_true_eq]

/-! ## The loops -/

/-- No number of rounds is enough. -/
theorem varCountLoop_of_ne {iterator last : ℕ} (hne : iterator ≠ last) (fuel : ℕ) (i : UInt32) :
    varCountLoop iterator last fuel i = none := by
  induction fuel generalizing i with
  | zero => rfl
  | succ fuel ih => rw [varCountLoop, if_pos hne, ih]

theorem getValuesLoop_of_ne (vars : Variables) {iterator last : ℕ} (hne : iterator ≠ last)
    (fuel : ℕ) (r : List BChunks) : getValuesLoop vars iterator last fuel r = none := by
  induction fuel generalizing r with
  | zero => rfl
  | succ fuel ih => rw [getValuesLoop, if_pos hne, ih]

theorem varCount_of_ne {vars : Variables} (hsorted : Sorted vars) {varName : List UInt8}
    (hne : valuesOf vars varName ≠ []) (fuel : ℕ) : varCount fuel vars varName = none :=
  varCountLoop_of_ne (mt (range_eq_iff hsorted varName).mp hne) fuel 0

theorem varCount_of_eq {vars : Variables} (hsorted : Sorted vars) {varName : List UInt8}
    (heq : valuesOf vars varName = []) (fuel : ℕ) : varCount (fuel + 1) vars varName = some 0 := by
  rw [varCount, (range_eq_iff hsorted varName).mpr heq, varCountLoop, if_neg (not_not.mpr rfl)]

theorem getValues_of_ne {vars : Variables} (hsorted : Sorted vars) {varName : List UInt8}
    (hne : valuesOf vars varName ≠ []) (fuel : ℕ) : getValues fuel vars varName = none :=
  getValuesLoop_of_ne vars (mt (range_eq_iff hsorted varName).mp hne) fuel []

theorem getValues_of_eq {vars : Variables} (hsorted : Sorted vars) {varName : List UInt8}
    (heq : valuesOf vars varName = []) (fuel : ℕ) :
    getValues (fuel + 1) vars varName = some [] := by
  rw [getValues, (range_eq_iff hsorted varName).mpr heq, getValuesLoop, if_neg (not_not.mpr rfl)]

/-- `toJSON` stays in the count of the first name. -/
theorem toJson_of_ne {vars : Variables} (hvars : Proper (entries vars)) (hne : vars ≠ [])
    (fuel : ℕ) :
    toJson fuel vars = none := by
  have hkeys : getKeysList vars ≠ [] := by
    rw [getKeysList, Ne, List.dedup_eq_nil, List.map_eq_nil_iff]
    exact hne
  obtain ⟨key, keysList, hkeysList⟩ := List.exists_cons_of_ne_nil hkeys
  have hmem : key ∈ vars.map (·.1) := by
    rw [← List.mem_dedup, ← getKeysList, hkeysList]
    exact List.mem_cons_self
  obtain ⟨e, he, rfl⟩ := List.mem_map.mp hmem
  have hupper : upperCopy e.1 = e.1 := hvars.upper (e.1, e.2.bytes) (List.mem_map_of_mem he)
  have hvalues : valuesOf vars e.1 ≠ [] := by
    rw [valuesOf, hupper, Ne, List.map_eq_nil_iff, List.filter_eq_nil_iff]
    exact fun hall => hall e he (decide_eq_true rfl)
  rw [toJson, hkeysList, toJsonLoop, varCount_of_ne (sorted_entries.mp hvars.sorted) hvalues]
  rfl

/-! ## What the lookups are for -/

/-- `varCount` returns the number of the values under the name. -/
def Counts (vars : Variables) (varName : List UInt8) : Prop :=
  ∃ fuel count, varCount fuel vars varName = some count ∧ count.toNat =
    (valuesOf vars varName).length

/-- `getValues` returns the values under the name. -/
def Lists (vars : Variables) (varName : List UInt8) : Prop :=
  ∃ fuel, getValues fuel vars varName = some (valuesOf vars varName)

/-- The object with a member for each name: the value, or an array if there are more. -/
def objectOf (vars : Variables) : Value :=
  if vars = [] then .null
  else .object ((getKeysList vars).map fun key =>
    (key, match valuesOf vars key with
      | [value] => valueString value
      | values => .array (values.map valueString)))

/-- `toJSON` returns that object. -/
def WritesObject (vars : Variables) : Prop := ∃ fuel, toJson fuel vars = some (objectOf vars)

/-- **The lookups.**  Of any variables that were added, `varCount` and `getValues` return what is
stored under a name exactly if that is nothing, and `toJSON` returns exactly if nothing is stored at
all. -/
theorem lookups_iff (l : List (List UInt8 × BChunks)) (varName : List UInt8) :
    (Counts (ofList l) varName ↔ valuesOf (ofList l) varName = []) ∧
    (Lists (ofList l) varName ↔ valuesOf (ofList l) varName = []) ∧
    (WritesObject (ofList l) ↔ ofList l = []) := by
  have hvars := proper_ofList l
  have hsorted := sorted_entries.mp hvars.sorted
  refine ⟨⟨?_, ?_⟩, ⟨?_, ?_⟩, ⟨?_, ?_⟩⟩
  · rintro ⟨fuel, count, hreturn, -⟩
    by_contra hne
    rw [varCount_of_ne hsorted hne] at hreturn
    cases hreturn
  · intro heq
    refine ⟨1, 0, varCount_of_eq hsorted heq 0, ?_⟩
    rw [heq]
    rfl
  · rintro ⟨fuel, hreturn⟩
    by_contra hne
    rw [getValues_of_ne hsorted hne] at hreturn
    cases hreturn
  · intro heq
    refine ⟨1, ?_⟩
    rw [getValues_of_eq hsorted heq, heq]
  · rintro ⟨fuel, hreturn⟩
    by_contra hne
    rw [toJson_of_ne hvars hne] at hreturn
    cases hreturn
  · intro heq
    rw [heq]
    exact ⟨1, rfl⟩

/-- One variable, and none of the loops returns. -/
theorem not_lookups :
    ¬ Counts (ofList [(bytesOf "id", {})]) (bytesOf "id") ∧
    ¬ Lists (ofList [(bytesOf "id", {})]) (bytesOf "id") ∧
    ¬ WritesObject (ofList [(bytesOf "id", {})]) := by
  have hvars := proper_ofList [(bytesOf "id", {})]
  have hsorted := sorted_entries.mp hvars.sorted
  have hvalues : valuesOf (ofList [(bytesOf "id", {})]) (bytesOf "id") ≠ [] := List.cons_ne_nil _ _
  refine ⟨?_, ?_, ?_⟩
  · rintro ⟨fuel, count, hreturn, -⟩
    rw [varCount_of_ne hsorted hvalues] at hreturn
    cases hreturn
  · rintro ⟨fuel, hreturn⟩
    rw [getValues_of_ne hsorted hvalues] at hreturn
    cases hreturn
  · rintro ⟨fuel, hreturn⟩
    rw [toJson_of_ne hvars (List.cons_ne_nil _ _)] at hreturn
    cases hreturn

end URLVars

end Mantids
