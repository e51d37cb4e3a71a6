/-
# JSON values as JsonCpp stores them

The library keeps every claim, every request parameter and every answer in a
`Json::Value`.  This file models the value type and the accessors of
`Helpers/json.h` that the verified components use:

* `Json` is the value type, one constructor for each JsonCpp value kind;
* `Members` is the member table of an object, with JsonCpp's `isMember`, the
  reading `operator[]` (a missing member reads as `null`) and the writing one;
* `asStringD`, `asBoolD`, `asUInt64D` are the macros `JSON_ASSTRING_D`,
  `JSON_ASBOOL_D` and `JSON_ASUINT64_D`: the stored value when it has the right
  kind, and the given default otherwise.
-/
import Mathlib

namespace Mantids

/-! ## Values -/

/-- A JsonCpp value.  A stored double is a rational here: no accessor of the
modelled code depends on how it is rounded. -/
inductive Json where
  | null
  | bool (b : Bool)
  | int (i : ℤ)
  | uint (n : ℕ)
  | real (q : ℚ)
  | string (s : String)
  | array (xs : List Json)
  | object (ms : List (String × Json))

namespace Json

/-- `JSON_ASSTRING_D(j, dflt)`. -/
def asStringD (j : Json) (dflt : String) : String :=
  match j with
  | string s => s
  | _ => dflt

/-- `JSON_ASBOOL_D(j, dflt)`. -/
def asBoolD (j : Json) (dflt : Bool) : Bool :=
  match j with
  | bool b => b
  | _ => dflt

/-- `JSON_ASUINT64_D(j, dflt)`: `isUInt64` accepts every number that is integral
and in range, whatever kind it is stored as. -/
def asUInt64D (j : Json) (dflt : ℕ) : ℕ :=
  match j with
  | int i => if 0 ≤ i then i.toNat else dflt
  | uint n => n
  | real q => if 0 ≤ q ∧ q < 2 ^ 64 ∧ q.den = 1 then q.num.toNat else dflt
  | _ => dflt

/-- The elements a loop over the value visits: `isArray()` guards each of them
in the modelled code. -/
def elements (j : Json) : List Json :=
  match j with
  | array xs => xs
  | _ => []

/-! ## Object members -/

/-- The member table of an object (`null` counts as the empty object). -/
abbrev Members := List (String × Json)

/-- `isMember(name)`. -/
def Members.isMember (ms : Members) (name : String) : Bool :=
  ms.any (fun m => m.1 = name)

/-- The reading `operator[]`: a missing member reads as `null`. -/
def Members.get (ms : Members) (name : String) : Json :=
  (ms.lookup name).getD null

/-- The writing `operator[]`: the member is replaced, or added at the end. -/
def Members.set (ms : Members) (name : String) (value : Json) : Members :=
  ms.filter (fun m => m.1 ≠ name) ++ [(name, value)]

/-- A member that was just written reads back. -/
theorem Members.get_set_self (ms : Members) (name : String) (value : Json) :
    (ms.set name value).get name = value := by
  have hnone : (ms.filter (fun m => m.1 ≠ name)).lookup name = none := by
    rw [List.lookup_eq_none_iff]
    intro p hp
    have hne : p.1 ≠ name := by simpa using (List.mem_filter.mp hp).2
    simp [hne.symm]
  unfold Members.get Members.set
  rw [List.lookup_append, hnone]
  simp

/-- Writing one member leaves the others as they are. -/
theorem Members.get_set_of_ne (ms : Members) {name other : String} (value : Json)
    (hne : other ≠ name) : (ms.set name value).get other = ms.get other := by
  have hlast : List.lookup other [(name, value)] = none := by
    simp [List.lookup, beq_eq_false_iff_ne.mpr hne]
  have hfilter : (ms.filter (fun m => m.1 ≠ name)).lookup other = ms.lookup other := by
    induction ms with
    | nil => rfl
    | cons m ms ih =>
        obtain ⟨key, v⟩ := m
        by_cases hkey : key = name
        · subst hkey
          simpa [List.lookup, beq_eq_false_iff_ne.mpr hne] using ih
        · by_cases hother : other = key
          · subst hother
            simp [List.lookup, hkey]
          · simpa [List.lookup, hkey, beq_eq_false_iff_ne.mpr hother] using ih
  unfold Members.get Members.set
  rw [List.lookup_append, hfilter, hlast]
  simp

/-! ## Sets of names -/

/-- The elements of a `std::set` of names, in its iteration order. -/
def sortedNames (s : Finset String) : List String := s.sort (· ≤ ·)

@[simp] theorem mem_sortedNames {s : Finset String} {name : String} :
    name ∈ sortedNames s ↔ name ∈ s := Finset.mem_sort _

/-- `Helpers::setToJSON`: the elements of a set, in its iteration order.  Without an element the
`json` is never indexed, and stays `null`. -/
def setToJSON (s : Finset String) : Json :=
  if s = ∅ then null else array ((sortedNames s).map string)

/-- A set is recovered from its JSON value. -/
theorem setToJSON_inj {s t : Finset String} : setToJSON s = setToJSON t ↔ s = t := by
  constructor
  · intro h
    by_cases hs : s = ∅
    · by_cases ht : t = ∅
      · rw [hs, ht]
      · simp [setToJSON, hs, ht] at h
    · by_cases ht : t = ∅
      · simp [setToJSON, hs, ht] at h
      · have hlist : (sortedNames s).map string = (sortedNames t).map string := by
          simpa [setToJSON, hs, ht] using h
        have hinj : Function.Injective string := fun a b hab => by simpa using hab
        have hsort : s.sort (· ≤ ·) = t.sort (· ≤ ·) := List.map_injective_iff.mpr hinj hlist
        rw [← Finset.sort_toFinset s (· ≤ ·), hsort, Finset.sort_toFinset]
  · rintro rfl
    rfl

end Json

end Mantids
