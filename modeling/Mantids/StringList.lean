/-
# Lists of strings as texts

`STRINGLIST::toString` (`Memory/a_stringlist.cpp`) writes strings with commas between them, and
those with commas or quotes in quotes.  `STRINGLIST::fromString` reads such a text: behind a quote
an inner loop looks for the end of the string, and if it does not find it, the string is read again
as one without quotes.  The inner loop goes on behind the comma that ends a string, as if the next
one were in quotes as well.

* `toString`, `scan`, `turn`, `fromString` — the functions of the source;
* `terminates` — the reader comes to its end on every text;
* `scan_escaped`, `scan_field` — the inner loop on a string in quotes, and on the quotes of one that
  it takes for the inside of another;
* `Passes` — the inner loop goes through strings without taking any for complete;
* `list_restores_iff` — which lists come back.
-/
import Mathlib.Data.List.Chain
import Mathlib.Tactic.Common
import Mantids.Lib.Cut
import Mantids.Lib.Loop
import Mantids.MimeHeader

namespace Mantids

namespace StringList

/-! ## Writing -/

/-- Double quotes are needed. -/
def needsQuotes (element : List UInt8) : Bool := 44 ∈ element || 34 ∈ element

/-- Each double quote is doubled. -/
def escaped (element : List UInt8) : List UInt8 :=
  element.flatMap fun c => if c = 34 then [34, 34] else [c]

/-- An element as it is written. -/
def field (element : List UInt8) : List UInt8 :=
  if needsQuotes element then [34] ++ escaped element ++ [34] else element

/-- The loop of `toString`. -/
def toStringLoop : Bool → List UInt8 → List (List UInt8) → List UInt8
  | _, result, [] => result
  | isFirst, result, element :: values =>
    toStringLoop false ((if isFirst then result else result ++ [44]) ++ field element) values

/-- `STRINGLIST::toString`. -/
def toString (values : List (List UInt8)) : List UInt8 := toStringLoop true [] values

/-! ## Reading

A position is the text from there on. -/

/-- What the inner loop leaves. -/
structure Scanned where
  currentPosition : List UInt8
  startOfCurrentField : List UInt8
  inQuotes : Bool
  finalValues : List (List UInt8)
  currentFieldValue : List UInt8
deriving DecidableEq

/-- The inner loop. -/
def scan : List UInt8 → List UInt8 → Bool → List (List UInt8) → List UInt8 → Scanned
  | [], start, inQuotes, values, value => ⟨[], start, inQuotes, values, value⟩
  | currentChar :: rest, start, inQuotes, values, value =>
    if currentChar = 34 then
      match rest with
      | [] => ⟨[], start, false, values ++ [value], []⟩
      | next :: behind =>
        if next = 44 then
          -- The field is completed; there is no `break`.
          scan behind behind false (values ++ [value]) []
        else if next = 34 ∧ behind ≠ [] then
          scan behind start inQuotes values (value ++ [currentChar])
        else ⟨currentChar :: rest, start, inQuotes, values, bytesOf "IGN"⟩
    else scan rest start inQuotes values (value ++ [currentChar])

/-- The variables of `fromString`. -/
structure Reader where
  currentPosition : List UInt8
  startOfCurrentField : List UInt8
  inQuotes : Bool := false
  processWithoutQuotes : Bool := false
  finalValues : List (List UInt8) := []
deriving DecidableEq

/-- A turn of the outer loop; it ends with the values. -/
def turn (r : Reader) : Reader ⊕ List (List UInt8) :=
  match r.currentPosition with
  | [] => .inr r.finalValues
  | c :: rest =>
    if r.inQuotes = false then
      if r.processWithoutQuotes = false ∧ c = 34 then
        .inl { r with currentPosition := rest, startOfCurrentField := c :: rest, inQuotes := true }
      else if 44 ∈ c :: rest then
        .inl { r with
          currentPosition := ((c :: rest).dropWhile (· ≠ 44)).drop 1
          processWithoutQuotes := false
          finalValues := r.finalValues ++ [(c :: rest).takeWhile (· ≠ 44)] }
      else .inr (r.finalValues ++ [c :: rest])
    else
      let s := scan (c :: rest) r.startOfCurrentField r.inQuotes r.finalValues []
      .inl { r with
        currentPosition :=
          if s.currentFieldValue ≠ [] then s.startOfCurrentField else s.currentPosition
        startOfCurrentField := s.startOfCurrentField
        inQuotes := if s.currentFieldValue ≠ [] then false else s.inQuotes
        processWithoutQuotes := if s.currentFieldValue ≠ [] then true else r.processWithoutQuotes
        finalValues := s.finalValues }

/-- `STRINGLIST::fromString`, for a bounded number of turns: the new value. -/
def fromString (fuel : ℕ) (inputString : List UInt8) : Option (List (List UInt8)) :=
  Loop.run (fun _ r => some (turn r)) fuel
    { currentPosition := inputString, startOfCurrentField := inputString }

/-! ## The end of the reader -/

variable {start rest value : List UInt8} {inQuotes : Bool} {values : List (List UInt8)}

theorem ign_ne_nil : bytesOf "IGN" ≠ [] := by decide

/-- Without a value that is not complete, the inner loop is at the end of the text. -/
theorem currentPosition_scan (t start : List UInt8) (inQuotes : Bool) (values : List (List UInt8))
    (value : List UInt8) (h : (scan t start inQuotes values value).currentFieldValue = []) :
    (scan t start inQuotes values value).currentPosition = [] := by
  fun_induction scan t start inQuotes values value with
  | case1 => rfl
  | case2 => rfl
  | case3 _ _ _ _ _ ih => exact ih h
  | case4 _ _ _ _ _ _ _ _ ih => exact ih h
  | case5 => exact absurd h ign_ne_nil
  | case6 _ _ _ _ _ _ _ ih => exact ih h

/-- The start of the field is where it was, or further on. -/
theorem length_start_scan_le (t start : List UInt8) (inQuotes : Bool) (values : List (List UInt8))
    (value : List UInt8) (hle : t.length ≤ start.length) :
    (scan t start inQuotes values value).startOfCurrentField.length ≤ start.length := by
  fun_induction scan t start inQuotes values value with
  | case1 => exact le_rfl
  | case2 => exact le_rfl
  | case3 _ _ _ _ _ ih =>
    rw [List.length_cons, List.length_cons] at hle
    exact (ih le_rfl).trans (by omega)
  | case4 _ _ _ _ _ _ _ _ ih =>
    rw [List.length_cons, List.length_cons] at hle
    exact ih (by omega)
  | case5 => exact le_rfl
  | case6 _ _ _ _ _ _ _ ih =>
    rw [List.length_cons] at hle
    exact ih (by omega)

/-! ## The turns -/

variable {c : UInt8} {rest' : List UInt8} {processWithoutQuotes : Bool}

/-- A quote begins a field in quotes. -/
theorem turn_open (rest start : List UInt8) (values : List (List UInt8)) :
    turn ⟨34 :: rest, start, false, false, values⟩ = .inl ⟨rest, 34 :: rest, true, false, values⟩ :=
  rfl

theorem not_opens (hplain : processWithoutQuotes = true ∨ c ≠ 34) :
    ¬ (processWithoutQuotes = false ∧ c = 34) := by
  rintro ⟨hfalse, hc⟩
  rcases hplain with htrue | hne
  · rw [hfalse] at htrue
    cases htrue
  · exact hne hc

/-- A field without quotes ends in front of the next comma. -/
theorem turn_comma (hplain : processWithoutQuotes = true ∨ c ≠ 34) (hcomma : 44 ∈ c :: rest) :
    turn ⟨c :: rest, start, false, processWithoutQuotes, values⟩ =
      .inl ⟨((c :: rest).dropWhile (· ≠ 44)).drop 1, start, false, false,
        values ++ [(c :: rest).takeWhile (· ≠ 44)]⟩ := by
  unfold turn
  dsimp only
  rw [if_pos rfl, if_neg (not_opens hplain), if_pos hcomma]

/-- Without a comma it is the last one. -/
theorem turn_last (hplain : processWithoutQuotes = true ∨ c ≠ 34) (hcomma : 44 ∉ c :: rest) :
    turn ⟨c :: rest, start, false, processWithoutQuotes, values⟩ =
      .inr (values ++ [c :: rest]) := by
  unfold turn
  dsimp only
  rw [if_pos rfl, if_neg (not_opens hplain), if_neg hcomma]

/-- A value that is not complete sends the reader back. -/
theorem turn_revert {pos : List UInt8} (hpos : pos ≠ [])
    (hvalue : (scan pos start true values []).currentFieldValue ≠ []) :
    turn ⟨pos, start, true, processWithoutQuotes, values⟩ =
      .inl ⟨(scan pos start true values []).startOfCurrentField,
        (scan pos start true values []).startOfCurrentField, false, true,
        (scan pos start true values []).finalValues⟩ := by
  obtain ⟨c, rest, rfl⟩ := List.exists_cons_of_ne_nil hpos
  unfold turn
  simp only [hvalue, ne_eq, not_false_eq_true, if_true, Bool.true_eq_false, if_false]

/-- Otherwise the text is read. -/
theorem turn_done {pos : List UInt8} (hpos : pos ≠ [])
    (hvalue : (scan pos start true values []).currentFieldValue = []) :
    turn ⟨pos, start, true, processWithoutQuotes, values⟩ =
      .inl ⟨[], (scan pos start true values []).startOfCurrentField,
        (scan pos start true values []).inQuotes, processWithoutQuotes,
        (scan pos start true values []).finalValues⟩ := by
  obtain ⟨c, rest, rfl⟩ := List.exists_cons_of_ne_nil hpos
  unfold turn
  simp only [hvalue, currentPosition_scan _ _ _ _ _ hvalue, ne_eq, not_true_eq_false, if_false,
    Bool.true_eq_false]

/-! ## The end of the reader -/

/-- Within quotes the start of the field is not behind the position. -/
def Tracked (r : Reader) : Prop :=
  r.inQuotes = true → r.currentPosition.length ≤ r.startOfCurrentField.length

/-- What is left to read; a field may be read a second time, without its quotes. -/
def left : Reader → ℕ
  | ⟨[], _, _, _, _⟩ => 0
  | ⟨_ :: _, start, true, _, _⟩ => 3 * start.length + 1
  | ⟨_ :: rest, _, false, true, _⟩ => 3 * rest.length + 3
  | ⟨_ :: rest, _, false, false, _⟩ => 3 * rest.length + 5

/-- Outside of quotes it depends on the position. -/
theorem left_le (pos start : List UInt8) (processWithoutQuotes : Bool)
    (values : List (List UInt8)) :
    left ⟨pos, start, false, processWithoutQuotes, values⟩
      ≤ 3 * pos.length + if processWithoutQuotes then 0 else 2 := by
  rcases pos with _ | ⟨c, rest⟩
  · exact Nat.zero_le _
  · cases processWithoutQuotes with
    | true => exact le_rfl
    | false => exact le_rfl

/-- Each turn leaves less to read. -/
theorem turn_decreases (r : Reader) (hr : Tracked r) :
    (∃ result, turn r = .inr result) ∨ ∃ r', turn r = .inl r' ∧ Tracked r' ∧ left r' < left r := by
  obtain ⟨pos, start, inQuotes, processWithoutQuotes, values⟩ := r
  rcases pos with _ | ⟨c, rest⟩
  · exact Or.inl ⟨_, rfl⟩
  cases inQuotes with
  | true =>
    have hle : (c :: rest).length ≤ start.length := hr rfl
    have hleft : left ⟨c :: rest, start, true, processWithoutQuotes, values⟩
        = 3 * start.length + 1 := rfl
    by_cases hvalue : (scan (c :: rest) start true values []).currentFieldValue = []
    · refine Or.inr ⟨_, turn_done (List.cons_ne_nil c rest) hvalue, fun _ => Nat.zero_le _, ?_⟩
      rw [hleft]
      exact Nat.succ_pos _
    · refine Or.inr ⟨_, turn_revert (List.cons_ne_nil c rest) hvalue,
        fun h => Bool.noConfusion h, ?_⟩
      have hstart := length_start_scan_le (c :: rest) start true values [] hle
      have hnext := left_le (scan (c :: rest) start true values []).startOfCurrentField
        (scan (c :: rest) start true values []).startOfCurrentField true
        (scan (c :: rest) start true values []).finalValues
      rw [if_pos rfl] at hnext
      omega
  | false =>
    by_cases hopen : processWithoutQuotes = false ∧ c = 34
    · obtain ⟨rfl, rfl⟩ := hopen
      refine Or.inr ⟨_, turn_open .., fun _ => Nat.le_succ _, ?_⟩
      show _ < 3 * rest.length + 5
      rcases rest with _ | ⟨c, rest⟩
      · exact Nat.succ_pos _
      · show 3 * (rest.length + 1 + 1) + 1 < 3 * (rest.length + 1) + 5
        omega
    · have hplain : processWithoutQuotes = true ∨ c ≠ 34 := by
        by_cases hc : c = 34
        · exact Or.inl (by simpa [hc] using hopen)
        · exact Or.inr hc
      by_cases hcomma : 44 ∈ c :: rest
      · refine Or.inr ⟨_, turn_comma hplain hcomma, fun h => Bool.noConfusion h, ?_⟩
        have hshort : (((c :: rest).dropWhile (· ≠ 44)).drop 1).length ≤ rest.length := by
          have hdrop := (List.dropWhile_suffix (l := c :: rest) (· ≠ 44)).length_le
          rw [List.length_cons] at hdrop
          rw [List.length_drop]
          omega
        have hnext := left_le (((c :: rest).dropWhile (· ≠ 44)).drop 1) start false
          (values ++ [(c :: rest).takeWhile (· ≠ 44)])
        have hleft : 3 * rest.length + 3
            ≤ left ⟨c :: rest, start, false, processWithoutQuotes, values⟩ := by
          cases processWithoutQuotes with
          | true => exact le_rfl
          | false => exact Nat.le_add_right _ 2
        rw [if_neg Bool.false_ne_true] at hnext
        omega
      · exact Or.inl ⟨_, turn_last hplain hcomma⟩

/-- **The reader ends** on every text. -/
theorem terminates (text : List UInt8) : ∃ fuel values, fromString fuel text = some values := by
  refine Loop.returns_of_decreases (I := Tracked) left (fun r hr fuel => ?_)
    (fun h => Bool.noConfusion h)
  rcases turn_decreases r hr with ⟨result, h⟩ | ⟨r', h, hr', hlt⟩
  · exact Or.inl ⟨result, by rw [h]⟩
  · exact Or.inr ⟨r', by rw [h], hr', hlt⟩

/-! ## The inner loop on what was written -/

/-- What is written behind an element. -/
def behind (values : List (List UInt8)) : List UInt8 := values.flatMap fun x => 44 :: field x

/-- What is written. -/
def text : List (List UInt8) → List UInt8
  | [] => []
  | x :: xs => field x ++ behind xs

@[simp] theorem behind_nil : behind [] = [] := rfl

theorem behind_cons (x : List UInt8) (xs : List (List UInt8)) :
    behind (x :: xs) = 44 :: text (x :: xs) := rfl

theorem toStringLoop_eq (xs : List (List UInt8)) (result : List UInt8) :
    toStringLoop false result xs = result ++ behind xs := by
  induction xs generalizing result with
  | nil => exact (List.append_nil result).symm
  | cons x xs ih =>
    rw [toStringLoop, ih, behind_cons, text, if_neg Bool.false_ne_true]
    simp only [List.append_assoc, List.cons_append, List.nil_append]

theorem toString_eq (xs : List (List UInt8)) : toString xs = text xs := by
  cases xs with
  | nil => rfl
  | cons x xs => exact toStringLoop_eq xs (field x)

theorem field_of_plain {x : List UInt8} (h : needsQuotes x = false) : field x = x := by
  rw [field, h]
  rfl

theorem not_mem_of_plain {x : List UInt8} (h : needsQuotes x = false) : 44 ∉ x ∧ 34 ∉ x := by
  simpa [needsQuotes] using h

theorem scan_cons_of_ne {c : UInt8} (hc : c ≠ 34) (t : List UInt8) :
    scan (c :: t) start inQuotes values value = scan t start inQuotes values (value ++ [c]) := by
  conv_lhs => unfold scan
  rw [if_neg hc]

theorem scan_pair {t : List UInt8} (ht : t ≠ []) :
    scan (34 :: 34 :: t) start inQuotes values value =
      scan t start inQuotes values (value ++ [34]) := by
  conv_lhs => unfold scan
  rw [if_pos rfl]
  dsimp only
  rw [if_neg (by decide), if_pos ⟨rfl, ht⟩]

/-- A text without quotes is taken over. -/
theorem scan_plain {x : List UInt8} (hx : 34 ∉ x) (t value : List UInt8) :
    scan (x ++ t) start inQuotes values value = scan t start inQuotes values (value ++ x) := by
  induction x generalizing value with
  | nil => rw [List.nil_append, List.append_nil]
  | cons c x ih =>
    rw [List.mem_cons, not_or] at hx
    rw [List.cons_append, scan_cons_of_ne (Ne.symm hx.1), ih hx.2, List.append_assoc]
    rfl

theorem escaped_cons_quote (x : List UInt8) : escaped (34 :: x) = 34 :: 34 :: escaped x := rfl

theorem escaped_cons_of_ne {c : UInt8} (hc : c ≠ 34) (x : List UInt8) :
    escaped (c :: x) = c :: escaped x := by
  have hcons : escaped (c :: x) = (if c = 34 then [34, 34] else [c]) ++ escaped x := rfl
  rw [hcons, if_neg hc, List.singleton_append]

/-- Doubled quotes in front of another one are taken over as single ones. -/
theorem scan_escaped (x t value : List UInt8) :
    scan (escaped x ++ 34 :: t) start inQuotes values value =
      scan (34 :: t) start inQuotes values (value ++ x) := by
  induction x generalizing value with
  | nil => rw [escaped, List.flatMap_nil, List.nil_append, List.append_nil]
  | cons c x ih =>
    by_cases hc : c = 34
    · rw [hc, escaped_cons_quote, List.cons_append, List.cons_append,
        scan_pair (List.append_ne_nil_of_right_ne_nil _ (List.cons_ne_nil _ _)), ih,
        List.append_assoc]
      rfl
    · rw [escaped_cons_of_ne hc, List.cons_append, scan_cons_of_ne hc, ih, List.append_assoc]
      rfl

theorem escaped_append (x y : List UInt8) : escaped (x ++ y) = escaped x ++ escaped y :=
  List.flatMap_append

/-- In front of quotes a quote can be put behind them. -/
theorem cons_escaped {x : List UInt8} (hx : ∀ c ∈ x, c = 34) (t : List UInt8) :
    34 :: (escaped x ++ t) = escaped x ++ 34 :: t := by
  induction x with
  | nil => rfl
  | cons c x ih =>
    rw [List.forall_mem_cons] at hx
    rw [hx.1, escaped_cons_quote, List.cons_append, List.cons_append, ih hx.2]
    rfl

/-- The quotes that an element begins with. -/
def leadingQuotes (x : List UInt8) : List UInt8 := x.takeWhile (· = 34)

/-- What is behind them. -/
def behindQuotes (x : List UInt8) : List UInt8 := x.dropWhile (· = 34)

theorem leadingQuotes_append (x : List UInt8) : leadingQuotes x ++ behindQuotes x = x :=
  List.takeWhile_append_dropWhile

theorem eq_of_mem_leadingQuotes {x : List UInt8} : ∀ c ∈ leadingQuotes x, c = 34 := fun c hc => by
  simpa using List.mem_takeWhile_imp hc

theorem ne_of_behindQuotes {x rest : List UInt8} {c : UInt8} (h : behindQuotes x = c :: rest) :
    c ≠ 34 := by
  have hhead := List.head?_dropWhile_not (fun c : UInt8 => decide (c = 34)) x
  rw [show x.dropWhile (fun c : UInt8 => decide (c = 34)) = c :: rest from h] at hhead
  simpa using hhead

/-- An opening quote, and those that an element begins with, are misread as doubled ones, and one is
left. -/
theorem scan_field {x : List UInt8} (hx : needsQuotes x = true) (t value : List UInt8) :
    scan (field x ++ t) start inQuotes values value =
      scan (34 :: (escaped (behindQuotes x) ++ 34 :: t)) start inQuotes values
        (value ++ leadingQuotes x) := by
  have hfield : field x ++ t =
      34 :: (escaped (leadingQuotes x) ++ (escaped (behindQuotes x) ++ 34 :: t)) := by
    rw [← List.append_assoc, ← escaped_append, leadingQuotes_append, field, if_pos hx]
    simp only [List.append_assoc, List.cons_append, List.nil_append]
  rw [hfield, cons_escaped eq_of_mem_leadingQuotes, scan_escaped]

/-- Apart from quotes, an element begins with a comma. -/
def LedByComma (x : List UInt8) : Prop := (behindQuotes x).head? = some 44

/-- The inner loop goes through the elements without taking any value for complete: the first one in
quotes that has something else than quotes does not begin with a comma behind them. -/
def Passes : List (List UInt8) → Prop
  | [] => True
  | x :: xs =>
    ¬ LedByComma x ∧ ((needsQuotes x = true → behindQuotes x = []) → Passes xs)

theorem not_ledByComma_of_plain {x : List UInt8} (h : needsQuotes x = false) : ¬ LedByComma x := by
  intro hled
  have hmem := List.mem_of_mem_head? hled
  exact (not_mem_of_plain h).1 ((List.dropWhile_suffix _).mem hmem)

theorem passes_cons_of_plain {x : List UInt8} {xs : List (List UInt8)} (h : needsQuotes x = false) :
    Passes (x :: xs) ↔ Passes xs := by
  constructor
  · exact fun hpasses => hpasses.2 fun hquoted => absurd (h.symm.trans hquoted) Bool.false_ne_true
  · exact fun hpasses => ⟨not_ledByComma_of_plain h, fun _ => hpasses⟩

/-- The values that are complete stay. -/
theorem prefix_scan (t start : List UInt8) (inQuotes : Bool) (values : List (List UInt8))
    (value : List UInt8) : values <+: (scan t start inQuotes values value).finalValues := by
  fun_induction scan t start inQuotes values value with
  | case1 => exact List.prefix_rfl
  | case2 => exact List.prefix_append ..
  | case3 _ _ _ _ _ ih => exact (List.prefix_append ..).trans ih
  | case4 _ _ _ _ _ _ _ _ ih => exact ih
  | case5 => exact List.prefix_rfl
  | case6 _ _ _ _ _ _ _ ih => exact ih

/-- What the inner loop leaves if it has taken no value for complete. -/
def Reverts (s : Scanned) (start : List UInt8) (values : List (List UInt8)) : Prop :=
  s.currentFieldValue ≠ [] ∧ s.startOfCurrentField = start ∧ s.finalValues = values

/-- What it leaves if it has: a value with these bytes and a comma in front. -/
def Completes (s : Scanned) (values : List (List UInt8)) (front : List UInt8) : Prop :=
  ∃ v, front ++ [44] <+: v ∧ values ++ [v] <+: s.finalValues

/-- An element in quotes: the inner loop completes a value at its comma, gives up, or goes on with
what is behind the element. -/
theorem scan_quoted {x : List UInt8} (hx : needsQuotes x = true) (t start value : List UInt8)
    (inQuotes : Bool) (values : List (List UInt8)) :
    (LedByComma x ∧ values ++ [value ++ leadingQuotes x]
        <+: (scan (field x ++ t) start inQuotes values value).finalValues) ∨
      (¬ LedByComma x ∧ (behindQuotes x = [] → t = []) ∧
        Reverts (scan (field x ++ t) start inQuotes values value) start values) ∨
      (behindQuotes x = [] ∧ t ≠ [] ∧
        scan (field x ++ t) start inQuotes values value =
          scan t start inQuotes values (value ++ (leadingQuotes x ++ [34]))) := by
  rw [scan_field hx]
  rw [LedByComma]
  rcases hrest : behindQuotes x with _ | ⟨c, rest⟩
  · rcases t with _ | ⟨d, t⟩
    · exact Or.inr (Or.inl ⟨by simp, fun _ => rfl, ign_ne_nil, rfl, rfl⟩)
    · refine Or.inr (Or.inr ⟨rfl, List.cons_ne_nil d t, ?_⟩)
      rw [← List.append_assoc]
      exact scan_pair (List.cons_ne_nil d t)
  · have hc := ne_of_behindQuotes hrest
    rw [escaped_cons_of_ne hc]
    by_cases hcomma : c = 44
    · rw [hcomma]
      exact Or.inl ⟨rfl, prefix_scan ..⟩
    · have hend : scan (34 :: (c :: escaped rest ++ 34 :: t)) start inQuotes values
          (value ++ leadingQuotes x) =
            ⟨34 :: (c :: escaped rest ++ 34 :: t), start, inQuotes, values, bytesOf "IGN"⟩ := by
        conv_lhs => unfold scan
        rw [if_pos rfl, List.cons_append]
        dsimp only
        rw [if_neg hcomma, if_neg fun h => hc h.1]
      rw [hend]
      exact Or.inr (Or.inl ⟨by simpa using hcomma, by simp, ign_ne_nil, rfl, rfl⟩)

/-- **The inner loop on further elements.** -/
theorem scan_behind (xs : List (List UInt8)) (start value : List UInt8) (inQuotes : Bool)
    (values : List (List UInt8)) (hvalue : value ≠ []) :
    (Passes xs → Reverts (scan (behind xs) start inQuotes values value) start values) ∧
      (¬ Passes xs → Completes (scan (behind xs) start inQuotes values value) values value) := by
  induction xs generalizing value with
  | nil => exact ⟨fun _ => ⟨hvalue, rfl, rfl⟩, fun h => absurd trivial h⟩
  | cons x xs ih =>
    have hcomma : scan (behind (x :: xs)) start inQuotes values value =
        scan (field x ++ behind xs) start inQuotes values (value ++ [44]) :=
      scan_cons_of_ne (by decide) _
    rw [hcomma]
    have hfront : value ++ [44] ≠ [] := List.append_ne_nil_of_left_ne_nil hvalue _
    rcases hx : needsQuotes x with _ | _
    · -- a plain element is taken over
      rw [field_of_plain hx, scan_plain (not_mem_of_plain hx).2, passes_cons_of_plain hx]
      obtain ⟨hpass, hfail⟩ := ih (value ++ [44] ++ x) (List.append_ne_nil_of_left_ne_nil hfront _)
      refine ⟨hpass, fun h => ?_⟩
      obtain ⟨v, hv, hvalues⟩ := hfail h
      rw [List.append_assoc (value ++ [44])] at hv
      exact ⟨v, (List.prefix_append ..).trans hv, hvalues⟩
    · rcases scan_quoted hx (behind xs) start (value ++ [44]) inQuotes values with
        ⟨hled, hvalues⟩ | ⟨hled, hempty, hrev⟩ | ⟨hall, hne, hon⟩
      · exact ⟨fun hpasses => absurd hled hpasses.1, fun _ => ⟨_, List.prefix_append .., hvalues⟩⟩
      · have hpasses : Passes (x :: xs) := by
          refine ⟨hled, fun hall => ?_⟩
          cases xs with
          | nil => trivial
          | cons y ys => exact absurd (hempty (hall hx)) (List.cons_ne_nil _ _)
        exact ⟨fun _ => hrev, fun h => absurd hpasses h⟩
      · rw [hon]
        have hled : ¬ LedByComma x := by
          rw [LedByComma, hall]
          exact fun h => by cases h
        have hiff : Passes (x :: xs) ↔ Passes xs :=
          ⟨fun h => h.2 fun _ => hall, fun h => ⟨hled, fun _ => h⟩⟩
        obtain ⟨hpass, hfail⟩ := ih (value ++ [44] ++ (leadingQuotes x ++ [34]))
          (List.append_ne_nil_of_left_ne_nil hfront _)
        rw [hiff]
        refine ⟨hpass, fun h => ?_⟩
        obtain ⟨v, hv, hvalues⟩ := hfail h
        rw [List.append_assoc (value ++ [44])] at hv
        exact ⟨v, (List.prefix_append ..).trans hv, hvalues⟩

/-- The bytes in front of a comma are not all of the value. -/
theorem ne_of_prefix {x v : List UInt8} (h : x ++ [44] <+: v) : v ≠ x := by
  rintro rfl
  have hle := h.length_le
  rw [List.length_append, List.length_singleton] at hle
  omega

/-- The inner loop begins with a plain element as if it were within quotes. -/
theorem scan_text_of_plain {y : List UInt8} (hy : needsQuotes y = false) (hne : y ≠ [])
    (ys : List (List UInt8)) (start : List UInt8) (inQuotes : Bool) (values : List (List UInt8)) :
    (Passes (y :: ys) →
        Reverts (scan (text (y :: ys)) start inQuotes values []) start values) ∧
      (¬ Passes (y :: ys) → ∃ v ≠ y,
        values ++ [v] <+: (scan (text (y :: ys)) start inQuotes values []).finalValues) := by
  rw [text, field_of_plain hy, scan_plain (not_mem_of_plain hy).2, List.nil_append,
    passes_cons_of_plain hy]
  obtain ⟨hpass, hfail⟩ := scan_behind ys start y inQuotes values hne
  refine ⟨hpass, fun h => ?_⟩
  obtain ⟨v, hv, hvalues⟩ := hfail h
  exact ⟨v, ne_of_prefix hv, hvalues⟩

/-- It begins with one in quotes, and either gives up or completes something else. -/
theorem scan_text_of_quoted {y : List UInt8} (hy : needsQuotes y = true) (ys : List (List UInt8))
    (start : List UInt8) (inQuotes : Bool) (values : List (List UInt8)) :
    Reverts (scan (text (y :: ys)) start inQuotes values []) start values ∨
      ∃ v ≠ y, values ++ [v] <+: (scan (text (y :: ys)) start inQuotes values []).finalValues := by
  have hparts := leadingQuotes_append y
  rw [text]
  rcases scan_quoted hy (behind ys) start [] inQuotes values with
    ⟨hled, hvalues⟩ | ⟨-, -, hrev⟩ | ⟨hall, -, hon⟩
  · refine Or.inr ⟨_, fun heq => ?_, hvalues⟩
    rw [List.nil_append] at heq
    rw [heq, List.append_right_eq_self] at hparts
    rw [LedByComma, hparts] at hled
    cases hled
  · exact Or.inl hrev
  · rw [hon, List.nil_append]
    obtain ⟨hpass, hfail⟩ := scan_behind ys start (leadingQuotes y ++ [34]) inQuotes values
      (List.append_ne_nil_of_right_ne_nil _ (List.cons_ne_nil _ _))
    by_cases hpasses : Passes ys
    · exact Or.inl (hpass hpasses)
    · obtain ⟨v, hv, hvalues⟩ := hfail hpasses
      refine Or.inr ⟨v, ?_, hvalues⟩
      rw [hall, List.append_nil] at hparts
      rintro rfl
      have hle := hv.length_le
      rw [hparts, List.length_append, List.length_append] at hle
      simp at hle

/-! ## The reader on what was written -/

/-- The reader comes to its end with these values. -/
def Returns (r : Reader) (result : List (List UInt8)) : Prop :=
  ∃ fuel, Loop.run (fun _ r => some (turn r)) fuel r = some result

theorem returns_inl_iff {r r' : Reader} (h : turn r = .inl r') (result : List (List UInt8)) :
    Returns r result ↔ Returns r' result :=
  Loop.returns_of_goes_iff (Loop.grows_const _) ⟨0, congrArg some h⟩

theorem returns_inr_iff {r : Reader} {result : List (List UInt8)} (h : turn r = .inr result)
    (result' : List (List UInt8)) : Returns r result' ↔ result' = result := by
  constructor
  · rintro ⟨fuel, hrun⟩
    cases fuel with
    | zero => cases hrun
    | succ fuel =>
      rw [Loop.run_succ_of_leaves (congrArg some h)] at hrun
      exact (Option.some.inj hrun).symm
  · rintro rfl
    exact ⟨1, Loop.run_succ_of_leaves (congrArg some h)⟩

/-- What is among the values stays there. -/
theorem prefix_of_turn {r : Reader} :
    (∀ r', turn r = .inl r' → r.finalValues <+: r'.finalValues) ∧
      ∀ result, turn r = .inr result → r.finalValues <+: result := by
  unfold turn
  rcases r.currentPosition with _ | ⟨c, rest⟩
  · exact ⟨fun _ h => (by cases h), fun _ h => Sum.inr.inj h ▸ List.prefix_rfl⟩
  · dsimp only
    split_ifs
    · exact ⟨fun _ h => Sum.inl.inj h ▸ List.prefix_rfl, fun _ h => (by cases h)⟩
    · exact ⟨fun _ h => Sum.inl.inj h ▸ List.prefix_append .., fun _ h => (by cases h)⟩
    · exact ⟨fun _ h => (by cases h), fun _ h => Sum.inr.inj h ▸ List.prefix_append ..⟩
    all_goals exact ⟨fun _ h => Sum.inl.inj h ▸ prefix_scan .., fun _ h => (by cases h)⟩

theorem prefix_of_returns {r : Reader} {result : List (List UInt8)} (h : Returns r result) :
    r.finalValues <+: result := by
  obtain ⟨fuel, hrun⟩ := h
  induction fuel generalizing r with
  | zero => cases hrun
  | succ fuel ih =>
    rcases Loop.run_succ_cases hrun with hleaves | ⟨r', hgoes, hrest⟩
    · exact prefix_of_turn.2 _ (Option.some.inj hleaves)
    · exact (prefix_of_turn.1 _ (Option.some.inj hgoes)).trans (ih hrest)

/-- A value that is not the next element is not forgotten. -/
theorem not_returns_of_wrong {r : Reader} {x v : List UInt8} {xs : List (List UInt8)}
    (h : values ++ [v] <+: r.finalValues) (hne : v ≠ x) : ¬ Returns r (values ++ x :: xs) := by
  intro hreturns
  have hprefix := h.trans (prefix_of_returns hreturns)
  rw [List.prefix_append_right_inj, List.cons_prefix_cons] at hprefix
  exact hne hprefix.1

/-- A field in quotes was looked for: either it is read again, or all is read. -/
theorem returns_quotes_iff {pos : List UInt8} (hpos : pos ≠ []) (result : List (List UInt8)) :
    Returns ⟨pos, start, true, false, values⟩ result ↔
      if (scan pos start true values []).currentFieldValue ≠ [] then
        Returns ⟨(scan pos start true values []).startOfCurrentField,
          (scan pos start true values []).startOfCurrentField, false, true,
          (scan pos start true values []).finalValues⟩ result
      else result = (scan pos start true values []).finalValues := by
  by_cases hvalue : (scan pos start true values []).currentFieldValue = []
  · rw [if_neg (not_not.mpr hvalue), returns_inl_iff (turn_done hpos hvalue)]
    exact returns_inr_iff rfl result
  · rw [if_pos hvalue, returns_inl_iff (turn_revert hpos hvalue)]

/-- An element without quotes is read as it is. -/
theorem returns_plain_iff {x : List UInt8} {xs : List (List UInt8)} (hx : needsQuotes x = false)
    (hne : x ≠ []) (processWithoutQuotes : Bool) (result : List (List UInt8)) :
    Returns ⟨text (x :: xs), start, false, processWithoutQuotes, values⟩ result ↔
      Returns ⟨text xs, start, false, false, values ++ [x]⟩ result := by
  obtain ⟨hcomma, hquote⟩ := not_mem_of_plain hx
  obtain ⟨c, y, rfl⟩ := List.exists_cons_of_ne_nil hne
  have hc : processWithoutQuotes = true ∨ c ≠ 34 :=
    Or.inr fun h => hquote (h ▸ List.mem_cons_self)
  rw [text, field_of_plain hx]
  cases xs with
  | nil =>
    rw [behind_nil, List.append_nil, returns_inr_iff (turn_last hc hcomma)]
    exact (returns_inr_iff rfl result).symm
  | cons x' xs =>
    have hmem : 44 ∈ c :: (y ++ behind (x' :: xs)) := by
      rw [behind_cons]
      simp
    have htake : (c :: (y ++ behind (x' :: xs))).takeWhile (· ≠ 44) = c :: y :=
      Cut.takeWhile_ne_append hcomma _
    have hdrop : ((c :: (y ++ behind (x' :: xs))).dropWhile (· ≠ 44)).drop 1 = text (x' :: xs) :=
      Cut.drop_dropWhile_ne_append hcomma _
    rw [List.cons_append, returns_inl_iff (turn_comma hc hmem), htake, hdrop]

theorem field_of_quoted {x : List UInt8} (h : needsQuotes x = true) :
    field x = 34 :: (escaped x ++ [34]) := by
  rw [field, if_pos h, List.append_assoc]
  rfl

theorem length_le_escaped (x : List UInt8) : x.length ≤ (escaped x).length := by
  induction x with
  | nil => exact Nat.zero_le _
  | cons c x ih =>
    by_cases hc : c = 34
    · rw [hc, escaped_cons_quote]
      exact (Nat.succ_le_succ ih).trans (Nat.le_succ _)
    · rw [escaped_cons_of_ne hc]
      exact Nat.succ_le_succ ih

theorem comma_not_mem_field {x : List UInt8} (h : 44 ∉ x) : 44 ∉ field x := by
  unfold field
  split_ifs
  · unfold escaped
    simp only [List.mem_append, List.mem_flatMap, List.mem_singleton, not_or]
    refine ⟨⟨by decide, ?_⟩, by decide⟩
    rintro ⟨c, hc, hmem⟩
    split_ifs at hmem with hquote
    · simp at hmem
    · exact h (List.mem_singleton.mp hmem ▸ hc)
  · exact h

/-- Up to the first comma, an element in quotes is not what it was. -/
theorem takeWhile_text_ne {x : List UInt8} (hx : needsQuotes x = true) (xs : List (List UInt8)) :
    (text (x :: xs)).takeWhile (· ≠ 44) ≠ x := by
  intro heq
  have hcomma : 44 ∉ x := by
    intro hmem
    rw [← heq] at hmem
    simpa using List.mem_takeWhile_imp hmem
  -- all of the field is in front of the comma, and it is longer
  have hfree : ∀ d ∈ field x, decide (d ≠ 44) = true :=
    Cut.forall_ne_iff.mpr (comma_not_mem_field hcomma)
  have hlength := congrArg List.length heq
  have hle := length_le_escaped x
  rw [text, List.takeWhile_append_of_pos hfree, field_of_quoted hx] at hlength
  simp only [List.cons_append, List.length_cons, List.length_append, List.length_nil] at hlength
  omega

/-- An element in quotes that is read without them is not restored. -/
theorem not_returns_reverted {x : List UInt8} (hx : needsQuotes x = true)
    (xs : List (List UInt8)) :
    ¬ Returns ⟨text (x :: xs), start, false, true, values⟩ (values ++ x :: xs) := by
  have hne := takeWhile_text_ne hx xs
  have htext : text (x :: xs) = 34 :: (escaped x ++ [34] ++ behind xs) := by
    rw [text, field_of_quoted hx]
    rfl
  rw [htext] at hne ⊢
  by_cases hcomma : 44 ∈ (34 : UInt8) :: (escaped x ++ [34] ++ behind xs)
  · rw [returns_inl_iff (turn_comma (Or.inl rfl) hcomma)]
    exact not_returns_of_wrong List.prefix_rfl hne
  · rw [returns_inr_iff (turn_last (Or.inl rfl) hcomma)]
    intro heq
    rw [Cut.takeWhile_ne_eq_self_iff.mpr hcomma] at hne
    exact hne (List.cons.inj (List.append_cancel_left heq)).1.symm

/-! ## The round trip -/

/-- No two neighbours are in quotes, and none that begins with a comma, apart from quotes, is behind
one that is. -/
def Restorable (xs : List (List UInt8)) : Prop :=
  xs.IsChain (fun a b => ¬ (needsQuotes a = true ∧ needsQuotes b = true)) ∧
    xs.Pairwise fun a b => needsQuotes a = true → ¬ LedByComma b

theorem restorable_cons_of_plain {x : List UInt8} {xs : List (List UInt8)}
    (hx : needsQuotes x = false) : Restorable (x :: xs) ↔ Restorable xs := by
  unfold Restorable
  rw [List.isChain_cons, List.pairwise_cons]
  simp [hx]

/-- Where no neighbours are in quotes, the inner loop passes exactly if no element is led by a
comma. -/
theorem passes_iff {xs : List (List UInt8)} (h : Restorable xs) :
    Passes xs ↔ ∀ y ∈ xs, ¬ LedByComma y := by
  induction xs with
  | nil => exact iff_of_true trivial fun y hy => absurd hy List.not_mem_nil
  | cons x xs ih =>
    rw [List.forall_mem_cons]
    rcases hx : needsQuotes x with _ | _
    · rw [passes_cons_of_plain hx, ih ((restorable_cons_of_plain hx).mp h),
        and_iff_right (not_ledByComma_of_plain hx)]
    · have hbehind : ∀ y ∈ xs, ¬ LedByComma y := fun y hy =>
        (List.pairwise_cons.mp h.2).1 y hy hx
      have hrest : Restorable xs := ⟨h.1.tail, (List.pairwise_cons.mp h.2).2⟩
      exact ⟨fun hpasses => ⟨hpasses.1, hbehind⟩,
        fun hled => ⟨hled.1, fun _ => (ih hrest).mpr hbehind⟩⟩

theorem restorable_cons_of_quoted {x y : List UInt8} {xs : List (List UInt8)}
    (hx : needsQuotes x = true) :
    Restorable (x :: y :: xs) ↔
      needsQuotes y = false ∧ Passes (y :: xs) ∧ Restorable (y :: xs) := by
  have hsplit : Restorable (x :: y :: xs) ↔
      needsQuotes y = false ∧ (∀ z ∈ y :: xs, ¬ LedByComma z) ∧ Restorable (y :: xs) := by
    unfold Restorable
    rw [List.isChain_cons_cons, List.pairwise_cons, hx]
    simp only [true_and, Bool.not_eq_true, forall_const]
    tauto
  rw [hsplit]
  refine and_congr_right fun _ => ⟨?_, ?_⟩
  · exact fun h => ⟨(passes_iff h.2).mpr h.1, h.2⟩
  · exact fun h => ⟨(passes_iff h.2).mp h.1, h.2⟩

/-- An element in quotes: behind it the inner loop goes on with the next one. -/
theorem returns_quoted_iff {x y : List UInt8} {ys : List (List UInt8)} (hx : needsQuotes x = true)
    (hy : y ≠ []) :
    Returns ⟨text (x :: y :: ys), start, false, false, values⟩ (values ++ x :: y :: ys) ↔
      needsQuotes y = false ∧ Passes (y :: ys) ∧
        Returns ⟨text (y :: ys), text (y :: ys), false, false, values ++ [x]⟩
          (values ++ [x] ++ y :: ys) := by
  have happend : values ++ x :: y :: ys = values ++ [x] ++ y :: ys := by simp
  have htext : text (x :: y :: ys) = 34 :: (escaped x ++ 34 :: behind (y :: ys)) := by
    rw [text, field_of_quoted hx]
    simp only [List.cons_append, List.append_assoc, List.nil_append]
  have hscan : scan (escaped x ++ 34 :: behind (y :: ys)) (text (x :: y :: ys)) true values [] =
      scan (text (y :: ys)) (text (y :: ys)) false (values ++ [x]) [] := by
    rw [scan_escaped]
    rfl
  have hopen : turn ⟨text (x :: y :: ys), start, false, false, values⟩ =
      .inl ⟨escaped x ++ 34 :: behind (y :: ys), text (x :: y :: ys), true, false, values⟩ := by
    rw [htext]
    rfl
  rw [happend, returns_inl_iff hopen,
    returns_quotes_iff (List.append_ne_nil_of_right_ne_nil _ (List.cons_ne_nil _ _)), hscan]
  generalize hs : scan (text (y :: ys)) (text (y :: ys)) false (values ++ [x]) [] = s
  -- a wrong value stays, whether the loop gave up behind it or not
  have hwrong : (∃ v ≠ y, values ++ [x] ++ [v] <+: s.finalValues) →
      ¬ if s.currentFieldValue ≠ [] then
          Returns ⟨s.startOfCurrentField, s.startOfCurrentField, false, true, s.finalValues⟩
            (values ++ [x] ++ y :: ys)
        else values ++ [x] ++ y :: ys = s.finalValues := by
    rintro ⟨v, hne, hvalues⟩
    split_ifs
    · exact not_returns_of_wrong hvalues hne
    · intro heq
      rw [← heq, List.prefix_append_right_inj, List.cons_prefix_cons] at hvalues
      exact hne hvalues.1
  rcases hquoted : needsQuotes y with _ | _
  · obtain ⟨hpass, hfail⟩ := scan_text_of_plain hquoted hy ys (text (y :: ys)) false
      (values ++ [x])
    rw [hs] at hpass hfail
    by_cases hpasses : Passes (y :: ys)
    · obtain ⟨hvalue, hstart, hvalues⟩ := hpass hpasses
      rw [if_pos hvalue, hstart, hvalues, returns_plain_iff hquoted hy,
        returns_plain_iff hquoted hy]
      exact ⟨fun h => ⟨rfl, hpasses, h⟩, fun h => h.2.2⟩
    · exact iff_of_false (hwrong (hfail hpasses)) fun h => hpasses h.2.1
  · refine iff_of_false ?_ fun h => Bool.false_ne_true h.1.symm
    have hread := scan_text_of_quoted hquoted ys (text (y :: ys)) false (values ++ [x])
    rw [hs] at hread
    rcases hread with ⟨hvalue, hstart, hvalues⟩ | hcompletes
    · rw [if_pos hvalue, hstart, hvalues]
      exact not_returns_reverted hquoted ys
    · exact hwrong hcompletes

/-- The last element in quotes is read as it is. -/
theorem returns_last_iff {x : List UInt8} (hx : needsQuotes x = true)
    (result : List (List UInt8)) :
    Returns ⟨text [x], start, false, false, values⟩ result ↔ result = values ++ [x] := by
  have htext : text [x] = 34 :: (escaped x ++ [34]) := by
    rw [text, field_of_quoted hx, behind_nil, List.append_nil]
  have hscan : scan (escaped x ++ [34]) (text [x]) true values [] =
      ⟨[], text [x], false, values ++ [x], []⟩ := by
    rw [scan_escaped]
    rfl
  have hopen : turn ⟨text [x], start, false, false, values⟩ =
      .inl ⟨escaped x ++ [34], text [x], true, false, values⟩ := by
    rw [htext]
    rfl
  rw [returns_inl_iff hopen,
    returns_quotes_iff (List.append_ne_nil_of_right_ne_nil _ (List.cons_ne_nil _ _)), hscan,
    if_neg (not_not.mpr rfl)]

/-- **The reader on the text of a list.** -/
theorem returns_text_iff (xs : List (List UInt8)) (hne : ∀ x ∈ xs, x ≠ []) (start : List UInt8)
    (values : List (List UInt8)) :
    Returns ⟨text xs, start, false, false, values⟩ (values ++ xs) ↔ Restorable xs := by
  induction xs generalizing start values with
  | nil =>
    rw [List.append_nil]
    exact iff_of_true ((returns_inr_iff rfl _).mpr rfl) ⟨List.isChain_nil, List.Pairwise.nil⟩
  | cons x xs ih =>
    rw [List.forall_mem_cons] at hne
    rcases hx : needsQuotes x with _ | _
    · have happend : values ++ x :: xs = values ++ [x] ++ xs := by simp
      rw [returns_plain_iff hx hne.1, happend, ih hne.2, restorable_cons_of_plain hx]
    · rcases xs with _ | ⟨y, ys⟩
      · exact iff_of_true ((returns_last_iff hx _).mpr rfl)
          ⟨List.isChain_singleton x, List.pairwise_singleton _ x⟩
      · rw [returns_quoted_iff hx (hne.2 y List.mem_cons_self), ih hne.2,
          restorable_cons_of_quoted hx]

/-- The list is restored from its text. -/
def Restores (xs : List (List UInt8)) : Prop := ∃ fuel, fromString fuel (toString xs) = some xs

/-- **The round trip.**  The reader ends on every text, and these lists it restores. -/
theorem list_restores_iff {xs : List (List UInt8)} (hne : ∀ x ∈ xs, x ≠ []) :
    (∀ inputString, ∃ fuel values, fromString fuel inputString = some values) ∧
      (Restores xs ↔ Restorable xs) := by
  refine ⟨terminates, ?_⟩
  unfold Restores fromString
  rw [toString_eq]
  exact returns_text_iff xs hne (text xs) []

/-- Elements with and without quotes by turns. -/
theorem list_restores_by_turns : Restores [bytesOf "a,b", bytesOf "c", bytesOf "\"d\""] := by
  refine (list_restores_iff (by decide)).2.mpr ⟨by decide, ?_⟩
  unfold LedByComma
  decide

/-- Of two neighbours in quotes, the second one is cut at its comma. -/
theorem not_list_restores :
    (∀ x ∈ [bytesOf "a,b", bytesOf "c,d"], x ≠ []) ∧
      ¬ Restores [bytesOf "a,b", bytesOf "c,d"] := by
  refine ⟨by decide, ?_⟩
  rintro ⟨fuel, hrun⟩
  have hcut : fromString 5 (toString [bytesOf "a,b", bytesOf "c,d"]) =
      some [bytesOf "a,b", bytesOf "\"c", bytesOf "d\""] := by decide
  have hlong := Loop.run_mono (Loop.grows_const _) (Nat.le_add_right fuel 5) hrun
  have hlong' := Loop.run_mono (Loop.grows_const _) (Nat.le_add_left 5 fuel) hcut
  rw [hlong] at hlong'
  revert hlong'
  decide

end StringList
end Mantids
