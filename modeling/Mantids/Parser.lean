/-
# The parser

`Parser` (`Memory/parser.cpp`) hands what is written to it to its current sub-parser, and
what that one leaves to the next one, in rounds of which a write may take a limited number.

* `ParserClass` — a concrete parser: its state and what the virtual functions do to it;
* `parseRound`, `parseData` — one call of `parseData`, and the recursion over what is left;
* `write`, `writeAll` — one write and a list of them.
-/
import Mantids.SubParser

namespace Mantids

/-- A class derived from `Parser` with the state `π`. -/
structure ParserClass (π : Type*) where
  /-- `m_currentParser != nullptr`. -/
  hasParser : π → Bool
  /-- `setParseStatus(PARSE_GET_MORE_DATA)` and `writeIntoParser` of the current sub-parser. -/
  writeIntoParser : π → List UInt8 → π × Written
  /-- `getParseStatus()` of the current sub-parser. -/
  parseStatus : π → ParseStatus
  changeToNextParser : π → π × Bool
  /-- `m_maxTTL`. -/
  maxTTL : ℕ := 4096

/-- What a round comes to: a failure, the answer of the whole call, or a number of bytes that
were taken before the rest is processed. -/
inductive Round where
  | failed
  | answer (writtenBytes : ℕ)
  | left (writtenBytes : ℕ)
deriving DecidableEq

namespace ParserClass

variable {π : Type*} (C : ParserClass π)

/-- `parseData` up to the recursive call. -/
def parseRound (s : π) (buf : List UInt8) : π × Round :=
  if C.hasParser s then
    match C.writeIntoParser s buf with
    | (s, .nullopt) => (s, .failed)
    | (s, .exception) => (s, .failed)
    | (s, .bytes writtenBytes) =>
      match C.parseStatus s with
      | .gotoNextSubparser =>
        match C.changeToNextParser s with
        | (s, false) => (s, .failed)
        | (s, true) =>
          if C.hasParser s = false ∨ writtenBytes = buf.length then (s, .answer writtenBytes)
          else (s, .left writtenBytes)
      | .getMoreData =>
        if writtenBytes = buf.length then (s, .answer writtenBytes) else (s, .left writtenBytes)
      | .error => (s, .failed)
  else if buf.length = 0 then (s, .answer 0)
  else (s, .left 0)

/-- `parseData` with the number of rounds that the time to live still allows. -/
def parseData : ℕ → π → List UInt8 → π × Option ℕ
  | 0, s, _ => (s, none)
  | ttl + 1, s, buf =>
    match C.parseRound s buf with
    | (s, .failed) => (s, none)
    | (s, .answer writtenBytes) => (s, some writtenBytes)
    | (s, .left writtenBytes) =>
      match parseData ttl s (buf.drop writtenBytes) with
      | (s, none) => (s, none)
      | (s, some x) => (s, some (x + writtenBytes))

/-- `write`.  The counter starts at zero and is compared before it is increased. -/
def write (s : π) (buf : List UInt8) : π × Option ℕ := C.parseData (C.maxTTL + 1) s buf

/-- Writes that each have to be taken whole. -/
def writeAll : π → List (List UInt8) → Option π
  | s, [] => some s
  | s, w :: ws =>
    match C.write s w with
    | (s, some n) => if n = w.length then writeAll s ws else none
    | (_, none) => none

variable {C} {s s' : π} {buf : List UInt8} {n ttl : ℕ}

theorem parseData_failed (h : C.parseRound s buf = (s', .failed)) :
    C.parseData (ttl + 1) s buf = (s', none) := by
  simp only [parseData, h]

theorem parseData_answer (h : C.parseRound s buf = (s', .answer n)) :
    C.parseData (ttl + 1) s buf = (s', some n) := by
  simp only [parseData, h]

theorem parseData_left (h : C.parseRound s buf = (s', .left n)) :
    C.parseData (ttl + 1) s buf =
      ((C.parseData ttl s' (buf.drop n)).1,
        (C.parseData ttl s' (buf.drop n)).2.map (· + n)) := by
  simp only [parseData, h]
  rcases C.parseData ttl s' (buf.drop n) with ⟨s'', x⟩
  cases x <;> rfl

/-- A round whose write is refused. -/
theorem parseRound_refused {x : Written} (hparser : C.hasParser s = true)
    (hwrite : C.writeIntoParser s buf = (s', x)) (hx : x.toOption = none) :
    C.parseRound s buf = (s', .failed) := by
  rw [parseRound, if_pos hparser, hwrite]
  cases x with
  | bytes n => cases hx
  | nullopt => rfl
  | exception => rfl

/-- A round after which the sub-parser waits for more. -/
theorem parseRound_more (hparser : C.hasParser s = true)
    (hwrite : C.writeIntoParser s buf = (s', .bytes n))
      (hstatus : C.parseStatus s' = .getMoreData) :
    C.parseRound s buf = (s', if n = buf.length then .answer n else .left n) := by
  rw [parseRound, if_pos hparser, hwrite]
  simp only [hstatus]
  split <;> rfl

/-- A round in which the sub-parser finds an error. -/
theorem parseRound_error (hparser : C.hasParser s = true)
    (hwrite : C.writeIntoParser s buf = (s', .bytes n)) (hstatus : C.parseStatus s' = .error) :
    C.parseRound s buf = (s', .failed) := by
  rw [parseRound, if_pos hparser, hwrite]
  simp only [hstatus]

/-- A round in which the sub-parser asks for the next one. -/
theorem parseRound_next {s'' : π} {changed : Bool} (hparser : C.hasParser s = true)
    (hwrite : C.writeIntoParser s buf = (s', .bytes n))
    (hstatus : C.parseStatus s' = .gotoNextSubparser)
    (hchange : C.changeToNextParser s' = (s'', changed)) :
    C.parseRound s buf =
      (s'', if changed = false then .failed
        else if C.hasParser s'' = false ∨ n = buf.length then .answer n else .left n) := by
  rw [parseRound, if_pos hparser, hwrite]
  simp only [hstatus, hchange]
  cases changed with
  | false => rfl
  | true =>
      simp only [Bool.true_eq_false, if_false]
      split <;> rfl

/-- Without a sub-parser nothing is done with what is written. -/
theorem parseData_of_not_hasParser (hparser : C.hasParser s = false) (ttl : ℕ) (buf : List UInt8) :
    (C.parseData ttl s buf).1 = s := by
  induction ttl with
  | zero => rfl
  | succ ttl ih =>
      have hround : C.parseRound s buf = (s, if buf.length = 0 then .answer 0 else .left 0) := by
        rw [parseRound, if_neg (by rw [hparser]; exact Bool.false_ne_true)]
        split <;> rfl
      by_cases hbuf : buf.length = 0
      · rw [if_pos hbuf] at hround
        rw [parseData_answer hround]
      · rw [if_neg hbuf] at hround
        rw [parseData_left hround]
        exact ih

theorem writeAll_cons (h : C.write s buf = (s', some buf.length)) (ws : List (List UInt8)) :
    C.writeAll s (buf :: ws) = C.writeAll s' ws := by
  simp only [writeAll, h, if_true]

theorem writeAll_failed (h : (C.write s buf).2 = none) (ws : List (List UInt8)) :
    C.writeAll s (buf :: ws) = none := by
  rcases hw : C.write s buf with ⟨s'', x⟩
  rw [hw] at h
  simp only [writeAll, hw, show x = none from h]

theorem writeAll_append (s : π) (ws vs : List (List UInt8)) :
    C.writeAll s (ws ++ vs) = (C.writeAll s ws).bind (fun s' => C.writeAll s' vs) := by
  induction ws generalizing s with
  | nil => rfl
  | cons w ws ih =>
      rw [List.cons_append, writeAll, writeAll]
      rcases C.write s w with ⟨s', n⟩
      cases n with
      | none => rfl
      | some n =>
          simp only
          split
          · exact ih s'
          · rfl

end ParserClass

end Mantids
