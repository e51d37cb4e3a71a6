/-
# Matches by where they begin

A pattern is a property of the rest of a text from some position on.  What is put into a text is
looked at by the matches that begin in it, whatever follows.

* `BeginsIn` — some match begins in the first of two parts of a text;
* `beginsIn_append`, `beginsIn_iff` — part by part, and by positions;
* `reads` — a word of letter classes in front of a text;
* `beginsIn_iff_of_not` — letters no match begins with are passed over;
* `leftmost` — the first match of a text, with its position.
-/
import Mathlib.Data.List.Infix
import Mathlib.Tactic.Common

namespace Begins

variable {α : Type*}

/-! ## Matches in a part of a text -/

/-- A match of `P` begins somewhere in the first part, when the second follows it. -/
def BeginsIn (P : List α → Prop) : List α → List α → Prop
  | [], _ => False
  | c :: a, t => P (c :: (a ++ t)) ∨ BeginsIn P a t

variable {P Q : List α → Prop}

theorem beginsIn_append (a b t : List α) :
    BeginsIn P (a ++ b) t ↔ BeginsIn P a (b ++ t) ∨ BeginsIn P b t := by
  induction a with
  | nil =>
      simp only [List.nil_append, BeginsIn, false_or]
  | cons c a ih =>
      simp only [List.cons_append, BeginsIn, ih, List.append_assoc, or_assoc]

theorem beginsIn_iff (a t : List α) :
    BeginsIn P a t ↔ ∃ p < a.length, P ((a ++ t).drop p) := by
  induction a with
  | nil => simp [BeginsIn]
  | cons c a ih =>
      rw [BeginsIn, ih]
      constructor
      · rintro (h | ⟨p, hp, h⟩)
        · exact ⟨0, Nat.succ_pos _, h⟩
        · exact ⟨p + 1, Nat.succ_lt_succ hp, h⟩
      · rintro ⟨p, hp, h⟩
        rcases p with _ | p
        · exact .inl h
        · exact .inr ⟨p, Nat.lt_of_succ_lt_succ hp, h⟩

/-- Matches carry over to another pattern and another rest. -/
theorem BeginsIn.imp {a t u : List α} (h : ∀ x, x ≠ [] → P (x ++ t) → Q (x ++ u))
    (hP : BeginsIn P a t) : BeginsIn Q a u := by
  induction a with
  | nil => exact hP
  | cons c a ih =>
      rcases hP with hhere | hlater
      · exact .inl (h (c :: a) (List.cons_ne_nil _ _) hhere)
      · exact .inr (ih hlater)

theorem beginsIn_map {β : Type*} (f : α → β) {P : List β → Prop} (a t : List α) :
    BeginsIn (fun s => P (s.map f)) a t ↔ BeginsIn P (a.map f) (t.map f) := by
  induction a with
  | nil => rfl
  | cons c a ih => simp only [BeginsIn, List.map_cons, List.map_append, ih]

/-- No match begins with one of these letters. -/
theorem not_beginsIn {a : List α} (h : ∀ c ∈ a, ∀ s, ¬ P (c :: s)) (t : List α) :
    ¬ BeginsIn P a t := by
  induction a with
  | nil => exact id
  | cons c a ih =>
      rw [List.forall_mem_cons] at h
      rintro (hc | ha)
      · exact h.1 _ hc
      · exact ih h.2 ha

/-- Letters no match begins with are passed over. -/
theorem beginsIn_iff_of_not {a : List α} (h : ∀ c ∈ a, ∀ s, ¬ P (c :: s)) (b t : List α) :
    BeginsIn P (a ++ b) t ↔ BeginsIn P b t := by
  rw [beginsIn_append, or_iff_right (not_beginsIn h _)]

/-! ## The leftmost match -/

section Leftmost

variable {β : Type*} {f : List α → Option β}

/-- The first position where `f` finds a match, with what it finds. -/
def leftmost (f : List α → Option β) : List α → Option (ℕ × β)
  | [] => none
  | c :: s =>
    match f (c :: s) with
    | some b => some (0, b)
    | none => (leftmost f s).map fun m => (m.1 + 1, m.2)

theorem leftmost_cons_of_some {c : α} {s : List α} {b : β} (h : f (c :: s) = some b) :
    leftmost f (c :: s) = some (0, b) := by
  simp only [leftmost, h]

theorem of_leftmost {s : List α} {p : ℕ} {b : β} (h : leftmost f s = some (p, b)) :
    p < s.length ∧ f (s.drop p) = some b ∧
      ¬ BeginsIn (fun t => (f t).isSome = true) (s.take p) (s.drop p) := by
  induction s generalizing p with
  | nil => cases h
  | cons c s ih =>
      unfold leftmost at h
      split at h
      · rename_i hhere
        cases h
        exact ⟨Nat.succ_pos _, hhere, id⟩
      · rename_i hhere
        obtain ⟨⟨q, e⟩, hq, heq⟩ := Option.map_eq_some_iff.mp h
        cases heq
        obtain ⟨hlt, hsome, hbefore⟩ := ih hq
        refine ⟨Nat.succ_lt_succ hlt, hsome, not_or_intro ?_ hbefore⟩
        rw [List.drop_succ_cons, List.take_append_drop]
        simp [hhere]

theorem leftmost_eq_none_iff {s : List α} :
    leftmost f s = none ↔ ¬ BeginsIn (fun t => (f t).isSome = true) s [] := by
  induction s with
  | nil => exact ⟨fun _ => id, fun _ => rfl⟩
  | cons c s ih =>
      unfold leftmost
      rw [BeginsIn, List.append_nil]
      split
      · rename_i hhere
        rw [hhere]
        simp
      · rename_i hhere
        rw [hhere, Option.map_eq_none_iff, ih]
        simp

/-- Where no match begins, the search goes on behind. -/
theorem leftmost_append {a t : List α}
    (h : ¬ BeginsIn (fun t => (f t).isSome = true) a t) :
    leftmost f (a ++ t) = (leftmost f t).map fun m => (a.length + m.1, m.2) := by
  induction a with
  | nil =>
      rw [List.nil_append]
      rcases leftmost f t with _ | ⟨q, b⟩
      · rfl
      · simp
  | cons c a ih =>
      obtain ⟨hhere, hlater⟩ := not_or.mp h
      have hnone : f (c :: (a ++ t)) = none := by simpa using hhere
      simp only [List.cons_append, leftmost, hnone, ih hlater]
      rcases leftmost f t with _ | m
      · rfl
      · simp only [Option.map_some, List.length_cons]
        congr 2
        omega

end Leftmost

/-! ## Words of letter classes -/

/-- The text begins with letters of these classes, in order. -/
def reads : List (α → Bool) → List α → Bool
  | [], _ => true
  | _ :: _, [] => false
  | p :: ps, c :: s => p c && reads ps s

theorem reads_cons {p : α → Bool} {ps : List (α → Bool)} {c : α} {s : List α} :
    reads (p :: ps) (c :: s) = true ↔ p c = true ∧ reads ps s = true := by
  rw [reads, Bool.and_eq_true]

theorem not_reads_cons {p : α → Bool} {c : α} (h : p c = false) (ps : List (α → Bool))
    (s : List α) : ¬ reads (p :: ps) (c :: s) = true := by
  rw [reads_cons, h]
  exact fun hr => Bool.false_ne_true hr.1

theorem not_reads_nil (p : α → Bool) (ps : List (α → Bool)) :
    ¬ reads (p :: ps) [] = true :=
  Bool.false_ne_true

end Begins
