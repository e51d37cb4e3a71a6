/-
# Lists cut at the first element of a kind

* `takeWhile_ne_eq_self_iff`, `dropWhile_ne_eq_nil_iff` — a list that is not cut;
* `takeWhile_ne_append`, `dropWhile_ne_append` — both sides of the cut;
* `cut_eq_iff` — the sides of a cut, and the list they come from.
-/
import Mathlib.Data.List.TakeWhile
import Mathlib.Tactic.Common

namespace Cut

variable {α : Type*} [DecidableEq α] {c : α} {s a t : List α}

theorem forall_ne_iff : (∀ x ∈ a, decide (x ≠ c) = true) ↔ c ∉ a := by
  constructor
  · exact fun h hc => absurd rfl (of_decide_eq_true (h c hc))
  · exact fun h x hx => decide_eq_true fun heq => h (heq ▸ hx)

theorem takeWhile_ne_eq_self_iff : a.takeWhile (· ≠ c) = a ↔ c ∉ a := by
  rw [List.takeWhile_eq_self_iff, forall_ne_iff]

theorem dropWhile_ne_eq_nil_iff : a.dropWhile (· ≠ c) = [] ↔ c ∉ a := by
  rw [List.dropWhile_eq_nil_iff, forall_ne_iff]

/-- What is in front of the cut. -/
theorem takeWhile_ne_append (h : c ∉ a) (t : List α) :
    (a ++ c :: t).takeWhile (· ≠ c) = a := by
  rw [List.takeWhile_append_of_pos (forall_ne_iff.mpr h), List.takeWhile_cons_of_neg (by simp),
    List.append_nil]

/-- The rest begins with the element. -/
theorem dropWhile_ne_append (h : c ∉ a) (t : List α) :
    (a ++ c :: t).dropWhile (· ≠ c) = c :: t := by
  rw [List.dropWhile_append_of_pos (forall_ne_iff.mpr h), List.dropWhile_cons_of_neg (by simp)]

/-- What is behind the cut. -/
theorem drop_dropWhile_ne_append (h : c ∉ a) (t : List α) :
    ((a ++ c :: t).dropWhile (· ≠ c)).drop 1 = t := by
  rw [dropWhile_ne_append h, List.drop_one, List.tail_cons]

theorem cut_eq_iff :
    s.takeWhile (· ≠ c) = a ∧ s.dropWhile (· ≠ c) = c :: t ↔ s = a ++ c :: t ∧ c ∉ a := by
  constructor
  · rintro ⟨rfl, ht⟩
    refine ⟨by rw [← ht, List.takeWhile_append_dropWhile], fun hc => ?_⟩
    simpa using List.mem_takeWhile_imp hc
  · rintro ⟨rfl, hc⟩
    exact ⟨takeWhile_ne_append hc t, dropWhile_ne_append hc t⟩

/-- The rest, if there is any, begins with the element that the list was cut at. -/
theorem head_dropWhile_ne {x : α} (h : s.dropWhile (· ≠ c) = x :: t) : x = c := by
  have hhead := List.head?_dropWhile_not (fun y => decide (y ≠ c)) s
  rw [h] at hhead
  simpa using hhead

end Cut
