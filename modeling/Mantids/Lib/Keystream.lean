/-
# Streams that are made block by block

A source makes one block after the other.  Its reader keeps what is left of the blocks that were
made, and asks for another one when it needs more.

* `Buffer` — what is left, and the state of the source;
* `stream` — the items that a buffer and its source are going to give, however they are asked for;
* `stream_extend`, `stream_drop`, `take_eq_map_stream` — what asking and taking mean for them;
* `mask` — data combined with a stream, item by item.
-/
import Mathlib.Data.List.Basic
import Mathlib.Data.List.GetD
import Mathlib.Data.List.Infix
import Mathlib.Logic.Function.Iterate

namespace Keystream

variable {σ α β : Type*}

/-- What is left of the blocks that were made, and the state of the source. -/
structure Buffer (σ β : Type*) where
  rest : List β
  state : σ

namespace Buffer

variable (next : σ → List β × σ)

/-- One more block. -/
def extend (s : Buffer σ β) : Buffer σ β where
  rest := s.rest ++ (next s.state).1
  state := (next s.state).2

/-- The items that come, in their order.  A block is not empty, so that so many blocks suffice. -/
def stream [Inhabited β] (s : Buffer σ β) (i : ℕ) : β :=
  (((extend next)^[i + 1] s).rest).getD i default

/-- Some items are taken. -/
def drop (s : Buffer σ β) (n : ℕ) : Buffer σ β := { s with rest := s.rest.drop n }

variable {next}

theorem prefix_extend (s : Buffer σ β) (k : ℕ) : s.rest <+: ((extend next)^[k] s).rest := by
  induction k generalizing s with
  | zero => exact List.prefix_rfl
  | succ k ih =>
      rw [Function.iterate_succ_apply]
      exact (List.prefix_append _ _).trans (ih (s.extend next))

theorem le_length_extend (hne : ∀ x, (next x).1 ≠ []) (s : Buffer σ β) (k : ℕ) :
    s.rest.length + k ≤ ((extend next)^[k] s).rest.length := by
  induction k generalizing s with
  | zero => exact le_rfl
  | succ k ih =>
      rw [Function.iterate_succ_apply]
      have hpos := List.length_pos_iff.mpr (hne s.state)
      have hle := ih (s.extend next)
      rw [extend, List.length_append] at hle
      rw [extend]
      omega

variable [Inhabited β]

/-- The items do not depend on how many blocks are made. -/
theorem stream_eq (hne : ∀ x, (next x).1 ≠ []) (s : Buffer σ β) {k i : ℕ}
    (hi : i < ((extend next)^[k] s).rest.length) :
    s.stream next i = ((extend next)^[k] s).rest.getD i default := by
  have hlong : i < ((extend next)^[i + 1] s).rest.length := by
    have hle := le_length_extend hne s (i + 1)
    omega
  have hsame : ∀ {m n : ℕ}, m ≤ n → i < ((extend next)^[m] s).rest.length →
      ((extend next)^[n] s).rest.getD i default = ((extend next)^[m] s).rest.getD i default := by
    intro m n hmn hlt
    obtain ⟨j, rfl⟩ := Nat.exists_eq_add_of_le' hmn
    obtain ⟨r, hr⟩ := prefix_extend ((extend next)^[m] s) j
    rw [Function.iterate_add_apply, ← hr, List.getD_append _ _ _ _ hlt]
  rw [stream]
  rcases Nat.le_total k (i + 1) with hle | hle
  · exact hsame hle hi
  · exact (hsame hle hlong).symm

/-- Another block does not change the items. -/
theorem stream_extend (hne : ∀ x, (next x).1 ≠ []) (s : Buffer σ β) :
    (s.extend next).stream next = s.stream next := by
  funext i
  have hlong : i < ((extend next)^[i + 1] (s.extend next)).rest.length := by
    have hle := le_length_extend hne (s.extend next) (i + 1)
    omega
  rw [← Function.iterate_succ_apply] at hlong
  rw [stream_eq hne s hlong, Function.iterate_succ_apply, stream]

/-- Behind the items that are taken the others follow. -/
theorem stream_drop (hne : ∀ x, (next x).1 ≠ []) (s : Buffer σ β) {n : ℕ} (hn : n ≤ s.rest.length)
    (i : ℕ) : (s.drop n).stream next i = s.stream next (n + i) := by
  have hdrop : ∀ (k : ℕ) (s : Buffer σ β), n ≤ s.rest.length →
      (extend next)^[k] (s.drop n) = ((extend next)^[k] s).drop n := by
    intro k
    induction k with
    | zero => exact fun s _ => rfl
    | succ k ih =>
        intro s hn
        have hstep : (s.drop n).extend next = (s.extend next).drop n := by
          simp only [extend, drop, List.drop_append_of_le_length hn]
        have hle : n ≤ (s.extend next).rest.length := by
          rw [extend, List.length_append]
          omega
        rw [Function.iterate_succ_apply, hstep, ih _ hle, Function.iterate_succ_apply]
  have hlong : n + i < ((extend next)^[i + 1] s).rest.length := by
    have hle := le_length_extend hne s (i + 1)
    omega
  rw [stream_eq hne s hlong, stream, hdrop _ s hn, drop]
  simp only [List.getD_eq_getElem?_getD, List.getElem?_drop]

/-- What is left are the next items. -/
theorem getD_rest (hne : ∀ x, (next x).1 ≠ []) (s : Buffer σ β) {i : ℕ} (hi : i < s.rest.length) :
    s.rest.getD i default = s.stream next i :=
  (stream_eq (k := 0) hne s hi).symm

end Buffer

/-! ## Masks -/

/-- Data combined with a stream. -/
def mask (op : α → β → α) (f : ℕ → β) (data : List α) : List α :=
  data.mapIdx fun i a => op a (f i)

variable {op : α → β → α} {f : ℕ → β}

@[simp] theorem length_mask (data : List α) : (mask op f data).length = data.length :=
  List.length_mapIdx

theorem mask_append (data more : List α) :
    mask op f (data ++ more) = mask op f data ++ mask op (fun i => f (data.length + i)) more := by
  rw [mask, List.mapIdx_append]
  simp only [mask, Nat.add_comm]

theorem mask_take (data : List α) (n : ℕ) :
    (mask op f data).take n = mask op f (data.take n) := by
  apply List.ext_getElem?
  intro i
  by_cases hi : i < n
  · simp [mask, hi]
  · simp only [mask, List.getElem?_take, List.getElem?_mapIdx, if_neg hi, Option.map_none]

theorem mask_drop (data : List α) (n : ℕ) :
    (mask op f data).drop n = mask op (fun i => f (n + i)) (data.drop n) := by
  apply List.ext_getElem?
  intro i
  simp [mask, List.getElem?_drop]

/-- A mask that is put on twice is off again. -/
theorem mask_mask (hop : ∀ a b, op (op a b) b = a) (data : List α) :
    mask op f (mask op f data) = data := by
  apply List.ext_getElem?
  intro i
  simp [mask, Function.comp_def, hop]

/-- Items of a list as a mask. -/
theorem zipWith_eq_mask [Inhabited β] {data : List α} {rest : List β}
    (hlen : data.length ≤ rest.length) (hf : ∀ i < rest.length, rest.getD i default = f i) :
    List.zipWith op data rest = mask op f data := by
  apply List.ext_getElem
  · rw [List.length_zipWith, length_mask]
    exact Nat.min_eq_left hlen
  · intro i hi hi'
    rw [length_mask] at hi'
    have hlt : i < rest.length := by omega
    have hitem := hf i hlt
    rw [List.getD_eq_getElem _ _ hlt] at hitem
    simp [mask, hitem]

end Keystream
