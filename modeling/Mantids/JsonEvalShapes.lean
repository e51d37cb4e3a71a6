/-
# The texts that are compiled

What is true of the text of every expression, once its literals were put aside.

* `Atom.exists_cons`, `isPlace_placeText` — the pieces between two operators;
* `Operands.trimBytes_render` — there are no blanks around it;
* `Operands.plainByte_of_mem` — there are no quotes and no newlines in it;
* `Operands.noKeyword` — nor is `_SUBEXPR_`;
* `Operands.spaced` — nor are two blanks next to each other.

So none of the checks of `JSONEval::compile` stops it.
-/
import Mantids.JsonEvalLevels

namespace Mantids

namespace Expressions

open Occurrence

variable {order : List (List UInt8)}

/-! ## The pieces of a level -/

/-- The bytes that a call and a placeholder begin with. -/
theorem Atom.exists_cons (order : List (List UInt8)) (a : Atom) :
    ∃ c t, a.marked order = c :: t ∧ isspace c = false ∧ c ≠ 38 ∧ c ≠ 124 ∧ c ≠ 95 := by
  have hname : ∀ op : EvalOperator, op ≠ .undefined →
      (op.name.head?).any (fun c => 65 ≤ c && c ≤ 90) = true := by
    rintro (_ | _ | _ | _ | _ | _ | _) <;> decide
  obtain ⟨c, hc, hrange⟩ :=
    (Option.any_eq_true _ _).mp (hname _ a.call.evalOperator_ne)
  obtain ⟨t, ht⟩ : ∃ t, a.call.evalOperator.name = c :: t := by
    rcases hn : a.call.evalOperator.name with _ | ⟨d, t⟩
    · rw [hn] at hc
      simp at hc
    · rw [hn] at hc
      obtain rfl := Option.some.inj hc
      exact ⟨t, rfl⟩
  rw [Atom.marked_eq, Call.marked, ht]
  rcases a.negative with _ | _
  · rcases a.ignoreCase with _ | _
    · refine ⟨c, _, rfl, ?_, ?_, ?_, ?_⟩
      · rw [Bool.and_eq_true, decide_eq_true_eq, decide_eq_true_eq] at hrange
        have h48 : (48 : UInt8) ≤ 65 := by decide
        exact isspace_of_le (UInt8.le_trans h48 hrange.1)
      all_goals
        rintro rfl
        exact absurd hrange (by decide)
    · exact ⟨105, _, rfl, by decide, by decide, by decide, by decide⟩
  · exact ⟨33, _, rfl, by decide, by decide, by decide, by decide⟩

/-- There are no blanks in a call. -/
theorem Atom.isspace_of_mem_marked {a : Atom} : ∀ c ∈ a.marked order, isspace c = false := by
  intro c hc
  rw [Atom.marked_eq, List.mem_append, List.mem_append] at hc
  rcases hc with hc | hc | hc
  · split at hc
    · rw [List.mem_singleton.mp hc]
      decide
    · simp at hc
  · split at hc
    · rw [List.mem_singleton.mp hc]
      decide
    · simp at hc
  · exact Call.isspace_of_mem_marked c hc

/-- A call and a placeholder have none of the bytes that end a piece. -/
theorem isPlace_placeText (p : Atom ⊕ ℕ) : IsPlace (placeText order p) := by
  rcases p with a | pos
  · obtain ⟨c, t, hct, -, hamp, hbar, -⟩ := a.exists_cons order
    refine ⟨⟨c, t, hct, hamp, hbar⟩, fun hmem => ?_, fun hmem => ?_⟩
    · exact absurd (Atom.isspace_of_mem_marked 32 hmem) (by decide)
    · exact absurd (Atom.isspace_of_mem_marked 10 hmem) (by decide)
  · exact ⟨⟨95, _, rfl, by decide, by decide⟩, not_mem_placeholder (by decide) pos,
      not_mem_placeholder (by decide) pos⟩

/-! ## Shapes of whole texts -/

section Shapes

variable (f : List UInt8 → List UInt8)

mutual

/-- An operand does not begin with a blank. -/
theorem Operand.exists_cons : ∀ o : Operand,
    ∃ c t, render f o.pieces = c :: t ∧ isspace c = false
  | .atom a => by
    obtain ⟨c, t, hct, hspace, -⟩ := a.exists_cons []
    -- the name of the operator is in front of the first literal
    have hhead : ∃ t', a.head = c :: t' := by
      have hne : a.head ≠ [] := by
        obtain ⟨x, hx, -⟩ := a.getLast?_head
        rintro hnil
        rw [hnil] at hx
        simp at hx
      obtain ⟨d, t', hd⟩ := List.exists_cons_of_ne_nil hne
      rw [Atom.marked_eq_head, hd, List.cons_append] at hct
      exact ⟨t', by rw [hd, (List.cons.inj hct).1]⟩
    obtain ⟨t', ht'⟩ := hhead
    refine ⟨c, t' ++ [40] ++ render f (a.call.arguments ++ [.plain [41]]), ?_, hspace⟩
    rw [Operand.pieces, Atom.pieces, render_plain, ht']
    rfl
  | .group negative conj os => by
    rw [Operand.pieces, render_plain]
    rcases negative with _ | _
    · exact ⟨40, _, rfl, by decide⟩
    · exact ⟨33, _, rfl, by decide⟩

/-- Nor does a level. -/
theorem Operands.exists_cons (conj : Bool) : ∀ os : Operands,
    ∃ c t, render f (os.pieces conj) = c :: t ∧ isspace c = false
  | .last o => Operand.exists_cons o
  | .more o os => by
    obtain ⟨c, t, hct, hspace⟩ := Operand.exists_cons o
    exact ⟨c, _, by rw [Operands.pieces, render_append, hct, List.cons_append], hspace⟩

end

/-- An operand ends with a parenthesis. -/
theorem Operand.getLast?_render (o : Operand) : (render f o.pieces).getLast? = some 41 := by
  rcases o with a | ⟨negative, conj, os⟩
  · rw [Operand.pieces, Atom.pieces, render_plain, render_append, render_plain, render_nil,
      List.append_nil, ← List.append_assoc, List.getLast?_concat]
  · rw [Operand.pieces, render_plain, render_append, render_plain, render_nil, List.append_nil,
      ← List.append_assoc, List.getLast?_concat]

/-- So does a level. -/
theorem Operands.getLast?_render (conj : Bool) : ∀ os : Operands,
    (render f (os.pieces conj)).getLast? = some 41
  | .last o => o.getLast?_render f
  | .more o os => by
    rw [Operands.pieces, render_append, render_plain, ← List.append_assoc, List.getLast?_append,
      Operands.getLast?_render conj os]
    rfl

/-- **There is nothing to trim.** -/
theorem Operands.trimBytes_render (conj : Bool) (os : Operands) :
    trimBytes (render f (os.pieces conj)) = render f (os.pieces conj) := by
  apply trimBytes_eq_self
  · obtain ⟨c, t, hct, hspace⟩ := Operands.exists_cons f conj os
    rw [hct]
    rintro d ⟨⟩
    exact hspace
  · rw [os.getLast?_render]
    rintro d ⟨⟩
    decide

end Shapes

/-- What a compilation needs of the bytes of a text. -/
def PlainByte (c : UInt8) : Prop := c ≠ 34 ∧ c ≠ 10

theorem plainByte_of_mem_operator (conj : Bool) : ∀ c ∈ operator conj, PlainByte c := by
  intro c hc
  rw [operator_eq] at hc
  rcases conj with _ | _ <;> simp [operatorByte] at hc <;> rcases hc with rfl | rfl | rfl <;>
    exact ⟨by decide, by decide⟩

/-- The literals of a call are marks, so its quotes are gone. -/
theorem Atom.plainByte_of_mem_marked {a : Atom} : ∀ c ∈ a.marked order, PlainByte c := by
  intro c hc
  constructor
  · rintro rfl
    rw [Atom.marked_eq_head, List.mem_append, List.mem_cons, List.mem_append] at hc
    rcases hc with hc | hc | hc | hc
    · exact a.not_mem_head (by decide) (by decide) hc
    · exact absurd hc (by decide)
    · exact (Call.mem_markedArguments 34 hc).2 (by decide)
    · exact absurd (List.mem_singleton.mp hc) (by decide)
  · rintro rfl
    exact absurd (Atom.isspace_of_mem_marked 10 hc) (by decide)

mutual

theorem Operand.plainByte_of_mem : ∀ o : Operand, ∀ c ∈ o.marked order, PlainByte c
  | .atom _ => Atom.plainByte_of_mem_marked
  | .group negative conj os => by
    intro c hc
    rw [Operand.marked_group, groupText, List.mem_append, List.mem_cons, List.mem_append] at hc
    rcases hc with hc | rfl | hc | hc
    · split at hc
      · obtain rfl := List.mem_singleton.mp hc
        exact ⟨by decide, by decide⟩
      · simp at hc
    · exact ⟨by decide, by decide⟩
    · exact Operands.plainByte_of_mem conj os c hc
    · obtain rfl := List.mem_singleton.mp hc
      exact ⟨by decide, by decide⟩

/-- **No quotes and no newlines** in a level. -/
theorem Operands.plainByte_of_mem (conj : Bool) :
    ∀ os : Operands, ∀ c ∈ os.marked order conj, PlainByte c
  | .last o => Operand.plainByte_of_mem o
  | .more o os => by
    intro c hc
    rw [Operands.marked, Operands.pieces, render_append, render_plain, List.mem_append,
      List.mem_append] at hc
    rcases hc with hc | hc | hc
    · exact Operand.plainByte_of_mem o c hc
    · exact plainByte_of_mem_operator conj c hc
    · exact Operands.plainByte_of_mem conj os c hc

end

/-! ### No keyword -/

/-- A word does not occur across a byte that is not in it. -/
theorem not_occursAt_append_cons {word a b : List UInt8} {c : UInt8} (hword : word ≠ [])
    (hc : c ∉ word) (ha : ∀ p, ¬ OccursAt word a p) (hb : ∀ p, ¬ OccursAt word b p) :
    ∀ p, ¬ OccursAt word (a ++ c :: b) p := by
  intro p hp
  rcases Nat.lt_or_ge a.length p with hgt | hle
  · obtain ⟨q, rfl⟩ : ∃ q, p = (a ++ [c]).length + q :=
      ⟨p - (a.length + 1), by rw [List.length_append, List.length_singleton]; omega⟩
    rw [← List.singleton_append, ← List.append_assoc, occursAt_append_right] at hp
    exact hb q hp
  · by_cases hend : p + word.length ≤ a.length
    · exact ha p (hp.of_append hword hend)
    · -- the word has the byte in it
      obtain ⟨r, hr⟩ := hp
      apply hc
      have hbyte : (word ++ r)[a.length - p]? = some c := by
        rw [hr, List.getElem?_drop, Nat.add_sub_cancel' hle, List.getElem?_append_right le_rfl,
          Nat.sub_self]
        rfl
      rw [List.getElem?_append_left (by omega)] at hbyte
      exact List.mem_of_getElem? hbyte

/-- `_SUBEXPR_` is not in the text. -/
def NoKeyword (s : List UInt8) : Prop := ∀ p, ¬ OccursAt (bytesOf "_SUBEXPR_") s p

theorem keyword_ne_nil : bytesOf "_SUBEXPR_" ≠ [] := by decide

/-- A text without a `B` does not have the keyword in it. -/
theorem noKeyword_of_not_mem {s : List UInt8} (hs : 66 ∉ s) : NoKeyword s := by
  rintro p ⟨r, hr⟩
  apply hs
  apply List.mem_of_mem_drop (i := p)
  rw [← hr]
  exact List.mem_append_left r (by decide)

/-- The keyword does not reach over a byte that is not in it. -/
theorem NoKeyword.append_cons {a b : List UInt8} {c : UInt8} (hc : c ∉ bytesOf "_SUBEXPR_")
    (ha : NoKeyword a) (hb : NoKeyword b) : NoKeyword (a ++ c :: b) :=
  not_occursAt_append_cons keyword_ne_nil hc ha hb

/-- A path has no keyword by its type, and a number and a mark have no `B`. -/
theorem Side.noKeyword (s : Side) : NoKeyword (s.marked order) := by
  rcases s with p | n | t
  · have hpath := (not_contains_iff keyword_ne_nil).mp p.noKeyword
    rw [Side.marked_path, ← List.nil_append (36 :: p.bytes)]
    exact NoKeyword.append_cons (by decide) (noKeyword_of_not_mem (by simp)) hpath
  · apply noKeyword_of_not_mem
    intro hmem
    rw [Side.marked_number] at hmem
    exact absurd (n.digits.2 66 hmem) (by decide)
  · apply noKeyword_of_not_mem
    intro hmem
    rw [Side.marked_literal, staticMark, List.mem_append] at hmem
    rcases hmem with hmem | hmem
    · exact absurd hmem (by decide)
    · exact absurd (isdigit_of_mem_decimal _ 66 hmem) (by decide)

theorem Call.noKeyword (c : Call) : NoKeyword (c.markedArguments order) := by
  rcases c with ⟨op, left, right⟩ | side
  · rw [Call.markedArguments_compare]
    exact NoKeyword.append_cons (by decide) left.noKeyword right.noKeyword
  · exact side.noKeyword

/-- The names of the operators have no `B` either. -/
theorem Atom.noKeyword (a : Atom) : NoKeyword (a.marked order) := by
  have hname : ∀ op : EvalOperator, 66 ∉ op.name := by
    rintro (_ | _ | _ | _ | _ | _ | _) <;> decide
  have hhead : 66 ∉ a.head := by
    rw [Atom.head, List.mem_append, List.mem_append, not_or, not_or]
    refine ⟨?_, ?_, hname _⟩
    · rcases a.negative with _ | _ <;> decide
    · rcases a.ignoreCase with _ | _ <;> decide
  rw [Atom.marked_eq_head]
  apply NoKeyword.append_cons (by decide) (noKeyword_of_not_mem hhead)
  exact NoKeyword.append_cons (by decide) a.call.noKeyword (noKeyword_of_not_mem (by simp))

mutual

theorem Operand.noKeyword : ∀ o : Operand, NoKeyword (o.marked order)
  | .atom a => a.noKeyword
  | .group negative conj os => by
    rw [Operand.marked_group, groupText]
    apply NoKeyword.append_cons (by decide)
    · apply noKeyword_of_not_mem
      rcases negative with _ | _ <;> decide
    · exact NoKeyword.append_cons (by decide) (Operands.noKeyword conj os)
        (noKeyword_of_not_mem (by simp))

/-- **No keyword** in a level. -/
theorem Operands.noKeyword (conj : Bool) : ∀ os : Operands, NoKeyword (os.marked order conj)
  | .last o => Operand.noKeyword o
  | .more o os => by
    have htext : Operands.marked order conj (.more o os) = o.marked order ++
        32 :: ([operatorByte conj, operatorByte conj] ++ 32 :: os.marked order conj) := by
      simp [Operands.marked, Operands.pieces, Operand.marked, operator_eq]
    rw [htext]
    apply NoKeyword.append_cons (by decide) (Operand.noKeyword o)
    apply NoKeyword.append_cons (by decide) _ (Operands.noKeyword conj os)
    apply noKeyword_of_not_mem
    rcases conj with _ | _ <;> decide

end

/-! ### No double blanks -/

/-- No two blanks next to each other. -/
def Spaced (s : List UInt8) : Prop := List.IsChain (fun a b => ¬ (a = 32 ∧ b = 32)) s

theorem spaced_of_not_mem {s : List UInt8} (hs : 32 ∉ s) : Spaced s := by
  induction s with
  | nil => exact List.isChain_nil
  | cons c s ih =>
      rw [List.mem_cons, not_or] at hs
      rw [Spaced, List.isChain_cons]
      exact ⟨fun _ _ h => hs.1 h.1.symm, ih hs.2⟩

/-- A byte that is no blank separates. -/
theorem Spaced.append {s t : List UInt8} (hs : Spaced s) (ht : Spaced t)
    (h : s.getLast? ≠ some 32 ∨ t.head? ≠ some 32) : Spaced (s ++ t) := by
  rw [Spaced, List.isChain_append]
  refine ⟨hs, ht, ?_⟩
  rintro x hx y hy ⟨rfl, rfl⟩
  exact h.elim (fun hne => hne hx) (fun hne => hne hy)

/-- Then there are no two of them to be made one. -/
theorem Spaced.not_occursAt {s : List UInt8} (hs : Spaced s) (p : ℕ) : ¬ OccursAt [32, 32] s p := by
  rintro ⟨r, hr⟩
  have hdrop : Spaced (s.drop p) := List.IsChain.drop hs p
  rw [← hr] at hdrop
  exact (List.isChain_cons.mp hdrop).1 32 rfl ⟨rfl, rfl⟩

mutual

theorem Operand.spaced : ∀ o : Operand, Spaced (o.marked order)
  | .atom _ => spaced_of_not_mem
    (fun hmem => absurd (Atom.isspace_of_mem_marked 32 hmem) (by decide))
  | .group negative conj os => by
    rw [Operand.marked_group, groupText]
    apply Spaced.append
    · apply spaced_of_not_mem
      rcases negative with _ | _ <;> decide
    · rw [← List.singleton_append]
      apply Spaced.append (spaced_of_not_mem (by decide)) _ (Or.inl (by decide))
      exact (Operands.spaced conj os).append (spaced_of_not_mem (by decide)) (Or.inr (by decide))
    · exact Or.inr (by simp)

/-- **No double blanks** in a level: the ones around an operator are next to other bytes. -/
theorem Operands.spaced (conj : Bool) : ∀ os : Operands, Spaced (os.marked order conj)
  | .last o => Operand.spaced o
  | .more o os => by
    obtain ⟨c, t, hct, hspace⟩ := Operands.exists_cons (mark order) conj os
    have hhead : (os.marked order conj).head? ≠ some 32 := by
      rw [Operands.marked, hct]
      rintro ⟨⟩
      exact absurd hspace (by decide)
    have hlast : (o.marked order).getLast? ≠ some 32 := by
      rw [Operand.marked, o.getLast?_render]
      decide
    rw [Operands.marked, Operands.pieces, render_append, render_plain]
    apply Spaced.append (Operand.spaced o) _ (Or.inl hlast)
    apply Spaced.append _ (Operands.spaced conj os) (Or.inr hhead)
    rcases conj with _ | _ <;> rw [Spaced] <;> decide

end

end Expressions

end Mantids
