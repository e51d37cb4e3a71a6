/-
# The sub-values of a header

A header value is a text and, behind semicolons, names with a quoted text for each.  What
`MIME_Sub_Header::parseSubValues` (`Protocol_MIME/mime_sub_header.cpp`) makes of it is what was
written, but for two things: a quoted text that is also found between two others makes one of the
two, and the mark of the second text is the beginning of the marks of the eleventh and the following
ones.

* `IsName`, `IsText`, `valueText` — a value as it is written;
* `order` — the different quoted texts, in the order in which they are put aside;
* `Crossed` — a text is found between two others when its turn comes;
* `TenthsAgree` — the texts from the eleventh on are the second one with a digit behind;
* `putBack_mark` — what is put back for a mark;
* `parseSubValues_iff` — the sub-values are read as they were written exactly if none is crossed,
  and the texts from the eleventh on are so.
-/
import Mantids.Lib.Cut
import Mantids.MimeMessage
import Mantids.MimeStaticTexts

namespace Mantids

open Occurrence Expressions

namespace MimeHeaderOption

/-- `getSubVars`. -/
def getSubVars (opt : MimeHeaderOption) (subVarName : List UInt8) : List (List UInt8) :=
  (opt.subVar.filter fun v => v.1 = subVarName).map (·.2)

end MimeHeaderOption

namespace SubValues

/-! ## Values -/

/-- A printable text of seven bits. -/
def Printable (s : List UInt8) : Prop := ∀ c ∈ s, 32 ≤ c ∧ c ≤ 126

instance (s : List UInt8) : Decidable (Printable s) :=
  List.decidableBAll (fun c => 32 ≤ c ∧ c ≤ 126) s

/-- A value or a name. -/
structure IsName (s : List UInt8) : Prop where
  ne_nil : s ≠ []
  printable : Printable s
  plain : 34 ∉ s ∧ 59 ∉ s ∧ 61 ∉ s
  trimmed : Trimmed s

/-- A text that can be quoted. -/
structure IsText (s : List UInt8) : Prop where
  printable : Printable s
  quoteless : 34 ∉ s

abbrev Vars := List (List UInt8 × List UInt8)

/-- What stands in front of the quoted text of a name. -/
def gap (name : List UInt8) : List UInt8 := [59, 32] ++ name ++ [61]

/-- The value with its sub-values. -/
def valueText (value : List UInt8) (vars : Vars) : List UInt8 :=
  value ++ vars.flatMap fun v => gap v.1 ++ quote v.2

def pieces (value : List UInt8) (vars : Vars) : List Piece :=
  .plain value :: vars.flatMap fun v => [.plain (gap v.1), .literal v.2]

/-- The different texts, in the order in which they are put aside. -/
def order (vars : Vars) : List (List UInt8) := (vars.map (·.2)).eraseDups

/-- When its turn comes, a text is found between two neighbours that are still there. -/
def Crossed (vars : Vars) : Prop :=
  ∃ acc text rest before u w after, order vars = acc ++ text :: rest ∧
    vars = before ++ u :: w :: after ∧ text = gap w.1 ∧ u.2 ∉ acc ++ [text] ∧ w.2 ∉ acc

/-- The texts from the eleventh on are the second one, with the digit behind that their mark has. -/
def TenthsAgree (texts : List (List UInt8)) : Prop :=
  ∀ p text, 10 ≤ p → texts[p]? = some text →
    ∃ second, texts[1]? = some second ∧ text = second ++ [UInt8.ofNat (48 + (p - 10))]

/-- The option has the value, and the sub-values are it and the variables. -/
def ReadAs (opt : MimeHeaderOption) (value : List UInt8) (vars : Vars) : Prop :=
  opt.value = value ∧ ∀ subVarName, opt.getSubVars subVarName =
    (((value, []) :: vars).filter fun v => v.1 = subVarName).map (·.2)

/-! ## The pieces of a value -/

variable {value : List UInt8} {vars : Vars}

theorem IsName.gap {name : List UInt8} (h : IsName name) : 34 ∉ gap name := by
  simp [SubValues.gap, h.plain.1]

theorem render_pieces (f : List UInt8 → List UInt8) (value : List UInt8) (vars : Vars) :
    render f (pieces value vars) = value ++ vars.flatMap fun v => gap v.1 ++ f v.2 := by
  rw [pieces, render_plain]
  congr 1
  induction vars with
  | nil => rfl
  | cons v vars ih =>
      rw [List.flatMap_cons, List.flatMap_cons, render_append, ih]
      simp

theorem literals_pieces (value : List UInt8) (vars : Vars) :
    literals (pieces value vars) = vars.map (·.2) := by
  rw [pieces, literals]
  induction vars with
  | nil => rfl
  | cons v vars ih => simpa [literals] using ih

theorem literalOrder_pieces (value : List UInt8) (vars : Vars) :
    literalOrder (pieces value vars) = order vars := by
  rw [literalOrder, literals_pieces, order]

theorem quoteless_pieces (hvalue : IsName value) (hvars : ∀ v ∈ vars, IsName v.1 ∧ IsText v.2) :
    Quoteless (pieces value vars) := by
  rw [pieces, quoteless_plain]
  refine ⟨hvalue.plain.1, ?_⟩
  induction vars with
  | nil => exact quoteless_nil
  | cons v vars ih =>
      rw [List.forall_mem_cons] at hvars
      rw [List.flatMap_cons, quoteless_append, quoteless_plain, quoteless_literal]
      exact ⟨⟨hvars.1.1.gap, hvars.1.2.quoteless, quoteless_nil⟩, ih hvars.2⟩

/-! ### The text between two others -/

/-- Two neighbours in a list: the first two, or two behind. -/
theorem exists_neighbours_cons {α : Type*} (P : α → α → Prop) (v : α) (vs : List α) :
    (∃ before u w after, v :: vs = before ++ u :: w :: after ∧ P u w) ↔
      (∃ w after, vs = w :: after ∧ P v w) ∨
        ∃ before u w after, vs = before ++ u :: w :: after ∧ P u w := by
  constructor
  · rintro ⟨before, u, w, after, heq, h⟩
    rcases before with _ | ⟨b, before⟩
    · obtain ⟨rfl, rfl⟩ := List.cons.inj heq
      exact Or.inl ⟨w, after, rfl, h⟩
    · obtain ⟨rfl, rfl⟩ := List.cons.inj heq
      exact Or.inr ⟨before, u, w, after, rfl, h⟩
  · rintro (⟨w, after, rfl, h⟩ | ⟨before, u, w, after, rfl, h⟩)
    · exact ⟨[], v, w, after, rfl, h⟩
    · exact ⟨v :: before, u, w, after, rfl, h⟩

section Between

variable {mark : ℕ → List UInt8} {tag : List UInt8} (hmark : ∀ pos, tag <:+: mark pos)
  {text : List UInt8} (htext : ¬ tag <:+: text)

theorem asideBy_cons (acc : List (List UInt8)) (v : List UInt8 × List UInt8) (vars : Vars) :
    asideBy mark acc ((v :: vars).flatMap fun v => [.plain (gap v.1), .literal v.2]) =
      .plain (gap v.1) ::
        (if v.2 ∈ acc then .plain (mark (acc.idxOf v.2)) else .literal v.2) ::
          asideBy mark acc (vars.flatMap fun v => [.plain (gap v.1), .literal v.2]) := by
  rw [List.flatMap_cons, asideBy, List.map_append]
  rfl

include hmark htext

/-- Up to the next text that is left there are only the semicolon and the name, or a mark. -/
theorem nextGap_aside_iff (acc : List (List UInt8)) (vars : Vars) :
    nextGap (asideBy mark acc (vars.flatMap fun v => [.plain (gap v.1), .literal v.2]))
        = some text ↔
      ∃ w after, vars = w :: after ∧ text = gap w.1 ∧ w.2 ∉ acc := by
  rcases vars with _ | ⟨w, after⟩
  · simp [asideBy, nextGap]
  · rw [asideBy_cons]
    by_cases hw : w.2 ∈ acc
    · rw [if_pos hw, nextGap, nextGap, Option.map_map]
      constructor
      · intro h
        obtain ⟨g, -, rfl⟩ := Option.map_eq_some_iff.mp h
        -- the text would have the tag in it
        exact absurd ((hmark (acc.idxOf w.2)).trans ⟨gap w.1, g, by simp⟩) htext
      · rintro ⟨w', after', heq, -, hw'⟩
        obtain ⟨rfl, -⟩ := List.cons.inj heq
        exact absurd hw hw'
    · rw [if_neg hw, nextGap, nextGap, Option.map_some, List.append_nil, Option.some.injEq]
      constructor
      · rintro rfl
        exact ⟨w, after, rfl, rfl, hw⟩
      · rintro ⟨w', after', heq, htext', -⟩
        obtain ⟨rfl, -⟩ := List.cons.inj heq
        exact htext'.symm

/-- A text is apart when its turn comes exactly if it is not found between two neighbours. -/
theorem apart_aside_iff (acc : List (List UInt8)) (value : List UInt8) (vars : Vars) :
    Apart text (asideBy mark acc (pieces value vars)) ↔
      ¬ ∃ before u w after, vars = before ++ u :: w :: after ∧ text = gap w.1 ∧
        u.2 ∉ acc ++ [text] ∧ w.2 ∉ acc := by
  rw [pieces, asideBy, List.map_cons, ← asideBy, Apart]
  induction vars with
  | nil => simp [asideBy, Apart]
  | cons v vars ih =>
      have hnext := nextGap_aside_iff hmark htext acc vars
      rw [exists_neighbours_cons (fun u w : List UInt8 × List UInt8 =>
          text = gap w.1 ∧ u.2 ∉ acc ++ [text] ∧ w.2 ∉ acc), not_or, asideBy_cons, Apart, ← ih]
      by_cases hv : v.2 ∈ acc
      · rw [if_pos hv, Apart]
        simp [hv]
      · rw [if_neg hv, Apart, ne_eq, ne_eq, hnext]
        apply and_congr_left
        intro _
        constructor
        · rintro h ⟨w, after, heq, hgap, hv', hw⟩
          exact h (fun hsame => hv' (by simp [hsame])) ⟨w, after, heq, hgap, hw⟩
        · rintro h hsame ⟨w, after, heq, hgap, hw⟩
          exact h ⟨w, after, heq, hgap, by simp [hv, hsame], hw⟩

end Between

/-! ## What is put back -/

section PutBack

open MimeHeaderOption

variable {tag : List UInt8} (htag : tag.length = 16)

include htag

theorem staticMessage_eq (pos : ℕ) :
    staticMessage tag pos = bytesOf "_STATIC_" ++ (tag ++ [95]) ++ (decimal pos).take 102 := by
  have hhead : (bytesOf "_STATIC_" ++ tag ++ [95]).length = 25 := by
    rw [List.length_append, List.length_append, htag]
    rfl
  rw [staticMessage, List.take_append, hhead, List.take_of_length_le (by omega)]
  simp [List.append_assoc]

theorem tag_isInfix_staticMessage (pos : ℕ) : tag ++ [95] <:+: staticMessage tag pos := by
  rw [staticMessage_eq htag]
  exact ⟨bytesOf "_STATIC_", (decimal pos).take 102, rfl⟩

theorem staticMessage_ne_nil (pos : ℕ) : staticMessage tag pos ≠ [] := by
  rw [staticMessage_eq htag]
  exact List.append_ne_nil_of_left_ne_nil (List.append_ne_nil_of_left_ne_nil (by decide) _) _

/-- In a text without the tag there is no mark, nor is there with one more byte behind. -/
theorem not_occursAt_staticMessage {s d : List UInt8} (hs : ¬ tag <:+: s) (hd : d.length ≤ 1)
    (pos q : ℕ) : ¬ OccursAt (staticMessage tag pos) (s ++ d) q := by
  intro hoc
  have hinfix : tag ++ [95] <:+: s ++ d :=
    (tag_isInfix_staticMessage htag pos).trans (hoc.isInfix.trans (List.drop_suffix _ _).isInfix)
  rcases d with _ | ⟨c, d⟩
  · rw [List.append_nil] at hinfix
    exact hs ((List.prefix_append _ _).isInfix.trans hinfix)
  · obtain rfl : d = [] := by
      rw [List.length_cons] at hd
      exact List.length_eq_zero_iff.mp (by omega)
    rcases List.infix_concat_iff.mp hinfix with hsuffix | hinfix
    · rcases List.suffix_concat_iff.mp hsuffix with hnil | ⟨t, ht, hsuffix⟩
      · exact absurd hnil (by simp)
      · obtain ⟨rfl, -⟩ := List.append_inj' ht rfl
        exact hs hsuffix.isInfix
    · exact hs ((List.prefix_append _ _).isInfix.trans hinfix)

/-- Marks are put back in turn; where none of them is, nothing changes. -/
theorem foldl_replaceAll_of_not_occursAt {s : List UInt8} (texts : List (List UInt8 × ℕ))
    (h : ∀ text ∈ texts, ∀ q, ¬ OccursAt (staticMessage tag text.2) s q) :
    texts.foldl (fun s text => replaceAll (staticMessage tag text.2) text.1 s) s = s := by
  induction texts with
  | nil => rfl
  | cons text texts ih =>
      rw [List.forall_mem_cons] at h
      rw [List.foldl_cons, replaceAll, replaceAllFrom_of_not_occursAt
        (staticMessage_ne_nil htag _) _
        (fun q _ => by rw [List.append_nil]; exact h.1 q)]
      exact ih h.2

theorem putStaticTexts_of_not_tag {s : List UInt8} (hs : ¬ tag <:+: s)
    (texts : List (List UInt8)) : putStaticTexts tag texts s = s := by
  apply foldl_replaceAll_of_not_occursAt htag
  intro text _ q
  have hnone := not_occursAt_staticMessage htag (d := []) hs (Nat.zero_le 1) text.2 q
  rwa [List.append_nil] at hnone

/-- The mark of a number with two digits at most. -/
theorem staticMessage_of_lt {p : ℕ} (hp : p < 15) :
    staticMessage tag p = bytesOf "_STATIC_" ++ (tag ++ [95]) ++ decimal p := by
  have hdigits : ∀ p < 15, (decimal p).length ≤ 102 := by decide
  rw [staticMessage_eq htag, List.take_of_length_le (hdigits p hp)]

/-- In the mark of a number that of another one is found only in front. -/
theorem occursAt_staticMessage_iff {i p : ℕ} (hi : i < 15) (hp : p < 15) (q : ℕ) :
    OccursAt (staticMessage tag i) (staticMessage tag p) q ↔ q = 0 ∧ (i = p ∨ i = 1 ∧ 10 ≤ p) := by
  have hdecimal : ∀ p < 15, ∀ i < 15, decimal i <+: decimal p ↔ i = p ∨ i = 1 ∧ 10 ≤ p := by
    decide
  have hdigits : ∀ p < 15, 1 ≤ (decimal p).length ∧ (decimal p).length ≤ 2 := by decide
  constructor
  · intro hoc
    have hle := OccursAt.add_length_le (staticMessage_ne_nil htag i) hoc
    rw [staticMessage_of_lt htag hi, staticMessage_of_lt htag hp] at hle
    simp only [List.length_append] at hle
    have hlong := hdigits p hp
    have hshort := hdigits i hi
    obtain rfl | rfl : q = 0 ∨ q = 1 := by omega
    · rw [OccursAt, List.drop_zero, staticMessage_of_lt htag hi, staticMessage_of_lt htag hp,
        List.prefix_append_right_inj] at hoc
      exact ⟨rfl, (hdecimal p hp i hi).mp hoc⟩
    · -- a mark begins with an underscore, and that is not its second byte
      obtain ⟨r, hr⟩ := hoc
      rw [staticMessage_of_lt htag hi, staticMessage_of_lt htag hp] at hr
      have hhead := congrArg List.head? hr
      simp [bytesOf, String.utf8EncodeChar] at hhead
  · rintro ⟨rfl, h⟩
    rw [OccursAt, List.drop_zero, staticMessage_of_lt htag hi, staticMessage_of_lt htag hp,
      List.prefix_append_right_inj]
    exact (hdecimal p hp i hi).mpr h

/-- **What is put back for a mark.**  From the eleventh on the second text is put back for a part of
it. -/
theorem putBack_mark {texts : List (List UInt8)} (htexts : ∀ text ∈ texts, ¬ tag <:+: text)
    (hcount : texts.length ≤ 15) {p i : ℕ} (hp : p < texts.length)
    (hi : i = if p < 10 then p else 1) {text : List UInt8} (htext : texts[i]? = some text) :
    putStaticTexts tag texts (staticMessage tag p) =
      text ++ if p < 10 then [] else [UInt8.ofNat (48 + (p - 10))] := by
  obtain ⟨digit, hdigit⟩ : ∃ digit, digit = if p < 10 then [] else [UInt8.ofNat (48 + (p - 10))] :=
    ⟨_, rfl⟩
  have hlen : digit.length ≤ 1 := by
    rw [hdigit]
    split <;> simp
  -- the mark is that of the number `i` and the digit
  have hmark : staticMessage tag p = staticMessage tag i ++ digit := by
    have hdecimal : ∀ p < 15, decimal p =
        decimal (if p < 10 then p else 1) ++
          if p < 10 then [] else [UInt8.ofNat (48 + (p - 10))] := by decide
    have hi' : i < 15 := by
      rw [hi]
      split <;> omega
    rw [staticMessage_of_lt htag (show p < 15 by omega), staticMessage_of_lt htag hi', hi, hdigit,
      List.append_assoc _ (decimal _), ← hdecimal p (by omega)]
  have hi' : i < texts.length := (List.getElem?_eq_some_iff.mp htext).1
  obtain ⟨before, after, rfl, rfl⟩ : ∃ before after, texts = before ++ text :: after ∧
    before.length = i := by
    obtain ⟨hlt, hget⟩ := List.getElem?_eq_some_iff.mp htext
    refine ⟨texts.take i, texts.drop (i + 1), ?_, by rw [List.length_take]; omega⟩
    rw [← hget, List.getElem_cons_drop, List.take_append_drop]
  have hbefore : ∀ other ∈ before.zipIdx, ∀ q,
      ¬ OccursAt (staticMessage tag other.2) (staticMessage tag p) q := by
    intro other hother q hoc
    have hlt := List.snd_lt_of_mem_zipIdx hother
    rw [List.length_append, List.length_cons] at hcount hp
    obtain ⟨-, hfront⟩ := (occursAt_staticMessage_iff htag (by omega) (by omega) q).mp hoc
    split at hi <;> omega
  have htagless : ¬ tag <:+: text := htexts text (by simp)
  have hafter : ∀ other ∈ after.zipIdx (before.length + 1), ∀ q,
      ¬ OccursAt (staticMessage tag other.2) (text ++ digit) q :=
    fun other _ q => not_occursAt_staticMessage htag htagless hlen other.2 q
  have hreplaced : replaceAll (staticMessage tag before.length) text (staticMessage tag p) =
      text ++ digit := by
    have hne := staticMessage_ne_nil htag before.length
    have hempty : ¬ tag <:+: [] := by
      intro h
      rw [List.infix_nil.mp h] at htag
      cases htag
    obtain ⟨k, hk⟩ : ∃ k, (staticMessage tag p).length = k + 1 := by
      refine ⟨(staticMessage tag p).length - 1, ?_⟩
      have hpos := List.length_pos_iff.mpr (staticMessage_ne_nil htag p)
      omega
    rw [replaceAll, hk, hmark, replaceAllFrom_hit hne,
      replaceAllFrom_of_not_occursAt hne k (fun q _ => by
        rw [List.append_nil]
        exact not_occursAt_staticMessage htag (s := []) hempty hlen before.length q)]
  rw [putStaticTexts, List.zipIdx_append, List.zipIdx_cons, List.foldl_append, List.foldl_cons,
    foldl_replaceAll_of_not_occursAt htag _ hbefore]
  show (after.zipIdx (0 + before.length + 1)).foldl _
    (replaceAll (staticMessage tag (0 + before.length)) text _) = _
  rw [Nat.zero_add, hreplaced, foldl_replaceAll_of_not_occursAt htag _ hafter, hdigit]

end PutBack

/-! ## Adding sub-values -/

section Adding

open MimeHeaderOption

variable {opt : MimeHeaderOption}

/-- Sub-values are added one after the other. -/
def addAll (opt : MimeHeaderOption) (vars : Vars) : MimeHeaderOption :=
  vars.foldl (fun opt v => opt.addSubVar v.1 v.2) opt

/-- What they count for. -/
def size (vars : Vars) : ℕ := (vars.map fun v => v.1.length + v.2.length).sum

theorem addSubVar_setValue (opt : MimeHeaderOption) (value varName varValue : List UInt8) :
    (opt.setValue value).addSubVar varName varValue =
      (opt.addSubVar varName varValue).setValue value := by
  unfold addSubVar setValue
  split_ifs <;> rfl

theorem addAll_setValue (opt : MimeHeaderOption) (value : List UInt8) (vars : Vars) :
    addAll (opt.setValue value) vars = (addAll opt vars).setValue value := by
  induction vars generalizing opt with
  | nil => rfl
  | cons v vars ih =>
      rw [addAll, List.foldl_cons, addSubVar_setValue, ← addAll, ih]
      rfl

theorem isPermited_of_printable {s : List UInt8} (hs : Printable s) :
    isPermited7bitCharset s = true := by
  rw [isPermited7bitCharset, List.all_eq_true]
  intro c hc
  simpa using hs c hc

theorem addSubVar_of_fits (opt : MimeHeaderOption) {varName varValue : List UInt8}
    (hne : varName ≠ [])
    (hname : Printable varName) (hvalue : Printable varValue)
    (hcount : opt.subVar.length < opt.maxSubOptionsCount)
    (hsize : varName.length + varValue.length + opt.curHeaderOptSize ≤ opt.maxHeaderOptSize) :
    opt.addSubVar varName varValue =
      { opt with
        curHeaderOptSize := opt.curHeaderOptSize + (varName.length + varValue.length)
        subVar := opt.subVar ++ [(varName, varValue)] } := by
  rw [addSubVar, if_neg (by simp [hne]), if_neg (by omega), if_neg (by omega),
    if_neg (by simp [isPermited_of_printable hname]),
      if_neg (by simp [isPermited_of_printable hvalue])]

/-- Where all of them fit, all are added. -/
theorem addAll_of_fits (opt : MimeHeaderOption) {vars : Vars}
    (hvars : ∀ v ∈ vars, v.1 ≠ [] ∧ Printable v.1 ∧ Printable v.2)
    (hcount : opt.subVar.length + vars.length ≤ opt.maxSubOptionsCount)
    (hsize : size vars + opt.curHeaderOptSize ≤ opt.maxHeaderOptSize) :
    (addAll opt vars).subVar = opt.subVar ++ vars := by
  induction vars generalizing opt with
  | nil => exact (List.append_nil _).symm
  | cons v vars ih =>
      rw [List.forall_mem_cons] at hvars
      rw [List.length_cons] at hcount
      rw [size, List.map_cons, List.sum_cons, ← size] at hsize
      have hadd := addSubVar_of_fits opt hvars.1.1 hvars.1.2.1 hvars.1.2.2 (by omega) (by omega)
      rw [addAll, List.foldl_cons, ← addAll, hadd, ih _ hvars.2]
      · rw [List.append_assoc, List.singleton_append]
      · dsimp only
        rw [List.length_append, List.length_singleton]
        omega
      · dsimp only
        omega

/-- What is added are some of them, in their order. -/
theorem exists_addAll (opt : MimeHeaderOption) (vars : Vars) :
    ∃ added, added.Sublist vars ∧ (addAll opt vars).subVar = opt.subVar ++ added := by
  induction vars generalizing opt with
  | nil => exact ⟨[], List.Sublist.refl _, (List.append_nil _).symm⟩
  | cons v vars ih =>
      obtain ⟨added, hsub, heq⟩ := ih (opt.addSubVar v.1 v.2)
      have hcases : (opt.addSubVar v.1 v.2).subVar = opt.subVar ∨
          (opt.addSubVar v.1 v.2).subVar = opt.subVar ++ [v] := by
        unfold addSubVar
        split_ifs
        · exact Or.inl rfl
        · exact Or.inl rfl
        · exact Or.inl rfl
        · exact Or.inl rfl
        · exact Or.inl rfl
        · exact Or.inr rfl
      rw [addAll, List.foldl_cons, ← addAll]
      rcases hcases with hnone | hone
      · exact ⟨added, hsub.cons v, by rw [heq, hnone]⟩
      · exact ⟨v :: added, hsub.cons_cons v, by rw [heq, hone, List.append_assoc]; rfl⟩

theorem length_addSubVar_le (opt : MimeHeaderOption) (varName varValue : List UInt8) :
    (opt.addSubVar varName varValue).subVar.length ≤ opt.subVar.length + 1 := by
  obtain ⟨added, hsub, heq⟩ := exists_addAll opt [(varName, varValue)]
  have hone := hsub.length_le
  rw [show opt.addSubVar varName varValue = addAll opt [(varName, varValue)] from rfl, heq,
    List.length_append]
  exact Nat.add_le_add_left hone _

/-- A part adds one sub-value at most. -/
theorem length_addPart_le (putBack : List UInt8 → List UInt8) (opt : MimeHeaderOption)
    (part : List UInt8) : (addPart putBack opt part).subVar.length ≤ opt.subVar.length + 1 := by
  unfold addPart
  split
  · exact length_addSubVar_le opt _ _
  · exact length_addSubVar_le opt _ _

theorem length_foldl_addPart_le (putBack : List UInt8 → List UInt8) (parts : List (List UInt8))
    (opt : MimeHeaderOption) :
    (parts.foldl (addPart putBack) opt).subVar.length ≤ opt.subVar.length + parts.length := by
  induction parts generalizing opt with
  | nil => exact le_refl _
  | cons part parts ih =>
      have hpart := length_addPart_le putBack opt part
      have hrest := ih (addPart putBack opt part)
      rw [List.foldl_cons, List.length_cons]
      omega

end Adding

/-! ## Reading a value -/

section Reading

open MimeHeaderOption

variable {tag name : List UInt8} (htag : tag.length = 16) (halnum : ∀ c ∈ tag, isalnum c = true)
  (hvalue : IsName value) (hvars : ∀ v ∈ vars, IsName v.1 ∧ IsText v.2)

theorem valueText_eq (value : List UInt8) (vars : Vars) :
    valueText value vars = render quote (pieces value vars) := by
  rw [render_pieces, valueText]

/-- An option is read from the parts that its text is cut into. -/
theorem parseSubValues_eq {opt : MimeHeaderOption} {strName s part : List UInt8}
    {texts vValues : List (List UInt8)}
    (htake : takeStaticTexts tag (trimBytes strName).length [] (trimBytes strName) = (texts, s))
    (hsplit : splitCompress (· = 59) s = part :: vValues) :
    opt.parseSubValues tag strName =
      vValues.foldl (addPart (putStaticTexts tag texts))
        ((addPart (putStaticTexts tag texts) { opt with origValue := strName } part).setValue
          (putStaticTexts tag texts (trimBytes part))) := by
  unfold parseSubValues
  simp only [htake, hsplit]

/-- There is nothing to trim. -/
theorem trimBytes_valueText (hvalue : IsName value) (vars : Vars) :
    trimBytes (valueText value vars) = valueText value vars := by
  obtain ⟨hhead, hlast⟩ := hvalue.trimmed.ends
  apply trimBytes_eq_self
  · intro c hc
    apply hhead c
    obtain ⟨x, rest, rfl⟩ := List.exists_cons_of_ne_nil hvalue.ne_nil
    exact hc
  · intro c hc
    rcases List.eq_nil_or_concat vars with rfl | ⟨vars, v, rfl⟩
    · apply hlast c
      simpa [valueText] using hc
    · -- the last byte is a quote
      have hquote : (valueText value (vars.concat v)).getLast? = some 34 := by
        have hend : valueText value (vars.concat v) =
            valueText value vars ++ (gap v.1 ++ 34 :: v.2) ++ [34] := by
          simp [valueText, quote]
        rw [hend, List.getLast?_concat]
      rw [hquote, Option.mem_some_iff] at hc
      subst hc
      decide

/-- Nor is there at a mark. -/
theorem trimBytes_staticMessage (halnum : ∀ c ∈ tag, isalnum c = true) (pos : ℕ) :
    trimBytes (staticMessage tag pos) = staticMessage tag pos := by
  have hspace : ∀ c ∈ staticMessage tag pos, isspace c = false := by
    intro c hc
    apply isspace_of_le
    rcases mem_staticMessage halnum pos c hc with h | rfl
    · simp only [isalnum, isalpha] at h
      grind
    · decide
  exact trimBytes_eq_self (fun c hc => hspace c (List.mem_of_head? hc))
    (fun c hc => hspace c (List.mem_of_getLast? hc))

/-- A sub-value as it is cut out, with the mark in the place of its text. -/
theorem addPart_marked {opt : MimeHeaderOption} (halnum : ∀ c ∈ tag, isalnum c = true)
    {name : List UInt8} (hname : IsName name) (putBack : List UInt8 → List UInt8) (pos : ℕ) :
    addPart putBack opt ([32] ++ name ++ [61] ++ staticMessage tag pos) =
      opt.addSubVar (putBack name) (putBack (staticMessage tag pos)) := by
  have hfree : (61 : UInt8) ∉ 32 :: name :=
    List.not_mem_cons_of_ne_of_not_mem (by decide) hname.plain.2.2
  have hpart : [32] ++ name ++ [61] ++ staticMessage tag pos =
      (32 :: name) ++ 61 :: staticMessage tag pos := by simp
  rw [hpart, addPart, if_pos (by simp), Cut.takeWhile_ne_append hfree,
    Cut.drop_dropWhile_ne_append hfree, trimBytes_cons (by decide), trimBytes_staticMessage halnum]
  rw [show trimBytes name = name from hname.trimmed]

/-- What is read for a text: what is put back for its mark. -/
def readText (tag : List UInt8) (texts : List (List UInt8)) (text : List UInt8) : List UInt8 :=
  putStaticTexts tag texts (staticMessage tag (texts.idxOf text))

theorem length_le_valueText (value : List UInt8) (vars : Vars) :
    vars.length ≤ (valueText value vars).length := by
  induction vars with
  | nil => exact Nat.zero_le _
  | cons v vars ih =>
      rw [valueText, List.length_append] at ih ⊢
      rw [List.flatMap_cons, List.length_append, List.length_append, length_quote, List.length_cons]
      omega

/-- The marked value is cut at the semicolons in front of the names. -/
theorem splitCompress_marked (texts : List (List UInt8)) (hvalue : IsName value)
    (hvars : ∀ v ∈ vars, IsName v.1 ∧ IsText v.2) (halnum : ∀ c ∈ tag, isalnum c = true) :
    splitCompress (· = 59)
        (value ++ vars.flatMap fun v => gap v.1 ++ staticMessage tag (texts.idxOf v.2)) =
      value :: vars.map fun v => [32] ++ v.1 ++ [61] ++ staticMessage tag (texts.idxOf v.2) := by
  have hjoined : (vars.flatMap fun v => gap v.1 ++ staticMessage tag (texts.idxOf v.2)) =
      joined (vars.map fun v =>
        (59, [32] ++ v.1 ++ [61] ++ staticMessage tag (texts.idxOf v.2))) := by
    simp [joined, gap, List.flatMap_map]
  have hclean : ∀ pos, 59 ∉ staticMessage tag pos := fun pos => (clean_staticMessage halnum pos).2
  have hne : ∀ part ∈ (vars.map fun v =>
      [32] ++ v.1 ++ [61] ++ staticMessage tag (texts.idxOf v.2)), part ≠ [] := by
    intro part hpart
    obtain ⟨v, -, rfl⟩ := List.mem_map.mp hpart
    simp
  rw [hjoined, splitCompress_join]
  · rw [List.map_map]
    congr 1
    exact List.filter_eq_self.mpr (by simpa using hne)
  · intro c hc
    simpa using fun h : c = 59 => hvalue.plain.2.1 (h ▸ hc)
  · intro u hu
    obtain ⟨v, hv, rfl⟩ := List.mem_map.mp hu
    refine ⟨rfl, fun c hc => ?_⟩
    have hname := (hvars v hv).1.plain.2.1
    simp only [decide_eq_false_iff_not]
    rintro rfl
    simp [hname, hclean] at hc
  · intro u hu
    obtain ⟨v, -, rfl⟩ := List.mem_map.mp (List.mem_of_getLast? hu)
    simp

/-- The parts behind the first one are added as they stand. -/
theorem foldl_addPart_marked {texts : List (List UInt8)} (htag : tag.length = 16)
    (halnum : ∀ c ∈ tag, isalnum c = true)
    (hvars : ∀ v ∈ vars, IsName v.1 ∧ ¬ tag <:+: v.1) (opt : MimeHeaderOption) :
    (vars.map fun v => [32] ++ v.1 ++ [61] ++ staticMessage tag (texts.idxOf v.2)).foldl
        (addPart (putStaticTexts tag texts)) opt =
      addAll opt (vars.map fun v => (v.1, readText tag texts v.2)) := by
  induction vars generalizing opt with
  | nil => rfl
  | cons v vars ih =>
      rw [List.forall_mem_cons] at hvars
      rw [List.map_cons, List.map_cons, List.foldl_cons, addPart_marked halnum hvars.1.1,
        putStaticTexts_of_not_tag htag hvars.1.2, ih hvars.2]
      rfl

section Apart

variable (htag : tag.length = 16) (halnum : ∀ c ∈ tag, isalnum c = true) (hvalue : IsName value)
  (hvars : ∀ v ∈ vars, IsName v.1 ∧ IsText v.2) (hfresh : ¬ tag <:+: valueText value vars)

include hfresh in
theorem not_tag_of_mem {v : List UInt8 × List UInt8} (hv : v ∈ vars) :
    ¬ tag <:+: v.1 ∧ ¬ tag <:+: v.2 := by
  obtain ⟨before, after, rfl⟩ := List.append_of_mem hv
  constructor
  · intro h
    exact hfresh (h.trans ⟨value ++ (before.flatMap fun v => gap v.1 ++ quote v.2) ++ [59, 32],
      [61] ++ quote v.2 ++ after.flatMap fun v => gap v.1 ++ quote v.2, by simp [valueText, gap]⟩)
  · intro h
    exact hfresh
      (h.trans ⟨value ++ (before.flatMap fun v => gap v.1 ++ quote v.2) ++ gap v.1 ++ [34],
      [34] ++ after.flatMap fun v => gap v.1 ++ quote v.2, by simp [valueText, quote]⟩)

theorem mem_order {text : List UInt8} : text ∈ order vars ↔ ∃ v ∈ vars, v.2 = text := by
  simp [order]

theorem length_order_le (vars : Vars) : (order vars).length ≤ vars.length := by
  rw [order, ← List.length_map (fun v : List UInt8 × List UInt8 => v.2)]
  exact length_eraseDups_le _

include htag halnum hvalue hvars hfresh

omit halnum hvalue hvars in
/-- A text that is not apart when its turn comes is found between two neighbours. -/
theorem not_apart_iff {before after : List (List UInt8)} {text : List UInt8}
    (horder : order vars = before ++ text :: after) :
    ¬ Apart text (asideBy (staticMessage tag) ([] ++ before) (pieces value vars)) ↔
      ∃ before' u w after', vars = before' ++ u :: w :: after' ∧ text = gap w.1 ∧
        u.2 ∉ before ++ [text] ∧ w.2 ∉ before := by
  have hmark : ∀ pos, tag <:+: staticMessage tag pos :=
    fun pos => (List.prefix_append _ _).isInfix.trans (tag_isInfix_staticMessage htag pos)
  obtain ⟨v, hv, rfl⟩ := mem_order.mp (show text ∈ order vars by rw [horder]; simp)
  rw [List.nil_append, apart_aside_iff hmark (not_tag_of_mem hfresh hv).2, not_not]

/-- The texts are put aside, each of them with its mark. -/
theorem takeStaticTexts_valueText (hcrossed : ¬ Crossed vars) {fuel : ℕ}
    (hfuel : vars.length ≤ fuel) :
    takeStaticTexts tag fuel [] (valueText value vars) =
      (order vars, value ++ vars.flatMap fun v =>
        gap v.1 ++ staticMessage tag ((order vars).idxOf v.2)) := by
  have hloop := takeStaticTexts_apart halnum (quoteless_pieces hvalue hvars) [] (order vars)
    (literalOrder_pieces value vars) ?_ ((length_order_le vars).trans hfuel)
  · rw [asideBy_nil, ← valueText_eq, render_asideBy_literalOrder, render_pieces,
      literalOrder_pieces] at hloop
    exact hloop
  · intro before text after horder
    by_contra hnot
    obtain ⟨before', u, w, after', h⟩ := (not_apart_iff htag hfresh horder).mp hnot
    exact hcrossed ⟨before, text, after, before', u, w, after', horder, h⟩

/-- **What is read** if no text is crossed: the texts are those that are put back for their marks.
-/
theorem parseSubValues_valueText (hcrossed : ¬ Crossed vars) (name : List UInt8) :
    (({ origName := name } : MimeHeaderOption).parseSubValues tag (valueText value vars)).value =
        value ∧
      (({ origName := name } : MimeHeaderOption).parseSubValues tag (valueText value vars)).subVar =
        (addAll { origName := name, origValue := valueText value vars }
          ((value, []) :: vars.map fun v => (v.1, readText tag (order vars) v.2))).subVar := by
  have hsplit := splitCompress_marked (order vars) hvalue hvars halnum
  have hfirst : ¬ tag <:+: value := fun h => hfresh (h.trans (List.prefix_append _ _).isInfix)
  have htake := takeStaticTexts_valueText htag halnum hvalue hvars hfresh hcrossed
    (length_le_valueText value vars)
  rw [← trimBytes_valueText hvalue vars] at htake
  have hnames : ∀ v ∈ vars, IsName v.1 ∧ ¬ tag <:+: v.1 :=
    fun v hv => ⟨(hvars v hv).1, (not_tag_of_mem hfresh hv).1⟩
  rw [parseSubValues_eq htake hsplit, foldl_addPart_marked htag halnum hnames, addPart,
    if_neg hvalue.plain.2.2, show trimBytes value = value from hvalue.trimmed,
    putStaticTexts_of_not_tag htag hfirst, addAll_setValue]
  exact ⟨hvalue.trimmed, rfl⟩

/-! ### A text that is crossed -/

omit hfresh htag halnum in
theorem openSemicolons_valueText : openSemicolons false (valueText value vars) = vars.length := by
  rw [valueText, openSemicolons_plain hvalue.plain.1,
    List.count_eq_zero_of_not_mem hvalue.plain.2.1]
  induction vars with
  | nil => rfl
  | cons v vars ih =>
      rw [List.forall_mem_cons] at hvars
      have hgap : (gap v.1).count 59 = 1 := by
        simp [gap, List.count_eq_zero_of_not_mem hvars.1.1.plain.2.1]
      have hrest := ih hvars.2
      rw [List.flatMap_cons, List.append_assoc, openSemicolons_plain hvars.1.1.gap,
        openSemicolons_quote hvars.1.2.quoteless, hgap, List.length_cons]
      simp only [Bool.false_eq_true, if_false, Nat.zero_add] at hrest ⊢
      omega

omit hfresh htag halnum in
theorem count_quote_valueText : (valueText value vars).count 34 = 2 * vars.length := by
  rw [valueText, List.count_append, List.count_eq_zero_of_not_mem hvalue.plain.1, Nat.zero_add]
  induction vars with
  | nil => rfl
  | cons v vars ih =>
      rw [List.forall_mem_cons] at hvars
      rw [List.flatMap_cons, List.count_append, List.count_append,
        List.count_eq_zero_of_not_mem hvars.1.1.gap, ih hvars.2, quote, List.count_cons_self,
        List.count_append, List.count_eq_zero_of_not_mem hvars.1.2.quoteless, List.length_cons]
      simp
      omega

/-- A text that is crossed takes a semicolon with it, so that two of the parts are one. -/
theorem length_subVar_of_crossed (hcrossed : Crossed vars) (name : List UInt8) :
    (({ origName := name } : MimeHeaderOption).parseSubValues tag
      (valueText value vars)).subVar.length ≤ vars.length := by
  have hquoteless := quoteless_pieces hvalue hvars
  have hlt := openSemicolons_takeStaticTexts_lt halnum hquoteless [] (order vars)
    (literalOrder_pieces value vars)
    (by
      intro before text after horder hnot
      obtain ⟨-, -, w, -, -, rfl, -, -⟩ := (not_apart_iff htag hfresh horder).mp hnot
      simp [gap])
    (by
      obtain ⟨before, text, after, before', u, w, after', horder, h⟩ := hcrossed
      exact ⟨before, text, after, horder,
        (not_apart_iff htag hfresh horder).mpr ⟨before', u, w, after', h⟩⟩)
    ((length_order_le vars).trans (length_le_valueText value vars))
  rw [asideBy_nil, ← valueText_eq, openSemicolons_valueText hvalue hvars] at hlt
  have hquote := quote_not_mem_takeStaticTexts halnum [] (count_quote_valueText hvalue hvars)
    (length_le_valueText value vars)
  generalize htake : takeStaticTexts tag (valueText value vars).length [] (valueText value vars) = r
    at hlt hquote
  obtain ⟨texts, s⟩ := r
  dsimp only at hlt hquote
  -- in what is cut, no semicolon is between quotes
  have hopen := openSemicolons_plain hquote false []
  rw [List.append_nil] at hopen
  obtain ⟨vValues, hsplit⟩ := splitCompress_head (· = 59) s
  have hparts := length_splitCompress_le (· = 59) s
  rw [hsplit, List.length_cons] at hparts
  rw [← trimBytes_valueText hvalue vars] at htake
  rw [parseSubValues_eq htake hsplit]
  have hcount : s.countP (· = 59) = s.count 59 := by
    rw [List.count]
    congr 1
  have hadded := length_foldl_addPart_le (putStaticTexts tag texts) vValues
    ((addPart (putStaticTexts tag texts) { origName := name, origValue := valueText value vars }
      (s.takeWhile fun c => !decide (c = 59))).setValue
        (putStaticTexts tag texts (trimBytes (s.takeWhile fun c => !decide (c = 59)))))
  have hfirst := length_addPart_le (putStaticTexts tag texts)
    { origName := name, origValue := valueText value vars } (s.takeWhile fun c => !decide (c = 59))
  rw [setValue] at hadded
  simp only [openSemicolons, Bool.false_eq_true, if_false, List.length_nil] at hopen hfirst
  dsimp only at hadded ⊢
  rw [setValue]
  omega

end Apart

end Reading

/-! ## When the sub-values are read as they were written -/

section ReadAs

open MimeHeaderOption

variable {tag : List UInt8}

/-- The same values under each name are the same sub-values. -/
theorem perm_of_values {a b : Vars}
    (h : ∀ subVarName, (a.filter fun v => v.1 = subVarName).map (·.2) =
      (b.filter fun v => v.1 = subVarName).map (·.2)) : a.Perm b := by
  have hcount : ∀ (c : Vars) (v : List UInt8 × List UInt8),
      c.count v = ((c.filter fun u => u.1 = v.1).map (·.2)).count v.2 := by
    intro c v
    induction c with
    | nil => rfl
    | cons u c ih =>
        rw [List.count_cons, ih]
        by_cases hname : u.1 = v.1
        · rw [List.filter_cons_of_pos (by simpa using hname), List.map_cons, List.count_cons]
          congr 1
          simp [Prod.ext_iff, hname]
        · rw [List.filter_cons_of_neg (by simpa using hname)]
          simp [Prod.ext_iff, hname]
  rw [List.perm_iff_count]
  intro v
  rw [hcount a v, hcount b v, h v.1]

/-- What is put back for the marks is what they stand for exactly if the texts from the eleventh on
agree with it. -/
theorem readText_iff (htag : tag.length = 16) (hcount : vars.length < 16)
    (htexts : ∀ v ∈ vars, ¬ tag <:+: v.2) :
    (∀ v ∈ vars, readText tag (order vars) v.2 = v.2) ↔ TenthsAgree (order vars) := by
  have htexts' : ∀ text ∈ order vars, ¬ tag <:+: text := by
    intro text htext
    obtain ⟨v, hv, rfl⟩ := mem_order.mp htext
    exact htexts v hv
  have hlen : (order vars).length ≤ 15 := (length_order_le vars).trans (by omega)
  -- what is read for the text of a number
  have hlow : ∀ p text, p < 10 → (order vars)[p]? = some text →
      putStaticTexts tag (order vars) (staticMessage tag p) = text := by
    intro p text hp htext
    have hput := putBack_mark htag htexts' hlen (List.getElem?_eq_some_iff.mp htext).1
      (if_pos hp).symm htext
    rwa [if_pos hp, List.append_nil] at hput
  have hhigh : ∀ p text, 10 ≤ p → (order vars)[p]? = some text → ∃ second,
      (order vars)[1]? = some second ∧ putStaticTexts tag (order vars) (staticMessage tag p) =
        second ++ [UInt8.ofNat (48 + (p - 10))] := by
    intro p text hp htext
    have hlt := (List.getElem?_eq_some_iff.mp htext).1
    have hsecond : (order vars)[1]? = some ((order vars).get ⟨1, by omega⟩) :=
      List.getElem?_eq_getElem (by omega)
    have hput := putBack_mark htag htexts' hlen hlt (if_neg (by omega)).symm hsecond
    rw [if_neg (by omega)] at hput
    exact ⟨_, hsecond, hput⟩
  constructor
  · intro h p text hp htext
    obtain ⟨v, hv, rfl⟩ := mem_order.mp (List.mem_of_getElem? htext)
    obtain ⟨second, hsecond, hput⟩ := hhigh p v.2 hp htext
    have hidx : (order vars).idxOf v.2 = p := by
      obtain ⟨hlt, hget⟩ := List.getElem?_eq_some_iff.mp htext
      rw [← hget]
      exact (nodup_eraseDups _).idxOf_getElem p hlt
    refine ⟨second, hsecond, ?_⟩
    rw [← hput, ← hidx]
    exact (h v hv).symm
  · intro h v hv
    have hget : (order vars)[(order vars).idxOf v.2]? = some v.2 :=
      List.getElem?_idxOf (mem_order.mpr ⟨v, hv, rfl⟩)
    rcases Nat.lt_or_ge ((order vars).idxOf v.2) 10 with hp | hp
    · exact hlow _ _ hp hget
    · obtain ⟨second, hsecond, hput⟩ := hhigh _ _ hp hget
      obtain ⟨second', hsecond', htext⟩ := h _ _ hp hget
      obtain rfl : second = second' := Option.some.inj (hsecond.symm.trans hsecond')
      exact hput.trans htext.symm

variable {name : List UInt8} (htag : tag.length = 16) (halnum : ∀ c ∈ tag, isalnum c = true)
  (hvalue : IsName value) (hvars : ∀ v ∈ vars, IsName v.1 ∧ IsText v.2) (hcount : vars.length < 16)
  (hsize : value.length + size vars ≤ 8 * 1024) (hfresh : ¬ tag <:+: valueText value vars)

include htag halnum hvalue hvars hcount hsize hfresh

/-- Where no text is crossed, each sub-value has to be read as it was written. -/
theorem readAs_iff_of_not_crossed (hcrossed : ¬ Crossed vars) (name : List UInt8) :
    ReadAs (({ origName := name } : MimeHeaderOption).parseSubValues tag (valueText value vars))
        value vars ↔
      ∀ v ∈ vars, readText tag (order vars) v.2 = v.2 := by
  obtain ⟨hread, hsubVar⟩ :=
    parseSubValues_valueText htag halnum hvalue hvars hfresh hcrossed name
  generalize ({ origName := name } : MimeHeaderOption).parseSubValues tag (valueText value vars)
    = opt at hread hsubVar
  constructor
  · rintro ⟨-, hvalues⟩ v hv
    obtain ⟨added, hsub, hadded⟩ := exists_addAll
      { origName := name, origValue := valueText value vars }
      ((value, []) :: vars.map fun v => (v.1, readText tag (order vars) v.2))
    rw [hadded, List.nil_append] at hsubVar
    -- as many have been added as were written, which are all that there are
    have hlen := (perm_of_values hvalues).length_eq
    obtain rfl := hsub.eq_of_length (by rw [← hsubVar, hlen]; simp)
    have hname := hvalues v.1
    rw [getSubVars, hsubVar] at hname
    have hrest : ((vars.map fun v => (v.1, readText tag (order vars) v.2)).filter
        fun u => u.1 = v.1).map (·.2) = (vars.filter fun u => u.1 = v.1).map (·.2) := by
      by_cases hhead : value = v.1
      · rw [List.filter_cons_of_pos (by simpa using hhead),
          List.filter_cons_of_pos (by simpa using hhead)] at hname
        exact (List.cons.inj hname).2
      · rwa [List.filter_cons_of_neg (by simpa using hhead),
          List.filter_cons_of_neg (by simpa using hhead)] at hname
    rw [List.filter_map, List.map_map] at hrest
    exact List.map_inj_left.mp hrest v (List.mem_filter.mpr ⟨hv, by simp⟩)
  · intro h
    have hsame : (vars.map fun v => (v.1, readText tag (order vars) v.2)) = vars := by
      conv_rhs => rw [← List.map_id vars]
      exact List.map_congr_left fun v hv => Prod.ext rfl (h v hv)
    have hadd : (addAll { origName := name, origValue := valueText value vars }
        ((value, []) :: vars)).subVar = (value, []) :: vars := addAll_of_fits _ ?_ ?_ ?_
    · rw [hsame, hadd] at hsubVar
      refine ⟨hread, fun subVarName => ?_⟩
      rw [getSubVars, hsubVar]
    · rw [List.forall_mem_cons]
      refine ⟨⟨hvalue.ne_nil, hvalue.printable, by simp [Printable]⟩, fun v hv => ?_⟩
      exact ⟨(hvars v hv).1.ne_nil, (hvars v hv).1.printable, (hvars v hv).2.printable⟩
    · simp only [List.length_cons, List.length_nil]
      omega
    · rw [size, List.map_cons, List.sum_cons, ← size]
      simpa using hsize

/-- **Quoted sub-values.**  A value with quoted sub-values is read as it was written exactly if none
of the texts is found between two others when its turn comes, and the texts from the eleventh on are
the second one with a digit behind. -/
theorem parseSubValues_iff (name : List UInt8) :
    ReadAs (({ origName := name } : MimeHeaderOption).parseSubValues tag (valueText value vars))
        value vars ↔
      ¬ Crossed vars ∧ TenthsAgree (order vars) := by
  by_cases hcrossed : Crossed vars
  · refine iff_of_false (fun h => ?_) (fun h => h.1 hcrossed)
    -- there are fewer sub-values than were written
    have hle := length_subVar_of_crossed htag halnum hvalue hvars hfresh hcrossed name
    have hlen := (perm_of_values h.2).length_eq
    rw [List.length_cons] at hlen
    omega
  · rw [readAs_iff_of_not_crossed htag halnum hvalue hvars hcount hsize hfresh hcrossed,
      readText_iff htag hcount fun v hv => (not_tag_of_mem hfresh hv).2]
    exact (and_iff_right hcrossed).symm

end ReadAs

/-- The sub-values of a part of a form. -/
def partVars : Vars := [(bytesOf "name", bytesOf "a b"), (bytesOf "filename", bytesOf "a;b=c")]

/-- A file name may have semicolons and equals signs in it. -/
theorem parseSubValues_fileName :
    ReadAs (({} : MimeHeaderOption).parseSubValues (List.replicate 16 122)
        (valueText (bytesOf "form-data") partVars))
      (bytesOf "form-data") partVars := by
  have hname : ∀ s ∈ [bytesOf "form-data", bytesOf "name", bytesOf "filename"], IsName s := by
    intro s hs
    fin_cases hs
    · exact ⟨by decide +kernel, by decide +kernel, by decide +kernel, by decide +kernel⟩
    · exact ⟨by decide +kernel, by decide +kernel, by decide +kernel, by decide +kernel⟩
    · exact ⟨by decide +kernel, by decide +kernel, by decide +kernel, by decide +kernel⟩
  have hvars : ∀ v ∈ partVars, IsName v.1 ∧ IsText v.2 := by
    rw [partVars, List.forall_mem_cons, List.forall_mem_singleton]
    exact ⟨⟨hname _ (by simp), by decide +kernel, by decide +kernel⟩,
      ⟨hname _ (by simp), by decide +kernel, by decide +kernel⟩⟩
  have halnum : ∀ c ∈ List.replicate 16 (122 : UInt8), isalnum c = true := by
    rw [List.forall_mem_replicate]
    exact Or.inr (by decide)
  refine (parseSubValues_iff (by simp) halnum (hname _ (by simp)) hvars (by decide +kernel)
    (by decide +kernel) (by decide +kernel) []).mpr ⟨?_, ?_⟩
  · -- neither text is the one between the two
    rintro ⟨acc, text, rest, before, u, w, after, horder, hneighbours, htext, -, -⟩
    have hin : text ∈ order partVars := horder ▸ (by simp)
    have hsecond : w ∈ partVars := hneighbours ▸ (by simp)
    have hapart : ∀ text ∈ order partVars, ∀ w ∈ partVars, text ≠ gap w.1 := by decide +kernel
    exact hapart text hin w hsecond htext
  · intro p text hp htext
    have hlt := (List.getElem?_eq_some_iff.mp htext).1
    have hlen : (order partVars).length = 2 := by decide +kernel
    omega

/-- `a; n="; c="; b="x"; c="y"`: the first text is found between the second and the third, of which
nothing is read under the name of the third. -/
theorem not_readAs : ¬ ReadAs
    (({} : MimeHeaderOption).parseSubValues (List.replicate 16 122)
      (valueText (bytesOf "a") [(bytesOf "n", bytesOf "; c="), (bytesOf "b", bytesOf "x"),
        (bytesOf "c", bytesOf "y")]))
    (bytesOf "a") [(bytesOf "n", bytesOf "; c="), (bytesOf "b", bytesOf "x"),
      (bytesOf "c", bytesOf "y")] := by
  intro h
  exact absurd (h.2 (bytesOf "c")) (by decide +kernel)

end SubValues

end Mantids
