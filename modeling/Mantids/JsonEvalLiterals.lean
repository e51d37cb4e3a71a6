/-
# String literals are put aside

`JSONEval::compile` replaces each string literal by a placeholder, all over the text at once.

* `replaceAllFrom_skip`, `replaceAllFrom_hit` — `boost::replace_all`, piece by piece;
* `Apart` — a literal is not what stands between two others;
* `replaceAll_render` — then the literal is replaced where it stands, and nowhere else;
* `LiteralsApart`, `takeStaticTexts_aside` — the loop puts all literals aside.

Without the condition, the closing quote of one literal and the opening quote of the next are taken
for those of a third.
-/
import Mantids.JsonEvalLanguage
import Mantids.Lib.Cut

namespace Mantids

open Occurrence

/-! ## `boost::replace_all` -/

section ReplaceAll

variable {search replacement : List UInt8}

/-- Where no occurrence begins, the text stays. -/
theorem replaceAllFrom_skip (hne : search ≠ []) (fuel : ℕ) {a : List UInt8} (s : List UInt8)
    (h : ∀ q < a.length, ¬ OccursAt search (a ++ s) q) :
    replaceAllFrom search replacement fuel (a ++ s) =
      a ++ replaceAllFrom search replacement fuel s := by
  rcases fuel with _ | fuel
  · rfl
  · -- an occurrence in what follows is one in the whole, and there is no other
    have hshift : ∀ q, OccursAt search (a ++ s) (a.length + q) ↔ OccursAt search s q := by
      intro q
      rw [← occursAt_drop, List.drop_left]
    unfold replaceAllFrom
    rcases hfirst : first search s with _ | p
    · have hnone : first search (a ++ s) = none := by
        rw [first_eq_none_iff hne] at hfirst ⊢
        intro q hq
        rcases Nat.lt_or_ge q a.length with hlt | hge
        · exact h q hlt hq
        · apply hfirst (q - a.length)
          rwa [← hshift, Nat.add_sub_cancel' hge]
      rw [hnone]
    · have hsome : first search (a ++ s) = some (a.length + p) := by
        rw [first_eq_some_iff hne] at hfirst ⊢
        refine ⟨(hshift p).mpr hfirst.1, fun q hq hoc => ?_⟩
        rcases Nat.lt_or_ge q a.length with hlt | hge
        · exact h q hlt hoc
        · apply hfirst.2 (q - a.length) (by omega)
          rwa [← hshift, Nat.add_sub_cancel' hge]
      rw [hsome]
      simp only [List.take_length_add_append, Nat.add_assoc, List.drop_length_add_append,
        List.append_assoc]

theorem replaceAllFrom_nil (hne : search ≠ []) (fuel : ℕ) :
    replaceAllFrom search replacement fuel [] = [] := by
  rcases fuel with _ | fuel
  · rfl
  · rw [replaceAllFrom, first_nil hne]

/-- A text without the word stays as it is. -/
theorem replaceAllFrom_of_not_occursAt (hne : search ≠ []) (fuel : ℕ) {s : List UInt8}
    (h : ∀ q < s.length, ¬ OccursAt search (s ++ []) q) :
    replaceAllFrom search replacement fuel s = s := by
  have hskip : replaceAllFrom search replacement fuel (s ++ []) =
      s ++ replaceAllFrom search replacement fuel [] := replaceAllFrom_skip hne fuel [] h
  rwa [replaceAllFrom_nil hne, List.append_nil] at hskip

/-- An occurrence at the beginning is replaced. -/
theorem replaceAllFrom_hit (hne : search ≠ []) (fuel : ℕ) (s : List UInt8) :
    replaceAllFrom search replacement (fuel + 1) (search ++ s) =
      replacement ++ replaceAllFrom search replacement fuel s := by
  have hfirst : first search (search ++ s) = some 0 := by
    rw [first_eq_some_iff hne]
    exact ⟨List.prefix_append _ _, fun q hq => absurd hq (Nat.not_lt_zero q)⟩
  rw [replaceAllFrom, hfirst]
  simp only [List.take_zero, List.nil_append, Nat.zero_add, List.drop_left]

/-- A text without the first letter of the word is passed over. -/
theorem not_occursAt_of_not_mem {c : UInt8} {d a : List UInt8} (hc : c ∉ a) (s : List UInt8) :
    ∀ q < a.length, ¬ OccursAt (c :: d) (a ++ s) q := by
  rintro q hq ⟨r, hr⟩
  rw [List.drop_append_of_le_length hq.le, List.drop_eq_getElem_cons hq, List.cons_append,
    List.cons_append, List.cons.injEq] at hr
  exact hc (hr.1 ▸ List.getElem_mem hq)

/-- A text of one byte is replaced wherever that byte is. -/
theorem replaceAll_byte (c : UInt8) (replacement s : List UInt8) :
    replaceAll [c] replacement s = s.flatMap fun x => if x = c then replacement else [x] := by
  have hloop : ∀ fuel, s.length ≤ fuel →
      replaceAllFrom [c] replacement fuel s =
        s.flatMap fun x => if x = c then replacement else [x] := by
    induction s with
    | nil => exact fun fuel _ => replaceAllFrom_nil (List.cons_ne_nil _ _) fuel
    | cons x s ih =>
        rintro (_ | fuel) hfuel
        · exact absurd hfuel (Nat.not_succ_le_zero _)
        · rw [List.flatMap_cons]
          by_cases hx : x = c
          · rw [if_pos hx, hx, ← ih fuel (Nat.le_of_succ_le_succ hfuel)]
            exact replaceAllFrom_hit (List.cons_ne_nil _ _) fuel s
          · rw [if_neg hx, ← List.singleton_append (l := s),
              replaceAllFrom_skip (List.cons_ne_nil _ _) _ s
                (not_occursAt_of_not_mem (by simpa using Ne.symm hx) s),
              ih (fuel + 1) (Nat.le_of_succ_le hfuel)]
  exact hloop _ le_rfl

end ReplaceAll

/-- Two texts without a separator that are in front of one are the same. -/
theorem append_cons_inj_of_not_mem {c : UInt8} {a b s t : List UInt8} (ha : c ∉ a) (hb : c ∉ b)
    (h : a ++ c :: s = b ++ c :: t) : a = b ∧ s = t := by
  rcases List.append_eq_append_iff.mp h with ⟨a', rfl, h'⟩ | ⟨b', rfl, h'⟩
  · rcases a' with _ | ⟨x, a'⟩
    · rw [List.nil_append] at h'
      exact ⟨(List.append_nil a).symm, (List.cons.inj h').2⟩
    · rw [List.cons_append] at h'
      exact absurd ((List.cons.inj h').1 ▸ List.mem_append_right a List.mem_cons_self) hb
  · rcases b' with _ | ⟨x, b'⟩
    · rw [List.nil_append] at h'
      exact ⟨List.append_nil b, (List.cons.inj h').2.symm⟩
    · rw [List.cons_append] at h'
      exact absurd ((List.cons.inj h').1 ▸ List.mem_append_right b List.mem_cons_self) ha

namespace Expressions

/-! ## Pieces -/

/-- Plain pieces and literals have no quote in them. -/
def Quoteless (ps : List Piece) : Prop :=
  ∀ p ∈ ps, match p with
    | .plain bytes => 34 ∉ bytes
    | .literal text => 34 ∉ text

@[simp] theorem quoteless_nil : Quoteless [] := by simp [Quoteless]

@[simp] theorem quoteless_plain {bytes : List UInt8} {ps : List Piece} :
    Quoteless (.plain bytes :: ps) ↔ 34 ∉ bytes ∧ Quoteless ps := by
  simp [Quoteless]

@[simp] theorem quoteless_literal {text : List UInt8} {ps : List Piece} :
    Quoteless (.literal text :: ps) ↔ 34 ∉ text ∧ Quoteless ps := by
  simp [Quoteless]

@[simp] theorem quoteless_append {ps qs : List Piece} :
    Quoteless (ps ++ qs) ↔ Quoteless ps ∧ Quoteless qs := by
  simp [Quoteless, or_imp, forall_and]

section Render

variable (f : List UInt8 → List UInt8)

@[simp] theorem render_nil : render f [] = [] := rfl

@[simp] theorem render_plain (bytes : List UInt8) (ps : List Piece) :
    render f (.plain bytes :: ps) = bytes ++ render f ps := rfl

@[simp] theorem render_literal (text : List UInt8) (ps : List Piece) :
    render f (.literal text :: ps) = f text ++ render f ps := rfl

@[simp] theorem render_append (ps qs : List Piece) :
    render f (ps ++ qs) = render f ps ++ render f qs := by
  simp [render]

end Render

/-- The literals of some pieces, one after the other. -/
def literals : List Piece → List (List UInt8)
  | [] => []
  | .plain _ :: ps => literals ps
  | .literal text :: ps => text :: literals ps

/-- The text up to the next literal, if there is one. -/
def nextGap : List Piece → Option (List UInt8)
  | [] => none
  | .plain bytes :: ps => (nextGap ps).map (bytes ++ ·)
  | .literal _ :: _ => some []

/-- Behind no other literal there is a text that is, up to the next literal, the one that is looked
for. -/
def Apart (text : List UInt8) : List Piece → Prop
  | [] => True
  | .plain _ :: ps => Apart text ps
  | .literal other :: ps => (other ≠ text → nextGap ps ≠ some text) ∧ Apart text ps

instance decidableApart (text : List UInt8) : ∀ ps, Decidable (Apart text ps)
  | [] => isTrue trivial
  | .plain _ :: ps => decidableApart text ps
  | .literal other :: ps =>
    letI := decidableApart text ps
    inferInstanceAs (Decidable ((other ≠ text → nextGap ps ≠ some text) ∧ Apart text ps))

/-- A literal is replaced wherever it stands. -/
def substitute (text replacement : List UInt8) (ps : List Piece) : List Piece :=
  ps.map (fun
    | .plain bytes => .plain bytes
    | .literal other => if other = text then .plain replacement else .literal other)

/-- What is found in front of the next quote is the text up to the next literal. -/
theorem nextGap_of_isPrefix {ps : List Piece} (hps : Quoteless ps) {text : List UInt8}
    (htext : 34 ∉ text) (h : text ++ [34] <+: render quote ps) : nextGap ps = some text := by
  induction ps generalizing text with
  | nil => simp at h
  | cons p ps ih =>
      obtain ⟨r, hr⟩ := h
      rcases p with bytes | other
      · obtain ⟨hbytes, hrest⟩ := quoteless_plain.mp hps
        rw [render_plain, List.append_assoc] at hr
        -- the piece has no quote, so it is in front of the one that was found
        rcases List.append_eq_append_iff.mp hr with ⟨a, rfl, ha⟩ | ⟨a, rfl, ha⟩
        · rcases a with _ | ⟨c, a⟩
          · have hempty : (34 : UInt8) ∉ [] := List.not_mem_nil
            rw [List.append_nil, nextGap, ih hrest hempty ⟨r, by simpa using ha⟩]
            simp
          · rw [List.singleton_append, List.cons_append] at ha
            obtain ⟨rfl, -⟩ := List.cons.inj ha
            exact absurd (List.mem_append_right _ List.mem_cons_self) hbytes
        · rw [nextGap, ih hrest (fun hmem => htext (List.mem_append_right _ hmem))
            ⟨r, by simpa using ha.symm⟩]
          rfl
      · rcases text with _ | ⟨c, text⟩
        · rfl
        · rw [render_literal, quote, List.cons_append, List.cons_append, List.cons_append] at hr
          obtain ⟨rfl, -⟩ := List.cons.inj hr
          exact absurd List.mem_cons_self htext

theorem length_quote (text : List UInt8) : (quote text).length = text.length + 2 := by simp [quote]

/-- In front of the closing quote of another literal no occurrence begins. -/
theorem not_occursAt_open {text other : List UInt8} (htext : 34 ∉ text) (hother : 34 ∉ other)
    (hsame : other ≠ text) (s : List UInt8) :
    ∀ q < other.length + 1, ¬ OccursAt (quote text) (34 :: (other ++ 34 :: s)) q := by
  intro q hq hoc
  rcases Nat.eq_zero_or_pos q with rfl | hpos
  · -- the two literals would be the same
    obtain ⟨r, hr⟩ := hoc
    simp only [quote, List.drop_zero, List.cons_append, List.append_assoc, List.nil_append,
      List.cons.injEq, true_and] at hr
    exact hsame (append_cons_inj_of_not_mem htext hother hr).1.symm
  · obtain ⟨q, rfl⟩ : ∃ k, q = k + 1 := ⟨q - 1, by omega⟩
    rw [quote, OccursAt, List.drop_succ_cons] at hoc
    exact not_occursAt_of_not_mem hother _ q (by omega) hoc

/-- At another literal no occurrence begins, neither at one of its quotes nor between them. -/
theorem not_occursAt_quote {text other : List UInt8} (htext : 34 ∉ text) (hother : 34 ∉ other)
    (hsame : other ≠ text) {ps : List Piece} (hps : Quoteless ps)
    (hgap : nextGap ps ≠ some text) :
    ∀ q < (quote other).length, ¬ OccursAt (quote text) (quote other ++ render quote ps) q := by
  intro q hq hoc
  rw [length_quote] at hq
  have hsplit : quote other ++ render quote ps = 34 :: (other ++ 34 :: render quote ps) := by
    simp [quote]
  rw [hsplit] at hoc
  by_cases hlast : q < other.length + 1
  · exact not_occursAt_open htext hother hsame _ q hlast hoc
  · -- at the closing quote the gap would have to be the literal
    obtain rfl : q = other.length + 1 := by omega
    rw [quote, OccursAt, List.drop_succ_cons, List.drop_left, List.cons_prefix_cons] at hoc
    exact hgap (nextGap_of_isPrefix hps htext hoc.2)

/-- **A literal is replaced** where it stands, if it is nowhere else. -/
theorem replaceAllFrom_render {text : List UInt8} (htext : 34 ∉ text) (replacement : List UInt8)
    {ps : List Piece} (hps : Quoteless ps) (hapart : Apart text ps) {fuel : ℕ}
    (hfuel : (render quote ps).length ≤ fuel) :
    replaceAllFrom (quote text) replacement fuel (render quote ps) =
      render quote (substitute text replacement ps) := by
  have hne : quote text ≠ [] := List.cons_ne_nil _ _
  induction ps generalizing fuel with
  | nil => exact replaceAllFrom_nil hne fuel
  | cons p ps ih =>
      rcases p with bytes | other
      · obtain ⟨hbytes, hps⟩ := quoteless_plain.mp hps
        rw [render_plain, List.length_append] at hfuel
        rw [render_plain, replaceAllFrom_skip hne fuel _ (not_occursAt_of_not_mem hbytes _),
          ih hps hapart (by omega)]
        rfl
      · obtain ⟨hother, hps⟩ := quoteless_literal.mp hps
        obtain ⟨hgap, hapart⟩ := hapart
        rw [render_literal] at hfuel ⊢
        by_cases hsame : other = text
        · -- the literal itself
          subst hsame
          rw [List.length_append, length_quote] at hfuel
          obtain ⟨fuel, rfl⟩ : ∃ k, fuel = k + 1 := ⟨fuel - 1, by omega⟩
          rw [replaceAllFrom_hit hne, ih hps hapart (by omega)]
          simp [substitute]
        · -- another literal, at which none begins
          have hskip := not_occursAt_quote htext hother hsame hps (hgap hsame)
          rw [List.length_append] at hfuel
          rw [replaceAllFrom_skip hne fuel _ hskip, ih hps hapart (by omega)]
          simp [substitute, hsame]

theorem replaceAll_render {text : List UInt8} (htext : 34 ∉ text) (replacement : List UInt8)
    {ps : List Piece} (hps : Quoteless ps) (hapart : Apart text ps) :
    replaceAll (quote text) replacement (render quote ps) =
      render quote (substitute text replacement ps) :=
  replaceAllFrom_render htext replacement hps hapart le_rfl

/-! ## The loop -/

/-- What stands for the literal of a number. -/
def staticMark (pos : ℕ) : List UInt8 := bytesOf "_STATIC_" ++ decimal pos

/-- The pieces after some literals were put aside, with a mark for each number. -/
def asideBy (mark : ℕ → List UInt8) (staticTexts : List (List UInt8)) (ps : List Piece) :
    List Piece :=
  ps.map (fun
    | .plain bytes => .plain bytes
    | .literal text =>
      if text ∈ staticTexts then .plain (mark (staticTexts.idxOf text)) else .literal text)

/-- The pieces after some literals were put aside. -/
def aside (staticTexts : List (List UInt8)) (ps : List Piece) : List Piece :=
  asideBy staticMark staticTexts ps

/-- Each of the literals that are still to be put aside is apart when its turn comes. -/
def ApartFrom (ps : List Piece) (staticTexts : List (List UInt8)) : List (List UInt8) → Prop
  | [] => True
  | text :: rest =>
    Apart text (aside staticTexts ps) ∧ ApartFrom ps (staticTexts ++ [text]) rest

instance decidableApartFrom (ps : List Piece) :
    ∀ staticTexts order, Decidable (ApartFrom ps staticTexts order)
  | _, [] => isTrue trivial
  | staticTexts, text :: rest =>
    letI := decidableApartFrom ps (staticTexts ++ [text]) rest
    inferInstanceAs (Decidable (Apart text (aside staticTexts ps) ∧
      ApartFrom ps (staticTexts ++ [text]) rest))

/-- The literals in the order in which they are put aside. -/
def literalOrder (ps : List Piece) : List (List UInt8) := (literals ps).eraseDups

/-- When a literal is put aside, no other two that are left have its text between them. -/
def LiteralsApart (ps : List Piece) : Prop := ApartFrom ps [] (literalOrder ps)

instance (ps : List Piece) : Decidable (LiteralsApart ps) :=
  inferInstanceAs (Decidable (ApartFrom ps [] (literalOrder ps)))

theorem not_mem_staticMark {c : UInt8} (hc : c < 48) (pos : ℕ) : c ∉ staticMark pos :=
  not_mem_numbered (by decide) hc pos

section Marks

variable {mark : ℕ → List UInt8}

theorem quoteless_asideBy (hmark : ∀ pos, 34 ∉ mark pos) {ps : List Piece} (hps : Quoteless ps)
    (staticTexts : List (List UInt8)) : Quoteless (asideBy mark staticTexts ps) := by
  induction ps with
  | nil => exact hps
  | cons p ps ih =>
      rcases p with bytes | text
      · obtain ⟨hbytes, hrest⟩ := quoteless_plain.mp hps
        exact quoteless_plain.mpr ⟨hbytes, ih hrest⟩
      · obtain ⟨htext, hrest⟩ := quoteless_literal.mp hps
        rw [asideBy, List.map_cons]
        by_cases hmem : text ∈ staticTexts
        · simp only [hmem, if_true]
          exact quoteless_plain.mpr ⟨hmark _, ih hrest⟩
        · simp only [hmem, if_false]
          exact quoteless_literal.mpr ⟨htext, ih hrest⟩

theorem asideBy_nil (mark : ℕ → List UInt8) (ps : List Piece) : asideBy mark [] ps = ps := by
  rw [asideBy]
  conv_rhs => rw [← List.map_id ps]
  apply List.map_congr_left
  rintro (bytes | text) - <;> rfl

theorem literals_asideBy (staticTexts : List (List UInt8)) (ps : List Piece) :
    literals (asideBy mark staticTexts ps) =
      (literals ps).filter (fun text => text ∉ staticTexts) := by
  induction ps with
  | nil => rfl
  | cons p ps ih =>
      rcases p with bytes | text
      · exact ih
      · rw [asideBy, List.map_cons]
        by_cases hmem : text ∈ staticTexts
        · simp only [hmem, if_true, literals, List.filter_cons, not_true_eq_false, decide_false,
            Bool.false_eq_true, if_false]
          exact ih
        · simp only [hmem, if_false, literals, List.filter_cons, not_false_eq_true, decide_true,
            if_true]
          exact congrArg _ ih

theorem substitute_asideBy {ps : List Piece} {acc : List (List UInt8)} {text : List UInt8}
    (htext : text ∉ acc) :
    substitute text (mark acc.length) (asideBy mark acc ps) = asideBy mark (acc ++ [text]) ps := by
  rw [substitute, asideBy, asideBy, List.map_map]
  apply List.map_congr_left
  intro p _
  rcases p with bytes | other
  · rfl
  · by_cases hmem : other ∈ acc
    · simp [hmem, List.idxOf_append_of_mem hmem]
    · by_cases hsame : other = text
      · subst hsame
        simp [hmem, List.idxOf_append_of_notMem hmem]
      · simp [hmem, hsame]

end Marks

theorem Quoteless.of_mem_literals {ps : List Piece} (hps : Quoteless ps) :
    ∀ text ∈ literals ps, 34 ∉ text := by
  induction ps with
  | nil => simp [literals]
  | cons p ps ih =>
      rcases p with bytes | other
      · exact ih (quoteless_plain.mp hps).2
      · obtain ⟨hother, hrest⟩ := quoteless_literal.mp hps
        rw [literals, List.forall_mem_cons]
        exact ⟨hother, ih hrest⟩

/-- The leftmost text between quotes is the first literal. -/
theorem quoted_render {ps : List Piece} (hps : Quoteless ps) :
    MimeHeaderOption.quoted (render quote ps) = (literals ps).head? := by
  induction ps with
  | nil => rfl
  | cons p ps ih =>
      unfold MimeHeaderOption.quoted at ih ⊢
      rcases p with bytes | text
      · obtain ⟨hbytes, hrest⟩ := quoteless_plain.mp hps
        rw [render_plain, List.dropWhile_append_of_pos (Cut.forall_ne_iff.mpr hbytes)]
        exact ih hrest
      · obtain ⟨htext, -⟩ := quoteless_literal.mp hps
        have hdrop : ((render quote (.literal text :: ps)).dropWhile (· ≠ 34)).drop 1 =
            text ++ 34 :: render quote ps := by
          simp [quote]
        rw [hdrop, if_pos (by simp), Cut.takeWhile_ne_append htext]
        simp [literals]

theorem nodup_eraseDups (ls : List (List UInt8)) : ls.eraseDups.Nodup := by
  induction hn : ls.length using Nat.strong_induction_on generalizing ls with
  | _ n ih =>
      rcases ls with _ | ⟨l, ls⟩
      · exact List.nodup_nil
      · have hfilter := List.length_filter_le (fun b => !b == l) ls
        rw [List.length_cons] at hn
        rw [List.eraseDups_cons, List.nodup_cons]
        exact ⟨by simp, ih _ (by omega) _ rfl⟩

theorem length_eraseDups_le (ls : List (List UInt8)) : ls.eraseDups.length ≤ ls.length :=
  ((nodup_eraseDups ls).subperm fun _ h => List.mem_eraseDups.mp h).length_le

theorem length_literals_le (ps : List Piece) :
    (literals ps).length ≤ (render quote ps).length := by
  induction ps with
  | nil => exact le_rfl
  | cons p ps ih =>
      rcases p with bytes | text
      · simp only [literals, render_plain, List.length_append]
        omega
      · simp only [literals, render_literal, quote, List.length_cons, List.length_append]
        omega

theorem length_literalOrder_le (ps : List Piece) :
    (literalOrder ps).length ≤ (render quote ps).length :=
  (length_eraseDups_le _).trans (length_literals_le ps)

/-- Behind the literals that were put aside, the first other one is next. -/
theorem find?_of_eraseDups {ls acc rest : List (List UInt8)} {text : List UInt8}
    (h : ls.eraseDups = acc ++ text :: rest) : ls.find? (fun l => l ∉ acc) = some text := by
  induction hn : ls.length using Nat.strong_induction_on generalizing ls acc with
  | _ n ih =>
      rcases ls with _ | ⟨a, ls⟩
      · simp at h
      · rw [List.eraseDups_cons] at h
        rcases acc with _ | ⟨b, acc⟩
        · obtain ⟨rfl, -⟩ := List.cons.inj h
          simp
        · obtain ⟨rfl, hrest⟩ := List.cons.inj h
          have hshorter : (ls.filter (fun b => !b == a)).length < n := by
            have := List.length_filter_le (fun b => !b == a) ls
            rw [List.length_cons] at hn
            omega
          have hfind := ih _ hshorter hrest rfl
          rw [List.find?_filter] at hfind
          rw [List.find?_cons_of_neg (by simp), ← hfind]
          congr 1
          funext b
          simp [not_or]

section Marks

variable {mark : ℕ → List UInt8} {ps : List Piece} {acc rest : List (List UInt8)}
  {text : List UInt8}

/-- The leftmost literal that is left is the next of the order. -/
theorem quoted_asideBy (hmark : ∀ pos, 34 ∉ mark pos) (hps : Quoteless ps)
    (horder : literalOrder ps = acc ++ text :: rest) :
    text ∉ acc ∧ 34 ∉ text ∧
      MimeHeaderOption.quoted (render quote (asideBy mark acc ps)) = some text := by
  have hfind := find?_of_eraseDups horder
  refine ⟨by simpa using List.find?_some hfind,
    hps.of_mem_literals text (List.mem_of_find?_eq_some hfind), ?_⟩
  rw [quoted_render (quoteless_asideBy hmark hps acc), literals_asideBy, List.head?_filter, hfind]

/-- With all literals aside there is no quote left. -/
theorem quoted_asideBy_all (hmark : ∀ pos, 34 ∉ mark pos) (hps : Quoteless ps) :
    MimeHeaderOption.quoted (render quote (asideBy mark (literalOrder ps) ps)) = none := by
  rw [quoted_render (quoteless_asideBy hmark hps _), literals_asideBy, List.head?_filter,
    List.find?_eq_none]
  intro l hl
  rw [literalOrder]
  simpa using hl

/-- It is put aside, if it is apart. -/
theorem replaceAll_asideBy (hmark : ∀ pos, 34 ∉ mark pos) (hps : Quoteless ps)
    (horder : literalOrder ps = acc ++ text :: rest) (hapart : Apart text (asideBy mark acc ps)) :
    replaceAll (quote text) (mark acc.length) (render quote (asideBy mark acc ps)) =
      render quote (asideBy mark (acc ++ [text]) ps) := by
  obtain ⟨hnew, htext, -⟩ := quoted_asideBy hmark hps horder
  rw [replaceAll_render htext _ (quoteless_asideBy hmark hps acc) hapart, substitute_asideBy hnew]

/-- With all literals aside, marks stand for them. -/
theorem render_asideBy_literalOrder (ps : List Piece) (f : List UInt8 → List UInt8) :
    render f (asideBy mark (literalOrder ps) ps) =
      render (fun text => mark ((literalOrder ps).idxOf text)) ps := by
  have hall : ∀ text ∈ literals ps, text ∈ literalOrder ps := by
    intro text htext
    rw [literalOrder]
    simpa using htext
  generalize literalOrder ps = order at hall ⊢
  induction ps with
  | nil => rfl
  | cons p ps ih =>
      rcases p with bytes | text
      · exact congrArg (bytes ++ ·) (ih hall)
      · rw [literals, List.forall_mem_cons] at hall
        rw [asideBy, List.map_cons]
        simp only [hall.1, if_true, render_plain, render_literal]
        exact congrArg _ (ih hall.2)

end Marks

theorem quote_not_mem_staticMark (pos : ℕ) : 34 ∉ staticMark pos :=
  not_mem_staticMark (by decide) pos

/-- **The loop puts the literals aside**, from some of them on. -/
theorem takeStaticTexts_aside {ps : List Piece} (hps : Quoteless ps)
    (acc rest : List (List UInt8)) (horder : literalOrder ps = acc ++ rest)
    (hapart : ApartFrom ps acc rest) {fuel : ℕ} (hfuel : rest.length ≤ fuel) :
    takeStaticTexts fuel acc (render quote (aside acc ps)) =
      (literalOrder ps, render quote (aside (literalOrder ps) ps)) := by
  simp only [aside]
  induction rest generalizing acc fuel with
  | nil =>
      rw [List.append_nil] at horder
      have hnone := quoted_asideBy_all quote_not_mem_staticMark hps
      rw [horder] at hnone ⊢
      rcases fuel with _ | fuel
      · rw [takeStaticTexts]
      · rw [takeStaticTexts, hnone]
  | cons text rest ih =>
      obtain ⟨fuel, rfl⟩ : ∃ k, fuel = k + 1 := ⟨fuel - 1, by rw [List.length_cons] at hfuel; omega⟩
      obtain ⟨-, -, hquoted⟩ := quoted_asideBy quote_not_mem_staticMark hps horder
      rw [takeStaticTexts, hquoted]
      have hreplaced := replaceAll_asideBy quote_not_mem_staticMark hps horder hapart.1
      simp only [quote, List.cons_append, List.nil_append, staticMark] at hreplaced ⊢
      rw [hreplaced]
      apply ih
      · rw [horder, List.append_assoc, List.singleton_append]
      · exact hapart.2
      · rw [List.length_cons] at hfuel
        omega

/-- With all literals aside, marks stand for them. -/
theorem render_aside_literalOrder (ps : List Piece) (f : List UInt8 → List UInt8) :
    render f (aside (literalOrder ps) ps) =
      render (fun text => staticMark ((literalOrder ps).idxOf text)) ps :=
  render_asideBy_literalOrder ps f

end Expressions

end Mantids
