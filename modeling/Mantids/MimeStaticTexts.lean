/-
# Quoted texts of a header are put aside

`MIME_Sub_Header::parseSubValues` (`Protocol_MIME/mime_sub_header.cpp`) takes the leftmost text
between two quotes and puts a mark for it wherever it stands between quotes.  Those need not be its
own: the text between the closing quote of one text and the opening quote of the next is replaced as
well, and the two texts become one.

* `openSemicolons` — the semicolons outside of quotes, where a header is cut;
* `openSemicolons_takeStaticTexts_le` — the loop makes no new ones;
* `takeStaticTexts_apart` — it puts aside what it should if the texts are apart;
* `openSemicolons_takeStaticTexts_lt` — and has lost a semicolon if they are not;
* `quote_not_mem_takeStaticTexts` — in the end there is no quote left.
-/
import Mantids.JsonEvalLiterals
import Mantids.Texts
import Mantids.UrlCodec

namespace Mantids

open Occurrence Expressions

/-! ## Semicolons outside of quotes -/

/-- The semicolons outside of quotes in a text that begins between two quotes, or not. -/
def openSemicolons : Bool → List UInt8 → ℕ
  | _, [] => 0
  | inside, c :: s =>
    if c = 34 then openSemicolons (!inside) s
    else (if c = 59 ∧ inside = false then 1 else 0) + openSemicolons inside s

/-- Whether it ends between two quotes. -/
def insideAfter (inside : Bool) (s : List UInt8) : Bool :=
  s.foldl (fun b c => if c = 34 then !b else b) inside

theorem openSemicolons_append (inside : Bool) (a s : List UInt8) :
    openSemicolons inside (a ++ s) =
      openSemicolons inside a + openSemicolons (insideAfter inside a) s := by
  induction a generalizing inside with
  | nil => simp [openSemicolons, insideAfter]
  | cons c a ih =>
      rw [List.cons_append, openSemicolons, openSemicolons, insideAfter, List.foldl_cons,
        ← insideAfter]
      by_cases hc : c = 34
      · rw [if_pos hc, if_pos hc, if_pos hc, ih]
      · rw [if_neg hc, if_neg hc, if_neg hc, ih, Nat.add_assoc]

/-- A text without quotes. -/
theorem openSemicolons_plain {a : List UInt8} (ha : 34 ∉ a) (inside : Bool) (s : List UInt8) :
    openSemicolons inside (a ++ s) = (if inside then 0 else a.count 59) + openSemicolons inside
      s := by
  induction a with
  | nil => simp
  | cons c a ih =>
      rw [List.mem_cons, not_or] at ha
      rw [List.cons_append, openSemicolons, if_neg (Ne.symm ha.1), ih ha.2]
      rcases inside with _ | _
      · by_cases hc : c = 59
        · simp [hc]
          omega
        · simp [hc]
      · simp

/-- A text between two quotes, which are its own or those of its neighbours. -/
theorem openSemicolons_quote {text : List UInt8} (htext : 34 ∉ text) (inside : Bool)
    (s : List UInt8) : openSemicolons inside (quote text ++ s) =
      (if inside then text.count 59 else 0) + openSemicolons inside s := by
  rw [quote, List.cons_append, openSemicolons, if_pos rfl, List.append_assoc,
    openSemicolons_plain htext, List.singleton_append, openSemicolons, if_pos rfl, Bool.not_not]
  rcases inside with _ | _ <;> rfl

/-- What stands for a text has neither quotes nor semicolons. -/
def Clean (mark : List UInt8) : Prop := 34 ∉ mark ∧ 59 ∉ mark

theorem Clean.openSemicolons {mark : List UInt8} (hmark : Clean mark) (inside : Bool)
    (s : List UInt8) : openSemicolons inside (mark ++ s) = openSemicolons inside s := by
  rw [openSemicolons_plain hmark.1, List.count_eq_zero_of_not_mem hmark.2]
  simp

section Replace

variable {text mark : List UInt8}

theorem quote_ne_nil (text : List UInt8) : quote text ≠ [] := List.cons_ne_nil _ _

/-- A round of `boost::replace_all`. -/
theorem replaceAllFrom_cases (search replacement : List UInt8) (hne : search ≠ []) (fuel : ℕ)
    (s : List UInt8) :
    (first search s = none ∧ replaceAllFrom search replacement (fuel + 1) s = s) ∨
      ∃ a r, s = a ++ (search ++ r) ∧ replaceAllFrom search replacement (fuel + 1) s =
        a ++ (replacement ++ replaceAllFrom search replacement fuel r) := by
  rw [replaceAllFrom]
  rcases hfirst : first search s with _ | p
  · exact Or.inl ⟨rfl, rfl⟩
  · obtain ⟨⟨r, hr⟩, -⟩ := (first_eq_some_iff hne).mp hfirst
    have hsplit : s = s.take p ++ (search ++ r) := by rw [hr, List.take_append_drop]
    have hrest : s.drop (p + search.length) = r := by
      rw [← List.drop_drop, ← hr, List.drop_left]
    refine Or.inr ⟨s.take p, r, hsplit, ?_⟩
    dsimp only
    rw [hrest, List.append_assoc]

theorem openSemicolons_replaceAllFrom_le (htext : 34 ∉ text) (hmark : Clean mark) (fuel : ℕ)
    (inside : Bool) (s : List UInt8) :
    openSemicolons inside (replaceAllFrom (quote text) mark fuel s) ≤ openSemicolons inside s := by
  induction fuel generalizing inside s with
  | zero => exact le_refl _
  | succ fuel ih =>
      rcases replaceAllFrom_cases (quote text) mark (quote_ne_nil text) fuel s with
        ⟨-, heq⟩ | ⟨a, r, rfl, heq⟩
      · rw [heq]
      · rw [heq, openSemicolons_append inside a, openSemicolons_append inside a,
          hmark.openSemicolons, openSemicolons_quote htext]
        have hrest := ih (insideAfter inside a) r
        omega

/-- Two quotes go with each text that is replaced. -/
theorem count_replaceAllFrom (htext : 34 ∉ text) (hmark : Clean mark) (fuel : ℕ) (s : List UInt8) :
    ∃ j, s.count 34 = (replaceAllFrom (quote text) mark fuel s).count 34 + 2 * j ∧
      (0 < fuel → first (quote text) s ≠ none → 0 < j) := by
  induction fuel generalizing s with
  | zero => exact ⟨0, rfl, fun h => absurd h (Nat.lt_irrefl 0)⟩
  | succ fuel ih =>
      rcases replaceAllFrom_cases (quote text) mark (quote_ne_nil text) fuel s with
        ⟨hnone, heq⟩ | ⟨a, r, rfl, heq⟩
      · exact ⟨0, by rw [heq]; rfl, fun _ hsome => absurd hnone hsome⟩
      · obtain ⟨j, hj, -⟩ := ih r
        refine ⟨j + 1, ?_, fun _ _ => Nat.succ_pos j⟩
        have hquotes : (quote text).count 34 = 2 := by
          rw [quote, List.count_cons_self, List.count_append, List.count_eq_zero_of_not_mem htext]
          rfl
        rw [heq]
        simp only [List.count_append, hquotes, List.count_eq_zero_of_not_mem hmark.1, hj]
        omega

/-- The text up to the next literal is in front of it. -/
theorem isPrefix_of_nextGap {ps : List Piece} {gap : List UInt8} (h : nextGap ps = some gap) :
    ∃ r, render quote ps = gap ++ 34 :: r := by
  induction ps generalizing gap with
  | nil => cases h
  | cons p ps ih =>
      rcases p with bytes | other
      · obtain ⟨gap', hgap, rfl⟩ := Option.map_eq_some_iff.mp h
        obtain ⟨r, hr⟩ := ih hgap
        exact ⟨r, by rw [render_plain, hr, List.append_assoc]⟩
      · obtain rfl := Option.some.inj h
        exact ⟨other ++ [34] ++ render quote ps, rfl⟩

/-- A text that is not apart takes a semicolon with it. -/
theorem openSemicolons_replaceAllFrom_lt (htext : 34 ∉ text) (hsemicolon : 59 ∈ text)
    (hmark : Clean mark) {ps : List Piece} (hps : Quoteless ps) (hcrossed : ¬ Apart text ps)
    {fuel : ℕ} (hfuel : (render quote ps).length ≤ fuel) :
    openSemicolons false (replaceAllFrom (quote text) mark fuel (render quote ps)) <
      openSemicolons false (render quote ps) := by
  have hne := quote_ne_nil text
  induction ps generalizing fuel with
  | nil => exact absurd trivial hcrossed
  | cons p ps ih =>
      rcases p with bytes | other
      · obtain ⟨hbytes, hps⟩ := quoteless_plain.mp hps
        rw [render_plain, List.length_append] at hfuel
        have hrest := @ih hps hcrossed fuel (by omega)
        rw [render_plain, replaceAllFrom_skip hne fuel _ (not_occursAt_of_not_mem hbytes _),
          openSemicolons_plain hbytes, openSemicolons_plain hbytes]
        omega
      · obtain ⟨hother, hps⟩ := quoteless_literal.mp hps
        rw [render_literal, List.length_append, length_quote] at hfuel
        obtain ⟨fuel, rfl⟩ : ∃ k, fuel = k + 1 := ⟨fuel - 1, by omega⟩
        rw [render_literal]
        by_cases hsame : other = text
        · -- the text itself goes, and a later one is not apart
          subst hsame
          have hlater : ¬ Apart other ps := fun h => hcrossed ⟨fun hne => absurd rfl hne, h⟩
          have hrest := @ih hps hlater fuel (by omega)
          rw [replaceAllFrom_hit hne, hmark.openSemicolons, openSemicolons_quote hother]
          simpa using hrest
        · by_cases hgap : nextGap ps = some text
          · -- it begins at the closing quote of the other text
            obtain ⟨r, hr⟩ := isPrefix_of_nextGap hgap
            have hsplit : quote other ++ render quote ps = (34 :: other) ++ (quote text ++ r) := by
              simp [quote, hr]
            have hskip : ∀ q < (34 :: other).length,
                ¬ OccursAt (quote text) ((34 :: other) ++ (quote text ++ r)) q := by
              intro q hq
              rw [show (34 :: other) ++ (quote text ++ r) =
                34 :: (other ++ 34 :: (text ++ 34 :: r)) by
                simp [quote]]
              exact not_occursAt_open htext hother hsame _ q hq
            have hrest := openSemicolons_replaceAllFrom_le htext hmark fuel true r
            have hpos := List.count_pos_iff.mpr hsemicolon
            rw [hsplit, replaceAllFrom_skip hne _ _ hskip, replaceAllFrom_hit hne, List.cons_append,
              List.cons_append, openSemicolons, openSemicolons, if_pos rfl, if_pos rfl,
              openSemicolons_plain hother, openSemicolons_plain hother, hmark.openSemicolons,
              openSemicolons_quote htext]
            simp only [Bool.not_false, if_true]
            omega
          · have hlater : ¬ Apart text ps := fun h => hcrossed ⟨fun _ => hgap, h⟩
            have hskip := not_occursAt_quote htext hother hsame hps hgap
            have hrest := @ih hps hlater (fuel + 1) (by omega)
            rw [replaceAllFrom_skip hne _ _ hskip, openSemicolons_quote hother,
              openSemicolons_quote hother]
            simpa using hrest

end Replace

/-! ## The loop -/

namespace MimeHeaderOption

/-- A text with a quote is cut at the first one. -/
theorem cut_at_quote {s : List UInt8} (h : 34 ∈ s) :
    s = s.takeWhile (· ≠ 34) ++ 34 :: (s.dropWhile (· ≠ 34)).drop 1 := by
  have hne : s.dropWhile (· ≠ 34) ≠ [] := by
    intro hnil
    simpa using List.dropWhile_eq_nil_iff.mp hnil 34 h
  obtain ⟨c, rest, hrest⟩ := List.exists_cons_of_ne_nil hne
  have hc : c = 34 := by
    have hhead := List.head?_dropWhile_not (· ≠ (34 : UInt8)) s
    rw [hrest] at hhead
    simpa using hhead
  have hsplit := List.takeWhile_append_dropWhile (p := (· ≠ (34 : UInt8))) (l := s)
  rw [hrest, hc] at hsplit
  rw [hrest, List.drop_one, List.tail_cons, hsplit]

theorem quote_not_mem_takeWhile (s : List UInt8) : 34 ∉ s.takeWhile (· ≠ 34) :=
  fun h => by simpa using List.mem_takeWhile_imp h

theorem quoted_eq_some {s text : List UInt8} (h : quoted s = some text) :
    34 ∉ text ∧ ∃ a r, s = a ++ (quote text ++ r) := by
  unfold quoted at h
  dsimp only at h
  split at h
  · rename_i hmem
    obtain rfl := Option.some.inj h
    have hs : 34 ∈ s :=
      (List.dropWhile_suffix _).subset (List.mem_of_mem_drop hmem)
    refine ⟨quote_not_mem_takeWhile _, s.takeWhile (· ≠ 34),
      (((s.dropWhile (· ≠ 34)).drop 1).dropWhile (· ≠ 34)).drop 1, ?_⟩
    have hrest := cut_at_quote hmem
    simp only [quote, List.cons_append, List.append_assoc, List.nil_append]
    rw [← hrest]
    exact cut_at_quote hs
  · cases h

theorem quoted_eq_none {s : List UInt8} (h : quoted s = none) : s.count 34 ≤ 1 := by
  unfold quoted at h
  dsimp only at h
  split at h
  · cases h
  · rename_i hmem
    by_cases hs : 34 ∈ s
    · rw [cut_at_quote hs, List.count_append,
        List.count_eq_zero_of_not_mem (quote_not_mem_takeWhile s), List.count_cons_self,
        List.count_eq_zero_of_not_mem hmem]
    · rw [List.count_eq_zero_of_not_mem hs]
      exact Nat.zero_le 1

/-- The marks are made of letters, digits and underscores. -/
theorem mem_staticMessage {tag : List UInt8} (htag : ∀ c ∈ tag, isalnum c = true) (pos : ℕ) :
    ∀ c ∈ staticMessage tag pos, isalnum c = true ∨ c = 95 := by
  intro c hc
  have hc := List.take_subset _ _ hc
  rw [List.mem_append, List.mem_append, List.mem_append] at hc
  rcases hc with ((hc | hc) | hc) | hc
  · have hall : (bytesOf "_STATIC_").all (fun c => isalnum c || c == 95) = true := by decide
    simpa using List.all_eq_true.mp hall c hc
  · exact Or.inl (htag c hc)
  · exact Or.inr (List.mem_singleton.mp hc)
  · have hdigit := isdigit_of_mem_decimal pos c hc
    unfold isdigit at hdigit
    rw [isalnum, hdigit, Bool.or_true]
    exact Or.inl rfl

section Loop

variable {tag : List UInt8} (htag : ∀ c ∈ tag, isalnum c = true)

include htag

theorem not_mem_staticMessage {c : UInt8} (hc : isalnum c = false) (hc' : c ≠ 95) (pos : ℕ) :
    c ∉ staticMessage tag pos := by
  intro hmem
  rcases mem_staticMessage htag pos c hmem with h | h
  · rw [hc] at h
    cases h
  · exact hc' h

theorem clean_staticMessage (pos : ℕ) : Clean (staticMessage tag pos) :=
  ⟨not_mem_staticMessage htag (by decide) (by decide) pos,
    not_mem_staticMessage htag (by decide) (by decide) pos⟩

theorem openSemicolons_takeStaticTexts_le (fuel : ℕ) (vStaticTexts : List (List UInt8))
    (s : List UInt8) :
    openSemicolons false (takeStaticTexts tag fuel vStaticTexts s).2 ≤ openSemicolons false s := by
  induction fuel generalizing vStaticTexts s with
  | zero => exact le_refl _
  | succ fuel ih =>
      rw [takeStaticTexts]
      rcases hquoted : quoted s with _ | text
      · exact le_refl _
      · exact (ih _ _).trans (openSemicolons_replaceAllFrom_le (quoted_eq_some hquoted).1
          (clean_staticMessage htag _) _ false s)

/-- **No quote is left** where there is a round for every two of them. -/
theorem quote_not_mem_takeStaticTexts {m fuel : ℕ} (vStaticTexts : List (List UInt8))
    {s : List UInt8} (hs : s.count 34 = 2 * m) (hfuel : m ≤ fuel) :
    34 ∉ (takeStaticTexts tag fuel vStaticTexts s).2 := by
  induction fuel generalizing m vStaticTexts s with
  | zero =>
      obtain rfl : m = 0 := Nat.le_zero.mp hfuel
      exact List.count_eq_zero.mp hs
  | succ fuel ih =>
      rw [takeStaticTexts]
      rcases hquoted : quoted s with _ | text
      · have hle := quoted_eq_none hquoted
        exact List.count_eq_zero.mp (show s.count 34 = 0 by omega)
      · obtain ⟨htext, a, r, hsplit⟩ := quoted_eq_some hquoted
        obtain ⟨j, hj, hpos⟩ := count_replaceAllFrom htext
          (clean_staticMessage htag vStaticTexts.length) s.length s
        -- the text that was found is replaced
        have hfound : first (quote text) s ≠ none := by
          intro hnone
          rw [first_eq_none_iff (quote_ne_nil text)] at hnone
          apply hnone a.length
          rw [hsplit, OccursAt, List.drop_left]
          exact List.prefix_append _ _
        have hlen : 0 < s.length := by
          rw [hsplit, List.length_append, List.length_append, length_quote]
          omega
        have hround := hpos hlen hfound
        exact ih (m := m - j) _ (by
          show (replaceAllFrom (quote text) _ s.length s).count 34 = _
          omega) (by omega)

variable {ps : List Piece} (hps : Quoteless ps)

include hps

/-- The texts that are put aside are apart, from some of them on. -/
theorem takeStaticTexts_apart (acc rest : List (List UInt8))
    (horder : literalOrder ps = acc ++ rest)
    (hapart : ∀ before text after, rest = before ++ text :: after →
      Apart text (asideBy (staticMessage tag) (acc ++ before) ps)) {fuel : ℕ}
    (hfuel : rest.length ≤ fuel) :
    takeStaticTexts tag fuel acc (render quote (asideBy (staticMessage tag) acc ps)) =
      (literalOrder ps, render quote (asideBy (staticMessage tag) (literalOrder ps) ps)) := by
  have hmark : ∀ pos, 34 ∉ staticMessage tag pos := fun pos => (clean_staticMessage htag pos).1
  induction rest generalizing acc fuel with
  | nil =>
      rw [List.append_nil] at horder
      have hnone := quoted_asideBy_all hmark hps
      rw [horder] at hnone ⊢
      rcases fuel with _ | fuel
      · rw [takeStaticTexts]
      · rw [takeStaticTexts, hnone]
  | cons text rest ih =>
      obtain ⟨fuel, rfl⟩ : ∃ k, fuel = k + 1 := ⟨fuel - 1, by rw [List.length_cons] at hfuel; omega⟩
      obtain ⟨-, -, hquoted⟩ := quoted_asideBy hmark hps horder
      have hfirst : Apart text (asideBy (staticMessage tag) acc ps) := by
        simpa using hapart [] text rest rfl
      have hreplaced := replaceAll_asideBy hmark hps horder hfirst
      rw [takeStaticTexts, hquoted]
      show takeStaticTexts tag fuel (acc ++ [text]) (replaceAll (quote text) _ _) = _
      rw [hreplaced]
      apply ih
      · rw [horder, List.append_assoc, List.singleton_append]
      · intro before text' after hrest
        rw [List.append_assoc, List.singleton_append]
        exact hapart (text :: before) text' after (by rw [hrest, List.cons_append])
      · rw [List.length_cons] at hfuel
        omega

/-- Where one of them is not, a semicolon is lost. -/
theorem openSemicolons_takeStaticTexts_lt (acc rest : List (List UInt8))
    (horder : literalOrder ps = acc ++ rest)
    (hsemicolon : ∀ before text after, rest = before ++ text :: after →
      ¬ Apart text (asideBy (staticMessage tag) (acc ++ before) ps) → 59 ∈ text)
    (hcrossed : ∃ before text after, rest = before ++ text :: after ∧
      ¬ Apart text (asideBy (staticMessage tag) (acc ++ before) ps)) {fuel : ℕ}
    (hfuel : rest.length ≤ fuel) :
    openSemicolons false
        (takeStaticTexts tag fuel acc (render quote (asideBy (staticMessage tag) acc ps))).2 <
      openSemicolons false (render quote (asideBy (staticMessage tag) acc ps)) := by
  have hmark : ∀ pos, 34 ∉ staticMessage tag pos := fun pos => (clean_staticMessage htag pos).1
  induction rest generalizing acc fuel with
  | nil =>
      obtain ⟨before, text, after, hrest, -⟩ := hcrossed
      exact absurd hrest (by simp)
  | cons text rest ih =>
      obtain ⟨fuel, rfl⟩ : ∃ k, fuel = k + 1 := ⟨fuel - 1, by rw [List.length_cons] at hfuel; omega⟩
      obtain ⟨-, htext, hquoted⟩ := quoted_asideBy hmark hps horder
      rw [takeStaticTexts, hquoted]
      show openSemicolons false (takeStaticTexts tag fuel (acc ++ [text])
        (replaceAll (quote text) (staticMessage tag acc.length) _)).2 < _
      by_cases hfirst : Apart text (asideBy (staticMessage tag) acc ps)
      · -- the text is put aside, and one of the others is not apart
        have hreplaced := replaceAll_asideBy hmark hps horder hfirst
        have hle := openSemicolons_replaceAllFrom_le htext (clean_staticMessage htag acc.length)
          (render quote (asideBy (staticMessage tag) acc ps)).length false
          (render quote (asideBy (staticMessage tag) acc ps))
        rw [← replaceAll, hreplaced] at hle
        rw [hreplaced]
        refine lt_of_lt_of_le (ih (acc ++ [text]) ?_ ?_ ?_ ?_) hle
        · rw [horder, List.append_assoc, List.singleton_append]
        · intro before other after hrest hnot
          rw [List.append_assoc, List.singleton_append] at hnot
          exact hsemicolon (text :: before) other after (by rw [hrest, List.cons_append]) hnot
        · obtain ⟨before, other, after, hrest, hnot⟩ := hcrossed
          rcases before with _ | ⟨b, before⟩
          · obtain ⟨rfl, -⟩ := List.cons.inj hrest
            rw [List.append_nil] at hnot
            exact absurd hfirst hnot
          · obtain ⟨rfl, rfl⟩ := List.cons.inj hrest
            refine ⟨before, other, after, rfl, ?_⟩
            rw [List.append_assoc, List.singleton_append]
            exact hnot
        · rw [List.length_cons] at hfuel
          omega
      · -- the rounds that follow bring no semicolon back
        have hsemi : 59 ∈ text :=
          hsemicolon [] text rest rfl (by rwa [List.append_nil])
        exact lt_of_le_of_lt (openSemicolons_takeStaticTexts_le htag fuel _ _)
          (openSemicolons_replaceAllFrom_lt htext hsemi (clean_staticMessage htag _)
            (quoteless_asideBy hmark hps acc) hfirst (le_refl _))

end Loop

end MimeHeaderOption

end Mantids
