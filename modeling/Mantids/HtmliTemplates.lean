/-
# Plain templates

A condition on the files of a site that can be checked file by file: outside its directives a
file holds no `<!--<`, none of its texts ends within one, and no tag or path holds a `<`.

* `StartsInclude` — where directives begin, and that two do not begin at one place;
* `Tight`, `whole_of_tight` — no directive begins inside a piece, whatever text follows: then the
  loop finds and replaces the calls;
* `Plain`, `PlainTemplate` — the condition;
* `tight_of_plainTemplate`, `tight_includedPieces` — plain pieces are tight, with what they include;
* `intact_of_plain` — so a plain page of plain files stays intact.
-/
import Mantids.HtmliExpansion

namespace Mantids

open Occurrence Begins Expansion

namespace HTMLIEngine

/-! ## Where directives begin -/

section Begins

variable {exStaticText : IncludePattern}

variable (exStaticText) in
/-- A directive is in front. -/
def StartsInclude (s : List UInt8) : Prop := (includeHere exStaticText s).isSome = true

theorem startsInclude_iff {s : List UInt8} :
    StartsInclude exStaticText s ↔ ∃ i, IsInclude exStaticText i ∧ i.fulltag <+: s := by
  rw [StartsInclude, Option.isSome_iff_exists]
  exact exists_congr fun i => includeHere_eq_some_iff

/-- Two directives in front of one text are the same. -/
theorem eq_of_fulltag_begins {i e : Include} {s : List UInt8} (hi : IsInclude exStaticText i)
    (he : IsInclude exStaticText e) (his : i.fulltag <+: s) (hes : e.fulltag <+: s) : i = e := by
  have h1 := includeHere_eq_some_iff.mpr ⟨hi, his⟩
  have h2 := includeHere_eq_some_iff.mpr ⟨he, hes⟩
  rw [h1] at h2
  exact Option.some_inj.mp h2

/-- Where no directive begins, the text of one does not occur. -/
theorem not_occursAt_fulltag {i : Include} (hi : IsInclude exStaticText i) {a z : List UInt8}
    (h : ¬ BeginsIn (StartsInclude exStaticText) a z) :
    ∀ q < a.length, ¬ OccursAt i.fulltag (a ++ z) q := by
  intro q hq hoc
  exact h ((beginsIn_iff a z).mpr ⟨q, hq, startsInclude_iff.mpr ⟨i, hi, hoc⟩⟩)

end Begins

/-! ## Pieces no directive begins in -/

/-- Where in a piece no directive should begin. -/
def inside : Piece UInt8 Include → List UInt8
  | .text a => a
  | .call i => i.fulltag.tail

/-- No directive begins inside the piece. -/
def Tight (p : Piece UInt8 Include) : Prop :=
  ∀ z, ¬ BeginsIn (StartsInclude .html) (inside p) z

section Tight

variable {ps : List (Piece UInt8 Include)}

/-- Another directive does not occur in a tight one. -/
theorem not_occursAt_other {i e : Include} (hi : IsInclude .html i) (he : IsInclude .html e)
    (hei : e ≠ i) (h : Tight (.call e)) (z : List UInt8) :
    ∀ q < e.fulltag.length, ¬ OccursAt i.fulltag (e.fulltag ++ z) q := by
  rintro (_ | q) hq hoc
  · -- in front of it, the two would be one
    refine hei (eq_of_fulltag_begins he hi (List.prefix_append _ z) ?_)
    rwa [OccursAt, List.drop_zero] at hoc
  · have hin := h z
    obtain ⟨c, tag, htag⟩ := List.exists_cons_of_ne_nil he.fulltag_ne_nil
    rw [inside, htag, List.tail_cons] at hin
    rw [htag, List.cons_append, OccursAt, List.drop_succ_cons] at hoc
    rw [htag, List.length_cons] at hq
    exact not_occursAt_fulltag hi hin q (by omega) hoc

/-- The search finds the first directive among the pieces. -/
theorem includeSearch_render (htight : ∀ p ∈ ps, Tight p)
    (hcalls : ∀ i, .call i ∈ ps → IsInclude .html i) :
    (includeSearch .html (render Include.fulltag ps)).map Prod.snd = firstCall ps := by
  induction ps with
  | nil => rfl
  | cons p ps ih =>
      rw [List.forall_mem_cons] at htight
      have hrest := ih htight.2 fun i hi => hcalls i (List.mem_cons_of_mem _ hi)
      cases p with
      | text a =>
          have hinside := htight.1 (render Include.fulltag ps)
          rw [inside] at hinside
          rw [render, firstCall, ← hrest, includeSearch, leftmost_append hinside, Option.map_map]
          rfl
      | call i =>
          have hi := hcalls i List.mem_cons_self
          obtain ⟨c, tag, htag⟩ := List.exists_cons_of_ne_nil hi.fulltag_ne_nil
          have hhere : includeHere .html (i.fulltag ++ render Include.fulltag ps) = some i :=
            includeHere_eq_some_iff.mpr ⟨hi, List.prefix_append _ _⟩
          rw [htag, List.cons_append] at hhere
          rw [render, firstCall, includeSearch, htag, List.cons_append,
            leftmost_cons_of_some hhere, Option.map_some]

theorem standsAlone_of_tight {d : Include} (hd : IsInclude .html d)
    (htight : ∀ p ∈ ps, Tight p) (hcalls : ∀ i, .call i ∈ ps → IsInclude .html i) :
    StandsAlone d ps := by
  induction ps with
  | nil => trivial
  | cons p ps ih =>
      rw [List.forall_mem_cons] at htight
      have hrest := ih htight.2 fun i hi => hcalls i (List.mem_cons_of_mem _ hi)
      cases p with
      | text a => exact ⟨not_occursAt_fulltag hd (htight.1 _), hrest⟩
      | call e =>
          have he := hcalls e List.mem_cons_self
          exact ⟨fun hed => not_occursAt_other hd he hed htight.1 _, hrest⟩

theorem whole_of_tight (htight : ∀ p ∈ ps, Tight p)
    (hcalls : ∀ i, .call i ∈ ps → IsInclude .html i) : Whole .html ps where
  search := includeSearch_render htight hcalls
  standsAlone _ hd := standsAlone_of_tight (hcalls _ (mem_of_firstCall hd)) htight hcalls

end Tight

/-! ## The condition -/

/-- The text neither holds nor ends with a part of the opening `<!--<`. -/
def PlainText (a : List UInt8) : Prop :=
  ∀ t ∈ a.tails, t ≠ [] → ¬ t <+: IncludePattern.html.opener ∧ ¬ IncludePattern.html.opener <+: t

instance (a : List UInt8) : Decidable (PlainText a) := List.decidableBAll _ _

def Plain : Piece UInt8 Include → Prop
  | .text a => PlainText a
  | .call i => 60 ∉ i.tag ∧ 60 ∉ i.includePath

instance : DecidablePred Plain
  | .text a => inferInstanceAs (Decidable (PlainText a))
  | .call i => inferInstanceAs (Decidable (60 ∉ i.tag ∧ 60 ∉ i.includePath))

/-- All the pieces of the text are plain. -/
def PlainTemplate (text : List UInt8) : Prop := ∀ p ∈ pieces .html text, Plain p

instance (text : List UInt8) : Decidable (PlainTemplate text) := List.decidableBAll _ _

/-! ## Plain texts -/

theorem html_opener : IncludePattern.html.opener = [60, 33, 45, 45, 60] := rfl

theorem StartsInclude.opener_prefix {exStaticText : IncludePattern} {s : List UInt8}
    (h : StartsInclude exStaticText s) : exStaticText.opener <+: s := by
  obtain ⟨i, ⟨percent, word, run, hfull, -⟩, hs⟩ := startsInclude_iff.mp h
  rw [hfull] at hs
  exact (List.prefix_append _ _).trans hs

theorem tight_of_plainText {a : List UInt8} (h : PlainText a) : Tight (.text a) := by
  intro z hin
  obtain ⟨p, hp, hstarts⟩ := (beginsIn_iff a z).mp hin
  have hopen := hstarts.opener_prefix
  rw [List.drop_append_of_le_length hp.le] at hopen
  have hne : a.drop p ≠ [] := by
    rw [ne_eq, List.drop_eq_nil_iff]
    omega
  obtain ⟨hpart, hwhole⟩ := h (a.drop p) ((List.mem_tails _ _).mpr (List.drop_suffix p a)) hne
  rcases List.prefix_or_prefix_of_prefix hopen (List.prefix_append _ z) with hin | hin
  · exact hwhole hin
  · exact hpart hin

theorem not_beginsIn_of_not_mem_html {a : List UInt8} (h60 : 60 ∉ a) (z : List UInt8) :
    ¬ BeginsIn (StartsInclude .html) a z := by
  refine not_beginsIn (fun c hc s hs => h60 ?_) z
  have hopen := hs.opener_prefix
  rw [html_opener, List.cons_prefix_cons] at hopen
  exact hopen.1 ▸ hc

/-- A text of one `<` that opens no directive. -/
theorem not_beginsIn_of_angle {a : List UInt8} (h60 : 60 ∉ a) {z : List UInt8}
    (hopen : ¬ IncludePattern.html.opener <+: 60 :: (a ++ z)) :
    ¬ BeginsIn (StartsInclude .html) (60 :: a) z := by
  rintro (hhere | hlater)
  · exact hopen hhere.opener_prefix
  · exact not_beginsIn_of_not_mem_html h60 z hlater

theorem tight_of_angle {a : List UInt8} (h60 : 60 ∉ a)
    (hopen : ∀ z, ¬ IncludePattern.html.opener <+: 60 :: (a ++ z)) : Tight (.text (60 :: a)) :=
  fun z => not_beginsIn_of_angle h60 (hopen z)

/-- A word is in front of the first part already, when a letter it does not have follows. -/
theorem prefix_of_prefix_append_cons {w a z : List UInt8} {c : UInt8} (hc : c ∉ w)
    (h : w <+: a ++ c :: z) : w <+: a := by
  rcases List.prefix_or_prefix_of_prefix h (List.prefix_append a (c :: z)) with hin | ⟨r, rfl⟩
  · exact hin
  · rw [List.prefix_append_right_inj] at h
    rcases r with _ | ⟨x, r⟩
    · rw [List.append_nil]
    · refine absurd ?_ hc
      rw [← (List.cons_prefix_cons.mp h).1]
      simp

/-! ## Directives -/

theorem not_mem_word {word : List UInt8} (h : word.map tolower = bytesOf "include") :
    60 ∉ word := by
  intro hmem
  have hin : tolower 60 ∈ word.map tolower := List.mem_map_of_mem hmem
  rw [h] at hin
  exact absurd hin (by decide)

/-- What follows the opening of a directive does not go on with its `!`. -/
theorem head_of_percent_word {percent word : List UInt8} (hpercent : percent = [] ∨ percent = [37])
    (hword : word.map tolower = bytesOf "include") (t : List UInt8) :
    (percent ++ (word ++ t)).head? ≠ some 33 := by
  rcases hpercent with rfl | rfl
  · rcases word with _ | ⟨c, word⟩
    · cases hword
    · intro hc
      cases Option.some_inj.mp hc
      exact absurd (List.cons.inj hword).1 (by decide)
  · simp

theorem mem_pathOf {run : List UInt8} {c : UInt8} (hc : c ≠ 32) (h : c ∈ run) :
    c ∈ pathOf run := by
  have hsplit := List.takeWhile_append_dropWhile (p := fun x : UInt8 => decide (x = 32)) (l := run)
  have hdrop : c ∈ run.dropWhile (· = 32) := by
    rw [← hsplit, List.mem_append] at h
    rcases h with h | h
    · exact absurd (by simpa using List.mem_takeWhile_imp h) hc
    · exact h
  unfold pathOf
  split
  · rename_i hnil
    rw [hnil] at hdrop
    exact absurd hdrop List.not_mem_nil
  · exact hdrop

/-- Inside a directive whose tag and path hold no `<` there is only that of the opening. -/
theorem tight_call_of_plain {i : Include} (hi : IsInclude .html i) (h : Plain (.call i)) :
    Tight (.call i) := by
  intro z
  obtain ⟨percent, word, run, hfull, hpercent, hword, -, -, -, hpath⟩ := hi
  have hrun : 60 ∉ run := fun hmem => h.2 (hpath ▸ mem_pathOf (by decide) hmem)
  have hpercent60 : 60 ∉ percent := by
    rcases hpercent with rfl | rfl
    · decide
    · decide
  set name := percent ++ (word ++ (i.tag ++ 58 :: (run ++ IncludePattern.html.closer))) with hname
  have hname60 : 60 ∉ name := by
    have hcloser : 60 ∉ IncludePattern.html.closer := by decide
    simp [hname, hpercent60, not_mem_word hword, h.1, hrun, hcloser]
  have htail : i.fulltag.tail = [33, 45, 45] ++ 60 :: name := by
    rw [hfull]
    rfl
  rw [inside, htail, beginsIn_append]
  refine not_or_intro (not_beginsIn_of_not_mem_html (by decide) _)
    (not_beginsIn_of_angle hname60 fun hopen => ?_)
  rw [html_opener, List.cons_prefix_cons] at hopen
  -- behind the second `<` there is the word, not the `!` of an opening
  obtain ⟨r, hr⟩ := hopen.2
  have hhead := head_of_percent_word hpercent hword
    (i.tag ++ 58 :: (run ++ IncludePattern.html.closer) ++ z)
  refine hhead ?_
  rw [← List.append_assoc word, ← List.append_assoc percent, ← hname, ← hr]
  rfl

/-! ## What is put in for a directive -/

section Included

variable {docs : Documents}

theorem tight_of_plainTemplate {text : List UInt8} (h : PlainTemplate text) :
    ∀ p ∈ pieces .html text, Tight p := by
  intro p hp
  cases p with
  | text a => exact tight_of_plainText (h _ hp)
  | call i => exact tight_call_of_plain (isInclude_of_mem_pieces hp) (h _ hp)

/-- The texts around an included file are tight as well. -/
theorem tight_includedPieces (hfiles : ∀ path content,
      docs.ifstream (docs.documentRootPath ++ path) = .content content → PlainTemplate content)
    {i : Include} (h : Plain (.call i)) :
    ∀ p ∈ includedPieces docs .html i, Tight p := by
  have htag : 60 ∉ i.tag.drop 1 := fun hmem => h.1 (List.mem_of_mem_drop hmem)
  unfold includedPieces
  split
  · rename_i content hcontent
    have hpieces := tight_of_plainTemplate (hfiles _ _ hcontent)
    split
    · rintro p hp
      rcases List.mem_cons.mp hp with rfl | hp
      · -- `<tag>`
        refine tight_of_angle (a := i.tag.drop 1 ++ [62]) (by simpa using htag) fun z hopen => ?_
        rw [html_opener, List.cons_prefix_cons, List.append_assoc] at hopen
        have hin := prefix_of_prefix_append_cons (w := [33, 45, 45, 60]) (by decide +kernel) hopen.2
        exact htag (hin.subset (by simp))
      · rcases List.mem_append.mp hp with hp | hp
        · exact hpieces p hp
        · -- `</tag>`
          rw [List.mem_singleton.mp hp]
          refine tight_of_angle (a := 47 :: (i.tag.drop 1 ++ [62])) (by simpa using htag)
            fun z hopen => ?_
          simp [html_opener, List.cons_prefix_cons] at hopen
    · exact hpieces
  · exact fun p hp => absurd hp List.not_mem_nil
  · -- the comment
    have hcomment : bytesOf "<!-- HTMLI ENGINE ERROR (FILE NOT FOUND): " =
        60 :: 33 :: 45 :: 45 :: 32 :: bytesOf "HTMLI ENGINE ERROR (FILE NOT FOUND): " := by
      rw [bytesOf_ofList, bytesOf_ofList]
      rfl
    have hmessage : 60 ∉ bytesOf "HTMLI ENGINE ERROR (FILE NOT FOUND): " := by
      rw [bytesOf_ofList]
      decide +kernel
    have hend : 60 ∉ bytesOf " -->" := by decide +kernel
    intro p hp
    rw [List.mem_singleton.mp hp, hcomment]
    refine tight_of_angle (a := 33 :: 45 :: 45 :: 32 ::
      (bytesOf "HTMLI ENGINE ERROR (FILE NOT FOUND): " ++ i.includePath ++ bytesOf " -->"))
      (by simp [hmessage, hend, h.2]) fun z hopen => ?_
    simp [html_opener, List.cons_prefix_cons] at hopen

/-- The directives in what is put in are plain. -/
theorem plain_of_uses (hfiles : ∀ path content,
      docs.ifstream (docs.documentRootPath ++ path) = .content content → PlainTemplate content)
    {i d : Include} (h : Uses (includedPieces docs .html) i d) :
    IsInclude .html i ∧ Plain (.call i) := by
  obtain ⟨content, hcontent, hin⟩ := exists_content_of_uses h
  exact ⟨isInclude_of_mem_pieces hin, hfiles _ _ hcontent _ hin⟩

/-- All the stages of a plain page consist of tight pieces. -/
theorem intact_of_plain (hfiles : ∀ path content,
      docs.ifstream (docs.documentRootPath ++ path) = .content content → PlainTemplate content)
    {text : List UInt8} (h : PlainTemplate text) : Intact docs .html text := by
  intro ps hps
  suffices hinv : (∀ p ∈ ps, Tight p) ∧
      ∀ i, .call i ∈ ps → IsInclude .html i ∧ Plain (.call i) from
    whole_of_tight hinv.1 fun i hi => (hinv.2 i hi).1
  induction hps with
  | refl => exact ⟨tight_of_plainTemplate h, fun i hi => ⟨isInclude_of_mem_pieces hi, h _ hi⟩⟩
  | tail _ hround ih =>
      obtain ⟨htight, hcalls⟩ := ih
      obtain ⟨d, hd, rfl⟩ := hround
      have hplain := (hcalls d (mem_of_firstCall hd)).2
      constructor
      · intro p hp
        rcases mem_subst _ hp with hin | ⟨-, hbody⟩
        · exact htight p hin
        · exact tight_includedPieces hfiles hplain p hbody
      · intro i hi
        rcases mem_subst _ hi with hin | ⟨-, huse⟩
        · exact hcalls i hin
        · exact plain_of_uses hfiles huse

end Included

end HTMLIEngine

end Mantids
