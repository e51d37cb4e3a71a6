/-
# Includes and content types

`procResource_HTMLIEngineInclude` compares the content type with `application/javacript`, which no
response has: scripts are searched for the directives of HTML, too.

* `patternFor` — the pattern for each of the two content types that get here;
* `FullyExpanded` — no directive of that pattern is left, and each is replaced, recursively;
* `expands_of_iProcResource` — the loop returns the recursive expansion;
* `Apart` — no directive of a script overlaps one of HTML;
* `LeftRight`, `fullyExpanded_iff` — pages are expanded whose directives stay in one piece, and of
  scripts those without a directive.

Where directives are put together out of parts, or overlap, the loop does something else, which may
happen to be the expansion.
-/
import Mantids.HtmliReturns

namespace Mantids

open Begins Expansion

namespace HTMLIEngine

/-! ## What is to be done -/

/-- The pattern whose directives a resource of this type holds. -/
def patternFor (contentType : List UInt8) : IncludePattern :=
  if contentType = bytesOf "application/javascript" then .js else .html

/-- Each directive of the resource is replaced by its file, or the comment, with the directives in
there replaced in turn; none is left. -/
def FullyExpanded (docs : Documents) (contentType text : List UInt8) : Prop :=
  ∃ fuel out n,
    docs.procResourceHTMLIEngineInclude contentType fuel text = some (.returned out) ∧
    includeSearch (patternFor contentType) out = none ∧
      Expands (includedPieces docs (patternFor contentType))
        (pieces (patternFor contentType) text) out n

/-- No file of the site is included into itself. -/
def Acyclic (docs : Documents) (exStaticText : IncludePattern) : Prop :=
  ∀ i, ¬ Relation.TransGen (Uses (includedPieces docs exStaticText)) i i

section Runs

variable {docs : Documents} {exStaticText : IncludePattern}

/-! ## What is done -/

/-- The loop ends with a text that holds no directive. -/
theorem includeSearch_of_iProcResource {fuel : ℕ} {text out : List UInt8}
    (h : docs.iProcResourceHTMLIEngineInclude exStaticText fuel text = some (.returned out)) :
    includeSearch exStaticText out = none := by
  induction fuel generalizing text with
  | zero => cases h
  | succ fuel ih =>
      rcases hfound : includeSearch exStaticText text with _ | ⟨p, i⟩
      · rw [Documents.iProcResource_of_none hfound] at h
        cases h
        exact hfound
      · rcases hread : docs.includeReplacement i with _ | replacement
        · rw [Documents.iProcResource_of_unreadable hfound hread] at h
          cases h
        · rw [Documents.iProcResource_of_replacement hfound hread] at h
          exact ih h

/-- It ends with the recursive expansion. -/
theorem expands_of_iProcResource {text : List UInt8}
    (h : Intact docs exStaticText text) {fuel : ℕ} {out : List UInt8}
    (hout : docs.iProcResourceHTMLIEngineInclude exStaticText fuel text = some (.returned out)) :
    ∃ n, Expands (includedPieces docs exStaticText) (pieces exStaticText text) out n := by
  obtain ⟨⟨qs, hqs, rfl⟩, -⟩ := (returned_iff h).mp hout
  exact (expands_of_expand _ hqs).2

theorem pieces_of_none {text : List UInt8} (h : includeSearch exStaticText text = none) :
    pieces exStaticText text = [.text text] := by
  unfold pieces
  rcases text.length with _ | fuel
  · rfl
  · rw [piecesFrom, h]

/-- Such a text is its own expansion. -/
theorem expands_of_none {text out : List UInt8} {n : ℕ}
    (h : includeSearch exStaticText text = none)
    (hout : Expands (includedPieces docs exStaticText) (pieces exStaticText text) out n) :
    out = text := by
  have htext : Expands (includedPieces docs exStaticText) [.text text] (text ++ []) 0 :=
    .text text .nil
  rw [pieces_of_none h] at hout
  rw [(hout.functional htext).1, List.append_nil]

/-! ## Two patterns in one text -/

/-- No directive of a script overlaps one of HTML. -/
def Apart (text : List UInt8) : Prop :=
  ∀ p q i j, includeHere .js (text.drop p) = some i → includeHere .html (text.drop q) = some j →
    p + i.fulltag.length ≤ q ∨ q + j.fulltag.length ≤ p

theorem StartsInclude.append {s : List UInt8} (h : StartsInclude exStaticText s)
    (z : List UInt8) : StartsInclude exStaticText (s ++ z) := by
  obtain ⟨i, hi, hs⟩ := startsInclude_iff.mp h
  exact startsInclude_iff.mpr ⟨i, hi, hs.trans (List.prefix_append _ _)⟩

theorem beginsIn_of_isInfix {a s : List UInt8} (hin : a <:+: s)
    (h : BeginsIn (StartsInclude exStaticText) a []) :
    BeginsIn (StartsInclude exStaticText) s [] := by
  obtain ⟨x, y, rfl⟩ := hin
  rw [beginsIn_append, beginsIn_append, List.append_nil]
  refine .inl (.inr (h.imp fun u _ hu => ?_))
  rw [List.append_nil] at hu
  exact hu.append y

theorem includeSearch_eq_none_iff {text : List UInt8} :
    includeSearch exStaticText text = none ↔ ¬ BeginsIn (StartsInclude exStaticText) text [] :=
  leftmost_eq_none_iff

/-- What follows some part of the text is apart as well. -/
theorem Apart.drop {text : List UInt8} (h : Apart text) (k : ℕ) : Apart (text.drop k) := by
  intro p q i j hi hj
  rw [List.drop_drop] at hi hj
  have := h (k + p) (k + q) i j hi hj
  omega

theorem fulltag_length_pos {s : List UInt8} {i : Include}
    (h : includeHere exStaticText s = some i) : 0 < i.fulltag.length :=
  List.length_pos_iff.mpr (includeHere_eq_some_iff.mp h).1.fulltag_ne_nil

/-- A directive ends within the text it was found in. -/
theorem length_le_of_includeHere {text : List UInt8} {p : ℕ} {i : Include}
    (h : includeHere exStaticText (text.drop p) = some i) :
    p + i.fulltag.length ≤ text.length := by
  have hle := (includeHere_eq_some_iff.mp h).2.length_le
  have hpos := fulltag_length_pos h
  rw [List.length_drop] at hle
  omega

/-- A directive that ends within the first bytes of a text begins there. -/
theorem beginsIn_take {text : List UInt8} {p q : ℕ} {i : Include}
    (h : includeHere exStaticText (text.drop p) = some i) (hq : p + i.fulltag.length ≤ q) :
    BeginsIn (StartsInclude exStaticText) (text.take q) [] := by
  have hpos := fulltag_length_pos h
  have hle := length_le_of_includeHere h
  obtain ⟨hi, hfull⟩ := includeHere_eq_some_iff.mp h
  refine (beginsIn_iff _ _).mpr ⟨p, by rw [List.length_take]; omega, ?_⟩
  rw [List.append_nil, List.drop_take]
  refine startsInclude_iff.mpr ⟨i, hi, List.prefix_take_iff.mpr ⟨hfull, ?_⟩⟩
  omega

/-- A directive of a script that overlaps none of HTML stands in the text between them. -/
theorem exists_text_of_apart {text : List UInt8} (hapart : Apart text) {p : ℕ} {i : Include}
    (h : includeHere .js (text.drop p) = some i) :
    ∃ a, .text a ∈ pieces .html text ∧ BeginsIn (StartsInclude .js) a [] := by
  have hfrom : ∀ fuel (text : List UInt8) (p : ℕ), text.length ≤ fuel → Apart text →
      includeHere .js (text.drop p) = some i →
        ∃ a, .text a ∈ piecesFrom .html fuel text ∧ BeginsIn (StartsInclude .js) a [] := by
    intro fuel
    induction fuel with
    | zero =>
        intro text p hfuel _ h
        have := length_le_of_includeHere h
        have := fulltag_length_pos h
        omega
    | succ fuel ih =>
        intro text p hfuel hapart h
        unfold piecesFrom
        split
        · refine ⟨text, List.mem_singleton_self _, ?_⟩
          have hbegins := beginsIn_take h (length_le_of_includeHere h)
          rwa [List.take_length] at hbegins
        · rename_i q j hsearch
          have hhere := (of_leftmost hsearch).2.1
          have hpos := fulltag_length_pos hhere
          rcases hapart p q i j h hhere with hbefore | hafter
          · exact ⟨text.take q, List.mem_cons_self, beginsIn_take h hbefore⟩
          · -- behind the directive of HTML
            have hrest : includeHere .js ((text.drop (q + j.fulltag.length)).drop
                (p - (q + j.fulltag.length))) = some i := by
              rw [List.drop_drop, Nat.add_sub_cancel' hafter]
              exact h
            obtain ⟨a, ha, hbegins⟩ :=
              ih _ _ (by rw [List.length_drop]; omega) (hapart.drop _) hrest
            exact ⟨a, List.mem_cons_of_mem _ (List.mem_cons_of_mem _ ha), hbegins⟩
  exact hfrom _ text p le_rfl hapart h

/-- A script with a directive keeps one, when the directives of HTML are expanded. -/
theorem includeSearch_js_ne_none {text out : List UInt8} {n : ℕ} (hapart : Apart text)
    (h : includeSearch .js text ≠ none)
    (hout : Expands (includedPieces docs .html) (pieces .html text) out n) :
    includeSearch .js out ≠ none := by
  obtain ⟨⟨p, i⟩, hsearch⟩ := Option.ne_none_iff_exists'.mp h
  obtain ⟨a, ha, hbegins⟩ := exists_text_of_apart hapart (of_leftmost hsearch).2.1
  intro hnone
  exact includeSearch_eq_none_iff.mp hnone (beginsIn_of_isInfix (hout.infix_of_mem ha) hbegins)

/-! ## The two content types -/

variable (docs) in
/-- A page none of whose directives is put together out of parts or names a directory, or a script
without any directive. -/
def LeftRight (contentType text : List UInt8) : Prop :=
  contentType = bytesOf "text/html" ∧ Intact docs .html text ∧ AllReadable docs .html text ∨
    contentType = bytesOf "application/javascript" ∧
      includeSearch .html text = none ∧ includeSearch .js text = none

theorem procResource_eq {contentType : List UInt8} (htype : isProcessed contentType = true)
    (fuel : ℕ) (text : List UInt8) :
    docs.procResourceHTMLIEngineInclude contentType fuel text =
      docs.iProcResourceHTMLIEngineInclude .html fuel text := by
  rw [Documents.procResourceHTMLIEngineInclude, if_neg]
  rintro rfl
  exact absurd htype (by decide)

theorem patternFor_html : patternFor (bytesOf "text/html") = .html := by decide

theorem patternFor_js : patternFor (bytesOf "application/javascript") = .js := by decide

/-- A page is expanded exactly if its files can be read. -/
theorem fullyExpanded_page_iff {text : List UInt8} (hintact : Intact docs .html text)
    (hacyclic : ¬ HasCycle docs .html text) :
    FullyExpanded docs (bytesOf "text/html") text ↔ AllReadable docs .html text := by
  unfold FullyExpanded
  rw [patternFor_html]
  simp only [procResource_eq (by decide : isProcessed (bytesOf "text/html") = true)]
  constructor
  · rintro ⟨fuel, out, -, hout, -⟩
    exact ((returns_iff_of_intact hintact).mp ⟨fuel, out, hout⟩).2
  · intro hreadable
    obtain ⟨fuel, out, hout⟩ := (returns_iff_of_intact hintact).mpr ⟨hacyclic, hreadable⟩
    obtain ⟨n, hn⟩ := expands_of_iProcResource hintact hout
    exact ⟨fuel, out, n, hout, includeSearch_of_iProcResource hout, hn⟩

/-- A script without a directive is left as it is. -/
theorem fullyExpanded_script {text : List UInt8} (hhtml : includeSearch .html text = none)
    (hjs : includeSearch .js text = none) :
    FullyExpanded docs (bytesOf "application/javascript") text := by
  unfold FullyExpanded
  rw [patternFor_js]
  refine ⟨1, text, 0, ?_, hjs, ?_⟩
  · rw [procResource_eq (by decide), Documents.iProcResource_of_none hhtml]
  · have htext : Expands (includedPieces docs .js) [.text text] (text ++ []) 0 :=
      .text text .nil
    rwa [List.append_nil, ← pieces_of_none hjs] at htext

/-- Where the two kinds of directives are apart, no other script is left as it should be. -/
theorem includeSearch_of_fullyExpanded_script {text : List UInt8}
    (hintact : Intact docs .html text) (hapart : Apart text)
    (h : FullyExpanded docs (bytesOf "application/javascript") text) :
    includeSearch .html text = none ∧ includeSearch .js text = none := by
  unfold FullyExpanded at h
  rw [patternFor_js] at h
  obtain ⟨fuel, out, n, hout, hnone, hexpands⟩ := h
  rw [procResource_eq (by decide)] at hout
  obtain ⟨m, hm⟩ := expands_of_iProcResource hintact hout
  have hjs : includeSearch .js text = none := by
    by_contra hjs
    exact includeSearch_js_ne_none hapart hjs hm hnone
  rw [expands_of_none hjs hexpands] at hout
  exact ⟨includeSearch_of_iProcResource hout, hjs⟩

/-- **Which resources are expanded.**  Where no file is included into itself, every page is whose
directives stay in one piece and can be read, and every script without a directive; and where no
directive is put together out of parts and those of the two kinds are apart, no other resource. -/
theorem fullyExpanded_iff (docs : Documents) {contentType text : List UInt8}
    (htype : isProcessed contentType = true) (hacyclic : ¬ HasCycle docs .html text) :
    (LeftRight docs contentType text → FullyExpanded docs contentType text) ∧
    (Intact docs .html text → (contentType = bytesOf "application/javascript" → Apart text) →
      (FullyExpanded docs contentType text ↔ LeftRight docs contentType text)) := by
  have henough : LeftRight docs contentType text → FullyExpanded docs contentType text := by
    rintro (⟨rfl, hintact, hreadable⟩ | ⟨rfl, hhtml, hjs⟩)
    · exact (fullyExpanded_page_iff hintact hacyclic).mpr hreadable
    · exact fullyExpanded_script hhtml hjs
  refine ⟨henough, fun hintact hapart => ⟨fun h => ?_, henough⟩⟩
  simp only [isProcessed, Bool.or_eq_true, decide_eq_true_eq] at htype
  rcases htype with rfl | rfl
  · exact .inl ⟨rfl, hintact, (fullyExpanded_page_iff hintact hacyclic).mp h⟩
  · exact .inr ⟨rfl, includeSearch_of_fullyExpanded_script hintact (hapart rfl) h⟩

/-- Files without a directive are not included into themselves. -/
theorem acyclic_of_none (h : ∀ path content,
      docs.ifstream (docs.documentRootPath ++ path) = .content content →
        includeSearch exStaticText content = none) : Acyclic docs exStaticText := by
  intro i hcycle
  obtain ⟨e, -, huse⟩ := Relation.TransGen.tail'_iff.mp hcycle
  obtain ⟨content, hcontent, hin⟩ := exists_content_of_uses huse
  rw [pieces_of_none (h _ _ hcontent)] at hin
  simp at hin

end Runs

/-- A page with one file, in a tag. -/
theorem fullyExpanded_iff_page :
    let docs := Documents.ofTable (bytesOf "/www/") [(bytesOf "/www/b", .content (bytesOf "<b>"))]
    let text := bytesOf "a<!--<%include/p: b%>-->"
    LeftRight docs (bytesOf "text/html") text ∧ FullyExpanded docs (bytesOf "text/html") text := by
  intro docs text
  have hfile : ∀ path content, docs.ifstream (docs.documentRootPath ++ path) = .content content →
      content = bytesOf "<b>" := by
    intro path content hcontent
    cases List.mem_singleton.mp (Documents.mem_of_ifstream_ofTable hcontent)
    rfl
  have hintact : Intact docs .html text := by
    refine intact_of_plain (fun path content hcontent => ?_) (by decide)
    rw [hfile path content hcontent]
    decide
  have hacyclic : ¬ HasCycle docs .html text := by
    rintro ⟨i, -, hcycle⟩
    refine acyclic_of_none (fun path content hcontent => ?_) i hcycle
    rw [hfile path content hcontent]
    decide
  have hreadable : AllReadable docs .html text := by
    intro i _ hbad
    exact Documents.ofTable_ne_unreadable (by decide) hbad
  have hright : LeftRight docs (bytesOf "text/html") text := .inl ⟨rfl, hintact, hreadable⟩
  exact ⟨hright, (fullyExpanded_iff docs (by decide) hacyclic).1 hright⟩

/-- The page `<!--<include:f%>--><!--<include:a%>-->`. -/
def chancePage : List UInt8 := bytesOf "<!--<include:f%>--><!--<include:a%>-->"

/-- The file `f` and the second directive of the page make one directive, whose file holds what
the two would have been. -/
def chanceDocuments : Documents :=
  Documents.ofTable [] [(bytesOf "f", .content (bytesOf "<!--<include:b")),
    (bytesOf "a", .content (bytesOf "x")),
    (bytesOf "b<!--<include:a", .content (bytesOf "<!--<include:bx"))]

/-- A directive is put together out of parts, and the page is expanded all the same. -/
theorem expanded_by_chance : ¬ Intact chanceDocuments .html chancePage ∧
    FullyExpanded chanceDocuments (bytesOf "text/html") chancePage := by
  constructor
  · intro h
    have hwhole := h _
      (.single ⟨⟨bytesOf "<!--<include:f%>-->", [], bytesOf "f"⟩, by decide +kernel, rfl⟩)
    exact absurd hwhole.search (by decide +kernel)
  · have hpieces : pieces .html chancePage = [.text [],
        .call ⟨bytesOf "<!--<include:f%>-->", [], bytesOf "f"⟩, .text [],
        .call ⟨bytesOf "<!--<include:a%>-->", [], bytesOf "a"⟩, .text []] := by
      decide +kernel
    have hf : Expands (includedPieces chanceDocuments .html) (includedPieces chanceDocuments .html
        ⟨bytesOf "<!--<include:f%>-->", [], bytesOf "f"⟩) (bytesOf "<!--<include:b" ++ []) 0 :=
      @Expands.text _ _ _ [] _ _ _ .nil
    have ha : Expands (includedPieces chanceDocuments .html) (includedPieces chanceDocuments .html
        ⟨bytesOf "<!--<include:a%>-->", [], bytesOf "a"⟩) (bytesOf "x" ++ []) 0 :=
      @Expands.text _ _ _ [] _ _ _ .nil
    unfold FullyExpanded
    rw [patternFor_html, hpieces]
    refine ⟨3, bytesOf "<!--<include:bx", _, by decide +kernel, by decide +kernel,
      .text [] (.call _ hf (.text [] (.call _ ha (.text [] .nil))))⟩

/-- A script with one directive, and no directive in the file it names. -/
theorem not_fullyExpanded :
    ¬ ∀ (docs : Documents) (contentType text : List UInt8), isProcessed contentType = true →
      (∀ exStaticText, Acyclic docs exStaticText) → FullyExpanded docs contentType text := by
  intro h
  have hacyclic : ∀ exStaticText, Acyclic (Documents.ofTable (bytesOf "/www/")
      [(bytesOf "/www/a.js", .content (bytesOf "f();"))]) exStaticText := by
    intro exStaticText
    refine acyclic_of_none fun path content hcontent => ?_
    cases List.mem_singleton.mp (Documents.mem_of_ifstream_ofTable hcontent)
    cases exStaticText with
    | html => decide
    | js => decide
  obtain ⟨fuel, out, n, hout, hnone, -⟩ := h _ (bytesOf "application/javascript")
    (bytesOf "//<%include: a.js%>//") (by decide) hacyclic
  have hhtml : includeSearch .html (bytesOf "//<%include: a.js%>//") = none := by decide
  have hjs : includeSearch .js (bytesOf "//<%include: a.js%>//") ≠ none := by decide
  rcases fuel with _ | fuel
  · cases hout
  · -- the only turn finds no directive of HTML
    rw [procResource_eq (by decide), Documents.iProcResource_of_none hhtml] at hout
    cases hout
    exact hjs hnone

end HTMLIEngine

end Mantids
