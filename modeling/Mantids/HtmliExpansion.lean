/-
# Includes as calls

A text is cut into the directives of a pattern and what stands between them.  As long as the
directives that the loop finds and replaces are those that the texts were cut into, and none is put
together out of parts, the loop expands them.

* `pieces`, `includedPieces` — a text and a directive, as templates;
* `Whole` — the loop finds the first call of a template, and replaces it where it stands;
* `Intact` — so it is at all the stages of an expansion;
* `returned_iff` — then the loop is the expander of the pieces.
-/
import Mantids.HtmliInclude

namespace Mantids

open Occurrence Begins Expansion

namespace HTMLIEngine

/-! ## Pieces of a text -/

/-- The text is cut at the directives, from the left. -/
def piecesFrom (exStaticText : IncludePattern) : ℕ → List UInt8 → List (Piece UInt8 Include)
  | 0, text => [.text text]
  | fuel + 1, text =>
    match includeSearch exStaticText text with
    | none => [.text text]
    | some (p, i) =>
      .text (text.take p) :: .call i :: piecesFrom exStaticText fuel
        (text.drop (p + i.fulltag.length))

/-- Each round leaves less to cut. -/
def pieces (exStaticText : IncludePattern) (text : List UInt8) : List (Piece UInt8 Include) :=
  piecesFrom exStaticText text.length text

section Pieces

variable {exStaticText : IncludePattern}

theorem IsInclude.fulltag_ne_nil {i : Include} (h : IsInclude exStaticText i) :
    i.fulltag ≠ [] := by
  obtain ⟨percent, word, run, hfull, -⟩ := h
  rw [hfull]
  cases exStaticText with
  | html => exact List.cons_ne_nil _ _
  | js => exact List.cons_ne_nil _ _

/-- The leftmost directive of a text, with the text around it. -/
theorem of_includeSearch {text : List UInt8} {p : ℕ} {i : Include}
    (h : includeSearch exStaticText text = some (p, i)) :
    IsInclude exStaticText i ∧ p < text.length ∧
      text = text.take p ++ (i.fulltag ++ text.drop (p + i.fulltag.length)) := by
  obtain ⟨hlt, hhere, -⟩ := of_leftmost h
  obtain ⟨hi, r, hr⟩ := includeHere_eq_some_iff.mp hhere
  refine ⟨hi, hlt, ?_⟩
  rw [← List.drop_drop, ← hr, List.drop_left, hr, List.take_append_drop]

theorem isInclude_of_mem_pieces {text : List UInt8} {i : Include}
    (h : .call i ∈ pieces exStaticText text) : IsInclude exStaticText i := by
  have hfrom : ∀ fuel text, .call i ∈ piecesFrom exStaticText fuel text →
      IsInclude exStaticText i := by
    intro fuel
    induction fuel with
    | zero =>
        intro text h
        simp [piecesFrom] at h
    | succ fuel ih =>
        intro text h
        unfold piecesFrom at h
        split at h
        · simp at h
        · rename_i p e hsearch
          rcases List.mem_cons.mp h with heq | h
          · cases heq
          · rcases List.mem_cons.mp h with heq | h
            · cases heq
              exact (of_includeSearch hsearch).1
            · exact ih _ h
  exact hfrom _ _ h

theorem render_piecesFrom (fuel : ℕ) (text : List UInt8) :
    render Include.fulltag (piecesFrom exStaticText fuel text) = text := by
  induction fuel generalizing text with
  | zero => simp [piecesFrom, render]
  | succ fuel ih =>
      unfold piecesFrom
      split
      · simp [render]
      · rename_i p i hsearch
        simp only [render, ih]
        exact (of_includeSearch hsearch).2.2.symm

theorem render_pieces (text : List UInt8) :
    render Include.fulltag (pieces exStaticText text) = text := render_piecesFrom _ _

end Pieces

/-! ## The included files -/

section Included

variable (docs : Documents) (exStaticText : IncludePattern)

/-- What is put in for a directive, in pieces. -/
def includedPieces (i : Include) : List (Piece UInt8 Include) :=
  match docs.ifstream (docs.documentRootPath ++ i.includePath) with
  | .content includeFileContent =>
    if i.tag ≠ [] ∧ 1 < i.tag.length ∧ i.tag.head? = some 47 then
      .text ([60] ++ i.tag.drop 1 ++ [62]) ::
        (pieces exStaticText includeFileContent ++ [.text ([60, 47] ++ i.tag.drop 1 ++ [62])])
    else pieces exStaticText includeFileContent
  | .unreadable => []
  | .notFound =>
    [.text (bytesOf "<!-- HTMLI ENGINE ERROR (FILE NOT FOUND): " ++ i.includePath ++
      bytesOf " -->")]

variable {docs} in
theorem render_includedPieces {i : Include} {replacement : List UInt8}
    (h : docs.includeReplacement i = some replacement) :
    render Include.fulltag (includedPieces docs exStaticText i) = replacement := by
  unfold Documents.includeReplacement at h
  unfold includedPieces
  rcases hopened : docs.ifstream (docs.documentRootPath ++ i.includePath) with _ | _ | content
  · rw [hopened] at h
    cases h
    simp only [render, List.append_nil]
  · rw [hopened] at h
    cases h
  · rw [hopened] at h
    dsimp only at h ⊢
    split at h
    · rename_i htag
      cases h
      rw [if_pos htag]
      simp only [render, render_append, render_pieces, List.append_assoc, List.append_nil]
    · rename_i htag
      cases h
      rw [if_neg htag]
      exact render_pieces _

/-- A directive in an included text is one of its file. -/
theorem exists_content_of_uses {docs : Documents} {exStaticText : IncludePattern} {e d : Include}
    (h : Uses (includedPieces docs exStaticText) e d) :
    ∃ content, docs.ifstream (docs.documentRootPath ++ d.includePath) = .content content ∧
      .call e ∈ pieces exStaticText content := by
  unfold Uses includedPieces at h
  split at h
  · rename_i content hcontent
    refine ⟨content, hcontent, ?_⟩
    split at h
    · simpa using h
    · exact h
  · simp at h
  · simp at h

/-- Finitely many directives are come upon. -/
theorem finite_reaches (text : List UInt8) :
    {i | Reaches (includedPieces docs exStaticText) (pieces exStaticText text) i}.Finite := by
  have hcalls : ∀ ps : List (Piece UInt8 Include), {i | Piece.call i ∈ ps}.Finite := by
    intro ps
    exact ps.finite_toSet.preimage fun _ _ _ _ h => Piece.call.inj h
  have hfiles := docs.finite.biUnion fun content _ => hcalls (pieces exStaticText content)
  refine ((hcalls (pieces exStaticText text)).union hfiles).subset ?_
  rintro i ⟨d, hd, hreach⟩
  rcases Relation.ReflTransGen.cases_head hreach with rfl | ⟨e, huse, -⟩
  · exact .inl hd
  · obtain ⟨content, hcontent, hin⟩ := exists_content_of_uses huse
    exact .inr (Set.mem_biUnion ⟨_, hcontent⟩ hin)

end Included

/-! ## Directives in their places -/

section Places

variable {docs : Documents} {exStaticText : IncludePattern} {ps : List (Piece UInt8 Include)}

/-- The text of the call `d` stands nowhere else. -/
def StandsAlone (d : Include) : List (Piece UInt8 Include) → Prop
  | [] => True
  | .text a :: ps =>
    (∀ q < a.length, ¬ OccursAt d.fulltag (a ++ render Include.fulltag ps) q) ∧ StandsAlone d ps
  | .call e :: ps =>
    (e ≠ d → ∀ q < e.fulltag.length,
      ¬ OccursAt d.fulltag (e.fulltag ++ render Include.fulltag ps) q) ∧ StandsAlone d ps

variable (exStaticText ps) in
/-- The search finds the first call, whose text stands nowhere else. -/
structure Whole : Prop where
  search : (includeSearch exStaticText (render Include.fulltag ps)).map Prod.snd = firstCall ps
  standsAlone : ∀ d, firstCall ps = some d → StandsAlone d ps

variable (docs exStaticText) in
/-- At all the stages of the expansion, the directives of a text are the calls it is cut into. -/
def Intact (text : List UInt8) : Prop :=
  ∀ ps, Relation.ReflTransGen (Advances (includedPieces docs exStaticText))
    (pieces exStaticText text) ps → Whole exStaticText ps

theorem Whole.includeSearch_eq_none (h : Whole exStaticText ps) (hnone : firstCall ps = none) :
    includeSearch exStaticText (render Include.fulltag ps) = none := by
  rw [← h.search] at hnone
  exact Option.map_eq_none_iff.mp hnone

theorem Whole.exists_includeSearch_eq (h : Whole exStaticText ps) {d : Include}
    (hd : firstCall ps = some d) :
    ∃ p, includeSearch exStaticText (render Include.fulltag ps) = some (p, d) := by
  rw [← h.search] at hd
  obtain ⟨⟨p, i⟩, hfound, rfl⟩ := Option.map_eq_some_iff.mp hd
  exact ⟨p, hfound⟩

/-- What stands alone is replaced where it stands. -/
theorem replaceAllFrom_renderPieces {d : Include} {replacement : List UInt8}
    (hne : d.fulltag ≠ []) (hd : docs.includeReplacement d = some replacement)
    (h : StandsAlone d ps) {fuel : ℕ} (hfuel : (render Include.fulltag ps).length ≤ fuel) :
    replaceAllFrom d.fulltag replacement fuel (render Include.fulltag ps) =
      render Include.fulltag (subst (includedPieces docs exStaticText) d ps) := by
  induction ps generalizing fuel with
  | nil => exact replaceAllFrom_nil hne fuel
  | cons p ps ih =>
      cases p with
      | text a =>
          rw [render, List.length_append] at hfuel
          rw [render, subst, render, replaceAllFrom_skip hne _ _ h.1, ih h.2 (by omega)]
      | call e =>
          rw [render, List.length_append] at hfuel
          by_cases hed : e = d
          · have hpos := List.length_pos_iff.mpr hne
            rw [hed] at hfuel
            obtain ⟨fuel, rfl⟩ : ∃ k, fuel = k + 1 := ⟨fuel - 1, by omega⟩
            rw [render, subst, if_pos hed, render_append, hed, replaceAllFrom_hit hne,
              ih h.2 (by omega), render_includedPieces exStaticText hd]
          · rw [render, subst, if_neg hed, List.singleton_append, render,
              replaceAllFrom_skip hne _ _ (h.1 hed), ih h.2 (by omega)]

/-- **The loop expands the pieces.**  It returns what the expander makes of them, if no directive
that it comes upon names a directory. -/
theorem returned_render_iff (h : ∀ qs,
      Relation.ReflTransGen (Advances (includedPieces docs exStaticText)) ps qs →
        Whole exStaticText qs) {fuel : ℕ} {out : List UInt8} :
    docs.iProcResourceHTMLIEngineInclude exStaticText fuel (render Include.fulltag ps) =
        some (.returned out) ↔
      (∃ qs, expand (includedPieces docs exStaticText) fuel ps = some qs ∧
        render Include.fulltag qs = out) ∧
        ∀ i, Reaches (includedPieces docs exStaticText) ps i → docs.Readable i := by
  induction fuel generalizing ps with
  | zero => simp [Documents.iProcResourceHTMLIEngineInclude, expand]
  | succ fuel ih =>
      have hwhole := h ps .refl
      rw [expand]
      rcases hfirst : firstCall ps with _ | d
      · rw [Documents.iProcResource_of_none (hwhole.includeSearch_eq_none hfirst)]
        simp [not_reaches_of_firstCall hfirst]
      · obtain ⟨p, hfound⟩ := hwhole.exists_includeSearch_eq hfirst
        simp only [reaches_iff_of_firstCall hfirst, forall_eq_or_imp]
        rcases hd : docs.includeReplacement d with _ | replacement
        · rw [Documents.iProcResource_of_unreadable hfound hd]
          have hbad : ¬ docs.Readable d := by
            rw [← Documents.exists_includeReplacement_iff, hd]
            simp
          simp [hbad]
        · have hread := Documents.exists_includeReplacement_iff.mp ⟨replacement, hd⟩
          have hne := (of_includeSearch hfound).1.fulltag_ne_nil
          have hround : ∀ qs, Relation.ReflTransGen (Advances (includedPieces docs exStaticText))
              (subst (includedPieces docs exStaticText) d ps) qs → Whole exStaticText qs :=
            fun qs hqs => h qs (.head ⟨d, hfirst, rfl⟩ hqs)
          rw [Documents.iProcResource_of_replacement hfound hd, replaceAll,
            replaceAllFrom_renderPieces hne hd (hwhole.standsAlone d hfirst) le_rfl, ih hround]
          simp only [hread, true_and]

theorem returned_iff {text : List UInt8} (h : Intact docs exStaticText text) {fuel : ℕ}
    {out : List UInt8} :
    docs.iProcResourceHTMLIEngineInclude exStaticText fuel text = some (.returned out) ↔
      (∃ qs, expand (includedPieces docs exStaticText) fuel (pieces exStaticText text) = some qs ∧
        render Include.fulltag qs = out) ∧
        ∀ i, Reaches (includedPieces docs exStaticText) (pieces exStaticText text) i →
          docs.Readable i := by
  rw [← returned_render_iff h, render_pieces]

end Places

end HTMLIEngine

end Mantids
