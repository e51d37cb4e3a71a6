/-
# When including ends

The loop over the include directives has no bound: a file that includes itself keeps it going for
ever.  A directive that names a directory ends it with the exception of the read.

* `NestsBoundedly`, `MeetsNoDirectory` — how deep files are put into files, and what they name;
* `returns_iff_nests` — the loop returns exactly if there is a bound, and no directory;
* `HasCycle` — an include that is come upon includes itself again;
* `iProcResource_returns_iff` — where no directive is put together out of parts, there is a bound
  unless there is a cycle;
* `not_iProcResource_returns` — the shortest file that includes itself.
-/
import Mantids.HtmliTemplates
import Mantids.Lib.Nesting

namespace Mantids

open Occurrence Begins Expansion Nesting Relation

namespace HTMLIEngine

/-! ## Files in a table -/

theorem getD_lookup_mem (paths : List (List UInt8 × Opened)) (path : List UInt8) :
    (paths.lookup path).getD .notFound = .notFound ∨
      (paths.lookup path).getD .notFound ∈ paths.map Prod.snd := by
  rcases hlookup : paths.lookup path with _ | opened
  · exact .inl rfl
  · obtain ⟨before, after, heq, -⟩ := List.lookup_eq_some_iff.mp hlookup
    right
    rw [heq]
    simp

/-- What is at the paths of a table. -/
def Documents.ofTable (documentRootPath : List UInt8)
    (paths : List (List UInt8 × Opened)) : Documents where
  documentRootPath := documentRootPath
  ifstream path := (paths.lookup path).getD .notFound
  finite := by
    refine ((paths.map Prod.snd).finite_toSet.preimage
      fun _ _ _ _ h => Opened.content.inj h).subset ?_
    rintro content ⟨path, hpath⟩
    rcases getD_lookup_mem paths (documentRootPath ++ path) with hnone | hmem
    · rw [hnone] at hpath
      cases hpath
    · rw [hpath] at hmem
      exact hmem

section Table

variable {documentRootPath : List UInt8} {paths : List (List UInt8 × Opened)}

theorem Documents.mem_of_ifstream_ofTable {path content : List UInt8}
    (h : (ofTable documentRootPath paths).ifstream path = .content content) :
    .content content ∈ paths.map Prod.snd := by
  rcases getD_lookup_mem paths path with hnone | hmem
  · cases h.symm.trans hnone
  · exact h ▸ hmem

theorem Documents.ofTable_ne_unreadable (h : .unreadable ∉ paths.map Prod.snd)
    {path : List UInt8} : (ofTable documentRootPath paths).ifstream path ≠ .unreadable := by
  intro hpath
  rcases getD_lookup_mem paths path with hnone | hmem
  · cases hpath.symm.trans hnone
  · exact h (hpath ▸ hmem)

end Table

/-! ## How deep files are put in -/

section Depth

variable (docs : Documents) (exStaticText : IncludePattern)

def Returns (text : List UInt8) : Prop :=
  ∃ fuel out, docs.iProcResourceHTMLIEngineInclude exStaticText fuel text = some (.returned out)

/-- The directive that is found in a text, and what is put in for it. -/
def replacementIn (text : List UInt8) : Option (List UInt8 × List UInt8) :=
  (includeSearch exStaticText text).bind fun found =>
    (docs.includeReplacement found.2).map fun replacement => (found.2.fulltag, replacement)

/-- What is put into the text nests to some depth only.  The bytes of the text have the depth 0,
and those that are put in for a directive are one deeper than the deepest of its bytes. -/
def NestsBoundedly (text : List UInt8) : Prop :=
  ∃ d, ∀ s, ReflTransGen (Turn (replacementIn docs exStaticText)) (atTop text) s → depth s ≤ d

/-- No directive that is found on the way names a directory. -/
def MeetsNoDirectory (text : List UInt8) : Prop :=
  ∀ s, ReflTransGen (Turn (replacementIn docs exStaticText)) (atTop text) s →
    ∀ p i, includeSearch exStaticText (s.map Prod.fst) = some (p, i) → docs.Readable i

variable {docs exStaticText}

theorem map_replaceDeeper (search replacement : List UInt8) (fuel : ℕ) (s : List (UInt8 × ℕ)) :
    (replaceDeeper search replacement fuel s).map Prod.fst =
      replaceAllFrom search replacement fuel (s.map Prod.fst) := by
  induction fuel generalizing s with
  | zero => rfl
  | succ fuel ih =>
      rw [replaceDeeper, replaceAllFrom]
      rcases first search (s.map Prod.fst) with _ | p
      · rfl
      · simp only [List.map_append, List.map_take, List.map_drop, map_deeper, ih]

theorem replacementIn_eq_some_iff {text search replacement : List UInt8} :
    replacementIn docs exStaticText text = some (search, replacement) ↔
      ∃ p i, includeSearch exStaticText text = some (p, i) ∧
        docs.includeReplacement i = some replacement ∧ i.fulltag = search := by
  rcases h : includeSearch exStaticText text with _ | ⟨p, i⟩
  · simp [replacementIn, h]
  · simp [replacementIn, h, and_comm]

theorem finds_replacementIn : Finds (replacementIn docs exStaticText) := by
  intro text search replacement h
  obtain ⟨p, i, hfound, -, rfl⟩ := replacementIn_eq_some_iff.mp h
  obtain ⟨-, hhere, -⟩ := of_leftmost hfound
  obtain ⟨hi, hoc⟩ := includeHere_eq_some_iff.mp hhere
  exact ⟨hi.fulltag_ne_nil, fun hnone =>
    (first_eq_none_iff hi.fulltag_ne_nil).mp hnone p hoc⟩

section Turns

variable {s : List (UInt8 × ℕ)}

theorem not_turn_of_none (h : includeSearch exStaticText (s.map Prod.fst) = none)
    (t : List (UInt8 × ℕ)) : ¬ Turn (replacementIn docs exStaticText) s t := by
  rintro ⟨search, replacement, hnext, -⟩
  obtain ⟨p, i, hfound, -⟩ := replacementIn_eq_some_iff.mp hnext
  rw [h] at hfound
  cases hfound

theorem turn_of_replacement {p : ℕ} {i : Include} {replacement : List UInt8}
    (h : includeSearch exStaticText (s.map Prod.fst) = some (p, i))
    (hread : docs.includeReplacement i = some replacement) :
    Turn (replacementIn docs exStaticText) s (replaceDeeper i.fulltag replacement s.length s) :=
  ⟨_, _, replacementIn_eq_some_iff.mpr ⟨p, i, h, hread, rfl⟩, rfl⟩

theorem replaceAll_map (search replacement : List UInt8) (s : List (UInt8 × ℕ)) :
    replaceAll search replacement (s.map Prod.fst) =
      (replaceDeeper search replacement s.length s).map Prod.fst := by
  rw [map_replaceDeeper, replaceAll, List.length_map]

/-- A loop that returns has run out of turns, and could read every file on the way. -/
theorem acc_of_returns (h : Returns docs exStaticText (s.map Prod.fst)) :
    Acc (fun t s => Turn (replacementIn docs exStaticText) s t) s ∧
      ∀ t, ReflTransGen (Turn (replacementIn docs exStaticText)) s t →
        ∀ p i, includeSearch exStaticText (t.map Prod.fst) = some (p, i) → docs.Readable i := by
  obtain ⟨fuel, out, h⟩ := h
  induction fuel generalizing s with
  | zero => cases h
  | succ fuel ih =>
      rcases hfound : includeSearch exStaticText (s.map Prod.fst) with _ | ⟨p, i⟩
      · have hnone : ∀ t, ¬ Turn (replacementIn docs exStaticText) s t := not_turn_of_none hfound
        refine ⟨.intro s fun t ht => absurd ht (hnone t), fun t ht p i hi => ?_⟩
        rcases ht.cases_head with rfl | ⟨u, hu, -⟩
        · rw [hfound] at hi
          cases hi
        · exact absurd hu (hnone u)
      · rcases hread : docs.includeReplacement i with _ | replacement
        · rw [Documents.iProcResource_of_unreadable hfound hread] at h
          cases h
        · rw [Documents.iProcResource_of_replacement hfound hread, replaceAll_map] at h
          have hturn := turn_of_replacement hfound hread
          obtain ⟨hacc, hreadable⟩ := ih h
          refine ⟨.intro s fun t ht => ht.functional hturn ▸ hacc, fun t ht q e he => ?_⟩
          rcases ht.cases_head with rfl | ⟨u, hu, hrest⟩
          · rw [hfound] at he
            cases he
            exact Documents.exists_includeReplacement_iff.mp ⟨replacement, hread⟩
          · rw [hu.functional hturn] at hrest
            exact hreadable t hrest q e he

theorem returns_of_acc (hacc : Acc (fun t s => Turn (replacementIn docs exStaticText) s t) s)
    (hreadable : ∀ t, ReflTransGen (Turn (replacementIn docs exStaticText)) s t →
      ∀ p i, includeSearch exStaticText (t.map Prod.fst) = some (p, i) → docs.Readable i) :
    Returns docs exStaticText (s.map Prod.fst) := by
  induction hacc with
  | intro s _ ih =>
      rcases hfound : includeSearch exStaticText (s.map Prod.fst) with _ | ⟨p, i⟩
      · exact ⟨1, s.map Prod.fst, Documents.iProcResource_of_none hfound 0⟩
      · obtain ⟨replacement, hread⟩ := Documents.exists_includeReplacement_iff.mpr
          (hreadable s .refl p i hfound)
        have hturn := turn_of_replacement hfound hread
        obtain ⟨fuel, out, h⟩ := ih _ hturn fun t ht => hreadable t (.head hturn ht)
        refine ⟨fuel + 1, out, ?_⟩
        rw [Documents.iProcResource_of_replacement hfound hread, replaceAll_map]
        exact h

end Turns

/-- The loop returns exactly if what it puts in nests boundedly and all of it can be read. -/
theorem returns_iff_nests {text : List UInt8} :
    Returns docs exStaticText text ↔
      NestsBoundedly docs exStaticText text ∧ MeetsNoDirectory docs exStaticText text := by
  rw [NestsBoundedly, MeetsNoDirectory, ← acc_iff_depth_bounded finds_replacementIn]
  constructor
  · intro h
    rw [← map_atTop text] at h
    exact acc_of_returns h
  · rintro ⟨hacc, hreadable⟩
    rw [← map_atTop text]
    exact returns_of_acc hacc hreadable

end Depth

/-! ## Cycles -/

section Cycles

variable {docs : Documents} {exStaticText : IncludePattern}

variable (docs exStaticText) in
/-- Some directive that is come upon includes itself again. -/
def HasCycle (text : List UInt8) : Prop :=
  ∃ i, Reaches (includedPieces docs exStaticText) (pieces exStaticText text) i ∧
    TransGen (Uses (includedPieces docs exStaticText)) i i

variable (docs exStaticText) in
/-- No directive that is come upon names a directory. -/
def AllReadable (text : List UInt8) : Prop :=
  ∀ i, Reaches (includedPieces docs exStaticText) (pieces exStaticText text) i → docs.Readable i

/-- The pieces can be expanded when there is no cycle. -/
theorem exists_expands_pieces_iff (text : List UInt8) :
    (∃ s n, Expands (includedPieces docs exStaticText) (pieces exStaticText text) s n) ↔
      ¬ HasCycle docs exStaticText text := by
  rw [exists_expands_iff, acc_iff_no_cycle (finite_reaches docs exStaticText text), HasCycle]
  push Not
  rfl

/-- Where no directive is put together, the loop returns unless a file is included into itself or a
directory is named. -/
theorem returns_iff_of_intact {text : List UInt8} (h : Intact docs exStaticText text) :
    Returns docs exStaticText text ↔
      ¬ HasCycle docs exStaticText text ∧ AllReadable docs exStaticText text := by
  rw [← exists_expands_pieces_iff, ← expand_isSome_iff]
  unfold Returns AllReadable
  simp only [returned_iff h]
  constructor
  · rintro ⟨fuel, out, ⟨qs, hqs, -⟩, hreadable⟩
    exact ⟨⟨fuel, qs, hqs⟩, hreadable⟩
  · rintro ⟨⟨fuel, qs, hqs⟩, hreadable⟩
    exact ⟨fuel, _, ⟨qs, hqs, rfl⟩, hreadable⟩

/-- **When including ends.**  The loop returns exactly if what it puts in nests to a bounded depth
and no directive that it finds names a directory.  As long as no directive is put together out of
parts, that is so exactly if no directive that it comes upon includes itself again, and none names
a directory. -/
theorem iProcResource_returns_iff (docs : Documents) (exStaticText : IncludePattern)
    (text : List UInt8) :
    (Returns docs exStaticText text ↔
      NestsBoundedly docs exStaticText text ∧ MeetsNoDirectory docs exStaticText text) ∧
    (Intact docs exStaticText text → (Returns docs exStaticText text ↔
      ¬ HasCycle docs exStaticText text ∧ AllReadable docs exStaticText text)) :=
  ⟨returns_iff_nests, returns_iff_of_intact⟩

end Cycles

/-- A page with one file, in a tag. -/
theorem iProcResource_returns_iff_page :
    let docs := Documents.ofTable (bytesOf "/www/") [(bytesOf "/www/b", .content (bytesOf "<b>"))]
    let text := bytesOf "a<!--<%include/p: b%>-->"
    Intact docs .html text ∧
      (Returns docs .html text ↔
        NestsBoundedly docs .html text ∧ MeetsNoDirectory docs .html text) ∧
      (Returns docs .html text ↔ ¬ HasCycle docs .html text ∧ AllReadable docs .html text) := by
  intro docs text
  have hintact : Intact docs .html text := by
    refine intact_of_plain (fun path content hcontent => ?_) (by decide)
    cases List.mem_singleton.mp (Documents.mem_of_ifstream_ofTable hcontent)
    decide
  obtain ⟨hnests, hcycle⟩ := iProcResource_returns_iff docs .html text
  exact ⟨hintact, hnests, hcycle hintact⟩

/-- A file that includes itself. -/
theorem not_iProcResource_returns :
    ¬ ∀ (docs : Documents) (exStaticText : IncludePattern) (text : List UInt8),
      Returns docs exStaticText text := by
  intro h
  obtain ⟨fuel, out, hout⟩ := h (Documents.ofTable []
    [(bytesOf "a", .content (bytesOf "<!--<%include:a%>-->"))]) .html
      (bytesOf "<!--<%include:a%>-->")
  have hsearch : includeSearch .html (bytesOf "<!--<%include:a%>-->") =
      some (0, ⟨bytesOf "<!--<%include:a%>-->", [], bytesOf "a"⟩) := by
    decide
  have hreplacement : (Documents.ofTable []
      [(bytesOf "a", .content (bytesOf "<!--<%include:a%>-->"))]).includeReplacement
        ⟨bytesOf "<!--<%include:a%>-->", [], bytesOf "a"⟩ =
      some (bytesOf "<!--<%include:a%>-->") := by
    decide
  -- each turn leaves the text as it was
  have hturn : replaceAll (bytesOf "<!--<%include:a%>-->") (bytesOf "<!--<%include:a%>-->")
      (bytesOf "<!--<%include:a%>-->") = bytesOf "<!--<%include:a%>-->" := by
    decide
  induction fuel with
  | zero => cases hout
  | succ fuel ih =>
      rw [Documents.iProcResource_of_replacement hsearch hreplacement, hturn] at hout
      exact ih hout

/-- The document root is a directory. -/
example : (Documents.ofTable (bytesOf "/www/")
    [(bytesOf "/www/.", .unreadable)]).iProcResourceHTMLIEngineInclude .html 2
      (bytesOf "<!--<%include:.%>-->") = some .thrown := by
  decide

end HTMLIEngine

end Mantids
