/-
# Includes in a page

`HTMLIEngine::procResource_HTMLIEngineInclude` (`Server_WebCore/htmliengine.cpp`) puts the files
that a page includes into it.  After each replacement the search starts over, so that included
text is searched as well.

* `IncludePattern`, `includeHere` — the two directive patterns at a place of a text;
* `Documents`, `includeReplacement` — what is at a path, and what a directive is replaced by;
* `iProcResourceHTMLIEngineInclude` — the loop over the directives of one pattern;
* `procResourceHTMLIEngineInclude` — the choice of the pattern by the content type;
* `includeHere_eq_some_iff` — a match, byte by byte.
-/
import Mantids.JsonEvalLiterals
import Mantids.BChunksRead
import Mantids.Lib.Begins
import Mantids.Lib.Cut
import Mantids.Lib.Expansion

namespace Mantids

open Occurrence Begins

namespace HTMLIEngine

/-! ## Directives -/

/-- The two patterns, `exStaticText`. -/
inductive IncludePattern where
  /-- `reIncludeHTML`. -/
  | html
  /-- `reIncludeJS`. -/
  | js
deriving DecidableEq

def IncludePattern.opener : IncludePattern → List UInt8
  | .html => bytesOf "<!--<"
  | .js => bytesOf "//<"

def IncludePattern.closer : IncludePattern → List UInt8
  | .html => bytesOf "%>-->"
  | .js => bytesOf "%>//"

/-- A match with its two groups. -/
structure Include where
  fulltag : List UInt8
  tag : List UInt8
  includePath : List UInt8
deriving DecidableEq

/-- `[ ]*(?<PATH>[^\%]+)`: the blanks in front are not part of the path, unless there is nothing
else. -/
def pathOf (run : List UInt8) : List UInt8 :=
  match run.dropWhile (· = 32) with
  | [] => run.take 1
  | path => path

/-- `(?<SCRIPT_TAG_NAME>[^\:]*):[ ]*(?<PATH>[^\%]+)[ ]*` and the closing, with what follows it.
The path takes the blanks behind it along. -/
def includeBody (closer body : List UInt8) : Option (List UInt8 × List UInt8 × List UInt8) :=
  match body.dropWhile (· ≠ 58) with
  | [] => none
  | _ :: rest =>
    let run := rest.takeWhile (· ≠ 37)
    let close := rest.dropWhile (· ≠ 37)
    if run ≠ [] ∧ closer <+: close then
      some (body.takeWhile (· ≠ 58), pathOf run, close.drop closer.length)
    else none

/-- `\%?include`, in any letter case. -/
def includeWord (named : List UInt8) : Option (List UInt8) :=
  let named := if named.head? = some 37 then named.tail else named
  if (named.take 7).map tolower = bytesOf "include" then some (named.drop 7) else none

/-- The pattern at the beginning of a text. -/
def includeHere (exStaticText : IncludePattern) (s : List UInt8) : Option Include :=
  if exStaticText.opener <+: s then
    (includeWord (s.drop exStaticText.opener.length)).bind fun body =>
      (includeBody exStaticText.closer body).map fun m =>
        ⟨s.take (s.length - m.2.2.length), m.1, m.2.1⟩
  else none

/-- `regex_search`. -/
def includeSearch (exStaticText : IncludePattern) : List UInt8 → Option (ℕ × Include) :=
  leftmost (includeHere exStaticText)

/-! ## The engine -/

/-- What an `ifstream` makes of a path. -/
inductive Opened where
  /-- It is not open. -/
  | notFound
  /-- It is open, and reading from it throws: the path is a directory. -/
  | unreadable
  | content (includeFileContent : List UInt8)
deriving DecidableEq

structure Documents where
  documentRootPath : List UInt8
  ifstream : List UInt8 → Opened
  /-- There are finitely many files below the root. -/
  finite : {content | ∃ path, ifstream (documentRootPath ++ path) = .content content}.Finite

/-- How the loop over the directives ends. -/
inductive Ended where
  | returned (fileContent : List UInt8)
  /-- With the exception of a read. -/
  | thrown
deriving DecidableEq

namespace Documents

variable (docs : Documents)

/-- What is put in for a directive, unless reading the file throws. -/
def includeReplacement (i : Include) : Option (List UInt8) :=
  match docs.ifstream (docs.documentRootPath ++ i.includePath) with
  | .content includeFileContent =>
    if i.tag ≠ [] ∧ 1 < i.tag.length ∧ i.tag.head? = some 47 then
      some ([60] ++ i.tag.drop 1 ++ [62] ++ includeFileContent ++ [60, 47] ++ i.tag.drop 1 ++ [62])
    else some includeFileContent
  | .unreadable => none
  | .notFound =>
    some (bytesOf "<!-- HTMLI ENGINE ERROR (FILE NOT FOUND): " ++ i.includePath ++ bytesOf " -->")

/-- The file of a directive can be read, or there is none. -/
def Readable (i : Include) : Prop :=
  docs.ifstream (docs.documentRootPath ++ i.includePath) ≠ .unreadable

variable {docs} in
theorem exists_includeReplacement_iff {i : Include} :
    (∃ replacement, docs.includeReplacement i = some replacement) ↔ docs.Readable i := by
  unfold includeReplacement Readable
  rcases docs.ifstream (docs.documentRootPath ++ i.includePath) with _ | _ | content
  · simp
  · simp
  · dsimp only
    split
    · simp
    · simp

/-- `iProcResource_HTMLIEngineInclude`; `none` if it has not ended after so many turns. -/
def iProcResourceHTMLIEngineInclude (exStaticText : IncludePattern) :
    ℕ → List UInt8 → Option Ended
  | 0, _ => none
  | fuel + 1, fileContent =>
    match includeSearch exStaticText fileContent with
    | none => some (.returned fileContent)
    | some (_, whatStaticText) =>
      match docs.includeReplacement whatStaticText with
      | none => some .thrown
      | some replacement =>
        iProcResourceHTMLIEngineInclude exStaticText fuel
          (replaceAll whatStaticText.fulltag replacement fileContent)

section Turns

variable {docs} {exStaticText : IncludePattern} {fileContent : List UInt8} {p : ℕ} {i : Include}

/-- Text without a directive is returned as it is. -/
theorem iProcResource_of_none (h : includeSearch exStaticText fileContent = none) (fuel : ℕ) :
    docs.iProcResourceHTMLIEngineInclude exStaticText (fuel + 1) fileContent =
      some (.returned fileContent) := by
  rw [iProcResourceHTMLIEngineInclude, h]

theorem iProcResource_of_unreadable (h : includeSearch exStaticText fileContent = some (p, i))
    (hread : docs.includeReplacement i = none) (fuel : ℕ) :
    docs.iProcResourceHTMLIEngineInclude exStaticText (fuel + 1) fileContent = some .thrown := by
  rw [iProcResourceHTMLIEngineInclude, h]
  dsimp only
  rw [hread]

theorem iProcResource_of_replacement (h : includeSearch exStaticText fileContent = some (p, i))
    {replacement : List UInt8} (hread : docs.includeReplacement i = some replacement) (fuel : ℕ) :
    docs.iProcResourceHTMLIEngineInclude exStaticText (fuel + 1) fileContent =
      docs.iProcResourceHTMLIEngineInclude exStaticText fuel
        (replaceAll i.fulltag replacement fileContent) := by
  rw [iProcResourceHTMLIEngineInclude, h]
  dsimp only
  rw [hread]

end Turns

/-- `procResource_HTMLIEngineInclude`. -/
def procResourceHTMLIEngineInclude (contentType : List UInt8) (fuel : ℕ)
    (fileContent : List UInt8) : Option Ended :=
  if contentType = bytesOf "application/javacript" then
    docs.iProcResourceHTMLIEngineInclude .js fuel fileContent
  else docs.iProcResourceHTMLIEngineInclude .html fuel fileContent

end Documents

/-- `handleRegularFileRequest` gives these content types to the engine. -/
def isProcessed (contentType : List UInt8) : Bool :=
  contentType = bytesOf "text/html" || contentType = bytesOf "application/javascript"

/-! ## Matches -/

/-- The closing begins with the `%` that ends the path. -/
theorem closer_eq_cons (exStaticText : IncludePattern) :
    ∃ r, exStaticText.closer = 37 :: r := by
  cases exStaticText with
  | html => exact ⟨bytesOf ">-->", rfl⟩
  | js => exact ⟨bytesOf ">//", rfl⟩

theorem includeBody_eq_some_iff {exStaticText : IncludePattern} {body : List UInt8}
    {m : List UInt8 × List UInt8 × List UInt8} :
    includeBody exStaticText.closer body = some m ↔
      ∃ run, body = m.1 ++ 58 :: (run ++ (exStaticText.closer ++ m.2.2)) ∧ 58 ∉ m.1 ∧ run ≠ [] ∧
        37 ∉ run ∧ m.2.1 = pathOf run := by
  obtain ⟨c, hcloser⟩ := closer_eq_cons exStaticText
  unfold includeBody
  constructor
  · intro h
    split at h
    · exact absurd h.symm (Option.some_ne_none _)
    · rename_i x rest hcut
      dsimp only at h
      split at h
      · rename_i hclose
        obtain ⟨hrun, r, hr⟩ := hclose
        cases h
        -- the tag ends at the first colon, the path at the first `%`
        obtain rfl := Cut.head_dropWhile_ne hcut
        obtain ⟨hbody, htag⟩ := Cut.cut_eq_iff.mp ⟨rfl, hcut⟩
        have hr' : rest.dropWhile (· ≠ 37) = 37 :: (c ++ r) := by
          rw [← hr, hcloser, List.cons_append]
        obtain ⟨hrest, h37⟩ := Cut.cut_eq_iff.mp ⟨rfl, hr'⟩
        refine ⟨_, ?_, htag, hrun, h37, rfl⟩
        rw [← hr, List.drop_left, hcloser, List.cons_append, ← hrest]
        exact hbody
      · exact absurd h.symm (Option.some_ne_none _)
  · obtain ⟨tag, path, rest⟩ := m
    rintro ⟨run, rfl, htag, hrun, h37, rfl⟩
    have hclose : exStaticText.closer ++ rest = 37 :: (c ++ rest) := by
      rw [hcloser, List.cons_append]
    obtain ⟨htaken, hcut⟩ := Cut.cut_eq_iff.mpr
      (And.intro (rfl : tag ++ 58 :: (run ++ (exStaticText.closer ++ rest)) = _) htag)
    obtain ⟨htakenRun, hcutRun⟩ := Cut.cut_eq_iff.mpr
      (And.intro (rfl : run ++ 37 :: (c ++ rest) = _) h37)
    rw [hcut, htaken]
    dsimp only
    rw [hclose, htakenRun, hcutRun, ← hclose, if_pos ⟨hrun, List.prefix_append _ _⟩,
      List.drop_left]

theorem length_of_word {word : List UInt8} (h : word.map tolower = bytesOf "include") :
    word.length = 7 := by
  have hlength := congrArg List.length h
  rwa [List.length_map] at hlength

theorem head_of_word {word : List UInt8} (h : word.map tolower = bytesOf "include")
    (t : List UInt8) : (word ++ t).head? ≠ some 37 := by
  rcases word with _ | ⟨c, word⟩
  · cases h
  · intro hc
    cases Option.some_inj.mp hc
    exact absurd (List.cons.inj h).1 (by decide)

theorem includeWord_eq_some_iff {named body : List UInt8} :
    includeWord named = some body ↔ ∃ percent word, named = percent ++ (word ++ body) ∧
      (percent = [] ∨ percent = [37]) ∧ word.map tolower = bytesOf "include" := by
  unfold includeWord
  constructor
  · intro h
    have hcut : ∀ s : List UInt8, (if (s.take 7).map tolower = bytesOf "include"
        then some (s.drop 7) else none) = some body →
          ∃ word, s = word ++ body ∧ word.map tolower = bytesOf "include" := by
      intro s hs
      split at hs
      · rename_i hword
        cases hs
        exact ⟨s.take 7, (List.take_append_drop 7 s).symm, hword⟩
      · exact absurd hs.symm (Option.some_ne_none _)
    by_cases hpercent : named.head? = some 37
    · rw [if_pos hpercent] at h
      obtain ⟨word, heq, hword⟩ := hcut _ h
      obtain ⟨rest, rfl⟩ := List.head?_eq_some_iff.mp hpercent
      exact ⟨[37], word, by rw [← heq]; rfl, .inr rfl, hword⟩
    · rw [if_neg hpercent] at h
      obtain ⟨word, heq, hword⟩ := hcut _ h
      exact ⟨[], word, heq, .inl rfl, hword⟩
  · rintro ⟨percent, word, rfl, hpercent, hword⟩
    -- the optional `%` is taken if it is there, and the word does not begin with one
    have hnamed : (if (percent ++ (word ++ body)).head? = some 37
        then (percent ++ (word ++ body)).tail else percent ++ (word ++ body)) = word ++ body := by
      rcases hpercent with rfl | rfl
      · rw [List.nil_append, if_neg (head_of_word hword _)]
      · rfl
    rw [hnamed]
    dsimp only
    rw [← length_of_word hword, List.take_left, List.drop_left, if_pos hword]

/-- `i` is what the pattern captures in the text of a directive. -/
structure IsInclude (exStaticText : IncludePattern) (i : Include) : Prop where
  exists_parts : ∃ percent word run : List UInt8,
    i.fulltag = exStaticText.opener ++ (percent ++ (word ++ (i.tag ++
      58 :: (run ++ exStaticText.closer)))) ∧
      (percent = [] ∨ percent = [37]) ∧ word.map tolower = bytesOf "include" ∧ 58 ∉ i.tag ∧
      run ≠ [] ∧ 37 ∉ run ∧ i.includePath = pathOf run

theorem take_length_sub (a b : List UInt8) : (a ++ b).take ((a ++ b).length - b.length) = a := by
  rw [List.length_append, Nat.add_sub_cancel, List.take_left]

/-- A match is a directive in front of the text, whatever follows it. -/
theorem includeHere_eq_some_iff {exStaticText : IncludePattern} {s : List UInt8} {i : Include} :
    includeHere exStaticText s = some i ↔ IsInclude exStaticText i ∧ i.fulltag <+: s := by
  unfold includeHere
  constructor
  · intro h
    split at h
    · rename_i hopen
      obtain ⟨named, rfl⟩ := hopen
      rw [List.drop_left] at h
      obtain ⟨body, hbody, h⟩ := Option.bind_eq_some_iff.mp h
      obtain ⟨m, hm, rfl⟩ := Option.map_eq_some_iff.mp h
      obtain ⟨percent, word, rfl, hpercent, hword⟩ := includeWord_eq_some_iff.mp hbody
      obtain ⟨run, rfl, htag, hrun, h37, hpath⟩ := includeBody_eq_some_iff.mp hm
      -- what is cut off is the text behind the closing
      refine ⟨⟨percent, word, run, ?_, hpercent, hword, htag, hrun, h37, hpath⟩,
        List.take_prefix _ _⟩
      dsimp only
      rw [← take_length_sub (exStaticText.opener ++ (percent ++ (word ++ (m.1 ++
        58 :: (run ++ exStaticText.closer))))) m.2.2]
      simp only [List.append_assoc, List.cons_append]
    · exact absurd h.symm (Option.some_ne_none _)
  · rintro ⟨⟨percent, word, run, hfull, hpercent, hword, htag, hrun, h37, hpath⟩, r, rfl⟩
    set body := i.tag ++ 58 :: (run ++ (exStaticText.closer ++ r)) with hbody
    have hm : includeBody exStaticText.closer body = some (i.tag, pathOf run, r) :=
      includeBody_eq_some_iff.mpr ⟨run, rfl, htag, hrun, h37, rfl⟩
    have hnamed : includeWord (percent ++ (word ++ body)) = some body :=
      includeWord_eq_some_iff.mpr ⟨percent, word, rfl, hpercent, hword⟩
    have htext : i.fulltag ++ r = exStaticText.opener ++ (percent ++ (word ++ body)) := by
      rw [hfull, hbody]
      simp only [List.append_assoc, List.cons_append]
    have htake := take_length_sub i.fulltag r
    rw [htext] at htake ⊢
    rw [if_pos (List.prefix_append _ _), List.drop_left, hnamed, Option.bind_some, hm,
      Option.map_some, htake, ← hpath]

end HTMLIEngine

end Mantids
