/-
# Files of variables

`Vars::File` (`File_Formats/varsfile.cpp`) keeps variables in a multimap, writes them to a file as
`name:value` and reads such a file back.

* `FileSystem` — what a path leads to, and where files can be written;
* `save`, `load` — the functions of the source;
* `saveLoop_eq`, `load_line` — what is written, and what comes of a text without line ends;
* `restores_iff` — which multimaps come back.
-/
import Mathlib.Logic.Function.Basic
import Mantids.Lib.Cut
import Mantids.MimeHeader
import Mantids.UrlVars

namespace Mantids

open URLVars

namespace VarsFile

/-- `eFileError`. -/
inductive FileError where
  | invalidFileFormat | invalidVarnameFormat | cantOpenFile | fileNoError
deriving DecidableEq, Repr

/-- The files that can be read, with their bytes, and the paths that can be written to. -/
structure FileSystem where
  content : List UInt8 → Option (List UInt8)
  writable : List UInt8 → Bool

/-- The bytes that were written are found under their path. -/
def FileSystem.write (fs : FileSystem) (path bytes : List UInt8) : FileSystem :=
  { fs with content := Function.update fs.content path (some bytes) }

theorem FileSystem.content_write (fs : FileSystem) (path bytes : List UInt8) :
    (fs.write path bytes).content path = some bytes := Function.update_self ..

/-- `Vars::File`; the variables are in the order of the multimap. -/
structure File where
  filePath : List UInt8
  lastError : FileError
  vars : List (List UInt8 × List UInt8)
  sorted : Sorted vars

namespace File

/-- The constructor. -/
def ofPath (filePath : List UInt8) : File where
  filePath := filePath
  lastError := .fileNoError
  vars := []
  sorted := List.Pairwise.nil

/-- `m_vars.insert`. -/
def insert (f : File) (varName varValue : List UInt8) : File :=
  { f with
    vars := multimapInsert f.vars varName varValue
    sorted := sorted_multimapInsert f.sorted varName varValue }

end File

/-! ## Lines -/

/-- `std::getline`: the text in front of the next delimiter or of the end, and what is left behind;
there is none at the end of the stream. -/
def getline (delim : UInt8) (s : List UInt8) : Option (List UInt8 × List UInt8) :=
  if s = [] then none else some (s.takeWhile (· ≠ delim), (s.dropWhile (· ≠ delim)).drop 1)

/-- `getLineVars`; `none` is the line that is not `ok`. -/
def getLineVars (line : List UInt8) : Option (List UInt8 × List UInt8) :=
  match getline 58 line with
  | none => none
  | some (varName, _) =>
    if line.length ≤ varName.length then none
    else some (varName, line.take (varName.length + 1))

/-- `getLineFromVars`; `none` is the name that is not `ok`. -/
def getLineFromVars (vars : List UInt8 × List UInt8) : Option (List UInt8) :=
  if 58 ∈ vars.1 then none else some (vars.1 ++ [58] ++ vars.2)

/-! ## Files -/

/-- The loop of `save`: whether all the names are right, and what was written. -/
def saveLoop : List (List UInt8 × List UInt8) → List UInt8 → Bool × List UInt8
  | [], written => (true, written)
  | i :: vars, written =>
    match getLineFromVars i with
    | none => (false, written)
    | some value => saveLoop vars (written ++ value)

/-- `save()`. -/
def save (f : File) (fs : FileSystem) : Bool × File × FileSystem :=
  if fs.writable f.filePath = false then (false, { f with lastError := .cantOpenFile }, fs)
  else
    let r := saveLoop f.vars []
    (r.1, if r.1 then f else { f with lastError := .invalidVarnameFormat },
      fs.write f.filePath r.2)

/-- The loop of `load`; a line takes at least one byte from the stream. -/
def loadLoop : ℕ → File → List UInt8 → Bool × File
  | 0, f, _ => (true, f)
  | fuel + 1, f, varsfile =>
    match getline 10 varsfile with
    | none => (true, f)
    | some (line, rest) =>
      match getLineVars line with
      | none => (false, { f with lastError := .invalidFileFormat })
      | some (varName, varValue) => loadLoop fuel (f.insert varName varValue) rest

/-- `load()`. -/
def load (f : File) (fs : FileSystem) : Bool × File :=
  match fs.content f.filePath with
  | none => (false, { f with lastError := .cantOpenFile })
  | some varsfile => loadLoop (varsfile.length + 1) f varsfile

/-! ## What is written -/

variable {f : File} {fs : FileSystem} {name value line : List UInt8}

/-- The variables one after the other. -/
def text (vars : List (List UInt8 × List UInt8)) : List UInt8 :=
  vars.flatMap fun v => v.1 ++ [58] ++ v.2

theorem saveLoop_eq {vars : List (List UInt8 × List UInt8)} (hnames : ∀ v ∈ vars, 58 ∉ v.1)
    (written : List UInt8) : saveLoop vars written = (true, written ++ text vars) := by
  induction vars generalizing written with
  | nil => rw [saveLoop, text, List.flatMap_nil, List.append_nil]
  | cons v vars ih =>
    rw [List.forall_mem_cons] at hnames
    rw [saveLoop, getLineFromVars, if_neg hnames.1]
    dsimp only
    rw [ih hnames.2, List.append_assoc]
    rfl

/-- `save` writes the variables, without line ends. -/
theorem save_eq (hopen : fs.writable f.filePath = true) (hnames : ∀ v ∈ f.vars, 58 ∉ v.1) :
    save f fs = (true, f, fs.write f.filePath (text f.vars)) := by
  unfold save
  rw [if_neg (by simp [hopen]), saveLoop_eq hnames]
  rfl

/-! ## What is read -/

/-- The last line does not need an end. -/
theorem getline_last {delim : UInt8} (hne : line ≠ []) (hend : delim ∉ line) :
    getline delim line = some (line, []) := by
  rw [getline, if_neg hne, Cut.takeWhile_ne_eq_self_iff.mpr hend,
    Cut.dropWhile_ne_eq_nil_iff.mpr hend]
  rfl

/-- The name is in front of the first colon; what is taken for the value is the name again, with the
colon. -/
theorem getLineVars_name (hname : 58 ∉ name) (rest : List UInt8) :
    getLineVars (name ++ [58] ++ rest) = some (name, name ++ [58]) := by
  have hne : name ++ [58] ++ rest ≠ [] := by simp
  have hfront : (name ++ [58] ++ rest).takeWhile (· ≠ 58) = name := by
    rw [List.append_assoc]
    exact Cut.takeWhile_ne_append hname rest
  have hlength : ¬ (name ++ [58] ++ rest).length ≤ name.length := by simp
  unfold getLineVars getline
  rw [if_neg hne]
  dsimp only
  rw [hfront, if_neg hlength, List.take_left' (by simp)]

/-- An empty file has no variables. -/
theorem load_nil (hcontent : fs.content f.filePath = some []) : load f fs = (true, f) := by
  unfold load
  rw [hcontent]
  rfl

/-- A text of one line is read as one variable. -/
theorem load_line (hcontent : fs.content f.filePath = some (name ++ [58] ++ value))
    (hname : 58 ∉ name) (hend : 10 ∉ name ++ [58] ++ value) :
    load f fs = (true, f.insert name (name ++ [58])) := by
  have hne : name ++ [58] ++ value ≠ [] := by simp
  obtain ⟨n, hn⟩ : ∃ n, (name ++ [58] ++ value).length = n + 1 :=
    ⟨_, (Nat.succ_pred (List.length_pos_of_ne_nil hne).ne').symm⟩
  unfold load
  rw [hcontent]
  dsimp only
  rw [loadLoop, getline_last hne hend]
  dsimp only
  rw [getLineVars_name hname]
  dsimp only
  rw [hn, loadLoop]
  rfl

/-! ## The round trip -/

/-- The file is saved, and what is loaded from it are its variables. -/
def Restores (f : File) (fs : FileSystem) : Prop :=
  (save f fs).1 = true ∧
    (load (File.ofPath f.filePath) (save f fs).2.2).1 = true ∧
      (load (File.ofPath f.filePath) (save f fs).2.2).2.vars = f.vars

/-- There is no line end in what is written. -/
theorem not_mem_text {vars : List (List UInt8 × List UInt8)} (hnames : ∀ v ∈ vars, 10 ∉ v.1)
    (hvalues : ∀ v ∈ vars, 10 ∉ v.2) : 10 ∉ text vars := by
  unfold text
  rw [List.mem_flatMap]
  rintro ⟨v, hv, hmem⟩
  rw [List.append_assoc, List.mem_append, List.mem_append, List.mem_singleton] at hmem
  rcases hmem with hmem | hmem | hmem
  · exact hnames v hv hmem
  · exact absurd hmem (by decide)
  · exact hvalues v hv hmem

/-- **Which files come back.**  All variables are written to one line, of which one variable is
read, with its name and a colon as the value. -/
theorem restores_iff (hopen : fs.writable f.filePath = true)
    (hnames : ∀ v ∈ f.vars, 58 ∉ v.1 ∧ 10 ∉ v.1) (hvalues : ∀ v ∈ f.vars, 10 ∉ v.2) :
    Restores f fs ↔ f.vars = [] ∨ ∃ name, f.vars = [(name, name ++ [58])] := by
  have hend := not_mem_text (fun v hv => (hnames v hv).2) hvalues
  unfold Restores
  rw [save_eq hopen fun v hv => (hnames v hv).1]
  dsimp only
  rcases hvars : f.vars with _ | ⟨⟨name, value⟩, vars⟩
  · have hload : load (.ofPath f.filePath) (fs.write f.filePath (text []))
        = (true, .ofPath f.filePath) := load_nil (FileSystem.content_write ..)
    rw [hload]
    simp [File.ofPath]
  · have htext : text ((name, value) :: vars) = name ++ [58] ++ (value ++ text vars) := by
      rw [text, List.flatMap_cons, List.append_assoc]
      rfl
    rw [hvars, htext] at hend
    have hname : 58 ∉ name := (hnames (name, value) (by rw [hvars]; exact List.mem_cons_self)).1
    have hload : load (.ofPath f.filePath) (fs.write f.filePath (text ((name, value) :: vars)))
        = (true, (File.ofPath f.filePath).insert name (name ++ [58])) :=
      load_line ((FileSystem.content_write ..).trans (congrArg some htext)) hname hend
    have hinsert : ((File.ofPath f.filePath).insert name (name ++ [58])).vars
        = [(name, name ++ [58])] := rfl
    rw [hload, hinsert]
    constructor
    · rintro ⟨-, -, hsame⟩
      exact Or.inr ⟨name, hsame.symm⟩
    · rintro (hnil | ⟨other, hsame⟩)
      · cases hnil
      · obtain ⟨hpair, rfl⟩ := List.cons.inj hsame
        obtain ⟨rfl, rfl⟩ := Prod.mk.inj hpair
        exact ⟨rfl, rfl, rfl⟩

/-! ## Files of one variable -/

/-- A file system that takes everything. -/
def sampleSystem : FileSystem where
  content _ := none
  writable _ := true

/-- A file with a variable of the name "a". -/
def sampleFile (value : List UInt8) : File where
  filePath := bytesOf "vars"
  lastError := .fileNoError
  vars := [(bytesOf "a", value)]
  sorted := List.pairwise_singleton ..

theorem restores_colon :
    Restores (sampleFile (bytesOf "a:")) sampleSystem ↔
      (sampleFile (bytesOf "a:")).vars = [] ∨
        ∃ name, (sampleFile (bytesOf "a:")).vars = [(name, name ++ [58])] :=
  restores_iff rfl (by decide) (by decide)

/-- The value "b" comes back as "a:". -/
theorem not_restores : ¬ Restores (sampleFile (bytesOf "b")) sampleSystem := by
  rintro ⟨-, -, hsame⟩
  revert hsame
  decide

end VarsFile
end Mantids
