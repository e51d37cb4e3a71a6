/-
# The document root

Three functions of `HTTPv1_Server` (`Protocol_HTTP/httpv1_server.cpp`) turn a URI into a file of the
server: `getLocalFilePathFromURI2`, and two that only look at the path.  Each of them computes the
real path, and compares it with the server directory.

* `getLocalFilePathFromURI0NE`, `getLocalFilePathFromURI0E` — the two that look at the path;
* `RealpathCanonical` — what is assumed of `realpath`;
* `BelowRoot` — a path inside the server directory;
* `found_below_root` — what the three functions find lies there.
-/
import Mantids.LocalFile

namespace Mantids

/-- `realpath` with a buffer: a path of `PATH_MAX` bytes or more does not fit. -/
def FileSystem.realpathInto (fs : FileSystem) (path : String) : Option String :=
  (fs.realpath path).filter (·.length < 4096)

namespace HTTPv1Server

variable (fs : FileSystem)

/-- `getLocalFilePathFromURI0NE`. -/
def getLocalFilePathFromURI0NE (uri sServerDir : String) : Bool × FileInfo :=
  match fs.realpath (cStr sServerDir) with
  | none => (false, {})
  | some cServerDir =>
    let sServerDir := withSlash cServerDir
    let sFullRequestedPath := sServerDir ++ String.ofList (uri.toList.drop 1)
    match fs.realpathInto (cStr sFullRequestedPath) with
    | none => (false, {})
    | some sFullComputedRealPath =>
      if !sServerDir.toList.isPrefixOf sFullComputedRealPath.toList then
        (false, { isTransversal := true })
      else
        (true,
          { sRealFullPath := sFullComputedRealPath
            sRealRelativePath :=
              String.ofList (sFullComputedRealPath.toList.drop (sServerDir.length - 1)) })

/-- `getLocalFilePathFromURI0E`.  Here a directory gets a slash at its end. -/
def getLocalFilePathFromURI0E (uri sServerDir : String) : Bool × FileInfo :=
  match fs.realpath (cStr sServerDir) with
  | none => (false, {})
  | some cServerDir =>
    let sServerDir := withSlash cServerDir
    let sFullRequestedPath := sServerDir ++ String.ofList (uri.toList.drop 1)
    match fs.realpathInto (cStr sFullRequestedPath) with
    | none => (false, {})
    | some cRealPath =>
      let isDir := decide (fs.fileType cRealPath = .directory)
      let sFullComputedRealPath := if isDir then withSlash cRealPath else cRealPath
      if !sServerDir.toList.isPrefixOf sFullComputedRealPath.toList then
        (false, { isDir := isDir, isTransversal := true })
      else
        (true,
          { isDir := isDir
            sRealFullPath := sFullComputedRealPath
            sRealRelativePath :=
              String.ofList (sFullComputedRealPath.toList.drop (sServerDir.length - 1)) })

end HTTPv1Server

/-! ## Inside a directory -/

/-- The form of a canonical path: absolute, and without a slash at the end unless it is the root. -/
structure CanonicalPath (path : String) : Prop where
  absolute : path.toList.head? = some '/'
  last : path ≠ "/" → path.toList.getLast? ≠ some '/'

/-- `realpath` gives canonical paths. -/
def FileSystem.RealpathCanonical (fs : FileSystem) : Prop :=
  ∀ path real, fs.realpath path = some real → CanonicalPath real

/-- A canonical directory as the beginning of the paths in it: nothing, for the root. -/
def dirName (dir : String) : String := if dir = "/" then "" else dir

/-- The path found is that of the real server directory, followed by the relative path, which
starts with a slash; so a path that goes on with another character after the name of the directory
is not found. -/
structure BelowRoot (fs : FileSystem) (sServerDir : String) (info : FileInfo) : Prop where
  split : ∃ dir, fs.realpath (cStr sServerDir) = some dir ∧
    info.sRealFullPath = dirName dir ++ info.sRealRelativePath
  slash : info.sRealRelativePath.toList.head? = some '/'
  sibling : ∀ dir c rest, fs.realpath (cStr sServerDir) = some dir → dir ≠ "/" → c ≠ '/' →
    info.sRealFullPath ≠ dir ++ String.ofList (c :: rest)

namespace HTTPv1Server

theorem withSlash_eq {dir : String} (h : CanonicalPath dir) :
    withSlash dir = dirName dir ++ "/" := by
  unfold withSlash dirName
  by_cases hroot : dir = "/"
  · subst hroot
    rfl
  · rw [if_neg (h.last hroot), if_neg hroot]

/-- The test of the three functions: the path starts with the server directory and a slash. -/
theorem belowRoot_of_isPrefixOf {fs : FileSystem} {sServerDir dir full : String} {info : FileInfo}
    (hdir : fs.realpath (cStr sServerDir) = some dir) (hcanonical : CanonicalPath dir)
    (hbelow : (withSlash dir).toList.isPrefixOf full.toList = true)
    (hfull : info.sRealFullPath = full)
    (hrelative : info.sRealRelativePath =
      String.ofList (full.toList.drop ((withSlash dir).length - 1))) :
    BelowRoot fs sServerDir info := by
  obtain ⟨rest, hrest⟩ := List.isPrefixOf_iff_prefix.mp hbelow
  rw [withSlash_eq hcanonical] at hrest hrelative
  have hslash : info.sRealRelativePath = String.ofList ('/' :: rest) := by
    have hlength : (dirName dir ++ "/").length - 1 = (dirName dir).toList.length := by
      rw [String.length_append, String.length_toList]
      rfl
    rw [hrelative, ← hrest, hlength, String.toList_append, List.append_assoc, List.drop_left]
    rfl
  have hsplit : info.sRealFullPath = dirName dir ++ info.sRealRelativePath := by
    rw [hfull, hslash]
    apply String.toList_injective
    rw [← hrest]
    simp
  constructor
  · exact ⟨dir, hdir, hsplit⟩
  · rw [hslash, String.toList_ofList]
    rfl
  · intro dir' c rest' hdir' hroot hc hsibling
    rw [hdir] at hdir'
    cases hdir'
    rw [hsplit, dirName, if_neg hroot, hslash, String.append_right_inj] at hsibling
    have hchars := String.ofList_injective hsibling
    exact hc (List.cons.inj hchars).1.symm

/-! ## The three functions -/

variable {fs : FileSystem}

/-- What passes the test is below the root. -/
theorem belowRoot_of_checked {sServerDir dir full : String} {refused accepted : FileInfo}
    (hdir : fs.realpath (cStr sServerDir) = some dir) (hcanonical : CanonicalPath dir)
    (hfull : accepted.sRealFullPath = full)
    (hrelative : accepted.sRealRelativePath =
      String.ofList (full.toList.drop ((withSlash dir).length - 1)))
    (hfound : (if !(withSlash dir).toList.isPrefixOf full.toList then (false, refused)
      else (true, accepted)).1 = true) :
    BelowRoot fs sServerDir (if !(withSlash dir).toList.isPrefixOf full.toList then (false, refused)
      else (true, accepted)).2 := by
  by_cases hbelow : (withSlash dir).toList.isPrefixOf full.toList = true
  · rw [hbelow]
    exact belowRoot_of_isPrefixOf hdir hcanonical hbelow hfull hrelative
  · rw [Bool.eq_false_iff.mpr hbelow] at hfound
    cases hfound

theorem uri0NE_below_root (hfs : fs.RealpathCanonical) {uri sServerDir : String}
    (hfound : (getLocalFilePathFromURI0NE fs uri sServerDir).1 = true) :
    BelowRoot fs sServerDir (getLocalFilePathFromURI0NE fs uri sServerDir).2 := by
  unfold getLocalFilePathFromURI0NE at hfound ⊢
  cases hdir : fs.realpath (cStr sServerDir) with
  | none => simp [hdir] at hfound
  | some dir =>
      simp only [hdir] at hfound ⊢
      cases hreal : fs.realpathInto (cStr (withSlash dir ++ String.ofList (uri.toList.drop 1))) with
      | none => simp only [hreal, Bool.false_eq_true] at hfound
      | some real =>
          simp only [hreal] at hfound ⊢
          exact belowRoot_of_checked hdir (hfs _ _ hdir) rfl rfl hfound

theorem uri0E_below_root (hfs : fs.RealpathCanonical) {uri sServerDir : String}
    (hfound : (getLocalFilePathFromURI0E fs uri sServerDir).1 = true) :
    BelowRoot fs sServerDir (getLocalFilePathFromURI0E fs uri sServerDir).2 := by
  unfold getLocalFilePathFromURI0E at hfound ⊢
  cases hdir : fs.realpath (cStr sServerDir) with
  | none => simp [hdir] at hfound
  | some dir =>
      simp only [hdir] at hfound ⊢
      cases hreal : fs.realpathInto (cStr (withSlash dir ++ String.ofList (uri.toList.drop 1))) with
      | none => simp only [hreal, Bool.false_eq_true] at hfound
      | some real =>
          simp only [hreal] at hfound ⊢
          generalize (if decide (fs.fileType real = .directory) = true then withSlash real
            else real) = full at hfound ⊢
          exact belowRoot_of_checked hdir (hfs _ _ hdir) rfl rfl hfound

/-- A regular file that is served has the path it was looked up with. -/
theorem serveRegular_info {s : HTTPv1Server} {requested full relative : String}
    {dontMapExecutables : Bool}
    (hfound : (serveRegular fs s requested full relative dontMapExecutables).found = true) :
    (serveRegular fs s requested full relative dontMapExecutables).info.sRealFullPath = full ∧
    (serveRegular fs s requested full relative dontMapExecutables).info.sRealRelativePath =
      relative := by
  unfold serveRegular at hfound ⊢
  by_cases hexec : (dontMapExecutables && fs.executable (cStr full)) = true
  · rw [if_pos hexec]
    exact ⟨rfl, rfl⟩
  · rw [if_neg hexec] at hfound ⊢
    cases hfile : fs.referenceFile (cStr full) with
    | none =>
        rw [hfile] at hfound
        cases hfound
    | some data => exact ⟨rfl, rfl⟩

theorem uri2_below_root (hfs : fs.RealpathCanonical) {s : HTTPv1Server}
    {sServerDir defaultFileAppend : String} {dontMapExecutables : Bool}
    (hstatic : s.staticContentElements (s.uri ++ defaultFileAppend) = none)
    (hfound : (getLocalFilePathFromURI2 fs s sServerDir defaultFileAppend
      dontMapExecutables).found = true) :
    BelowRoot fs sServerDir (getLocalFilePathFromURI2 fs s sServerDir defaultFileAppend
      dontMapExecutables).info := by
  unfold getLocalFilePathFromURI2 at hfound ⊢
  cases hdir : fs.realpath (cStr sServerDir) with
  | none => simp [hdir] at hfound
  | some dir =>
      simp only [hdir, hstatic] at hfound ⊢
      cases hreal : fs.realpath (cStr (withSlash dir ++ String.ofList (s.uri.toList.drop 1) ++
        defaultFileAppend)) with
      | none => simp only [hreal, Bool.false_eq_true] at hfound
      | some real =>
          simp only [hreal] at hfound ⊢
          generalize (if decide (fs.fileType real = .directory) = true then withSlash real
            else real) = full at hfound ⊢
          have hroot : ∀ info : FileInfo, (withSlash dir).toList.isPrefixOf full.toList = true →
              info.sRealFullPath = full → info.sRealRelativePath =
                String.ofList (full.toList.drop ((withSlash dir).length - 1)) →
              BelowRoot fs sServerDir info := fun info hbelow hfull hrelative =>
            belowRoot_of_isPrefixOf hdir (hfs _ _ hdir) hbelow hfull hrelative
          by_cases hbelow : (withSlash dir).toList.isPrefixOf full.toList = true
          · simp only [hbelow, Bool.not_true, Bool.false_eq_true, if_false] at hfound ⊢
            by_cases htype : decide (fs.fileType real = .directory) = true
            · rw [if_pos htype] at hfound ⊢
              by_cases happend : defaultFileAppend ≠ ""
              · rw [if_pos happend] at hfound
                cases hfound
              · rw [if_neg happend]
                exact hroot _ hbelow rfl rfl
            · rw [if_neg htype] at hfound ⊢
              by_cases hregular : fs.fileType real = .regular
              · rw [if_pos hregular] at hfound ⊢
                obtain ⟨hfull, hrelative⟩ := serveRegular_info hfound
                exact hroot _ hbelow hfull hrelative
              · rw [if_neg hregular] at hfound
                cases hfound
          · rw [Bool.eq_false_iff.mpr hbelow] at hfound
            cases hfound

/-- **What is found lies below the document root.** -/
theorem found_below_root (hfs : fs.RealpathCanonical) (sServerDir : String) :
    (∀ (s : HTTPv1Server) (defaultFileAppend : String) (dontMapExecutables : Bool),
      s.staticContentElements (s.uri ++ defaultFileAppend) = none →
      (getLocalFilePathFromURI2 fs s sServerDir defaultFileAppend dontMapExecutables).found = true →
      BelowRoot fs sServerDir
        (getLocalFilePathFromURI2 fs s sServerDir defaultFileAppend dontMapExecutables).info) ∧
    (∀ uri, (getLocalFilePathFromURI0NE fs uri sServerDir).1 = true →
      BelowRoot fs sServerDir (getLocalFilePathFromURI0NE fs uri sServerDir).2) ∧
    (∀ uri, (getLocalFilePathFromURI0E fs uri sServerDir).1 = true →
      BelowRoot fs sServerDir (getLocalFilePathFromURI0E fs uri sServerDir).2) := by
  refine ⟨?_, ?_, ?_⟩
  · intro s defaultFileAppend dontMapExecutables hstatic hfound
    exact uri2_below_root hfs hstatic hfound
  · intro uri hfound
    exact uri0NE_below_root hfs hfound
  · intro uri hfound
    exact uri0E_below_root hfs hfound

/-- A server directory with one file, and a sibling with a longer name. -/
def siblings : FileSystem where
  realpath path :=
    if path = "/srv" ∨ path = "/srv/" then some "/srv"
    else if path = "/srv/a" then some "/srv/a"
    else if path = "/srv/../srv2/b" then some "/srv2/b"
    else none
  fileType path := if path = "/srv" then .directory else .regular
  readable _ := true
  executable _ := false
  referenceFile _ := some "text"
  lastModified _ := none
  ifstream _ := none

theorem siblings_realpathCanonical : siblings.RealpathCanonical := by
  intro path real hreal
  have hcases : real = "/srv" ∨ real = "/srv/a" ∨ real = "/srv2/b" := by
    simp only [siblings] at hreal
    split_ifs at hreal <;> simp_all
  rcases hcases with rfl | rfl | rfl <;> constructor <;> decide

/-- The file of the directory is found by all three; the one of the sibling is not. -/
theorem found_below_root_siblings :
    BelowRoot siblings "/srv"
      (getLocalFilePathFromURI2 siblings { uri := "/a" } "/srv" "" true).info ∧
    BelowRoot siblings "/srv" (getLocalFilePathFromURI0NE siblings "/a" "/srv").2 ∧
    BelowRoot siblings "/srv" (getLocalFilePathFromURI0E siblings "/" "/srv").2 ∧
    (getLocalFilePathFromURI0E siblings "/../srv2/b" "/srv").1 = false := by
  have hbelow := found_below_root siblings_realpathCanonical "/srv"
  refine ⟨hbelow.1 _ _ _ rfl (by decide +kernel), hbelow.2.1 _ (by decide +kernel),
    hbelow.2.2 _ (by decide +kernel), ?_⟩
  decide +kernel

end HTTPv1Server

end Mantids
