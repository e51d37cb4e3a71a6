/-
# The parts of a message

`MIME_Message` (`Protocol_MIME/mime_message.cpp`) keeps its parts in a list, and in a multimap under
the names that `Content-Disposition` gives them.

* `MimeMessage` — the parts, the names, and the part that is being made;
* `addStringVar`, `addVar` — what adds a part;
* `varCount`, `getValues`, `getKeysList` — what looks parts up;
* `readBack_iff` — what was added is found if nothing was added.

A part that is added has its name in a header option of its own, where it is not looked for.
-/
import Mantids.HeaderBlock
import Mantids.UrlVars

namespace Mantids

/-- `getSubVar`: of several values the first one that was inserted. -/
def MimeHeaderOption.getSubVar (opt : MimeHeaderOption) (subVarName : List UInt8) : List UInt8 :=
  ((opt.subVar.find? fun v => v.1 = subVarName).map (·.2)).getD []

/-! ## The message -/

/-- `MIME_PartMessage`. -/
structure MimePartMessage where
  header : MimeSubHeader
  /-- `m_contentContainer`. -/
  content : BChunks := {}

/-- `MIME_Message`, apart from what it is as a parser. -/
structure MimeMessage where
  /-- `m_maxHeaderOptionsCount`. -/
  maxHeaderOptionsCount : ℕ := 64
  /-- `m_currentPart`, with the limit that `renewCurrentPart` gives it. -/
  currentPart : MimePartMessage := { header := { maxOptions := 64 } }
  /-- `m_allParts`. -/
  allParts : List MimePartMessage := []
  /-- `m_partsByName`, in the order of its iteration. -/
  partsByName : List (List UInt8 × MimePartMessage) := []

namespace MimeMessage

variable (tags : ℕ → List UInt8)

/-- `renewCurrentPart`. -/
def renewCurrentPart (m : MimeMessage) : MimeMessage :=
  { m with currentPart :=
      { header := { maxOptions := m.maxHeaderOptionsCount, drawn := m.currentPart.header.drawn } } }

/-- `getMultiPartMessageName`. -/
def getMultiPartMessageName (part : MimePartMessage) : List UInt8 :=
  match part.header.getOptionByName (bytesOf "content-disposition") with
  | some opt => opt.getSubVar (bytesOf "name")
  | none => []

/-- `addMultiPartMessage`. -/
def addMultiPartMessage (m : MimeMessage) (part : MimePartMessage) : MimeMessage :=
  let varName := getMultiPartMessageName part
  { m with
    allParts := m.allParts ++ [part]
    partsByName :=
      -- a part without a name cannot be looked up
      if varName ≠ [] then URLVars.multimapInsert m.partsByName (toUpperBytes varName) part
      else m.partsByName }

/-- `addStreamableObjectContainer`. -/
def addStreamableObjectContainer (m : MimeMessage) (varName : List UInt8) (obj : BChunks) :
    MimeMessage × Bool :=
  let (header, added) :=
    m.currentPart.header.add tags (bytesOf "Content-Disposition") (bytesOf "form-data")
  if added = false then ({ m with currentPart := { m.currentPart with header := header } }, false)
  else
    -- the name is an option of its own, and not a sub-value of the first one
    let (header, added) := header.add tags (bytesOf "name") varName
    if added = false then ({ m with currentPart := { m.currentPart with header := header } }, false)
    else
      let part : MimePartMessage := { header := header, content := obj }
      ((({ m with currentPart := part }).addMultiPartMessage part).renewCurrentPart, true)

/-- `addVar`. -/
def addVar (m : MimeMessage) (varName : List UInt8) (data : BChunks) : MimeMessage × Bool :=
  m.addStreamableObjectContainer tags varName data

/-- `addStringVar`, or `none` if the text is not stored.  But for that it does the same. -/
def addStringVar (m : MimeMessage) (key value : List UInt8) : Option (MimeMessage × Bool) :=
  (({} : BChunks).append false value).map fun contentBuffer =>
    m.addStreamableObjectContainer tags key contentBuffer.1

/-! ## The lookups -/

/-- The range of a name. -/
def equalRange (m : MimeMessage) (varName : List UInt8) : List MimePartMessage :=
  (m.partsByName.filter fun e => e.1 = toUpperBytes varName).map (·.2)

/-- `varCount`. -/
def varCount (m : MimeMessage) (varName : List UInt8) : UInt32 :=
  (m.equalRange varName).foldl (fun ix _ => ix + 1) 0

/-- `getValues`. -/
def getValues (m : MimeMessage) (varName : List UInt8) : List BChunks :=
  (m.equalRange varName).map (·.content)

/-- `getKeysList`; the names are in order, and so is the set. -/
def getKeysList (m : MimeMessage) : List (List UInt8) := (m.partsByName.map (·.1)).dedup

/-! ## Additions -/

/-- A call that adds a part. -/
inductive Addition where
  | stringVar (key value : List UInt8)
  | var (varName : List UInt8) (data : BChunks)

namespace Addition

def name : Addition → List UInt8
  | stringVar key _ => key
  | var varName _ => varName

/-- The content of the part. -/
def bytes : Addition → List UInt8
  | stringVar _ value => value
  | var _ data => data.bytes

end Addition

/-- An addition that returns true. -/
def add (m : MimeMessage) (a : Addition) : Option MimeMessage :=
  match a with
  | .stringVar key value =>
    (m.addStringVar tags key value).bind fun r => if r.2 then some r.1 else none
  | .var varName data =>
    if (m.addVar tags varName data).2 then some (m.addVar tags varName data).1 else none

/-- Additions that all return true. -/
def addAll (m : MimeMessage) (additions : List Addition) : Option MimeMessage :=
  additions.foldlM (add tags) m

/-- What was added is found under its name. -/
def ReadBack (m : MimeMessage) (additions : List Addition) : Prop :=
  (∀ varName, (m.varCount varName).toNat =
    (additions.filter fun a => toUpperBytes a.name = toUpperBytes varName).length) ∧
  (∀ varName, (m.getValues varName).map (·.bytes) =
    (additions.filter fun a => toUpperBytes a.name = toUpperBytes varName).map (·.bytes)) ∧
  ∀ key, key ∈ m.getKeysList ↔ ∃ a ∈ additions, toUpperBytes a.name = key

/-- No name is known, and the part that is being made has no options yet. -/
structure Nameless (m : MimeMessage) : Prop where
  partsByName : m.partsByName = []
  headers : m.currentPart.header.headers = []

/-- The option that is written has no name in it. -/
theorem getSubVar_formData (tag : List UInt8) :
    (({ origName := bytesOf "Content-Disposition" } : MimeHeaderOption).parseSubValues tag
      (bytesOf "form-data")).getSubVar (bytesOf "name") = [] := by
  rfl

/-- A part with the header that is written has no name, whatever option stands behind it. -/
theorem getMultiPartMessageName_formData {part : MimePartMessage} {tag : List UInt8} {made : ℕ}
    {rest : List (ℕ × MimeHeaderOption)}
    (hheaders : part.header.headers = (made,
      ({ origName := bytesOf "Content-Disposition" } : MimeHeaderOption).parseSubValues tag
        (bytesOf "form-data")) :: rest) :
    getMultiPartMessageName part = [] := by
  have hname :
    (({ origName := bytesOf "Content-Disposition" } : MimeHeaderOption).parseSubValues tag
      (bytesOf "form-data")).getUpperName = toUpperBytes (bytesOf "content-disposition") := by
    rw [MimeHeaderOption.getUpperName, (MimeHeaderOption.origName_parseSubValues ..).1]
    decide
  unfold getMultiPartMessageName MimeSubHeader.getOptionByName
  rw [hheaders, List.map_cons, List.find?_cons_of_pos (by simpa using hname)]
  exact getSubVar_formData tag

/-- What an addition does that returns true. -/
theorem addStreamableObjectContainer_cases {m : MimeMessage} (hm : m.Nameless)
    (varName : List UInt8)
    (obj : BChunks) (hadded : (m.addStreamableObjectContainer tags varName obj).2 = true) :
    (m.addStreamableObjectContainer tags varName obj).1.Nameless ∧
      (m.addStreamableObjectContainer tags varName obj).1.allParts.map (·.content) =
        m.allParts.map (·.content) ++ [obj] := by
  -- both options have to be stored
  have hstore : ∀ (h : MimeSubHeader) (optionName optionValue : List UInt8),
      (h.add tags optionName optionValue).2 = true →
        (h.add tags optionName optionValue).1.headers = h.headers ++ [(h.made,
          ({ origName := optionName } : MimeHeaderOption).parseSubValues
            (tags h.drawn) optionValue)] := by
    intro h optionName optionValue
    unfold MimeSubHeader.add
    split
    · exact fun hfalse => absurd hfalse Bool.false_ne_true
    · exact fun _ => rfl
  unfold addStreamableObjectContainer at hadded ⊢
  dsimp only at hadded ⊢
  split at hadded
  · cases hadded
  · rename_i hfirst
    split at hadded
    · cases hadded
    · rename_i hsecond
      rw [if_neg hfirst, if_neg hsecond]
      rw [Bool.not_eq_false] at hfirst hsecond
      have hheaders := hstore _ _ _ hsecond
      rw [hstore _ _ _ hfirst, hm.headers, List.nil_append, List.singleton_append] at hheaders
      refine ⟨⟨?_, rfl⟩, ?_⟩
      · -- the part that is added has no name, so that the index stays empty
        show (if _ then _ else _) = _
        rw [getMultiPartMessageName_formData hheaders, if_neg (not_not.mpr rfl)]
        exact hm.partsByName
      · exact List.map_append

/-- The step of a run: a part more, and no name. -/
theorem add_nameless {m m' : MimeMessage} (hm : m.Nameless) {a : Addition}
    (hadd : m.add tags a = some m') :
    m'.Nameless ∧ m'.allParts.length = m.allParts.length + 1 := by
  have hstep : ∀ (varName : List UInt8) (obj : BChunks),
      (m.addStreamableObjectContainer tags varName obj).2 = true →
      (m.addStreamableObjectContainer tags varName obj).1.Nameless ∧
        (m.addStreamableObjectContainer tags varName obj).1.allParts.length =
          m.allParts.length + 1 := by
    intro varName obj hadded
    obtain ⟨hnameless, hparts⟩ := addStreamableObjectContainer_cases tags hm varName obj hadded
    have hlength := congrArg List.length hparts
    rw [List.length_append, List.length_map, List.length_map, List.length_singleton] at hlength
    exact ⟨hnameless, hlength⟩
  unfold add at hadd
  split at hadd
  · obtain ⟨r, hr, hreturn⟩ := Option.bind_eq_some_iff.mp hadd
    obtain ⟨contentBuffer, -, rfl⟩ := Option.map_eq_some_iff.mp hr
    split at hreturn
    · rename_i hadded
      obtain rfl := Option.some.inj hreturn
      exact hstep _ _ hadded
    · cases hreturn
  · split at hadd
    · rename_i hadded
      obtain rfl := Option.some.inj hadd
      exact hstep _ _ hadded
    · cases hadd

/-- The run: as many parts as additions, and still no name. -/
theorem addAll_nameless {additions : List Addition} {m m' : MimeMessage} (hm : m.Nameless)
    (hadd : m.addAll tags additions = some m') :
    m'.Nameless ∧ m'.allParts.length = m.allParts.length + additions.length := by
  unfold addAll at hadd
  induction additions generalizing m with
  | nil =>
      obtain rfl := Option.some.inj hadd
      exact ⟨hm, rfl⟩
  | cons a additions ih =>
      rw [List.foldlM_cons] at hadd
      obtain ⟨m₁, hfirst, hrest⟩ := Option.bind_eq_some_iff.mp hadd
      obtain ⟨hm₁, hlength⟩ := add_nameless tags hm hfirst
      obtain ⟨hm', hlength'⟩ := ih hm₁ hrest
      refine ⟨hm', ?_⟩
      rw [hlength', hlength, List.length_cons]
      omega

/-- **Reading parts back by name.**  Of additions that all return true nothing is found under the
names, so they are read back exactly if there are none. -/
theorem readBack_iff {additions : List Addition} {m : MimeMessage}
    (hadd : ({} : MimeMessage).addAll tags additions = some m) :
    m.ReadBack additions ↔ additions = [] := by
  obtain ⟨hnameless, -⟩ := addAll_nameless tags (m := {}) ⟨rfl, rfl⟩ hadd
  constructor
  · rintro ⟨-, -, hkeys⟩
    rcases additions with _ | ⟨a, additions⟩
    · rfl
    · have hmem := (hkeys (toUpperBytes a.name)).mpr ⟨a, List.mem_cons_self, rfl⟩
      rw [getKeysList, hnameless.partsByName] at hmem
      cases hmem
  · rintro rfl
    refine ⟨fun varName => ?_, fun varName => ?_, fun key => ?_⟩
    · rw [varCount, equalRange, hnameless.partsByName]
      rfl
    · rw [getValues, equalRange, hnameless.partsByName]
      rfl
    · rw [getKeysList, hnameless.partsByName]
      simp

/-- A message to which nothing was added, and one to which a text was. -/
theorem readBack_nothing :
    ({} : MimeMessage).ReadBack [] ∧
      ∃ m, ({} : MimeMessage).addAll (fun _ => []) [.stringVar (bytesOf "id") (bytesOf "7")]
          = some m ∧
        ¬ m.ReadBack [.stringVar (bytesOf "id") (bytesOf "7")] :=
  ⟨(readBack_iff (fun _ => []) (show ({} : MimeMessage).addAll _ [] = some {} from rfl)).mpr rfl,
    _, rfl, fun hread => List.cons_ne_nil _ _ ((readBack_iff (fun _ => []) rfl).mp hread)⟩

/-- One variable is added, and it is not found. -/
theorem not_readBack :
    ∃ m, ({} : MimeMessage).addAll (fun _ => bytesOf "tag") [.var (bytesOf "user") {}] = some m ∧
      m.varCount (bytesOf "user") = 0 ∧ ¬ m.ReadBack [.var (bytesOf "user") {}] := by
  refine ⟨_, rfl, rfl, ?_⟩
  rintro ⟨hcount, -⟩
  exact absurd (hcount (bytesOf "user")) (by decide +kernel)

end MimeMessage

end Mantids
