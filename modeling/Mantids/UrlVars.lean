/-
# URL variables

`HTTP::URLVars` keeps variables in a multimap from upper-cased names to values.  `streamTo`
writes them as `name=value` joined by `&`, without the `=` where the value is empty; the parser
reads that back with a sub-parser that looks for `=` or `&` behind a name and for `&` behind a
value.

* `URLVars.addVar`, `streamTo` — the multimap and the encoded text;
* `URLVarContent.parse`, `changeToNextParser`, `urlVarsParser` — the parser;
* `Phase` — where in a text the parser is, with what a round does there;
* `urlVars_roundTrip` — when the variables come back.
-/
import Mantids.Parser
import Mantids.UrlCodec
import Mantids.MultiDelimiterMode

namespace Mantids

open Occurrence StreamableChunks

/-! ## The variables -/

/-- A container as it is streamed. -/
def BChunks.pieces (c : BChunks) : List (List UInt8) :=
  if c.size = 0 then [] else copyChunks c.chunksVector c.size

namespace URLVars

/-- `boost::to_upper_copy`. -/
def upperCopy (s : List UInt8) : List UInt8 := s.map toupper

/-- `std::multimap::insert`: behind all the entries whose key is not greater. -/
def multimapInsert {α : Type*} (m : List (List UInt8 × α)) (k : List UInt8) (v : α) :
    List (List UInt8 × α) :=
  m.takeWhile (fun e => !decide (k < e.1)) ++ (k, v) :: m.dropWhile (fun e => !decide (k < e.1))

/-- `m_vars`, in the order of its iteration. -/
abbrev Variables := List (List UInt8 × BChunks)

/-- `addVar`; an empty name is refused. -/
def addVar (vars : Variables) (varName : List UInt8) (data : BChunks) : Variables :=
  if varName ≠ [] then multimapInsert vars (upperCopy varName) data else vars

/-- `streamTo`: what is written to a destination that takes everything, or `none` if it fails
or throws. -/
def streamTo (firstVar : Bool) : Variables → Option (List UInt8)
  | [] => some []
  | (k, v) :: vars =>
    match ({} : BChunks).append false k with
    | none => none
    | some (varName, _) =>
      match EncoderURL.transform varName.pieces,
        (if v.size ≠ 0 then (EncoderURL.transform v.pieces).map (61 :: ·) else some []),
        streamTo false vars with
      | some name, some value, some rest =>
        some ((if firstVar then [] else [38]) ++ name ++ value ++ rest)
      | _, _, _ => none

end URLVars

open URLVars

/-! ## The parser -/

/-- The fields of `URLVarContent`. -/
structure URLVarContent where
  /-- `m_pData`. -/
  pData : StreamableChunks := {}
  /-- Writing to it threw. -/
  thrown : Bool := false

namespace URLVarContent

/-- `parse()`. -/
def parse (unparsedBuffer : BChunks) : Parse URLVarContent := fun c st shown =>
  let pData := { c.pData with container := c.pData.container.clear }
  if shown.parsedBuffer = [] then ({ c with pData := pData }, st, .getMoreData)
  else
    match DecoderURL.transform
      (BChunks.copyChunks unparsedBuffer.chunksVector shown.parsedBuffer.length) pData with
    | none => ({ pData := pData, thrown := true }, st, .error)
    | some pData =>
      if pData.writeStatus.succeed = false then
        ({ c with pData := { pData with container := pData.container.clear } }, st, .error)
      else ({ c with pData := pData }, st, .gotoNextSubparser)

/-- `setVarType`. -/
def setVarType (p : SubParser URLVarContent) (varName : Bool) : SubParser URLVarContent :=
  { p with parseMultiDelimiter := if varName then [[61], [38]] else [[38]] }

/-- `setMaxObjectSize`. -/
def setMaxObjectSize (p : SubParser URLVarContent) (size : ℕ) : SubParser URLVarContent :=
  { p with unparsedBuffer := { p.unparsedBuffer with maxSize := size } }

/-- `flushRetrievedContentAsBC`. -/
def flushRetrievedContentAsBC (p : SubParser URLVarContent) : SubParser URLVarContent × BChunks :=
  ({ p with derived := { p.derived with pData := {} } }, p.derived.pData.container)

/-- `flushRetrievedContentAsString`. -/
def flushRetrievedContentAsString (p : SubParser URLVarContent) :
    SubParser URLVarContent × List UInt8 :=
  ({ p with derived := { p.derived with pData := {} } }, p.derived.pData.bytes)

end URLVarContent

/-- `eHTTP_URLVarStat`. -/
inductive URLVarStat where
  | waitingName
  | waitingContent
deriving DecidableEq

/-- The fields of `URLVars` that parsing uses. -/
structure URLVars where
  /-- `m_urlVarParser`. -/
  urlVarParser : SubParser URLVarContent
  /-- `m_currentStat`. -/
  currentStat : URLVarStat := .waitingName
  /-- `m_currentVarName`. -/
  currentVarName : List UInt8 := []
  /-- `m_vars`. -/
  vars : Variables := []
  /-- `m_maxVarNameSize`. -/
  maxVarNameSize : ℕ := 4096
  /-- `m_maxVarContentSize`. -/
  maxVarContentSize : ℕ := 4096

namespace URLVars

open URLVarContent

/-- `URLVars::create()`. -/
def fresh : URLVars where
  urlVarParser := SubParser.start
    { parseMode := .multiDelimiter, parseMultiDelimiter := [[61], [38]],
      parseDataTargetSize := 4096 } {}

/-- `changeToNextParser`. -/
def changeToNextParser (s : URLVars) : URLVars × Bool :=
  match s.currentStat with
  | .waitingName =>
    let (p, name) := flushRetrievedContentAsString s.urlVarParser
    if p.delimiterFound = [38] ∨ p.streamEnded = true then
      let (p, data) := flushRetrievedContentAsBC p
      ({ s with urlVarParser := p, currentVarName := name, vars := addVar s.vars name data }, true)
    else
      ({ s with
          urlVarParser := setMaxObjectSize (setVarType p false) s.maxVarContentSize
          currentVarName := name
          currentStat := .waitingContent }, true)
  | .waitingContent =>
    let (p, data) := flushRetrievedContentAsBC s.urlVarParser
    ({ s with
        urlVarParser := setMaxObjectSize (setVarType p true) s.maxVarNameSize
        vars := addVar s.vars s.currentVarName data
        currentStat := .waitingName }, true)

section

variable {s : URLVars} {q : SubParser URLVarContent}

/-- A name with nothing behind it is a variable without a value. -/
theorem changeToNextParser_lone (hstat : s.currentStat = .waitingName)
    (hend : q.delimiterFound = [38] ∨ q.streamEnded = true) :
    changeToNextParser { s with urlVarParser := q } =
      ({ s with
          urlVarParser := { q with derived := { q.derived with pData := {} } }
          currentVarName := q.derived.pData.bytes
          vars := addVar s.vars q.derived.pData.bytes {} }, true) := by
  simp [changeToNextParser, hstat, flushRetrievedContentAsString, flushRetrievedContentAsBC, hend]

/-- Behind another name its value is expected. -/
theorem changeToNextParser_name (hstat : s.currentStat = .waitingName)
    (hfound : q.delimiterFound ≠ [38]) (hended : q.streamEnded = false) :
    changeToNextParser { s with urlVarParser := q } =
      ({ s with
          urlVarParser := setMaxObjectSize (setVarType
            { q with derived := { q.derived with pData := {} } } false) s.maxVarContentSize
          currentVarName := q.derived.pData.bytes
          currentStat := .waitingContent }, true) := by
  simp [changeToNextParser, hstat, flushRetrievedContentAsString, hfound, hended]

/-- Behind a value the next name. -/
theorem changeToNextParser_content (hstat : s.currentStat = .waitingContent) :
    changeToNextParser { s with urlVarParser := q } =
      ({ s with
          urlVarParser := setMaxObjectSize (setVarType
            { q with derived := { q.derived with pData := {} } } true) s.maxVarNameSize
          vars := addVar s.vars s.currentVarName q.derived.pData.container
          currentStat := .waitingName }, true) := by
  simp [changeToNextParser, hstat, flushRetrievedContentAsBC]

end

/-- `writeIntoParser` of the sub-parser, apart from exceptions of `m_pData`. -/
def subParserWrite (heap : ℕ → ℕ → UInt8) (p : SubParser URLVarContent) (buf : List UInt8) :
    SubParser URLVarContent × Written :=
  p.writeIntoParser (parse (p.appendToUnparsedBuffer buf).1.unparsedBuffer) heap buf

end URLVars

/-- `URLVars` as a class derived from `Parser`. -/
def urlVarsParser (heap : ℕ → ℕ → UInt8) : ParserClass URLVars where
  hasParser _ := true
  writeIntoParser s buf :=
    let (p, n) := URLVars.subParserWrite heap (s.urlVarParser.setParseStatus .getMoreData) buf
    ({ s with urlVarParser := p }, if p.derived.thrown then .exception else n)
  parseStatus s := s.urlVarParser.parseStatus
  changeToNextParser := URLVars.changeToNextParser

/-! ## The multimap -/

/-- The order of a multimap's entries. -/
def Sorted {α : Type*} (m : List (List UInt8 × α)) : Prop := m.Pairwise (fun a b => ¬ b.1 < a.1)

/-- A key that is not less than the ones before it goes to the end. -/
theorem multimapInsert_last {α : Type*} {m : List (List UInt8 × α)} {k : List UInt8} (v : α)
    (h : ∀ e ∈ m, ¬ k < e.1) : multimapInsert m k v = m ++ [(k, v)] := by
  have htake : m.takeWhile (fun e => !decide (k < e.1)) = m := by
    rw [List.takeWhile_eq_self_iff]
    intro e he
    simpa using h e he
  have hdrop : m.dropWhile (fun e => !decide (k < e.1)) = [] := by
    rw [List.dropWhile_eq_nil_iff]
    intro e he
    simpa using h e he
  rw [multimapInsert, htake, hdrop]

theorem sorted_multimapInsert {α : Type*} {m : List (List UInt8 × α)} (hm : Sorted m)
    (k : List UInt8) (v : α) : Sorted (multimapInsert m k v) := by
  have hsplit := List.takeWhile_append_dropWhile (p := fun e => !decide (k < e.1)) (l := m)
  have hparts : Sorted (m.takeWhile (fun e => !decide (k < e.1)) ++
      m.dropWhile (fun e => !decide (k < e.1))) := by
    rw [hsplit]
    exact hm
  obtain ⟨htake, hdrop, hcross⟩ := List.pairwise_append.mp hparts
  -- behind the first greater key there is no smaller one
  have hgreater : ∀ e ∈ m.dropWhile (fun e => !decide (k < e.1)), ¬ e.1 < k := by
    cases hd : m.dropWhile (fun e => !decide (k < e.1)) with
    | nil => simp
    | cons e₀ rest =>
        have hfirst : k < e₀.1 := by
          have := List.head?_dropWhile_not (fun e : List UInt8 × α => !decide (k < e.1)) m
          rw [hd] at this
          simpa using this
        rw [hd] at hdrop
        intro e he
        rcases List.mem_cons.mp he with rfl | he
        · exact List.lt_asymm hfirst
        · exact fun hlt => (List.pairwise_cons.mp hdrop).1 e he (List.lt_trans hlt hfirst)
  refine List.pairwise_append.mpr ⟨htake, List.pairwise_cons.mpr ⟨hgreater, hdrop⟩, ?_⟩
  · intro a ha b hb
    rcases List.mem_cons.mp hb with rfl | hb
    · simpa using List.mem_takeWhile_imp ha
    · exact hcross a ha b hb

/-- The names and the bytes of the values. -/
def entries (vars : Variables) : List (List UInt8 × List UInt8) :=
  vars.map (fun e => (e.1, e.2.bytes))

/-- What is true of the entries of a multimap that `addVar` filled. -/
structure Proper (L : List (List UInt8 × List UInt8)) : Prop where
  sorted : Sorted L
  names : ∀ e ∈ L, e.1 ≠ []
  upper : ∀ e ∈ L, upperCopy e.1 = e.1

theorem upperCopy_upperCopy (s : List UInt8) : upperCopy (upperCopy s) = upperCopy s := by
  have hbyte : ∀ c : UInt8, toupper (toupper c) = toupper c := by decide +kernel
  rw [upperCopy, upperCopy, List.map_map]
  exact List.map_congr_left (fun c _ => hbyte c)

theorem sorted_entries {vars : Variables} : Sorted (entries vars) ↔ Sorted vars := by
  rw [Sorted, entries, List.pairwise_map]
  rfl

theorem mem_addVar {vars : Variables} {k : List UInt8} {v : BChunks} {e : List UInt8 × BChunks}
    (h : e ∈ addVar vars k v) : e ∈ vars ∨ e = (upperCopy k, v) := by
  unfold addVar at h
  split at h
  · rw [multimapInsert, List.mem_append, List.mem_cons] at h
    rcases h with h | h | h
    · exact Or.inl ((List.takeWhile_prefix _).subset h)
    · exact Or.inr h
    · exact Or.inl ((List.dropWhile_suffix _).subset h)
  · exact Or.inl h

theorem proper_addVar {vars : Variables} (h : Proper (entries vars)) (k : List UInt8)
    (v : BChunks) :
    Proper (entries (addVar vars k v)) := by
  by_cases hk : k = []
  · rw [addVar, if_neg (not_not.mpr hk)]
    exact h
  refine ⟨?_, ?_, ?_⟩
  · rw [addVar, if_pos hk]
    exact sorted_entries.mpr (sorted_multimapInsert (sorted_entries.mp h.sorted) _ _)
  · intro e he
    obtain ⟨e', he', rfl⟩ := List.mem_map.mp he
    rcases mem_addVar he' with hin | rfl
    · exact h.names _ (List.mem_map_of_mem hin)
    · simpa [upperCopy] using hk
  · intro e he
    obtain ⟨e', he', rfl⟩ := List.mem_map.mp he
    rcases mem_addVar he' with hin | rfl
    · exact h.upper _ (List.mem_map_of_mem hin)
    · exact upperCopy_upperCopy k

/-- The entries of a multimap come back when they are added in their order. -/
theorem entries_addVar {L : List (List UInt8 × List UInt8)} (hL : Proper L) {vars : Variables}
    {k v : List UInt8} {c : BChunks} {items : List (List UInt8 × List UInt8)}
    (h : entries vars ++ (k, v) :: items = L) (hc : c.bytes = v) :
    entries (addVar vars k c) ++ items = L := by
  have hin : (k, v) ∈ L := by
    rw [← h]
    simp
  have hlast : ∀ e ∈ vars, ¬ upperCopy k < e.1 := by
    intro e he
    rw [show upperCopy k = k from hL.upper _ hin]
    have hsorted := hL.sorted
    rw [← h] at hsorted
    exact (List.pairwise_append.mp hsorted).2.2 (e.1, e.2.bytes) (List.mem_map_of_mem he) (k, v)
      (List.mem_cons_self ..)
  rw [addVar, if_pos (hL.names _ hin), multimapInsert_last c hlast, entries, List.map_append,
    ← entries, List.map_singleton, hc, show upperCopy k = k from hL.upper _ hin,
    List.append_assoc, List.singleton_append, h]

/-! ## The text -/

def valueText (v : List UInt8) : List UInt8 := if v = [] then [] else 61 :: encode v

/-- The text of some entries. -/
def text : List (List UInt8 × List UInt8) → List UInt8
  | [] => []
  | [(k, v)] => encode k ++ valueText v
  | (k, v) :: e :: items => encode k ++ (valueText v ++ 38 :: text (e :: items))

/-- What stands behind an entry. -/
def tailText (items : List (List UInt8 × List UInt8)) : List UInt8 :=
  if items = [] then [] else 38 :: text items

theorem text_cons (k v : List UInt8) (items : List (List UInt8 × List UInt8)) :
    text ((k, v) :: items) = encode k ++ (valueText v ++ tailText items) := by
  cases items with
  | nil => rw [text, tailText, if_pos rfl, List.append_nil]
  | cons e items => rw [text, tailText, if_neg (List.cons_ne_nil _ _)]

theorem length_le_length_encode (s : List UInt8) : s.length ≤ (encode s).length := by
  induction s with
  | nil => exact Nat.zero_le _
  | cons c s ih =>
      have hstep : encode (c :: s) = encodeByte c ++ encode s := List.flatMap_cons
      have hbyte : 1 ≤ (encodeByte c).length := by
        unfold encodeByte
        split <;> simp
      rw [hstep, List.length_append, List.length_cons]
      omega

/-- The encoder reads a container in pieces, which makes no difference. -/
theorem EncoderURL.transform_eq (ds : List (List UInt8))
    (hlen : ds.flatten.length ≤ 64 * 1024) : transform ds = some (encode ds.flatten) := by
  induction ds with
  | nil => rfl
  | cons d ds ih =>
      rw [List.flatten_cons, List.length_append] at hlen
      have happend : encode (d ++ ds.flatten) = encode d ++ encode ds.flatten :=
        List.flatMap_append
      rw [transform, writeTo, if_neg (by omega), ih (by omega), List.flatten_cons, happend]
      rfl

theorem BChunks.Counted.flatten_pieces {c : BChunks} (h : c.Counted) :
    c.pieces.flatten = c.bytes := by
  have hsize := h.size_eq
  unfold BChunks.pieces
  split
  · rename_i hzero
    rw [List.flatten_nil, List.length_eq_zero_iff.mp (hsize.symm.trans hzero)]
  · rw [flatten_copyChunks, hsize]
    exact List.take_length

/-- The limits on the encoded names and values, each with the delimiter behind it. -/
def Fits : List (List UInt8 × List UInt8) → Prop
  | [] => True
  | (k, v) :: items =>
    (encode k).length + (if v = [] ∧ items = [] then 0 else 1) ≤ 4096 ∧
      (encode v).length + (if items = [] then 0 else 1) ≤ 4096 ∧ Fits items

instance decidableFits : (L : List (List UInt8 × List UInt8)) → Decidable (Fits L)
  | [] => inferInstanceAs (Decidable True)
  | (k, v) :: items =>
    have := decidableFits items
    inferInstanceAs (Decidable ((encode k).length + (if v = [] ∧ items = [] then 0 else 1) ≤ 4096 ∧
      (encode v).length + (if items = [] then 0 else 1) ≤ 4096 ∧ Fits items))

/-- What `streamTo` writes. -/
theorem streamTo_eq {vars : Variables} (hvalues : ∀ e ∈ vars, e.2.Counted)
    (hnames : ∀ e ∈ vars, e.1 ≠ []) (hfits : Fits (entries vars)) (firstVar : Bool) :
    streamTo firstVar vars =
      some (if firstVar then text (entries vars) else tailText (entries vars)) := by
  induction vars generalizing firstVar with
  | nil => cases firstVar <;> rfl
  | cons e vars ih =>
      obtain ⟨k, v⟩ := e
      have hk : k ≠ [] := hnames _ (List.mem_cons_self ..)
      have hv : v.Counted := hvalues _ (List.mem_cons_self ..)
      obtain ⟨hname, hvalue, hrest⟩ : Fits ((k, v.bytes) :: entries vars) := hfits
      have hlen := length_le_length_encode k
      have hvlen := length_le_length_encode v.bytes
      obtain ⟨c, happ, hc, hbytes, -⟩ := BChunks.append_fits open_empty.counted
        (open_empty.stores hk (by omega)) (by norm_num)
        (by
          rw [BChunks.HasChunks, open_empty.chunksFor (List.length_pos_iff.mpr hk) (by omega)]
          decide) false
      have hbytes' : c.bytes = k := hbytes
      have hencode : EncoderURL.transform c.pieces = some (encode k) := by
        rw [EncoderURL.transform_eq _ (by rw [hc.flatten_pieces, hbytes']; omega),
          hc.flatten_pieces, hbytes']
      have hencodeValue : (if v.size ≠ 0 then (EncoderURL.transform v.pieces).map (61 :: ·)
          else some []) = some (valueText v.bytes) := by
        have hzero : v.size = 0 ↔ v.bytes = [] := by
          rw [hv.size_eq, List.length_eq_zero_iff]
        unfold valueText
        by_cases hempty : v.bytes = []
        · rw [if_neg (not_not.mpr (hzero.mpr hempty)), if_pos hempty]
        · rw [if_pos (fun hz => hempty (hzero.mp hz)), if_neg hempty,
            EncoderURL.transform_eq _ (by rw [hv.flatten_pieces]; omega), hv.flatten_pieces]
          rfl
      have hrec := ih (fun e he => hvalues e (List.mem_cons_of_mem _ he))
        (fun e he => hnames e (List.mem_cons_of_mem _ he)) hrest false
      have hentries : entries ((k, v) :: vars) = (k, v.bytes) :: entries vars := rfl
      have happ' : ({} : BChunks).append false k = some (c, some k.length) := happ
      simp only [streamTo, happ', hencode, hencodeValue, hrec, hentries]
      cases firstVar with
      | true => simp [text_cons]
      | false => simp [text_cons, tailText]

namespace URLVars

open URLVarContent

/-! ## Where in a text the parser is -/

/-- Behind a name comes a value or the next name; the entries that are not yet in the multimap
are those of the phase. -/
inductive Phase where
  | name (items : List (List UInt8 × List UInt8))
  | content (k v : List UInt8) (items : List (List UInt8 × List UInt8))

namespace Phase

def items : Phase → List (List UInt8 × List UInt8)
  | name items => items
  | content k v items => (k, v) :: items

/-- The name or value that the sub-parser reads. -/
def current : Phase → List UInt8
  | name [] => []
  | name ((k, _) :: _) => k
  | content _ v _ => v

/-- The encoded name or value that the sub-parser collects. -/
def piece (ph : Phase) : List UInt8 := encode ph.current

/-- The phase behind an entry. -/
def behind (items : List (List UInt8 × List UInt8)) : Option (UInt8 × Phase) :=
  if items = [] then none else some (38, name items)

/-- The delimiter behind the piece and the phase that follows it. -/
def next : Phase → Option (UInt8 × Phase)
  | name [] => none
  | name ((k, v) :: items) => if v = [] then behind items else some (61, content k v items)
  | content _ _ items => behind items

/-- The text from the start of the piece on. -/
def text : Phase → List UInt8
  | name items => Mantids.text items
  | content _ v items => encode v ++ tailText items

def delimiters : Phase → List (List UInt8)
  | name _ => [[61], [38]]
  | content .. => [[38]]

def stat : Phase → URLVarStat
  | name _ => .waitingName
  | content .. => .waitingContent

/-- The piece with its delimiter is within the limits, and so are those behind it. -/
def Fits : Phase → Prop
  | name items => Mantids.Fits items
  | content _ v items =>
    v ≠ [] ∧ (encode v).length + (if items = [] then 0 else 1) ≤ 4096 ∧ Mantids.Fits items

/-- The name that was read before the value. -/
def KeepsName (currentVarName : List UInt8) : Phase → Prop
  | name _ => True
  | content k _ _ => currentVarName = k

def settings (ph : Phase) : ParseSettings where
  parseMode := .multiDelimiter
  parseMultiDelimiter := ph.delimiters
  parseDataTargetSize := 4096

theorem behind_eq_none {items : List (List UInt8 × List UInt8)} (h : behind items = none) :
    items = [] := by
  by_contra hne
  rw [behind, if_neg hne] at h
  cases h

theorem behind_eq_some {items : List (List UInt8 × List UInt8)} {d : UInt8} {ph : Phase}
    (h : behind items = some (d, ph)) : items ≠ [] ∧ d = 38 ∧ ph = name items := by
  unfold behind at h
  split at h
  · cases h
  · rename_i hne
    cases h
    exact ⟨hne, rfl, rfl⟩

theorem delimiter_of_next {ph ph' : Phase} {d : UInt8} (h : ph.next = some (d, ph')) :
    d = 61 ∨ d = 38 := by
  match ph with
  | name [] => cases h
  | name ((k, v) :: items) =>
      by_cases hv : v = []
      · rw [next, if_pos hv] at h
        exact Or.inr (behind_eq_some h).2.1
      · rw [next, if_neg hv] at h
        cases h
        exact Or.inl rfl
  | content k v items => exact Or.inr (behind_eq_some h).2.1

theorem text_of_next_none {ph : Phase} (h : ph.next = none) : ph.text = ph.piece := by
  match ph with
  | name [] => rfl
  | name ((k, v) :: items) =>
      by_cases hv : v = []
      · rw [next, if_pos hv] at h
        rw [text, text_cons, behind_eq_none h, hv]
        exact List.append_nil _
      · rw [next, if_neg hv] at h
        cases h
  | content k v items =>
      rw [text, tailText, if_pos (behind_eq_none h), List.append_nil]
      rfl

theorem text_of_next {ph ph' : Phase} {d : UInt8} (h : ph.next = some (d, ph')) :
    ph.text = ph.piece ++ d :: ph'.text := by
  have hbehind : ∀ {items}, behind items = some (d, ph') → tailText items = d :: ph'.text := by
    intro items hi
    obtain ⟨hne, rfl, rfl⟩ := behind_eq_some hi
    rw [tailText, if_neg hne]
    rfl
  match ph with
  | name [] => cases h
  | name ((k, v) :: items) =>
      by_cases hv : v = []
      · rw [next, if_pos hv] at h
        rw [text, text_cons, hbehind h, hv]
        rfl
      · rw [next, if_neg hv] at h
        cases h
        rw [text, text_cons, valueText, if_neg hv]
        rfl
  | content k v items =>
      rw [text, hbehind h]
      rfl

theorem length_piece_le {ph : Phase} (h : ph.Fits) :
    ph.piece.length + (if ph.next = none then 0 else 1) ≤ 4096 := by
  match ph with
  | name [] => simp [piece, current, encode, next]
  | name ((k, v) :: items) =>
      have hname := h.1
      by_cases hv : v = []
      · by_cases hi : items = []
        · simpa [piece, current, next, behind, hv, hi] using hname
        · simpa [piece, current, next, behind, hv, hi] using hname
      · simpa [piece, current, next, hv] using hname
  | content k v items =>
      have hvalue := h.2.1
      by_cases hi : items = []
      · simpa [piece, current, next, behind, hi] using hvalue
      · simpa [piece, current, next, behind, hi] using hvalue

end Phase

/-- The parser is in a phase of the text of the entries `L`, and its buffer with the stream make
up the text of the phase. -/
structure Expects (L : List (List UInt8 × List UInt8)) (s : URLVars) (ph : Phase)
    (stream : List UInt8) : Prop where
  holds : SubParser.Holds ph.settings s.urlVarParser
  derived : s.urlVarParser.derived = {}
  stat : s.currentStat = ph.stat
  varName : ph.KeepsName s.currentVarName
  maxVarNameSize : s.maxVarNameSize = 4096
  maxVarContentSize : s.maxVarContentSize = 4096
  inside : s.urlVarParser.unparsedBuffer.bytes.length ≤ ph.piece.length
  text : s.urlVarParser.unparsedBuffer.bytes ++ stream = ph.text
  vars : entries s.vars ++ ph.items = L
  fits : ph.Fits

/-! ## One round -/

section

variable (heap : ℕ → ℕ → UInt8) {s : URLVars} {w : List UInt8}

/-- The sub-parser asks for more data. -/
theorem parseRound_more {q : SubParser URLVarContent}
    (h : subParserWrite heap (s.urlVarParser.setParseStatus .getMoreData) w = (q, .bytes w.length))
    (hthrown : q.derived.thrown = false) (hstatus : q.parseStatus = .getMoreData) :
    (urlVarsParser heap).parseRound s w = ({ s with urlVarParser := q }, .answer w.length) := by
  simp only [ParserClass.parseRound, urlVarsParser, h, hthrown, hstatus, if_true,
    Bool.false_eq_true, if_false]

/-- The sub-parser has read a piece. -/
theorem parseRound_next {q : SubParser URLVarContent} {n : ℕ}
    (h : subParserWrite heap (s.urlVarParser.setParseStatus .getMoreData) w = (q, .bytes n))
    (hthrown : q.derived.thrown = false) (hstatus : q.parseStatus = .gotoNextSubparser)
    (hnext : (changeToNextParser { s with urlVarParser := q }).2 = true) :
    (urlVarsParser heap).parseRound s w =
      ((changeToNextParser { s with urlVarParser := q }).1,
        if n = w.length then .answer n else .left n) := by
  rcases hc : changeToNextParser { s with urlVarParser := q } with ⟨s', b⟩
  rw [hc] at hnext
  simp only [ParserClass.parseRound, urlVarsParser, h, hthrown, hstatus, if_true,
    Bool.false_eq_true, if_false, hc, show b = true from hnext, Bool.true_eq_false, false_or]
  split <;> rfl

theorem ne_of_mem_encodeByte {c : UInt8} : ∀ x ∈ encodeByte c, x ≠ 61 ∧ x ≠ 38 := by
  have hdigit : ∀ n < 16, hexDigit n ≠ 61 ∧ hexDigit n ≠ 38 := by decide
  intro x hx
  unfold encodeByte at hx
  split at hx
  · -- a letter or a digit stands for itself
    rename_i halnum
    obtain rfl := List.mem_singleton.mp hx
    constructor <;> rintro rfl <;> exact absurd halnum (by decide)
  · have hlt := c.toNat_lt
    simp only [List.mem_cons, List.not_mem_nil, or_false] at hx
    rcases hx with rfl | rfl | rfl
    · decide
    · exact hdigit _ (by omega)
    · exact hdigit _ (by omega)

/-- The bytes of an encoded text are none of the delimiters. -/
theorem ne_of_mem_encode {t : List UInt8} : ∀ x ∈ encode t, x ≠ 61 ∧ x ≠ 38 := by
  intro x hx
  obtain ⟨c, -, hc⟩ := List.mem_flatMap.mp hx
  exact ne_of_mem_encodeByte x hc

theorem ne_of_mem_piece {ph : Phase} : ∀ x ∈ ph.piece, x ≠ 61 ∧ x ≠ 38 := ne_of_mem_encode

/-- No delimiter is found in a part of the piece. -/
theorem picked_eq_none {ph : Phase} {t : List UInt8} (h : ∀ x ∈ t, x ≠ 61 ∧ x ≠ 38) :
    SubParser.picked ph.delimiters t = none := by
  have h61 := first_eq_none_of_not_mem (fun hmem => (h 61 hmem).1 rfl) []
  have h38 := first_eq_none_of_not_mem (fun hmem => (h 38 hmem).2 rfl) []
  cases ph with
  | name items => simp [SubParser.picked, Phase.delimiters, h61, h38]
  | content k v items => simp [SubParser.picked, Phase.delimiters, h38]

/-- The delimiter behind the piece is found, unless a `=` behind the `&` of a name is. -/
theorem picked_next {ph ph' : Phase} {d : UInt8} (h : ph.next = some (d, ph')) {rest : List UInt8}
    (hclean : ph.stat = .waitingName → d = 38 → 61 ∉ rest) :
    SubParser.picked ph.delimiters (ph.piece ++ d :: rest) = some (ph.piece.length, [d]) := by
  have hpiece := @ne_of_mem_piece ph
  have hd := Phase.delimiter_of_next h
  have hfirst : d ∉ ph.piece → first [d] (ph.piece ++ d :: rest) = some ph.piece.length :=
    fun hmem => first_append_cons hmem rest
  have hnot : d ∉ ph.piece := by
    intro hmem
    rcases hd with rfl | rfl
    · exact (hpiece _ hmem).1 rfl
    · exact (hpiece _ hmem).2 rfl
  cases ph with
  | name items =>
      rcases hd with rfl | rfl
      · simp [SubParser.picked, Phase.delimiters, hfirst hnot]
      · have hnone : first [61] ((Phase.name items).piece ++ 38 :: rest) = none := by
          refine first_eq_none_of_not_mem ?_ []
          rw [List.mem_append, List.mem_cons]
          rintro (hmem | hmem | hmem)
          · exact (hpiece _ hmem).1 rfl
          · exact absurd hmem (by decide)
          · exact hclean rfl rfl hmem
        simp [SubParser.picked, Phase.delimiters, hnone, hfirst hnot]
  | content k v items =>
      obtain rfl : d = 38 := (Phase.behind_eq_some h).2.1
      simp [SubParser.picked, Phase.delimiters, hfirst hnot]

/-- `parse()` decodes an encoded piece into a fresh container. -/
theorem parse_piece {c : BChunks} {n : ℕ} {t : List UInt8} (hbytes : c.bytes.take n = encode t)
    (ht : t ≠ []) (hlen : (encode t).length ≤ 4096) (st : ParseSettings) (d : List UInt8) :
    ∃ pData, pData.bytes = t ∧ parse c {} st ⟨c.bytes.take n, d⟩ =
      ({ pData := pData }, st, .gotoNextSubparser) := by
  have hflat : (BChunks.copyChunks c.chunksVector (c.bytes.take n).length).flatten = encode t := by
    rw [BChunks.flatten_copyChunks, ← hbytes, List.length_take, ← List.take_take]
    congr 1
    exact List.take_length
  obtain ⟨pData, htransform, hopen, hpData⟩ := DecoderURL.transform_encode hflat (by omega)
  refine ⟨pData, hpData, ?_⟩
  have hne : c.bytes.take n ≠ [] := by
    rw [hbytes]
    refine List.ne_nil_of_length_pos ?_
    have := length_le_length_encode t
    have := List.length_pos_iff.mpr ht
    omega
  have hclear : ({ ({} : URLVarContent).pData with
      container := ({} : URLVarContent).pData.container.clear } : StreamableChunks) = {} := rfl
  simp only [parse, if_neg hne, hclear, htransform, hopen.succeed, Bool.true_eq_false, if_false]

theorem piece_prefix_text (ph : Phase) : ph.piece <+: ph.text := by
  cases hnext : ph.next with
  | none =>
      rw [Phase.text_of_next_none hnext]
  | some r =>
      obtain ⟨d, ph'⟩ := r
      rw [Phase.text_of_next hnext]
      exact List.prefix_append _ _

/-- The data of a write is added to the buffer as far as the limit on its size goes. -/
theorem Expects.stored {L : List (List UInt8 × List UInt8)} {ph : Phase} {stream : List UInt8}
    (h : Expects L s ph stream) (hw : w ≠ [])
    (hleft : s.urlVarParser.unparsedBuffer.bytes.length < 4096) :
    ∃ c, (s.urlVarParser.setParseStatus .getMoreData).appendToUnparsedBuffer w =
        ({ s.urlVarParser.setParseStatus .getMoreData with unparsedBuffer := c },
          some (w.take (4096 - s.urlVarParser.unparsedBuffer.bytes.length)).length) ∧
      SubParser.Holds ph.settings
        { s.urlVarParser.setParseStatus .getMoreData with unparsedBuffer := c } ∧
      c.bytes = s.urlVarParser.unparsedBuffer.bytes ++
        w.take (4096 - s.urlVarParser.unparsedBuffer.bytes.length) ∧
      c.findAny (s.urlVarParser.setParseStatus .getMoreData).parseMultiDelimiter true 0 0 =
        SubParser.picked ph.delimiters c.bytes := by
  have hq := h.holds.setParseStatus .getMoreData
  have hsize : (s.urlVarParser.setParseStatus .getMoreData).unparsedBuffer.getSizeLeft =
      4096 - s.urlVarParser.unparsedBuffer.bytes.length := hq.getSizeLeft
  obtain ⟨c, happ, hc, hbytes, -⟩ := SubParser.appendToUnparsedBuffer_stored hq (by
    show 4096 < 2 ^ 64
    norm_num) hw (by omega) (hq.not_chunkLimit (by show 4096 ≤ 128 * 1024; norm_num) w)
  rw [hsize] at happ hbytes
  refine ⟨c, happ, hc, hbytes, ?_⟩
  have hdelims : (s.urlVarParser.setParseStatus .getMoreData).parseMultiDelimiter = ph.delimiters :=
    hq.parseMultiDelimiter rfl
  rw [hdelims]
  refine BChunks.findAny_eq hc.size_eq hc.counted.fits ?_
  cases ph with
  | name items => simp [Phase.delimiters]
  | content k v items => simp [Phase.delimiters]

/-- A round whose data lies within the piece. -/
theorem Expects.round_more {L : List (List UInt8 × List UInt8)} {ph : Phase} {later : List UInt8}
    (h : Expects L s ph (w ++ later)) (hw : w ≠ [])
    (hin : s.urlVarParser.unparsedBuffer.bytes.length + w.length ≤ ph.piece.length) :
    ∃ s', (urlVarsParser heap).parseRound s w = (s', .answer w.length) ∧ Expects L s' ph later ∧
      s'.urlVarParser.unparsedBuffer.bytes = s.urlVarParser.unparsedBuffer.bytes ++ w := by
  have hpos := List.length_pos_iff.mpr hw
  have hlimit := Phase.length_piece_le h.fits
  obtain ⟨c, happ, hc, hbytes, hfind⟩ := h.stored hw (by omega)
  rw [List.take_of_length_le (show w.length ≤ _ by omega)] at happ hbytes
  have hpre : c.bytes <+: ph.piece := by
    refine List.prefix_of_prefix_length_le ?_ (piece_prefix_text ph) ?_
    · rw [hbytes, ← h.text, ← List.append_assoc]
      exact List.prefix_append _ _
    · rw [hbytes, List.length_append]
      exact hin
  rw [picked_eq_none (fun x hx => ne_of_mem_piece x (hpre.subset hx))] at hfind
  have hq := h.holds.setParseStatus .getMoreData
  have hwrite : subParserWrite heap (s.urlVarParser.setParseStatus .getMoreData) w = _ :=
    SubParser.writeIntoParser_multiDelimiter_none heap hq.parseMode hw hq.streamEnded happ hfind
  refine ⟨_, parseRound_more heap hwrite ?_ rfl, ⟨?_, h.derived, h.stat, h.varName,
    h.maxVarNameSize, h.maxVarContentSize, hpre.length_le, ?_, h.vars, h.fits⟩, hbytes⟩
  · exact congrArg URLVarContent.thrown h.derived
  · exact ⟨hc.settings, hc.streamEnded, hc.limits, hc.counted, hc.chunks, hc.size_le⟩
  · have htext : c.bytes ++ later = ph.text := by
      rw [hbytes, List.append_assoc]
      exact h.text
    exact htext

/-- A write that ends the piece brings the rest of it and the delimiter first. -/
theorem Expects.split {L : List (List UInt8 × List UInt8)} {ph ph' : Phase} {d : UInt8}
    {later : List UInt8} (h : Expects L s ph (w ++ later)) (hnext : ph.next = some (d, ph'))
    (hend : ph.piece.length < s.urlVarParser.unparsedBuffer.bytes.length + w.length) :
    s.urlVarParser.unparsedBuffer.bytes ++ w = ph.piece ++ d ::
      w.drop (ph.piece.length + 1 - s.urlVarParser.unparsedBuffer.bytes.length) := by
  have hinside := h.inside
  have htake := congrArg (List.take (ph.piece.length + 1)) h.text
  rw [Phase.text_of_next hnext, ← List.append_assoc,
    List.take_append_of_le_length (by rw [List.length_append]; omega), List.take_append,
    List.take_of_length_le (by omega)] at htake
  have hright : (ph.piece ++ d :: ph'.text).take (ph.piece.length + 1) = ph.piece ++ [d] := by
    rw [List.take_append, List.take_of_length_le (by omega), Nat.add_sub_cancel_left]
    rfl
  rw [hright] at htake
  calc s.urlVarParser.unparsedBuffer.bytes ++ w
      = s.urlVarParser.unparsedBuffer.bytes ++
          (w.take (ph.piece.length + 1 - s.urlVarParser.unparsedBuffer.bytes.length) ++
            w.drop (ph.piece.length + 1 - s.urlVarParser.unparsedBuffer.bytes.length)) := by
        rw [List.take_append_drop]
    _ = _ := by
        rw [← List.append_assoc, htake, List.append_assoc]
        rfl

/-- What the sub-parser makes of a write that ends the piece. -/
theorem Expects.read_piece {L : List (List UInt8 × List UInt8)} {ph ph' : Phase} {d : UInt8}
    {later : List UInt8} (h : Expects L s ph (w ++ later)) (hcurrent : ph.current ≠ [])
    (hnext : ph.next = some (d, ph'))
    (hend : ph.piece.length < s.urlVarParser.unparsedBuffer.bytes.length + w.length)
    (hclean : ph.stat = .waitingName → d = 38 →
      61 ∉ (w.drop (ph.piece.length + 1 - s.urlVarParser.unparsedBuffer.bytes.length)).take
        (4096 - (ph.piece.length + 1))) :
    ∃ pData q, subParserWrite heap (s.urlVarParser.setParseStatus .getMoreData) w =
        (q, .bytes (ph.piece.length + 1 - s.urlVarParser.unparsedBuffer.bytes.length)) ∧
      pData.bytes = ph.current ∧ q.derived = { pData := pData } ∧
      q.parseStatus = .gotoNextSubparser ∧ q.delimiterFound = [d] ∧
      q.unparsedBuffer = { maxSize := 4096 } ∧ q.parseMode = .multiDelimiter ∧
      q.parseMultiDelimiter = ph.delimiters ∧ q.streamEnded = false := by
  have hlimit := Phase.length_piece_le h.fits
  rw [hnext, if_neg (by simp)] at hlimit
  have hinside := h.inside
  have hw : w ≠ [] := by
    rintro rfl
    simp only [List.length_nil] at hend
    omega
  obtain ⟨c, happ, hc, hbytes, hfind⟩ := h.stored hw (by omega)
  have hq := h.holds.setParseStatus .getMoreData
  -- the window is the piece, its delimiter and some bytes behind it
  have hwindow : c.bytes = ph.piece ++ d ::
      (w.drop (ph.piece.length + 1 - s.urlVarParser.unparsedBuffer.bytes.length)).take
        (4096 - (ph.piece.length + 1)) := by
    have hsplit := h.split hnext hend
    have hall : c.bytes = (s.urlVarParser.unparsedBuffer.bytes ++ w).take 4096 := by
      rw [hbytes, List.take_append, List.take_of_length_le (show _ ≤ 4096 by omega)]
    rw [hall, hsplit, List.take_append, List.take_of_length_le (show _ ≤ 4096 by omega)]
    congr 1
    rw [show 4096 - ph.piece.length = (4096 - (ph.piece.length + 1)) + 1 by omega,
      List.take_succ_cons]
  rw [hwindow, picked_next hnext hclean] at hfind
  have htake : c.bytes.take ph.piece.length = encode ph.current := by
    rw [hwindow, List.take_left]
    rfl
  have hwrite : subParserWrite heap (s.urlVarParser.setParseStatus .getMoreData) w = _ :=
    SubParser.writeIntoParser_multiDelimiter_found heap hq.parseMode hw happ hfind
  rw [happ] at hwrite
  obtain ⟨pData, hpData, hparse⟩ := parse_piece htake hcurrent
    (show (encode ph.current).length ≤ 4096 from (Nat.le_succ _).trans hlimit)
    ({ s.urlVarParser.setParseStatus .getMoreData with
      unparsedBuffer := c, delimiterFound := [d] } : SubParser URLVarContent).settings [d]
  have hderived : ({ s.urlVarParser.setParseStatus .getMoreData with
      unparsedBuffer := c, delimiterFound := [d] } : SubParser URLVarContent).derived = {} :=
    h.derived
  have hcall := @SubParser.callParse_of_settings URLVarContent
    { s.urlVarParser.setParseStatus .getMoreData with unparsedBuffer := c, delimiterFound := [d] }
    (parse c) (c.bytes.take ph.piece.length) (by rw [hderived, hparse])
  rw [hderived, hparse] at hcall
  have hcount : subSizeT ((ph.piece.length + [d].length) % 2 ^ 64)
      (s.urlVarParser.setParseStatus .getMoreData).unparsedBuffer.size =
      ph.piece.length + 1 - s.urlVarParser.unparsedBuffer.bytes.length := by
    rw [hq.size_eq, List.length_singleton, Nat.mod_eq_of_lt (by omega)]
    exact subSizeT_of_le (by rw [SubParser.unparsedBuffer_setParseStatus]; omega) (by omega)
  rw [hcount, hcall] at hwrite
  refine ⟨pData, _, hwrite, hpData, rfl, rfl, rfl, ?_, hq.parseMode, ?_, hq.streamEnded⟩
  · exact hc.limits
  · exact hq.parseMultiDelimiter rfl

/-- A round that ends the piece. -/
theorem Expects.round_next {L : List (List UInt8 × List UInt8)} (hL : Proper L) {ph ph' : Phase}
    {d : UInt8} {later : List UInt8} (h : Expects L s ph (w ++ later))
    (hnext : ph.next = some (d, ph'))
    (hend : ph.piece.length < s.urlVarParser.unparsedBuffer.bytes.length + w.length)
    (hclean : ph.stat = .waitingName → d = 38 →
      61 ∉ (w.drop (ph.piece.length + 1 - s.urlVarParser.unparsedBuffer.bytes.length)).take
        (4096 - (ph.piece.length + 1))) :
    ∃ s', (urlVarsParser heap).parseRound s w = (s',
        if ph.piece.length + 1 - s.urlVarParser.unparsedBuffer.bytes.length = w.length then
          .answer (ph.piece.length + 1 - s.urlVarParser.unparsedBuffer.bytes.length)
        else .left (ph.piece.length + 1 - s.urlVarParser.unparsedBuffer.bytes.length)) ∧
      Expects L s' ph'
        (w.drop (ph.piece.length + 1 - s.urlVarParser.unparsedBuffer.bytes.length) ++ later) ∧
      s'.urlVarParser.unparsedBuffer.bytes = [] := by
  have hcurrent : ph.current ≠ [] := by
    match ph with
    | .name [] => cases hnext
    | .name ((k, v) :: items) =>
        exact hL.names (k, v) (by rw [← h.vars]; simp [Phase.items])
    | .content k v items => exact h.fits.1
  obtain ⟨pData, q, hwrite, hpData, hderived, hstatus, hfound, hbuffer, hmode, hdelims, hended⟩ :=
    h.read_piece heap hcurrent hnext hend hclean
  have hthrown : q.derived.thrown = false := by rw [hderived]
  have hinside := h.inside
  have htext : w.drop (ph.piece.length + 1 - s.urlVarParser.unparsedBuffer.bytes.length) ++ later =
      ph'.text := by
    have hright : (ph.piece ++ d :: ph'.text).drop (ph.piece.length + 1) = ph'.text := by
      rw [← List.drop_drop, List.drop_left]
      rfl
    have hdrop := congrArg (List.drop (ph.piece.length + 1)) h.text
    rw [Phase.text_of_next hnext, hright, List.drop_append, List.drop_eq_nil_of_le (by omega),
      List.nil_append, List.drop_append_of_le_length (by omega)] at hdrop
    exact hdrop
  -- whatever comes next starts with an empty buffer and no data
  have hempty : q.unparsedBuffer.bytes = [] := by
    rw [hbuffer]
    rfl
  have hfits : ∀ n, q.unparsedBuffer.bytes.length ≤ n := by
    intro n
    rw [hempty]
    exact Nat.zero_le n
  have hrest : q.unparsedBuffer.bytes ++
      (w.drop (ph.piece.length + 1 - s.urlVarParser.unparsedBuffer.bytes.length) ++ later) =
        ph'.text := by
    rw [hempty, List.nil_append]
    exact htext
  have hdata : ({ q.derived with pData := {} } : URLVarContent) = {} := by rw [hderived]
  match ph with
  | .name [] => cases hnext
  | .name ((k, v) :: items) =>
      have hname : q.derived.pData.bytes = k := by rw [hderived]; exact hpData
      by_cases hv : v = []
      · -- a name without a value
        subst hv
        rw [Phase.next, if_pos rfl] at hnext
        obtain ⟨hne, rfl, rfl⟩ := Phase.behind_eq_some hnext
        have hchange := changeToNextParser_lone h.stat (Or.inl hfound)
        rw [hname] at hchange
        refine ⟨_, parseRound_next heap hwrite hthrown hstatus (by rw [hchange]), ?_, ?_⟩
        · rw [hchange]
          refine ⟨SubParser.holds_of_cleared ⟨hmode, ?_, fun hm => absurd rfl hm, fun _ => hdelims⟩
            hended hbuffer, ?_, h.stat, trivial, h.maxVarNameSize, h.maxVarContentSize, ?_, ?_,
            entries_addVar hL h.vars rfl, h.fits.2.2⟩
          · show q.unparsedBuffer.maxSize = 4096
            rw [hbuffer]
          · exact hdata
          · exact hfits _
          · exact hrest
        · rw [hchange]
          exact hempty
      · -- a name with a value
        rw [Phase.next, if_neg hv] at hnext
        cases hnext
        have hchange := changeToNextParser_name h.stat (by rw [hfound]; decide) hended
        rw [hname] at hchange
        refine ⟨_, parseRound_next heap hwrite hthrown hstatus (by rw [hchange]), ?_, ?_⟩
        · rw [hchange]
          refine ⟨SubParser.holds_of_cleared ⟨hmode, h.maxVarContentSize, fun hm => absurd rfl hm,
            fun _ => rfl⟩ hended ?_, ?_, rfl, rfl, h.maxVarNameSize, h.maxVarContentSize, ?_, ?_,
            h.vars, hv, h.fits.2.1, h.fits.2.2⟩
          · show { q.unparsedBuffer with maxSize := s.maxVarContentSize } = _
            rw [hbuffer, h.maxVarContentSize]
            rfl
          · exact hdata
          · exact hfits _
          · exact hrest
        · rw [hchange]
          exact hempty
  | .content k v items =>
      obtain ⟨hne, rfl, rfl⟩ := Phase.behind_eq_some hnext
      have hchange := @changeToNextParser_content s q h.stat
      refine ⟨_, parseRound_next heap hwrite hthrown hstatus (by rw [hchange]), ?_, ?_⟩
      · rw [hchange]
        refine ⟨SubParser.holds_of_cleared ⟨hmode, h.maxVarNameSize, fun hm => absurd rfl hm,
          fun _ => rfl⟩ hended ?_, ?_, rfl, trivial, h.maxVarNameSize, h.maxVarContentSize, ?_, ?_,
          ?_, h.fits.2.2⟩
        · show { q.unparsedBuffer with maxSize := s.maxVarNameSize } = _
          rw [hbuffer, h.maxVarNameSize]
          rfl
        · exact hdata
        · exact hfits _
        · exact hrest
        · rw [show s.currentVarName = k from h.varName, hderived]
          exact entries_addVar hL h.vars hpData
      · rw [hchange]
        exact hempty

end

/-! ## Cuts -/

/-- Where a scan of the text is: so many bytes into a name, or in a value. -/
def advance : Option ℕ → UInt8 → Option ℕ
  | none, x => if x = 38 then some 0 else none
  | some n, x => if x = 61 then none else if x = 38 then some 0 else some (n + 1)

def scan (pos : Option ℕ) (w : List UInt8) : Option ℕ := w.foldl advance pos

/-- No `&` behind a name is followed by a `=` in the same write, as far as the buffer for the
name reaches. -/
def UnmergedIn : Option ℕ → List UInt8 → Prop
  | _, [] => True
  | pos, x :: w =>
    pos.elim True (fun n => x = 38 → 61 ∉ w.take (4096 - (n + 1))) ∧ UnmergedIn (advance pos x) w

/-- The same for every write of a list. -/
def Unmerged : Option ℕ → List (List UInt8) → Prop
  | _, [] => True
  | pos, w :: ws => UnmergedIn pos w ∧ Unmerged (scan pos w) ws

instance decidableUnmergedIn : (pos : Option ℕ) → (w : List UInt8) → Decidable (UnmergedIn pos w)
  | _, [] => inferInstanceAs (Decidable True)
  | none, x :: w =>
    have := decidableUnmergedIn (advance none x) w
    inferInstanceAs (Decidable (True ∧ UnmergedIn (advance none x) w))
  | some n, x :: w =>
    have := decidableUnmergedIn (advance (some n) x) w
    inferInstanceAs (Decidable ((x = 38 → 61 ∉ w.take (4096 - (n + 1))) ∧
      UnmergedIn (advance (some n) x) w))

instance decidableUnmerged : (pos : Option ℕ) → (ws : List (List UInt8)) →
    Decidable (Unmerged pos ws)
  | _, [] => inferInstanceAs (Decidable True)
  | pos, w :: ws =>
    have := decidableUnmerged (scan pos w) ws
    inferInstanceAs (Decidable (UnmergedIn pos w ∧ Unmerged (scan pos w) ws))

/-- The rounds that a write takes: one for every delimiter in it, and one for what is behind the
last delimiter. -/
def rounds : List UInt8 → ℕ
  | [] => 0
  | [_] => 1
  | x :: y :: w => (if x = 61 ∨ x = 38 then 1 else 0) + rounds (y :: w)

theorem rounds_pos {w : List UInt8} (hw : w ≠ []) : 1 ≤ rounds w := by
  induction w with
  | nil => exact absurd rfl hw
  | cons x w ih =>
      cases w with
      | nil => exact le_refl _
      | cons y w =>
          have := ih (List.cons_ne_nil _ _)
          rw [rounds]
          omega

theorem rounds_plain {w : List UInt8} (hw : w ≠ []) (h : ∀ x ∈ w, x ≠ 61 ∧ x ≠ 38) :
    rounds w = 1 := by
  induction w with
  | nil => exact absurd rfl hw
  | cons x w ih =>
      cases w with
      | nil => rfl
      | cons y w =>
          have hx := h x (List.mem_cons_self ..)
          rw [rounds, if_neg (by simp [hx]), ih (List.cons_ne_nil _ _)
            (fun z hz => h z (List.mem_cons_of_mem _ hz))]

theorem rounds_delimiter {a rest : List UInt8} {d : UInt8} (ha : ∀ x ∈ a, x ≠ 61 ∧ x ≠ 38)
    (hd : d = 61 ∨ d = 38) : rounds (a ++ d :: rest) = 1 + rounds rest := by
  induction a with
  | nil =>
      cases rest with
      | nil => rfl
      | cons y rest => rw [List.nil_append, rounds, if_pos hd]
  | cons x a ih =>
      have hx := ha x (List.mem_cons_self ..)
      have hrec := ih (fun z hz => ha z (List.mem_cons_of_mem _ hz))
      cases hrest : a ++ d :: rest with
      | nil => simp at hrest
      | cons y t =>
          rw [List.cons_append, hrest, rounds, if_neg (by simp [hx]), Nat.zero_add, ← hrest]
          exact hrec

theorem scan_append_cons (pos : Option ℕ) (a b : List UInt8) (x : UInt8) :
    scan pos (a ++ x :: b) = scan (advance (scan pos a) x) b := by
  rw [scan, List.foldl_append]
  rfl

/-- Bytes that are no delimiters. -/
theorem scan_plain {a : List UInt8} (ha : ∀ x ∈ a, x ≠ 61 ∧ x ≠ 38) (pos : Option ℕ) :
    scan pos a = pos.map (· + a.length) := by
  induction a generalizing pos with
  | nil =>
      cases pos with
      | none => rfl
      | some n => rfl
  | cons x a ih =>
      have hx := ha x (List.mem_cons_self ..)
      have hrec := ih (fun z hz => ha z (List.mem_cons_of_mem _ hz)) (advance pos x)
      have hstep : scan pos (x :: a) = scan (advance pos x) a := rfl
      rw [hstep, hrec]
      cases pos with
      | none => simp [advance, hx]
      | some n =>
          simp only [advance, hx, if_false, Option.map_some, List.length_cons]
          congr 1
          omega

theorem unmergedIn_append {a b : List UInt8} (ha : ∀ x ∈ a, x ≠ 61 ∧ x ≠ 38) {pos : Option ℕ}
    (h : UnmergedIn pos (a ++ b)) : UnmergedIn (pos.map (· + a.length)) b := by
  induction a generalizing pos with
  | nil =>
      cases pos with
      | none => exact h
      | some n => exact h
  | cons x a ih =>
      have hx := ha x (List.mem_cons_self ..)
      have hrec := ih (fun z hz => ha z (List.mem_cons_of_mem _ hz)) h.2
      cases pos with
      | none => simpa [advance, hx] using hrec
      | some n =>
          simp only [advance, hx, if_false, Option.map_some] at hrec
          rw [Option.map_some, List.length_cons, show n + (a.length + 1) =
            n + 1 + a.length by omega]
          exact hrec

/-- Where the scan is when `n` bytes of the piece of a phase were read. -/
def Phase.pos (ph : Phase) (n : ℕ) : Option ℕ := if ph.stat = .waitingName then some n else none

theorem Phase.pos_map (ph : Phase) (n m : ℕ) : (ph.pos n).map (· + m) = ph.pos (n + m) := by
  unfold Phase.pos
  split <;> rfl

theorem Phase.advance_pos {ph ph' : Phase} {d : UInt8} (h : ph.next = some (d, ph')) (n : ℕ) :
    advance (ph.pos n) d = ph'.pos 0 := by
  match ph with
  | .name [] => cases h
  | .name ((k, v) :: items) =>
      by_cases hv : v = []
      · rw [Phase.next, if_pos hv] at h
        obtain ⟨-, rfl, rfl⟩ := Phase.behind_eq_some h
        rfl
      · rw [Phase.next, if_neg hv] at h
        cases h
        rfl
  | .content k v items =>
      obtain ⟨-, rfl, rfl⟩ := Phase.behind_eq_some h
      rfl

/-! ## Whole texts -/

section

variable (heap : ℕ → ℕ → UInt8) {L : List (List UInt8 × List UInt8)}

/-- One write: it goes through exactly if the time to live suffices for its rounds. -/
theorem Expects.parseData (hL : Proper L) (ttl : ℕ) {s : URLVars} {ph : Phase}
    {w later : List UInt8} (h : Expects L s ph (w ++ later)) (hw : w ≠ [])
    (hclean : UnmergedIn (ph.pos s.urlVarParser.unparsedBuffer.bytes.length) w) :
    (rounds w ≤ ttl → ∃ s' ph', (urlVarsParser heap).parseData ttl s w = (s', some w.length) ∧
      Expects L s' ph' later ∧ ph'.pos s'.urlVarParser.unparsedBuffer.bytes.length =
        scan (ph.pos s.urlVarParser.unparsedBuffer.bytes.length) w) ∧
    (ttl < rounds w → ((urlVarsParser heap).parseData ttl s w).2 = none) := by
  have hsome := rounds_pos hw
  induction ttl generalizing s ph w with
  | zero => exact ⟨fun hle => absurd hle (by omega), fun _ => rfl⟩
  | succ ttl ih =>
      by_cases hin : s.urlVarParser.unparsedBuffer.bytes.length + w.length ≤ ph.piece.length
      · -- the whole write belongs to the piece
        obtain ⟨s', hround, hexp, hbytes⟩ := h.round_more heap hw hin
        have hpre : s'.urlVarParser.unparsedBuffer.bytes <+: ph.piece :=
          List.prefix_of_prefix_length_le (by rw [← hexp.text]; exact List.prefix_append _ _)
            (piece_prefix_text ph) hexp.inside
        have hplain : ∀ x ∈ w, x ≠ 61 ∧ x ≠ 38 := by
          intro x hx
          refine ne_of_mem_piece x (hpre.subset ?_)
          rw [hbytes]
          exact List.mem_append_right _ hx
        rw [rounds_plain hw hplain, ParserClass.parseData_answer hround]
        refine ⟨fun _ => ⟨s', ph, rfl, hexp, ?_⟩, fun hlt => absurd hlt (by omega)⟩
        rw [scan_plain hplain, Phase.pos_map, hbytes, List.length_append]
      · cases hnext : ph.next with
        | none =>
            have hlen := congrArg List.length h.text
            rw [Phase.text_of_next_none hnext, List.length_append, List.length_append] at hlen
            omega
        | some r =>
            obtain ⟨d, ph'⟩ := r
            have hend := Nat.lt_of_not_le hin
            have hsplit := h.split hnext hend
            have hinside := h.inside
            have hd := Phase.delimiter_of_next hnext
            -- the write is the rest of the piece, the delimiter and what is behind it
            have hwrite : w = ph.piece.drop s.urlVarParser.unparsedBuffer.bytes.length ++ d ::
                w.drop (ph.piece.length + 1 - s.urlVarParser.unparsedBuffer.bytes.length) := by
              have hdrop := congrArg (List.drop s.urlVarParser.unparsedBuffer.bytes.length) hsplit
              rw [List.drop_left, List.drop_append_of_le_length hinside] at hdrop
              exact hdrop
            have hplain : ∀ x ∈ ph.piece.drop s.urlVarParser.unparsedBuffer.bytes.length,
                x ≠ 61 ∧ x ≠ 38 := fun x hx => ne_of_mem_piece x (List.mem_of_mem_drop hx)
            have hlen : s.urlVarParser.unparsedBuffer.bytes.length +
                (ph.piece.drop s.urlVarParser.unparsedBuffer.bytes.length).length =
                ph.piece.length := by
              rw [List.length_drop]
              omega
            have hrest := hclean
            rw [hwrite] at hrest
            have hrest := unmergedIn_append hplain hrest
            rw [Phase.pos_map, hlen] at hrest
            have hpos : advance (ph.pos ph.piece.length) d = ph'.pos 0 := Phase.advance_pos hnext _
            have hscan : scan (ph.pos s.urlVarParser.unparsedBuffer.bytes.length) w =
              scan (ph'.pos 0)
                (w.drop (ph.piece.length + 1 - s.urlVarParser.unparsedBuffer.bytes.length)) := by
              have hplainScan := scan_plain hplain
                (ph.pos s.urlVarParser.unparsedBuffer.bytes.length)
              rw [Phase.pos_map, hlen] at hplainScan
              conv_lhs => rw [hwrite]
              rw [scan_append_cons, hplainScan, hpos]
            have hcount : rounds w = 1 + rounds
                (w.drop (ph.piece.length + 1 - s.urlVarParser.unparsedBuffer.bytes.length)) := by
              conv_lhs => rw [hwrite]
              exact rounds_delimiter hplain hd
            obtain ⟨s', hround, hexp, hbytes⟩ := h.round_next heap hL hnext hend (by
              intro hstat hd38
              have hcond := hrest.1
              rw [Phase.pos, if_pos hstat] at hcond
              exact hcond hd38)
            have hclean' : UnmergedIn (ph'.pos s'.urlVarParser.unparsedBuffer.bytes.length)
                (w.drop (ph.piece.length + 1 - s.urlVarParser.unparsedBuffer.bytes.length)) := by
              rw [hbytes, List.length_nil, ← hpos]
              exact hrest.2
            rw [hscan, hcount]
            split at hround
            · rename_i hall
              have hnil : w.drop (ph.piece.length + 1 -
                  s.urlVarParser.unparsedBuffer.bytes.length) = [] :=
                List.drop_eq_nil_of_le hall.ge
              rw [hnil] at hexp ⊢
              rw [ParserClass.parseData_answer hround, hall]
              refine ⟨fun _ => ⟨s', ph', rfl, hexp, by rw [hbytes]; rfl⟩, fun hlt => ?_⟩
              rw [rounds] at hlt
              omega
            · rename_i hmore
              have hne : w.drop (ph.piece.length + 1 -
                  s.urlVarParser.unparsedBuffer.bytes.length) ≠ [] := by
                rw [Ne, List.drop_eq_nil_iff]
                omega
              obtain ⟨hgo, hstop⟩ := ih hexp hne hclean' (rounds_pos hne)
              rw [ParserClass.parseData_left hround]
              constructor
              · intro hle
                obtain ⟨s'', ph'', hdata, hexp'', hpos''⟩ := hgo (by omega)
                refine ⟨s'', ph'', ?_, hexp'', ?_⟩
                · rw [hdata]
                  simp only [Option.map_some, List.length_drop]
                  congr 2
                  omega
                · rw [hpos'', hbytes]
                  rfl
              · intro hlt
                simp only [hstop (by omega), Option.map_none]

/-- All the writes of a text. -/
theorem Expects.writeAll (hL : Proper L) {s : URLVars} {ph : Phase} {ws : List (List UInt8)}
    (h : Expects L s ph ws.flatten) (hws : ∀ w ∈ ws, w ≠ [])
    (hclean : Unmerged (ph.pos s.urlVarParser.unparsedBuffer.bytes.length) ws) :
    ((∀ w ∈ ws, rounds w ≤ 4096 + 1) →
      ∃ s' ph', (urlVarsParser heap).writeAll s ws = some s' ∧ Expects L s' ph' []) ∧
    (∀ w ∈ ws, 4096 + 1 < rounds w → (urlVarsParser heap).writeAll s ws = none) := by
  induction ws generalizing s ph with
  | nil => exact ⟨fun _ => ⟨s, ph, rfl, h⟩, by simp⟩
  | cons w ws ih =>
      obtain ⟨hgo, hstop⟩ := Expects.parseData heap hL (4096 + 1) h (hws w (List.mem_cons_self ..))
        hclean.1
      rcases Nat.lt_or_ge (4096 + 1) (rounds w) with hover | hle
      · refine ⟨fun hall => absurd (hall w (List.mem_cons_self ..)) (by omega), fun _ _ _ => ?_⟩
        exact ParserClass.writeAll_failed (hstop hover) ws
      · obtain ⟨s', ph', hwrite, hexp, hpos⟩ := hgo hle
        obtain ⟨hgo', hstop'⟩ := ih hexp (fun v hv => hws v (List.mem_cons_of_mem _ hv))
          (by rw [hpos]; exact hclean.2)
        rw [ParserClass.writeAll_cons hwrite ws]
        refine ⟨fun hall => hgo' (fun v hv => hall v (List.mem_cons_of_mem _ hv)), ?_⟩
        intro v hv hover
        rcases List.mem_cons.mp hv with rfl | hv
        · omega
        · exact hstop' v hv hover

/-- The end of the stream ends the last piece. -/
theorem Expects.writeEOF (hL : Proper L) {s : URLVars} {ph : Phase} (h : Expects L s ph []) :
    ∃ s', (urlVarsParser heap).write s [] = (s', some 0) ∧ entries s'.vars = L := by
  -- no delimiter is left, so the buffer is the piece
  have hlast : ph.next = none ∧ s.urlVarParser.unparsedBuffer.bytes = ph.piece := by
    have htext := h.text
    rw [List.append_nil] at htext
    cases hnext : ph.next with
    | none => exact ⟨rfl, htext.trans (Phase.text_of_next_none hnext)⟩
    | some r =>
        obtain ⟨d, ph'⟩ := r
        have hinside := h.inside
        rw [htext, Phase.text_of_next hnext, List.length_append, List.length_cons] at hinside
        omega
  obtain ⟨hnext, hpiece⟩ := hlast
  have hq := h.holds.setParseStatus .getMoreData
  have hfind : s.urlVarParser.unparsedBuffer.findAny s.urlVarParser.parseMultiDelimiter true 0 0 =
      none := by
    have hdelims : s.urlVarParser.parseMultiDelimiter = ph.delimiters :=
      h.holds.parseMultiDelimiter rfl
    rw [hdelims, BChunks.findAny_eq h.holds.size_eq h.holds.counted.fits (by
      cases ph with
      | name items => simp [Phase.delimiters]
      | content k v items => simp [Phase.delimiters])]
    exact picked_eq_none (by rw [hpiece]; exact ne_of_mem_piece)
  obtain ⟨p, hwrite, hderived, hended⟩ : ∃ p : SubParser URLVarContent,
      subParserWrite heap (s.urlVarParser.setParseStatus .getMoreData) [] =
        ((p.callParse (parse s.urlVarParser.unparsedBuffer)
          s.urlVarParser.unparsedBuffer.bytes).clearUnparsed, .bytes 0) ∧
      p.derived = {} ∧ p.streamEnded = true := by
    refine ⟨{ s.urlVarParser.setParseStatus .getMoreData with
      streamEnded := true, delimiterFound := [] }, ?_, h.derived, rfl⟩
    rw [subParserWrite, SubParser.appendToUnparsedBuffer_nil]
    exact SubParser.writeIntoParser_multiDelimiter_ended heap hq.parseMode hfind
  by_cases hcurrent : ph.current = []
  · -- there was nothing to read
    obtain rfl : ph = .name [] := by
      match ph with
      | .name [] => rfl
      | .name ((k, v) :: items) =>
          exact absurd hcurrent (hL.names (k, v) (by rw [← h.vars]; simp [Phase.items]))
      | .content k v items => exact absurd hcurrent h.fits.1
    have hparse : parse s.urlVarParser.unparsedBuffer {} p.settings
        ⟨s.urlVarParser.unparsedBuffer.bytes, p.delimiterFound⟩ =
          ({}, p.settings, .getMoreData) := by
      rw [hpiece]
      rfl
    have hcall := @SubParser.callParse_of_settings URLVarContent p
      (parse s.urlVarParser.unparsedBuffer) s.urlVarParser.unparsedBuffer.bytes
      (by rw [hderived, hparse])
    rw [hderived, hparse] at hcall
    rw [hcall] at hwrite
    have hround := parseRound_more heap hwrite rfl rfl
    refine ⟨_, ParserClass.parseData_answer hround, ?_⟩
    have hvars := h.vars
    rw [Phase.items, List.append_nil] at hvars
    exact hvars
  · -- the last name or value
    have htake : s.urlVarParser.unparsedBuffer.bytes.take
      s.urlVarParser.unparsedBuffer.bytes.length =
        encode ph.current := by
      rw [List.take_length]
      exact hpiece
    have hlimit := Phase.length_piece_le h.fits
    obtain ⟨pData, hpData, hparse⟩ := parse_piece htake hcurrent
      (show (encode ph.current).length ≤ 4096 from (Nat.le_add_right _ _).trans hlimit) p.settings
      p.delimiterFound
    rw [List.take_length] at hparse
    have hcall := @SubParser.callParse_of_settings URLVarContent p
      (parse s.urlVarParser.unparsedBuffer) s.urlVarParser.unparsedBuffer.bytes
      (by rw [hderived, hparse])
    rw [hderived, hparse] at hcall
    rw [hcall] at hwrite
    match ph with
    | .name [] => exact absurd rfl hcurrent
    | .name ((k, v) :: items) =>
        obtain ⟨rfl, rfl⟩ : v = [] ∧ items = [] := by
          by_cases hv : v = []
          · rw [Phase.next, if_pos hv] at hnext
            exact ⟨hv, Phase.behind_eq_none hnext⟩
          · rw [Phase.next, if_neg hv] at hnext
            cases hnext
        have hround := parseRound_next heap hwrite rfl rfl (by
          rw [changeToNextParser_lone h.stat (Or.inr ?_)]
          exact hended)
        refine ⟨_, ParserClass.parseData_answer hround, ?_⟩
        have hvars := entries_addVar hL h.vars (show ({} : BChunks).bytes = [] from rfl)
        rw [List.append_nil] at hvars
        rw [changeToNextParser_lone h.stat (Or.inr ?_)]
        · dsimp only [SubParser.clearUnparsed]
          rw [hpData]
          exact hvars
        · exact hended
    | .content k v items =>
        obtain rfl : items = [] := Phase.behind_eq_none hnext
        have hround := parseRound_next heap hwrite rfl rfl (by
          rw [changeToNextParser_content h.stat])
        refine ⟨_, ParserClass.parseData_answer hround, ?_⟩
        have hvars := entries_addVar hL h.vars (show pData.container.bytes = v from hpData)
        rw [List.append_nil] at hvars
        rw [changeToNextParser_content h.stat]
        dsimp only [SubParser.clearUnparsed]
        rw [show s.currentVarName = k from h.varName]
        exact hvars

theorem expects_fresh {L : List (List UInt8 × List UInt8)} (hfits : Mantids.Fits L) :
    Expects L fresh (.name L) (Mantids.text L) where
  holds := SubParser.holds_start _ _
  derived := rfl
  stat := rfl
  varName := trivial
  maxVarNameSize := rfl
  maxVarContentSize := rfl
  inside := Nat.zero_le _
  text := rfl
  vars := rfl
  fits := hfits

end

/-- Variables that were added one after another. -/
def ofList (l : List (List UInt8 × BChunks)) : Variables :=
  l.foldl (fun vars e => addVar vars e.1 e.2) []

theorem proper_ofList (l : List (List UInt8 × BChunks)) : Proper (entries (ofList l)) := by
  have hfold : ∀ (l : List (List UInt8 × BChunks)) (vars : Variables), Proper (entries vars) →
      Proper (entries (l.foldl (fun vars e => addVar vars e.1 e.2) vars)) := by
    intro l
    induction l with
    | nil => exact fun vars h => h
    | cons e l ih => exact fun vars h => ih _ (proper_addVar h e.1 e.2)
  exact hfold l [] ⟨List.Pairwise.nil, by simp [entries], by simp [entries]⟩

/-- The values of a multimap are among those that were added. -/
theorem counted_ofList {l : List (List UInt8 × BChunks)} (h : ∀ e ∈ l, e.2.Counted) :
    ∀ e ∈ ofList l, e.2.Counted := by
  have hfold : ∀ (l : List (List UInt8 × BChunks)) (vars : Variables), (∀ e ∈ l, e.2.Counted) →
      (∀ e ∈ vars, e.2.Counted) →
      ∀ e ∈ l.foldl (fun vars e => addVar vars e.1 e.2) vars, e.2.Counted := by
    intro l
    induction l with
    | nil => exact fun vars _ h => h
    | cons e l ih =>
        intro vars hl hvars
        refine ih _ (fun e' he' => hl e' (List.mem_cons_of_mem _ he')) ?_
        intro e' he'
        rcases mem_addVar he' with hin | rfl
        · exact hvars e' hin
        · exact hl e (List.mem_cons_self ..)
  exact hfold l [] h (by simp)

/-- A list of writes and the end of the stream bring back the multimap of the entries `L`. -/
def Restores (heap : ℕ → ℕ → UInt8) (L : List (List UInt8 × List UInt8))
    (ws : List (List UInt8)) : Prop :=
  ∃ s, (urlVarsParser heap).writeAll fresh (ws ++ [[]]) = some s ∧ entries s.vars = L

/-- A run over the text of some entries. -/
theorem restores_iff_of_text (heap : ℕ → ℕ → UInt8) {L : List (List UInt8 × List UInt8)}
    (hL : Proper L) (hfits : Mantids.Fits L) {ws : List (List UInt8)} (hws : ∀ w ∈ ws, w ≠ [])
    (hcut : ws.flatten = Mantids.text L) (hclean : Unmerged (some 0) ws) :
    Restores heap L ws ↔ ∀ w ∈ ws, rounds w ≤ 4096 + 1 := by
  have hexp : Expects L fresh (.name L) ws.flatten := by
    rw [hcut]
    exact expects_fresh hfits
  obtain ⟨hgo, hstop⟩ := hexp.writeAll heap hL hws hclean
  constructor
  · rintro ⟨s, hs, -⟩ w hw
    by_contra hover
    rw [ParserClass.writeAll_append, hstop w hw (Nat.lt_of_not_le hover)] at hs
    cases hs
  · intro hall
    obtain ⟨s, ph, hs, hexp'⟩ := hgo hall
    obtain ⟨s', hwrite, hvars⟩ := hexp'.writeEOF heap hL
    refine ⟨s', ?_, hvars⟩
    rw [ParserClass.writeAll_append, hs, Option.bind_some]
    exact ParserClass.writeAll_cons hwrite []

/-- **Round trip.**  The variables of any list, with names and values that in their encoded form
and with their delimiter fit the limits, go through `streamTo` and arrive in any non-empty
writes, none of which has a `=` behind the `&` of a name (as far as the buffer for the name
reaches).  Then, after the end of the stream, the multimap is the same, exactly if no write takes
more rounds than the time to live allows. -/
theorem urlVars_roundTrip (heap : ℕ → ℕ → UInt8) (l : List (List UInt8 × BChunks))
    (hvalues : ∀ e ∈ l, e.2.Counted) (hfits : Mantids.Fits (entries (ofList l)))
    (ws : List (List UInt8)) (hws : ∀ w ∈ ws, w ≠ [])
    (hcut : streamTo true (ofList l) = some ws.flatten) (hclean : Unmerged (some 0) ws) :
    Restores heap (entries (ofList l)) ws ↔ ∀ w ∈ ws, rounds w ≤ 4096 + 1 := by
  have hL := proper_ofList l
  have hnames : ∀ e ∈ ofList l, e.1 ≠ [] := fun e he =>
    hL.names (e.1, e.2.bytes) (List.mem_map_of_mem he)
  rw [streamTo_eq (counted_ofList hvalues) hnames hfits, if_pos rfl, Option.some.injEq] at hcut
  exact restores_iff_of_text heap hL hfits hws hcut.symm hclean

/-- A name without a value and one with a value, in two writes. -/
theorem urlVars_roundTrip_two :
    Restores (fun _ _ => 0)
      (entries (ofList [([97], {}), ([98], { chunksVector := [⟨[49], 0⟩], containerBytes := 1 })]))
      [[65, 38], [66, 61, 49]] :=
  (urlVars_roundTrip (fun _ _ => 0)
    [([97], {}), ([98], { chunksVector := [⟨[49], 0⟩], containerBytes := 1 })]
    (by
      intro e he
      simp only [List.mem_cons, List.not_mem_nil, or_false] at he
      rcases he with rfl | rfl
      · exact open_empty.counted
      · exact ⟨by simp, rfl, by norm_num⟩)
    (by decide) [[65, 38], [66, 61, 49]] (by decide) (by decide)
    (by decide)).mpr (by decide)

/-! ## Many variables in one write -/

/-- Variables with the same name and no value. -/
theorem ofList_replicate {k : List UInt8} (hk : k ≠ []) (hup : upperCopy k = k) (n : ℕ) :
    ofList (List.replicate n (k, {})) = List.replicate n (k, {}) := by
  have hfold : ∀ m, (List.replicate n (k, ({} : BChunks))).foldl
      (fun vars e => addVar vars e.1 e.2) (List.replicate m (k, {})) =
      List.replicate (m + n) (k, {}) := by
    induction n with
    | zero => exact fun m => rfl
    | succ n ih =>
        intro m
        have hadd : addVar (List.replicate m (k, {})) k {} = List.replicate (m + 1) (k, {}) := by
          rw [addVar, if_pos hk, hup, multimapInsert_last _ ?_, List.replicate_succ']
          intro e he
          rw [List.eq_of_mem_replicate he]
          exact List.lt_irrefl k
        rw [List.replicate_succ, List.foldl_cons, hadd, ih]
        congr 1
        omega
  have := hfold 0
  rw [Nat.zero_add] at this
  exact this

/-- Their text has no `=`, and a round for each of them. -/
theorem text_replicate {k : List UInt8} (hk : k ≠ []) (n : ℕ) :
    61 ∉ Mantids.text (List.replicate n (k, [])) ∧
      rounds (Mantids.text (List.replicate n (k, []))) = n := by
  have hplain := @ne_of_mem_encode k
  have hsome : encode k ≠ [] := by
    refine List.ne_nil_of_length_pos ?_
    have := length_le_length_encode k
    have := List.length_pos_iff.mpr hk
    omega
  induction n with
  | zero => exact ⟨by simp [Mantids.text], rfl⟩
  | succ n ih =>
      rw [List.replicate_succ, text_cons, show valueText [] = [] from rfl, List.nil_append]
      cases n with
      | zero =>
          rw [show tailText (List.replicate 0 (k, [])) = [] from rfl, List.append_nil]
          exact ⟨fun hmem => (hplain 61 hmem).1 rfl, rounds_plain hsome hplain⟩
      | succ n =>
          rw [tailText, if_neg (by simp)]
          refine ⟨?_, ?_⟩
          · rw [List.mem_append, List.mem_cons]
            rintro (hmem | hmem | hmem)
            · exact (hplain 61 hmem).1 rfl
            · exact absurd hmem (by decide)
            · exact ih.1 hmem
          · rw [rounds_delimiter hplain (Or.inr rfl), ih.2]
            omega

theorem unmergedIn_of_not_mem {w : List UInt8} (h : 61 ∉ w) (pos : Option ℕ) :
    UnmergedIn pos w := by
  induction w generalizing pos with
  | nil => trivial
  | cons x w ih =>
      have hw : 61 ∉ w := fun hmem => h (List.mem_cons_of_mem _ hmem)
      refine ⟨?_, ih hw _⟩
      cases pos with
      | none => trivial
      | some n => exact fun _ hmem => hw (List.mem_of_mem_take hmem)

theorem fits_replicate {k : List UInt8} (hk : (encode k).length + 1 ≤ 4096) (n : ℕ) :
    Mantids.Fits (List.replicate n (k, [])) := by
  induction n with
  | zero => trivial
  | succ n ih =>
      rw [List.replicate_succ]
      refine ⟨?_, ?_, ih⟩
      · split <;> omega
      · have : (encode []).length = 0 := rfl
        split <;> omega

/-- 4098 variables `A` without a value, in one write, are too many for the time to live. -/
theorem many_variables_lost :
    streamTo true (ofList (List.replicate 4098 ([65], {}))) =
        some (Mantids.text (List.replicate 4098 ([65], []))) ∧
      entries (ofList (List.replicate 4098 ([65], {}))) = List.replicate 4098 ([65], []) ∧
      ¬ Restores (fun _ _ => 0) (List.replicate 4098 ([65], []))
        [Mantids.text (List.replicate 4098 ([65], []))] := by
  have hlist := ofList_replicate (show [(65 : UInt8)] ≠ [] by simp) (by decide) 4098
  have hentries : entries (ofList (List.replicate 4098 ([65], {}))) =
      List.replicate 4098 ([65], []) := by
    rw [hlist, entries, List.map_replicate]
    rfl
  have hproper := proper_ofList (List.replicate 4098 ([65], {}))
  have hfits := fits_replicate (show (encode [65]).length + 1 ≤ 4096 by decide) 4098
  obtain ⟨hmem, hrounds⟩ := text_replicate (show [(65 : UInt8)] ≠ [] by simp) 4098
  refine ⟨?_, hentries, ?_⟩
  · rw [streamTo_eq (counted_ofList ?_) ?_ (by rw [hentries]; exact hfits), if_pos rfl, hentries]
    · intro e he
      rw [List.eq_of_mem_replicate he]
      exact open_empty.counted
    · exact fun e he => hproper.names (e.1, e.2.bytes) (List.mem_map_of_mem he)
  · intro hrestores
    have hne : Mantids.text (List.replicate 4098 ([65], [])) ≠ [] := by
      intro hnil
      rw [hnil] at hrounds
      exact absurd hrounds (by simp [rounds])
    rw [hentries] at hproper
    have hiff := restores_iff_of_text (fun _ _ => 0) hproper hfits
      (show ∀ w ∈ [Mantids.text (List.replicate 4098 ([65], []))], w ≠ [] by
        intro w hw
        rw [List.mem_singleton.mp hw]
        exact hne)
      (by rw [List.flatten_singleton]) ⟨unmergedIn_of_not_mem hmem _, trivial⟩
    have := hiff.mp hrestores _ (List.mem_singleton.mpr rfl)
    omega

end URLVars

end Mantids
