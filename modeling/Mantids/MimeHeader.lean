/-
# The header block of a MIME message

`MIME_Sub_Header` (`Protocol_MIME/mime_sub_header.cpp`) keeps the options of a header block: the
text of each one, its value up to the first semicolon, and the variables that follow it.  Blocks are
read line by line, and written in the order of the upper-cased names.

* `MimeHeaderOption.parseSubValues` — the value and the variables of an option;
* `MimeSubHeader` — the options, with `add`, `remove`, `replace` and the getters;
* `MimeSubHeader.parse` — what a line does;
* `MimeSubHeader.text` — the block that is written.

Quoted texts are put aside under a random tag while an option is cut at its semicolons; the tags
that are drawn are a parameter.
-/
import Mantids.Content
import Mantids.Lib.Occurrence

namespace Mantids

open Occurrence

/-! ## Texts -/

/-- The bytes of a text. -/
def bytesOf (s : String) : List UInt8 := s.toList.flatMap String.utf8EncodeChar

/-- A literal is the list of its characters by definition: a text that is rewritten so is not
decoded when it is evaluated. -/
theorem bytesOf_ofList (cs : List Char) :
    bytesOf (String.ofList cs) = cs.flatMap String.utf8EncodeChar := by
  rw [bytesOf, String.toList_ofList]

/-- `boost::to_upper_copy` in the `C` locale. -/
def toUpperBytes (s : List UInt8) : List UInt8 :=
  s.map fun c => if 97 ≤ c ∧ c ≤ 122 then c - 32 else c

/-- `boost::trim_copy`. -/
def trimBytes (s : List UInt8) : List UInt8 :=
  ((s.dropWhile isspace).reverse.dropWhile isspace).reverse

/-- `boost::split` with `token_compress_on`: only the first and the last token may be empty. -/
def splitCompress (isSeparator : UInt8 → Bool) (s : List UInt8) : List (List UInt8) :=
  match s.splitOnP isSeparator with
  | [] => []
  | [token] => [token]
  | token :: tokens => token :: (tokens.dropLast.filter (· ≠ []) ++ tokens.getLast?.toList)

/-- `boost::replace_all` of a text that is not empty; each round leaves less to search. -/
def replaceAllFrom (search replacement : List UInt8) : ℕ → List UInt8 → List UInt8
  | 0, s => s
  | fuel + 1, s =>
    match first search s with
    | none => s
    | some p =>
      s.take p ++ replacement ++ replaceAllFrom search replacement fuel (s.drop (p + search.length))

def replaceAll (search replacement s : List UInt8) : List UInt8 :=
  replaceAllFrom search replacement s.length s

/-- `std::to_string`. -/
def decimal (n : ℕ) : List UInt8 :=
  if n = 0 then [48] else (Nat.digits 10 n).reverse.map fun d => UInt8.ofNat (48 + d)

/-! ## Options -/

/-- `MIME_HeaderOption`. -/
structure MimeHeaderOption where
  origName : List UInt8 := []
  origValue : List UInt8 := []
  value : List UInt8 := []
  /-- `m_subVar`, in the order of insertion. -/
  subVar : List (List UInt8 × List UInt8) := []
  curHeaderOptSize : ℕ := 0
  maxHeaderOptSize : ℕ := 8 * 1024
  maxSubOptionsCount : ℕ := 16
deriving DecidableEq

namespace MimeHeaderOption

def getUpperName (opt : MimeHeaderOption) : List UInt8 := toUpperBytes opt.origName

def toText (opt : MimeHeaderOption) : List UInt8 := opt.origName ++ [58, 32] ++ opt.origValue

def isPermited7bitCharset (varX : List UInt8) : Bool := varX.all fun c => 32 ≤ c && c ≤ 126

def addSubVar (opt : MimeHeaderOption) (varName varValue : List UInt8) : MimeHeaderOption :=
  if varName = [] ∧ varValue = [] then opt
  else if opt.maxSubOptionsCount ≤ opt.subVar.length then opt
  else if opt.maxHeaderOptSize < varName.length + varValue.length + opt.curHeaderOptSize then opt
  else if isPermited7bitCharset varName = false then opt
  else if isPermited7bitCharset varValue = false then opt
  else
    { opt with
      curHeaderOptSize := opt.curHeaderOptSize + (varName.length + varValue.length)
      subVar := opt.subVar ++ [(varName, varValue)] }

def setValue (opt : MimeHeaderOption) (value : List UInt8) : MimeHeaderOption :=
  { opt with value := trimBytes value }

/-- What stands for a quoted text, in a buffer of 128 bytes. -/
def staticMessage (secureReplace : List UInt8) (pos : ℕ) : List UInt8 :=
  (bytesOf "_STATIC_" ++ secureReplace ++ [95] ++ decimal pos).take 127

/-- The leftmost text between two quotes. -/
def quoted (s : List UInt8) : Option (List UInt8) :=
  let rest := (s.dropWhile (· ≠ 34)).drop 1
  if 34 ∈ rest then some (rest.takeWhile (· ≠ 34)) else none

/-- The loop that puts the quoted texts aside; each round takes two quotes away. -/
def takeStaticTexts (secureReplace : List UInt8) :
    ℕ → List (List UInt8) → List UInt8 → List (List UInt8) × List UInt8
  | 0, vStaticTexts, s => (vStaticTexts, s)
  | fuel + 1, vStaticTexts, s =>
    match quoted s with
    | none => (vStaticTexts, s)
    | some text =>
      takeStaticTexts secureReplace fuel (vStaticTexts ++ [text])
        (replaceAll ([34] ++ text ++ [34]) (staticMessage secureReplace vStaticTexts.length) s)

/-- The quoted texts are put back. -/
def putStaticTexts (secureReplace : List UInt8) (vStaticTexts : List (List UInt8))
    (s : List UInt8) : List UInt8 :=
  vStaticTexts.zipIdx.foldl (fun s text => replaceAll (staticMessage secureReplace text.2) text.1 s)
    s

/-- The variable of one part between semicolons. -/
def addPart (putBack : List UInt8 → List UInt8) (opt : MimeHeaderOption) (value : List UInt8) :
    MimeHeaderOption :=
  if 61 ∈ value then
    opt.addSubVar (putBack (trimBytes (value.takeWhile (· ≠ 61))))
      (putBack (trimBytes ((value.dropWhile (· ≠ 61)).drop 1)))
  else opt.addSubVar (putBack (trimBytes value)) []

/-- `MIME_Sub_Header::parseSubValues`. -/
def parseSubValues (secureReplace : List UInt8) (opt : MimeHeaderOption) (strName : List UInt8) :
    MimeHeaderOption :=
  let trimmed := trimBytes strName
  let (vStaticTexts, sVarValues) := takeStaticTexts secureReplace trimmed.length [] trimmed
  let putBack := putStaticTexts secureReplace vStaticTexts
  match splitCompress (· = 59) sVarValues with
  | [] => { opt with origValue := strName }
  | value :: vValues =>
    let opt := addPart putBack { opt with origValue := strName } value
    vValues.foldl (addPart putBack) (opt.setValue (putBack (trimBytes value)))

end MimeHeaderOption

/-! ## Header blocks -/

/-- `MIME_Sub_Header`, apart from what it is as a sub-parser. -/
structure MimeSubHeader where
  /-- `m_headers` in the order of insertion, each option with its number. -/
  headers : List (ℕ × MimeHeaderOption) := []
  /-- `m_maxOptions`. -/
  maxOptions : ℕ := 32
  /-- `m_lastOpt`, which may no longer be in `m_headers`. -/
  lastOpt : Option ℕ := none
  /-- The options made so far. -/
  made : ℕ := 0
  /-- The tags drawn so far. -/
  drawn : ℕ := 0

namespace MimeSubHeader

variable (tags : ℕ → List UInt8)

/-- `add` of a new option. -/
def add (h : MimeSubHeader) (optionName optionValue : List UInt8) : MimeSubHeader × Bool :=
  if h.headers.length = h.maxOptions then (h, false)
  else
    let opt : MimeHeaderOption := { origName := optionName }
    ({ h with
        headers := h.headers ++ [(h.made, opt.parseSubValues (tags h.drawn) optionValue)]
        lastOpt := some h.made
        made := h.made + 1
        drawn := h.drawn + 1 }, true)

/-- `add` with the state 1: the text of the last option is replaced. -/
def continueLast (h : MimeSubHeader) (optionValue : List UInt8) : MimeSubHeader :=
  match h.lastOpt with
  | none => h
  | some last =>
    { h with
      headers := h.headers.map fun o =>
        if o.1 = last then (o.1, o.2.parseSubValues (tags h.drawn) optionValue) else o
      drawn := h.drawn + 1 }

def remove (h : MimeSubHeader) (optionName : List UInt8) : MimeSubHeader :=
  { h with headers := h.headers.filter fun o => o.2.getUpperName ≠ toUpperBytes optionName }

def replace (h : MimeSubHeader) (optionName optionValue : List UInt8) : MimeSubHeader :=
  ((h.remove optionName).add tags optionName optionValue).1

/-- `getOptionByName`: of several options the one that was inserted first. -/
def getOptionByName (h : MimeSubHeader) (varName : List UInt8) : Option MimeHeaderOption :=
  (h.headers.map (·.2)).find? fun opt => opt.getUpperName = toUpperBytes varName

def exist (h : MimeSubHeader) (optionName : List UInt8) : Bool :=
  (h.getOptionByName optionName).isSome

def getOptionRawStringByName (h : MimeSubHeader) (varName : List UInt8) : List UInt8 :=
  ((h.getOptionByName varName).map (·.origValue)).getD []

def getOptionValueStringByName (h : MimeSubHeader) (varName : List UInt8) : List UInt8 :=
  ((h.getOptionByName varName).map (·.value)).getD []

/-- `parseOptionValue`.  The value is read as a C string. -/
def parseOptionValue (h : MimeSubHeader) (optionValue : List UInt8) : MimeSubHeader :=
  if optionValue.head? = some 32 ∨ optionValue.head? = some 9 then h.continueLast tags optionValue
  else
    match first [58, 32] optionValue with
    | none => h
    | some found =>
      (h.add tags (optionValue.take found)
        ((optionValue.drop (found + 2)).takeWhile (· ≠ 0))).1

/-- `parse()`: an empty line ends the block. -/
def parse : Parse MimeSubHeader := fun h st shown =>
  if shown.parsedBuffer = [] then (h, st, .gotoNextSubparser)
  else (h.parseOptionValue tags shown.parsedBuffer, st, .getMoreData)

/-- The options in the order of `m_headers`. -/
def sorted (h : MimeSubHeader) : List MimeHeaderOption :=
  (h.headers.map (·.2)).insertionSort fun a b => a.getUpperName ≤ b.getUpperName

/-- What `streamToUpstream` writes. -/
def text (h : MimeSubHeader) : List UInt8 :=
  h.sorted.flatMap (fun opt => opt.toText ++ [13, 10]) ++ [13, 10]

end MimeSubHeader

end Mantids
