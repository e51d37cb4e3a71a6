/-
# Variables in a page

`HTMLIEngine::procResource_JProcessor` (`Server_WebCore/htmliengine.cpp`) replaces the `%j`
directives of a page by values: first those of scripts, `//<%j..%>//`, then those of HTML,
`<!--<%j..%>-->`.  A pass goes on behind what it inserted; the second one starts over at the
beginning of the page.

* `ClientHandler` — the variables of a request, and the functions of the application;
* `matchHere`, `regexSearch` — the directive pattern at a place, and its leftmost match;
* `replacement`, `replacement_cases` — what a directive is replaced by;
* `iProcResourceJProcessor`, `procResourceJProcessor` — a pass, and both of them.

The narrowing of a position to `int` is kept: in a page of more than 2 GiB a pass can replace
another part than the one it found, or throw.
-/
import Mantids.JVar
import Mantids.UrlCodec

namespace Mantids

open JsonWriter Begins

namespace HTMLIEngine

/-! ## Directives -/

/-- The fixed parts of a directive pattern. -/
structure JPattern where
  opener : List UInt8
  closer : List UInt8

/-- `<!--<%[jJ]([a-zA-Z\/]+):[ ]*([^%]*)[ ]*%>-->`. -/
def reHTML : JPattern := ⟨bytesOf "<!--<%", bytesOf "%>-->"⟩

/-- `\/\/<%[jJ]([a-zA-Z\/]+):[ ]*([^%]*)[ ]*%>\/\/`. -/
def reJS : JPattern := ⟨bytesOf "//<%", bytesOf "%>//"⟩

/-- A match with its two groups. -/
structure Directive where
  command : List UInt8
  value : List UInt8
  length : ℕ
deriving DecidableEq

/-- `[a-zA-Z\/]`. -/
def isCommandByte (c : UInt8) : Bool := isalpha c || c = 47

/-- The pattern at the beginning of a text.  The value takes the blanks behind it along. -/
def matchHere (re : JPattern) (s : List UInt8) : Option Directive :=
  if re.opener <+: s then
    match s.drop re.opener.length with
    | [] => none
    | j :: rest =>
      if j = 106 ∨ j = 74 then
        let command := rest.takeWhile isCommandByte
        match rest.drop command.length with
        | 58 :: tail =>
          let body := tail.dropWhile (· = 32)
          let value := body.takeWhile (· ≠ 37)
          let close := body.drop value.length
          if command ≠ [] ∧ re.closer <+: close then
            some ⟨command, value, s.length - close.length + re.closer.length⟩
          else none
        | _ => none
      else none
  else none

/-- `regex_search`. -/
def regexSearch (re : JPattern) : List UInt8 → Option (ℕ × Directive) := leftmost (matchHere re)

/-! ## Values for directives -/

inductive VarSource where
  | get
  | post

/-- What the engine asks the `APIClientHandler` for; the state is that of the application. -/
structure ClientHandler (σ : Type*) where
  /-- `doesSessionVariableExist` and `getSessionVariableValue`. -/
  sessionVariable : σ → List UInt8 → Option Value
  /-- `softwareVersion`, `fillSessionInfo` and `fillSessionExtraInfo`. -/
  jVars : σ → List (List UInt8 × Value)
  /-- `getVars(..)->exist` and `getTValue`. -/
  vars : σ → VarSource → List UInt8 → Option (List UInt8)
  /-- `procJAPI_Exec`. -/
  procJAPIExec : σ → List UInt8 → List UInt8 → Value × σ

section Values

variable {σ : Type*} (w : FastWriter) (clientHandler : ClientHandler σ)

/-- `procResource_HTMLIEngineJSESSVAR`. -/
def procResourceHTMLIEngineJSESSVAR (scriptVarName varName : List UInt8) (s : σ)
    (useHTMLFrame : Bool) : List UInt8 :=
  match clientHandler.sessionVariable s varName with
  | none => replaceByJVar w .null scriptVarName useHTMLFrame
  | some value => replaceByJVar w value scriptVarName useHTMLFrame

/-- `procResource_HTMLIEngineJVAR`. -/
def procResourceHTMLIEngineJVAR (scriptVarName varName : List UInt8) (s : σ)
    (useHTMLFrame : Bool) : List UInt8 :=
  match (clientHandler.jVars s).lookup varName, clientHandler.sessionVariable s varName with
  | some value, _ => replaceByJVar w value scriptVarName useHTMLFrame
  | none, some value => replaceByJVar w value scriptVarName useHTMLFrame
  | none, none => replaceByJVar w .null scriptVarName useHTMLFrame

/-- `procResource_HTMLIEngineJGETVAR` and `procResource_HTMLIEngineJPOSTVAR`. -/
def procResourceHTMLIEngineJVarOf (source : VarSource) (scriptVarName varName : List UInt8) (s : σ)
    (useHTMLFrame : Bool) : List UInt8 :=
  match clientHandler.vars s source varName with
  | some value => replaceByJVar w (.string value) scriptVarName useHTMLFrame
  | none => replaceByJVar w .null scriptVarName useHTMLFrame

def procResourceHTMLIEngineJGETVAR := procResourceHTMLIEngineJVarOf w clientHandler .get

def procResourceHTMLIEngineJPOSTVAR := procResourceHTMLIEngineJVarOf w clientHandler .post

/-- `([^\(]+)\(([^\)]*)\)`, the leftmost match. -/
def staticJsonFunction (functionDef : List UInt8) : Option (List UInt8 × List UInt8) :=
  let start := functionDef.dropWhile (· = 40)
  let functionName := start.takeWhile (· ≠ 40)
  match start.drop functionName.length with
  | [] => none
  | _ :: rest =>
    let functionInput := rest.takeWhile (· ≠ 41)
    if 41 ∈ rest then some (functionName, functionInput) else none

/-- `Encoders::replaceHexCodes`, from a position on; a byte that was put in is looked at again. -/
def replaceHexCodesFrom : ℕ → List UInt8 → List UInt8
  | 0, content => content
  | fuel + 1, content =>
    match content with
    | [] => []
    | c :: rest =>
      if bytesOf "\\0x" <+: content then
        match content.drop 3 with
        | a :: b :: tail =>
          if isxdigit a ∧ isxdigit b then replaceHexCodesFrom fuel (hexPairToByte a b :: tail)
          else content.take 3 ++ replaceHexCodesFrom fuel (content.drop 3)
        | _ => content.take 3 ++ replaceHexCodesFrom fuel (content.drop 3)
      else c :: replaceHexCodesFrom fuel rest

def replaceHexCodes (content : List UInt8) : List UInt8 :=
  replaceHexCodesFrom content.length content

/-- `procResource_HTMLIEngineJFUNC`. -/
def procResourceHTMLIEngineJFUNC (scriptVarName functionDef : List UInt8) (s : σ)
    (useHTMLFrame : Bool) : List UInt8 × σ :=
  match staticJsonFunction functionDef with
  | some (functionName, functionInput) =>
    let answer := clientHandler.procJAPIExec s functionName (replaceHexCodes functionInput)
    (replaceByJVar w answer.1 scriptVarName useHTMLFrame, answer.2)
  | none => (replaceByJVar w .null scriptVarName useHTMLFrame, s)

/-- `boost::istarts_with`. -/
def istartsWith (s start : List UInt8) : Bool := (start.map tolower).isPrefixOf (s.map tolower)

/-- What a directive is replaced by, with the state behind the call it may make. -/
def replacement (d : Directive) (s : σ) (useHTMLFrame : Bool) : List UInt8 × σ :=
  if istartsWith d.command (bytesOf "VAR/") then
    (procResourceHTMLIEngineJVAR w clientHandler (d.command.drop (3 + 1)) d.value s useHTMLFrame, s)
  else if istartsWith d.command (bytesOf "GETVAR/") then
    (procResourceHTMLIEngineJGETVAR w clientHandler (d.command.drop (6 + 1)) d.value s
      useHTMLFrame, s)
  else if istartsWith d.command (bytesOf "POSTVAR/") then
    (procResourceHTMLIEngineJPOSTVAR w clientHandler (d.command.drop (7 + 1)) d.value s
      useHTMLFrame, s)
  else if istartsWith d.command (bytesOf "FUNC/") then
    procResourceHTMLIEngineJFUNC w clientHandler (d.command.drop (4 + 1)) d.value s useHTMLFrame
  else if istartsWith d.command (bytesOf "SESS/") then
    (procResourceHTMLIEngineJSESSVAR w clientHandler (d.command.drop (4 + 1)) d.value s
      useHTMLFrame, s)
  else (bytesOf "null", s)

/-- Whatever the application answers, a value is put in, or the text `null`. -/
theorem replacement_cases (d : Directive) (s : σ) (useHTMLFrame : Bool) :
    (∃ k v, (replacement w clientHandler d s useHTMLFrame).1 =
        replaceByJVar w v (d.command.drop k) useHTMLFrame) ∨
      (replacement w clientHandler d s useHTMLFrame).1 = bytesOf "null" := by
  have hvars : ∀ source k, ∃ v, procResourceHTMLIEngineJVarOf w clientHandler source
      (d.command.drop k) d.value s useHTMLFrame =
        replaceByJVar w v (d.command.drop k) useHTMLFrame := by
    intro source k
    unfold procResourceHTMLIEngineJVarOf
    split
    · exact ⟨_, rfl⟩
    · exact ⟨_, rfl⟩
  unfold replacement
  split
  · -- `VAR/`
    unfold procResourceHTMLIEngineJVAR
    split
    · exact .inl ⟨_, _, rfl⟩
    · exact .inl ⟨_, _, rfl⟩
    · exact .inl ⟨_, _, rfl⟩
  split
  · exact .inl ⟨_, hvars .get _⟩
  split
  · exact .inl ⟨_, hvars .post _⟩
  split
  · -- `FUNC/`
    unfold procResourceHTMLIEngineJFUNC
    split
    · exact .inl ⟨_, _, rfl⟩
    · exact .inl ⟨_, _, rfl⟩
  split
  · -- `SESS/`
    unfold procResourceHTMLIEngineJSESSVAR
    split
    · exact .inl ⟨_, _, rfl⟩
    · exact .inl ⟨_, _, rfl⟩
  · exact .inr rfl

/-! ## The passes -/

/-- `static_cast<int>`, taken as a `size_t` again. -/
def narrow (n : ℕ) : ℕ :=
  if n % 2 ^ 32 < 2 ^ 31 then n % 2 ^ 32 else n % 2 ^ 32 + (2 ^ 64 - 2 ^ 32)

/-- `std::string::replace`; `none` if it throws. -/
def stringReplace {α : Type*} (s : List α) (pos len : ℕ) (r : List α) : Option (List α) :=
  if pos ≤ s.length then some (s.take pos ++ r ++ s.drop (pos + len)) else none

/-- The variables of `iProcResource_JProcessor`. -/
structure JState (σ : Type*) where
  input : List UInt8
  pos : ℕ := 0
  client : σ

/-- How a turn of a loop ends. -/
inductive Turn (β : Type*) where
  | broke
  | threw
  | next (st : β)
deriving DecidableEq

/-- The match that a turn acts upon, by its position in the whole text. -/
def jMatch (re : JPattern) (input : List UInt8) (pos : ℕ) : Option (ℕ × Directive) :=
  (regexSearch re (input.drop pos)).map fun m => (pos + m.1, m.2)

/-- A turn of `iProcResource_JProcessor`. -/
def jTurn (re : JPattern) (useHTMLFrame : Bool) (st : JState σ) : Turn (JState σ) :=
  match jMatch re st.input st.pos with
  | none => .broke
  | some (position, d) =>
    let absolutePos := narrow position
    let length := narrow d.length
    let replacedBy := replacement w clientHandler d st.client useHTMLFrame
    match stringReplace st.input absolutePos length replacedBy.1 with
    | none => .threw
    | some input => .next ⟨input, (absolutePos + replacedBy.1.length) % 2 ^ 64, replacedBy.2⟩

/-- `iProcResource_JProcessor`; `none` if it throws, or has not ended after so many turns. -/
def iProcResourceJProcessor (re : JPattern) (useHTMLFrame : Bool) :
    ℕ → JState σ → Option (JState σ)
  | 0, _ => none
  | fuel + 1, st =>
    match jTurn w clientHandler re useHTMLFrame st with
    | .broke => some st
    | .threw => none
    | .next st => iProcResourceJProcessor re useHTMLFrame fuel st

/-- `procResource_JProcessor`. -/
def procResourceJProcessor (fuel : ℕ) (input : List UInt8) (s : σ) : Option (JState σ) :=
  (iProcResourceJProcessor w clientHandler reJS false fuel ⟨input, 0, s⟩).bind fun st =>
    iProcResourceJProcessor w clientHandler reHTML true fuel ⟨st.input, 0, st.client⟩

end Values

end HTMLIEngine

end Mantids
