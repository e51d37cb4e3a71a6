/-
# Expressions over JSON values

`JSONEval` (`Scripts_JSONExprEval/jsoneval.cpp`) compiles a boolean expression: atomic calls such as
`IS_EQUAL($a,1)`, joined by `&&` or by `||`, and groups in parentheses.  A group is compiled as an
expression of its own; in the text around it a placeholder takes its place.

* `AtomicExpression.compile` — the atomic calls;
* `detectSubExprs` — the loop that takes the groups out, which ends because every round leaves fewer
  parentheses or less text;
* `JSONEval.construct` — the constructor, with all groups at every depth;
* `OutermostWellFormed`, `IsGroup`, `GroupWellFormed` — an expression whose outermost level can be
  compiled, and the groups of an expression that can;
* `isCompiled_iff` — an expression counts as compiled if its outermost level is;
* `rejects_iff` — which expressions are rejected for their groups.

The constructor of a group does not report to the expression around it.
-/
import Mantids.HttpConnection

namespace Mantids

namespace Expressions

open Occurrence

/-! ## Texts -/

/-- `isalnum` in the `C` locale. -/
def isalnum (c : UInt8) : Bool := isdigit c || (65 ≤ c && c ≤ 90) || (97 ≤ c && c ≤ 122)

/-- `find` does not return `npos`. -/
def Contains (s word : List UInt8) : Prop := ∃ p, first word s = some p

instance (s word : List UInt8) : Decidable (Contains s word) :=
  decidable_of_iff ((first word s).isSome = true) Option.isSome_iff_exists

/-- `boost::replace_first`. -/
def replaceFirst (search replacement s : List UInt8) : List UInt8 :=
  match first search s with
  | none => s
  | some p => s.take p ++ replacement ++ s.drop (p + search.length)

/-! ## Atomic expressions -/

/-- `AtomicExpressionSide::eExpressionSideMode`. -/
inductive SideMode where
  | numeric
  | staticString
  | jsonPath
  | null
  | undefined
deriving DecidableEq

/-- `AtomicExpressionSide`. -/
structure AtomicExpressionSide where
  expr : List UInt8 := []
  mode : SideMode := .undefined
deriving DecidableEq

def AtomicExpressionSide.setExpr (s : AtomicExpressionSide) (value : List UInt8) :
    AtomicExpressionSide :=
  { s with expr := trimBytes value }

/-- `calcMode`, with the mode that it leaves. -/
def AtomicExpressionSide.calcMode (s : AtomicExpressionSide) (staticTexts : List (List UInt8)) :
    Bool × AtomicExpressionSide :=
  if s.expr = [] then (true, { s with mode := .null })
  else if s.expr.head? = some 36 then (true, { s with mode := .jsonPath })
  else if s.expr.all isdigit then (true, { s with mode := .numeric })
  else if bytesOf "_STATIC_" <+: s.expr ∧ strtoull (s.expr.drop 8) < staticTexts.length then
    (true, { s with mode := .staticString })
  else (false, { s with mode := .undefined })

/-- `AtomicExpression::eEvalOperator`. -/
inductive EvalOperator where
  | contains
  | regexMatch
  | isEqual
  | startsWith
  | endsWith
  | isNull
  | undefined
deriving DecidableEq

/-- The name that an operator is called by. -/
def EvalOperator.name : EvalOperator → List UInt8
  | .contains => bytesOf "CONTAINS"
  | .regexMatch => bytesOf "REGEX_MATCH"
  | .isEqual => bytesOf "IS_EQUAL"
  | .startsWith => bytesOf "STARTS_WITH"
  | .endsWith => bytesOf "ENDS_WITH"
  | .isNull => bytesOf "IS_NULL"
  | .undefined => []

/-! ### The regular expressions -/

/-- What `^` and `$` take for the end of a line. -/
def isSeparator (c : UInt8) : Bool := c == 10 || c == 12 || c == 13

/-- `([^c]+)c`: the bytes in front of the first `c`, if there are any, and what follows it. -/
def upTo (c : UInt8) (s : List UInt8) : Option (List UInt8 × List UInt8) :=
  match s.takeWhile (· ≠ c), s.dropWhile (· ≠ c) with
  | [], _ => none
  | _, [] => none
  | group, _ :: rest => some (group, rest)

/-- `\)$` behind the last group. -/
def endsLine (s : List UInt8) : Bool := s = [] ∨ s.head?.any isSeparator

/-- The pattern of an operator at the beginning of a line, with its two groups.  `IS_NULL` has one
group only. -/
def matchLine (op : EvalOperator) (s : List UInt8) : Option (List UInt8 × List UInt8) :=
  if op.name ++ [40] <+: s then
    let args := s.drop (op.name.length + 1)
    if op = .isNull then
      (upTo 41 args).bind (fun (left, rest) => if endsLine rest then some (left, []) else none)
    else
      (upTo 44 args).bind (fun (left, args) =>
        (upTo 41 args).bind (fun (right, rest) =>
          if endsLine rest then some (left, right) else none))
  else none

/-- `boost::regex_search`: the pattern is tried at the beginning of every line. -/
def regexSearch (op : EvalOperator) : Bool → List UInt8 → Option (List UInt8 × List UInt8)
  | _, [] => none
  | startsLine, c :: s =>
    match if startsLine then matchLine op (c :: s) else none with
    | some groups => some groups
    | none => regexSearch op (isSeparator c && !(c == 13 && s.head? == some 10)) s

/-! ### Compilation -/

/-- `AtomicExpression`. -/
structure AtomicExpression where
  expr : List UInt8 := []
  left : AtomicExpressionSide := {}
  right : AtomicExpressionSide := {}
  evalOperator : EvalOperator := .undefined
  negativeExpression : Bool := false
  ignoreCase : Bool := false
deriving DecidableEq

namespace AtomicExpression

/-- `substractExpressions`: only the first match is looked at. -/
def substractExpressions (a : AtomicExpression) (staticTexts : List (List UInt8))
    (op : EvalOperator) : Bool × AtomicExpression :=
  match regexSearch op true a.expr with
  | none => (false, a)
  | some (group1, group2) =>
    let (leftOk, left) := (a.left.setExpr group1).calcMode staticTexts
    let right := a.right.setExpr group2
    if !leftOk then (false, { a with left := left, right := right })
    else
      let (rightOk, right) := right.calcMode staticTexts
      if !rightOk then (false, { a with left := left, right := right })
      else (true, { a with left := left, right := right, evalOperator := op })

/-- The operators, one after the other. -/
def tryOperators (staticTexts : List (List UInt8)) :
    List EvalOperator → AtomicExpression → Bool × AtomicExpression
  | [], a => (false, { a with evalOperator := .undefined, negativeExpression := false })
  | op :: ops, a =>
    match a.substractExpressions staticTexts op with
    | (true, a) => (true, a)
    | (false, a) => tryOperators staticTexts ops a

/-- `compile` of a new atomic expression. -/
def compile (staticTexts : List (List UInt8)) (expr : List UInt8) : Bool × AtomicExpression :=
  let negative := expr.head? == some 33
  let expr := if negative then expr.tail else expr
  let ignoreCase := expr.head? == some 105
  let expr := if ignoreCase then expr.tail else expr
  tryOperators staticTexts [.isEqual, .regexMatch, .contains, .startsWith, .endsWith, .isNull]
    { expr := expr, negativeExpression := negative, ignoreCase := ignoreCase }

end AtomicExpression

/-! ## Taking the groups out -/

/-- The number of opening parentheses. -/
def parens (s : List UInt8) : ℕ := s.count 40

/-- How `detectSubExpr` ends its scan: at the end of the text, at a parenthesis that closes nothing,
or with a group, from its first byte to its last. -/
inductive Detection where
  | finished
  | unbalanced
  | closed (firstByte i : ℕ)
deriving DecidableEq

/-- The loop of `detectSubExpr`. -/
def scan : List UInt8 → ℕ → ℕ → ℕ → Detection
  | [], _, _, _ => .finished
  | c :: s, i, level, firstByte =>
    if c = 40 then scan s (i + 1) (level + 1) (if level = 0 then i else firstByte)
    else if c = 41 then
      match level with
      | 0 => .unbalanced
      | 1 => .closed firstByte i
      | level + 2 => scan s (i + 1) (level + 1) firstByte
    else scan s (i + 1) level firstByte

/-- What a scan reports is a pair of parentheses that it has come to. -/
theorem scan_closed {text s : List UInt8} {i level fb firstByte last : ℕ} (hs : text.drop i = s)
    (hfb : level ≠ 0 → fb < i ∧ text[fb]? = some 40)
    (h : scan s i level fb = .closed firstByte last) :
    i ≤ last ∧ firstByte < last ∧ text[firstByte]? = some 40 ∧ text[last]? = some 41 := by
  induction s generalizing i level fb with
  | nil => cases h
  | cons c s ih =>
      have hc : text[i]? = some c := by
        rw [← Nat.add_zero i, ← List.getElem?_drop, hs]
        rfl
      have hnext : text.drop (i + 1) = s := by
        rw [← List.drop_drop, hs]
        rfl
      unfold scan at h
      split at h
      · rename_i hopen
        subst hopen
        obtain ⟨hle, hrest⟩ := ih hnext (fun _ => by
          split
          · exact ⟨Nat.lt_succ_self i, hc⟩
          · rename_i hlevel
            exact ⟨by have := (hfb hlevel).1; omega, (hfb hlevel).2⟩) h
        exact ⟨by omega, hrest⟩
      · split at h
        · rename_i hclose
          subst hclose
          split at h
          · cases h
          · obtain ⟨rfl, rfl⟩ := Detection.closed.inj h
            exact ⟨le_rfl, (hfb (by simp)).1, (hfb (by simp)).2, hc⟩
          · obtain ⟨hle, hrest⟩ := ih hnext
              (fun _ => ⟨by have := (hfb (by simp)).1; omega, (hfb (by simp)).2⟩) h
            exact ⟨by omega, hrest⟩
        · obtain ⟨hle, hrest⟩ := ih hnext
            (fun hlevel => ⟨by have := (hfb hlevel).1; omega, (hfb hlevel).2⟩) h
          exact ⟨by omega, hrest⟩

/-- The text between two parentheses. -/
def between (text : List UInt8) (firstByte last : ℕ) : List UInt8 :=
  (text.drop (firstByte + 1)).take (last - firstByte - 1)

theorem drop_eq_group {text : List UInt8} {firstByte last : ℕ} (hlt : firstByte < last)
    (hopen : text[firstByte]? = some 40) (hclose : text[last]? = some 41) :
    text.drop firstByte = 40 :: (between text firstByte last ++ 41 :: text.drop (last + 1)) := by
  obtain ⟨hi, hget⟩ := List.getElem?_eq_some_iff.mp hopen
  obtain ⟨hj, hget'⟩ := List.getElem?_eq_some_iff.mp hclose
  have hrest : (text.drop (firstByte + 1)).drop (last - firstByte - 1) =
      41 :: text.drop (last + 1) := by
    rw [List.drop_drop, show firstByte + 1 + (last - firstByte - 1) = last by omega,
      List.drop_eq_getElem_cons hj, hget']
  rw [List.drop_eq_getElem_cons hi, hget, between, ← hrest, List.take_append_drop]

/-- The text of a group: an exclamation mark in front of it belongs to it. -/
def groupText (negative : Bool) (subexpr : List UInt8) : List UInt8 :=
  (if negative then [33] else []) ++ 40 :: (subexpr ++ [41])

theorem parens_groupText (negative : Bool) (subexpr : List UInt8) :
    parens (groupText negative subexpr) = parens subexpr + 1 := by
  rcases negative with _ | _ <;> simp [parens, groupText]

/-- A group that the scan has come to occurs in the text. -/
theorem exists_occursAt_groupText {text : List UInt8} {firstByte last : ℕ} (hlt : firstByte < last)
    (hopen : text[firstByte]? = some 40) (hclose : text[last]? = some 41) {negative : Bool}
    (hnegative : negative = true → 0 < firstByte ∧ text[firstByte - 1]? = some 33) :
    ∃ p, OccursAt (groupText negative (between text firstByte last)) text p := by
  have hgroup := drop_eq_group hlt hopen hclose
  have hsplit : text.drop firstByte =
      40 :: (between text firstByte last ++ [41]) ++ text.drop (last + 1) := by
    rw [hgroup]
    simp
  rcases negative with _ | _
  · refine ⟨firstByte, ?_⟩
    rw [OccursAt, hsplit]
    exact List.prefix_append _ _
  · obtain ⟨hpos, hmark⟩ := hnegative rfl
    obtain ⟨hi, hget⟩ := List.getElem?_eq_some_iff.mp hmark
    refine ⟨firstByte - 1, ?_⟩
    rw [OccursAt, List.drop_eq_getElem_cons hi, hget, Nat.sub_add_cancel hpos, hsplit]
    exact List.prefix_append _ _

theorem parens_le_of_occursAt {word s : List UInt8} {p : ℕ} (h : OccursAt word s p) :
    parens word ≤ parens s :=
  (h.sublist.trans (List.drop_sublist p s)).count_le 40

theorem parens_replaceFirst_lt {search replacement s : List UInt8} (hsearch : 0 < parens search)
    (hreplacement : parens replacement = 0) (hocc : ∃ p, OccursAt search s p) :
    parens (replaceFirst search replacement s) < parens s := by
  have hne : search ≠ [] := by
    rintro rfl
    exact absurd hsearch (by decide)
  unfold replaceFirst
  rcases hfirst : first search s with _ | p
  · obtain ⟨p, hp⟩ := hocc
    exact absurd hp ((first_eq_none_iff hne).mp hfirst p)
  · obtain ⟨rest, hrest⟩ := ((first_eq_some_iff hne).mp hfirst).1
    have hdrop : s.drop (p + search.length) = rest := by
      rw [← List.drop_drop, ← hrest, List.drop_left]
    have hcount : parens s = parens (s.take p) + (parens search + parens rest) := by
      conv_lhs => rw [← List.take_append_drop p s, ← hrest]
      simp only [parens, List.count_append]
    simp only [hdrop, parens, List.count_append] at hcount hreplacement hsearch ⊢
    omega

/-- What stands for a group. -/
def placeholder (pos : ℕ) : List UInt8 := bytesOf "_SUBEXPR_" ++ decimal pos

theorem parens_placeholder (pos : ℕ) : parens (placeholder pos) = 0 := by
  rw [parens, placeholder, List.count_append, show (bytesOf "_SUBEXPR_").count 40 = 0 by decide,
    Nat.zero_add, List.count_eq_zero]
  intro hmem
  exact absurd (le_of_mem_decimal pos 40 hmem) (by decide)

/-- The group that ends a scan stands behind a letter or a digit, so it is the argument list of a
call. -/
def isCall (text : List UInt8) (firstByte : ℕ) : Bool :=
  decide (0 < firstByte) && (text[firstByte - 1]?).any isalnum

/-- The group that ends a scan stands behind an exclamation mark. -/
def isNegative (text : List UInt8) (firstByte : ℕ) : Bool :=
  decide (0 < firstByte) && text[firstByte - 1]? == some 33

/-- The text after a group was taken out of it. -/
def rewritten (expr : List UInt8) (firstByte i pos : ℕ) : List UInt8 :=
  replaceFirst (groupText (isNegative expr firstByte) (between expr firstByte i)) (placeholder pos)
    expr

/-- Both the group and the text around it have fewer parentheses. -/
theorem parens_lt_of_closed {expr : List UInt8} {start firstByte i : ℕ}
    (h : scan (expr.drop start) start 0 0 = .closed firstByte i) (pos : ℕ) :
    parens (between expr firstByte i) < parens expr ∧
      parens (rewritten expr firstByte i pos) < parens expr := by
  obtain ⟨-, hlt, hopen, hclose⟩ := scan_closed rfl (fun hlevel => absurd rfl hlevel) h
  have hocc : ∃ p, OccursAt (groupText (isNegative expr firstByte) (between expr firstByte i))
      expr p :=
    exists_occursAt_groupText hlt hopen hclose (by simp [isNegative])
  refine ⟨?_, ?_⟩
  · obtain ⟨p, hp⟩ := hocc
    have hle := parens_le_of_occursAt hp
    rwa [parens_groupText] at hle
  · exact parens_replaceFirst_lt (by rw [parens_groupText]; omega) (parens_placeholder pos) hocc

section Detect

variable {σ τ : Type*} {n : ℕ}

/-- The calls of `detectSubExpr`, one after the other, until there is no group left; `none` is a
parenthesis that closes nothing.  Each group is made into a subexpression, from its text and whether
it is negated. -/
def detectSubExprs (make : Bool → {t : List UInt8 // parens t < n} → σ) (expr : List UInt8)
    (hn : parens expr ≤ n) (start : ℕ) (subExpressions : List σ) :
    Option (List UInt8) × List σ :=
  match hscan : scan (expr.drop start) start 0 0 with
  | .finished => (some expr, subExpressions)
  | .unbalanced => (none, subExpressions)
  | .closed firstByte i =>
    -- a call stays as it is, and the search goes on behind it
    if isCall expr firstByte then detectSubExprs make expr hn (i + 1) subExpressions
    else
      have hlt := parens_lt_of_closed hscan subExpressions.length
      detectSubExprs make (rewritten expr firstByte i subExpressions.length)
        (hlt.2.le.trans hn) 0
        (subExpressions ++
          [make (isNegative expr firstByte) ⟨between expr firstByte i, hlt.1.trans_le hn⟩])
termination_by (parens expr, expr.length - start)
decreasing_by
  · obtain ⟨hstart, -, -, hclose⟩ := scan_closed rfl (fun hlevel => absurd rfl hlevel) hscan
    obtain ⟨hlast, -⟩ := List.getElem?_eq_some_iff.mp hclose
    exact Prod.Lex.right _ (by omega)
  · exact Prod.Lex.left _ _ hlt.2

variable {make : Bool → {t : List UInt8 // parens t < n} → σ} {expr : List UInt8}
  {hn : parens expr ≤ n} {start firstByte i : ℕ} {subExpressions : List σ}

theorem detectSubExprs_finished (h : scan (expr.drop start) start 0 0 = .finished) :
    detectSubExprs make expr hn start subExpressions = (some expr, subExpressions) := by
  rw [detectSubExprs]
  split
  · rfl
  · rename_i heq
    cases h.symm.trans heq
  · rename_i heq
    cases h.symm.trans heq

theorem detectSubExprs_unbalanced (h : scan (expr.drop start) start 0 0 = .unbalanced) :
    detectSubExprs make expr hn start subExpressions = (none, subExpressions) := by
  rw [detectSubExprs]
  split
  · rename_i heq
    cases h.symm.trans heq
  · rfl
  · rename_i heq
    cases h.symm.trans heq

theorem detectSubExprs_call (h : scan (expr.drop start) start 0 0 = .closed firstByte i)
    (hcall : isCall expr firstByte = true) :
    detectSubExprs make expr hn start subExpressions =
      detectSubExprs make expr hn (i + 1) subExpressions := by
  rw [detectSubExprs]
  split
  · rename_i heq
    cases h.symm.trans heq
  · rename_i heq
    cases h.symm.trans heq
  · rename_i heq
    obtain ⟨rfl, rfl⟩ := Detection.closed.inj (h.symm.trans heq)
    rw [if_pos hcall]

theorem detectSubExprs_group (h : scan (expr.drop start) start 0 0 = .closed firstByte i)
    (hcall : ¬ isCall expr firstByte = true) (hlt : parens (between expr firstByte i) < n)
    (hle : parens (rewritten expr firstByte i subExpressions.length) ≤ n) :
    detectSubExprs make expr hn start subExpressions =
      detectSubExprs make (rewritten expr firstByte i subExpressions.length) hle 0
        (subExpressions ++ [make (isNegative expr firstByte) ⟨between expr firstByte i, hlt⟩]) := by
  rw [detectSubExprs]
  split
  · rename_i heq
    cases h.symm.trans heq
  · rename_i heq
    cases h.symm.trans heq
  · rename_i heq
    obtain ⟨rfl, rfl⟩ := Detection.closed.inj (h.symm.trans heq)
    rw [if_neg hcall]

/-- The text that is left, and the groups, do not depend on what the groups are made into. -/
theorem detectSubExprs_map (f : σ → τ) (make : Bool → {t : List UInt8 // parens t < n} → σ)
    (expr : List UInt8) (hn : parens expr ≤ n) (start : ℕ) (subExpressions : List σ) :
    detectSubExprs (fun negative t => f (make negative t)) expr hn start (subExpressions.map f) =
      ((detectSubExprs make expr hn start subExpressions).1,
        (detectSubExprs make expr hn start subExpressions).2.map f) := by
  fun_induction detectSubExprs make expr hn start subExpressions with
  | case1 expr hn start subExpressions hscan => exact detectSubExprs_finished hscan
  | case2 expr hn start subExpressions hscan => exact detectSubExprs_unbalanced hscan
  | case3 expr hn start subExpressions firstByte i hscan hcall ih =>
      rw [detectSubExprs_call hscan hcall]
      exact ih
  | case4 expr hn start subExpressions firstByte i hscan hcall hlt ih =>
      have hlength : (subExpressions.map f).length = subExpressions.length := List.length_map f
      have hfewer : parens (rewritten expr firstByte i (subExpressions.map f).length) ≤ n := by
        rw [hlength]
        exact hlt.2.le.trans hn
      rw [detectSubExprs_group hscan hcall (hlt.1.trans_le hn) hfewer]
      rw [List.map_append, List.map_singleton] at ih
      simp only [hlength]
      exact ih

end Detect

/-! ## The rest of a compilation -/

/-- The loop that puts the string literals aside.  Each round takes two quotes away. -/
def takeStaticTexts : ℕ → List (List UInt8) → List UInt8 → List (List UInt8) × List UInt8
  | 0, staticTexts, expr => (staticTexts, expr)
  | fuel + 1, staticTexts, expr =>
    match MimeHeaderOption.quoted expr with
    | none => (staticTexts, expr)
    | some text =>
      takeStaticTexts fuel (staticTexts ++ [text])
        (replaceAll ([34] ++ text ++ [34]) (bytesOf "_STATIC_" ++ decimal staticTexts.length) expr)

/-- The string literals of an expression, behind those that were put aside before, and its text with
placeholders for them. -/
def literalsOf (staticTexts : List (List UInt8)) (expr : List UInt8) :
    List (List UInt8) × List UInt8 :=
  takeStaticTexts (trimBytes expr).length staticTexts (trimBytes expr)

/-- The loop that compresses double spaces.  Each round shortens the text. -/
def compressSpaces : ℕ → List UInt8 → List UInt8
  | 0, expr => expr
  | fuel + 1, expr =>
    if Contains expr [32, 32] then compressSpaces fuel (replaceAll [32, 32] [32] expr) else expr

/-- `JSONEval::eEvalMode`. -/
inductive EvalMode where
  | or
  | and
  | undefined
deriving DecidableEq

/-- `JSONEval`. -/
structure JSONEval where
  expression : List UInt8 := []
  lastError : String := ""
  staticTexts : List (List UInt8) := []
  subExpressions : List JSONEval := []
  /-- An atomic expression, or the number of a subexpression. -/
  atomExpressions : List (AtomicExpression ⊕ ℕ) := []
  negativeExpression : Bool := false
  isCompiled : Bool := false
  evaluationMode : EvalMode := .undefined

namespace JSONEval

/-- The loop over the pieces between two operators. -/
def compileAtoms (e : JSONEval) : List (List UInt8) → JSONEval
  | [] => { e with lastError := "", isCompiled := true }
  | atomicExpr :: rest =>
    if bytesOf "_SUBEXPR_" <+: atomicExpr then
      let pos := strtoull (atomicExpr.drop 9)
      if e.subExpressions.length ≤ pos then { e with lastError := "Invalid Sub Expression #" }
      else compileAtoms { e with atomExpressions := e.atomExpressions ++ [.inr pos] } rest
    else
      match AtomicExpression.compile e.staticTexts atomicExpr with
      | (true, a) => compileAtoms { e with atomExpressions := e.atomExpressions ++ [.inl a] } rest
      | (false, _) =>
        { e with lastError := "Invalid Atomic Expression", evaluationMode := .undefined }

/-- The operator of a level, and its text with a newline for each operator. -/
def separate (expr : List UInt8) : EvalMode × List UInt8 :=
  if Contains expr (bytesOf " && ") then (.and, replaceAll (bytesOf " && ") [10] expr)
  else (.or, replaceAll (bytesOf " || ") [10] expr)

/-- The end of `compile`, for a text without groups. -/
def compileLevel (e : JSONEval) (expr : List UInt8) : JSONEval :=
  if Contains expr (bytesOf " && ") ∧ Contains expr (bytesOf " || ") then
    { e with
      evaluationMode := .undefined
      lastError := "Expression with both and/or and no precedence order" }
  else
    let (mode, expr) := separate expr
    let e := { e with evaluationMode := mode }
    if 32 ∈ expr then { e with lastError := "Invalid Operator (only and/or is admitted)" }
    else compileAtoms e (expr.splitOn 10)

end JSONEval

theorem parens_trimBytes_le (s : List UInt8) : parens (trimBytes s) ≤ parens s := by
  unfold parens trimBytes
  rw [List.count_reverse]
  refine ((List.dropWhile_sublist _).count_le 40).trans ?_
  rw [List.count_reverse]
  exact (List.dropWhile_sublist _).count_le 40

theorem parens_replaceAllFrom_le {search replacement : List UInt8}
    (hreplacement : parens replacement = 0) (fuel : ℕ) (s : List UInt8) :
    parens (replaceAllFrom search replacement fuel s) ≤ parens s := by
  induction fuel generalizing s with
  | zero => exact le_rfl
  | succ fuel ih =>
      unfold replaceAllFrom
      rcases hfirst : first search s with _ | p
      · exact le_rfl
      · have hrest := ih (s.drop (p + search.length))
        have hdrop : parens (s.drop (p + search.length)) ≤ parens (s.drop p) := by
          rw [← List.drop_drop]
          exact (List.drop_sublist _ _).count_le 40
        have hcount : parens s = parens (s.take p) + parens (s.drop p) := by
          conv_lhs => rw [← List.take_append_drop p s]
          simp only [parens, List.count_append]
        simp only [parens, List.count_append] at *
        omega

theorem parens_takeStaticTexts_le (fuel : ℕ) (staticTexts : List (List UInt8)) (expr : List UInt8) :
    parens (takeStaticTexts fuel staticTexts expr).2 ≤ parens expr := by
  induction fuel generalizing staticTexts expr with
  | zero => exact le_rfl
  | succ fuel ih =>
      unfold takeStaticTexts
      rcases MimeHeaderOption.quoted expr with _ | text
      · exact le_rfl
      · refine (ih _ _).trans (parens_replaceAllFrom_le ?_ _ _)
        rw [parens, List.count_append, show (bytesOf "_STATIC_").count 40 = 0 by decide,
          Nat.zero_add, List.count_eq_zero]
        intro hmem
        exact absurd (le_of_mem_decimal _ 40 hmem) (by decide)

theorem parens_compressSpaces_le (fuel : ℕ) (expr : List UInt8) :
    parens (compressSpaces fuel expr) ≤ parens expr := by
  induction fuel generalizing expr with
  | zero => exact le_rfl
  | succ fuel ih =>
      unfold compressSpaces
      split
      · exact (ih _).trans (parens_replaceAllFrom_le (by decide) _ _)
      · exact le_rfl

namespace JSONEval

/-- The constructor: `compile` of an expression, over the string literals that were put aside
before. -/
def construct (staticTexts : List (List UInt8)) (negativeExpression : Bool) (expr : List UInt8) :
    JSONEval :=
  let statics := literalsOf staticTexts expr
  let e : JSONEval :=
    { expression := trimBytes expr
      staticTexts := statics.1
      negativeExpression := negativeExpression }
  if 34 ∈ statics.2 then { e with lastError := "bad quoting in text" }
  else if 10 ∈ statics.2 then { e with lastError := "Mutiline expression not supported" }
  else if Contains statics.2 (bytesOf "_SUBEXPR_") then
    { e with lastError := "Invalid keyword _SUBEXPR_" }
  else
    let text := compressSpaces statics.2.length statics.2
    match detectSubExprs (n := parens text)
      (fun negative subexpr => construct statics.1 negative subexpr.1) text le_rfl 0 [] with
    | (none, subExpressions) =>
      { e with subExpressions := subExpressions, lastError := "bad parenthesis balancing" }
    | (some level, subExpressions) =>
      compileLevel { e with subExpressions := subExpressions } level
termination_by parens expr
decreasing_by
  calc parens subexpr.1 < parens text := subexpr.2
    _ ≤ parens statics.2 := parens_compressSpaces_le _ _
    _ ≤ parens (trimBytes expr) := parens_takeStaticTexts_le _ _ _
    _ ≤ parens expr := parens_trimBytes_le expr

/-- `JSONEval(expr)`. -/
def ofExpr (expr : List UInt8) : JSONEval := construct [] false expr

end JSONEval

/-! ## Well-formed expressions -/

/-- The text that is left when the groups are taken out, and the groups: whether they are negated,
and their texts. -/
def takeGroups (text : List UInt8) : Option (List UInt8) × List (Bool × List UInt8) :=
  detectSubExprs (n := parens text) (fun negative subexpr => (negative, subexpr.1)) text le_rfl 0 []

/-- A piece between two operators stands for a group, or is an atomic expression. -/
def AtomWellFormed (staticTexts : List (List UInt8)) (groups : ℕ) (atomicExpr : List UInt8) :
    Prop :=
  if bytesOf "_SUBEXPR_" <+: atomicExpr then strtoull (atomicExpr.drop 9) < groups
  else (AtomicExpression.compile staticTexts atomicExpr).1 = true

instance (staticTexts : List (List UInt8)) (groups : ℕ) (atomicExpr : List UInt8) :
    Decidable (AtomWellFormed staticTexts groups atomicExpr) :=
  inferInstanceAs (Decidable (if bytesOf "_SUBEXPR_" <+: atomicExpr then
    strtoull (atomicExpr.drop 9) < groups
  else (AtomicExpression.compile staticTexts atomicExpr).1 = true))

/-- A level has one operator, no other one, and well-formed pieces. -/
structure LevelWellFormed (staticTexts : List (List UInt8)) (groups : ℕ) (level : List UInt8) :
    Prop where
  oneOperator : ¬ (Contains level (bytesOf " && ") ∧ Contains level (bytesOf " || "))
  noOtherOperator : 32 ∉ (JSONEval.separate level).2
  atoms : ∀ a ∈ (JSONEval.separate level).2.splitOn 10, AtomWellFormed staticTexts groups a

/-- The level that is left of a text, in the place of whose groups there are placeholders, is
well-formed. -/
def TextWellFormed (staticTexts : List (List UInt8)) (text : List UInt8) : Prop :=
  ∃ level ∈ (takeGroups (compressSpaces text.length text)).1,
    LevelWellFormed staticTexts (takeGroups (compressSpaces text.length text)).2.length level

/-- The outermost level of an expression is well-formed. -/
structure OutermostWellFormed (staticTexts : List (List UInt8)) (expr : List UInt8) : Prop where
  quoting : 34 ∉ (literalsOf staticTexts expr).2
  oneLine : 10 ∉ (literalsOf staticTexts expr).2
  noKeyword : ¬ Contains (literalsOf staticTexts expr).2 (bytesOf "_SUBEXPR_")
  level : TextWellFormed (literalsOf staticTexts expr).1 (literalsOf staticTexts expr).2

namespace JSONEval

theorem isCompiled_compileAtoms_iff (atoms : List (List UInt8)) {e : JSONEval}
    (he : e.isCompiled = false) :
    (compileAtoms e atoms).isCompiled = true ↔
      ∀ a ∈ atoms, AtomWellFormed e.staticTexts e.subExpressions.length a := by
  induction atoms generalizing e with
  | nil => simp [compileAtoms]
  | cons a atoms ih =>
      rw [List.forall_mem_cons]
      unfold compileAtoms AtomWellFormed
      by_cases hprefix : bytesOf "_SUBEXPR_" <+: a
      · rw [if_pos hprefix, if_pos hprefix]
        dsimp only
        by_cases hle : e.subExpressions.length ≤ strtoull (a.drop 9)
        · rw [if_pos hle]
          refine iff_of_false ?_ (fun h => absurd h.1 (Nat.not_lt.mpr hle))
          simp [he]
        · rw [if_neg hle, and_iff_right (Nat.lt_of_not_le hle)]
          exact ih he
      · rw [if_neg hprefix, if_neg hprefix]
        rcases hcompile : AtomicExpression.compile e.staticTexts a with ⟨_ | _, atom⟩
        · refine iff_of_false ?_ (fun h => Bool.false_ne_true h.1)
          simp [he]
        · rw [and_iff_right rfl]
          exact ih he

theorem isCompiled_compileLevel_iff (level : List UInt8) {e : JSONEval}
    (he : e.isCompiled = false) :
    (compileLevel e level).isCompiled = true ↔
      LevelWellFormed e.staticTexts e.subExpressions.length level := by
  unfold compileLevel
  by_cases hboth : Contains level (bytesOf " && ") ∧ Contains level (bytesOf " || ")
  · rw [if_pos hboth]
    exact iff_of_false (by simp [he]) (fun h => h.oneOperator hboth)
  · rw [if_neg hboth]
    dsimp only
    by_cases hspace : 32 ∈ (separate level).2
    · rw [if_pos hspace]
      exact iff_of_false (by simp [he]) (fun h => h.noOtherOperator hspace)
    · rw [if_neg hspace]
      refine Iff.trans (isCompiled_compileAtoms_iff _ he) ?_
      exact ⟨fun h => ⟨hboth, hspace, h⟩, fun h => h.atoms⟩

/-- The groups are compiled, each on its own; what is left of the text is that of `takeGroups`. -/
theorem detectSubExprs_construct (staticTexts : List (List UInt8)) (text : List UInt8) :
    detectSubExprs (n := parens text)
        (fun negative subexpr => construct staticTexts negative subexpr.1) text le_rfl 0 [] =
      ((takeGroups text).1, (takeGroups text).2.map (fun g => construct staticTexts g.1 g.2)) :=
  detectSubExprs_map (fun g : Bool × List UInt8 => construct staticTexts g.1 g.2)
    (fun negative subexpr => (negative, subexpr.1)) text le_rfl 0 []

/-- **What counts as compiled.**  An expression does if its outermost level is well-formed, whatever
its groups are like. -/
theorem isCompiled_iff (staticTexts : List (List UInt8)) (negativeExpression : Bool)
    (expr : List UInt8) :
    (construct staticTexts negativeExpression expr).isCompiled = true ↔
      OutermostWellFormed staticTexts expr := by
  rw [construct]
  dsimp only
  split
  · rename_i hquote
    exact iff_of_false Bool.false_ne_true (fun h => h.quoting hquote)
  · rename_i hquote
    split
    · rename_i hline
      exact iff_of_false Bool.false_ne_true (fun h => h.oneLine hline)
    · rename_i hline
      split
      · rename_i hkeyword
        exact iff_of_false Bool.false_ne_true (fun h => h.noKeyword hkeyword)
      · rename_i hkeyword
        have houter : OutermostWellFormed staticTexts expr ↔
            TextWellFormed (literalsOf staticTexts expr).1 (literalsOf staticTexts expr).2 :=
          ⟨fun h => h.level, fun h => ⟨hquote, hline, hkeyword, h⟩⟩
        rw [houter, TextWellFormed, detectSubExprs_construct]
        rcases hgroups : takeGroups (compressSpaces (literalsOf staticTexts expr).2.length
          (literalsOf staticTexts expr).2) with ⟨_ | level, groups⟩
        · -- a parenthesis closes nothing
          refine iff_of_false Bool.false_ne_true ?_
          rintro ⟨level, hlevel, -⟩
          cases hlevel
        · dsimp only
          rw [isCompiled_compileLevel_iff level rfl, List.length_map]
          constructor
          · intro h
            exact ⟨level, rfl, h⟩
          · rintro ⟨_, ⟨⟩, h⟩
            exact h

end JSONEval

/-! ## Groups -/

/-- Every parenthesis is closed. -/
inductive Balanced : List UInt8 → Prop
  | nil : Balanced []
  | byte {c : UInt8} {s : List UInt8} : c ≠ 40 → c ≠ 41 → Balanced s → Balanced (c :: s)
  | group {s t : List UInt8} : Balanced s → Balanced t → Balanced (40 :: (s ++ 41 :: t))

/-- The text with quotes in the place of its string literals. -/
def blankLiterals : Bool → List UInt8 → List UInt8
  | _, [] => []
  | inside, c :: s =>
    if c = 34 then 34 :: blankLiterals (!inside) s
    else (if inside then 34 else c) :: blankLiterals inside s

/-- A group of an expression, at any depth: what is between two parentheses that belong together,
outside string literals, where the first one is not behind a letter or a digit. -/
structure IsGroup (expr body : List UInt8) : Prop where
  inside : ∃ before after, expr = before ++ 40 :: (body ++ 41 :: after) ∧
    Even (before.count 34) ∧ ∀ c ∈ before.getLast?, isalnum c = false
  literals : Even (body.count 34)
  balanced : Balanced (blankLiterals false body)

/-- A text with the placeholders of some string literals. -/
def withoutLiterals (staticTexts : List (List UInt8)) (text : List UInt8) : List UInt8 :=
  staticTexts.zipIdx.foldl (fun text literal =>
    replaceAll ([34] ++ literal.1 ++ [34]) (bytesOf "_STATIC_" ++ decimal literal.2) text) text

/-- A group is well-formed at its own level. -/
def GroupWellFormed (staticTexts : List (List UInt8)) (body : List UInt8) : Prop :=
  TextWellFormed staticTexts (trimBytes (withoutLiterals staticTexts body))

/-- An expression with an ill-formed group does not count as compiled. -/
def RejectsIllFormed (expr : List UInt8) : Prop :=
  (∃ body, IsGroup expr body ∧ ¬ GroupWellFormed (literalsOf [] expr).1 body) →
    (JSONEval.ofExpr expr).isCompiled = false

/-- **Ill-formed groups are rejected** if there are none, or if the level around them is ill-formed
as well. -/
theorem rejects_iff (expr : List UInt8) :
    RejectsIllFormed expr ↔
      (∀ body, IsGroup expr body → GroupWellFormed (literalsOf [] expr).1 body) ∨
        ¬ OutermostWellFormed [] expr := by
  rw [RejectsIllFormed, ← Bool.not_eq_true, JSONEval.ofExpr, JSONEval.isCompiled_iff]
  constructor
  · intro h
    by_cases hgroup : ∃ body, IsGroup expr body ∧ ¬ GroupWellFormed (literalsOf [] expr).1 body
    · exact Or.inr (h hgroup)
    · left
      intro body hbody
      by_contra hill
      exact hgroup ⟨body, hbody, hill⟩
  · rintro (hall | houter) ⟨body, hbody, hill⟩
    · exact absurd (hall body hbody) hill
    · exact houter

theorem takeGroups_of_finished {text : List UInt8} (h : scan text 0 0 0 = .finished) :
    takeGroups text = (some text, []) :=
  detectSubExprs_finished h

/-- The group of `(x)` is no expression, and yet the whole is compiled. -/
theorem ill_formed_group_accepted : ¬ RejectsIllFormed (bytesOf "(x)") := by
  have htext : bytesOf "(x)" = [40, 120, 41] := by decide +kernel
  have hgroup : takeGroups [40, 120, 41] = (some (bytesOf "_SUBEXPR_0"), [(false, [120])]) := by
    have hscan : scan (List.drop 0 [40, 120, 41]) 0 0 0 = .closed 0 2 := by decide +kernel
    rw [takeGroups, detectSubExprs_group hscan (by decide +kernel) (by decide +kernel)
      (by decide +kernel)]
    exact detectSubExprs_finished (by decide +kernel)
  have hcompressed : compressSpaces (literalsOf [] [40, 120, 41]).2.length
      (literalsOf [] [40, 120, 41]).2 = [40, 120, 41] := by decide +kernel
  have hbody : compressSpaces
      (trimBytes (withoutLiterals (literalsOf [] [40, 120, 41]).1 [120])).length
      (trimBytes (withoutLiterals (literalsOf [] [40, 120, 41]).1 [120])) = [120] := by
    decide +kernel
  rw [htext]
  intro h
  have hrejected := h ⟨[120], ⟨⟨[], [], rfl, by decide +kernel, by simp⟩, by decide +kernel,
    Balanced.byte (by decide +kernel) (by decide +kernel) Balanced.nil⟩, ?_⟩
  · rw [← Bool.not_eq_true, JSONEval.ofExpr, JSONEval.isCompiled_iff] at hrejected
    apply hrejected
    -- the outermost level is the placeholder alone
    refine ⟨by decide +kernel, by decide +kernel, by decide +kernel, bytesOf "_SUBEXPR_0", ?_, ?_⟩
    · rw [hcompressed, hgroup]
      rfl
    · rw [hcompressed, hgroup]
      exact ⟨by decide +kernel, by decide +kernel, by decide +kernel⟩
  · -- the group is no atomic expression
    rintro ⟨level, hlevel, hwell⟩
    rw [hbody, takeGroups_of_finished (by decide +kernel)] at hlevel hwell
    obtain rfl := Option.some.inj hlevel
    have hatom := hwell.atoms [120] (by decide +kernel)
    rw [AtomWellFormed, if_neg (by decide +kernel)] at hatom
    exact absurd hatom (by decide +kernel)

end Expressions

end Mantids
