/-
# The parameters of a PostgreSQL query

`Query_PostgreSQL::postBindInputVars` (`DB_PostgreSQL/query_pgsql.cpp`) puts `$0`, `$1` and so on in
place of the parameter names and makes the array of their values.  `BINARY::getValue` locks the
mutex of the variable, nobody unlocks it, and a second value from the same object waits for it.

* `InputVar`, `bindParam` — a variable, and its entry in the array;
* `postBindInputVars` — the function of the source;
* `placeholders` — the numbers that PostgreSQL reads in a query;
* `refers` — the number that is read in place of a name, from the query alone;
* `rightly_iff` — when every placeholder refers to the value of its name.
-/
import Mantids.NamedParameters
import Mantids.PgsqlRows
import Mantids.Texts

namespace Mantids

namespace QueryPostgreSQL

open Occurrence LeftmostLongest NamedParameters

/-! ## The values -/

/-- A variable that is bound to a name. -/
structure InputVar where
  varType : VarType
  /-- What `toString` gives. -/
  text : List UInt8 := []
  /-- The bytes in a `BINARY`, or at the pointer of a `VARCHAR` or a `PTR`. -/
  bytes : List UInt8 := []
  /-- `getVarSize` of a `VARCHAR`. -/
  varSize : ℕ := 0
  /-- Which object it is. -/
  object : ℕ := 0
deriving DecidableEq

/-- An entry of `m_paramValues`, `m_paramLengths` and `m_paramFormats`. -/
structure Param where
  value : Option (List UInt8)
  length : ℤ
  format : ℕ := 0
deriving DecidableEq

/-- A `size_t` in an `int`. -/
def asInt (n : ℕ) : ℤ := (n : ℤ).bmod (2 ^ 32)

/-- A text up to its NUL. -/
def cString (bytes : List UInt8) : List UInt8 := bytes.takeWhile (· ≠ 0)

/-- The `switch` of `postBindInputVars`. -/
def paramOf (v : InputVar) : Param :=
  match v.varType with
  | .bin => ⟨some v.bytes, asInt v.bytes.length, 1⟩
  | .varchar => ⟨some (cString v.bytes), asInt (min (cString v.bytes).length v.varSize), 0⟩
  | .ptr => ⟨some (cString v.bytes), asInt (min (cString v.bytes).length (0xFFFFFFFF / 2 - 1)), 0⟩
  | .null => ⟨none, 0, 0⟩
  | _ => ⟨some v.text, asInt v.text.length, 0⟩

/-- A turn of the loop over the names, with the objects whose mutex is held, which are more
afterwards; `none` if `BINARY::getValue` waits for the mutex that it locked before. -/
def bindParam (held : List ℕ) (v : InputVar) : Option (Param × List ℕ) :=
  if v.varType = .bin then
    -- The mutex is not unlocked again.
    if v.object ∈ held then none else some (paramOf v, v.object :: held)
  else some (paramOf v, held)

/-- `m_inputVars[key]`. -/
def lookup (inputVars : List (List UInt8 × InputVar)) (key : List UInt8) : Option InputVar :=
  (inputVars.find? fun entry => entry.1 = key).map Prod.snd

/-- The loop over `m_keysByPos`. -/
def bindParams (inputVars : List (List UInt8 × InputVar)) :
    List ℕ → List (List UInt8) → Option (List Param)
  | _, [] => some []
  | held, key :: keysByPos =>
    match (lookup inputVars key).bind (bindParam held) with
    | none => none
    | some (param, held) => (bindParams inputVars held keysByPos).map (param :: ·)

/-! ## The function -/

/-- What `postBindInputVars` leaves. -/
structure Bound where
  query : List UInt8
  keysByPos : List (List UInt8)
  paramCount : ℕ
  params : List Param

/-- `postBindInputVars()`, on a query that nothing is bound to yet; `none` if so many turns of the
first loop do not suffice, and `some none` if an exception is thrown or the mutex of a `BINARY` is
locked a second time. -/
def postBindInputVars (fuel : ℕ) (held : List ℕ) (inputVars : List (List UInt8 × InputVar))
    (query : List UInt8) : Option (Option Bound) :=
  match replaceKeys (fun paramCount => 36 :: decimal paramCount) fuel 0
      ⟨query, inputVars.map Prod.fst, []⟩ with
  | none => none
  | some (paramCount, w) =>
    if paramCount ≠ w.keysByPos.length then some none
    else
      some ((bindParams inputVars held w.keysByPos).map fun params =>
        ⟨w.query, w.keysByPos, paramCount, params⟩)

/-! ## What PostgreSQL reads -/

/-- The number that some digits stand for. -/
def numberOf (digits : List UInt8) : ℕ := digits.foldl (fun v c => v * 10 + (c.toNat - 48)) 0

/-- The numbers of the placeholders: a `$` and all the digits behind it. -/
def placeholders : List UInt8 → List ℕ
  | [] => []
  | c :: text =>
    if c = 36 ∧ text.takeWhile isdigit ≠ [] then
      numberOf (text.takeWhile isdigit) :: placeholders text
    else placeholders text

variable (inputVars : List (List UInt8 × InputVar)) (ps : List (List UInt8 × List UInt8))
  (r : List UInt8)

/-- For a query that is cut at its parameter names: placeholders stand in place of the names, and
each has the number, counted from 1, of an entry with the same name and its value. -/
structure Rightly (b : Bound) : Prop where
  stands : ∃ digits : ℕ → List UInt8, b.query = render (fun k => 36 :: digits k) 0 ps ++ r
  refersTo : ∀ k n : ℕ, (placeholders b.query)[k]? = some n → 1 ≤ n ∧ n ≤ b.paramCount ∧
    ∃ (name : List UInt8) (v : InputVar), (ps.map Prod.snd)[k]? = some name ∧
      b.keysByPos[n - 1]? = some name ∧
      lookup inputVars name = some v ∧ b.params[n - 1]? = some (paramOf v)

/-- The call ends with placeholders that refer to the right values. -/
def BoundRightly (held : List ℕ) (query : List UInt8) : Prop :=
  ∃ b, (∀ fuel, query.length < fuel → postBindInputVars fuel held inputVars query = some (some b)) ∧
    Rightly inputVars ps r b

/-- The number that is read in place of the name `k`, counted from 0: its own number with the digits
behind it that the name has in the query. -/
def refers (k : ℕ) : ℕ := numberOf (decimal k ++ (whole (ps.drop (k + 1)) ++ r).takeWhile isdigit)

/-- The `BINARY` objects in place of the names. -/
def binaries (names : List (List UInt8)) : List ℕ :=
  names.filterMap fun name => (lookup inputVars name).bind fun v =>
    if v.varType = .bin then some v.object else none

/-- No mutex of a `BINARY` is locked twice. -/
def Lockable (held : List ℕ) (names : List (List UInt8)) : Prop :=
  (binaries inputVars names).Nodup ∧ ∀ o ∈ binaries inputVars names, o ∉ held

/-! ## The array of the values -/

variable {inputVars}

theorem lockable_cons_bin {held : List ℕ} {name : List UInt8} {names : List (List UInt8)}
    {v : InputVar} (hv : lookup inputVars name = some v) (hbin : v.varType = .bin) :
    Lockable inputVars held (name :: names) ↔
      v.object ∉ held ∧ Lockable inputVars (v.object :: held) names := by
  have hcons : binaries inputVars (name :: names) = v.object :: binaries inputVars names := by
    rw [binaries, List.filterMap_cons_some (b := v.object)]
    · rfl
    · rw [hv, Option.bind_some, if_pos hbin]
  rw [Lockable, Lockable, hcons, List.nodup_cons]
  constructor
  · rintro ⟨⟨hnew, hnodup⟩, hfree⟩
    refine ⟨hfree _ List.mem_cons_self, hnodup, fun o ho hin => ?_⟩
    rcases List.mem_cons.mp hin with rfl | hheld
    · exact hnew ho
    · exact hfree o (List.mem_cons_of_mem _ ho) hheld
  · rintro ⟨hobject, hnodup, hfree⟩
    refine ⟨⟨fun ho => hfree _ ho List.mem_cons_self, hnodup⟩, fun o ho hheld => ?_⟩
    rcases List.mem_cons.mp ho with rfl | hrest
    · exact hobject hheld
    · exact hfree o hrest (List.mem_cons_of_mem _ hheld)

theorem lockable_cons_other {held : List ℕ} {name : List UInt8} {names : List (List UInt8)}
    {v : InputVar} (hv : lookup inputVars name = some v) (hother : v.varType ≠ .bin) :
    Lockable inputVars held (name :: names) ↔ Lockable inputVars held names := by
  have hcons : binaries inputVars (name :: names) = binaries inputVars names := by
    rw [binaries, List.filterMap_cons_none]
    · rfl
    · rw [hv, Option.bind_some, if_neg hother]
  rw [Lockable, Lockable, hcons]

/-- The variable of a name. -/
def varOf (inputVars : List (List UInt8 × InputVar)) (name : List UInt8) : InputVar :=
  (lookup inputVars name).getD { varType := .null }

/-- The array has the value of every name if the mutexes can be locked, and there is none if not. -/
theorem bindParams_spec (names : List (List UInt8)) (held : List ℕ)
    (hin : ∀ name ∈ names, ∃ v, lookup inputVars name = some v) :
    (Lockable inputVars held names ∧ bindParams inputVars held names
        = some (names.map fun name => paramOf (varOf inputVars name))) ∨
      (¬ Lockable inputVars held names ∧ bindParams inputVars held names = none) := by
  induction names generalizing held with
  | nil => exact .inl ⟨⟨List.nodup_nil, fun o ho => absurd ho List.not_mem_nil⟩, rfl⟩
  | cons name names ih =>
    obtain ⟨v, hv⟩ := hin name List.mem_cons_self
    have hrest : ∀ name ∈ names, ∃ v, lookup inputVars name = some v :=
      fun name hname => hin name (List.mem_cons_of_mem _ hname)
    have hvar : varOf inputVars name = v := by
      rw [varOf, hv]
      rfl
    rw [bindParams, hv, Option.bind_some, bindParam, List.map_cons, hvar]
    by_cases hbin : v.varType = .bin
    · rw [lockable_cons_bin hv hbin, if_pos hbin]
      by_cases hheld : v.object ∈ held
      · rw [if_pos hheld]
        exact .inr ⟨fun hlock => hlock.1 hheld, rfl⟩
      · -- The mutex stays locked for the names behind this one.
        rw [if_neg hheld]
        dsimp only
        rcases ih (v.object :: held) hrest with ⟨hlock, hparams⟩ | ⟨hlock, hparams⟩
        · rw [hparams]
          exact .inl ⟨⟨hheld, hlock⟩, rfl⟩
        · rw [hparams]
          exact .inr ⟨fun hboth => hlock hboth.2, rfl⟩
    · rw [lockable_cons_other hv hbin, if_neg hbin]
      dsimp only
      rcases ih held hrest with ⟨hlock, hparams⟩ | ⟨hlock, hparams⟩
      · rw [hparams]
        exact .inl ⟨hlock, rfl⟩
      · rw [hparams]
        exact .inr ⟨hlock, rfl⟩

theorem bindParams_of_lockable {names : List (List UInt8)} {held : List ℕ}
    (hin : ∀ name ∈ names, ∃ v, lookup inputVars name = some v)
    (hlock : Lockable inputVars held names) :
    bindParams inputVars held names
      = some (names.map fun name => paramOf (varOf inputVars name)) :=
  ((bindParams_spec names held hin).resolve_right fun hnot => hnot.1 hlock).2

theorem bindParams_of_not_lockable {names : List (List UInt8)} {held : List ℕ}
    (hin : ∀ name ∈ names, ∃ v, lookup inputVars name = some v)
    (hlock : ¬ Lockable inputVars held names) : bindParams inputVars held names = none :=
  ((bindParams_spec names held hin).resolve_left fun hyes => hlock hyes.1).2

/-! ## The numbers in the query -/

theorem placeholders_append {a : List UInt8} (ha : 36 ∉ a) (text : List UInt8) :
    placeholders (a ++ text) = placeholders text := by
  induction a with
  | nil => rfl
  | cons c a ih =>
    have hc : c ≠ 36 := fun heq => ha (heq ▸ List.mem_cons_self)
    rw [List.cons_append, placeholders, if_neg fun h => hc h.1]
    exact ih fun hin => ha (List.mem_cons_of_mem _ hin)

/-- The digits behind a place are those of the query. -/
theorem takeWhile_render {mark : ℕ → List UInt8}
    (hmark : ∀ k t, (mark k ++ t).takeWhile isdigit = [])
    (hnames : ∀ piece ∈ ps, ∀ t, (piece.2 ++ t).takeWhile isdigit = []) (turn : ℕ) :
    (render mark turn ps ++ r).takeWhile isdigit = (whole ps ++ r).takeWhile isdigit := by
  cases ps with
  | nil => rfl
  | cons piece ps =>
    obtain ⟨a, d⟩ := piece
    have hfront : ∀ t, t.takeWhile isdigit = [] →
        (a ++ t).takeWhile isdigit = a.takeWhile isdigit := by
      intro t ht
      rw [List.takeWhile_append, ht, List.append_nil]
      split_ifs with hall
      · exact ((List.takeWhile_prefix isdigit).eq_of_length hall).symm
      · rfl
    rw [render, whole_cons, List.append_assoc, List.append_assoc, List.append_assoc,
      List.append_assoc, hfront _ (hmark turn _), hfront _ (hnames (a, d) List.mem_cons_self _)]

theorem dollar_not_mem_of_digits {digits : List UInt8} (h : ∀ c ∈ digits, isdigit c = true) :
    36 ∉ digits := fun hin => absurd (h 36 hin) (by decide)

/-- **What is read.**  In place of every name PostgreSQL reads its number and the digits behind it.
-/
theorem placeholders_render (hps : ∀ piece ∈ ps, 36 ∉ piece.1)
    (hnames : ∀ piece ∈ ps, ∀ t, (piece.2 ++ t).takeWhile isdigit = []) (hr : 36 ∉ r) (turn : ℕ) :
    placeholders (render (fun k => 36 :: decimal k) turn ps ++ r) =
      (List.range ps.length).map fun k =>
        numberOf (decimal (turn + k) ++ (whole (ps.drop (k + 1)) ++ r).takeWhile isdigit) := by
  induction ps generalizing turn with
  | nil =>
    have hrest := placeholders_append hr []
    rw [List.append_nil] at hrest
    exact hrest
  | cons piece ps ih =>
    have hpieces : ∀ piece ∈ ps, 36 ∉ piece.1 :=
      fun piece hpiece => hps piece (List.mem_cons_of_mem _ hpiece)
    have hnames' : ∀ piece ∈ ps, ∀ t, (piece.2 ++ t).takeWhile isdigit = [] :=
      fun piece hpiece => hnames piece (List.mem_cons_of_mem _ hpiece)
    set rest := render (fun k => 36 :: decimal k) (turn + 1) ps ++ r with hrest
    have hdigits : (decimal turn ++ rest).takeWhile isdigit
        = decimal turn ++ (whole ps ++ r).takeWhile isdigit := by
      rw [List.takeWhile_append_of_pos (isdigit_of_mem_decimal turn), hrest,
        takeWhile_render ps r (fun k t => rfl) hnames']
    have hsome : (decimal turn ++ rest).takeWhile isdigit ≠ [] := by
      rw [hdigits]
      exact List.append_ne_nil_of_left_ne_nil (decimal_ne_nil turn) _
    have hmark : render (fun k => 36 :: decimal k) turn (piece :: ps) ++ r
        = piece.1 ++ 36 :: (decimal turn ++ rest) := by
      rw [render, List.append_assoc, List.append_assoc]
      rfl
    rw [hmark, placeholders_append (hps piece List.mem_cons_self), placeholders,
      if_pos ⟨rfl, hsome⟩,
      hdigits, placeholders_append (dollar_not_mem_of_digits (isdigit_of_mem_decimal turn)),
      ih hpieces hnames', List.length_cons, List.range_succ_eq_map, List.map_cons, List.map_map]
    congr 1
    apply List.map_congr_left
    intro k _
    simp only [Function.comp, List.drop_succ_cons, Nat.succ_eq_add_one, Nat.add_assoc,
      Nat.add_comm 1]

/-! ## The rewriting -/

theorem lookup_of_mem {name : List UInt8} (h : name ∈ inputVars.map Prod.fst) :
    ∃ v, lookup inputVars name = some v := by
  obtain ⟨entry, hentry, hname⟩ := List.mem_map.mp h
  cases hfind : inputVars.find? (fun entry => entry.1 = name) with
  | none => exact absurd (decide_eq_true hname) (List.find?_eq_none.mp hfind entry hentry)
  | some found => exact ⟨found.2, by rw [lookup, hfind]; rfl⟩

/-- Names as the callers write them: with a colon in front, and without `$` and digits. -/
def Named (inputVars : List (List UInt8 × InputVar)) : Prop :=
  ∀ name ∈ inputVars.map Prod.fst,
    name.head? = some 58 ∧ 36 ∉ name ∧ ∀ c ∈ name, isdigit c = false

variable {ps r}

/-- The query behind the first loop, and the names. -/
theorem postBindInputVars_eq (hsorted : (inputVars.map Prod.fst).Pairwise (· < ·))
    (hnamed : Named inputVars) {query : List UInt8}
    (hcut : Splits (next (inputVars.map Prod.fst)) query ps r) (held : List ℕ) {fuel : ℕ}
    (hfuel : query.length < fuel) :
    postBindInputVars fuel held inputVars query =
      some ((bindParams inputVars held (ps.map Prod.snd)).map fun params =>
        ⟨render (fun k => 36 :: decimal k) 0 ps ++ r, ps.map Prod.snd, ps.length, params⟩) := by
  have hne : ∀ e ∈ inputVars.map Prod.fst, e ≠ [] := by
    rintro e he rfl
    cases (hnamed [] he).1
  have hmark : ∀ k, (36 : UInt8) :: decimal k ≠ [] := fun k => List.cons_ne_nil _ _
  have hother : ∀ k, ∀ e ∈ inputVars.map Prod.fst, ∀ c ∈ (36 : UInt8) :: decimal k, c ∉ e := by
    intro k e he c hc hin
    rcases List.mem_cons.mp hc with rfl | hdigit
    · exact (hnamed e he).2.1 hin
    · have hnot := (hnamed e he).2.2 c hin
      rw [isdigit_of_mem_decimal k c hdigit] at hnot
      cases hnot
  obtain ⟨keysIn, hloop⟩ := replaceKeys_spec hsorted hne hmark hother hcut
  unfold postBindInputVars
  rw [hloop fuel hfuel]
  dsimp only
  rw [if_neg (not_not.mpr (List.length_map _).symm)]

theorem placeholders_of_splits (hnamed : Named inputVars) {query : List UInt8} (hquery : 36 ∉ query)
    (hcut : Splits (next (inputVars.map Prod.fst)) query ps r) :
    placeholders (render (fun k => 36 :: decimal k) 0 ps ++ r)
      = (List.range ps.length).map (refers ps r) := by
  obtain ⟨hpieces, hrest⟩ := not_mem_of_splits hcut hquery
  have hnames : ∀ piece ∈ ps, ∀ t, (piece.2 ++ t).takeWhile isdigit = [] := by
    intro piece hpiece t
    obtain ⟨hhead, -, -⟩ := hnamed piece.2 (mem_of_splits hcut piece hpiece)
    obtain ⟨d, hd⟩ := List.head?_eq_some_iff.mp hhead
    rw [hd]
    rfl
  rw [placeholders_render ps r hpieces hnames hrest]
  apply List.map_congr_left
  intro k _
  rw [Nat.zero_add]
  rfl

/-! ## When the values are right -/

/-- Every name in the query, say the one with the number `k` from 0, is the name with the number `n`
from 1, where `n` is read in its place. -/
def Numbered (ps : List (List UInt8 × List UInt8)) (r : List UInt8) : Prop :=
  ∀ k < ps.length, 1 ≤ refers ps r k ∧
    (ps.map Prod.snd)[refers ps r k - 1]? = (ps.map Prod.snd)[k]?

/-- **The placeholders of PostgreSQL.**  They refer to the right values exactly if no mutex is
locked twice and every name is the one whose number is read in its place. -/
theorem boundRightly_iff (inputVars : List (List UInt8 × InputVar))
    (hsorted : (inputVars.map Prod.fst).Pairwise (· < ·)) (hnamed : Named inputVars)
    (held : List ℕ) (query : List UInt8) (hquery : 36 ∉ query)
    (ps : List (List UInt8 × List UInt8)) (r : List UInt8)
    (hcut : Splits (next (inputVars.map Prod.fst)) query ps r) :
    BoundRightly inputVars ps r held query ↔
      Lockable inputVars held (ps.map Prod.snd) ∧ Numbered ps r := by
  have hbound := fun fuel (hfuel : query.length < fuel) =>
    postBindInputVars_eq hsorted hnamed hcut held hfuel
  have hin : ∀ name ∈ ps.map Prod.snd, ∃ v, lookup inputVars name = some v := by
    intro name hname
    obtain ⟨piece, hpiece, rfl⟩ := List.mem_map.mp hname
    exact lookup_of_mem (mem_of_splits hcut piece hpiece)
  have hread := placeholders_of_splits hnamed hquery hcut
  constructor
  · rintro ⟨b, hb, hright⟩
    have hcall := hb _ (Nat.lt_succ_self _)
    rw [hbound _ (Nat.lt_succ_self _)] at hcall
    have hlock : Lockable inputVars held (ps.map Prod.snd) := by
      by_contra hnot
      rw [bindParams_of_not_lockable hin hnot] at hcall
      cases hcall
    rw [bindParams_of_lockable hin hlock] at hcall
    cases hcall
    -- What is read at the `k`-th place is a number whose key is the name there.
    refine ⟨hlock, fun k hk => ?_⟩
    obtain ⟨hpos, -, name, v, hname, hkey, -, -⟩ := hright.refersTo k (refers ps r k) (by
      show (placeholders (render _ 0 ps ++ r))[k]? = _
      rw [hread, List.getElem?_map, List.getElem?_range hk]
      rfl)
    exact ⟨hpos, hkey.trans hname.symm⟩
  · rintro ⟨hlock, hnumbered⟩
    refine ⟨⟨render (fun k => 36 :: decimal k) 0 ps ++ r, ps.map Prod.snd, ps.length,
      (ps.map Prod.snd).map fun name => paramOf (varOf inputVars name)⟩, fun fuel hfuel => ?_,
      ⟨decimal, rfl⟩, fun k n hn => ?_⟩
    · rw [hbound fuel hfuel, bindParams_of_lockable hin hlock, Option.map_some]
    · change (placeholders (render _ 0 ps ++ r))[k]? = some n at hn
      rw [hread, List.getElem?_map] at hn
      obtain ⟨j, hj, rfl⟩ := Option.map_eq_some_iff.mp hn
      obtain ⟨hk, hj⟩ := List.getElem?_eq_some_iff.mp hj
      rw [List.length_range] at hk
      rw [List.getElem_range] at hj
      subst hj
      obtain ⟨hpos, hsame⟩ := hnumbered k hk
      have hname : (ps.map Prod.snd)[k]? = some ps[k].2 := by
        rw [List.getElem?_map, List.getElem?_eq_getElem hk, Option.map_some]
      obtain ⟨v, hv⟩ := hin ps[k].2 (List.mem_map.mpr ⟨_, List.getElem_mem hk, rfl⟩)
      have hentry := hsame.trans hname
      have hlt := (List.getElem?_eq_some_iff.mp hentry).1
      rw [List.length_map] at hlt
      refine ⟨hpos, ?_, ps[k].2, v, hname, hentry, hv, ?_⟩
      · show refers ps r k ≤ ps.length
        omega
      · show ((ps.map Prod.snd).map fun name =>
          paramOf (varOf inputVars name))[refers ps r k - 1]? = _
        rw [List.getElem?_map, hentry, Option.map_some, varOf, hv]
        rfl

/-- A number with the name `:a`. -/
def sampleVars : List (List UInt8 × InputVar) := [([58, 97], { varType := .int32, text := [53] })]

theorem named_sampleVars : Named sampleVars := by
  intro name hname
  obtain rfl : name = [58, 97] := List.mem_singleton.mp hname
  exact ⟨rfl, by decide, List.forall_mem_cons.mpr ⟨rfl, List.forall_mem_singleton.mpr rfl⟩⟩

theorem splits_sampleVars {r : List UInt8} (h : next (sampleVars.map Prod.fst) ([58, 97] ++ r)
    = some (0, [58, 97])) (hr : next (sampleVars.map Prod.fst) r = none) :
    Splits (next (sampleVars.map Prod.fst)) ([58, 97] ++ r) [([], [58, 97])] r :=
  .piece h (.rest hr)

/-- In `:a1` the placeholder is `$01`, the first one. -/
theorem boundRightly_one :
    BoundRightly sampleVars [([], [58, 97])] [49] [] [58, 97, 49] := by
  refine (boundRightly_iff sampleVars (by decide) named_sampleVars [] [58, 97, 49] (by decide) _
    [49]
    (splits_sampleVars (by decide) (by decide))).mpr ⟨⟨by decide, by decide⟩, ?_⟩
  intro k hk
  obtain rfl : k = 0 := by
    rw [List.length_singleton] at hk
    omega
  have hone : refers [([], [58, 97])] [49] 0 = 1 := by
    rw [refers, decimal, if_pos rfl]
    decide
  rw [hone]
  decide

/-- In `:a` it is `$0`, which there is not. -/
theorem not_boundRightly : ¬ BoundRightly sampleVars [([], [58, 97])] [] [] [58, 97] := by
  rintro ⟨b, hb, hright⟩
  have hcut : Splits (next (sampleVars.map Prod.fst)) [58, 97] [([], [58, 97])] [] :=
    splits_sampleVars (by decide) (by decide)
  have hcall := hb 3 (by decide)
  rw [postBindInputVars_eq (by decide) named_sampleVars hcut [] (by decide)] at hcall
  obtain ⟨params, -, rfl⟩ := Option.map_eq_some_iff.mp (Option.some.inj hcall)
  have hread : (placeholders [36, 48])[0]? = some 0 := by decide
  have hzero := (hright.refersTo 0 0 hread).1
  exact absurd hzero (by decide)

end QueryPostgreSQL
end Mantids
