/-
# Inserted text is no directive

The text of a page is followed with a mark on each byte that some replacement inserted.

* `Pass`, `MarkedState`, `Reaches` — the states of both passes, with the marks;
* `markedTurn_unmark` — the marks change nothing;
* `Barred` — text that cannot complete the opening of a directive begun in front of it;
* `guarded_replacement` — every replacement is such a text, and opens no directive itself;
* `Safe`, `safe_of_reaches` — no inserted byte opens a directive, in no state;
* `not_inserted_of_reaches` — no match acted upon begins in inserted text.
-/
import Mantids.JProcessor

namespace Mantids

open JsonWriter Begins

namespace HTMLIEngine

/-! ## Marked pages -/

/-- The two passes, in their order. -/
inductive Pass where
  | js
  | html

def Pass.re : Pass → JPattern
  | .js => reJS
  | .html => reHTML

def Pass.useHTMLFrame : Pass → Bool
  | .js => false
  | .html => true

/-- A `JState` whose bytes are marked where they were inserted. -/
structure MarkedState (σ : Type*) where
  input : List (UInt8 × Bool)
  pos : ℕ := 0
  client : σ
deriving DecidableEq

/-- Without the marks. -/
def MarkedState.unmark {σ : Type*} (st : MarkedState σ) : JState σ :=
  ⟨st.input.map Prod.fst, st.pos, st.client⟩

def Turn.map {β γ : Type*} (f : β → γ) : Turn β → Turn γ
  | .broke => .broke
  | .threw => .threw
  | .next st => .next (f st)

section Passes

variable {σ : Type*} (w : FastWriter) (clientHandler : ClientHandler σ)

/-- A turn of a pass that marks what it inserts. -/
def markedTurn (pass : Pass) (st : MarkedState σ) : Turn (MarkedState σ) :=
  match jMatch pass.re st.unmark.input st.pos with
  | none => .broke
  | some (position, d) =>
    let replacedBy := replacement w clientHandler d st.client pass.useHTMLFrame
    match stringReplace st.input (narrow position) (narrow d.length)
        (replacedBy.1.map fun c => (c, true)) with
    | none => .threw
    | some input =>
      .next ⟨input, (narrow position + replacedBy.1.length) % 2 ^ 64, replacedBy.2⟩

/-- The states at the beginning of a turn. -/
inductive Reaches (page : List UInt8) (s : σ) : Pass → MarkedState σ → Prop
  | start : Reaches page s .js ⟨page.map fun c => (c, false), 0, s⟩
  | turn {pass : Pass} {st st' : MarkedState σ} (h : Reaches page s pass st)
      (hturn : markedTurn w clientHandler pass st = .next st') : Reaches page s pass st'
  | html {st : MarkedState σ} (h : Reaches page s .js st)
      (hturn : markedTurn w clientHandler .js st = .broke) :
      Reaches page s .html ⟨st.input, 0, st.client⟩

theorem map_stringReplace {α β : Type*} (f : α → β) (s : List α) (pos len : ℕ) (r : List α) :
    (stringReplace s pos len r).map (List.map f) =
      stringReplace (s.map f) pos len (r.map f) := by
  unfold stringReplace
  rw [List.length_map]
  split
  · rw [Option.map_some, List.map_append, List.map_append, List.map_take, List.map_drop]
  · rfl

/-- The marks change nothing. -/
theorem markedTurn_unmark (pass : Pass) (st : MarkedState σ) :
    (markedTurn w clientHandler pass st).map MarkedState.unmark =
      jTurn w clientHandler pass.re pass.useHTMLFrame st.unmark := by
  have hpos : st.unmark.pos = st.pos := rfl
  have hclient : st.unmark.client = st.client := rfl
  rcases hmatch : jMatch pass.re st.unmark.input st.pos with _ | ⟨position, d⟩
  · simp only [markedTurn, jTurn, hpos, hmatch, Turn.map]
  · have hmarks : ∀ r : List UInt8, (r.map fun c => (c, true)).map Prod.fst = r := by
      intro r
      rw [List.map_map]
      exact List.map_id r
    simp only [markedTurn, jTurn, hpos, hclient, hmatch]
    have hinput : st.unmark.input = st.input.map Prod.fst := rfl
    generalize replacement w clientHandler d st.client pass.useHTMLFrame = r
    have hreplace := map_stringReplace Prod.fst st.input (narrow position) (narrow d.length)
      (r.1.map fun c => (c, true))
    rw [hmarks] at hreplace
    rw [hinput, ← hreplace]
    rcases stringReplace st.input _ _ _ with _ | input
    · simp only [Turn.map, Option.map_none]
    · simp only [Turn.map, Option.map_some, MarkedState.unmark]

/-- What a pass ends with is a state that was reached. -/
theorem exists_reaches_of_pass {page : List UInt8} {s : σ} {pass : Pass} {fuel : ℕ}
    {st : MarkedState σ} {out : JState σ} (h : Reaches w clientHandler page s pass st)
    (hrun : iProcResourceJProcessor w clientHandler pass.re pass.useHTMLFrame fuel st.unmark =
      some out) :
    ∃ last, Reaches w clientHandler page s pass last ∧ last.unmark = out ∧
      markedTurn w clientHandler pass last = .broke := by
  induction fuel generalizing st with
  | zero => exact absurd hrun.symm (Option.some_ne_none _)
  | succ fuel ih =>
      rw [iProcResourceJProcessor, ← markedTurn_unmark] at hrun
      rcases hturn : markedTurn w clientHandler pass st with _ | _ | next
      · rw [hturn] at hrun
        exact ⟨st, h, Option.some_inj.mp hrun, hturn⟩
      · rw [hturn] at hrun
        exact absurd hrun.symm (Option.some_ne_none _)
      · rw [hturn] at hrun
        exact ih (h.turn hturn) hrun

/-- So is the page that is answered. -/
theorem exists_reaches_of_procResourceJProcessor {page : List UInt8} {s : σ} {fuel : ℕ}
    {out : JState σ} (hrun : procResourceJProcessor w clientHandler fuel page s = some out) :
    ∃ last, Reaches w clientHandler page s .html last ∧ last.unmark = out := by
  obtain ⟨mid, hjs, hhtml⟩ := Option.bind_eq_some_iff.mp hrun
  have hstart : (⟨page.map fun c => (c, false), 0, s⟩ : MarkedState σ).unmark = ⟨page, 0, s⟩ := by
    rw [MarkedState.unmark, List.map_map]
    exact congrArg (fun input => JState.mk input 0 s) (List.map_id page)
  have hfirst : Reaches w clientHandler page s .js ⟨page.map fun c => (c, false), 0, s⟩ := .start
  obtain ⟨st, hst, rfl, hturn⟩ := exists_reaches_of_pass w clientHandler hfirst (hstart ▸ hjs)
  obtain ⟨last, hlast, heq, -⟩ := exists_reaches_of_pass w clientHandler (hst.html hturn) hhtml
  exact ⟨last, hlast, heq⟩

end Passes

/-! ## Text that completes no directive -/

/-- The rest of a text opens a directive of one of the passes. -/
def Opens (s : List UInt8) : Prop := ∃ pass : Pass, pass.re.opener <+: s

/-- The proper ends of an opening, except for its last byte. -/
def openerEnds : List (List UInt8) :=
  ["/<%", "<%", "!--<%", "--<%", "-<%"].map bytesOf

/-- No end of an opening is in front. -/
def Barred (s : List UInt8) : Prop := ∀ e ∈ openerEnds, ¬ e <+: s

theorem forall_mem_openerEnds {P : List UInt8 → Prop} :
    (∀ e ∈ openerEnds, P e) ↔ P [47, 60, 37] ∧ P [60, 37] ∧ P [33, 45, 45, 60, 37] ∧
      P [45, 45, 60, 37] ∧ P [45, 60, 37] := by
  have hends : openerEnds =
      [[47, 60, 37], [60, 37], [33, 45, 45, 60, 37], [45, 45, 60, 37], [45, 60, 37]] := rfl
  rw [hends]
  simp only [List.forall_mem_cons, List.not_mem_nil, IsEmpty.forall_iff, implies_true, and_true]

theorem barred_of_head {c : UInt8} (h : c ∉ ([33, 45, 47, 60] : List UInt8)) (s : List UInt8) :
    Barred (c :: s) := by
  simp only [List.mem_cons, List.not_mem_nil, or_false, not_or] at h
  obtain ⟨h33, h45, h47, h60⟩ := h
  unfold Barred
  rw [forall_mem_openerEnds]
  simp only [List.cons_prefix_cons, Ne.symm h33, Ne.symm h45, Ne.symm h47, Ne.symm h60, false_and,
    not_false_eq_true, and_self]

theorem barred_cons {c : UInt8} (h : c ≠ 60) {s : List UInt8} (hs : Barred s) :
    Barred (c :: s) := by
  unfold Barred at hs ⊢
  rw [forall_mem_openerEnds] at hs ⊢
  simp only [List.cons_prefix_cons, h.symm, hs, false_and, and_false, not_false_eq_true, and_self]

theorem barred_angle {c : UInt8} (h : c ≠ 37) (s : List UInt8) : Barred (60 :: c :: s) := by
  unfold Barred
  rw [forall_mem_openerEnds]
  have h47 : (47 : UInt8) ≠ 60 := by decide
  have h33 : (33 : UInt8) ≠ 60 := by decide
  have h45 : (45 : UInt8) ≠ 60 := by decide
  simp only [List.cons_prefix_cons, h.symm, h47, h33, h45, false_and, and_false,
    not_false_eq_true, and_self]

/-- An opening goes on with one of its ends. -/
theorem not_opens_cons {s : List UInt8} (hs : Barred s) (c : UInt8) : ¬ Opens (c :: s) := by
  rintro ⟨pass, hopen⟩
  rcases pass with _ | _
  · exact hs [47, 60, 37] (by decide) (List.cons_prefix_cons.mp hopen).2
  · exact hs [33, 45, 45, 60, 37] (by decide) (List.cons_prefix_cons.mp hopen).2

theorem not_opens_of_head {c : UInt8} (h47 : c ≠ 47) (h60 : c ≠ 60) (s : List UInt8) :
    ¬ Opens (c :: s) := by
  rintro ⟨pass, hopen⟩
  rcases pass with _ | _
  · exact h47 (List.cons_prefix_cons.mp hopen).1.symm
  · exact h60 (List.cons_prefix_cons.mp hopen).1.symm

/-- What follows a part of an opening is one of its ends. -/
theorem mem_openerEnds {pass : Pass} {a e : List UInt8} (h : a ++ e = pass.re.opener)
    (ha : a ≠ []) (he : e ≠ []) : e ∈ openerEnds ∨ e = [37] := by
  have htails : ∀ pass : Pass, ∀ e ∈ pass.re.opener.tails,
      e = [] ∨ e = pass.re.opener ∨ e ∈ openerEnds ∨ e = [37] := by
    intro pass
    rcases pass with _ | _
    · decide
    · decide
  rcases htails pass e ((List.mem_tails _ _).mpr ⟨a, h⟩) with hnil | hall | hend
  · exact absurd hnil he
  · rw [← h] at hall
    exact absurd (List.self_eq_append_left.mp hall) ha
  · exact hend

/-- An opening that begins in front of a barred text is complete there. -/
theorem opens_of_append {x y : List UInt8} (hx : x ≠ []) (hy : Barred y)
    (hhead : y.head? ≠ some 37) (h : Opens (x ++ y)) (z : List UInt8) : Opens (x ++ z) := by
  obtain ⟨pass, hopen⟩ := h
  rcases List.prefix_or_prefix_of_prefix hopen (List.prefix_append x y) with hin | ⟨e, he⟩
  · exact ⟨pass, hin.trans (List.prefix_append _ _)⟩
  · rcases eq_or_ne e [] with rfl | hne
    · rw [List.append_nil] at he
      exact ⟨pass, he ▸ List.prefix_append _ _⟩
    · -- the opening goes on in the barred text
      rw [← he, List.prefix_append_right_inj] at hopen
      rcases mem_openerEnds he hx hne with hend | rfl
      · exact absurd hopen (hy e hend)
      · obtain ⟨r, rfl⟩ := hopen
        exact absurd rfl hhead

/-! ## Replacements -/

/-- The text opens no directive, and completes none, in front of this rest. -/
def Guarded (a z : List UInt8) : Prop := Barred (a ++ z) ∧ ¬ BeginsIn Opens a z

theorem guarded_nil {z : List UInt8} (hz : Barred z) : Guarded [] z := ⟨hz, id⟩

theorem guarded_append {a b z : List UInt8} (ha : Guarded a (b ++ z)) (hb : Guarded b z) :
    Guarded (a ++ b) z := by
  rw [Guarded, List.append_assoc, beginsIn_append]
  exact ⟨ha.1, not_or_intro ha.2 hb.2⟩

theorem guarded_cons {c : UInt8} {a z : List UInt8} (hc : Barred (c :: (a ++ z)))
    (ha : Guarded a z) : Guarded (c :: a) z :=
  ⟨hc, not_or_intro (not_opens_cons ha.1 c) ha.2⟩

/-- Only a `<` is close to an opening. -/
theorem guarded_of_not_mem {a z : List UInt8} (h60 : 60 ∉ a) (hz : Barred z) : Guarded a z := by
  induction a with
  | nil => exact guarded_nil hz
  | cons c a ih =>
      rw [List.mem_cons, not_or] at h60
      have ha := ih h60.2
      exact guarded_cons (barred_cons (Ne.symm h60.1) ha.1) ha

/-- A `<` with no `%` behind it. -/
theorem guarded_angle {c : UInt8} (hc : c ≠ 37) {a z : List UInt8} (ha : Guarded (c :: a) z) :
    Guarded (60 :: c :: a) z :=
  guarded_cons (barred_angle hc _) ha

/-- Behind its backslash, a `<` opens nothing. -/
theorem guarded_escapeAngles (s : List UInt8) {z : List UInt8} (hz : Barred z) :
    Guarded (escapeAngles s) z := by
  induction s with
  | nil => exact guarded_nil hz
  | cons c s ih =>
      have hbyte : Guarded (escapeAngle c) (escapeAngles s ++ z) := by
        unfold escapeAngle
        split
        · refine ⟨barred_of_head (by decide) _, not_or_intro ?_ (not_or_intro ?_ id)⟩
          · exact not_opens_of_head (by decide) (by decide) _
          · exact not_opens_cons ih.1 c
        · rename_i hangle
          exact guarded_of_not_mem (by simpa using fun h => hangle (.inl h.symm)) ih.1
      exact guarded_append hbyte ih

/-- A text that ends with some other byte is guarded whatever follows. -/
theorem guarded_concat {a : List UInt8} {c : UInt8} (hc : c ∉ ([33, 45, 47, 60] : List UInt8))
    (ha : ∀ z, Barred z → Guarded a z) (z : List UInt8) : Guarded (a ++ [c]) z := by
  have hbarred : Barred (c :: z) := barred_of_head hc z
  refine guarded_append (ha _ hbarred) ⟨hbarred, not_or_intro ?_ id⟩
  simp only [List.mem_cons, List.not_mem_nil, or_false, not_or] at hc
  exact not_opens_of_head hc.2.2.1 hc.2.2.2 z

/-- A number ends with digits. -/
theorem exists_numberText_eq_append (n : NumberText) :
    ∃ t c, n.text = t ++ [c] ∧ isdigit c = true := by
  have hdigits : ∃ (t : List UInt8) (ds : Digits), n.text = t ++ ds.1 := by
    obtain ⟨negative, whole, fraction, exponent⟩ := n
    unfold NumberText.text NumberText.tail
    rcases exponent with _ | ⟨mark, ds⟩
    · rcases fraction with _ | ds
      · exact ⟨_, whole, List.append_nil _⟩
      · exact ⟨(if negative then [45] else []) ++ whole.1 ++ [46], ds, by simp [NumberText.sign]⟩
    · exact ⟨(if negative then [45] else []) ++ whole.1 ++
        ((fraction.elim [] fun ds => 46 :: ds.1) ++ mark.1), ds, by simp [NumberText.sign]⟩
  obtain ⟨t, ds, heq⟩ := hdigits
  have hlast := List.dropLast_concat_getLast ds.2.1
  refine ⟨t ++ ds.1.dropLast, ds.1.getLast ds.2.1, ?_, ds.2.2 _ (List.getLast_mem ds.2.1)⟩
  rw [heq, List.append_assoc, hlast]

/-- A text of a value ends with a quotation mark, a bracket, a letter or a digit. -/
theorem exists_writeValue_eq_append (w : FastWriter) (v : Value) :
    ∃ t c, w.writeValue v = t ++ [c] ∧ c ∉ ([33, 45, 47, 60] : List UInt8) ∧ c ≠ 62 := by
  unfold FastWriter.writeValue
  rcases v with _ | b | n | s | xs | ms
  · exact ⟨bytesOf "nul", 108, rfl, by decide, by decide⟩
  · rcases b with _ | _
    · exact ⟨bytesOf "fals", 101, rfl, by decide, by decide⟩
    · exact ⟨bytesOf "tru", 101, rfl, by decide, by decide⟩
  · have hdigit : ∀ c, isdigit c = true → c ∉ ([33, 45, 47, 60] : List UInt8) ∧ c ≠ 62 := by
      intro c hc
      unfold isdigit at hc
      grind
    obtain ⟨t, c, heq, hc⟩ := exists_numberText_eq_append n
    exact ⟨t, c, heq, hdigit c hc⟩
  · exact ⟨34 :: s.flatMap w.escapeByte, 34, rfl, by decide, by decide⟩
  · exact ⟨91 :: w.writeElements xs, 93, rfl, by decide, by decide⟩
  · exact ⟨123 :: w.writeMembers ms, 125, rfl, by decide, by decide⟩

theorem guarded_value (w : FastWriter) (v : Value) (z : List UInt8) :
    Guarded (escapeAngles (w.writeValue v)) z := by
  obtain ⟨t, c, heq, hc, h62⟩ := exists_writeValue_eq_append w v
  have h60 : c ≠ 60 := fun h => hc (by simp [h])
  have hlast : escapeAngles [c] = [c] :=
    escapeAngles_of_not_mem (by simpa using Ne.symm h60) (by simpa using Ne.symm h62)
  rw [heq, escapeAngles_append, hlast]
  exact guarded_concat hc (fun z hz => guarded_escapeAngles t hz) z

theorem exists_writeValue_eq_cons (w : FastWriter) (v : Value) :
    ∃ c t, w.writeValue v = c :: t ∧ c ≠ 37 := by
  unfold FastWriter.writeValue
  rcases v with _ | b | n | s | xs | ms
  · exact ⟨110, bytesOf "ull", rfl, by decide⟩
  · rcases b with _ | _
    · exact ⟨102, bytesOf "alse", rfl, by decide⟩
    · exact ⟨116, bytesOf "rue", rfl, by decide⟩
  · obtain ⟨t, d, heq, -⟩ := exists_numberText_eq_append n
    obtain ⟨c, r, hcons⟩ := List.exists_cons_of_ne_nil (l := n.text) (by simp [heq])
    refine ⟨c, r, hcons, ?_⟩
    rintro rfl
    have hbyte := n.isNumberByte_of_mem_text 37 (hcons ▸ List.mem_cons_self)
    exact absurd hbyte (by decide)
  · exact ⟨34, _, rfl, by decide⟩
  · exact ⟨91, _, rfl, by decide⟩
  · exact ⟨123, _, rfl, by decide⟩

/-- A text of a value does not begin with the `%` of an opening. -/
theorem head_escapeAngles_writeValue (w : FastWriter) (v : Value) (z : List UInt8) :
    (escapeAngles (w.writeValue v) ++ z).head? ≠ some 37 := by
  obtain ⟨c, t, heq, hc⟩ := exists_writeValue_eq_cons w v
  rw [heq, escapeAngles, List.flatMap_cons, escapeAngle]
  split
  · exact fun h => absurd (Option.some_inj.mp h) (by decide)
  · exact fun h => hc (Option.some_inj.mp h)

/-- A constant, whatever is written around it. -/
theorem guarded_constant (w : FastWriter) (v : Value) {name : List UInt8} (h60 : 60 ∉ name)
    {start stop : List UInt8} (hstart : ∀ z, Barred z → Guarded start z)
    (hstop : ∀ z, Guarded stop z) (z : List UInt8) :
    Guarded (start ++ name ++ bytesOf " = " ++ escapeAngles (w.writeValue v) ++ stop) z := by
  have hvalue := guarded_append (guarded_value w v (stop ++ z)) (hstop z)
  have hequals := guarded_append (guarded_of_not_mem (a := bytesOf " = ") (by decide) hvalue.1)
    hvalue
  have hname := guarded_append (guarded_of_not_mem h60 hequals.1) hequals
  simpa using guarded_append (hstart _ hname.1) hname

/-- What is put into a page for a value opens no directive, and completes none. -/
theorem guarded_replaceByJVar (w : FastWriter) (v : Value) {name : List UInt8} (h60 : 60 ∉ name)
    (useHTMLFrame : Bool) (z : List UInt8) :
    Guarded (replaceByJVar w v name useHTMLFrame) z ∧
      (replaceByJVar w v name useHTMLFrame ++ z).head? ≠ some 37 := by
  rw [replaceByJVar_eq]
  split
  · split
    · -- `<script>`, a constant and `</script>`
      have hscript : bytesOf "<script>\nconst " = 60 :: bytesOf "script>\nconst " := rfl
      refine ⟨guarded_constant w v h60 ?_ ?_ z, by simp [hscript]⟩
      · exact fun z hz => guarded_angle (c := 115) (a := bytesOf "cript>\nconst ") (by decide)
          (guarded_of_not_mem (by decide) hz)
      · intro z
        have hend : Guarded (bytesOf "/script" ++ [62]) z :=
          guarded_concat (by decide) (fun z hz => guarded_of_not_mem (by decide) hz) z
        have hangle := guarded_angle (c := 47) (a := bytesOf "script>") (by decide) hend
        exact guarded_append (a := [59, 10]) (guarded_of_not_mem (by decide) hangle.1) hangle
    · -- the constant alone
      have hconst : bytesOf "const " = 99 :: bytesOf "onst " := rfl
      refine ⟨guarded_constant w v h60 ?_ ?_ z, by simp [hconst]⟩
      · exact fun z hz => guarded_of_not_mem (by decide) hz
      · exact guarded_concat (a := [59]) (by decide) fun z hz => guarded_of_not_mem (by decide) hz
  · exact ⟨guarded_value w v z, head_escapeAngles_writeValue w v z⟩

section Runs

variable {σ : Type*} {w : FastWriter} {clientHandler : ClientHandler σ}

/-- Whatever the application answers, the text that is put in is guarded. -/
theorem guarded_replacement (w : FastWriter) (clientHandler : ClientHandler σ) {d : Directive}
    (h60 : 60 ∉ d.command) (s : σ) (useHTMLFrame : Bool) (z : List UInt8) :
    Guarded (replacement w clientHandler d s useHTMLFrame).1 z ∧
      ((replacement w clientHandler d s useHTMLFrame).1 ++ z).head? ≠ some 37 := by
  rcases replacement_cases w clientHandler d s useHTMLFrame with ⟨k, v, heq⟩ | heq
  · rw [heq]
    exact guarded_replaceByJVar w v (fun hmem => h60 (List.mem_of_mem_drop hmem)) useHTMLFrame z
  · have hnull : bytesOf "null" = 110 :: bytesOf "ull" := rfl
    rw [heq]
    refine ⟨guarded_concat (a := bytesOf "nul") (by decide)
      (fun z hz => guarded_of_not_mem (by decide) hz) z, ?_⟩
    rw [hnull]
    exact fun h => absurd (Option.some_inj.mp h) (by decide)

/-! ## Matches -/

/-- A match begins with the opening, and its command consists of letters and slashes. -/
theorem of_matchHere {re : JPattern} {s : List UInt8} {d : Directive}
    (h : matchHere re s = some d) : re.opener <+: s ∧ 60 ∉ d.command := by
  unfold matchHere at h
  split at h
  · rename_i hopen
    split at h
    · exact absurd h.symm (Option.some_ne_none _)
    · split at h
      · dsimp only at h
        split at h
        · split at h
          · refine ⟨hopen, ?_⟩
            rw [← Option.some_inj.mp h]
            intro hmem
            exact absurd (List.mem_takeWhile_imp hmem) (by decide)
          · exact absurd h.symm (Option.some_ne_none _)
        · exact absurd h.symm (Option.some_ne_none _)
      · exact absurd h.symm (Option.some_ne_none _)
  · exact absurd h.symm (Option.some_ne_none _)

theorem of_jMatch {re : JPattern} {input : List UInt8} {pos p : ℕ} {d : Directive}
    (h : jMatch re input pos = some (p, d)) :
    p < input.length ∧ re.opener <+: input.drop p ∧ 60 ∉ d.command := by
  obtain ⟨⟨q, e⟩, hq, heq⟩ := Option.map_eq_some_iff.mp h
  cases heq
  obtain ⟨hlt, hhere, -⟩ := of_leftmost hq
  obtain ⟨hopen, h60⟩ := of_matchHere hhere
  rw [List.length_drop] at hlt
  rw [List.drop_drop] at hopen
  exact ⟨by omega, hopen, h60⟩

/-! ## The invariant -/

/-- An inserted byte opens a directive. -/
def OpensInserted (s : List (UInt8 × Bool)) : Prop :=
  (s.head?.map Prod.snd = some true) ∧ Opens (s.map Prod.fst)

/-- No inserted byte opens a directive. -/
def Safe (input : List (UInt8 × Bool)) : Prop := ¬ BeginsIn OpensInserted input []

theorem safe_page (page : List UInt8) : Safe (page.map fun c => (c, false)) := by
  apply not_beginsIn
  rintro x hx s ⟨hinserted, -⟩
  obtain ⟨c, -, rfl⟩ := List.mem_map.mp hx
  exact absurd hinserted (by simp)

/-- The two parts of a safe page. -/
theorem safe_cut {input : List (UInt8 × Bool)} (h : Safe input) (k : ℕ) :
    ¬ BeginsIn OpensInserted (input.take k) (input.drop k) ∧
      ¬ BeginsIn OpensInserted (input.drop k) [] := by
  rw [Safe, ← List.take_append_drop k input, beginsIn_append, List.append_nil] at h
  exact not_or.mp h

/-- Replacing any part of a safe page keeps it safe. -/
theorem safe_stringReplace {input out : List (UInt8 × Bool)} (h : Safe input) {pos len : ℕ}
    {r : List UInt8} (hr : ∀ z, Guarded r z ∧ (r ++ z).head? ≠ some 37)
    (hout : stringReplace input pos len (r.map fun c => (c, true)) = some out) : Safe out := by
  have hbytes : (r.map fun c => (c, true)).map Prod.fst = r := by
    rw [List.map_map]
    exact List.map_id r
  unfold stringReplace at hout
  split at hout
  · obtain rfl := Option.some_inj.mp hout
    -- what is left of the page was safe before
    have hfront := (safe_cut h pos).1
    have hback := (safe_cut h (pos + len)).2
    rw [Safe, beginsIn_append, beginsIn_append, List.append_nil]
    rintro ((hin | hin) | hin)
    · -- an opening begun in front of the replacement would have been there before
      refine hfront (hin.imp fun x hx hopens => ⟨?_, ?_⟩)
      · have hhead := hopens.1
        rw [List.head?_append_of_ne_nil _ hx] at hhead ⊢
        exact hhead
      · have hopen := hopens.2
        rw [List.map_append, List.map_append, hbytes] at hopen
        rw [List.map_append]
        obtain ⟨hguard, hhead⟩ := hr ((input.drop (pos + len)).map Prod.fst)
        exact opens_of_append (by simpa using hx) hguard.1 hhead hopen _
    · have hopen := (beginsIn_map Prod.fst _ _).mp
        (hin.imp (Q := fun s => Opens (s.map Prod.fst)) fun x _ hopens => hopens.2)
      rw [hbytes] at hopen
      exact (hr _).1.2 hopen
    · exact hback hin
  · exact absurd hout.symm (Option.some_ne_none _)

theorem safe_of_markedTurn {pass : Pass} {st st' : MarkedState σ} (h : Safe st.input)
    (hturn : markedTurn w clientHandler pass st = .next st') : Safe st'.input := by
  unfold markedTurn at hturn
  split at hturn
  · cases hturn
  · rename_i position d hmatch
    dsimp only at hturn
    split at hturn
    · cases hturn
    · rename_i input hreplace
      cases hturn
      exact safe_stringReplace h
        (guarded_replacement w clientHandler (of_jMatch hmatch).2.2 _ _) hreplace

theorem safe_of_reaches {page : List UInt8} {s : σ} {pass : Pass} {st : MarkedState σ}
    (h : Reaches w clientHandler page s pass st) : Safe st.input := by
  induction h with
  | start => exact safe_page page
  | turn _ hturn ih => exact safe_of_markedTurn ih hturn
  | html _ _ ih => exact ih

/-- No match that is acted upon begins with a byte that was inserted. -/
theorem not_inserted_of_reaches (w : FastWriter) (clientHandler : ClientHandler σ)
    (page : List UInt8) (s : σ) {pass : Pass} {st : MarkedState σ}
    (h : Reaches w clientHandler page s pass st) {p : ℕ} {d : Directive}
    (hmatch : jMatch pass.re st.unmark.input st.pos = some (p, d)) :
    st.input[p]?.map Prod.snd = some false := by
  obtain ⟨hlt, hopen, -⟩ := of_jMatch hmatch
  rw [MarkedState.unmark, List.length_map] at hlt
  rw [MarkedState.unmark, ← List.map_drop] at hopen
  rw [List.getElem?_eq_getElem hlt, Option.map_some, Option.some_inj]
  -- an inserted byte there would contradict the invariant
  by_contra hinserted
  refine safe_of_reaches h ((beginsIn_iff _ _).mpr ⟨p, hlt, ?_, pass, ?_⟩)
  · rw [List.append_nil, List.head?_drop, List.getElem?_eq_getElem hlt]
    simpa using hinserted
  · rw [List.append_nil]
    exact hopen

end Runs

/-- A request whose variable `q` holds a directive. -/
def directiveHandler : ClientHandler Unit where
  sessionVariable _ _ := none
  jVars _ := []
  vars _ _ _ := some (bytesOf "//<%jVAR/c:u%>//")
  procJAPIExec _ _ _ := (.null, ())

/-- The page once the first of its two directives is replaced. -/
def secondState : MarkedState Unit where
  input := (bytesOf "const a = \"//\\<%jVAR/c:u%\\>//\";\n").map (fun c => (c, true)) ++
    (bytesOf "//<%jVAR/b:u%>//").map fun c => (c, false)
  pos := 32
  client := ()

theorem not_inserted_of_reaches_second : secondState.input[32]?.map Prod.snd = some false := by
  have hreaches : Reaches fastWriter directiveHandler
      (bytesOf "//<%jGETVAR/a:q%>////<%jVAR/b:u%>//") () .js secondState :=
    .turn .start (by decide +kernel)
  have hmatch : jMatch Pass.js.re secondState.unmark.input secondState.pos =
      some (32, ⟨bytesOf "VAR/b", bytesOf "u", 16⟩) := by
    decide +kernel
  exact not_inserted_of_reaches fastWriter directiveHandler _ () hreaches hmatch

end HTMLIEngine

end Mantids
