/-
# Values in a page

`HTMLIEngine::replaceByJVar` (`Server_WebCore/htmliengine.cpp`) writes a JSON value as a script
constant.  Angle brackets get a backslash, all over the text and after it was written.

* `replaceByJVar` — the text for a value, with or without a script element around it;
* `replaceByJVar_eq` — what the two replacements do, byte by byte;
* `EndsScript` — an end tag of a script element, as a browser reads it;
* `Breaks` — a string that holds one which no escaping touches;
* `replaceByJVar_endsScript_iff` — the values that stay inside their element.
-/
import Mantids.JsonEvalLiterals
import Mantids.JsonWriter
import Mantids.Lib.Begins

namespace Mantids

open Occurrence Begins

namespace HTMLIEngine

open JsonWriter

/-! ## The text for a value -/

/-- `replaceByJVar`. -/
def replaceByJVar (w : FastWriter) (value : Value) (scriptVarName : List UInt8)
    (useHTMLFrame : Bool) : List UInt8 :=
  let str := (w.write value).filter (· ≠ 10)
  let str := replaceAll (bytesOf "<") (bytesOf "\\<") str
  let str := replaceAll (bytesOf ">") (bytesOf "\\>") str
  if scriptVarName ≠ [] then
    if useHTMLFrame then
      bytesOf "<script>\nconst " ++ scriptVarName ++ bytesOf " = " ++ str ++ bytesOf ";\n</script>"
    else bytesOf "const " ++ scriptVarName ++ bytesOf " = " ++ str ++ bytesOf ";\n"
  else str

/-- A byte after both replacements. -/
def escapeAngle (c : UInt8) : List UInt8 := if c = 60 ∨ c = 62 then [92, c] else [c]

def escapeAngles (s : List UInt8) : List UInt8 := s.flatMap escapeAngle

theorem escapeAngles_append (s t : List UInt8) :
    escapeAngles (s ++ t) = escapeAngles s ++ escapeAngles t :=
  List.flatMap_append

theorem filter_write (w : FastWriter) (v : Value) :
    (w.write v).filter (· ≠ 10) = w.writeValue v := by
  have hkeep : ∀ c ∈ w.writeValue v, decide (c ≠ 10) = true := by
    intro c hc
    have hge := w.printed_writeValue v c hc
    rw [decide_eq_true_eq]
    rintro rfl
    exact absurd hge (by decide)
  rw [FastWriter.write, List.filter_append, List.filter_eq_self.mpr hkeep]
  simp

theorem replaceByJVar_eq (w : FastWriter) (v : Value) (name : List UInt8) (frame : Bool) :
    replaceByJVar w v name frame =
      if name ≠ [] then
        if frame then
          bytesOf "<script>\nconst " ++ name ++ bytesOf " = " ++ escapeAngles (w.writeValue v) ++
            bytesOf ";\n</script>"
        else bytesOf "const " ++ name ++ bytesOf " = " ++ escapeAngles (w.writeValue v) ++
          bytesOf ";\n"
      else escapeAngles (w.writeValue v) := by
  have hopen : bytesOf "<" = [60] := rfl
  have hclose : bytesOf ">" = [62] := rfl
  have hbyte : ∀ x : UInt8, (if x = 60 then bytesOf "\\<" else [x]).flatMap
      (fun y => if y = 62 then bytesOf "\\>" else [y]) = escapeAngle x := by
    intro x
    unfold escapeAngle
    by_cases h60 : x = 60
    · subst h60
      rfl
    · by_cases h62 : x = 62
      · subst h62
        rfl
      · simp [h60, h62]
  unfold replaceByJVar
  rw [filter_write, hopen, hclose]
  simp only [replaceAll_byte, List.flatMap_assoc, hbyte]
  rfl

/-! ## End tags of script elements -/

/-- `</script`, in any letter case. -/
def endTagName : List (UInt8 → Bool) := (bytesOf "</script").map fun b c => tolower c == b

/-- White space, a slash or a `>`. -/
def endsTagName (c : UInt8) : Bool := c ∈ ([9, 10, 12, 13, 32, 47, 62] : List UInt8)

/-- A browser that reads a script ends it here. -/
def EndsScript (s : List UInt8) : Prop := reads (endTagName ++ [endsTagName]) s = true

instance (s : List UInt8) : Decidable (EndsScript s) := inferInstanceAs (Decidable (_ = true))

/-- `</script` with a blank or a slash behind it: no byte of that is escaped. -/
def Breaking (s : List UInt8) : Prop :=
  reads (endTagName ++ [fun c => c = 32 || c = 47]) s = true

def Breaks (s : List UInt8) : Prop := BeginsIn Breaking s []

/-- No other byte is a `<` in lower case. -/
theorem tolower_beq_angle {c : UInt8} (h : c ≠ 60) : (tolower c == 60) = false := by
  unfold tolower
  grind

theorem not_endsScript_cons {c : UInt8} (h : c ≠ 60) (s : List UInt8) : ¬ EndsScript (c :: s) :=
  not_reads_cons (tolower_beq_angle h) _ s

theorem not_breaking_cons {c : UInt8} (h : c ≠ 60) (s : List UInt8) : ¬ Breaking (c :: s) :=
  not_reads_cons (tolower_beq_angle h) _ s

/-! ## Strings -/

/-- The byte is written as it is. -/
def plain (c : UInt8) : Bool := !mustEscape c && c ≠ 60 && c ≠ 62

/-- What is written for a byte of a string. -/
def stringByte (w : FastWriter) (c : UInt8) : List UInt8 := escapeAngles (w.escapeByte c)

theorem stringByte_of_plain (w : FastWriter) {c : UInt8} (h : plain c = true) :
    stringByte w c = [c] := by
  simp only [plain, Bool.and_eq_true, Bool.not_eq_true', decide_eq_true_eq] at h
  rw [stringByte, FastWriter.escapeByte, h.1.1, if_neg Bool.false_ne_true, escapeAngles,
    List.flatMap_singleton, escapeAngle, if_neg (by tauto)]

theorem escapeAngles_of_not_mem {s : List UInt8} (h60 : 60 ∉ s) (h62 : 62 ∉ s) :
    escapeAngles s = s := by
  have hbyte : ∀ c ∈ s, escapeAngle c = [c] := by
    intro c hc
    rw [escapeAngle, if_neg]
    rintro (rfl | rfl)
    · exact h60 hc
    · exact h62 hc
  rw [escapeAngles, List.flatMap_congr hbyte, List.flatMap_singleton']

/-- An escape holds no angle bracket. -/
theorem not_mem_of_isEscape {c : UInt8} {t : List UInt8} (h : IsEscape c t) :
    60 ∉ t ∧ 62 ∉ t := by
  have hdigit : ∀ x, isxdigit x = true → x ≠ 60 ∧ x ≠ 62 := by
    intro x hx
    unfold isxdigit at hx
    grind
  have hshort : 60 ∉ shortEscapes.map Prod.snd ∧ 62 ∉ shortEscapes.map Prod.snd := by decide
  rcases h with ⟨e, he, rfl⟩ | ⟨a, b, ha, hb, -, rfl⟩
  · have hmem : e ∈ shortEscapes.map Prod.snd := List.mem_map.mpr ⟨_, he, rfl⟩
    have h60 : e ≠ 60 := fun h => hshort.1 (h ▸ hmem)
    have h62 : e ≠ 62 := fun h => hshort.2 (h ▸ hmem)
    simp [h60.symm, h62.symm]
  · have ha := hdigit a ha
    have hb := hdigit b hb
    simp [ha.1.symm, ha.2.symm, hb.1.symm, hb.2.symm]

theorem exists_of_isEscape {c : UInt8} {t : List UInt8} (h : IsEscape c t) : ∃ e, t = 92 :: e := by
  rcases h with ⟨e, -, rfl⟩ | ⟨a, b, -, -, -, rfl⟩
  · exact ⟨_, rfl⟩
  · exact ⟨_, rfl⟩

/-- Every other byte is written behind a backslash, and only a `<` leaves a `<` there. -/
theorem stringByte_of_not_plain (w : FastWriter) {c : UInt8} (h : plain c = false) :
    ∃ e, stringByte w c = 92 :: e ∧ (c = 60 ∧ e = [60] ∨ c ≠ 60 ∧ 60 ∉ e) := by
  rcases hmust : mustEscape c with _ | _
  · -- an angle bracket
    have hangle : c = 60 ∨ c = 62 := by
      simp only [plain, hmust, Bool.not_false, Bool.true_and, Bool.and_eq_false_iff,
        decide_eq_false_iff_not, not_not] at h
      exact h
    refine ⟨[c], ?_, ?_⟩
    · rw [stringByte, FastWriter.escapeByte, hmust, if_neg Bool.false_ne_true, escapeAngles,
        List.flatMap_singleton, escapeAngle, if_pos hangle]
    · rcases hangle with rfl | rfl
      · exact .inl ⟨rfl, rfl⟩
      · exact .inr ⟨by decide, by decide⟩
  · have hescape := w.isEscape c hmust
    obtain ⟨h60, h62⟩ := not_mem_of_isEscape hescape
    obtain ⟨e, he⟩ := exists_of_isEscape hescape
    refine ⟨e, ?_, .inr ⟨?_, ?_⟩⟩
    · rw [stringByte, FastWriter.escapeByte, hmust, if_pos rfl,
        escapeAngles_of_not_mem h60 h62, he]
    · rintro rfl
      exact absurd hmust (by decide)
    · rw [he] at h60
      exact fun hmem => h60 (List.mem_cons_of_mem _ hmem)

/-- A word without backslash and quotation mark is read from a string as it stands. -/
theorem reads_string (w : FastWriter) {ps : List (UInt8 → Bool)}
    (hps : ∀ p ∈ ps, p 92 = false ∧ p 34 = false) (s t : List UInt8) :
    reads ps (s.flatMap (stringByte w) ++ 34 :: t) =
      reads (ps.map fun p c => p c && plain c) s := by
  induction ps generalizing s with
  | nil => rfl
  | cons p ps ih =>
      rw [List.forall_mem_cons] at hps
      rcases s with _ | ⟨c, s⟩
      · simp only [List.flatMap_nil, List.nil_append, List.map_cons, reads, hps.1.2,
          Bool.false_and]
      · rw [List.flatMap_cons, List.append_assoc, List.map_cons]
        rcases hplain : plain c with _ | _
        · obtain ⟨e, he, -⟩ := stringByte_of_not_plain w hplain
          simp only [he, List.cons_append, reads, hps.1.1, hplain, Bool.and_false,
            Bool.false_and]
        · simp only [stringByte_of_plain w hplain, List.cons_append, List.nil_append, reads,
            hplain, Bool.and_true, ih hps.2]

/-- The letters behind the `<`. -/
def scriptName : List (UInt8 → Bool) := (bytesOf "/script").map fun b c => tolower c == b

/-- Behind the `<` the word is read as in the string itself. -/
theorem endsScript_string_iff (w : FastWriter) (s t : List UInt8) :
    EndsScript (60 :: (s.flatMap (stringByte w) ++ 34 :: t)) ↔ Breaking (60 :: s) := by
  -- of the bytes that end a tag name, all but these two are escaped
  have hends : ∀ c, (endsTagName c && plain c) = (decide (c = 32) || decide (c = 47)) := by
    decide +kernel
  have hescaped : ∀ c, plain c = false → tolower c ∉ bytesOf "/script" := by
    decide +kernel
  have hletter : ∀ p ∈ scriptName, (p 92 = false ∧ p 34 = false) ∧
      ∀ c, (p c && plain c) = p c := by
    intro p hp
    obtain ⟨b, hb, rfl⟩ := List.mem_map.mp hp
    have hne : ∀ c, plain c = false → (tolower c == b) = false := fun c hc =>
      beq_eq_false_iff_ne.mpr fun h => hescaped c hc (h ▸ hb)
    refine ⟨⟨hne 92 (by decide), hne 34 (by decide)⟩, fun c => ?_⟩
    cases hplain : plain c with
    | false => exact (Bool.and_false _).trans (hne c hplain).symm
    | true => exact Bool.and_true _
  have hwords : (scriptName ++ [endsTagName]).map (fun p c => p c && plain c) =
      scriptName ++ [fun c => c = 32 || c = 47] := by
    rw [List.map_append]
    congr 1
    · conv_rhs => rw [← List.map_id scriptName]
      exact List.map_congr_left fun p hp => funext (hletter p hp).2
    · rw [List.map_singleton]
      exact congrArg (fun f => [f]) (funext hends)
  have hapart : ∀ p ∈ scriptName ++ [endsTagName], p 92 = false ∧ p 34 = false := by
    simp only [List.forall_mem_append, List.forall_mem_singleton]
    exact ⟨fun p hp => (hletter p hp).1, by decide, by decide⟩
  have hopen : (tolower 60 == 60) = true := by decide
  change reads ((fun c => tolower c == 60) :: (scriptName ++ [endsTagName])) _ = true ↔
    reads ((fun c => tolower c == 60) :: (scriptName ++ [_])) _ = true
  rw [reads_cons, reads_cons, reads_string w hapart, hwords]

theorem beginsIn_string_iff (w : FastWriter) (s t : List UInt8) :
    BeginsIn EndsScript (s.flatMap (stringByte w)) (34 :: t) ↔ Breaks s := by
  unfold Breaks
  induction s with
  | nil => rfl
  | cons c s ih =>
      have hskip : ∀ a : List UInt8, 60 ∉ a →
          (BeginsIn EndsScript (a ++ s.flatMap (stringByte w)) (34 :: t) ↔
            BeginsIn Breaking s []) := by
        intro a ha
        rw [beginsIn_iff_of_not (fun x hx => not_endsScript_cons (fun h => ha (h ▸ hx))), ih]
      rw [List.flatMap_cons, BeginsIn, List.append_nil]
      rcases hplain : plain c with _ | _
      · obtain ⟨e, he, ⟨rfl, rfl⟩ | ⟨hc, h60⟩⟩ := stringByte_of_not_plain w hplain
        · -- a `<`: behind its backslash the tag name can go on
          rw [he, ← List.singleton_append, List.append_assoc,
            beginsIn_iff_of_not (by simpa using not_endsScript_cons (by decide)),
            List.singleton_append, BeginsIn, endsScript_string_iff, ih]
        · rw [he, hskip _ (by simpa using h60), or_iff_right (not_breaking_cons hc s)]
      · have hc : c ≠ 60 := by
          rintro rfl
          exact absurd hplain (by decide)
        rw [stringByte_of_plain w hplain, hskip _ (by simpa using hc.symm),
          or_iff_right (not_breaking_cons hc s)]

/-- In a quoted string, whatever follows it. -/
theorem beginsIn_quoted_iff (w : FastWriter) (s t : List UInt8) :
    BeginsIn EndsScript (escapeAngles (w.quoted s)) t ↔ Breaks s := by
  have hquote : ∀ c ∈ ([34] : List UInt8), ∀ r, ¬ EndsScript (c :: r) := by
    simpa using not_endsScript_cons (by decide)
  have hquoted : escapeAngles (w.quoted s) = [34] ++ (s.flatMap (stringByte w) ++ [34]) := by
    rw [FastWriter.quoted, ← List.singleton_append, escapeAngles_append, escapeAngles_append,
      escapeAngles, escapeAngles, List.flatMap_assoc]
    rfl
  rw [hquoted, beginsIn_iff_of_not hquote, beginsIn_append, List.singleton_append,
    beginsIn_string_iff, or_iff_left (not_beginsIn hquote _)]

/-! ## Values -/

theorem beginsIn_escapeAngles_append (a b t : List UInt8) :
    BeginsIn EndsScript (escapeAngles (a ++ b)) t ↔
      BeginsIn EndsScript (escapeAngles a) (escapeAngles b ++ t) ∨
        BeginsIn EndsScript (escapeAngles b) t := by
  rw [escapeAngles_append, beginsIn_append]

/-- What the writer puts around strings holds no `<`. -/
theorem not_beginsIn_of_not_mem {a : List UInt8} (h60 : 60 ∉ a) (t : List UInt8) :
    ¬ BeginsIn EndsScript (escapeAngles a) t := by
  apply not_beginsIn
  intro c hc
  apply not_endsScript_cons
  rintro rfl
  obtain ⟨x, hx, hmem⟩ := List.mem_flatMap.mp hc
  unfold escapeAngle at hmem
  split at hmem
  · rcases List.mem_cons.mp hmem with h | h
    · exact absurd h (by decide)
    · exact h60 (List.mem_singleton.mp h ▸ hx)
  · exact h60 (List.mem_singleton.mp hmem ▸ hx)

/-- A comma stands between two elements. -/
theorem not_mem_comma {p : Prop} [Decidable p] : (60 : UInt8) ∉ (if p then [] else [44]) := by
  split <;> decide

mutual

theorem beginsIn_value_iff (w : FastWriter) :
    ∀ (v : Value) (t : List UInt8),
      BeginsIn EndsScript (escapeAngles (w.writeValue v)) t ↔ ∃ s ∈ v.texts, Breaks s
  | .null, t => by
      unfold FastWriter.writeValue Value.texts
      simp only [List.not_mem_nil, false_and, exists_false, iff_false]
      exact not_beginsIn_of_not_mem (by decide) t
  | .bool b, t => by
      unfold FastWriter.writeValue Value.texts
      simp only [List.not_mem_nil, false_and, exists_false, iff_false]
      exact not_beginsIn_of_not_mem (by cases b <;> decide) t
  | .number n, t => by
      unfold FastWriter.writeValue Value.texts
      simp only [List.not_mem_nil, false_and, exists_false, iff_false]
      exact not_beginsIn_of_not_mem
        (fun hmem => absurd (n.isNumberByte_of_mem_text 60 hmem) (by decide)) t
  | .string s, t => by
      unfold FastWriter.writeValue Value.texts
      rw [beginsIn_quoted_iff]
      simp only [List.mem_singleton, exists_eq_left]
  | .array xs, t => by
      unfold FastWriter.writeValue Value.texts
      rw [← List.singleton_append, beginsIn_escapeAngles_append, beginsIn_escapeAngles_append,
        or_iff_right (not_beginsIn_of_not_mem (by decide) _),
        or_iff_left (not_beginsIn_of_not_mem (by decide) _), beginsIn_elements_iff w xs]
  | .object ms, t => by
      unfold FastWriter.writeValue Value.texts
      rw [← List.singleton_append, beginsIn_escapeAngles_append, beginsIn_escapeAngles_append,
        or_iff_right (not_beginsIn_of_not_mem (by decide) _),
        or_iff_left (not_beginsIn_of_not_mem (by decide) _), beginsIn_members_iff w ms]

theorem beginsIn_elements_iff (w : FastWriter) :
    ∀ (xs : List Value) (t : List UInt8),
      BeginsIn EndsScript (escapeAngles (w.writeElements xs)) t ↔
        ∃ s ∈ textsOfElements xs, Breaks s
  | [], t => by
      unfold FastWriter.writeElements textsOfElements
      simp only [List.not_mem_nil, false_and, exists_false, iff_false]
      exact not_beginsIn_of_not_mem (by decide) t
  | x :: xs, t => by
      unfold FastWriter.writeElements textsOfElements
      rw [beginsIn_escapeAngles_append, beginsIn_escapeAngles_append,
        or_iff_left (not_beginsIn_of_not_mem not_mem_comma _), beginsIn_value_iff w x,
        beginsIn_elements_iff w xs]
      simp only [List.mem_append, or_and_right, exists_or]

theorem beginsIn_members_iff (w : FastWriter) :
    ∀ (ms : List (List UInt8 × Value)) (t : List UInt8),
      BeginsIn EndsScript (escapeAngles (w.writeMembers ms)) t ↔
        ∃ s ∈ textsOfMembers ms, Breaks s
  | [], t => by
      unfold FastWriter.writeMembers textsOfMembers
      simp only [List.not_mem_nil, false_and, exists_false, iff_false]
      exact not_beginsIn_of_not_mem (by decide) t
  | (k, x) :: ms, t => by
      unfold FastWriter.writeMembers textsOfMembers
      rw [beginsIn_escapeAngles_append, beginsIn_quoted_iff, ← List.singleton_append,
        beginsIn_escapeAngles_append, beginsIn_escapeAngles_append, beginsIn_escapeAngles_append,
        or_iff_right (not_beginsIn_of_not_mem (a := [58]) (by decide) _),
        or_iff_left (not_beginsIn_of_not_mem not_mem_comma _), beginsIn_value_iff w x,
        beginsIn_members_iff w ms]
      simp only [List.mem_cons, List.mem_append, or_and_right, exists_or, exists_eq_left, or_assoc]

end

/-! ## The frame -/

/-- The frame ends the element; anything else that does begins in front of that. -/
theorem endsScript_last_iff (body : List UInt8) :
    (∀ p, EndsScript ((body ++ bytesOf "</script>").drop p) ↔
        p + 9 = (body ++ bytesOf "</script>").length) ↔
      ¬ BeginsIn EndsScript body (bytesOf "</script>") := by
  have hlength : (bytesOf "</script>").length = 9 := rfl
  have hlast : ∀ k, EndsScript ((bytesOf "</script>").drop k) ↔ k = 0 := by
    intro k
    rcases Nat.lt_or_ge k 9 with hk | hk
    · revert k
      decide
    · rw [List.drop_eq_nil_of_le (hlength ▸ hk)]
      exact iff_of_false (not_reads_nil _ _) (by omega)
  rw [beginsIn_iff, List.length_append, hlength]
  constructor
  · rintro h ⟨p, hp, hends⟩
    have := (h p).mp hends
    omega
  · intro h p
    rcases Nat.lt_or_ge p body.length with hp | hp
    · exact iff_of_false (fun hends => h ⟨p, hp, hends⟩) (by omega)
    · rw [List.drop_append, List.drop_eq_nil_of_le hp, List.nil_append, hlast]
      omega

/-- The start of the frame opens a script element and ends none. -/
theorem beginsIn_frame_iff {name : List UInt8} (h60 : 60 ∉ name) (a t : List UInt8) :
    BeginsIn EndsScript (bytesOf "<script>\nconst " ++ name ++ bytesOf " = " ++ escapeAngles a ++
        bytesOf ";\n") t ↔
      BeginsIn EndsScript (escapeAngles a) (bytesOf ";\n" ++ t) := by
  have hopen : ∀ r, ¬ EndsScript (60 :: 115 :: r) := by
    intro r h
    exact Bool.false_ne_true h
  have hskip : ∀ a : List UInt8, 60 ∉ a → ∀ b r, BeginsIn EndsScript (a ++ b) r ↔
      BeginsIn EndsScript b r := by
    intro a ha
    exact beginsIn_iff_of_not fun c hc => not_endsScript_cons fun h => ha (h ▸ hc)
  have hstart : bytesOf "<script>\nconst " = 60 :: 115 :: bytesOf "cript>\nconst " := rfl
  simp only [hstart, List.append_assoc, List.cons_append]
  rw [BeginsIn, List.cons_append, or_iff_right (hopen _), ← List.singleton_append,
    hskip [115] (by decide), hskip _ (by decide), hskip _ h60, hskip _ (by decide), beginsIn_append,
    or_iff_left (not_beginsIn (fun c hc => not_endsScript_cons ?_) _)]
  rintro rfl
  exact absurd hc (by decide)

/-- The script element of a value is only ended by the frame, if and only if no string of the value
holds `</script` with a blank or a slash behind it. -/
theorem replaceByJVar_endsScript_iff (w : FastWriter) (v : Value) {name : List UInt8}
    (hname : name ≠ []) (hletters : ∀ c ∈ name, isalpha c = true ∨ c = 47) :
    (∀ p, EndsScript ((replaceByJVar w v name true).drop p) ↔
        p + 9 = (replaceByJVar w v name true).length) ↔
      ∀ s ∈ v.texts, ¬ Breaks s := by
  have h60 : 60 ∉ name := by
    intro hmem
    rcases hletters 60 hmem with h | h
    · exact absurd h (by decide)
    · exact absurd h (by decide)
  have hsplit : bytesOf ";\n</script>" = bytesOf ";\n" ++ bytesOf "</script>" := rfl
  rw [replaceByJVar_eq, if_pos hname, if_pos rfl, hsplit, ← List.append_assoc,
    endsScript_last_iff, beginsIn_frame_iff h60, beginsIn_value_iff]
  push Not
  rfl

theorem replaceByJVar_endsScript_iff_name :
    (∀ p, EndsScript ((replaceByJVar fastWriter (.string (bytesOf "1 < 2 </script>"))
          (bytesOf "a/b") true).drop p) ↔
        p + 9 = (replaceByJVar fastWriter (.string (bytesOf "1 < 2 </script>"))
          (bytesOf "a/b") true).length) ↔
      ∀ s ∈ (Value.string (bytesOf "1 < 2 </script>")).texts, ¬ Breaks s :=
  replaceByJVar_endsScript_iff fastWriter (.string (bytesOf "1 < 2 </script>"))
    (by decide) (List.forall_mem_cons.mpr ⟨by decide, List.forall_mem_cons.mpr
      ⟨by decide, List.forall_mem_singleton.mpr (by decide)⟩⟩)

/-- A request variable that ends the element: the blank hides the end tag from the escaping. -/
theorem not_replaceByJVar_endsScript :
    ¬ ∀ (w : FastWriter) (v : Value) (name : List UInt8), name ≠ [] →
      (∀ c ∈ name, isalpha c = true ∨ c = 47) →
        ∀ p, EndsScript ((replaceByJVar w v name true).drop p) ↔
          p + 9 = (replaceByJVar w v name true).length := by
  intro h
  have hends := h fastWriter (.string (bytesOf "</script >")) (bytesOf "a") (by decide)
    (List.forall_mem_singleton.mpr (by decide)) 21
  revert hends
  decide +kernel

end HTMLIEngine

end Mantids
