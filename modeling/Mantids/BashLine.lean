/-
# The options of a program as a command line

`GlobalArguments::getCurrentProgramOptionsValuesAsBashLine` (`Program_Service/globalarguments.cpp`)
prints every option with its values in one line for a shell, each value in single quotes.

* `CommandLineOption` — an option, with the texts of its values;
* `getCurrentProgramOptionsValuesAsBashLine` — the line;
* `storedValues` — the names and the values that belong into the line;
* `countP_line` — the line has the backslashes and the double quotes of the values, and no others;
* `quoted_iff` — when a shell reads the values back.
-/
import Mantids.JsonEvalLiterals
import Mantids.Lib.ShellWords

namespace Mantids

open ShellWords

namespace GlobalArguments

/-! ## The line -/

/-- A `CommandLineOption`; the values are the texts of their variables. -/
structure CommandLineOption where
  name : List UInt8
  shortOption : ℤ := 0
  parsedOption : List (List UInt8) := []
  defaultValVar : List UInt8

namespace CommandLineOption

/-- `varNameToPrint`. -/
def varNameToPrint (v : CommandLineOption) : List UInt8 :=
  if 0 < v.shortOption ∧ v.shortOption < 256 then
    if v.name = [] then [UInt8.ofNat v.shortOption.toNat] else v.name
  else v.name

/-- An option that `removeInstall` leaves out. -/
def Removed (removeInstall : Bool) (v : CommandLineOption) : Prop :=
  removeInstall = true ∧ (v.varNameToPrint = bytesOf "install" ∨
    v.varNameToPrint = bytesOf "reinstall" ∨ v.varNameToPrint = bytesOf "uninstall")

instance (removeInstall : Bool) (v : CommandLineOption) : Decidable (v.Removed removeInstall) :=
  inferInstanceAs (Decidable (_ ∧ _))

end CommandLineOption

/-- A value with its name.  In the source the replacement is written with a backslash before its
second quote, which C++ reads as the quote alone. -/
def setting (name value : List UInt8) : List UInt8 :=
  bytesOf "--" ++ name ++ bytesOf "='" ++ replaceAll (bytesOf "'") (bytesOf "'''") value
    ++ bytesOf "'"

/-- One more value. -/
def appendSetting (r name value : List UInt8) : List UInt8 :=
  r ++ (if r = [] then [] else bytesOf " ") ++ setting name value

/-- The values of an option, or its default. -/
def appendOption (removeInstall : Bool) (r : List UInt8) (v : CommandLineOption) : List UInt8 :=
  if v.Removed removeInstall then r
  else
    let r := v.parsedOption.foldl (fun r var => appendSetting r v.varNameToPrint var) r
    if v.parsedOption = [] then appendSetting r v.varNameToPrint v.defaultValVar else r

/-- `getCurrentProgramOptionsValuesAsBashLine(removeInstall)`, over the groups of options. -/
def getCurrentProgramOptionsValuesAsBashLine (removeInstall : Bool)
    (commandOptions : List (List UInt8 × List CommandLineOption)) : List UInt8 :=
  commandOptions.foldl (fun r i => i.2.foldl (appendOption removeInstall) r) []

/-! ## What a shell is to read -/

/-- The values of an option, with its name. -/
def CommandLineOption.settings (v : CommandLineOption) : List (List UInt8 × List UInt8) :=
  (if v.parsedOption = [] then [v.defaultValVar] else v.parsedOption).map fun value =>
    (v.varNameToPrint, value)

/-- The names and the values that belong into the line. -/
def storedValues (removeInstall : Bool)
    (commandOptions : List (List UInt8 × List CommandLineOption)) :
    List (List UInt8 × List UInt8) :=
  commandOptions.flatMap fun i =>
    i.2.flatMap fun v => if v.Removed removeInstall then [] else v.settings

/-- The word of a value: its name as it is, the value in quotes. -/
def settingWord (p : List UInt8 × List UInt8) : Word :=
  (bytesOf "--" ++ p.1 ++ bytesOf "=").map (fun c => (c, false)) ++ p.2.map fun c => (c, true)

/-- A shell reads the line as one word for each value. -/
def Quoted (removeInstall : Bool) (commandOptions : List (List UInt8 × List CommandLineOption)) :
    Prop :=
  words (getCurrentProgramOptionsValuesAsBashLine removeInstall commandOptions)
    = some ((storedValues removeInstall commandOptions).map settingWord)

instance (removeInstall : Bool) (commandOptions : List (List UInt8 × List CommandLineOption)) :
    Decidable (Quoted removeInstall commandOptions) :=
  inferInstanceAs (Decidable (_ = _))

/-- A letter, a digit or a dash. -/
def IsNameByte (c : UInt8) : Prop :=
  (97 ≤ c ∧ c ≤ 122) ∨ (65 ≤ c ∧ c ≤ 90) ∨ (48 ≤ c ∧ c ≤ 57) ∨ c = 45

instance (c : UInt8) : Decidable (IsNameByte c) :=
  inferInstanceAs (Decidable (_ ∨ _))

/-! ## The line as a list of values -/

/-- The line is made of the values. -/
theorem line_eq_foldl (removeInstall : Bool)
    (commandOptions : List (List UInt8 × List CommandLineOption)) :
    getCurrentProgramOptionsValuesAsBashLine removeInstall commandOptions
      = (storedValues removeInstall commandOptions).foldl (fun r p => appendSetting r p.1 p.2)
          [] := by
  have hoption : ∀ (r : List UInt8) (v : CommandLineOption),
      appendOption removeInstall r v
        = (if v.Removed removeInstall then [] else v.settings).foldl
            (fun r p => appendSetting r p.1 p.2) r := by
    intro r v
    unfold appendOption CommandLineOption.settings
    by_cases hremoved : v.Removed removeInstall
    · rw [if_pos hremoved, if_pos hremoved]
      rfl
    · rw [if_neg hremoved, if_neg hremoved, List.foldl_map]
      -- The default stands for the values if there are none.
      by_cases hnil : v.parsedOption = []
      · rw [if_pos hnil, if_pos hnil, hnil]
        rfl
      · rw [if_neg hnil, if_neg hnil]
  have hgroup : ∀ (r : List UInt8) (i : List UInt8 × List CommandLineOption),
      i.2.foldl (appendOption removeInstall) r
        = (i.2.flatMap fun v => if v.Removed removeInstall then [] else v.settings).foldl
            (fun r p => appendSetting r p.1 p.2) r := by
    intro r i
    rw [List.foldl_flatMap]
    congr 1
    funext r v
    exact hoption r v
  rw [storedValues, List.foldl_flatMap, getCurrentProgramOptionsValuesAsBashLine]
  congr 1
  funext r i
  exact hgroup r i

/-- The values behind the first one. -/
def tail (ps : List (List UInt8 × List UInt8)) : List UInt8 :=
  ps.flatMap fun p => 32 :: setting p.1 p.2

theorem foldl_appendSetting {r : List UInt8} (hr : r ≠ []) (ps : List (List UInt8 × List UInt8)) :
    ps.foldl (fun r p => appendSetting r p.1 p.2) r = r ++ tail ps := by
  induction ps generalizing r with
  | nil => exact (List.append_nil r).symm
  | cons p ps ih =>
    have hnext : appendSetting r p.1 p.2 = r ++ 32 :: setting p.1 p.2 := by
      rw [appendSetting, if_neg hr, List.append_assoc]
      rfl
    rw [List.foldl_cons, hnext, ih (by simp), tail, tail, List.flatMap_cons, List.append_assoc]

/-- The first value stands alone, and each other one behind a blank. -/
theorem foldl_appendSetting_cons (p : List UInt8 × List UInt8)
    (ps : List (List UInt8 × List UInt8)) :
    (p :: ps).foldl (fun r p => appendSetting r p.1 p.2) [] = setting p.1 p.2 ++ tail ps := by
  have hne : setting p.1 p.2 ≠ [] := List.cons_ne_nil _ _
  exact foldl_appendSetting hne ps

/-! ## A value without quotes -/

theorem IsNameByte.plain {c : UInt8} (h : IsNameByte c) : Plain c := by
  refine ⟨?_, ?_, ?_, ?_⟩
  · rintro (rfl | rfl | rfl)
    · exact absurd h (by decide)
    · exact absurd h (by decide)
    · exact absurd h (by decide)
  · rintro rfl
    exact absurd h (by decide)
  · rintro rfl
    exact absurd h (by decide)
  · rintro rfl
    exact absurd h (by decide)

theorem bytesOf_quote : bytesOf "'" = [39] := by decide

theorem bytesOf_quotes : bytesOf "'''" = [39, 39, 39] := by decide

/-- The replacement of a quote, byte by byte. -/
theorem replaceAll_quote (v : List UInt8) :
    replaceAll (bytesOf "'") (bytesOf "'''") v
      = v.flatMap fun c => if c = 39 then [39, 39, 39] else [c] := by
  rw [bytesOf_quote, bytesOf_quotes, replaceAll_byte]

/-- A value without quotes stays as it is. -/
theorem replaceAll_quote_of_not_mem {v : List UInt8} (h : 39 ∉ v) :
    replaceAll (bytesOf "'") (bytesOf "'''") v = v := by
  rw [replaceAll_quote]
  induction v with
  | nil => rfl
  | cons c v ih =>
    rw [List.mem_cons, not_or] at h
    rw [List.flatMap_cons, if_neg (Ne.symm h.1), ih h.2]
    rfl

/-- A setting with a name for the shell, and a value without quotes. -/
structure Clean (p : List UInt8 × List UInt8) : Prop where
  name : ∀ c ∈ p.1, IsNameByte c
  value : 39 ∉ p.2

/-- The text of a setting in front of its first quote. -/
theorem plain_of_name {p : List UInt8 × List UInt8} (h : ∀ c ∈ p.1, IsNameByte c) :
    ∀ c ∈ bytesOf "--" ++ p.1 ++ bytesOf "=", Plain c := by
  have hdashes : bytesOf "--" = [45, 45] := by decide
  have hequals : bytesOf "=" = [61] := by decide
  intro c hc
  rw [hdashes, hequals, List.mem_append, List.mem_append] at hc
  rcases hc with (hc | hc) | hc
  · rw [List.eq_of_mem_replicate (n := 2) hc]
    decide
  · exact (h c hc).plain
  · rw [List.mem_singleton.mp hc]
    decide

theorem setting_eq (name value : List UInt8) :
    setting name value = (bytesOf "--" ++ name ++ bytesOf "=")
      ++ 39 :: (replaceAll (bytesOf "'") (bytesOf "'''") value ++ [39]) := by
  have hequals : bytesOf "='" = bytesOf "=" ++ [39] := by decide
  rw [setting, hequals, bytesOf_quote]
  simp only [List.append_assoc, List.cons_append, List.nil_append]

/-- A shell reads such a setting as its word. -/
theorem split_setting {p : List UInt8 × List UInt8} (h : Clean p) (s : List UInt8) :
    split .unquoted none (setting p.1 p.2 ++ s) = split .unquoted (some (settingWord p)) s := by
  have hbegin : split .unquoted none (setting p.1 p.2 ++ s)
      = split .unquoted (some []) (setting p.1 p.2 ++ s) := split_none_cons (by decide) _
  have hline : setting p.1 p.2 ++ s
      = (bytesOf "--" ++ p.1 ++ bytesOf "=") ++ 39 :: (p.2 ++ 39 :: s) := by
    rw [setting_eq, replaceAll_quote_of_not_mem h.value]
    simp only [List.append_assoc, List.cons_append, List.nil_append]
  rw [hbegin, hline, split_plain (plain_of_name h.name), split_quoted h.value]
  rfl

theorem split_tail {ps : List (List UInt8 × List UInt8)} (h : ∀ p ∈ ps, Clean p) (w : Word) :
    split .unquoted (some w) (tail ps) = some (w :: ps.map settingWord) := by
  induction ps generalizing w with
  | nil => rfl
  | cons p ps ih =>
    rw [List.forall_mem_cons] at h
    have htail : tail (p :: ps) = 32 :: (setting p.1 p.2 ++ tail ps) := by
      rw [tail, List.flatMap_cons]
      rfl
    rw [htail, split_blank (by decide), split_setting h.1, ih h.2]
    rfl

/-- A shell reads settings without quotes as their words. -/
theorem words_of_clean {ps : List (List UInt8 × List UInt8)} (h : ∀ p ∈ ps, Clean p) :
    words (ps.foldl (fun r p => appendSetting r p.1 p.2) []) = some (ps.map settingWord) := by
  cases ps with
  | nil => rfl
  | cons p ps =>
    rw [List.forall_mem_cons] at h
    rw [foldl_appendSetting_cons, words, split_setting h.1, split_tail h.2, List.map_cons]

/-! ## A value with a quote -/

theorem countP_name {p : List UInt8 × List UInt8} (h : ∀ c ∈ p.1, IsNameByte c) :
    (bytesOf "--" ++ p.1 ++ bytesOf "=").countP isQuoting = 0 := by
  rw [List.countP_eq_zero]
  intro c hc hquoting
  obtain ⟨-, hback, -, hdouble⟩ := plain_of_name h c hc
  rw [isQuoting, Bool.or_eq_true, beq_iff_eq, beq_iff_eq] at hquoting
  exact hquoting.elim hback hdouble

theorem countP_replaceAll (v : List UInt8) :
    (replaceAll (bytesOf "'") (bytesOf "'''") v).countP isQuoting = v.countP isQuoting := by
  rw [replaceAll_quote]
  induction v with
  | nil => rfl
  | cons c v ih =>
    rw [List.flatMap_cons, List.countP_append, ih, List.countP_cons]
    by_cases hc : c = 39
    · rw [if_pos hc, hc]
      exact Nat.add_comm _ _
    · rw [if_neg hc, List.countP_singleton]
      exact Nat.add_comm _ _

/-- A setting has the backslashes and the double quotes of its value. -/
theorem countP_setting {p : List UInt8 × List UInt8} (h : ∀ c ∈ p.1, IsNameByte c) :
    (setting p.1 p.2).countP isQuoting = p.2.countP isQuoting := by
  rw [setting_eq, List.countP_append, countP_name h, List.countP_cons, List.countP_append,
    countP_replaceAll, Nat.zero_add]
  rfl

theorem bytes_settingWord (p : List UInt8 × List UInt8) :
    (settingWord p).map Prod.fst = (bytesOf "--" ++ p.1 ++ bytesOf "=") ++ p.2 := by
  have hfst : ∀ (q : Bool) (a : List UInt8), (a.map fun c => (c, q)).map Prod.fst = a := by
    intro q a
    rw [List.map_map]
    exact List.map_id a
  rw [settingWord, List.map_append, hfst, hfst]

/-- The line has the backslashes and the double quotes of its words, if they are read back. -/
theorem countP_line {ps : List (List UInt8 × List UInt8)} (h : ∀ p ∈ ps, ∀ c ∈ p.1, IsNameByte c) :
    (ps.foldl (fun r p => appendSetting r p.1 p.2) []).countP isQuoting
      = (bytes (ps.map settingWord)).countP isQuoting := by
  have hword : ∀ p : List UInt8 × List UInt8, (∀ c ∈ p.1, IsNameByte c) →
      ((settingWord p).map Prod.fst).countP isQuoting = (setting p.1 p.2).countP isQuoting := by
    intro p hp
    rw [bytes_settingWord, List.countP_append, countP_name hp, countP_setting hp, Nat.zero_add]
  have htail : ∀ ps : List (List UInt8 × List UInt8), (∀ p ∈ ps, ∀ c ∈ p.1, IsNameByte c) →
      (tail ps).countP isQuoting = (bytes (ps.map settingWord)).countP isQuoting := by
    intro ps hps
    induction ps with
    | nil => rfl
    | cons p ps ih =>
      rw [List.forall_mem_cons] at hps
      rw [tail, List.flatMap_cons, List.countP_append, ← tail, ih hps.2, List.map_cons, bytes_cons,
        List.countP_append, hword p hps.1]
      rfl
  cases ps with
  | nil => rfl
  | cons p ps =>
    rw [List.forall_mem_cons] at h
    rw [foldl_appendSetting_cons, List.countP_append, htail ps h.2, List.map_cons, bytes_cons,
      List.countP_append, hword p h.1]

/-- A shell reads the values back exactly if none of them has a single quote. -/
theorem quoted_iff (removeInstall : Bool)
    (commandOptions : List (List UInt8 × List CommandLineOption))
    (hnames : ∀ p ∈ storedValues removeInstall commandOptions, ∀ c ∈ p.1, IsNameByte c) :
    Quoted removeInstall commandOptions
      ↔ ∀ p ∈ storedValues removeInstall commandOptions, 39 ∉ p.2 := by
  unfold Quoted
  rw [line_eq_foldl]
  constructor
  · intro hwords p hp hquote
    -- The line has no backslash and no double quote that it could spend on the quote.
    have hmem : 39 ∈ bytes ((storedValues removeInstall commandOptions).map settingWord) := by
      rw [bytes, List.mem_map]
      refine ⟨(39, true), List.mem_flatten.mpr ⟨settingWord p, List.mem_map_of_mem hp, ?_⟩, rfl⟩
      exact List.mem_append_right _ (List.mem_map_of_mem hquote)
    have hlt := countP_lt_of_words hwords hmem
    rw [countP_line hnames] at hlt
    exact absurd hlt (lt_irrefl _)
  · intro hvalues
    exact words_of_clean fun p hp => ⟨hnames p hp, hvalues p hp⟩

/-- A message of two words. -/
theorem quoted_message :
    (∀ p ∈ storedValues false [([], [⟨bytesOf "m", 0, [bytesOf "a b"], []⟩])],
      ∀ c ∈ p.1, IsNameByte c) ∧
    Quoted false [([], [⟨bytesOf "m", 0, [bytesOf "a b"], []⟩])] :=
  have hnames : ∀ p ∈ storedValues false [([], [⟨bytesOf "m", 0, [bytesOf "a b"], []⟩])],
      ∀ c ∈ p.1, IsNameByte c :=
    List.forall_mem_singleton.mpr (List.forall_mem_singleton.mpr (by decide))
  ⟨hnames, (quoted_iff false [([], [⟨bytesOf "m", 0, [bytesOf "a b"], []⟩])] hnames).mpr
    (by decide +kernel)⟩

/-- A message in single quotes: its semicolon is outside of quotes and ends the command, and the
shell runs what is behind it. -/
theorem not_quoted :
    words (getCurrentProgramOptionsValuesAsBashLine false
        [([], [⟨bytesOf "m", 0, [bytesOf "';x '"], []⟩])])
      = some [(bytesOf "--m=;x").map (fun c => (c, false)), []] ∧
    ¬ Quoted false [([], [⟨bytesOf "m", 0, [bytesOf "';x '"], []⟩])] := by
  decide +kernel

end GlobalArguments

end Mantids
