/-
# The words of a shell command line

The quoting rules of the POSIX shell.  Outside of quotes a backslash quotes the next byte and blanks
separate the words; single quotes quote everything up to the next single quote; between double
quotes a backslash quotes a few bytes only.  A word says of each of its bytes whether it was quoted,
so that operators and expansions are its bytes that were not.

* `split` — the words of a line, if its quotes are closed;
* `split_plain`, `split_quoted` — bytes without a meaning to the shell, and bytes in single quotes;
* `countP_lt_of_words` — a single quote in a word costs a backslash or a pair of double quotes.
-/
import Mathlib.Data.List.Basic
import Mathlib.Data.UInt

namespace ShellWords

/-! ## Splitting -/

/-- Where in its quotes a line is. -/
inductive Mode where
  | unquoted
  /-- Behind a backslash. -/
  | escaped
  | single
  | double
  /-- Behind a backslash between double quotes. -/
  | doubleEscaped
deriving DecidableEq

/-- A word: its bytes, each with whether it was quoted. -/
abbrev Word := List (UInt8 × Bool)

/-- Space, tab and newline. -/
def IsBlank (c : UInt8) : Prop := c = 32 ∨ c = 9 ∨ c = 10

instance (c : UInt8) : Decidable (IsBlank c) :=
  inferInstanceAs (Decidable (c = 32 ∨ c = 9 ∨ c = 10))

/-- The bytes that a backslash quotes between double quotes: a dollar, a backquote, double quotes
and a backslash. -/
def IsDoubleSpecial (c : UInt8) : Prop := c = 36 ∨ c = 96 ∨ c = 34 ∨ c = 92

instance (c : UInt8) : Decidable (IsDoubleSpecial c) :=
  inferInstanceAs (Decidable (c = 36 ∨ c = 96 ∨ c = 34 ∨ c = 92))

/-- One byte more. -/
def push (word : Option Word) (c : UInt8) (quoted : Bool) : Option Word :=
  some (word.getD [] ++ [(c, quoted)])

/-- The words of a line, from inside of a word or between two of them; `none` if a quote is not
closed. -/
def split : Mode → Option Word → List UInt8 → Option (List Word)
  | .unquoted, word, [] => some word.toList
  | .unquoted, word, c :: s =>
    if IsBlank c then (split .unquoted none s).map (word.toList ++ ·)
    else if c = 92 then split .escaped word s
    else if c = 39 then split .single (some (word.getD [])) s
    else if c = 34 then split .double (some (word.getD [])) s
    else split .unquoted (push word c false) s
  | .escaped, _, [] => none
  | .escaped, word, c :: s =>
    -- A backslash and a newline are a continuation of the line.
    if c = 10 then split .unquoted word s else split .unquoted (push word c true) s
  | .single, _, [] => none
  | .single, word, c :: s =>
    if c = 39 then split .unquoted word s else split .single (push word c true) s
  | .double, _, [] => none
  | .double, word, c :: s =>
    if c = 34 then split .unquoted word s
    else if c = 92 then split .doubleEscaped word s
    else split .double (push word c true) s
  | .doubleEscaped, _, [] => none
  | .doubleEscaped, word, c :: s =>
    if IsDoubleSpecial c then split .double (push word c true) s
    else if c = 10 then split .double word s
    else split .double (push (push word 92 true) c true) s

/-- The words of a command line. -/
def words (line : List UInt8) : Option (List Word) := split .unquoted none line

/-! ## Pieces of a line -/

/-- A byte without a meaning to the quoting rules. -/
def Plain (c : UInt8) : Prop := ¬ IsBlank c ∧ c ≠ 92 ∧ c ≠ 39 ∧ c ≠ 34

instance (c : UInt8) : Decidable (Plain c) :=
  inferInstanceAs (Decidable (¬ IsBlank c ∧ c ≠ 92 ∧ c ≠ 39 ∧ c ≠ 34))

theorem split_unquoted_cons (word : Option Word) (c : UInt8) (s : List UInt8) :
    split .unquoted word (c :: s)
      = if IsBlank c then (split .unquoted none s).map (word.toList ++ ·)
        else if c = 92 then split .escaped word s
        else if c = 39 then split .single (some (word.getD [])) s
        else if c = 34 then split .double (some (word.getD [])) s
        else split .unquoted (push word c false) s := rfl

theorem split_plain {a : List UInt8} (h : ∀ c ∈ a, Plain c) (w : Word) (s : List UInt8) :
    split .unquoted (some w) (a ++ s)
      = split .unquoted (some (w ++ a.map fun c => (c, false))) s := by
  induction a generalizing w with
  | nil => rw [List.nil_append, List.map_nil, List.append_nil]
  | cons c a ih =>
    rw [List.forall_mem_cons] at h
    obtain ⟨⟨hblank, hback, hsingle, hdouble⟩, ha⟩ := h
    rw [List.cons_append, split_unquoted_cons, if_neg hblank, if_neg hback, if_neg hsingle,
      if_neg hdouble, push, Option.getD_some, ih ha, List.append_assoc]
    rfl

/-- A word begins with a plain byte. -/
theorem split_none_cons {c : UInt8} (h : Plain c) (s : List UInt8) :
    split .unquoted none (c :: s) = split .unquoted (some []) (c :: s) := by
  obtain ⟨hblank, hback, hsingle, hdouble⟩ := h
  rw [split_unquoted_cons, split_unquoted_cons]
  simp only [if_neg hblank, if_neg hback, if_neg hsingle, if_neg hdouble]
  rfl

/-- Bytes up to the single quote that closes them. -/
theorem split_single {v : List UInt8} (h : 39 ∉ v) (w : Word) (s : List UInt8) :
    split .single (some w) (v ++ 39 :: s)
      = split .unquoted (some (w ++ v.map fun c => (c, true))) s := by
  induction v generalizing w with
  | nil => rw [List.nil_append, split, if_pos rfl, List.map_nil, List.append_nil]
  | cons c v ih =>
    rw [List.mem_cons, not_or] at h
    rw [List.cons_append, split, if_neg (Ne.symm h.1), push, Option.getD_some, ih h.2,
      List.append_assoc]
    rfl

/-- Bytes in single quotes. -/
theorem split_quoted {v : List UInt8} (h : 39 ∉ v) (w : Word) (s : List UInt8) :
    split .unquoted (some w) (39 :: (v ++ 39 :: s))
      = split .unquoted (some (w ++ v.map fun c => (c, true))) s := by
  rw [split_unquoted_cons, if_neg (by decide), if_neg (by decide), if_pos rfl]
  exact split_single h w s

/-- A blank ends a word. -/
theorem split_blank {c : UInt8} (h : IsBlank c) (w : Word) (s : List UInt8) :
    split .unquoted (some w) (c :: s) = (split .unquoted none s).map (w :: ·) := by
  rw [split_unquoted_cons, if_pos h]
  rfl

/-! ## What a single quote in a word costs -/

/-- The bytes of words. -/
def bytes (ws : List Word) : List UInt8 := ws.flatten.map Prod.fst

theorem bytes_cons (w : Word) (ws : List Word) : bytes (w :: ws) = w.map Prod.fst ++ bytes ws := by
  rw [bytes, List.flatten_cons, List.map_append]
  rfl

/-- A backslash, or a double quote. -/
def isQuoting (c : UInt8) : Bool := c == 92 || c == 34

namespace Mode

/-- How many backslashes and double quotes a line has spent to be where it is. -/
def spent : Mode → ℕ
  | unquoted => 0
  | single => 0
  | escaped => 1
  | double => 1
  | doubleEscaped => 2

/-- The spent bytes quote something. -/
def Open (m : Mode) : Prop := m.spent ≠ 0

end Mode

/-- What the rest of a line adds to the words, and what it costs: no more backslashes and double
quotes than there are, and less than that behind a byte that was spent or for a single quote. -/
def Costs (m : Mode) (word : Option Word) (s : List UInt8) (ws : List Word) : Prop :=
  ∃ out, bytes ws = (word.getD []).map Prod.fst ++ out ∧
    out.countP isQuoting ≤ s.countP isQuoting + m.spent ∧
    (m.Open ∨ 39 ∈ out → out.countP isQuoting < s.countP isQuoting + m.spent)

variable {m m' : Mode} {word : Option Word} {c : UInt8} {s : List UInt8} {ws : List Word}

/-- A byte that is not added to a word. -/
theorem Costs.skip (h : Costs m' word s ws)
    (hle : s.countP isQuoting + m'.spent ≤ (c :: s).countP isQuoting + m.spent)
    (hopen : m.Open → ¬ m'.Open →
      s.countP isQuoting + m'.spent < (c :: s).countP isQuoting + m.spent) :
    Costs m word (c :: s) ws := by
  obtain ⟨out, hbytes, hcount, hlt⟩ := h
  refine ⟨out, hbytes, hcount.trans hle, ?_⟩
  rintro (hm | hquote)
  · by_cases hm' : m'.Open
    · exact lt_of_lt_of_le (hlt (.inl hm')) hle
    · exact lt_of_le_of_lt hcount (hopen hm hm')
  · exact lt_of_lt_of_le (hlt (.inr hquote)) hle

/-- A byte that is added to a word, as it is in the line. -/
theorem Costs.push (quoted : Bool) (h : Costs m' (push word c quoted) s ws)
    (hle : m'.spent ≤ m.spent) (hopen : (m.Open ∨ c = 39) → m'.Open ∨ m'.spent < m.spent) :
    Costs m word (c :: s) ws := by
  obtain ⟨out, hbytes, hcount, hlt⟩ := h
  refine ⟨c :: out, ?_, ?_, ?_⟩
  · rw [hbytes, ShellWords.push, Option.getD_some, List.map_append, List.append_assoc]
    rfl
  · rw [List.countP_cons, List.countP_cons]
    omega
  · intro hcost
    rw [List.countP_cons, List.countP_cons]
    by_cases hm' : m'.Open ∨ 39 ∈ out
    · have hless := hlt hm'
      omega
    · rw [not_or] at hm'
      have hless : m'.spent < m.spent := by
        apply (hopen _).resolve_left hm'.1
        rw [List.mem_cons] at hcost
        rcases hcost with hm | hc | hout
        · exact .inl hm
        · exact .inr hc.symm
        · exact absurd hout hm'.2
      omega

theorem countP_quoting_cons {c : UInt8} (h : isQuoting c = true) (s : List UInt8) :
    (c :: s).countP isQuoting = s.countP isQuoting + 1 :=
  List.countP_cons_of_pos h

theorem countP_le_cons (c : UInt8) (s : List UInt8) :
    s.countP isQuoting ≤ (c :: s).countP isQuoting := by
  rw [List.countP_cons]
  exact Nat.le_add_right _ _

/-- A backslash between double quotes that quotes nothing. -/
theorem Costs.backslash (h : Costs .double (ShellWords.push word 92 true) s ws) :
    Costs .doubleEscaped word s ws := by
  obtain ⟨out, hbytes, hcount, hlt⟩ := h
  have hless := hlt (.inl Nat.one_ne_zero)
  have hpay := countP_quoting_cons (c := 92) (by decide) out
  refine ⟨92 :: out, ?_, ?_, ?_⟩
  · rw [hbytes, ShellWords.push, Option.getD_some, List.map_append, List.append_assoc]
    rfl
  · simp only [Mode.spent] at hcount ⊢
    omega
  · intro _
    simp only [Mode.spent] at hless ⊢
    omega

/-- A blank ends a word. -/
theorem Costs.blank (h : Costs .unquoted none s ws) :
    Costs .unquoted word (c :: s) (word.toList ++ ws) := by
  obtain ⟨out, hbytes, hcount, hlt⟩ := h
  refine ⟨out, ?_, hcount.trans (countP_le_cons c s), ?_⟩
  · cases word with
    | none => exact hbytes
    | some w => exact (bytes_cons w ws).trans (congrArg (w.map Prod.fst ++ ·) hbytes)
  · intro hcost
    exact lt_of_lt_of_le (hlt hcost) (countP_le_cons c s)

/-- What the words of a line cost. -/
theorem costs_of_split (h : split m word s = some ws) : Costs m word s ws := by
  -- The induction is on the line, and the cases are those of the shell.
  induction s generalizing m word ws with
  | nil =>
    cases m with
    | unquoted =>
      rw [split, Option.some.injEq] at h
      refine ⟨[], ?_, Nat.zero_le _, ?_⟩
      · rw [← h, List.append_nil]
        cases word with
        | none => rfl
        | some w => exact (bytes_cons w []).trans (List.append_nil _)
      · rintro (hopen | hquote)
        · exact absurd rfl hopen
        · exact absurd hquote List.not_mem_nil
    | escaped => exact absurd h (by simp [split])
    | single => exact absurd h (by simp [split])
    | double => exact absurd h (by simp [split])
    | doubleEscaped => exact absurd h (by simp [split])
  | cons c s ih =>
    have hmono := countP_le_cons c s
    cases m with
    | unquoted =>
      rw [split_unquoted_cons] at h
      split_ifs at h with hblank hback hsingle hdouble
      · obtain ⟨rest, hrest, rfl⟩ := Option.map_eq_some_iff.mp h
        exact (ih hrest).blank
      · have hpay := countP_quoting_cons (c := c) (by rw [hback]; decide) s
        exact (ih h).skip hpay.ge (fun hm => absurd rfl hm)
      · exact (ih h).skip hmono (fun hm => absurd rfl hm)
      · have hpay := countP_quoting_cons (c := c) (by rw [hdouble]; decide) s
        exact (ih h).skip hpay.ge (fun hm => absurd rfl hm)
      · apply (ih h).push false le_rfl
        rintro (hm | hc)
        · exact absurd rfl hm
        · exact absurd hc hsingle
    | escaped =>
      rw [split] at h
      split_ifs at h with hnewline
      · exact (ih h).skip (Nat.le_succ_of_le hmono) (fun _ _ => Nat.lt_succ_of_le hmono)
      · exact (ih h).push true (Nat.zero_le _) (fun _ => .inr Nat.zero_lt_one)
    | single =>
      rw [split] at h
      split_ifs at h with hsingle
      · exact (ih h).skip hmono (fun hm => absurd rfl hm)
      · apply (ih h).push true le_rfl
        rintro (hm | hc)
        · exact absurd rfl hm
        · exact absurd hc hsingle
    | double =>
      -- Whatever is quoted here has cost the double quote in front of it.
      rw [split] at h
      split_ifs at h with hdouble hback
      · exact (ih h).skip (Nat.le_succ_of_le hmono) (fun _ _ => Nat.lt_succ_of_le hmono)
      · have hpay := countP_quoting_cons (c := c) (by rw [hback]; decide) s
        exact (ih h).skip (Nat.add_le_add_right hpay.ge 1)
          (fun _ hm => absurd (Nat.succ_ne_zero 1) hm)
      · exact (ih h).push true le_rfl (fun _ => .inl Nat.one_ne_zero)
    | doubleEscaped =>
      rw [split] at h
      split_ifs at h with hspecial hnewline
      · exact (ih h).push true (Nat.le_succ 1) (fun _ => .inl Nat.one_ne_zero)
      · exact (ih h).skip (Nat.add_le_add hmono (Nat.le_succ 1))
          (fun _ hm => absurd Nat.one_ne_zero hm)
      · -- The backslash is in the word, so that it is not spent.
        apply Costs.backslash
        exact (ih h).push true le_rfl (fun _ => .inl Nat.one_ne_zero)

/-- A single quote in a word costs a backslash or a pair of double quotes. -/
theorem countP_lt_of_words {line : List UInt8} (h : words line = some ws) (hquote : 39 ∈ bytes ws) :
    (bytes ws).countP isQuoting < line.countP isQuoting := by
  obtain ⟨out, hbytes, -, hlt⟩ := costs_of_split h
  rw [show bytes ws = out from hbytes] at hquote ⊢
  exact hlt (.inr hquote)

end ShellWords
