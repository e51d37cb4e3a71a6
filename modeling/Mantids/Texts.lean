/-
# Texts

Headers are cut into tokens, and what surrounds a token is trimmed.

* `splitCompress_eq`, `splitCompress_join` — the tokens of a text that was put together from them;
* `length_splitCompress_le` — how many there are at most;
* `trimBytes_eq_self`, `trimBytes_cons` — what trimming leaves;
* `strtoull_decimal` — a number that was printed is read back.
-/
import Mantids.HttpConnection

namespace Mantids

/-! ## Tokens -/

section Tokens

variable {p : UInt8 → Bool} {s t : List UInt8}

/-- If the text does not end with a separator, the tokens behind the first one are those that are
not empty. -/
theorem splitCompress_eq {ts : List (List UInt8)} (h : s.splitOnP p = t :: ts)
    (hlast : ∀ u ∈ ts.getLast?, u ≠ []) :
    splitCompress p s = t :: ts.filter (· ≠ []) := by
  have htail : ts ≠ [] →
      ts.dropLast.filter (· ≠ []) ++ ts.getLast?.toList = ts.filter (· ≠ []) := by
    intro hne
    have hlast' := hlast _ (List.getLast?_eq_some_getLast hne)
    conv_rhs => rw [← List.dropLast_append_getLast hne, List.filter_append]
    rw [List.getLast?_eq_some_getLast hne]
    simp [hlast']
  unfold splitCompress
  rw [h]
  rcases ts with _ | ⟨v, ts⟩
  · rfl
  · exact congrArg (t :: ·) (htail (List.cons_ne_nil v ts))

/-- Separators, each with the token behind it. -/
def joined (ts : List (UInt8 × List UInt8)) : List UInt8 := ts.flatMap fun u => u.1 :: u.2

theorem splitOnP_join {ts : List (UInt8 × List UInt8)} (ht : ∀ x ∈ t, p x = false)
    (hts : ∀ u ∈ ts, p u.1 = true ∧ ∀ x ∈ u.2, p x = false) :
    (t ++ joined ts).splitOnP p = t :: ts.map (·.2) := by
  induction ts generalizing t with
  | nil =>
      rw [joined, List.flatMap_nil, List.append_nil, List.splitOnP_eq_singleton ht]
      rfl
  | cons u ts ih =>
      rw [List.forall_mem_cons] at hts
      rw [joined, List.flatMap_cons, ← joined, List.cons_append,
        List.splitOnP_append_cons_of_forall_mem ht u.1 hts.1.1, ih hts.1.2 hts.2]
      rfl

/-- The first token ends in front of the first separator. -/
theorem splitCompress_head (p : UInt8 → Bool) (s : List UInt8) :
    ∃ ts, splitCompress p s = s.takeWhile (fun c => !p c) :: ts := by
  have hfree : ∀ x ∈ s.takeWhile (fun c => !p c), p x = false := by
    intro x hx
    simpa using List.mem_takeWhile_imp hx
  have hsplit : ∃ ts, s.splitOnP p = s.takeWhile (fun c => !p c) :: ts := by
    rcases hrest : s.dropWhile (fun c => !p c) with _ | ⟨c, rest⟩
    · have hall : s.takeWhile (fun c => !p c) = s := by
        rw [List.takeWhile_eq_self_iff]
        exact List.dropWhile_eq_nil_iff.mp hrest
      rw [hall] at hfree ⊢
      exact ⟨[], List.splitOnP_eq_singleton hfree⟩
    · have hc : p c = true := by
        have hhead := List.head?_dropWhile_not (fun c => !p c) s
        rw [hrest] at hhead
        simpa using hhead
      refine ⟨rest.splitOnP p, ?_⟩
      conv_lhs => rw [← List.takeWhile_append_dropWhile (p := fun c => !p c) (l := s), hrest]
      exact List.splitOnP_append_cons_of_forall_mem hfree c hc rest
  obtain ⟨ts, hts⟩ := hsplit
  unfold splitCompress
  rw [hts]
  rcases ts with _ | ⟨u, ts⟩
  · exact ⟨[], rfl⟩
  · exact ⟨_, rfl⟩

/-- A text that was put together from tokens is cut into them. -/
theorem splitCompress_join {ts : List (UInt8 × List UInt8)} (ht : ∀ x ∈ t, p x = false)
    (hts : ∀ u ∈ ts, p u.1 = true ∧ ∀ x ∈ u.2, p x = false)
    (hlast : ∀ u ∈ ts.getLast?, u.2 ≠ []) :
    splitCompress p (t ++ joined ts) =
      t :: (ts.map (·.2)).filter (· ≠ []) := by
  apply splitCompress_eq (splitOnP_join ht hts)
  intro v hv
  rw [List.getLast?_map] at hv
  obtain ⟨u, hu, rfl⟩ := Option.mem_map.mp hv
  exact hlast u hu

/-- There is a token for each separator, and one. -/
theorem length_splitCompress_le (p : UInt8 → Bool) (s : List UInt8) :
    (splitCompress p s).length ≤ s.countP p + 1 := by
  have hsplit : (s.splitOnP p).length = s.countP p + 1 := by
    induction s with
    | nil => rfl
    | cons c s ih =>
        rw [List.splitOnP_cons_eq_if_modifyHead]
        by_cases hc : p c = true
        · rw [if_pos hc, List.length_cons, ih, List.countP_cons_of_pos hc]
        · rw [if_neg hc, List.length_modifyHead, ih, List.countP_cons_of_neg hc]
  rw [← hsplit]
  unfold splitCompress
  rcases s.splitOnP p with _ | ⟨t, _ | ⟨u, ts⟩⟩
  · exact le_refl _
  · exact le_refl _
  · -- of the tokens behind the first one some are left out
    have hfilter := List.length_filter_le (· ≠ []) (u :: ts).dropLast
    rw [List.length_dropLast] at hfilter
    show (t :: ((u :: ts).dropLast.filter (· ≠ []) ++ (u :: ts).getLast?.toList)).length ≤ _
    rw [List.getLast?_eq_some_getLast (List.cons_ne_nil u ts)]
    simp only [List.length_cons, List.length_append, Option.toList_some, List.length_nil]
      at hfilter ⊢
    omega

end Tokens

/-- A part of a text that is written on a condition. -/
def writtenIf (isWritten : Prop) [Decidable isWritten] (text : List UInt8) : List (List UInt8) :=
  if isWritten then [text] else []

theorem mem_writtenIf {isWritten : Prop} [Decidable isWritten] {text a : List UInt8} :
    a ∈ writtenIf isWritten text ↔ isWritten ∧ a = text := by
  unfold writtenIf
  split <;> simp [*]

/-- In a loop over the parts, one that is not written has to make no difference. -/
theorem foldl_writtenIf {σ : Type*} (read : σ → List UInt8 → σ) {isWritten : Prop}
    [Decidable isWritten] {text : List UInt8} {s s' : σ} (hread : isWritten → read s text = s')
    (hdefault : ¬ isWritten → s = s') (parts : List (List UInt8)) :
    (writtenIf isWritten text ++ parts).foldl read s = parts.foldl read s' := by
  unfold writtenIf
  split
  · rename_i h
    rw [List.singleton_append, List.foldl_cons, hread h]
  · rename_i h
    rw [List.nil_append, hdefault h]

/-! ## White space -/

/-- Trimming takes nothing away from the text. -/
def Trimmed (s : List UInt8) : Prop := trimBytes s = s

instance (s : List UInt8) : Decidable (Trimmed s) := inferInstanceAs (Decidable (trimBytes s = s))

/-- White space in front is taken away. -/
theorem trimBytes_cons {c : UInt8} (hc : isspace c = true) (s : List UInt8) :
    trimBytes (c :: s) = trimBytes s := by
  rw [trimBytes, trimBytes, List.dropWhile_cons_of_pos hc]

theorem trimBytes_subset (s : List UInt8) : trimBytes s ⊆ s := by
  intro c hc
  have hback := (List.dropWhile_suffix _).subset (List.mem_reverse.mp hc)
  exact (List.dropWhile_suffix _).subset (List.mem_reverse.mp hback)

theorem trimBytes_eq_self {s : List UInt8} (hs : ∀ c ∈ s.head?, isspace c = false)
    (hs' : ∀ c ∈ s.getLast?, isspace c = false) : trimBytes s = s := by
  have hfront : s.dropWhile isspace = s := by
    rcases s with _ | ⟨c, s⟩
    · rfl
    · exact List.dropWhile_cons_of_neg (by simpa using hs c rfl)
  have hback : s.reverse.dropWhile isspace = s.reverse := by
    rcases hrev : s.reverse with _ | ⟨c, t⟩
    · rfl
    · apply List.dropWhile_cons_of_neg
      have hlast : s.getLast? = some c := by
        rw [← List.head?_reverse, hrev]
        rfl
      simpa using hs' c hlast
  rw [trimBytes, hfront, hback, List.reverse_reverse]

/-- What is left after trimming neither begins nor ends with white space. -/
theorem trimBytes_ends (s : List UInt8) :
    (∀ c ∈ (trimBytes s).head?, isspace c = false) ∧
      ∀ c ∈ (trimBytes s).getLast?, isspace c = false := by
  have hfront : ∀ c ∈ (s.dropWhile isspace).head?, isspace c = false := by
    intro c hc
    have hhead := List.head?_dropWhile_not isspace s
    rw [Option.mem_def.mp hc] at hhead
    exact hhead
  have hback := List.head?_dropWhile_not isspace (s.dropWhile isspace).reverse
  constructor
  · -- the front is that of the text that was trimmed in front
    intro c hc
    have hprefix : trimBytes s <+: s.dropWhile isspace := by
      rw [trimBytes, ← List.reverse_suffix, List.reverse_reverse]
      exact List.dropWhile_suffix _
    apply hfront
    obtain ⟨r, hr⟩ := hprefix
    obtain ⟨t, ht⟩ := List.head?_eq_some_iff.mp (Option.mem_def.mp hc)
    rw [← hr, ht]
    rfl
  · intro c hc
    rw [trimBytes, List.getLast?_reverse] at hc
    rw [Option.mem_def.mp hc] at hback
    exact hback

theorem trimmed_trimBytes (s : List UInt8) : Trimmed (trimBytes s) :=
  trimBytes_eq_self (trimBytes_ends s).1 (trimBytes_ends s).2

theorem Trimmed.ends {s : List UInt8} (h : Trimmed s) :
    (∀ c ∈ s.head?, isspace c = false) ∧ ∀ c ∈ s.getLast?, isspace c = false := by
  have hends := trimBytes_ends s
  rwa [show trimBytes s = s from h] at hends

theorem isspace_of_le {c : UInt8} (h : 48 ≤ c) : isspace c = false := by
  by_contra hspace
  rw [Bool.not_eq_false] at hspace
  simp only [isspace] at hspace
  grind

/-! ## Numbers -/

theorem isdigit_of_mem_decimal (n : ℕ) : ∀ c ∈ decimal n, isdigit c = true := by
  intro c hc
  simp [isdigit, range_of_mem_decimal n c hc]

theorem trimmed_decimal (n : ℕ) : Trimmed (decimal n) := by
  have hspace : ∀ c ∈ decimal n, isspace c = false :=
    fun c hc => isspace_of_le (le_of_mem_decimal n c hc)
  exact trimBytes_eq_self (fun c hc => hspace c (List.mem_of_head? hc))
    fun c hc => hspace c (List.mem_of_getLast? hc)

theorem decimal_ne_nil (n : ℕ) : decimal n ≠ [] := by
  unfold decimal
  split
  · simp
  · rename_i hn
    simpa [Nat.digits_eq_nil_iff_eq_zero] using hn

/-- The loop over the digits of a number gives the number. -/
theorem foldl_decimal (n : ℕ) :
    (decimal n).foldl (fun v c => v * 10 + (c.toNat - 48)) 0 = n := by
  unfold decimal
  split
  · rename_i hzero
    rw [hzero]
    rfl
  · have hdigit : ∀ d ∈ Nat.digits 10 n, (UInt8.ofNat (48 + d)).toNat - 48 = d := by
      intro d hd
      have hlt := Nat.digits_lt_base (by norm_num) hd
      interval_cases d <;> rfl
    rw [List.foldl_map, List.foldl_reverse]
    conv_rhs => rw [← Nat.ofDigits_digits 10 n]
    generalize Nat.digits 10 n = digits at hdigit ⊢
    induction digits with
    | nil => rfl
    | cons d ds ih =>
        rw [List.forall_mem_cons] at hdigit
        rw [List.foldr_cons, ih hdigit.2, hdigit.1, Nat.ofDigits_cons]
        ring

theorem strtoull_decimal {n : ℕ} (hn : n < 2 ^ 64) : strtoull (decimal n) = n := by
  have hdigit := isdigit_of_mem_decimal n
  have hbytes : ∀ c ∈ decimal n, c ≠ 0 ∧ isspace c = false ∧ c ≠ 45 ∧ c ≠ 43 := by
    intro c hc
    have h := hdigit c hc
    refine ⟨?_, ?_, ?_, ?_⟩
    · rintro rfl
      exact absurd h (by decide)
    · by_contra hspace
      rw [Bool.not_eq_false] at hspace
      simp only [isspace, isdigit] at hspace h
      grind
    · rintro rfl
      exact absurd h (by decide)
    · rintro rfl
      exact absurd h (by decide)
  have hend : (decimal n).takeWhile (· ≠ 0) = decimal n := by
    rw [List.takeWhile_eq_self_iff]
    intro c hc
    simpa using (hbytes c hc).1
  obtain ⟨c, cs, hcons⟩ := List.exists_cons_of_ne_nil (decimal_ne_nil n)
  have hc := hbytes c (by rw [hcons]; exact List.mem_cons_self)
  have hspace : (decimal n).dropWhile isspace = decimal n := by
    rw [hcons, List.dropWhile_cons_of_neg (by simpa using hc.2.1)]
  have hhead : (decimal n).head? = some c := by rw [hcons]; rfl
  have hall : (decimal n).takeWhile isdigit = decimal n := List.takeWhile_eq_self_iff.mpr hdigit
  have hsign : ¬ (some c = some (45 : UInt8) ∨ some c = some 43) := by simp [hc.2.2]
  unfold strtoull
  simp only [hend, hspace, hhead, if_neg hsign, hall, foldl_decimal]
  rw [if_neg (by omega)]
  simp [hc.2.2.1]

end Mantids
