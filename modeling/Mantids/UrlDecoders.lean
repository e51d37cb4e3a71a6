/-
# Two decoders of percent-encoded text

`Decoders::URL` (`Protocol_HTTP/streamdecoder_url.cpp`) keeps up to three bytes of an escape and
writes them as they are where the escape is malformed; `Helpers::Encoders::fromURL`
(`Helpers/encoders.cpp`) looks ahead.  A `%` that ends a malformed escape is written with it by the
first one, and may start another escape for the second one.

* `streamDecoded` — what comes out of the stream decoder by the end;
* `malformedBefore` — the malformed escapes directly in front of a place;
* `Undisturbed` — in front of no escape there is an odd number of them;
* `decodeToEnd_eq_fromURL_iff` — the texts on which the two agree.
-/
import Mantids.HelpersUrl
import Mantids.UrlStream

namespace Mantids

namespace UrlDecoders

open DecoderURL HelperEncoders UrlStream

/-! ## The stream decoder -/

/-- What comes out for a text by its end, with nothing kept before it. -/
def streamDecoded (s : List UInt8) : List UInt8 := (decodeFrom [] s).2 ++ (decodeFrom [] s).1

theorem isPlain_iff (c : UInt8) : isPlain c = true ↔ c ≠ 37 ∧ c ≠ 43 := by
  simp [isPlain]

/-- Bytes that leave nothing kept come out by themselves. -/
theorem streamDecoded_of_flushed {used out : List UInt8} (h : decodeFrom [] used = ([], out))
    (s : List UInt8) : streamDecoded (used ++ s) = out ++ streamDecoded s := by
  rw [streamDecoded, decodeFrom_append, h, List.append_assoc]
  rfl

theorem streamDecoded_plain {c : UInt8} (hc : c ≠ 37 ∧ c ≠ 43) (s : List UInt8) :
    streamDecoded (c :: s) = c :: streamDecoded s := by
  have hone : decodeFrom [] [c] = ([], [c]) := by
    rw [decodeFrom, decodeByte, if_pos ((isPlain_iff c).mpr hc)]
    rfl
  exact streamDecoded_of_flushed hone s

theorem decodeByte_percent : decodeByte [] 37 = ([37], []) := by decide

/-- What may be of an escape that ends too early. -/
inductive Malformed : List UInt8 → Prop where
  | percent : Malformed [37]
  | digit {a : UInt8} (ha : isxdigit a = true) : Malformed [37, a]

/-- A byte that is no digit ends it, and is written with it. -/
theorem streamDecoded_malformed {m : List UInt8} (hm : Malformed m) {x : UInt8}
    (hx : isxdigit x = false) (s : List UInt8) :
    streamDecoded (m ++ x :: s) = m ++ x :: streamDecoded s := by
  have hflushed : decodeFrom [] (m ++ [x]) = ([], m ++ [x]) := by
    cases hm with
    | percent =>
        rw [List.singleton_append, decodeFrom, decodeByte_percent, decodeFrom, decodeByte,
          if_neg (by simp [hx])]
        rfl
    | digit ha =>
        rw [List.cons_append, List.singleton_append, decodeFrom, decodeByte_percent, decodeFrom,
          decodeByte, if_pos ha, decodeFrom, decodeByte, if_neg (by simp [hx])]
        rfl
  have hall := streamDecoded_of_flushed hflushed s
  rwa [List.append_assoc, List.append_assoc] at hall

/-- The text ends inside of it. -/
theorem streamDecoded_malformed_end {m : List UInt8} (hm : Malformed m) :
    streamDecoded m = m := by
  cases hm with
  | percent => decide
  | digit ha =>
      rw [streamDecoded, decodeFrom, decodeByte_percent, decodeFrom, decodeByte,
        if_pos ha]
      rfl

theorem streamDecoded_escape {a b : UInt8} (ha : isxdigit a = true) (hb : isxdigit b = true)
    (s : List UInt8) :
    streamDecoded (37 :: a :: b :: s) = hexPairToByte a b :: streamDecoded s := by
  have hthree : decodeFrom [] [37, a, b] = ([], [hexPairToByte a b]) := by
    rw [decodeFrom, decodeByte_percent, decodeFrom, decodeByte, if_pos ha, decodeFrom, decodeByte,
      if_pos hb]
    rfl
  exact streamDecoded_of_flushed hthree s

/-- Both decoders take the same byte for two digits. -/
theorem hexPairToByte_eq {a b : UInt8} (ha : isxdigit a = true) (hb : isxdigit b = true) :
    hexPairToByte a b = UInt8.ofNat (hexToValue a * 16 + hexToValue b) := by
  have hvalue : ∀ c, isxdigit c = true → xdigitValue c = hexToValue c := by decide +kernel
  rw [hexPairToByte, if_neg (by simp [ha, hb]), hvalue a ha, hvalue b hb]

/-! ## The condition -/

/-- The malformed escapes at the end of a text that is given backwards: a `%` alone, or with one
digit. -/
def malformedBefore : List UInt8 → ℕ
  | [] => 0
  | [c] => if c = 37 then 1 else 0
  | c :: d :: r =>
    if c = 37 then malformedBefore (d :: r) + 1
    else if d = 37 ∧ isxdigit c then malformedBefore r + 1
    else 0

/-- In a text with `r` in front of it, backwards, no escape has an odd number of malformed ones in
front of it. -/
def UndisturbedAfter (r s : List UInt8) : Prop :=
  ∀ before after, s = before ++ after → startsEscape after = true →
    Even (malformedBefore (before.reverse ++ r))

/-- In front of every escape there is an even number of malformed ones. -/
def Undisturbed (s : List UInt8) : Prop :=
  ∀ before after, s = before ++ after → startsEscape after = true →
    Even (malformedBefore before.reverse)

theorem undisturbedAfter_nil (r : List UInt8) : UndisturbedAfter r [] := by
  intro before after hs hstart
  obtain ⟨-, rfl⟩ := List.append_eq_nil_iff.mp hs.symm
  exact Bool.noConfusion hstart

theorem undisturbedAfter_cons_iff (r : List UInt8) (c : UInt8) (s : List UInt8) :
    UndisturbedAfter r (c :: s) ↔
      (startsEscape (c :: s) = true → Even (malformedBefore r)) ∧ UndisturbedAfter (c :: r) s := by
  constructor
  · intro h
    refine ⟨fun hstart => h [] (c :: s) rfl hstart, ?_⟩
    intro before after hs hstart
    have heven := h (c :: before) after (by rw [hs, List.cons_append]) hstart
    rwa [List.reverse_cons, List.append_assoc, List.singleton_append] at heven
  · rintro ⟨hfirst, hrest⟩ before after hs hstart
    rcases before with _ | ⟨d, before⟩
    · rw [List.nil_append] at hs
      exact hfirst (by rw [hs]; exact hstart)
    · obtain ⟨rfl, hrest'⟩ := List.cons.inj hs
      rw [List.reverse_cons, List.append_assoc, List.singleton_append]
      exact hrest before after hrest' hstart

/-- A byte that starts no escape. -/
theorem undisturbedAfter_literal {r s : List UInt8} {c : UInt8}
    (h : startsEscape (c :: s) = false) :
    UndisturbedAfter r (c :: s) ↔ UndisturbedAfter (c :: r) s := by
  rw [undisturbedAfter_cons_iff, h]
  exact and_iff_right (fun hstart => Bool.noConfusion hstart)

theorem malformedBefore_percent (r : List UInt8) :
    malformedBefore (37 :: r) = malformedBefore r + 1 := by
  rcases r with _ | ⟨d, r⟩
  · rfl
  · rw [malformedBefore, if_pos rfl]

theorem malformedBefore_digit {a : UInt8} (ha : isxdigit a = true) (r : List UInt8) :
    malformedBefore (a :: 37 :: r) = malformedBefore r + 1 := by
  have hne : a ≠ 37 := by
    rintro rfl
    exact absurd ha (by decide)
  rw [malformedBefore, if_neg hne, if_pos ⟨rfl, ha⟩]

theorem malformedBefore_malformed {m : List UInt8} (hm : Malformed m) (r : List UInt8) :
    malformedBefore (m.reverse ++ r) = malformedBefore r + 1 := by
  cases hm with
  | percent => exact malformedBefore_percent r
  | digit ha => exact malformedBefore_digit ha r

/-- Behind any other byte there is none. -/
theorem malformedBefore_other {c d : UInt8} (hc : c ≠ 37) (h : d ≠ 37 ∨ isxdigit c = false)
    (r : List UInt8) : malformedBefore (c :: d :: r) = 0 := by
  rw [malformedBefore, if_neg hc, if_neg]
  rintro ⟨rfl, hdigit⟩
  rcases h with h | h
  · exact h rfl
  · rw [h] at hdigit
    exact Bool.noConfusion hdigit

/-- The byte that ends a malformed escape ends the row of them, unless it is a `%`. -/
theorem malformedBefore_behind {m : List UInt8} (hm : Malformed m) {x : UInt8} (hx : x ≠ 37)
    (hdigit : isxdigit x = false) (r : List UInt8) :
    malformedBefore (x :: (m.reverse ++ r)) = 0 := by
  cases hm with
  | percent => exact malformedBefore_other hx (Or.inr hdigit) r
  | digit ha => exact malformedBefore_other hx (Or.inr hdigit) (37 :: r)

/-- A byte that is no `%` does not make an even number odd. -/
theorem even_malformedBefore_cons {c : UInt8} (hc : c ≠ 37) {r : List UInt8}
    (h : Even (malformedBefore r)) : Even (malformedBefore (c :: r)) := by
  rcases r with _ | ⟨d, r⟩
  · rw [malformedBefore, if_neg hc]
    exact Even.zero
  · by_cases hdigit : d = 37 ∧ isxdigit c = true
    · obtain ⟨rfl, hdigit⟩ := hdigit
      rw [malformedBefore_digit hdigit, ← malformedBefore_percent]
      exact h
    · rw [not_and_or, Bool.not_eq_true] at hdigit
      rw [malformedBefore_other hc hdigit]
      exact Even.zero

/-! ## The two decoders -/

/-- An output that is at least as long as what `fromURL` makes of a text, and the same exactly if
no escape of the text is disturbed. -/
def Compared (r s out : List UInt8) : Prop :=
  (fromURL s).length ≤ out.length ∧ (out = fromURL s ↔ UndisturbedAfter r s)

/-- Both decoders have written the same before. -/
theorem Compared.behind {r r' s s' out p : List UInt8} (h : Compared r' s' out)
    (hfrom : fromURL s = p ++ fromURL s')
    (hcondition : UndisturbedAfter r s ↔ UndisturbedAfter r' s') : Compared r s (p ++ out) := by
  refine ⟨?_, ?_⟩
  · rw [hfrom, List.length_append, List.length_append]
    exact Nat.add_le_add_left h.1 _
  · rw [hfrom, List.append_cancel_left_eq, h.2, hcondition]

theorem ne_of_isxdigit {a : UInt8} (ha : isxdigit a = true) : a ≠ 37 ∧ a ≠ 43 := by
  constructor
  · rintro rfl
    exact absurd ha (by decide)
  · rintro rfl
    exact absurd ha (by decide)

/-- A text that does not go on with a digit. -/
def NoDigit (s : List UInt8) : Prop := ∀ x t, s = x :: t → isxdigit x = false

theorem startsEscape_malformed {m s : List UInt8} (hm : Malformed m) (hs : NoDigit s) :
    startsEscape (m ++ s) = false := by
  rw [← Bool.not_eq_true]
  intro hstart
  obtain ⟨a, b, rest, heq, ha, hb⟩ := exists_of_startsEscape hstart
  cases hm with
  | percent =>
      have hx := hs a (b :: rest) (List.cons.inj heq).2
      rw [hx] at ha
      exact Bool.noConfusion ha
  | digit ha' =>
      have hx := hs b rest (List.cons.inj (List.cons.inj heq).2).2
      rw [hx] at hb
      exact Bool.noConfusion hb

/-- `fromURL` leaves it as it is, too, and goes on directly behind it. -/
theorem fromURL_malformed {m s : List UInt8} (hm : Malformed m) (hs : NoDigit s) :
    fromURL (m ++ s) = m ++ fromURL s := by
  have hstart := startsEscape_malformed hm hs
  cases hm with
  | percent => exact fromURL_literal hstart
  | digit ha =>
      refine (fromURL_literal hstart).trans (congrArg (37 :: ·) ?_)
      exact fromURL_literal (startsEscape_of_ne (ne_of_isxdigit ha).1 s)

theorem undisturbedAfter_malformed {m s : List UInt8} (hm : Malformed m) (hs : NoDigit s)
    (r : List UInt8) :
    UndisturbedAfter r (m ++ s) ↔ UndisturbedAfter (m.reverse ++ r) s := by
  have hstart := startsEscape_malformed hm hs
  cases hm with
  | percent => exact undisturbedAfter_literal hstart
  | digit ha =>
      refine (undisturbedAfter_literal hstart).trans ?_
      exact undisturbedAfter_literal (startsEscape_of_ne (ne_of_isxdigit ha).1 s)

/-- How a text begins. -/
theorem text_cases (s : List UInt8) :
    s = [] ∨ (∃ c t, s = c :: t ∧ c ≠ 37) ∨
      (∃ a b t, s = 37 :: a :: b :: t ∧ isxdigit a = true ∧ isxdigit b = true) ∨
      Malformed s ∨ ∃ m x t, s = m ++ x :: t ∧ Malformed m ∧ isxdigit x = false := by
  rcases s with _ | ⟨c, s⟩
  · exact Or.inl rfl
  by_cases hc : c = 37
  swap
  · exact Or.inr (Or.inl ⟨c, s, rfl, hc⟩)
  subst hc
  refine Or.inr (Or.inr ?_)
  rcases s with _ | ⟨a, s⟩
  · exact Or.inr (Or.inl .percent)
  by_cases ha : isxdigit a = true
  swap
  · exact Or.inr (Or.inr ⟨[37], a, s, rfl, .percent, Bool.not_eq_true _ ▸ ha⟩)
  rcases s with _ | ⟨b, s⟩
  · exact Or.inr (Or.inl (.digit ha))
  by_cases hb : isxdigit b = true
  · exact Or.inl ⟨a, b, s, rfl, ha, hb⟩
  · exact Or.inr (Or.inr ⟨[37, a], b, s, rfl, .digit ha, Bool.not_eq_true _ ▸ hb⟩)

/-- A `%` that the stream decoder has written as the end of a malformed escape. -/
theorem compared_swallowed {r t : List UInt8} (hodd : ¬ Even (malformedBefore r))
    (hplus : 43 ∉ t)
    (ih : ∀ r' t', t'.length ≤ t.length → 43 ∉ t' → Even (malformedBefore r') →
      Compared r' t' (streamDecoded t')) : Compared r (37 :: t) (37 :: streamDecoded t) := by
  by_cases hstart : startsEscape (37 :: t) = true
  · -- `fromURL` decodes the escape that the stream decoder leaves, and stays two bytes shorter
    obtain ⟨a, b, rest, hs, ha, hb⟩ := exists_of_startsEscape hstart
    obtain ⟨-, rfl⟩ := List.cons.inj hs
    have hshorter : rest.length ≤ (a :: b :: rest).length := by
      simp only [List.length_cons]
      omega
    obtain ⟨hlen, -⟩ := ih [] rest hshorter
      (fun hmem => hplus (List.mem_cons_of_mem a (List.mem_cons_of_mem b hmem))) Even.zero
    have hstream : streamDecoded (a :: b :: rest) = a :: b :: streamDecoded rest := by
      rw [streamDecoded_plain (ne_of_isxdigit ha), streamDecoded_plain (ne_of_isxdigit hb)]
    have hfrom := fromURL_escape ha hb rest
    have hlonger : (fromURL (37 :: a :: b :: rest)).length <
        (37 :: streamDecoded (a :: b :: rest)).length := by
      rw [hfrom, hstream]
      simp only [List.length_cons]
      omega
    refine ⟨hlonger.le, iff_of_false ?_ ?_⟩
    · exact ne_of_apply_ne List.length hlonger.ne'
    · intro hundisturbed
      exact hodd (((undisturbedAfter_cons_iff _ _ _).mp hundisturbed).1 hstart)
  · -- a literal for both: one malformed escape more, and the number is even again
    rw [Bool.not_eq_true] at hstart
    have heven : Even (malformedBefore (37 :: r)) := by
      rw [malformedBefore_percent]
      exact Nat.even_add_one.mpr hodd
    exact (ih (37 :: r) t (le_refl _) hplus heven).behind (p := [37])
      (fromURL_literal hstart) (undisturbedAfter_literal hstart)

/-- By induction on the length of the text, with an even number of malformed escapes in front of
it: then the stream decoder keeps nothing. -/
theorem compared (s : List UInt8) (hplus : 43 ∉ s) (r : List UInt8)
    (hr : Even (malformedBefore r)) : Compared r s (streamDecoded s) := by
  induction hn : s.length using Nat.strong_induction_on generalizing s r with
  | _ n ih =>
    rcases text_cases s with rfl | ⟨c, t, rfl, hc⟩ | ⟨a, b, t, rfl, ha, hb⟩ | hm |
      ⟨m, x, t, rfl, hm, hx⟩
    · exact ⟨le_refl _, iff_of_true rfl (undisturbedAfter_nil r)⟩
    · -- A byte that is no `%`.
      rw [List.length_cons] at hn
      obtain ⟨hc43, ht43⟩ := not_or.mp (mt List.mem_cons.mpr hplus)
      have hliteral := startsEscape_of_ne hc t
      rw [streamDecoded_plain ⟨hc, Ne.symm hc43⟩]
      exact (ih t.length (by omega) t ht43 (c :: r) (even_malformedBefore_cons hc hr) rfl).behind
        (p := [c]) (fromURL_literal hliteral) (undisturbedAfter_literal hliteral)
    · -- An escape.
      simp only [List.length_cons] at hn
      have ht43 : 43 ∉ t := by
        intro hmem
        exact hplus (by simp [hmem])
      have hstart : startsEscape (37 :: a :: b :: t) = true := by
        simp [startsEscape, ha, hb]
      have heven : Even (malformedBefore (b :: a :: 37 :: r)) := by
        rw [malformedBefore_other (ne_of_isxdigit hb).1 (Or.inl (ne_of_isxdigit ha).1)]
        exact Even.zero
      rw [streamDecoded_escape ha hb, hexPairToByte_eq ha hb]
      refine (ih t.length (by omega) t ht43 _ heven rfl).behind (p := [_])
        (fromURL_escape ha hb t) ?_
      rw [undisturbedAfter_cons_iff, and_iff_right (fun _ => hr),
        undisturbedAfter_literal (startsEscape_of_ne (ne_of_isxdigit ha).1 _),
        undisturbedAfter_literal (startsEscape_of_ne (ne_of_isxdigit hb).1 _)]
    · -- The text ends inside of an escape.
      have hend : NoDigit [] := fun x t h => absurd h (List.cons_ne_nil x t).symm
      have hfrom := fromURL_malformed hm hend
      have hundisturbed := (undisturbedAfter_malformed hm hend r).mpr (undisturbedAfter_nil _)
      rw [List.append_nil] at hfrom hundisturbed
      rw [streamDecoded_malformed_end hm]
      refine ⟨length_fromURL_le s, iff_of_true ?_ hundisturbed⟩
      rw [hfrom]
      exact (List.append_nil s).symm
    · -- A malformed escape, and the byte that ends it.
      have hnext : NoDigit (x :: t) := by
        rintro y t' h
        obtain ⟨rfl, -⟩ := List.cons.inj h
        exact hx
      rw [List.length_append, List.length_cons] at hn
      obtain ⟨-, hxt43⟩ := not_or.mp (mt List.mem_append.mpr hplus)
      obtain ⟨hx43, ht43⟩ := not_or.mp (mt List.mem_cons.mpr hxt43)
      rw [streamDecoded_malformed hm hx]
      refine Compared.behind ?_ (fromURL_malformed hm hnext)
        (undisturbedAfter_malformed hm hnext r)
      by_cases hpercent : x = 37
      · subst hpercent
        refine compared_swallowed ?_ ht43
          (fun r' t' hle h43 heven => ih t'.length (by omega) t' h43 r' heven rfl)
        rw [malformedBefore_malformed hm]
        exact fun heven => Nat.even_add_one.mp heven hr
      · have hliteral := startsEscape_of_ne hpercent t
        have heven : Even (malformedBefore (x :: (m.reverse ++ r))) := by
          rw [malformedBefore_behind hm hpercent hx]
          exact Even.zero
        exact (ih t.length (by omega) t ht43 _ heven rfl).behind (p := [x])
          (fromURL_literal hliteral) (undisturbedAfter_literal hliteral)

theorem undisturbedAfter_nil_iff (s : List UInt8) : UndisturbedAfter [] s ↔ Undisturbed s := by
  unfold UndisturbedAfter Undisturbed
  simp only [List.append_nil]

theorem streamDecoded_eq_fromURL_iff {s : List UInt8} (hplus : 43 ∉ s) :
    streamDecoded s = fromURL s ↔ Undisturbed s :=
  (compared s hplus [] Even.zero).2.trans (undisturbedAfter_nil_iff s)

variable {σ : Type*} {K : AcceptingSink σ} {dst : σ}

/-- **The two decoders.**  However a text is cut, the stream decoder writes what `fromURL` makes of
the text exactly if every escape of it has an even number of malformed ones directly in front of it.
-/
theorem decodeToEnd_eq_fromURL_iff (h : K.succeed dst = true) {s : List UInt8} (hplus : 43 ∉ s)
    {bufs : List (List UInt8)} (hcut : bufs.flatten = s) (hbufs : [] ∉ bufs) :
    decodeToEnd K dst bufs = K.received dst ++ fromURL s ↔ Undisturbed s := by
  rw [received_decodeWrites h hbufs, hcut, List.append_cancel_left_eq]
  exact streamDecoded_eq_fromURL_iff hplus

/-- A percent sign in front of an escape, in one piece and in two. -/
theorem decodeToEnd_eq_fromURL_percents :
    (decodeToEnd collector ([], true) [[37, 37, 52, 49]] = [] ++ fromURL [37, 37, 52, 49] ↔
      Undisturbed [37, 37, 52, 49]) ∧
    (decodeToEnd collector ([], true) [[37, 37], [37, 52, 49]] =
        [] ++ fromURL [37, 37, 37, 52, 49] ↔
      Undisturbed [37, 37, 37, 52, 49]) :=
  ⟨decodeToEnd_eq_fromURL_iff rfl (by decide) rfl (by decide),
    decodeToEnd_eq_fromURL_iff rfl (by decide) rfl (by decide)⟩

/-- The stream decoder takes the second percent sign for the end of an escape; `fromURL` takes it
for the start of one. -/
theorem not_decoders_agree :
    ¬ ∀ (s : List UInt8) (bufs : List (List UInt8)), 43 ∉ s → bufs.flatten = s → [] ∉ bufs →
      decodeToEnd collector ([], true) bufs = fromURL s := by
  intro hclaim
  have hsame := hclaim [37, 37, 52, 49] [[37, 37, 52, 49]] (by decide) rfl (by decide)
  exact absurd hsame (by decide)

end UrlDecoders

end Mantids
