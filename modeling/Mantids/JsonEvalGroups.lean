/-
# Groups are taken out as they should

`detectSubExpr` finds the groups of a level one after the other, from the left, and begins again
after each.

* `Balanced.scan` — the scan comes to the end of a group;
* `Flat` — a text without groups, which the scan passes over;
* `isNegative_groupText`, `between_groupText` — what stands around a group, and in it;
* `detectSubExprs_flat`, `detectSubExprs_groupText` — what the rounds do with either.
-/
import Mantids.JsonEvalAtoms

namespace Mantids

namespace Expressions

open Occurrence

/-! ## The scan -/

/-- A text without parentheses. -/
def ParenFree (s : List UInt8) : Prop := 40 ∉ s ∧ 41 ∉ s

theorem scan_of_ne {c : UInt8} (hopen : c ≠ 40) (hclose : c ≠ 41) (s : List UInt8)
    (i level firstByte : ℕ) :
    scan (c :: s) i level firstByte = scan s (i + 1) level firstByte := by
  rw [scan.eq_def]
  dsimp only
  rw [if_neg hopen, if_neg hclose]

theorem scan_open (s : List UInt8) (i level firstByte : ℕ) :
    scan (40 :: s) i level firstByte =
      scan s (i + 1) (level + 1) (if level = 0 then i else firstByte) := rfl

theorem scan_close_inner (s : List UInt8) (i level firstByte : ℕ) :
    scan (41 :: s) i (level + 2) firstByte = scan s (i + 1) (level + 1) firstByte := rfl

theorem scan_close (s : List UInt8) (i firstByte : ℕ) :
    scan (41 :: s) i 1 firstByte = .closed firstByte i := rfl

/-- Nothing happens in front of the first parenthesis. -/
theorem scan_append_of_parenFree {a : List UInt8} (ha : ParenFree a) (s : List UInt8)
    (i level firstByte : ℕ) :
    scan (a ++ s) i level firstByte = scan s (i + a.length) level firstByte := by
  induction a generalizing i with
  | nil => rfl
  | cons c a ih =>
      simp only [ParenFree, List.mem_cons, not_or] at ha
      rw [List.cons_append, scan_of_ne (Ne.symm ha.1.1) (Ne.symm ha.2.1), ih ⟨ha.1.2, ha.2.2⟩,
        List.length_cons, Nat.add_right_comm, Nat.add_assoc]

/-- A balanced text inside a group does not change the level. -/
theorem Balanced.scan {t : List UInt8} (ht : Balanced t) (s : List UInt8) (i level firstByte : ℕ) :
    Expressions.scan (t ++ s) i (level + 1) firstByte =
      Expressions.scan s (i + t.length) (level + 1) firstByte := by
  induction ht generalizing s i level with
  | nil => rfl
  | byte hopen hclose _ ih =>
      rw [List.cons_append, scan_of_ne hopen hclose, ih, List.length_cons, Nat.add_right_comm,
        Nat.add_assoc]
  | @group inner rest _ _ ihInner ihRest =>
      have hlength : (40 :: (inner ++ 41 :: rest)).length = inner.length + rest.length + 2 := by
        simp only [List.length_cons, List.length_append]
        omega
      rw [List.cons_append, scan_open, if_neg (Nat.succ_ne_zero level), List.append_assoc, ihInner,
        List.cons_append, scan_close_inner, ihRest, hlength]
      congr 1
      omega

theorem Balanced.append {s t : List UInt8} (hs : Balanced s) (ht : Balanced t) :
    Balanced (s ++ t) := by
  induction hs with
  | nil => exact ht
  | byte hopen hclose _ ih => exact Balanced.byte hopen hclose ih
  | group hinner _ _ ih =>
      rw [List.cons_append, List.append_assoc, List.cons_append]
      exact Balanced.group hinner ih

theorem ParenFree.balanced {s : List UInt8} (hs : ParenFree s) : Balanced s := by
  induction s with
  | nil => exact Balanced.nil
  | cons c s ih =>
      simp only [ParenFree, List.mem_cons, not_or] at hs
      exact Balanced.byte (Ne.symm hs.1.1) (Ne.symm hs.2.1) (ih ⟨hs.1.2, hs.2.2⟩)

/-- The first parenthesis of a text opens a group. -/
def OpensFirst (s : List UInt8) : Prop := ∃ h t, s = h ++ 40 :: t ∧ ParenFree h

/-- A text whose first parenthesis closes something is another one. -/
theorem OpensFirst.ne_close {s : List UInt8} (hs : OpensFirst s) {a b c : List UInt8}
    (ha : ParenFree a) : s ++ b ≠ a ++ 41 :: c := by
  obtain ⟨h, t, rfl, hh⟩ := hs
  intro heq
  rw [List.append_assoc] at heq
  rcases List.append_eq_append_iff.mp heq with ⟨x, rfl, hx⟩ | ⟨x, rfl, hx⟩
  · rcases x with _ | ⟨y, x⟩
    · exact absurd (List.cons.inj hx).1 (by decide)
    · obtain ⟨rfl, -⟩ := List.cons.inj hx
      exact ha.1 (List.mem_append_right _ List.mem_cons_self)
  · rcases x with _ | ⟨y, x⟩
    · exact absurd (List.cons.inj hx).1 (by decide)
    · obtain ⟨rfl, -⟩ := List.cons.inj hx
      exact hh.2 (List.mem_append_right _ List.mem_cons_self)

/-! ## Texts without groups -/

/-- Calls, and what has no parentheses, one after the other. -/
inductive Flat : List UInt8 → Prop
  | nil : Flat []
  | plain {a b : List UInt8} : Flat a → ParenFree b → Flat (a ++ b)
  | call {a head args : List UInt8} : Flat a → ParenFree head →
      (∃ c ∈ head.getLast?, isalnum c = true) → ParenFree args →
      Flat (a ++ (head ++ 40 :: (args ++ [41])))

/-- What is opened in a text without groups is the argument list of a call. -/
theorem Flat.closes {a : List UInt8} (ha : Flat a) {b t : List UInt8} (h : a = b ++ 40 :: t) :
    ∃ args u, ParenFree args ∧ t = args ++ 41 :: u := by
  induction ha generalizing b t with
  | nil => simp at h
  | @plain a c _ hc ih =>
      rcases List.append_eq_append_iff.mp h with ⟨x, rfl, hx⟩ | ⟨x, hx, hx'⟩
      · exact absurd (hx ▸ List.mem_append_right _ List.mem_cons_self) hc.1
      · rcases x with _ | ⟨y, x⟩
        · rw [List.nil_append] at hx'
          exact absurd (hx' ▸ List.mem_cons_self) hc.1
        · rw [List.cons_append] at hx'
          obtain ⟨rfl, rfl⟩ := List.cons.inj hx'
          obtain ⟨args, u, hargs, rfl⟩ := ih hx
          exact ⟨args, u ++ c, hargs, by rw [List.append_assoc, List.cons_append]⟩
  | @call a head args _ hhead _ hargs ih =>
      rcases List.append_eq_append_iff.mp h with ⟨x, rfl, hx⟩ | ⟨x, hx, hx'⟩
      · -- the parenthesis is that of the call
        have hopen : 40 ∉ x := by
          have hcount := congrArg (List.count 40) hx
          rw [List.count_append, List.count_cons_self, List.count_append,
            List.count_eq_zero.mpr hhead.1, List.count_eq_zero.mpr hargs.1, List.count_append,
            List.count_cons_self] at hcount
          apply List.count_eq_zero.mp
          rw [show List.count (40 : UInt8) [41] = 0 from rfl] at hcount
          omega
        obtain ⟨-, rfl⟩ := append_cons_inj_of_not_mem hhead.1 hopen hx
        exact ⟨args, [], hargs, rfl⟩
      · rcases x with _ | ⟨y, x⟩
        · rw [List.nil_append] at hx'
          obtain ⟨-, rfl⟩ := append_cons_inj_of_not_mem (by simp) hhead.1
            (show [] ++ 40 :: t = _ from hx')
          exact ⟨args, [], hargs, rfl⟩
        · rw [List.cons_append] at hx'
          obtain ⟨rfl, rfl⟩ := List.cons.inj hx'
          obtain ⟨args', u, hargs', rfl⟩ := ih hx
          exact ⟨args', _, hargs', by rw [List.append_assoc, List.cons_append]⟩

/-! ## What stands around a group -/

section Around

variable {a : List UInt8}

/-- In front of a group there is a blank, or nothing. -/
theorem getElem?_blank (hlast : ∀ c ∈ a.getLast?, c = 32) (hpos : 0 < a.length) (s : List UInt8) :
    (a ++ s)[a.length - 1]? = some 32 := by
  rw [List.getElem?_append_left (by omega), ← List.getLast?_eq_getElem?]
  obtain ⟨c, hc⟩ := Option.ne_none_iff_exists'.mp
    (show a.getLast? ≠ none by simpa using List.length_pos_iff.mp hpos)
  rw [hc, hlast c hc]

/-- A negated group begins with an exclamation mark. -/
theorem getElem?_groupText (a sub s : List UInt8) :
    (a ++ (groupText true sub ++ s))[a.length]? = some 33 := by
  rw [List.getElem?_append_right le_rfl]
  simp [groupText]

/-- The parenthesis of a group behind a text. -/
def opening (a : List UInt8) (negative : Bool) : ℕ := a.length + (if negative then 1 else 0)

theorem isNegative_groupText (hlast : ∀ c ∈ a.getLast?, c = 32) (negative : Bool)
    (sub s : List UInt8) :
    isNegative (a ++ (groupText negative sub ++ s)) (opening a negative) = negative := by
  rcases negative with _ | _
  · rw [isNegative, opening]
    rcases Nat.eq_zero_or_pos a.length with hzero | hpos
    · simp [hzero]
    · simp [getElem?_blank hlast hpos]
  · simp [isNegative, opening, getElem?_groupText]

theorem isCall_groupText (hlast : ∀ c ∈ a.getLast?, c = 32) (negative : Bool)
    (sub s : List UInt8) :
    ¬ isCall (a ++ (groupText negative sub ++ s)) (opening a negative) = true := by
  rcases negative with _ | _
  · rw [isCall, opening]
    rcases Nat.eq_zero_or_pos a.length with hzero | hpos
    · simp [hzero]
    · simp [getElem?_blank hlast hpos, isalnum, isdigit]
  · simp [isCall, opening, getElem?_groupText, isalnum, isdigit]

theorem between_groupText (a : List UInt8) (negative : Bool) (sub s : List UInt8) :
    between (a ++ (groupText negative sub ++ s)) (opening a negative)
      (opening a negative + 1 + sub.length) = sub := by
  have hdrop : (a ++ (groupText negative sub ++ s)).drop (opening a negative + 1) =
      sub ++ 41 :: s := by
    rcases negative with _ | _
    · rw [show opening a false + 1 = a.length + 1 from rfl, List.drop_length_add_append]
      simp [groupText]
    · rw [show opening a true + 1 = a.length + 2 from rfl, List.drop_length_add_append]
      simp [groupText]
  rw [between, hdrop, show opening a negative + 1 + sub.length - opening a negative - 1 =
    sub.length by omega, List.take_left]

/-- The scan comes to the end of a group. -/
theorem scan_groupText (a : List UInt8) (negative : Bool) {sub : List UInt8} (hsub : Balanced sub)
    (s : List UInt8) :
    scan (groupText negative sub ++ s) a.length 0 0 =
      .closed (opening a negative) (opening a negative + 1 + sub.length) := by
  have hmark : ParenFree (if negative = true then [33] else []) := by
    rcases negative with _ | _ <;> simp [ParenFree]
  rw [groupText, List.append_assoc, scan_append_of_parenFree hmark, List.cons_append, scan_open,
    if_pos rfl, List.append_assoc, hsub.scan, List.singleton_append, scan_close]
  rcases negative with _ | _ <;> rfl

end Around

/-! ## The rounds -/

section Rounds

variable {σ : Type*} {n : ℕ} {make : Bool → {t : List UInt8 // parens t < n} → σ}

/-- Where a scan comes to the same from two places, so does the search for groups. -/
theorem detectSubExprs_congr {expr : List UInt8} {hn : parens expr ≤ n} {start start' : ℕ}
    (subExpressions : List σ)
    (h : scan (expr.drop start) start 0 0 = scan (expr.drop start') start' 0 0) :
    detectSubExprs make expr hn start subExpressions =
      detectSubExprs make expr hn start' subExpressions := by
  rcases hscan : scan (expr.drop start') start' 0 0 with _ | _ | ⟨firstByte, i⟩
  · rw [detectSubExprs_finished (h.trans hscan), detectSubExprs_finished hscan]
  · rw [detectSubExprs_unbalanced (h.trans hscan), detectSubExprs_unbalanced hscan]
  · obtain ⟨hbetween, hrewritten⟩ := parens_lt_of_closed hscan subExpressions.length
    by_cases hcall : isCall expr firstByte = true
    · rw [detectSubExprs_call (h.trans hscan) hcall, detectSubExprs_call hscan hcall]
    · rw [detectSubExprs_group (h.trans hscan) hcall (hbetween.trans_le hn)
        (hrewritten.le.trans hn), detectSubExprs_group hscan hcall (hbetween.trans_le hn)
        (hrewritten.le.trans hn)]

/-- **Texts without groups are passed over.** -/
theorem detectSubExprs_flat {a : List UInt8} (ha : Flat a) {expr s : List UInt8}
    (hexpr : expr = a ++ s) (hn : parens expr ≤ n) (subExpressions : List σ) :
    detectSubExprs make expr hn 0 subExpressions =
      detectSubExprs make expr hn a.length subExpressions := by
  induction ha generalizing s with
  | nil => rfl
  | @plain a b _ hb ih =>
      rw [ih (hexpr.trans (List.append_assoc a b s))]
      apply detectSubExprs_congr
      rw [hexpr, List.append_assoc, List.drop_left, scan_append_of_parenFree hb,
        ← List.append_assoc, List.drop_left, List.length_append]
  | @call a head args _ hhead hlast hargs ih =>
      -- the scan ends with the parentheses of the call, which stand behind a letter
      obtain ⟨c, hc, halnum⟩ := hlast
      have hassoc : expr = a ++ (head ++ 40 :: (args ++ 41 :: s)) := by
        rw [hexpr]
        simp
      rw [ih hassoc]
      have hscan : scan (expr.drop a.length) a.length 0 0 =
          .closed (a.length + head.length) (a.length + head.length + 1 + args.length) := by
        rw [hassoc, List.drop_left, scan_append_of_parenFree hhead, scan_open, if_pos rfl,
          scan_append_of_parenFree hargs, scan_close]
      have hpos : 0 < head.length := by
        rw [List.length_pos_iff]
        rintro rfl
        simp at hc
      have hbyte : expr[a.length + head.length - 1]? = some c := by
        rw [hassoc, List.getElem?_append_right (by omega),
          List.getElem?_append_left (by omega),
          show a.length + head.length - 1 - a.length = head.length - 1 by omega,
          ← List.getLast?_eq_getElem?]
        exact hc
      have hcall : isCall expr (a.length + head.length) = true := by
        rw [isCall, hbyte, decide_eq_true (by omega)]
        simpa using halnum
      rw [detectSubExprs_call hscan hcall]
      congr 1
      simp only [List.length_append, List.length_cons, List.length_nil]
      omega

/-- A text without groups, behind which nothing follows, is left as it is. -/
theorem detectSubExprs_flat_end {a : List UInt8} (ha : Flat a) (hn : parens a ≤ n)
    (subExpressions : List σ) :
    detectSubExprs make a hn 0 subExpressions = (some a, subExpressions) := by
  rw [detectSubExprs_flat ha (List.append_nil a).symm hn]
  apply detectSubExprs_finished
  rw [List.drop_length]
  rfl

/-- A group does not occur in front of where it is, if there are no other groups. -/
theorem first_groupText {a sub : List UInt8} (ha : Flat a) (hlast : ∀ c ∈ a.getLast?, c = 32)
    (hopens : OpensFirst sub) (negative : Bool) (s : List UInt8) :
    first (groupText negative sub) (a ++ (groupText negative sub ++ s)) = some a.length := by
  have hne : groupText negative sub ≠ [] := by simp [groupText]
  rw [first_eq_some_iff hne]
  refine ⟨?_, ?_⟩
  · rw [OccursAt, List.drop_left]
    exact List.prefix_append _ _
  · rintro q hq ⟨r, hr⟩
    rw [List.drop_append_of_le_length hq.le] at hr
    -- a parenthesis in front of the group opens a call, and that of the group does not
    have hopen : ∀ b w x, a = b ++ w → w ++ x = 40 :: (sub ++ 41 :: r) → w ≠ [] → False := by
      rintro b (_ | ⟨c, w⟩) x hb hw hwne
      · exact hwne rfl
      · rw [List.cons_append] at hw
        obtain ⟨rfl, hsame⟩ := List.cons.inj hw
        obtain ⟨args, u, hargs, rfl⟩ := ha.closes hb
        rw [List.append_assoc, List.cons_append] at hsame
        exact hopens.ne_close hargs hsame.symm
    have htail : a.drop q ≠ [] := by
      intro hnil
      rw [List.drop_eq_nil_iff] at hnil
      omega
    rcases negative with _ | _
    · exact hopen (a.take q) (a.drop q) _ (List.take_append_drop q a).symm
        (hr.symm.trans (by simp [groupText])) htail
    · rcases hw : a.drop q with _ | ⟨c, w⟩
      · exact htail hw
      · rw [hw] at hr
        simp only [groupText, if_true, List.cons_append, List.nil_append, List.append_assoc,
          List.cons.injEq] at hr
        obtain ⟨rfl, hr⟩ := hr
        have hsplit : a = a.take q ++ 33 :: w := by
          rw [← hw, List.take_append_drop]
        rcases w with _ | ⟨d, w⟩
        · -- in front of the exclamation mark of a group there is a blank
          rw [hsplit] at hlast
          exact absurd (hlast 33 (by simp)) (by decide)
        · apply hopen (a.take q ++ [33]) (d :: w) _ _ hr.symm (List.cons_ne_nil _ _)
          rw [List.append_assoc]
          exact hsplit

/-- **A group is taken out**, and a placeholder put in. -/
theorem detectSubExprs_groupText (make : Bool → {t : List UInt8 // parens t < n} → σ)
    {a sub s : List UInt8} (ha : Flat a)
    (hlast : ∀ c ∈ a.getLast?, c = 32) (hsub : Balanced sub) (hopens : OpensFirst sub)
    (negative : Bool) {expr : List UInt8} (hexpr : expr = a ++ (groupText negative sub ++ s))
    (hn : parens expr ≤ n) (subExpressions : List σ) :
    ∃ (hlt : parens sub < n)
      (hn' : parens (a ++ (placeholder subExpressions.length ++ s)) ≤ n),
      detectSubExprs make expr hn 0 subExpressions =
        detectSubExprs make (a ++ (placeholder subExpressions.length ++ s)) hn' 0
          (subExpressions ++ [make negative ⟨sub, hlt⟩]) := by
  have hscan : scan (expr.drop a.length) a.length 0 0 =
      .closed (opening a negative) (opening a negative + 1 + sub.length) := by
    rw [hexpr, List.drop_left]
    exact scan_groupText a negative hsub s
  have hnegative : isNegative expr (opening a negative) = negative := by
    rw [hexpr]
    exact isNegative_groupText hlast negative sub s
  have hcall : ¬ isCall expr (opening a negative) = true := by
    rw [hexpr]
    exact isCall_groupText hlast negative sub s
  have hbetween :
      between expr (opening a negative) (opening a negative + 1 + sub.length) = sub := by
    rw [hexpr]
    exact between_groupText a negative sub s
  have hrewritten : rewritten expr (opening a negative) (opening a negative + 1 + sub.length)
      subExpressions.length = a ++ (placeholder subExpressions.length ++ s) := by
    rw [rewritten, hnegative, hbetween, replaceFirst, hexpr, first_groupText ha hlast hopens]
    dsimp only
    rw [List.take_left, ← List.drop_drop, List.drop_left, List.drop_left, List.append_assoc]
  -- the group, and the text that is left, have fewer parentheses
  obtain ⟨hlt, hle⟩ := parens_lt_of_closed hscan subExpressions.length
  rw [hbetween] at hlt
  rw [hrewritten] at hle
  refine ⟨hlt.trans_le hn, hle.le.trans hn, ?_⟩
  rw [detectSubExprs_flat ha hexpr hn]
  rw [detectSubExprs_group hscan hcall (by rw [hbetween]; exact hlt.trans_le hn)
    (by rw [hrewritten]; exact hle.le.trans hn)]
  simp only [hrewritten, hnegative, hbetween]

end Rounds

end Expressions

end Mantids
