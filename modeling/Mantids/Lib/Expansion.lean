/-
# Expanding texts with calls

A template is a sequence of texts and calls; every call has a template for its body.  An expander
takes the first call that is left and puts its body in for all its occurrences, until no call is
left.

* `Piece`, `render` — templates, and the text that is kept for one;
* `subst`, `Advances`, `expand` — a round of the expander, and its run;
* `Expands` — the recursive meaning of a template, with the number of calls that are expanded;
* `expand_isSome_iff`, `expands_of_expand` — the run ends when there is a meaning, and with it;
* `exists_expands_iff` — there is one when no call is expanded into itself for ever;
* `acc_iff_no_cycle` — which, of finitely many calls, means that none reaches itself.
-/
import Mathlib.Data.Fintype.Card
import Mathlib.Data.Set.Finite.Basic
import Mathlib.Logic.Relation
import Mathlib.Tactic.Common

namespace Expansion

/-! ## Templates -/

inductive Piece (α δ : Type*) where
  | text (a : List α)
  | call (d : δ)
deriving DecidableEq

section Templates

variable {α δ : Type*}

/-- The text of a template whose calls are written by their names. -/
def render (name : δ → List α) : List (Piece α δ) → List α
  | [] => []
  | .text a :: ps => a ++ render name ps
  | .call d :: ps => name d ++ render name ps

theorem render_append (name : δ → List α) (ps qs : List (Piece α δ)) :
    render name (ps ++ qs) = render name ps ++ render name qs := by
  induction ps with
  | nil => rfl
  | cons p ps ih =>
      cases p with
      | text a => simp only [List.cons_append, render, ih, List.append_assoc]
      | call d => simp only [List.cons_append, render, ih, List.append_assoc]

def firstCall : List (Piece α δ) → Option δ
  | [] => none
  | .text _ :: ps => firstCall ps
  | .call d :: _ => some d

theorem mem_of_firstCall {ps : List (Piece α δ)} {d : δ} (h : firstCall ps = some d) :
    .call d ∈ ps := by
  induction ps with
  | nil => cases h
  | cons p ps ih =>
      cases p with
      | text a => exact List.mem_cons_of_mem _ (ih h)
      | call e =>
          cases h
          exact List.mem_cons_self

theorem not_mem_of_firstCall {ps : List (Piece α δ)} (h : firstCall ps = none) (d : δ) :
    .call d ∉ ps := by
  induction ps with
  | nil => exact List.not_mem_nil
  | cons p ps ih =>
      cases p with
      | text a => simpa using ih h
      | call e => cases h

/-! ## The expander -/

variable (body : δ → List (Piece α δ))

section Run

variable [DecidableEq δ]

/-- The body of a call is put in for all its occurrences. -/
def subst (d : δ) : List (Piece α δ) → List (Piece α δ)
  | [] => []
  | .text a :: ps => .text a :: subst d ps
  | .call e :: ps => (if e = d then body e else [.call e]) ++ subst d ps

/-- The expander; `none` if it has not ended after so many rounds. -/
def expand : ℕ → List (Piece α δ) → Option (List (Piece α δ))
  | 0, _ => none
  | fuel + 1, ps =>
    match firstCall ps with
    | none => some ps
    | some d => expand fuel (subst body d ps)

/-- A round of the expander. -/
def Advances (ps qs : List (Piece α δ)) : Prop := ∃ d, firstCall ps = some d ∧ qs = subst body d ps

theorem mem_subst {d : δ} {ps : List (Piece α δ)} {p : Piece α δ} (h : p ∈ subst body d ps) :
    p ∈ ps ∨ .call d ∈ ps ∧ p ∈ body d := by
  induction ps with
  | nil => exact .inl h
  | cons q ps ih =>
      cases q with
      | text a =>
          rcases List.mem_cons.mp h with rfl | h
          · exact .inl List.mem_cons_self
          · rcases ih h with hin | ⟨hcall, hbody⟩
            · exact .inl (List.mem_cons_of_mem _ hin)
            · exact .inr ⟨List.mem_cons_of_mem _ hcall, hbody⟩
      | call e =>
          rcases List.mem_append.mp h with hhere | hlater
          · by_cases he : e = d
            · rw [if_pos he, he] at hhere
              exact .inr ⟨he ▸ List.mem_cons_self, hhere⟩
            · rw [if_neg he, List.mem_singleton] at hhere
              exact .inl (hhere ▸ List.mem_cons_self)
          · rcases ih hlater with hin | ⟨hcall, hbody⟩
            · exact .inl (List.mem_cons_of_mem _ hin)
            · exact .inr ⟨List.mem_cons_of_mem _ hcall, hbody⟩

/-- Other calls stay where they are. -/
theorem mem_subst_of_ne {d e : δ} (hne : e ≠ d) {ps : List (Piece α δ)} (h : .call e ∈ ps) :
    .call e ∈ subst body d ps := by
  induction ps with
  | nil => exact h
  | cons q ps ih =>
      cases q with
      | text a =>
          rcases List.mem_cons.mp h with heq | h
          · cases heq
          · exact List.mem_cons_of_mem _ (ih h)
      | call c =>
          rcases List.mem_cons.mp h with heq | h
          · cases heq
            refine List.mem_append_left _ ?_
            rw [if_neg hne]
            exact List.mem_cons_self
          · exact List.mem_append_right _ (ih h)

theorem mem_subst_of_mem_body {d : δ} {ps : List (Piece α δ)} (h : .call d ∈ ps)
    {p : Piece α δ} (hp : p ∈ body d) : p ∈ subst body d ps := by
  induction ps with
  | nil => cases h
  | cons q ps ih =>
      cases q with
      | text a =>
          rcases List.mem_cons.mp h with heq | h
          · cases heq
          · exact List.mem_cons_of_mem _ (ih h)
      | call c =>
          rcases List.mem_cons.mp h with heq | h
          · cases heq
            refine List.mem_append_left _ ?_
            rwa [if_pos rfl]
          · exact List.mem_append_right _ (ih h)

end Run

/-! ## The meaning of a template -/

/-- `Expands ps s n`: with every call expanded, and those in its body in turn, `ps` is `s`; that
takes `n` calls. -/
inductive Expands : List (Piece α δ) → List α → ℕ → Prop
  | nil : Expands [] [] 0
  | text {ps : List (Piece α δ)} {s : List α} {n : ℕ} (a : List α) (h : Expands ps s n) :
      Expands (.text a :: ps) (a ++ s) n
  | call {ps : List (Piece α δ)} {r s : List α} {m n : ℕ} (d : δ) (hd : Expands (body d) r m)
      (h : Expands ps s n) : Expands (.call d :: ps) (r ++ s) (m + n + 1)

variable {body}

theorem Expands.append {ps qs : List (Piece α δ)} {s t : List α} {m n : ℕ}
    (hp : Expands body ps s m) (hq : Expands body qs t n) :
    Expands body (ps ++ qs) (s ++ t) (m + n) := by
  induction hp with
  | nil => simpa using hq
  | text a _ ih =>
      rw [List.append_assoc]
      exact .text a ih
  | call d hd _ _ ih =>
      have h := Expands.call d hd ih
      rw [← List.append_assoc] at h
      rw [show ∀ a b c : ℕ, a + b + 1 + c = a + (b + c) + 1 by omega]
      exact h

theorem Expands.of_append {ps qs : List (Piece α δ)} {u : List α} {k : ℕ}
    (h : Expands body (ps ++ qs) u k) :
    ∃ s t m n, u = s ++ t ∧ k = m + n ∧ Expands body ps s m ∧ Expands body qs t n := by
  induction ps generalizing u k with
  | nil => exact ⟨[], u, 0, k, rfl, (Nat.zero_add k).symm, .nil, h⟩
  | cons p ps ih =>
      cases h with
      | text a h =>
          obtain ⟨s, t, m, n, rfl, rfl, hp, hq⟩ := ih h
          exact ⟨a ++ s, t, m, n, by rw [List.append_assoc], rfl, .text a hp, hq⟩
      | @call _ r _ m _ d hd h =>
          obtain ⟨s, t, m', n, rfl, rfl, hp, hq⟩ := ih h
          exact ⟨r ++ s, t, m + m' + 1, n, by rw [List.append_assoc], by omega, .call d hd hp, hq⟩

/-- A template has one meaning. -/
theorem Expands.functional {ps : List (Piece α δ)} {s t : List α} {m n : ℕ}
    (h : Expands body ps s m) (h' : Expands body ps t n) : s = t ∧ m = n := by
  induction h generalizing t n with
  | nil =>
      cases h'
      exact ⟨rfl, rfl⟩
  | text a _ ih =>
      cases h' with
      | text _ h' =>
          obtain ⟨rfl, rfl⟩ := ih h'
          exact ⟨rfl, rfl⟩
  | call d _ _ ihd ih =>
      cases h' with
      | call _ hd' h' =>
          obtain ⟨rfl, rfl⟩ := ihd hd'
          obtain ⟨rfl, rfl⟩ := ih h'
          exact ⟨rfl, rfl⟩

/-- The texts of a template stay in its meaning. -/
theorem Expands.infix_of_mem {ps : List (Piece α δ)} {s : List α} {n : ℕ}
    (h : Expands body ps s n) {a : List α} (ha : .text a ∈ ps) : a <:+: s := by
  induction h with
  | nil => cases ha
  | text b _ ih =>
      rcases List.mem_cons.mp ha with heq | ha
      · cases heq
        exact (List.prefix_append _ _).isInfix
      · exact (ih ha).trans (List.suffix_append _ _).isInfix
  | call d _ _ _ ih =>
      rcases List.mem_cons.mp ha with heq | ha
      · cases heq
      · exact (ih ha).trans (List.suffix_append _ _).isInfix

/-- Without calls, the meaning is what is written. -/
theorem expands_of_firstCall_none (name : δ → List α) {ps : List (Piece α δ)}
    (h : firstCall ps = none) : Expands body ps (render name ps) 0 := by
  induction ps with
  | nil => exact .nil
  | cons p ps ih =>
      cases p with
      | text a => exact .text a (ih h)
      | call d => cases h

/-- Where all the bodies have meanings, the template has one. -/
theorem exists_expands {ps : List (Piece α δ)}
    (h : ∀ d, .call d ∈ ps → ∃ r m, Expands body (body d) r m) : ∃ s n, Expands body ps s n := by
  induction ps with
  | nil => exact ⟨[], 0, .nil⟩
  | cons p ps ih =>
      obtain ⟨s, n, hs⟩ := ih fun d hd => h d (List.mem_cons_of_mem _ hd)
      cases p with
      | text a => exact ⟨_, _, .text a hs⟩
      | call d =>
          obtain ⟨r, m, hr⟩ := h d List.mem_cons_self
          exact ⟨_, _, .call d hr hs⟩

/-! ## Rounds and runs -/

section Run

variable [DecidableEq δ]

/-- A round keeps the meaning, and leaves less to expand if it did anything. -/
theorem Expands.subst {ps : List (Piece α δ)} {s : List α} {n : ℕ} (h : Expands body ps s n)
    (d : δ) : ∃ k, Expands body (subst body d ps) s k ∧ k ≤ n ∧ (.call d ∈ ps → k < n) := by
  induction ps generalizing s n with
  | nil => exact ⟨n, h, le_rfl, fun hd => absurd hd List.not_mem_nil⟩
  | cons p ps ih =>
      cases h with
      | text a h =>
          obtain ⟨k, hk, hle, hlt⟩ := ih h
          refine ⟨k, .text a hk, hle, fun hd => hlt ?_⟩
          rcases List.mem_cons.mp hd with heq | hd
          · cases heq
          · exact hd
      | @call _ r s m n e he h =>
          obtain ⟨k, hk, hle, hlt⟩ := ih h
          by_cases hed : e = d
          · -- one call less
            refine ⟨m + k, ?_, by omega, fun _ => by omega⟩
            rw [Expansion.subst, if_pos hed, ← hed]
            exact he.append (hed ▸ hk)
          · refine ⟨m + k + 1, ?_, by omega, fun hd => ?_⟩
            · rw [Expansion.subst, if_neg hed]
              exact .call e he hk
            · rcases List.mem_cons.mp hd with heq | hd
              · exact absurd (Piece.call.inj heq).symm hed
              · have := hlt hd
                omega

/-- The body that a round puts in has a meaning if what the round makes has one. -/
theorem exists_expands_body_of_subst {ps : List (Piece α δ)} {d : δ} (hd : .call d ∈ ps)
    (h : ∃ s n, Expands body (subst body d ps) s n) : ∃ r m, Expands body (body d) r m := by
  induction ps with
  | nil => cases hd
  | cons p ps ih =>
      obtain ⟨s, n, h⟩ := h
      cases p with
      | text a =>
          cases h with
          | text _ h =>
              rcases List.mem_cons.mp hd with heq | hd
              · cases heq
              · exact ih hd ⟨_, _, h⟩
      | call e =>
          obtain ⟨_, _, _, _, -, -, hhere, hlater⟩ := h.of_append
          by_cases hed : e = d
          · rw [if_pos hed, hed] at hhere
            exact ⟨_, _, hhere⟩
          · rcases List.mem_cons.mp hd with heq | hd
            · exact absurd (Piece.call.inj heq).symm hed
            · exact ih hd ⟨_, _, hlater⟩

/-- What a round makes of a template has a meaning only if the template does. -/
theorem exists_expands_of_subst {ps : List (Piece α δ)} {d : δ} (hd : .call d ∈ ps)
    (h : ∃ s n, Expands body (subst body d ps) s n) : ∃ s n, Expands body ps s n := by
  obtain ⟨r, m, hr⟩ := exists_expands_body_of_subst hd h
  -- with the meaning of the body at hand, the calls of `d` go back to their places
  clear hd
  induction ps with
  | nil => exact ⟨[], 0, .nil⟩
  | cons p ps ih =>
      obtain ⟨s, n, h⟩ := h
      cases p with
      | text a =>
          cases h with
          | text _ h =>
              obtain ⟨t, k, ht⟩ := ih ⟨_, _, h⟩
              exact ⟨_, _, .text a ht⟩
      | call e =>
          obtain ⟨_, _, _, _, -, -, hhere, hlater⟩ := h.of_append
          obtain ⟨t, k, ht⟩ := ih ⟨_, _, hlater⟩
          by_cases hed : e = d
          · exact ⟨_, _, .call e (hed ▸ hr) ht⟩
          · rw [if_neg hed] at hhere
            cases hhere with
            | call _ he _ => exact ⟨_, _, .call e he ht⟩

/-- A run that ends has expanded the template. -/
theorem expands_of_expand (name : δ → List α) {fuel : ℕ} {ps out : List (Piece α δ)}
    (h : expand body fuel ps = some out) :
    firstCall out = none ∧ ∃ n, Expands body ps (render name out) n := by
  induction fuel generalizing ps with
  | zero => cases h
  | succ fuel ih =>
      rw [expand] at h
      rcases hfirst : firstCall ps with _ | d
      · rw [hfirst] at h
        cases h
        exact ⟨hfirst, 0, expands_of_firstCall_none name hfirst⟩
      · rw [hfirst] at h
        obtain ⟨hout, n, hn⟩ := ih h
        refine ⟨hout, ?_⟩
        obtain ⟨s, k, hs⟩ := exists_expands_of_subst (mem_of_firstCall hfirst) ⟨_, _, hn⟩
        obtain ⟨m, hm, -⟩ := hs.subst d
        rw [(hn.functional hm).1]
        exact ⟨k, hs⟩

/-- Where there is a meaning, so many rounds suffice. -/
theorem Expands.exists_expand {ps : List (Piece α δ)} {s : List α} {n : ℕ}
    (h : Expands body ps s n) : ∃ out, expand body (n + 1) ps = some out := by
  have hfuel : ∀ fuel, n < fuel → ∃ out, expand body fuel ps = some out := by
    intro fuel
    induction fuel generalizing ps n with
    | zero => exact fun hn => absurd hn (Nat.not_lt_zero n)
    | succ fuel ih =>
        intro hn
        rw [expand]
        rcases hfirst : firstCall ps with _ | d
        · exact ⟨ps, rfl⟩
        · obtain ⟨k, hk, -, hlt⟩ := h.subst d
          have := hlt (mem_of_firstCall hfirst)
          exact ih hk (by omega)
  exact hfuel (n + 1) (Nat.lt_succ_self n)

theorem expand_isSome_iff {ps : List (Piece α δ)} :
    (∃ fuel out, expand body fuel ps = some out) ↔ ∃ s n, Expands body ps s n := by
  constructor
  · rintro ⟨fuel, out, h⟩
    obtain ⟨-, n, hn⟩ := expands_of_expand (fun _ => []) h
    exact ⟨_, n, hn⟩
  · rintro ⟨s, n, h⟩
    exact ⟨n + 1, h.exists_expand⟩

end Run

/-! ## Calls within calls -/

variable (body) in
/-- The body of `d` calls `e`. -/
def Uses (e d : δ) : Prop := .call e ∈ body d

variable (body) in
/-- The expansion of a template comes upon `e`. -/
def Reaches (ps : List (Piece α δ)) (e : δ) : Prop :=
  ∃ d, .call d ∈ ps ∧ Relation.ReflTransGen (Uses body) e d

theorem not_reaches_of_firstCall {ps : List (Piece α δ)} (h : firstCall ps = none) (e : δ) :
    ¬ Reaches body ps e := by
  rintro ⟨d, hd, -⟩
  exact not_mem_of_firstCall h d hd

/-- What an expansion comes upon is its first call, and what it comes upon after a round. -/
theorem reaches_iff_of_firstCall [DecidableEq δ] {ps : List (Piece α δ)} {d : δ}
    (h : firstCall ps = some d) {e : δ} :
    Reaches body ps e ↔ e = d ∨ Reaches body (subst body d ps) e := by
  have hd := mem_of_firstCall h
  constructor
  · rintro ⟨c, hc, hreach⟩
    by_cases hcd : c = d
    · rw [hcd] at hreach
      rcases Relation.ReflTransGen.cases_tail hreach with heq | ⟨x, hx, huse⟩
      · exact .inl heq.symm
      · exact .inr ⟨x, mem_subst_of_mem_body body hd huse, hx⟩
    · exact .inr ⟨c, mem_subst_of_ne body hcd hc, hreach⟩
  · rintro (rfl | ⟨c, hc, hreach⟩)
    · exact ⟨e, hd, .refl⟩
    · rcases mem_subst body hc with hin | ⟨-, huse⟩
      · exact ⟨c, hin, hreach⟩
      · exact ⟨d, hd, hreach.tail huse⟩

theorem exists_expands_iff {ps : List (Piece α δ)} :
    (∃ s n, Expands body ps s n) ↔ ∀ d, .call d ∈ ps → Acc (Uses body) d := by
  constructor
  · rintro ⟨s, n, h⟩
    induction h with
    | nil => exact fun d hd => absurd hd List.not_mem_nil
    | text a _ ih =>
        intro d hd
        rcases List.mem_cons.mp hd with heq | hd
        · cases heq
        · exact ih d hd
    | call e _ _ ihe ih =>
        intro d hd
        rcases List.mem_cons.mp hd with heq | hd
        · cases heq
          exact .intro _ ihe
        · exact ih d hd
  · intro h
    have hbody : ∀ d, Acc (Uses body) d → ∃ r m, Expands body (body d) r m := by
      intro d hd
      induction hd with
      | intro d _ ih => exact exists_expands ih
    exact exists_expands fun d hd => hbody d (h d hd)

/-- Of finitely many calls, all can be expanded when none comes upon itself. -/
theorem acc_iff_no_cycle {ps : List (Piece α δ)} (hfin : {e | Reaches body ps e}.Finite) :
    (∀ d, .call d ∈ ps → Acc (Uses body) d) ↔
      ∀ e, Reaches body ps e → ¬ Relation.TransGen (Uses body) e e := by
  constructor
  · rintro h e ⟨d, hd, hreach⟩
    have hacc : Acc (Relation.TransGen (Uses body)) e := by
      rw [acc_transGen_iff]
      induction hreach using Relation.ReflTransGen.head_induction_on with
      | refl => exact h d hd
      | head huse _ ih => exact ih.inv huse
    induction hacc with
    | intro e _ ih => exact fun hcycle => ih e hcycle hreach hcycle
  · intro h d hd
    -- among the calls that are reached, calling is well founded
    let S := {e // Reaches body ps e}
    have : Finite S := hfin
    let below : S → S → Prop := fun x y => Relation.TransGen (Uses body) x.1 y.1
    have : IsTrans S below := ⟨fun _ _ _ => Relation.TransGen.trans⟩
    have : Std.Irrefl below := ⟨fun x => h x.1 x.2⟩
    have hacc : ∀ x : S, Acc (Uses body) x.1 := by
      intro x
      induction x using (Finite.wellFounded_of_trans_of_irrefl below).induction with
      | _ x ih =>
          obtain ⟨c, hc, hreach⟩ := x.2
          exact .intro _ fun e he => ih ⟨e, c, hc, hreach.head he⟩ (.single he)
    exact hacc ⟨d, d, hd, .refl⟩

end Templates

end Expansion
