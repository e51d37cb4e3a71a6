/-
# The revocation list between garbage collections

`JWT::Revocation` (`DataFormat_JWT/jwt_revocation.cpp`) keeps the revoked signatures in a set for
the lookups, and in a multimap under their expiration times for the garbage collector.

* `RevocationLog` — the list with the revocations that were made and the time of the last
  collection;
* `RevokedUntilExpiry` — a signature is found until every revocation of it has run out;
* `RemovesExpired` — the condition: a collection finds no signature with both an expired and an
  unexpired entry;
* `revokedUntilExpiry_iff` — along a run the first holds exactly if the second does.

The collector takes a signature out of the set with the first of its entries that has expired, and
leaves the others in the multimap.
-/
import Mantids.Jwt

namespace Mantids

namespace JWT

/-- A revocation list in use.  The last two fields are no part of the object. -/
structure RevocationLog where
  revocation : Revocation := {}
  /-- The arguments of `addToRevocationList` so far. -/
  added : List (Bytes × ℤ) := []
  /-- The time of the latest collection. -/
  clock : Option ℤ := none

namespace RevocationLog

inductive Op where
  | addToRevocationList (signature : Bytes) (expirationTime : ℤ)
  | removeExpiredTokensFromRevocationList (now : ℤ)
deriving DecidableEq

/-- The clock does not go back behind the latest collection. -/
def NotBefore (v : RevocationLog) (t : ℤ) : Prop := ∀ c ∈ v.clock, c ≤ t

instance (v : RevocationLog) (t : ℤ) : Decidable (v.NotBefore t) :=
  inferInstanceAs (Decidable (∀ c ∈ v.clock, c ≤ t))

/-- One step; the clock shows no time before the one it showed. -/
def step (v : RevocationLog) : Op → Option (RevocationLog × Unit)
  | .addToRevocationList signature expirationTime =>
    some ({ v with
            revocation := v.revocation.addToRevocationList signature expirationTime
            added := (signature, expirationTime) :: v.added }, ())
  | .removeExpiredTokensFromRevocationList now =>
    if v.NotBefore now then
      some ({ v with revocation := v.revocation.removeExpired now, clock := some now }, ())
    else none

/-- At every time from now on a signature is found while one of its revocations lasts. -/
def RevokedUntilExpiry (v : RevocationLog) : Prop :=
  ∀ t, v.NotBefore t → ∀ s e, (s, e) ∈ v.added → t < e → v.revocation.isSignatureRevoked s = true

/-- The condition on a step: a collection finds no signature with both an expired entry and one
that is not. -/
def RemovesExpired (v : RevocationLog) : Op → Prop
  | .addToRevocationList _ _ => True
  | .removeExpiredTokensFromRevocationList now =>
    ∀ x ∈ v.revocation.expirationSignatures, ∀ y ∈ v.revocation.expirationSignatures,
      x.2 = y.2 → x.1 ≤ now → y.1 ≤ now

instance (v : RevocationLog) (op : Op) : Decidable (v.RemovesExpired op) :=
  match op with
  | .addToRevocationList _ _ => isTrue trivial
  | .removeExpiredTokensFromRevocationList now => inferInstanceAs (Decidable
      (∀ x ∈ v.revocation.expirationSignatures, ∀ y ∈ v.revocation.expirationSignatures,
        x.2 = y.2 → x.1 ≤ now → y.1 ≤ now))

/-! ## What the multimap holds -/

/-- The entries of the multimap are the revocations that had not run out at the latest
collection. -/
structure Entered (v : RevocationLog) : Prop where
  added : ∀ e s, (e, s) ∈ v.revocation.expirationSignatures → (s, e) ∈ v.added
  entry : ∀ s e, (s, e) ∈ v.added →
    (e, s) ∈ v.revocation.expirationSignatures ∨ ∃ c ∈ v.clock, e ≤ c

theorem Entered.step {v v' : RevocationLog} {op : Op} {r : Unit} (h : v.Entered)
    (hs : RevocationLog.step v op = some (v', r)) : v'.Entered := by
  rcases op with ⟨s, e⟩ | now
  · obtain ⟨rfl, -⟩ := Prod.mk.inj (Option.some.inj hs)
    refine ⟨fun e' s' hmem => ?_, fun s' e' hmem => ?_⟩
    · rcases List.mem_cons.mp hmem with heq | hmem
      · obtain ⟨rfl, rfl⟩ := Prod.mk.inj heq
        exact List.mem_cons_self
      · exact List.mem_cons_of_mem _ (h.added e' s' hmem)
    · rcases List.mem_cons.mp hmem with heq | hmem
      · obtain ⟨rfl, rfl⟩ := Prod.mk.inj heq
        exact Or.inl List.mem_cons_self
      · exact (h.entry s' e' hmem).imp_left (List.mem_cons_of_mem _)
  · simp only [RevocationLog.step, Option.ite_none_right_eq_some] at hs
    obtain ⟨hclock, hs⟩ := hs
    obtain ⟨rfl, -⟩ := Prod.mk.inj (Option.some.inj hs)
    refine ⟨fun e s hmem => h.added e s (List.mem_of_mem_filter hmem), fun s e hmem => ?_⟩
    by_cases hexpired : e ≤ now
    · exact Or.inr ⟨now, rfl, hexpired⟩
    · rcases h.entry s e hmem with hin | ⟨c, hc, hle⟩
      · exact Or.inl (List.mem_filter.mpr ⟨hin, by simpa using hexpired⟩)
      · exact absurd (hle.trans (hclock c hc)) hexpired

/-! ## The step lemma -/

/-- A collection keeps the promise exactly if it meets the condition. -/
theorem Entered.removeExpired_iff {v : RevocationLog} (h : v.Entered)
    (hkept : v.RevokedUntilExpiry) {now : ℤ} (hclock : v.NotBefore now) :
    RevokedUntilExpiry
        { v with revocation := v.revocation.removeExpired now, clock := some now } ↔
      v.RemovesExpired (.removeExpiredTokensFromRevocationList now) := by
  have hmem : ∀ s, s ∈ (v.revocation.removeExpired now).revokedTokens ↔
      s ∈ v.revocation.revokedTokens ∧
        ¬ ∃ x ∈ v.revocation.expirationSignatures, x.1 ≤ now ∧ x.2 = s := by
    intro s
    simp only [Revocation.removeExpired, Finset.mem_filter]
  constructor
  · intro hafter x hx y hy hsame hexpired
    by_contra hlasts
    -- the signature of both entries is gone at the time of the collection
    have hfound := hafter now (by rintro c ⟨⟩; exact le_rfl) y.2 y.1 (h.added y.1 y.2 hy)
      (lt_of_not_ge hlasts)
    simp only [Revocation.isSignatureRevoked, decide_eq_true_eq] at hfound
    exact ((hmem y.2).mp hfound).2 ⟨x, hx, hexpired, hsame⟩
  · intro hcond t ht s e hadded hlasts
    have hnow : now ≤ t := ht now rfl
    have hbefore := hkept t (fun c hc => (hclock c hc).trans hnow) s e hadded hlasts
    simp only [Revocation.isSignatureRevoked, decide_eq_true_eq] at hbefore ⊢
    refine (hmem s).mpr ⟨hbefore, ?_⟩
    rintro ⟨x, hx, hexpired, rfl⟩
    -- an expired entry of the signature would mean that this one has expired too
    rcases h.entry x.2 e hadded with hentry | ⟨c, hc, hle⟩
    · have hle := hcond x hx (e, x.2) hentry rfl hexpired
      simp only at hle
      omega
    · have := hclock c hc
      omega

theorem RevokedUntilExpiry.add {v : RevocationLog} (h : v.RevokedUntilExpiry) (s : Bytes) (e : ℤ) :
    RevokedUntilExpiry
      { v with
        revocation := v.revocation.addToRevocationList s e
        added := (s, e) :: v.added } := by
  intro t ht s' e' hadded hlasts
  apply decide_eq_true
  rcases List.mem_cons.mp hadded with heq | hold
  · obtain ⟨rfl, rfl⟩ := Prod.mk.inj heq
    exact Finset.mem_insert_self _ _
  · exact Finset.mem_insert_of_mem (of_decide_eq_true (h t ht s' e' hold hlasts))

/-- **Step lemma.** -/
theorem Entered.step_iff {v v' : RevocationLog} {op : Op} {r : Unit} (h : v.Entered)
    (hkept : v.RevokedUntilExpiry) (hs : RevocationLog.step v op = some (v', r)) :
    v'.RevokedUntilExpiry ↔ v.RemovesExpired op := by
  rcases op with ⟨s, e⟩ | now
  · obtain ⟨rfl, -⟩ := Prod.mk.inj (Option.some.inj hs)
    exact iff_of_true (hkept.add s e) trivial
  · simp only [RevocationLog.step, Option.ite_none_right_eq_some] at hs
    obtain ⟨hclock, hs⟩ := hs
    obtain ⟨rfl, -⟩ := Prod.mk.inj (Option.some.inj hs)
    exact h.removeExpired_iff hkept hclock

/-! ## Runs -/

theorem entered_init : Entered ({} : RevocationLog) :=
  ⟨fun _ _ hmem => absurd hmem List.not_mem_nil, fun _ _ hmem => absurd hmem List.not_mem_nil⟩

/-- **Revocations last until they expire.**  In every run under a clock that does not go back, a
signature is found in every state and at every time while one of its revocations lasts, exactly if
every collection of the run finds no signature with both an expired entry and one that is not. -/
theorem revokedUntilExpiry_iff (ops : List Op) :
    (∀ t ∈ Run.transitions step {} ops, t.after.RevokedUntilExpiry) ↔
      Run.Guarded step RemovesExpired {} ops := by
  apply Run.guarded_iff (fun v : RevocationLog => v.Entered ∧ v.RevokedUntilExpiry)
    (fun t : Run.Transition RevocationLog Op Unit => t.after.RevokedUntilExpiry)
  · intro v op v' r hv hs
    exact hv.1.step_iff hv.2 hs
  · intro v op v' r hv hc hs
    exact ⟨hv.1.step hs, (hv.1.step_iff hv.2 hs).mpr hc⟩
  · exact ⟨entered_init, fun t _ s e hadded _ => absurd hadded List.not_mem_nil⟩

/-- A signature that was revoked until 5 and until 100 is not found at 6. -/
theorem revoked_lost_after_collection :
    ¬ ∀ t ∈ Run.transitions step {} [.addToRevocationList [1] 5, .addToRevocationList [1] 100,
        .removeExpiredTokensFromRevocationList 6], t.after.RevokedUntilExpiry := by
  rw [revokedUntilExpiry_iff]
  unfold Run.Guarded
  decide

end RevocationLog

end JWT

end Mantids
