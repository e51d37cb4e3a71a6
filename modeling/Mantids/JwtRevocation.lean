/-
# Revoked tokens are not accepted

Once a signature is put on the revocation list with an expiration time, no token that
carries it should be accepted before that time, whatever else happens in between.

* `JWT.RevocationChecked` — the condition on a step under which this holds;
* `JWT.revoked_not_accepted` — revocation along runs whose steps meet it and whose clock
  does not go back.

Two things are left out.  A payload in the cache is accepted without a look at the list;
and garbage collection drops a signature from the list as soon as one of its entries has
expired, even if another one has not.
-/
import Mantids.Jwt

namespace Mantids

namespace JWT

variable (K : Libraries)

/-- The token carries the signature. -/
def Carries (t signature : Bytes) : Prop :=
  ∃ h p s, segments t = some (h, p, s) ∧ decodeFromBase64 K true s = signature

/-- The condition on the verification of a token: if its payload is in the cache, then its
signature is not on the list; else its signature can be decoded, or the calls that
check it have what they need to turn down an empty one. -/
def ListConsulted (v : Validator) (o : Outcomes) : Option (Bytes × Bytes × Bytes) → Prop
  | none => True
  | some (_, p, s) =>
    if v.jwt.cache.checkToken (decodeFromBase64 K o.payloadDecoded p) then
      v.jwt.revocation.isSignatureRevoked (decodeFromBase64 K true s) = false
    else o.signatureDecoded = true ∨ (o.verifyBio = true ∧ o.verifyContext = true)

/-- The condition on a step: a verification consults the list, and garbage collection
finds no signature with both an expired entry and one that is not. -/
def RevocationChecked (v : Validator) : Op → Prop
  | .verify t _ o => ListConsulted K v o (segments t)
  | .removeExpired now =>
    ∀ x ∈ v.jwt.revocation.expirationSignatures, ∀ y ∈ v.jwt.revocation.expirationSignatures,
      x.2 = y.2 → x.1 ≤ now → y.1 ≤ now
  | _ => True

/-- The time of an operation. -/
def Op.time : Op → Option ℤ
  | .verify _ now _ => some now
  | .removeExpired now => some now
  | _ => none

/-- The clock does not go back. -/
def InOrder (v : Validator) (op : Op) : Prop :=
  ∀ c ∈ v.clock, ∀ now ∈ op.time, c ≤ now

instance (v : Validator) (o : Outcomes) (seg : Option (Bytes × Bytes × Bytes)) :
    Decidable (ListConsulted K v o seg) :=
  match seg with
  | none => isTrue trivial
  | some (_, p, _) =>
    inferInstanceAs (Decidable (ite
      (v.jwt.cache.checkToken (decodeFromBase64 K o.payloadDecoded p) = true) (_ = _) (_ ∨ _)))

instance (v : Validator) (op : Op) : Decidable (RevocationChecked K v op) :=
  match op with
  | .verify _ _ o => inferInstanceAs (Decidable (ListConsulted K v o _))
  | .removeExpired now => inferInstanceAs (Decidable
      (∀ x ∈ v.jwt.revocation.expirationSignatures,
        ∀ y ∈ v.jwt.revocation.expirationSignatures, x.2 = y.2 → x.1 ≤ now → y.1 ≤ now))
  | .setSharedSecret _ | .setPublicSecret _ | .setPrivateSecret _ | .cacheSetEnabled _
  | .cacheSetMaxByteCount _ | .cacheClear | .addToRevocationList _ _ => isTrue trivial

instance (v : Validator) (op : Op) : Decidable (InOrder v op) :=
  inferInstanceAs (Decidable (∀ c ∈ v.clock, ∀ now ∈ op.time, c ≤ now))

/-- Every revocation has run out by the clock, or is on the list with its entry. -/
def Remembered (v : Validator) : Prop :=
  ∀ s e, (s, e) ∈ v.revoked → (∃ c ∈ v.clock, e ≤ c) ∨
    (s ∈ v.jwt.revocation.revokedTokens ∧ (e, s) ∈ v.jwt.revocation.expirationSignatures)

variable {K} {v v' : Validator}

/-- Time that passes lets revocations run out, no more. -/
theorem Remembered.tick (h : Remembered v) {now : ℤ} (hclock : ∀ c ∈ v.clock, c ≤ now)
    (hrev : v'.revoked = v.revoked) (hlist : v'.jwt.revocation = v.jwt.revocation)
    (hnow : v'.clock = some now) : Remembered v' := by
  intro s e hse
  rw [hrev] at hse
  rw [hlist, hnow]
  rcases h s e hse with ⟨c, hc, hle⟩ | hon
  · exact Or.inl ⟨now, rfl, le_trans hle (hclock c hc)⟩
  · exact Or.inr hon

/-- What does not concern revocation leaves it alone. -/
theorem Remembered.congr (h : Remembered v) (hrev : v'.revoked = v.revoked)
    (hlist : v'.jwt.revocation = v.jwt.revocation) (hclock : v'.clock = v.clock) :
    Remembered v' := by
  intro s e hse
  rw [hrev] at hse
  rw [hlist, hclock]
  exact h s e hse

/-- Garbage collection keeps the revocations that have not run out. -/
theorem Remembered.removeExpired (h : Remembered v) {now : ℤ} (hclock : ∀ c ∈ v.clock, c ≤ now)
    (hc : RevocationChecked K v (.removeExpired now))
    (hs : step K v (.removeExpired now) = some (v', none)) : Remembered v' := by
  simp only [step, Option.some.injEq, Prod.mk.injEq, and_true] at hs
  subst hs
  intro s e hse
  by_cases hexp : e ≤ now
  · exact Or.inl ⟨now, rfl, hexp⟩
  · rcases h s e hse with ⟨c, hcl, hle⟩ | ⟨hon, hentry⟩
    · exact absurd (le_trans hle (hclock c hcl)) hexp
    · refine Or.inr ⟨?_, ?_⟩
      · simp only [Revocation.removeExpired, Finset.mem_filter]
        refine ⟨hon, ?_⟩
        rintro ⟨x, hx, hle, hxs⟩
        exact hexp (hc x hx (e, s) hentry hxs hle)
      · simp only [Revocation.removeExpired, List.mem_filter, decide_eq_true_eq]
        exact ⟨hentry, lt_of_not_ge hexp⟩

/-- **Step lemma.** -/
theorem Remembered.step {op : Op} {r : Option Verdict} (h : Remembered v) (hord : InOrder v op)
    (hc : RevocationChecked K v op) (hs : step K v op = some (v', r)) : Remembered v' := by
  cases op with
  | verify t now o =>
      simp only [JWT.step, Option.map_eq_some_iff, Prod.mk.injEq] at hs
      obtain ⟨⟨j', verdict⟩, hv, rfl, -⟩ := hs
      obtain ⟨c, hj⟩ := verify_frame K o hv
      exact h.tick (fun c hc => hord c hc now rfl) rfl (by rw [hj]) rfl
  | removeExpired now =>
      have hr : r = none := by
        simp only [JWT.step, Option.some.injEq, Prod.mk.injEq] at hs
        exact hs.2.symm
      subst hr
      exact h.removeExpired (fun c hc => hord c hc now rfl) hc hs
  | addToRevocationList s e =>
      cases hs
      intro s' e' hse
      rcases List.mem_cons.mp hse with heq | hse
      · cases heq
        exact Or.inr ⟨Finset.mem_insert_self _ _, List.mem_cons_self ..⟩
      · rcases h s' e' hse with hout | ⟨hon, hentry⟩
        · exact Or.inl hout
        · exact Or.inr ⟨Finset.mem_insert_of_mem hon, List.mem_cons_of_mem _ hentry⟩
  | setSharedSecret k | setPublicSecret k | setPrivateSecret k | cacheSetEnabled b | cacheClear =>
      cases hs
      exact h.congr rfl rfl rfl
  | cacheSetMaxByteCount n =>
      simp only [JWT.step, Option.map_eq_some_iff, Prod.mk.injEq] at hs
      obtain ⟨c, -, rfl, -⟩ := hs
      exact h.congr rfl rfl rfl

/-- An empty signature is turned down by calls that have what they need. -/
theorem checkSignature_nil {j : JWT} {o : Outcomes} {h p s : Bytes}
    (hdec : decodeFromBase64 K o.signatureDecoded s = []) (hbio : o.verifyBio = true)
    (hctx : o.verifyContext = true) : j.checkSignature K o h p s ≠ some true := by
  unfold checkSignature
  split
  · simp
  · split
    · simp
    · simp only [hdec]
      split
      · simp only [ne_eq, Option.map_eq_some_iff, Bool.and_eq_true, decide_eq_true_eq,
          beq_iff_eq, not_exists, not_and]
        intro digest _ hpos hnil
        rw [hnil] at hpos
        exact absurd hpos (by simp)
      · simp only [validateRSASignature, hbio, hctx, K.digestVerify_nil, Bool.and_false]
        simp

/-- A token whose signature is on the list is not accepted under the condition. -/
theorem not_accepted_of_revoked {t s : Bytes} {now : ℤ} {o : Outcomes} {r : Option Verdict}
    (hc : RevocationChecked K v (.verify t now o)) (hcarries : Carries K t s)
    (hon : s ∈ v.jwt.revocation.revokedTokens)
    (hs : JWT.step K v (.verify t now o) = some (v', r)) : r ≠ some .accepted := by
  rintro rfl
  simp only [JWT.step, Option.map_eq_some_iff, Prod.mk.injEq, Option.some.injEq] at hs
  obtain ⟨⟨j', verdict⟩, hv, -, rfl⟩ := hs
  obtain ⟨h, p, sg, hseg, hdec⟩ := hcarries
  have hrevoked : v.jwt.revocation.isSignatureRevoked s = true := by
    simp [Revocation.isSignatureRevoked, hon]
  obtain ⟨h', p', sg', hseg', hcases⟩ := verify_cases K o hv
  rw [hseg] at hseg'
  cases hseg'
  simp only [RevocationChecked, ListConsulted, hseg] at hc
  rcases hcases with hhit | ⟨hmiss, hcheck, hnot⟩
  · rw [hhit, if_pos rfl, hdec, hrevoked] at hc
    cases hc
  · rw [hmiss, if_neg (by simp)] at hc
    cases hsd : o.signatureDecoded with
    | true =>
        rw [hsd, hdec, hrevoked] at hnot
        cases hnot
    | false =>
        have hnil : decodeFromBase64 K o.signatureDecoded sg = [] := by
          rw [hsd]
          unfold decodeFromBase64
          split <;> rfl
        rcases hc with htrue | ⟨hbio, hctx⟩
        · rw [hsd] at htrue
          cases htrue
        · exact checkSignature_nil hnil hbio hctx hcheck

/-- **Revocation along runs.**  In every run of a newly constructed validator whose clock
does not go back and whose steps meet the condition: after a signature was revoked until
some time, no verification before that time accepts a token that carries it. -/
theorem revoked_not_accepted (K : Libraries) (algorithm : Algorithm) (enabled : Bool)
    (ops : List Op) (horder : Run.Guarded (step K) InOrder (fresh algorithm enabled) ops)
    (hops : Run.Guarded (step K) (RevocationChecked K) (fresh algorithm enabled) ops) :
    ∀ tr ∈ Run.transitions (step K) (fresh algorithm enabled) ops, ∀ t now o s e,
      tr.input = .verify t now o → (s, e) ∈ tr.before.revoked → Carries K t s → now < e →
        tr.output ≠ some .accepted := by
  intro tr htr t now o s e hin hse hcarries hbefore
  have hboth : Run.Guarded (step K) (fun v op => InOrder v op ∧ RevocationChecked K v op)
      (fresh algorithm enabled) ops := fun tr htr => ⟨horder tr htr, hops tr htr⟩
  have hinv := Run.Guarded.invariant Remembered (fun _ _ _ _ h hg hs => h.step hg.1 hg.2 hs)
    (fun _ _ h => by cases h) hboth tr htr
  have hstep := Run.step_of_mem_transitions htr
  have hc := hops tr htr
  have hord := horder tr htr
  rw [hin] at hstep hc hord
  rcases hinv.1 s e hse with ⟨c, hclock, hle⟩ | ⟨hon, -⟩
  · have := hord c hclock now rfl
    omega
  · exact not_accepted_of_revoked hc hcarries hon hstep

theorem carries_sampleToken : Carries sample sampleToken (decodeFromBase64 sample true
    (ascii "XmNK3GpH3Ys_7wsYBfq4C3M6goz71I7dTgUkuIa5lyQ")) := by
  refine ⟨ascii "eyJhbGciOiJIUzI1NiJ9", ascii "e30", _, ?_, rfl⟩
  rw [sampleToken]
  repeat rw [ascii_ofList]
  decide +kernel

/-- A validator without a cache: the signature of a token it accepted is revoked, the list
is collected once, and the token is presented again. -/
theorem revoked_not_accepted_uncached :
    ∃ tr ∈ Run.transitions (step sample) (fresh .HS256 false)
        [.setSharedSecret (ascii "secret"), .verify sampleToken 0 {},
          .addToRevocationList (decodeFromBase64 sample true
            (ascii "XmNK3GpH3Ys_7wsYBfq4C3M6goz71I7dTgUkuIa5lyQ")) 100,
          .removeExpired 5, .verify sampleToken 6 {}],
      tr.input = .verify sampleToken 6 {} ∧ tr.output ≠ some .accepted := by
  obtain ⟨tr, htr, hin, hrevoked⟩ : ∃ tr ∈ Run.transitions (step sample) (fresh .HS256 false)
      [.setSharedSecret (ascii "secret"), .verify sampleToken 0 {},
        .addToRevocationList (decodeFromBase64 sample true
          (ascii "XmNK3GpH3Ys_7wsYBfq4C3M6goz71I7dTgUkuIa5lyQ")) 100,
        .removeExpired 5, .verify sampleToken 6 {}],
      tr.input = .verify sampleToken 6 {} ∧ (decodeFromBase64 sample true
        (ascii "XmNK3GpH3Ys_7wsYBfq4C3M6goz71I7dTgUkuIa5lyQ"), 100) ∈ tr.before.revoked := by
    rw [sampleToken, sample]
    repeat rw [ascii_ofList]
    decide +kernel
  refine ⟨tr, htr, hin, revoked_not_accepted sample .HS256 false _ ?_ ?_ tr htr _ _ _ _ _ hin
    hrevoked carries_sampleToken (by decide)⟩
  · rw [sampleToken, sample, Run.Guarded]
    repeat rw [ascii_ofList]
    decide +kernel
  · rw [sampleToken, sample, Run.Guarded]
    repeat rw [ascii_ofList]
    decide +kernel

/-- With the cache enabled the same token is accepted after its signature was revoked. -/
theorem revoked_accepted_from_cache :
    let sig := decodeFromBase64 sample true
      (ascii "XmNK3GpH3Ys_7wsYBfq4C3M6goz71I7dTgUkuIa5lyQ")
    Run.Guarded (step sample) InOrder (fresh .HS256 true)
        [.setSharedSecret (ascii "secret"), .verify sampleToken 0 {}, .addToRevocationList sig 100,
          .verify sampleToken 1 {}] ∧
      Carries sample sampleToken sig ∧
      ∃ tr ∈ Run.transitions (step sample) (fresh .HS256 true)
          [.setSharedSecret (ascii "secret"), .verify sampleToken 0 {},
            .addToRevocationList sig 100, .verify sampleToken 1 {}],
        tr.input = .verify sampleToken 1 {} ∧ (sig, 100) ∈ tr.before.revoked ∧
          tr.output = some .accepted := by
  intro sig
  refine ⟨?_, carries_sampleToken, ?_⟩
  · rw [Run.Guarded, show sig = decodeFromBase64 _ _ _ from rfl, sampleToken, sample]
    repeat rw [ascii_ofList]
    decide +kernel
  · rw [show sig = decodeFromBase64 _ _ _ from rfl, sampleToken, sample]
    repeat rw [ascii_ofList]
    decide +kernel

end JWT

end Mantids
