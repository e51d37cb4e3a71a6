/-
# Accepted tokens carry a valid signature

Soundness of `JWT::verify`: along every run of verifications, key changes and cache
operations, a token is accepted only if its own third segment is a valid signature of
its header and payload, under the key of the configured algorithm.

* `JWT.ValidSignature` — what a valid signature is, in terms of the ideal libraries;
* `JWT.SignatureChecked` — the condition on a verification under which this holds;
* `JWT.accepted_validSignature` — soundness along runs whose verifications meet it.

The condition leaves out the paths that accept without a check: a cached payload under
another signature, and calls into OpenSSL that fail before or during the computation.
-/
import Mantids.Jwt

namespace Mantids

namespace JWT

variable (K : Libraries)

/-- The bytes that are signed. -/
def signedData (header_b64 payload_b64 : Bytes) : Bytes := header_b64 ++ 46 :: payload_b64

/-- The third segment of the token is a signature of the other two under the current key of
the configured algorithm, with its hash. -/
def ValidSignature (j : JWT) (t : Bytes) : Prop :=
  ∃ h p s, segments t = some (h, p, s) ∧
    if j.algorithm.isUsingHMAC then
      j.sharedSecret ≠ [] ∧
        decodeFromBase64 K true s = K.hmac j.algorithm.hash j.sharedSecret (signedData h p)
    else
      K.publicKeyLoads j.publicSecret = true ∧
        K.digestVerify j.algorithm.hash j.publicSecret (signedData h p)
          (decodeFromBase64 K true s) = true

/-- A header that names an HMAC algorithm makes `verify` compute a signature by the
configured algorithm.  With HMAC the computation must succeed.  With RSA, unless no
digest comes out of it, it must succeed, and the public key must be the one that goes
with the private key. -/
def ComputesSignature (j : JWT) (o : Outcomes) (data : Bytes) : Prop :=
  if j.algorithm.isUsingHMAC then j.sharedSecret ≠ [] → o.hmac = none
  else o.signBio = true → K.privateKeyLoads j.privateSecret = true →
    o.signFinal = none ∧ K.publicKeyLoads j.publicSecret = true ∧
      K.digestVerify j.algorithm.hash j.publicSecret data
        (K.digestSign j.algorithm.hash j.privateSecret data) = true

/-- A header that names an RSA algorithm makes `verify` check the signature with the public
key.  The buffer object must be there, and if a key is read, then the context must be
there too and RSA must be what is configured. -/
def ChecksWithPublicKey (j : JWT) (o : Outcomes) : Prop :=
  o.verifyBio = true ∧ (K.publicKeyLoads j.publicSecret = true →
    o.verifyContext = true ∧ j.algorithm.isUsingHMAC = false)

/-- What the algorithm named by the header leads to goes through. -/
def AlgorithmChecked (j : JWT) (o : Outcomes) (data : Bytes) : Option String → Prop
  | none => True
  | some alg =>
    (isHMACAlgorithm alg = true → j.ComputesSignature K o data) ∧
      (isHMACAlgorithm alg = false → j.ChecksWithPublicKey K o)

/-- The condition on a verification.  A token whose payload is in the cache must be one
that was verified itself; any other token must be checked by calls that succeed. -/
def TokenChecked (v : Validator) (o : Outcomes) (t : Bytes) : Option (Bytes × Bytes × Bytes) → Prop
  | none => True
  | some (h, p, _) =>
    if v.jwt.cache.checkToken (decodeFromBase64 K o.payloadDecoded p) then t ∈ v.verified
    else v.jwt.AlgorithmChecked K o (signedData h p)
      (headerAlgorithm K (decodeFromBase64 K o.headerDecoded h))

/-- The condition on a step: its token is checked. -/
def SignatureChecked (v : Validator) : Op → Prop
  | .verify t _ o => TokenChecked K v o t (segments t)
  | _ => True

instance (j : JWT) (t : Bytes) : Decidable (ValidSignature K j t) :=
  match hs : segments t with
  | none => isFalse (fun ⟨_, _, _, h, _⟩ => by rw [hs] at h; cases h)
  | some (h, p, s) =>
    decidable_of_iff
      (if j.algorithm.isUsingHMAC then
        j.sharedSecret ≠ [] ∧
          decodeFromBase64 K true s = K.hmac j.algorithm.hash j.sharedSecret (signedData h p)
      else
        K.publicKeyLoads j.publicSecret = true ∧
          K.digestVerify j.algorithm.hash j.publicSecret (signedData h p)
            (decodeFromBase64 K true s) = true)
      ⟨fun hc => ⟨h, p, s, hs, hc⟩,
        fun ⟨h', p', s', hs', hc⟩ => by rw [hs] at hs'; cases hs'; exact hc⟩

instance (j : JWT) (o : Outcomes) (data : Bytes) : Decidable (j.ComputesSignature K o data) :=
  inferInstanceAs (Decidable (ite (j.algorithm.isUsingHMAC = true) (_ → _) (_ → _ → _ ∧ _ ∧ _)))

instance (j : JWT) (o : Outcomes) : Decidable (j.ChecksWithPublicKey K o) :=
  inferInstanceAs (Decidable (_ ∧ (_ → _ ∧ _)))

instance (j : JWT) (o : Outcomes) (data : Bytes) (alg : Option String) :
    Decidable (j.AlgorithmChecked K o data alg) :=
  match alg with
  | none => isTrue trivial
  | some _ => inferInstanceAs (Decidable ((_ → _) ∧ (_ → _)))

instance (v : Validator) (o : Outcomes) (t : Bytes) (seg : Option (Bytes × Bytes × Bytes)) :
    Decidable (TokenChecked K v o t seg) :=
  match seg with
  | none => isTrue trivial
  | some (_, p, _) =>
    inferInstanceAs (Decidable (ite
      (v.jwt.cache.checkToken (decodeFromBase64 K o.payloadDecoded p) = true)
      (t ∈ v.verified) (AlgorithmChecked K _ o _ _)))

instance (v : Validator) (op : Op) : Decidable (SignatureChecked K v op) :=
  match op with
  | .verify t _ o => inferInstanceAs (Decidable (TokenChecked K v o t (segments t)))
  | .setSharedSecret _ | .setPublicSecret _ | .setPrivateSecret _ | .cacheSetEnabled _
  | .cacheSetMaxByteCount _ | .cacheClear | .addToRevocationList _ _ | .removeExpired _ =>
    isTrue trivial

/-! ## One verification -/

/-- A decoded signature that is not empty is the third segment decoded. -/
theorem decodeFromBase64_of_ne_nil {ok : Bool} {s : Bytes} (h : decodeFromBase64 K ok s ≠ []) :
    decodeFromBase64 K ok s = decodeFromBase64 K true s := by
  cases ok with
  | true => rfl
  | false =>
      exfalso
      apply h
      unfold decodeFromBase64
      split <;> rfl

/-- The computed signature, where it is compared with a signature that is not empty. -/
theorem validSignature_of_createSignature {j : JWT} {o : Outcomes} {t h p s digest : Bytes}
    (hseg : segments t = some (h, p, s)) (hc : j.ComputesSignature K o (signedData h p))
    (hsig : j.createSignature K o (signedData h p) = some digest) (hne : digest ≠ [])
    (heq : digest = decodeFromBase64 K true s) : ValidSignature K j t := by
  refine ⟨h, p, s, hseg, ?_⟩
  unfold ComputesSignature at hc
  unfold createSignature at hsig
  split at hc
  · rename_i hmac
    rw [if_pos hmac] at hsig ⊢
    unfold createHMACSignature at hsig
    split at hsig
    · cases hsig
    · rename_i hkey
      rw [hc hkey, Option.getD_none, Option.some.injEq] at hsig
      exact ⟨hkey, by rw [← heq, hsig]⟩
  · rename_i hrsa
    rw [if_neg hrsa] at hsig ⊢
    unfold createRSASignature at hsig
    split at hsig
    · simp only [Option.some.injEq] at hsig
      exact absurd hsig.symm hne
    · rename_i hbio
      split at hsig
      · cases hsig
      · rename_i hkey
        simp only [Bool.not_eq_true', Bool.not_eq_false, Bool.and_eq_true] at hbio hkey
        obtain ⟨hfinal, hload, hverify⟩ := hc hbio hkey.2
        split at hsig
        · cases hsig
        · rw [hfinal, Option.getD_none, Option.some.injEq] at hsig
          exact ⟨hload, by rw [← heq, ← hsig]; exact hverify⟩

theorem validSignature_of_validateRSASignature {j : JWT} {o : Outcomes} {t h p s : Bytes}
    (hseg : segments t = some (h, p, s)) (hc : j.ChecksWithPublicKey K o)
    (hsig : j.validateRSASignature K o (signedData h p)
      (decodeFromBase64 K o.signatureDecoded s) = true) : ValidSignature K j t := by
  obtain ⟨hbio, hload⟩ := hc
  refine ⟨h, p, s, hseg, ?_⟩
  unfold validateRSASignature at hsig
  rw [hbio, if_neg (by simp)] at hsig
  split at hsig
  · cases hsig
  · rename_i hkey
    simp only [Bool.not_eq_true', Bool.not_eq_false, Bool.and_eq_true] at hkey
    obtain ⟨hctx, halg⟩ := hload hkey.2
    rw [hctx, if_neg (by simp), Bool.and_eq_true] at hsig
    rw [halg, if_neg (by simp)]
    refine ⟨hkey.2, ?_⟩
    have hne : decodeFromBase64 K o.signatureDecoded s ≠ [] := by
      intro hnil
      have := hsig.2
      rw [hnil, K.digestVerify_nil] at this
      cases this
    rw [← decodeFromBase64_of_ne_nil K hne]
    exact hsig.2

/-- A signature that passes the check under the condition is valid. -/
theorem validSignature_of_bySignature {v : Validator} {t : Bytes} {now : ℤ} {o : Outcomes}
    (hc : SignatureChecked K v (.verify t now o)) (hs : BySignature K o v.jwt t) :
    ValidSignature K v.jwt t := by
  obtain ⟨h, p, s, hseg, hmiss, hcheck⟩ := hs
  simp only [SignatureChecked, TokenChecked, hseg, hmiss, Bool.false_eq_true, if_false] at hc
  unfold checkSignature at hcheck
  cases halg : headerAlgorithm K (decodeFromBase64 K o.headerDecoded h) with
  | none => simp [halg] at hcheck
  | some alg =>
      simp only [halg, AlgorithmChecked] at hc hcheck
      split at hcheck
      · cases hcheck
      · split at hcheck
        · rename_i hmac
          simp only [Option.map_eq_some_iff, Bool.and_eq_true, decide_eq_true_eq,
            beq_iff_eq] at hcheck
          obtain ⟨digest, hsig, hpos, heq⟩ := hcheck
          have hne : digest ≠ [] := List.length_pos_iff.mp hpos
          refine validSignature_of_createSignature K hseg (hc.1 hmac) hsig hne ?_
          rw [heq] at hne ⊢
          exact decodeFromBase64_of_ne_nil K hne
        · rename_i hrsa
          rw [Option.some.injEq] at hcheck
          exact validSignature_of_validateRSASignature K hseg
            (hc.2 (by simpa using hrsa)) hcheck

/-! ## Runs -/

/-- The tokens that were verified by their signature are valid under the current keys. -/
def AllValid (v : Validator) : Prop := ∀ t ∈ v.verified, ValidSignature K v.jwt t

/-- A valid signature stays valid while the configured algorithm and the keys that verify
stay the same. -/
theorem ValidSignature.congr {j j' : JWT} {t : Bytes} (h : ValidSignature K j t)
    (ha : j'.algorithm = j.algorithm) (hs : j'.sharedSecret = j.sharedSecret)
    (hp : j'.publicSecret = j.publicSecret) : ValidSignature K j' t := by
  unfold ValidSignature at h ⊢
  rw [ha, hs, hp]
  exact h

/-- **Step lemma.** -/
theorem AllValid.step {v v' : Validator} {op : Op} {r : Option Verdict} (h : AllValid K v)
    (hc : SignatureChecked K v op) (hs : step K v op = some (v', r)) : AllValid K v' := by
  cases op with
  | verify t now o =>
      simp only [JWT.step, Option.map_eq_some_iff, Prod.mk.injEq] at hs
      obtain ⟨⟨j', verdict⟩, hv, rfl, -⟩ := hs
      obtain ⟨c, hj⟩ := verify_frame K o hv
      simp only [hj]
      intro u hu
      have huv : ValidSignature K v.jwt u := by
        simp only [] at hu
        split at hu
        · rename_i hsig
          rcases List.mem_cons.mp hu with rfl | hu
          · exact validSignature_of_bySignature K hc hsig
          · exact h u hu
        · exact h u hu
      exact huv.congr K rfl rfl rfl
  | setSharedSecret k | setPublicSecret k =>
      cases hs
      intro u hu
      cases hu
  | setPrivateSecret k | cacheSetEnabled b | cacheClear | addToRevocationList s e
  | removeExpired now =>
      cases hs
      exact fun u hu => (h u hu).congr K rfl rfl rfl
  | cacheSetMaxByteCount n =>
      simp only [JWT.step, Option.map_eq_some_iff, Prod.mk.injEq] at hs
      obtain ⟨c, -, rfl, -⟩ := hs
      exact fun u hu => (h u hu).congr K rfl rfl rfl

/-- An accepted token is valid, where the condition and the invariant hold. -/
theorem AllValid.accepted {v v' : Validator} {t : Bytes} {now : ℤ} {o : Outcomes}
    (h : AllValid K v) (hc : SignatureChecked K v (.verify t now o))
    (hs : JWT.step K v (.verify t now o) = some (v', some .accepted)) :
    ValidSignature K v.jwt t := by
  simp only [JWT.step, Option.map_eq_some_iff, Prod.mk.injEq, Option.some.injEq] at hs
  obtain ⟨⟨j', verdict⟩, hv, -, rfl⟩ := hs
  obtain ⟨hd, pl, sg, hseg, hhit | ⟨hmiss, hcheck, -⟩⟩ := verify_cases K o hv
  · simp only [SignatureChecked, TokenChecked, hseg, hhit, if_true] at hc
    exact h t hc
  · exact validSignature_of_bySignature K hc ⟨hd, pl, sg, hseg, hmiss, hcheck⟩

/-- **Soundness of `verify`.**  In every run of a newly constructed validator whose
verifications meet the condition, a token is accepted only if its third segment is a
valid signature of the token's own header and payload under the current key. -/
theorem accepted_validSignature (algorithm : Algorithm) (enabled : Bool) (ops : List Op)
    (hops : Run.Guarded (step K) (SignatureChecked K) (fresh algorithm enabled) ops) :
    ∀ tr ∈ Run.transitions (step K) (fresh algorithm enabled) ops, ∀ t now o,
      tr.input = .verify t now o → tr.output = some .accepted →
        ValidSignature K tr.before.jwt t := by
  intro tr htr t now o hin hout
  have hinv := Run.Guarded.invariant (AllValid K) (fun _ _ _ _ h hc hs => h.step K hc hs)
    (fun u hu => by cases hu) hops tr htr
  have hstep := Run.step_of_mem_transitions htr
  have hc := hops tr htr
  rw [hin] at hstep hc
  rw [hout] at hstep
  exact hinv.1.accepted K hc hstep

/-- A token that is verified by its signature and then found in the cache. -/
theorem accepted_validSignature_twice :
    ∃ tr ∈ Run.transitions (step sample) (fresh .HS256 true)
        [.setSharedSecret (ascii "secret"), .verify sampleToken 0 {}, .verify sampleToken 1 {}],
      tr.input = .verify sampleToken 1 {} ∧ tr.output = some .accepted ∧
        ValidSignature sample tr.before.jwt sampleToken := by
  have hguard : Run.Guarded (step sample) (SignatureChecked sample) (fresh .HS256 true)
      [.setSharedSecret (ascii "secret"), .verify sampleToken 0 {}, .verify sampleToken 1 {}] := by
    rw [sampleToken, sample, Run.Guarded]
    repeat rw [ascii_ofList]
    decide +kernel
  obtain ⟨tr, htr, hin, hout⟩ : ∃ tr ∈ Run.transitions (step sample) (fresh .HS256 true)
      [.setSharedSecret (ascii "secret"), .verify sampleToken 0 {}, .verify sampleToken 1 {}],
      tr.input = .verify sampleToken 1 {} ∧ tr.output = some .accepted := by
    rw [sampleToken, sample]
    repeat rw [ascii_ofList]
    decide +kernel
  exact ⟨tr, htr, hin, hout,
    accepted_validSignature sample .HS256 true _ hguard tr htr _ _ _ hin hout⟩

/-- After a token was verified, the cache accepts its payload under any other signature. -/
theorem forged_signature_accepted :
    ∃ tr ∈ Run.transitions (step sample) (fresh .HS256 true)
        [.setSharedSecret (ascii "secret"), .verify sampleToken 0 {}, .verify forgedToken 1 {}],
      tr.input = .verify forgedToken 1 {} ∧ tr.output = some .accepted ∧
        ¬ ValidSignature sample tr.before.jwt forgedToken := by
  rw [sampleToken, forgedToken, sample]
  repeat rw [ascii_ofList]
  decide +kernel

end JWT

end Mantids
