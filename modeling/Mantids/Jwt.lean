/-
# Verifying signed tokens

`JWT` (`DataFormat_JWT/jwt.cpp`) checks tokens of the form `header.payload.signature`
against a shared secret or a public key.  It keeps a cache of payloads it has verified
(`jwt_cache.cpp`) and a list of revoked signatures (`jwt_revocation.cpp`).

* `JWT.verify` — one verification, through the cache or through the signature;
* `JWT.step` — the machine: verifications, key changes, cache operations, revocations
  and garbage collection;
* `JWT.verify_cases` — what a verification can do.

OpenSSL and the JSON reader are outside the library.  `Libraries` holds the functions
they compute when they work, `Outcomes` which calls of one verification failed, and what
they left behind in memory that was never written.
-/
import Mantids.Token
import Mantids.Lib.Run

namespace Mantids

/-- A byte string. -/
abbrev Bytes := List UInt8

namespace JWT

/-! ## Algorithms -/

inductive Hash where
  | sha256
  | sha384
  | sha512
deriving DecidableEq

inductive Algorithm where
  | HS256
  | HS384
  | HS512
  | RS256
  | RS384
  | RS512
deriving DecidableEq

/-- `AlgorithmDetails::nid`, which is also `getHashTypeNumber`. -/
def Algorithm.hash : Algorithm → Hash
  | .HS256 | .RS256 => .sha256
  | .HS384 | .RS384 => .sha384
  | .HS512 | .RS512 => .sha512

/-- `AlgorithmDetails::isUsingHMAC`; the others use RSA. -/
def Algorithm.isUsingHMAC : Algorithm → Bool
  | .HS256 | .HS384 | .HS512 => true
  | .RS256 | .RS384 | .RS512 => false

def isHMACAlgorithm (algorithm : String) : Bool := algorithm ∈ ["HS256", "HS384", "HS512"]

def isRSAAlgorithm (algorithm : String) : Bool := algorithm ∈ ["RS256", "RS384", "RS512"]

def isAlgorithmSupported (algorithm : String) : Bool :=
  algorithm ∈ ["HS256", "RS256", "HS384", "RS384", "HS512", "RS512"]

/-! ## What is outside the library -/

/-- What the calls into OpenSSL and the JSON reader compute when they succeed. -/
structure Libraries where
  /-- Reading a memory buffer through a base64 filter; `none` is a negative size. -/
  base64 : Bytes → Option Bytes
  hmac : Hash → (key data : Bytes) → Bytes
  /-- A text is the PEM encoding of a public key. -/
  publicKeyLoads : Bytes → Bool
  /-- A text is the PEM encoding of a private key. -/
  privateKeyLoads : Bytes → Bool
  digestSign : Hash → (privateKey data : Bytes) → Bytes
  digestVerify : Hash → (publicKey data signature : Bytes) → Bool
  /-- A signature has the size of the key; none is empty. -/
  digestVerify_nil : ∀ h k d, digestVerify h k d [] = false
  /-- The JSON value of a text. -/
  json : Bytes → Option Json
  /-- The members of the claims after `decodePayload`; `none` if the text is a value that
  is no object, which has no members to ask for. -/
  claims : Bytes → Option Json.Members

/-- Which calls of one verification succeeded.  A failed computation of a digest leaves
the bytes that were in its buffer. -/
structure Outcomes where
  headerDecoded : Bool := true
  payloadDecoded : Bool := true
  signatureDecoded : Bool := true
  hmac : Option Bytes := none
  signBio : Bool := true
  signKey : Bool := true
  signContext : Bool := true
  signInit : Bool := true
  signLength : Bool := true
  signFinal : Option Bytes := none
  verifyBio : Bool := true
  verifyKey : Bool := true
  verifyContext : Bool := true
  verifyFinal : Bool := true
deriving DecidableEq

/-! ## The text of a token -/

/-- Header, payload and signature of a token: the text before its first dot, the text
behind its last dot, and what stands between them. -/
def segments (fullSignedToken : Bytes) : Option (Bytes × Bytes × Bytes) :=
  match fullSignedToken.findIdx? (· == 46), fullSignedToken.reverse.findIdx? (· == 46) with
  | some pos_header, some fromEnd =>
    let pos_payload := fullSignedToken.length - 1 - fromEnd
    if pos_payload ≤ pos_header then none
    else some (fullSignedToken.take pos_header,
      (fullSignedToken.drop (pos_header + 1)).take (pos_payload - pos_header - 1),
      fullSignedToken.drop (pos_payload + 1))
  | _, _ => none

/-- The padded standard form of a base64url text, unless its length excludes one. -/
def standardBase64 (input : Bytes) : Option Bytes :=
  let translate := List.map (fun c : UInt8 => if c = 95 then 47 else if c = 45 then 43 else c)
  match input.length % 4 with
  | 0 => some (translate input)
  | 2 => some (translate (input ++ [61, 61]))
  | 3 => some (translate (input ++ [61]))
  | _ => none

/-- `Encoders::decodeFromBase64` of a base64url text; `ok` says whether the filter could
be allocated. -/
def decodeFromBase64 (K : Libraries) (ok : Bool) (input : Bytes) : Bytes :=
  match standardBase64 input with
  | none => []
  | some text => if ok then (K.base64 text).getD [] else []

/-! ## Cache and revocation list -/

/-- `JWT::Cache`. -/
structure Cache where
  /-- `m_cacheMaxByteCount`. -/
  cacheMaxByteCount : ℕ := 1024 * 1024
  /-- `m_cacheCurrentByteCount`. -/
  cacheCurrentByteCount : ℕ := 0
  /-- `m_enabled`. -/
  enabled : Bool
  /-- The keys of `m_tokenCache`. -/
  tokenCache : Finset Bytes := ∅
  /-- `m_cacheQueue`, its front first. -/
  cacheQueue : List Bytes := []

namespace Cache

def checkToken (c : Cache) (payload : Bytes) : Bool := c.enabled && payload ∈ c.tokenCache

/-- The loop of `evictCache`.  It takes from the queue until the count is low enough; a
queue that is used up before has no front, and nothing is known from there on. -/
def evictLoop (max : ℕ) : List Bytes → ℕ → Finset Bytes → Option (ℕ × Finset Bytes × List Bytes)
  | [], count, tokens => if count ≤ max then some (count, tokens, []) else none
  | p :: queue, count, tokens =>
    if count ≤ max then some (count, tokens, p :: queue)
    else evictLoop max queue (count - p.length) (tokens.erase p)

def evictCache (c : Cache) : Option Cache :=
  (evictLoop c.cacheMaxByteCount c.cacheQueue c.cacheCurrentByteCount c.tokenCache).map
    (fun r => { c with cacheCurrentByteCount := r.1, tokenCache := r.2.1, cacheQueue := r.2.2 })

def add (c : Cache) (payload : Bytes) : Option Cache :=
  if c.enabled then
    { c with
      cacheQueue := c.cacheQueue ++ [payload]
      tokenCache := insert payload c.tokenCache
      cacheCurrentByteCount := c.cacheCurrentByteCount + payload.length }.evictCache
  else some c

/-- `clear` leaves the byte count as it is. -/
def clear (c : Cache) : Cache := { c with tokenCache := ∅, cacheQueue := [] }

def setEnabled (c : Cache) (newEnabled : Bool) : Cache :=
  { (if newEnabled then c else c.clear) with enabled := newEnabled }

def setCacheMaxByteCount (c : Cache) (maxByteCount : ℕ) : Option Cache :=
  { c with cacheMaxByteCount := maxByteCount }.evictCache

end Cache

/-- `JWT::Revocation`. -/
structure Revocation where
  /-- `m_expirationSignatures`, in no particular order. -/
  expirationSignatures : List (ℤ × Bytes) := []
  /-- `m_revokedTokens`. -/
  revokedTokens : Finset Bytes := ∅

namespace Revocation

def addToRevocationList (r : Revocation) (signature : Bytes) (expirationTime : ℤ) : Revocation where
  expirationSignatures := (expirationTime, signature) :: r.expirationSignatures
  revokedTokens := insert signature r.revokedTokens

def isSignatureRevoked (r : Revocation) (signature : Bytes) : Bool :=
  signature ∈ r.revokedTokens

/-- `removeExpiredTokensFromRevocationList` at the given time. -/
def removeExpired (r : Revocation) (now : ℤ) : Revocation where
  expirationSignatures := r.expirationSignatures.filter (fun x => now < x.1)
  revokedTokens := r.revokedTokens.filter
    (fun s => ¬ ∃ x ∈ r.expirationSignatures, x.1 ≤ now ∧ x.2 = s)

end Revocation

end JWT

/-! ## The validator -/

/-- `JWT`, without a verification callback. -/
structure JWT where
  /-- `m_algorithm`. -/
  algorithm : JWT.Algorithm := .HS256
  /-- `m_sharedSecret`. -/
  sharedSecret : Bytes := []
  /-- `m_publicSecret`. -/
  publicSecret : Bytes := []
  /-- `m_privateSecret`. -/
  privateSecret : Bytes := []
  /-- `m_cache`. -/
  cache : JWT.Cache
  /-- `m_revocation`. -/
  revocation : JWT.Revocation := {}

namespace JWT

variable (K : Libraries) (o : Outcomes)

/-- `RAWSignature`: the digest, or `none` if the result is not `SIG_OK`. -/
abbrev RAWSignature := Option Bytes

/-- `createHMACSignature`; the result of `HMAC` itself is not looked at. -/
def createHMACSignature (j : JWT) (data : Bytes) : RAWSignature :=
  if j.sharedSecret = [] then none
  else some (o.hmac.getD (K.hmac j.algorithm.hash j.sharedSecret data))

/-- `createRSASignature`.  Without a buffer object the result stays `SIG_OK`, with an
empty digest. -/
def createRSASignature (j : JWT) (data : Bytes) : RAWSignature :=
  if !o.signBio then some []
  else if !(o.signKey && K.privateKeyLoads j.privateSecret) then none
  else if !(o.signContext && o.signInit && o.signLength) then none
  else some (o.signFinal.getD (K.digestSign j.algorithm.hash j.privateSecret data))

def createSignature (j : JWT) (data : Bytes) : RAWSignature :=
  if j.algorithm.isUsingHMAC then j.createHMACSignature K o data
  else j.createRSASignature K o data

/-- `validateRSASignature`; `true` is its result 0, which is also what it starts with. -/
def validateRSASignature (j : JWT) (data signature : Bytes) : Bool :=
  if !o.verifyBio then true
  else if !(o.verifyKey && K.publicKeyLoads j.publicSecret) then false
  else if !o.verifyContext then true
  else o.verifyFinal && K.digestVerify j.algorithm.hash j.publicSecret data signature

/-- The algorithm named by a header, if the header is JSON. -/
def headerAlgorithm (header_str : Bytes) : Option String :=
  (K.json header_str).map (fun header_json =>
    match header_json with
    | .object members => (Json.Members.get members "alg").asStringD ""
    | _ => "")

/-- The signature check of `verify`: `none` if it returns early, else
`isSignatureVerified`. -/
def checkSignature (j : JWT) (header_b64 payload_b64 signature_b64 : Bytes) : Option Bool :=
  match headerAlgorithm K (decodeFromBase64 K o.headerDecoded header_b64) with
  | none => none
  | some incomingAlgorithm =>
    if !isAlgorithmSupported incomingAlgorithm then none
    else
      let data := header_b64 ++ 46 :: payload_b64
      let signature_str := decodeFromBase64 K o.signatureDecoded signature_b64
      if isHMACAlgorithm incomingAlgorithm then
        (j.createSignature K o data).map
          (fun digest => 0 < digest.length && digest == signature_str)
      else some (j.validateRSASignature K o data signature_str)

/-- The answer of `verify`: `true`, `false`, or an exception of the JSON library. -/
inductive Verdict where
  | accepted
  | rejected
  | threw
deriving DecidableEq

/-- `isValid` of the token that a payload was decoded into. -/
def judge (claims : Option Json.Members) (signatureVerified revoked : Bool) (now : ℤ) : Verdict :=
  match claims with
  | none => .threw
  | some members =>
    if Token.isValid ⟨members, signatureVerified, revoked⟩ now then .accepted else .rejected

/-- `verify` at the given time.  The token that is written to is a new one.  The result is
`none` if the cache is left without a front to evict. -/
def verify (j : JWT) (fullSignedToken : Bytes) (now : ℤ) : Option (JWT × Verdict) :=
  match segments fullSignedToken with
  | none => some (j, .rejected)
  | some (header_b64, payload_b64, signature_b64) =>
    let payload_str := decodeFromBase64 K o.payloadDecoded payload_b64
    let signature_str := decodeFromBase64 K o.signatureDecoded signature_b64
    if j.cache.checkToken payload_str then
      some (j, judge (K.claims payload_str) true false now)
    else
      match j.checkSignature K o header_b64 payload_b64 signature_b64 with
      | none => some (j, .rejected)
      | some false => some (j, .rejected)
      | some true =>
        (j.cache.add payload_str).map (fun cache =>
          ({ j with cache := cache },
            judge (K.claims payload_str) true (j.revocation.isSignatureRevoked signature_str) now))

def setSharedSecret (j : JWT) (newSharedSecret : Bytes) : JWT :=
  { j with sharedSecret := newSharedSecret, cache := j.cache.clear }

def setPublicSecret (j : JWT) (newPublicSecret : Bytes) : JWT :=
  { j with publicSecret := newPublicSecret, cache := j.cache.clear }

/-- `setPrivateSecret` keeps the cache. -/
def setPrivateSecret (j : JWT) (newPrivateSecret : Bytes) : JWT :=
  { j with privateSecret := newPrivateSecret }

/-! ## Runs -/

/-- What is done to a validator.  A verification comes with the outcomes of its library
calls, and verification and garbage collection with the time they happen at. -/
inductive Op where
  | verify (fullSignedToken : Bytes) (now : ℤ) (outcomes : Outcomes)
  | setSharedSecret (newSharedSecret : Bytes)
  | setPublicSecret (newPublicSecret : Bytes)
  | setPrivateSecret (newPrivateSecret : Bytes)
  | cacheSetEnabled (newEnabled : Bool)
  | cacheSetMaxByteCount (maxByteCount : ℕ)
  | cacheClear
  | addToRevocationList (signature : Bytes) (expirationTime : ℤ)
  | removeExpired (now : ℤ)
deriving DecidableEq

/-- A validator in use.  The last three fields are no part of the object, they record
what happened to it. -/
structure Validator where
  jwt : JWT
  /-- The tokens whose own signature was checked since the last change of a key that
  verification uses. -/
  verified : List Bytes := []
  /-- The signatures that were revoked, with the time until which. -/
  revoked : List (Bytes × ℤ) := []
  /-- The latest time of a step. -/
  clock : Option ℤ := none

/-- A token is accepted by its own signature. -/
def BySignature (j : JWT) (fullSignedToken : Bytes) : Prop :=
  ∃ h p s, segments fullSignedToken = some (h, p, s) ∧
    j.cache.checkToken (decodeFromBase64 K o.payloadDecoded p) = false ∧
    j.checkSignature K o h p s = some true

instance (j : JWT) (t : Bytes) : Decidable (BySignature K o j t) :=
  match hs : segments t with
  | none => isFalse (fun ⟨_, _, _, h, _⟩ => by rw [hs] at h; cases h)
  | some (h, p, s) =>
    decidable_of_iff
      (j.cache.checkToken (decodeFromBase64 K o.payloadDecoded p) = false ∧
        j.checkSignature K o h p s = some true)
      ⟨fun hc => ⟨h, p, s, hs, hc.1, hc.2⟩,
        fun ⟨h', p', s', hs', hc⟩ => by rw [hs] at hs'; cases hs'; exact hc⟩

/-- One step of a validator in use, with the verdict of a verification. -/
def step (v : Validator) : Op → Option (Validator × Option Verdict)
  | .verify t now o =>
    (v.jwt.verify K o t now).map (fun r =>
      ({ v with
         jwt := r.1
         verified := if BySignature K o v.jwt t then t :: v.verified else v.verified
         clock := some now }, some r.2))
  | .setSharedSecret k => some ({ v with jwt := v.jwt.setSharedSecret k, verified := [] }, none)
  | .setPublicSecret k => some ({ v with jwt := v.jwt.setPublicSecret k, verified := [] }, none)
  | .setPrivateSecret k => some ({ v with jwt := v.jwt.setPrivateSecret k }, none)
  | .cacheSetEnabled b =>
    some ({ v with jwt := { v.jwt with cache := v.jwt.cache.setEnabled b } }, none)
  | .cacheSetMaxByteCount n =>
    (v.jwt.cache.setCacheMaxByteCount n).map (fun cache =>
      ({ v with jwt := { v.jwt with cache := cache } }, none))
  | .cacheClear => some ({ v with jwt := { v.jwt with cache := v.jwt.cache.clear } }, none)
  | .addToRevocationList s e =>
    some ({ v with
            jwt := { v.jwt with revocation := v.jwt.revocation.addToRevocationList s e }
            revoked := (s, e) :: v.revoked }, none)
  | .removeExpired now =>
    some ({ v with
            jwt := { v.jwt with revocation := v.jwt.revocation.removeExpired now }
            clock := some now }, none)

/-- A validator as it is constructed; whether its cache is enabled is not said. -/
def fresh (algorithm : Algorithm) (enabled : Bool) : Validator where
  jwt := { algorithm := algorithm, cache := { enabled := enabled } }

/-! ## What a verification can do -/

/-- A token that is accepted was found in the cache, or its signature was checked and is
not revoked. -/
theorem verify_cases {j j' : JWT} {t : Bytes} {now : ℤ}
    (h : j.verify K o t now = some (j', .accepted)) :
    ∃ hd pl sg, segments t = some (hd, pl, sg) ∧
      ((j.cache.checkToken (decodeFromBase64 K o.payloadDecoded pl) = true) ∨
        (j.cache.checkToken (decodeFromBase64 K o.payloadDecoded pl) = false ∧
          j.checkSignature K o hd pl sg = some true ∧
          j.revocation.isSignatureRevoked (decodeFromBase64 K o.signatureDecoded sg) = false)) := by
  unfold verify at h
  cases hseg : segments t with
  | none => simp [hseg] at h
  | some x =>
      obtain ⟨hd, pl, sg⟩ := x
      refine ⟨hd, pl, sg, rfl, ?_⟩
      simp only [hseg] at h
      split at h
      · rename_i hhit
        exact Or.inl hhit
      · rename_i hmiss
        refine Or.inr ⟨by simpa using hmiss, ?_⟩
        split at h
        · simp at h
        · simp at h
        · rename_i hcheck
          refine ⟨hcheck, ?_⟩
          simp only [Option.map_eq_some_iff, Prod.mk.injEq] at h
          obtain ⟨c, -, -, hj⟩ := h
          unfold judge at hj
          split at hj
          · cases hj
          · split at hj
            · rename_i hvalid
              exact (Token.verified_of_isValid hvalid).2
            · cases hj

/-- A verification changes nothing but the cache. -/
theorem verify_frame {j j' : JWT} {t : Bytes} {now : ℤ} {v : Verdict}
    (h : j.verify K o t now = some (j', v)) : ∃ c, j' = { j with cache := c } := by
  unfold verify at h
  split at h
  · cases h
    exact ⟨j.cache, rfl⟩
  · simp only [] at h
    split at h
    · cases h
      exact ⟨j.cache, rfl⟩
    · split at h
      · cases h
        exact ⟨j.cache, rfl⟩
      · cases h
        exact ⟨j.cache, rfl⟩
      · simp only [Option.map_eq_some_iff, Prod.mk.injEq] at h
        obtain ⟨c, -, rfl, -⟩ := h
        exact ⟨c, rfl⟩

/-! ## A library for examples -/

/-- The bytes of an ASCII text. -/
def ascii (s : String) : Bytes := s.toList.map (fun c => UInt8.ofNat c.toNat)

theorem ascii_ofList (cs : List Char) :
    ascii (String.ofList cs) = cs.map (fun c => UInt8.ofNat c.toNat) := by
  rw [ascii, String.toList_ofList]

/-- The value of a base64 character. -/
def sextet (c : UInt8) : ℕ :=
  if 65 ≤ c ∧ c ≤ 90 then c.toNat - 65
  else if 97 ≤ c ∧ c ≤ 122 then c.toNat - 71
  else if 48 ≤ c ∧ c ≤ 57 then c.toNat + 4
  else if c = 43 then 62
  else 63

/-- Decoding of well-formed base64. -/
def base64Decode : Bytes → Bytes
  | a :: b :: c :: d :: rest =>
    let n := sextet a * 2 ^ 18 + sextet b * 2 ^ 12 + sextet c * 2 ^ 6 + sextet d
    let group := [UInt8.ofNat (n / 2 ^ 16), UInt8.ofNat (n / 2 ^ 8), UInt8.ofNat n]
    group.take (if c = 61 then 1 else if d = 61 then 2 else 3) ++ base64Decode rest
  | _ => []

/-- What the libraries compute for the token `sampleToken` of an empty payload, signed with
HMAC and SHA-256 under the key `secret`.  No text is taken for an RSA key. -/
def sample : Libraries where
  base64 b := some (base64Decode b)
  hmac h k d :=
    if h = .sha256 ∧ k = ascii "secret" ∧ d = ascii "eyJhbGciOiJIUzI1NiJ9.e30" then
      [94, 99, 74, 220, 106, 71, 221, 139, 63, 239, 11, 24, 5, 250, 184, 11, 115, 58, 130, 140, 251,
        212, 142, 221, 78, 5, 36, 184, 134, 185, 151, 36]
    else []
  publicKeyLoads _ := false
  privateKeyLoads _ := false
  digestSign _ _ _ := []
  digestVerify _ _ _ _ := false
  digestVerify_nil _ _ _ := rfl
  json b :=
    if b = ascii "\x7b\"alg\":\"HS256\"\x7d" then some (.object [("alg", .string "HS256")])
    else none
  claims _ := some []

def sampleToken : Bytes :=
  ascii "eyJhbGciOiJIUzI1NiJ9.e30.XmNK3GpH3Ys_7wsYBfq4C3M6goz71I7dTgUkuIa5lyQ"

/-- The same header and payload under a signature of one zero byte. -/
def forgedToken : Bytes := ascii "eyJhbGciOiJIUzI1NiJ9.e30.AA"

end JWT

end Mantids
