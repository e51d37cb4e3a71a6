/-
# Encrypted texts

`Crypto::AES256EncryptB64` (`Helpers/crypto.cpp`) derives a key from a password and a random salt,
encrypts with AES-256-GCM, and gives salt, tag and cipher text in base64.
`Crypto::AES256DecryptB64` takes such a text apart again.

* `OpenSSL` — the primitives, and `Ideal`, what they are trusted with;
* `BinaryDataContainer` — a buffer with its length and its position;
* `AES256EncryptB64`, `AES256DecryptB64` — translated function by function;
* `decrypt_iff` — when a text is refused, and that nothing is ever decrypted.

A function that throws gives an error.  A local variable without an initial value is a parameter.
-/
import Mathlib
import Mantids.Lib.Base64

namespace Mantids

namespace Crypto

/-! ## The primitives -/

abbrev Salt := Vector UInt8 16

abbrev DerivedKey := Vector UInt8 32

abbrev GcmTag := Vector UInt8 16

/-- What the functions use of OpenSSL; `none` where a call reports an error. -/
structure OpenSSL where
  /-- `PKCS5_PBKDF2_HMAC`, with SHA-256 and 100000 rounds. -/
  pbkdf2 : List UInt8 → Salt → Option DerivedKey
  /-- AES-256-GCM: a cipher text of the length of the text, and the tag. -/
  encryptGcm : DerivedKey → Salt → (input : List UInt8) →
    Option ({cipher : List UInt8 // cipher.length = input.length} × GcmTag)
  /-- `EVP_DecryptUpdate`: what it writes. -/
  decryptUpdate : DerivedKey → Salt → List UInt8 → Option (List UInt8)
  /-- `EVP_DecryptFinal_ex`. -/
  decryptFinal : DerivedKey → Salt → List UInt8 → GcmTag → Bool
  /-- A base64 `BIO_read` of a whole text. -/
  readBase64 : List UInt8 → Option (List UInt8)

/-- `Encoders::encodeToBase64`. -/
def encodeToBase64 (buf : List UInt8) : List UInt8 := Base64.encode buf

/-- What the primitives are trusted with: they work, a tag is right exactly for what was encrypted
under its key, and base64 comes back. -/
structure Ideal (ssl : OpenSSL) : Prop where
  derives : ∀ key salt, (ssl.pbkdf2 key salt).isSome = true
  encrypts : ∀ derivedKey salt input, (ssl.encryptGcm derivedKey salt input).isSome = true
  decrypts : ∀ derivedKey salt input cipher tag,
    ssl.encryptGcm derivedKey salt input = some (cipher, tag) →
      ssl.decryptUpdate derivedKey salt cipher = some input ∧
        ssl.decryptFinal derivedKey salt cipher tag = true
  authenticates : ∀ derivedKey salt cipher tag, ssl.decryptFinal derivedKey salt cipher tag = true →
    ∃ input cipher', ssl.encryptGcm derivedKey salt input = some (cipher', tag) ∧ cipher'.1 = cipher
  reads : ∀ data, ssl.readBase64 (encodeToBase64 data) = some data
  readsOnly : ∀ text data, ssl.readBase64 text = some data → encodeToBase64 data = text

/-! ## Buffers -/

/-- `Mem::BinaryDataContainer`; `data` is `none` for a null pointer. -/
structure BinaryDataContainer where
  data : Option (List UInt8)
  length : ℕ
  cur : ℕ := 0
deriving DecidableEq

namespace BinaryDataContainer

/-- `BinaryDataContainer(len)`, with enough memory. -/
def ofLength (len : ℕ) : BinaryDataContainer :=
  if len ≠ 0 then { data := some (List.replicate len 0), length := len }
  else { data := none, length := 0 }

def toString (r : BinaryDataContainer) : List UInt8 := (r.data.getD []).take r.length

/-- `bytes` written at a position of the buffer. -/
def write (r : BinaryDataContainer) (position : ℕ) (bytes : List UInt8) : BinaryDataContainer :=
  { r with data := r.data.map fun data =>
      data.take position ++ bytes ++ data.drop (position + bytes.length) }

end BinaryDataContainer

variable (ssl : OpenSSL)

/-- `Encoders::decodeFromBase64ToBin`: the length is that of the decoded bytes. -/
def decodeFromBase64ToBin (input : List UInt8) : BinaryDataContainer :=
  let r := BinaryDataContainer.ofLength (input.length + 2)
  match ssl.readBase64 input with
  | none => r
  | some bytes => { r.write 0 bytes with length := bytes.length }

/-! ## The functions -/

/-- `AES256EncryptB64`: the text, or nothing if a step fails. -/
def AES256EncryptB64 (salt : Salt) (input key : List UInt8) : Except Unit (Option (List UInt8)) :=
  if 2 ^ 32 ≤ key.length then .error ()
  else
    match ssl.pbkdf2 key salt with
    | none => .ok none
    | some derivedKey =>
      match ssl.encryptGcm derivedKey salt input with
      | none => .ok none
      | some (cipher, gcmTag) =>
        .ok (some (encodeToBase64 (salt.toList ++ gcmTag.toList ++ cipher.1)))

/-- Bytes of a buffer, as `memcpy` takes them into an array of 16. -/
def bytesAt (data : List UInt8) (position : ℕ) : Vector UInt8 16 :=
  Vector.ofFn fun i => data.getD (position + i) 0

/-- The last steps of `AES256DecryptB64ToBin`, with the flag and the buffer at the end. -/
def decryptInto (ok : Bool) (r : BinaryDataContainer) (derivedKey : DerivedKey) (salt : Salt)
    (cipher : List UInt8) (gcmTag : GcmTag) : Bool × BinaryDataContainer :=
  match ssl.decryptUpdate derivedKey salt cipher with
  | none => (ok, r)
  | some bytes =>
    let r := { r.write 0 bytes with cur := r.cur + bytes.length }
    -- A success sets the flag to false.
    if ssl.decryptFinal derivedKey salt cipher gcmTag then (false, r) else (ok, r)

/-- `AES256DecryptB64ToBin`; `ok` is what its uninitialized flag happens to hold. -/
def AES256DecryptB64ToBin (ok : Bool) (input key : List UInt8) :
    Except Unit (Option BinaryDataContainer) :=
  let r := BinaryDataContainer.ofLength input.length
  if r.data = none then .ok (some r)
  else
    let dec := decodeFromBase64ToBin ssl input
    if dec.data ≠ none ∧ 32 ≤ dec.cur then
      let data := dec.data.getD []
      if 2 ^ 32 ≤ key.length then .error ()
      else
        match ssl.pbkdf2 key (bytesAt data 0) with
        | none => .ok (if ok then some r else none)
        | some derivedKey =>
          let (ok, r) := decryptInto ssl ok r derivedKey (bytesAt data 0)
            ((data.drop 32).take (dec.cur - 32)) (bytesAt data 16)
          .ok (if ok then some r else none)
    else .ok (if ok then some r else none)

/-- `AES256DecryptB64`. -/
def AES256DecryptB64 (ok : Bool) (input key : List UInt8) : Except Unit (Option (List UInt8)) :=
  (AES256DecryptB64ToBin ssl ok input key).map (Option.map BinaryDataContainer.toString)

/-! ## What becomes of a text -/

/-- The position of a buffer that base64 was decoded into stays 0. -/
theorem cur_decodeFromBase64ToBin (input : List UInt8) :
    (decodeFromBase64ToBin ssl input).cur = 0 := by
  have hfresh : ∀ len, (BinaryDataContainer.ofLength len).cur = 0 := by
    intro len
    unfold BinaryDataContainer.ofLength
    split_ifs
    · rfl
    · rfl
  unfold decodeFromBase64ToBin
  dsimp only
  split
  · exact hfresh _
  · exact hfresh _

/-- A text is never decrypted: what comes back depends on its length and on the flag only. -/
theorem AES256DecryptB64_eq (ok : Bool) (input key : List UInt8) :
    AES256DecryptB64 ssl ok input key = .ok (
      if input = [] then some []
      else if ok then some (List.replicate input.length 0) else none) := by
  unfold AES256DecryptB64 AES256DecryptB64ToBin BinaryDataContainer.ofLength
  dsimp only
  rw [cur_decodeFromBase64ToBin]
  by_cases hnil : input = []
  · subst hnil
    rfl
  · have hlen : input.length ≠ 0 := fun h => hnil (List.length_eq_zero_iff.mp h)
    rw [if_pos hlen, if_neg hnil]
    cases ok with
    | false => simp [Except.map]
    | true => simp [Except.map, BinaryDataContainer.toString]

/-- An encrypted text is longer than the text. -/
theorem length_of_encrypt {salt : Salt} {input key text : List UInt8}
    (h : AES256EncryptB64 ssl salt input key = .ok (some text)) : input.length < text.length := by
  unfold AES256EncryptB64 at h
  split_ifs at h
  · split at h
    · cases h
    · split at h
      · cases h
      · rename_i cipher gcmTag hcipher
        cases h
        have hlong := Base64.length_le_length_encode (salt.toList ++ gcmTag.toList ++ cipher.1)
        show input.length < (Base64.encode (salt.toList ++ gcmTag.toList ++ cipher.1)).length
        rw [List.length_append, List.length_append, Vector.length_toList, Vector.length_toList,
          cipher.2] at hlong
        omega

/-- The text was made by an encryption under the key. -/
def Produced (key text : List UInt8) : Prop :=
  ∃ salt input, AES256EncryptB64 ssl salt input key = .ok (some text)

/-- **Encrypted texts.**  No encrypted text comes back as it was, whatever the flag holds; and a
text that was not produced under the key is refused exactly if it is not empty and the flag happens
to be false. -/
theorem decrypt_iff (ssl : OpenSSL) (ok : Bool) (key : List UInt8) :
    (∀ salt input text, AES256EncryptB64 ssl salt input key = .ok (some text) →
      AES256DecryptB64 ssl ok text key ≠ .ok (some input)) ∧
    (∀ text, ¬ Produced ssl key text →
      (AES256DecryptB64 ssl ok text key = .ok none ↔ text ≠ [] ∧ ok = false)) := by
  constructor
  · intro salt input text henc hdec
    have hlong := length_of_encrypt ssl henc
    rw [AES256DecryptB64_eq] at hdec
    have hne : text ≠ [] := by
      rintro rfl
      exact absurd hlong (Nat.not_lt_zero _)
    rw [if_neg hne] at hdec
    split_ifs at hdec
    · injection hdec with hdec
      injection hdec with hdec
      rw [← hdec, List.length_replicate] at hlong
      exact lt_irrefl _ hlong
    · injection hdec with hdec
      cases hdec
  · intro text _
    rw [AES256DecryptB64_eq]
    by_cases hnil : text = []
    · simp [hnil]
    · cases ok with
      | false => simp [hnil]
      | true => simp [hnil]

/-! ## The empty text -/

/-- A salt of zeros. -/
def sampleSalt : Salt := Vector.replicate 16 0

/-- The key of the password `k` and that salt. -/
def sampleDerivedKey : DerivedKey :=
  #v[216, 159, 56, 162, 202, 196, 31, 252, 110, 51, 240, 144, 76, 251, 76, 87,
    130, 208, 10, 30, 236, 240, 252, 131, 113, 169, 98, 153, 171, 247, 183, 191]

/-- The tag of the empty text under that key. -/
def sampleTag : GcmTag :=
  #v[221, 192, 90, 172, 40, 183, 128, 62, 67, 126, 61, 28, 66, 67, 170, 128]

/-- Primitives that are right for the empty text, the password `k` and the salt of zeros.  Other
texts are left as they are. -/
def sampleSSL : OpenSSL where
  pbkdf2 _ _ := some sampleDerivedKey
  encryptGcm _ _ input := some (⟨input, rfl⟩, sampleTag)
  decryptUpdate _ _ cipher := some cipher
  decryptFinal _ _ _ tag := decide (tag = sampleTag)
  readBase64 text := (Base64.decode text).filter (fun data => Base64.encode data = text)

theorem ideal_sampleSSL : Ideal sampleSSL where
  derives _ _ := rfl
  encrypts _ _ _ := rfl
  decrypts derivedKey salt input cipher tag h := by
    cases h
    exact ⟨rfl, decide_eq_true (p := sampleTag = sampleTag) rfl⟩
  authenticates derivedKey salt cipher tag h := by
    obtain rfl : tag = sampleTag := of_decide_eq_true h
    exact ⟨cipher, ⟨cipher, rfl⟩, rfl, rfl⟩
  reads data := by
    show (Base64.decode (Base64.encode data)).filter _ = some data
    rw [Base64.decode_encode, Option.filter_some]
    exact if_pos (decide_eq_true rfl)
  readsOnly text data h := by
    exact of_decide_eq_true (Option.filter_eq_some_iff.mp h).2

/-- With ideal primitives, the encrypted empty text does not come back, and the empty text, which
nothing encrypts to, is not refused. -/
theorem empty_text_not_decrypted :
    Ideal sampleSSL ∧
    (∃ text, AES256EncryptB64 sampleSSL sampleSalt [] [107] = .ok (some text) ∧
      ∀ ok, AES256DecryptB64 sampleSSL ok text [107] ≠ .ok (some [])) ∧
    ¬ Produced sampleSSL [107] [] ∧
    ∀ ok, AES256DecryptB64 sampleSSL ok [] [107] = .ok (some []) := by
  refine ⟨ideal_sampleSSL, ⟨_, rfl, ?_⟩, ?_, ?_⟩
  · intro ok hdec
    rw [AES256DecryptB64_eq] at hdec
    cases ok with
    | false => cases hdec
    | true => cases hdec
  · rintro ⟨salt, input, henc⟩
    exact absurd (length_of_encrypt sampleSSL henc) (Nat.not_lt_zero _)
  · intro ok
    rw [AES256DecryptB64_eq, if_pos rfl]

end Crypto

end Mantids
