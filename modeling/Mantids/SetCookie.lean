/-
# The cookie of a server

`Headers::Cookie` (`Protocol_HTTP/hdr_cookie.cpp`) writes a `Set-Cookie` header and reads it.

* `Cookie` — a cookie with its attributes, and what they are by default;
* `toSetCookieText`, `fromSetCookieText` — the header that is written, and how it is read;
* `fromSetCookieText_toSetCookieText` — what is read of a header that was written;
* `setCookie_roundTrip_iff` — the cookie comes back if it is secure, closed to scripts, and its name
  is not taken apart.

An attribute is written if it is set; what is read starts from a new cookie, which is secure and
closed to scripts.  How a date is written and read is up to the C library: parameters.
-/
import Mantids.Lib.Cut
import Mantids.Texts

namespace Mantids

/-! ## The cookie -/

/-- `eSameSitePolicy`. -/
inductive SameSitePolicy where
  | none
  | lax
  | strict
deriving DecidableEq

/-- `Headers::Cookie`, as the constructor sets it. -/
structure Cookie where
  value : List UInt8 := []
  /-- `expires`, in seconds; 0 stands for no date. -/
  expires : ℤ := 0
  /-- `UINT32_MAX` stands for no age. -/
  maxAge : UInt32 := 0xFFFFFFFF
  domain : List UInt8 := []
  path : List UInt8 := []
  secure : Bool := true
  httpOnly : Bool := true
  sameSitePolicy : SameSitePolicy := .strict
deriving DecidableEq

namespace Cookie

variable (dateText : ℤ → List UInt8) (dateOfText : List UInt8 → ℤ)

/-- `toSetCookieString`. -/
def toSetCookieText (c : Cookie) (cookieName : List UInt8) : List UInt8 :=
  let opts := cookieName ++ bytesOf "=" ++ c.value ++ bytesOf "; "
  let opts :=
    if c.expires ≠ 0 then opts ++ bytesOf "Expires=" ++ dateText c.expires ++ bytesOf "; " else opts
  let opts :=
    if c.maxAge ≠ 0xFFFFFFFF then
      opts ++ bytesOf "Max-Age=" ++ decimal c.maxAge.toNat ++ bytesOf "; "
    else opts
  let opts := if c.secure then opts ++ bytesOf "Secure; " else opts
  let opts := if c.httpOnly then opts ++ bytesOf "HttpOnly; " else opts
  let opts :=
    if c.domain ≠ [] then opts ++ bytesOf "Domain=" ++ c.domain ++ bytesOf "; " else opts
  let opts := if c.path ≠ [] then opts ++ bytesOf "Path=" ++ c.path ++ bytesOf "; " else opts
  match c.sameSitePolicy with
  | .none => opts ++ bytesOf "SameSite=None; "
  | .strict => opts ++ bytesOf "SameSite=Strict; "
  | .lax => opts ++ bytesOf "SameSite=Lax; "

/-- `getVarNameAndValue`.  The value is read as a C string. -/
def getVarNameAndValue (var : List UInt8) : List UInt8 × List UInt8 :=
  if 61 ∈ var then
    (trimBytes (var.takeWhile (· ≠ 61)),
      trimBytes (((var.dropWhile (· ≠ 61)).drop 1).takeWhile (· ≠ 0)))
  else (trimBytes var, [])

/-- What a parameter behind the first one does, by its name and its value. -/
def readVar (c : Cookie) (var : List UInt8 × List UInt8) : Cookie :=
  let varNameUpper := toUpperBytes var.1
  if varNameUpper = bytesOf "EXPIRES" then { c with expires := dateOfText var.2 }
  else if varNameUpper = bytesOf "MAX-AGE" then
    { c with maxAge := UInt32.ofNat (strtoull var.2) }
  -- a flag is put up, and nothing puts it down
  else if varNameUpper = bytesOf "SECURE" then { c with secure := true }
  else if varNameUpper = bytesOf "HTTPONLY" then { c with httpOnly := true }
  else if varNameUpper = bytesOf "DOMAIN" then { c with domain := var.2 }
  else if varNameUpper = bytesOf "PATH" then { c with path := var.2 }
  else if varNameUpper = bytesOf "SAMESITE" then
    if toUpperBytes var.2 = bytesOf "LAX" then { c with sameSitePolicy := .lax }
    else if toUpperBytes var.2 = bytesOf "STRICT" then { c with sameSitePolicy := .strict }
    else { c with sameSitePolicy := .none }
  else c

/-- `fromSetCookieString`: the cookie and its name. -/
def fromSetCookieText (setCookieValue : List UInt8) : Cookie × List UInt8 :=
  match splitCompress (· = 59) setCookieValue with
  | [] => ({}, [])
  | param :: cookiesParams =>
    let var := getVarNameAndValue param
    -- whatever has no attribute stays as a new cookie has it
    (cookiesParams.foldl (fun c param => c.readVar dateOfText (getVarNameAndValue param))
      { value := var.2 }, var.1)

/-! ## The header as tokens -/

/-- The attributes of a cookie without a date, in the order of the header. -/
def attributes (c : Cookie) : List (List UInt8) :=
  writtenIf (c.maxAge ≠ 0xFFFFFFFF) (bytesOf "Max-Age=" ++ decimal c.maxAge.toNat) ++
    writtenIf (c.secure = true) (bytesOf "Secure") ++
    writtenIf (c.httpOnly = true) (bytesOf "HttpOnly") ++
    writtenIf (c.domain ≠ []) (bytesOf "Domain=" ++ c.domain) ++
    writtenIf (c.path ≠ []) (bytesOf "Path=" ++ c.path) ++
    [bytesOf "SameSite=" ++
      match c.sameSitePolicy with
      | .none => bytesOf "None"
      | .strict => bytesOf "Strict"
      | .lax => bytesOf "Lax"]

theorem append_writtenIf (isWritten : Prop) [Decidable isWritten] (opts text : List UInt8) :
    (if isWritten then opts ++ text ++ bytesOf "; " else opts) =
      opts ++ (writtenIf isWritten text).flatMap (· ++ bytesOf "; ") := by
  unfold writtenIf
  split
  · rw [List.flatMap_singleton, List.append_assoc]
  · rw [List.flatMap_nil, List.append_nil]

/-- Between the tokens of the header there are semicolons; the last token is a blank. -/
theorem toSetCookieText_eq {c : Cookie} (hdate : c.expires = 0) (cookieName : List UInt8) :
    c.toSetCookieText dateText cookieName =
      cookieName ++ 61 :: c.value ++
        joined ((c.attributes ++ [[]]).map fun a => ((59 : UInt8), 32 :: a)) := by
  have hshift : ∀ ts : List (List UInt8), bytesOf "; " ++ ts.flatMap (· ++ bytesOf "; ") =
      joined ((ts ++ [[]]).map fun a => ((59 : UInt8), 32 :: a)) := by
    intro ts
    induction ts with
    | nil => decide +kernel
    | cons t ts ih => simpa [joined, show bytesOf "; " = [59, 32] by decide +kernel] using ih
  have hpair : ∀ (isWritten : Prop) [Decidable isWritten] (opts key value : List UInt8),
      (if isWritten then opts ++ key ++ value ++ bytesOf "; " else opts) =
        opts ++ (writtenIf isWritten (key ++ value)).flatMap (· ++ bytesOf "; ") := by
    intro isWritten _ opts key value
    rw [← append_writtenIf, List.append_assoc opts]
  have hequals : bytesOf "=" = [61] := by decide +kernel
  have hsecure : bytesOf "Secure; " = bytesOf "Secure" ++ bytesOf "; " := by decide +kernel
  have hhttp : bytesOf "HttpOnly; " = bytesOf "HttpOnly" ++ bytesOf "; " := by decide +kernel
  have hnone : bytesOf "SameSite=None; " = bytesOf "SameSite=" ++
      (bytesOf "None" ++ bytesOf "; ") := by
    decide +kernel
  have hstrict : bytesOf "SameSite=Strict; " =
      bytesOf "SameSite=" ++ (bytesOf "Strict" ++ bytesOf "; ") := by
    decide +kernel
  have hlax : bytesOf "SameSite=Lax; " = bytesOf "SameSite=" ++
      (bytesOf "Lax" ++ bytesOf "; ") := by
    decide +kernel
  rw [← hshift, toSetCookieText, attributes]
  simp only [hdate, ne_eq, not_true_eq_false, if_false, hsecure, hhttp, ← List.append_assoc]
  simp only [hpair, append_writtenIf]
  rcases c.sameSitePolicy with _ | _ | _ <;>
    simp [hnone, hstrict, hlax, hequals, List.flatMap_append]

/-- No attribute is taken apart. -/
theorem not_mem_attributes {c : Cookie} (hdomain : 59 ∉ c.domain) (hpath : 59 ∉ c.path) :
    ∀ a ∈ c.attributes, (59 : UInt8) ∉ a := by
  have hdecimal : (59 : UInt8) ∉ decimal c.maxAge.toNat :=
    fun hmem => absurd (isdigit_of_mem_decimal _ _ hmem) (by decide)
  have hkey : ∀ {key value : List UInt8}, 59 ∉ key → 59 ∉ value → (59 : UInt8) ∉ key ++ value :=
    fun hk hv hmem => (List.mem_append.mp hmem).elim hk hv
  intro a ha
  simp only [attributes, List.mem_append, mem_writtenIf, List.mem_singleton] at ha
  rcases ha with ((((⟨-, rfl⟩ | ⟨-, rfl⟩) | ⟨-, rfl⟩) | ⟨-, rfl⟩) | ⟨-, rfl⟩) | rfl
  · exact hkey (by decide) hdecimal
  · decide
  · decide
  · exact hkey (by decide) hdomain
  · exact hkey (by decide) hpath
  · rcases c.sameSitePolicy with _ | _ | _ <;> decide

/-! ## What is read of a token -/

theorem getVarNameAndValue_pair {name : List UInt8} (hname : 61 ∉ name) (value : List UInt8) :
    getVarNameAndValue (name ++ 61 :: value) =
      (trimBytes name, trimBytes (value.takeWhile (· ≠ 0))) := by
  rw [getVarNameAndValue, if_pos (by simp), Cut.takeWhile_ne_append hname,
    Cut.drop_dropWhile_ne_append hname]

/-- A text that is read as it is: it has no zero byte and is trimmed. -/
def Readable (s : List UInt8) : Prop := 0 ∉ s ∧ Trimmed s

instance (s : List UInt8) : Decidable (Readable s) :=
  inferInstanceAs (Decidable (0 ∉ s ∧ Trimmed s))

theorem Readable.trimBytes_takeWhile {s : List UInt8} (h : Readable s) :
    trimBytes (s.takeWhile (· ≠ 0)) = s := by
  rw [Cut.takeWhile_ne_eq_self_iff.mpr h.1]
  exact h.2

/-- The text of an attribute behind its blank. -/
theorem getVarNameAndValue_attribute {key value : List UInt8} (hkey : 61 ∉ key ∧ Trimmed key)
    (hvalue : Readable value) :
    getVarNameAndValue (32 :: (key ++ 61 :: value)) = (key, value) := by
  have hmem : (61 : UInt8) ∉ 32 :: key := by
    rw [List.mem_cons]
    exact not_or.mpr ⟨by decide, hkey.1⟩
  have hpair := getVarNameAndValue_pair hmem value
  rw [List.cons_append] at hpair
  rw [hpair, trimBytes_cons (by decide), hkey.2, hvalue.trimBytes_takeWhile]

theorem readable_decimal (n : ℕ) : Readable (decimal n) :=
  ⟨fun hzero => absurd (isdigit_of_mem_decimal n 0 hzero) (by decide), trimmed_decimal n⟩

/-! ## What is read of the attributes -/

/-- What the text of an attribute does, behind its blank. -/
def readAttribute (c : Cookie) (text : List UInt8) : Cookie :=
  c.readVar dateOfText (getVarNameAndValue (32 :: text))

theorem readAttribute_maxAge (c : Cookie) (maxAge : UInt32) :
    c.readAttribute dateOfText (bytesOf "Max-Age=" ++ decimal maxAge.toNat) =
      { c with maxAge := maxAge } := by
  have hkey : bytesOf "Max-Age=" = bytesOf "Max-Age" ++ [61] := by decide
  have hnumber : UInt32.ofNat (strtoull (decimal maxAge.toNat)) = maxAge := by
    rw [strtoull_decimal (by have := maxAge.toNat_lt; omega), UInt32.ofNat_toNat]
  rw [readAttribute, hkey, List.append_assoc, List.singleton_append,
    getVarNameAndValue_attribute (by decide) (readable_decimal _)]
  show ({ c with maxAge := UInt32.ofNat (strtoull (decimal maxAge.toNat)) } : Cookie) = _
  rw [hnumber]

theorem readAttribute_secure (c : Cookie) :
    c.readAttribute dateOfText (bytesOf "Secure") = { c with secure := true } := by
  have hvar : getVarNameAndValue (32 :: bytesOf "Secure") = (bytesOf "Secure", []) := by decide
  rw [readAttribute, hvar]
  rfl

theorem readAttribute_httpOnly (c : Cookie) :
    c.readAttribute dateOfText (bytesOf "HttpOnly") = { c with httpOnly := true } := by
  have hvar : getVarNameAndValue (32 :: bytesOf "HttpOnly") = (bytesOf "HttpOnly", []) := by decide
  rw [readAttribute, hvar]
  rfl

theorem readAttribute_domain (c : Cookie) {domain : List UInt8} (h : Readable domain) :
    c.readAttribute dateOfText (bytesOf "Domain=" ++ domain) = { c with domain := domain } := by
  have hkey : bytesOf "Domain=" = bytesOf "Domain" ++ [61] := by decide
  rw [readAttribute, hkey, List.append_assoc, List.singleton_append,
    getVarNameAndValue_attribute (by decide) h]
  rfl

theorem readAttribute_path (c : Cookie) {path : List UInt8} (h : Readable path) :
    c.readAttribute dateOfText (bytesOf "Path=" ++ path) = { c with path := path } := by
  have hkey : bytesOf "Path=" = bytesOf "Path" ++ [61] := by decide
  rw [readAttribute, hkey, List.append_assoc, List.singleton_append,
    getVarNameAndValue_attribute (by decide) h]
  rfl

/-- What is read of the attributes, and of the blank behind them: nothing puts a flag down. -/
theorem foldl_readAttribute {c : Cookie} (hdomain : Readable c.domain) (hpath : Readable c.path)
    (value : List UInt8) :
    (c.attributes ++ [[]]).foldl (readAttribute dateOfText) { value := value } =
      { value := value, maxAge := c.maxAge, domain := c.domain, path := c.path,
        sameSitePolicy := c.sameSitePolicy } := by
  -- an attribute that is not written has its default, and that is what it has so far
  have hage : ∀ parts, (writtenIf (c.maxAge ≠ 0xFFFFFFFF) (bytesOf "Max-Age=" ++
      decimal c.maxAge.toNat) ++ parts).foldl (readAttribute dateOfText) { value := value } =
        parts.foldl (readAttribute dateOfText) { value := value, maxAge := c.maxAge } := by
    apply foldl_writtenIf
    · exact fun _ => readAttribute_maxAge dateOfText _ _
    · intro hunset
      rw [not_not.mp hunset]
  have hsecure : ∀ parts, (writtenIf (c.secure = true) (bytesOf "Secure") ++ parts).foldl
      (readAttribute dateOfText) { value := value, maxAge := c.maxAge } =
        parts.foldl (readAttribute dateOfText) { value := value, maxAge := c.maxAge } := by
    apply foldl_writtenIf
    · exact fun _ => readAttribute_secure dateOfText _
    · exact fun _ => rfl
  have hhttp : ∀ parts, (writtenIf (c.httpOnly = true) (bytesOf "HttpOnly") ++ parts).foldl
      (readAttribute dateOfText) { value := value, maxAge := c.maxAge } =
        parts.foldl (readAttribute dateOfText) { value := value, maxAge := c.maxAge } := by
    apply foldl_writtenIf
    · exact fun _ => readAttribute_httpOnly dateOfText _
    · exact fun _ => rfl
  have hsite : ∀ parts, (writtenIf (c.domain ≠ []) (bytesOf "Domain=" ++ c.domain) ++ parts).foldl
      (readAttribute dateOfText) { value := value, maxAge := c.maxAge } =
        parts.foldl (readAttribute dateOfText)
          { value := value, maxAge := c.maxAge, domain := c.domain } := by
    apply foldl_writtenIf
    · exact fun _ => readAttribute_domain dateOfText _ hdomain
    · intro hunset
      rw [not_not.mp hunset]
  have hfolder : ∀ parts, (writtenIf (c.path ≠ []) (bytesOf "Path=" ++ c.path) ++ parts).foldl
      (readAttribute dateOfText) { value := value, maxAge := c.maxAge, domain := c.domain } =
        parts.foldl (readAttribute dateOfText)
          { value := value, maxAge := c.maxAge, domain := c.domain, path := c.path } := by
    apply foldl_writtenIf
    · exact fun _ => readAttribute_path dateOfText _ hpath
    · intro hunset
      rw [not_not.mp hunset]
  simp only [attributes, List.append_assoc]
  rw [hage, hsecure, hhttp, hsite, hfolder]
  -- the policy is always written
  rcases c.sameSitePolicy with _ | _ | _ <;> rfl

/-! ## The round trip -/

/-- **What is read of a header that was written**: the name and every attribute, but both flags are
up. -/
theorem fromSetCookieText_toSetCookieText {c : Cookie} (hdate : c.expires = 0)
    (hvalue : 59 ∉ c.value ∧ Readable c.value) (hdomain : 59 ∉ c.domain ∧ Readable c.domain)
    (hpath : 59 ∉ c.path ∧ Readable c.path) {cookieName : List UInt8}
    (hname : 59 ∉ cookieName ∧ 61 ∉ cookieName ∧ Trimmed cookieName) :
    fromSetCookieText dateOfText (c.toSetCookieText dateText cookieName) =
      ({ c with secure := true, httpOnly := true }, cookieName) := by
  have hfree : ∀ {s : List UInt8}, 59 ∉ s → ∀ x ∈ s, decide (x = 59) = false :=
    fun hs x hx => decide_eq_false fun heq => hs (heq ▸ hx)
  have htokens : splitCompress (· = 59) (c.toSetCookieText dateText cookieName) =
      (cookieName ++ 61 :: c.value) :: (c.attributes ++ [[]]).map (32 :: ·) := by
    rw [toSetCookieText_eq dateText hdate, splitCompress_join]
    · rw [List.map_map, List.filter_eq_self.mpr]
      · rfl
      · intro a ha
        obtain ⟨b, -, rfl⟩ := List.mem_map.mp ha
        rfl
    · intro x hx
      rcases List.mem_append.mp hx with hx | hx
      · exact hfree hname.1 x hx
      · rcases List.mem_cons.mp hx with rfl | hx
        · rfl
        · exact hfree hvalue.1 x hx
    · intro u hu
      obtain ⟨a, ha, rfl⟩ := List.mem_map.mp hu
      refine ⟨rfl, fun x hx => ?_⟩
      rcases List.mem_cons.mp hx with rfl | hx
      · rfl
      · rcases List.mem_append.mp ha with ha | ha
        · exact hfree (not_mem_attributes hdomain.1 hpath.1 a ha) x hx
        · rw [List.mem_singleton.mp ha] at hx
          cases hx
    · simp
  rw [fromSetCookieText, htokens]
  dsimp only
  rw [getVarNameAndValue_pair hname.2.1, hname.2.2, hvalue.2.trimBytes_takeWhile]
  rw [List.foldl_map]
  have hread := foldl_readAttribute dateOfText hdomain.2 hpath.2 c.value
  unfold readAttribute at hread
  rw [hread, ← hdate]

/-- What is read for a name is never taken apart. -/
theorem fromSetCookieText_name (text : List UInt8) :
    59 ∉ (fromSetCookieText dateOfText text).2 ∧ 61 ∉ (fromSetCookieText dateOfText text).2 ∧
      Trimmed (fromSetCookieText dateOfText text).2 := by
  obtain ⟨ts, hts⟩ := splitCompress_head (· = 59) text
  have hsemicolon : 59 ∉ text.takeWhile (fun c => !decide (c = 59)) := by
    intro hmem
    simpa using List.mem_takeWhile_imp hmem
  rw [fromSetCookieText, hts]
  dsimp only
  unfold getVarNameAndValue
  split
  · refine ⟨fun hmem => ?_, fun hmem => ?_, trimmed_trimBytes _⟩
    · exact hsemicolon ((List.takeWhile_prefix _).subset (trimBytes_subset _ hmem))
    · simpa using List.mem_takeWhile_imp (trimBytes_subset _ hmem)
  · rename_i hequals
    exact ⟨fun hmem => hsemicolon (trimBytes_subset _ hmem),
      fun hmem => hequals (trimBytes_subset _ hmem), trimmed_trimBytes _⟩

/-- **The `Set-Cookie` header.**  A cookie without a date comes back with its name exactly if the
name is not taken apart, and the cookie is secure and closed to scripts. -/
theorem setCookie_roundTrip_iff (c : Cookie) (cookieName : List UInt8) (hdate : c.expires = 0)
    (hvalue : 59 ∉ c.value ∧ Readable c.value) (hdomain : 59 ∉ c.domain ∧ Readable c.domain)
    (hpath : 59 ∉ c.path ∧ Readable c.path) :
    fromSetCookieText dateOfText (c.toSetCookieText dateText cookieName) = (c, cookieName) ↔
      (59 ∉ cookieName ∧ 61 ∉ cookieName ∧ Trimmed cookieName) ∧
        c.secure = true ∧ c.httpOnly = true := by
  constructor
  · intro heq
    have hname := fromSetCookieText_name dateOfText (c.toSetCookieText dateText cookieName)
    rw [heq] at hname
    rw [fromSetCookieText_toSetCookieText dateText dateOfText hdate hvalue hdomain hpath hname]
      at heq
    have hcookie := (Prod.mk.inj heq).1
    exact ⟨hname, (congrArg secure hcookie).symm, (congrArg httpOnly hcookie).symm⟩
  · rintro ⟨hname, hsecure, hhttp⟩
    have hcookie : ∀ c : Cookie, c.secure = true → c.httpOnly = true →
        ({ c with secure := true, httpOnly := true } : Cookie) = c := by
      rintro ⟨⟩ rfl rfl
      rfl
    rw [fromSetCookieText_toSetCookieText dateText dateOfText hdate hvalue hdomain hpath hname,
      hcookie c hsecure hhttp]

/-- A cookie with all of its attributes. -/
theorem setCookie_roundTrip_session :
    fromSetCookieText (fun _ => 0)
      (({ value := bytesOf "x=1", maxAge := 60, domain := bytesOf "a.b", path := bytesOf "/",
          sameSitePolicy := .lax } : Cookie).toSetCookieText (fun _ => []) (bytesOf "sid")) =
        ({ value := bytesOf "x=1", maxAge := 60, domain := bytesOf "a.b", path := bytesOf "/",
           sameSitePolicy := .lax }, bytesOf "sid") :=
  (setCookie_roundTrip_iff (fun _ => []) (fun _ => 0) _ _ rfl (by decide) (by decide)
    (by decide)).mpr (by decide)

/-- A cookie that scripts may read comes back as one that they may not. -/
theorem not_setCookie_roundTrip :
    fromSetCookieText (fun _ => 0)
        (({ value := bytesOf "1", httpOnly := false } : Cookie).toSetCookieText (fun _ => [])
          (bytesOf "theme")) =
      ({ value := bytesOf "1", httpOnly := true }, bytesOf "theme") ∧
    fromSetCookieText (fun _ => 0)
        (({ value := bytesOf "1", httpOnly := false } : Cookie).toSetCookieText (fun _ => [])
          (bytesOf "theme")) ≠
      ({ value := bytesOf "1", httpOnly := false }, bytesOf "theme") := by
  have hread : fromSetCookieText (fun _ => 0)
      (({ value := bytesOf "1", httpOnly := false } : Cookie).toSetCookieText (fun _ => [])
        (bytesOf "theme")) = ({ value := bytesOf "1", httpOnly := true }, bytesOf "theme") :=
    fromSetCookieText_toSetCookieText (fun _ => []) (fun _ => 0) rfl (by decide) (by decide)
      (by decide) (by decide)
  refine ⟨hread, ?_⟩
  rw [hread]
  decide

end Cookie

end Mantids
