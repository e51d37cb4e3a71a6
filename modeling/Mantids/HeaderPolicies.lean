/-
# The policies of a response

`Headers::CacheControl` (`Protocol_HTTP/hdr_cachecontrol.cpp`) and `Headers::Security::HSTS`
(`Protocol_HTTP/hdr_sec_hsts.cpp`) write the `Cache-Control` and the `Strict-Transport-Security`
header, and read them.

* `CacheControl.toText`, `CacheControl.fromText`, and the same of `HSTS` — what is written of a
  policy, and how it is read;
* `CacheControl.fromText_toText` — of a cache policy everything comes back but two flags:
  `no-store`, which is up by default, and `must-revalidate`, which is not read;
* `HSTS.fromText_toText` — of a transport policy the flags come back: no age is ever read
  (`HSTS.maxAge_fromText`);
* `policies_roundTrip_iff` — when a policy comes back.
-/
import Mantids.Response
import Mantids.Texts

namespace Mantids

/-- `boost::to_lower_copy` in the `C` locale. -/
def toLowerBytes (s : List UInt8) : List UInt8 := s.map tolower

/-! ## Cache policies -/

namespace CacheControl

/-- What `toString` may write, in its order, and whether it is set. -/
def settings (c : CacheControl) : List (Bool × List UInt8) :=
  [(c.optionMustRevalidate, bytesOf "must-revalidate"),
    (c.optionProxyRevalidate, bytesOf "proxy-revalidate"),
    (c.optionNoTransform, bytesOf "no-transform"),
    (c.optionImmutable, bytesOf "immutable"),
    (c.optionNoStore, bytesOf "no-store"),
    (c.optionNoCache, bytesOf "no-cache"),
    (c.optionPrivate, bytesOf "private"),
    (c.optionPublic, bytesOf "public"),
    (c.maxAge != 0, bytesOf "max-age=" ++ decimal c.maxAge.toNat),
    (c.sMaxAge != 0, bytesOf "s-maxage=" ++ decimal c.sMaxAge.toNat)]

/-- What is set is written, behind `(r.empty() ? "" : ",")`. -/
def addSetting (r : List UInt8) (setting : Bool × List UInt8) : List UInt8 :=
  if setting.1 then r ++ ((if r = [] then [] else bytesOf ",") ++ setting.2) else r

/-- `toString`. -/
def toText (c : CacheControl) : List UInt8 := c.settings.foldl addSetting []

/-- What one parameter does. -/
def readParam (c : CacheControl) (param : List UInt8) : CacheControl :=
  let paramLower := toLowerBytes param
  -- `must-revalidate` has no branch
  if paramLower = bytesOf "no-store" then { c with optionNoStore := true }
  else if paramLower = bytesOf "no-cache" then { c with optionNoCache := true }
  else if paramLower = bytesOf "private" then { c with optionPrivate := true }
  else if paramLower = bytesOf "public" then { c with optionPublic := true }
  else if paramLower = bytesOf "immutable" then { c with optionImmutable := true }
  else if paramLower = bytesOf "proxy-revalidate" then { c with optionProxyRevalidate := true }
  else if paramLower = bytesOf "no-transform" then { c with optionNoTransform := true }
  else if bytesOf "max-age=" <+: paramLower then
    { c with maxAge := UInt32.ofNat (strtoull (paramLower.drop 8)) }
  else if bytesOf "s-maxage=" <+: paramLower then
    { c with sMaxAge := UInt32.ofNat (strtoull (paramLower.drop 9)) }
  else c

/-- `fromString`; what the object was before is reset. -/
def fromText (str : List UInt8) : CacheControl :=
  (splitCompress (fun c => c = 44 ∨ c = 32) str).foldl readParam {}

/-! ### The header as tokens -/

/-- The settings that are written. -/
def options (c : CacheControl) : List (List UInt8) :=
  c.settings.flatMap fun o => writtenIf (o.1 = true) o.2

/-- Texts with commas between them. -/
def commas : List (List UInt8) → List UInt8
  | [] => []
  | t :: ts => t ++ joined (ts.map fun u => ((44 : UInt8), u))

/-- The loop over the settings puts commas between those that are set. -/
theorem foldl_addSetting {settings : List (Bool × List UInt8)} (hne : ∀ o ∈ settings, o.2 ≠ [])
    {ts : List (List UInt8)} (hts : [] ∉ ts) :
    settings.foldl addSetting (commas ts) =
      commas (ts ++ settings.flatMap fun o => writtenIf (o.1 = true) o.2) := by
  induction settings generalizing ts with
  | nil => simp
  | cons o settings ih =>
      obtain ⟨ho, hne⟩ := List.forall_mem_cons.mp hne
      have hadd : addSetting (commas ts) o = commas (ts ++ writtenIf (o.1 = true) o.2) := by
        unfold addSetting writtenIf
        split
        · rcases ts with _ | ⟨t, ts⟩
          · simp [commas, joined]
          · have ht : t ≠ [] := fun heq => hts (heq ▸ List.mem_cons_self)
            simp [commas, joined, ht, show bytesOf "," = [44] by decide]
        · rw [List.append_nil]
      rw [List.foldl_cons, hadd, ih hne, List.flatMap_cons, List.append_assoc]
      rw [List.mem_append, mem_writtenIf]
      rintro (hmem | ⟨-, heq⟩)
      · exact hts hmem
      · exact ho heq.symm

/-- The letters of the tokens: small ones, digits, a hyphen and an equals sign. -/
def isTokenByte (x : UInt8) : Bool := (97 ≤ x && x ≤ 122) || isdigit x || x == 45 || x == 61

theorem isTokenByte_spec {x : UInt8} (h : isTokenByte x = true) :
    x ≠ 44 ∧ x ≠ 32 ∧ tolower x = x := by
  have hall : ∀ x : UInt8, isTokenByte x = true → x ≠ 44 ∧ x ≠ 32 ∧ tolower x = x := by
    decide +kernel
  exact hall x h

def IsToken (t : List UInt8) : Prop := t ≠ [] ∧ t.all isTokenByte = true

instance (t : List UInt8) : Decidable (IsToken t) :=
  inferInstanceAs (Decidable (t ≠ [] ∧ t.all isTokenByte = true))

theorem isToken_age {key : List UInt8} (hkey : IsToken key) (n : ℕ) :
    IsToken (key ++ decimal n) := by
  have hdecimal : (decimal n).all isTokenByte = true := by
    rw [List.all_eq_true]
    intro x hx
    simp [isTokenByte, isdigit_of_mem_decimal n x hx]
  refine ⟨fun hnil => hkey.1 (List.append_eq_nil_iff.mp hnil).1, ?_⟩
  rw [List.all_append, hkey.2, hdecimal]
  rfl

theorem isToken_settings (c : CacheControl) : ∀ o ∈ c.settings, IsToken o.2 := by
  intro o ho
  simp only [settings, List.mem_cons, List.not_mem_nil, or_false] at ho
  -- eight words, and two ages
  rcases ho with rfl | rfl | rfl | rfl | rfl | rfl | rfl | rfl | rfl | rfl
  iterate 8 (dsimp only; decide)
  · exact isToken_age (by decide) _
  · exact isToken_age (by decide) _

theorem toText_eq (c : CacheControl) : c.toText = commas c.options := by
  have hfold := foldl_addSetting (fun o ho => (isToken_settings c o ho).1)
    (List.not_mem_nil (a := []))
  rw [List.nil_append] at hfold
  rw [toText, options, ← hfold]
  rfl

/-- The header is cut into the settings that were written. -/
theorem splitCompress_toText {c : CacheControl} (hne : c.toText ≠ []) :
    splitCompress (fun x => x = 44 ∨ x = 32) c.toText = c.options := by
  have htoken : ∀ t ∈ c.options, IsToken t := by
    intro t ht
    obtain ⟨o, ho, hmem⟩ := List.mem_flatMap.mp ht
    rw [(mem_writtenIf.mp hmem).2]
    exact isToken_settings c o ho
  rw [toText_eq] at hne ⊢
  rcases hoptions : c.options with _ | ⟨t, ts⟩
  · rw [hoptions] at hne
    exact absurd rfl hne
  · rw [hoptions, List.forall_mem_cons] at htoken
    have hfree : ∀ {u : List UInt8}, IsToken u → ∀ x ∈ u, decide (x = 44 ∨ x = 32) = false := by
      intro u hu x hx
      obtain ⟨hcomma, hblank, -⟩ := isTokenByte_spec (List.all_eq_true.mp hu.2 x hx)
      exact decide_eq_false (not_or.mpr ⟨hcomma, hblank⟩)
    rw [commas, splitCompress_join (hfree htoken.1)]
    · rw [List.map_map, List.filter_eq_self.mpr]
      · simp
      · intro u hu
        simp only [Function.comp_def, List.map_id'] at hu
        simpa using (htoken.2 u hu).1
    · intro u hu
      obtain ⟨v, hv, rfl⟩ := List.mem_map.mp hu
      exact ⟨rfl, hfree (htoken.2 v hv)⟩
    · intro u hu
      obtain ⟨v, hv, rfl⟩ := List.mem_map.mp (List.mem_of_getLast? hu)
      exact (htoken.2 v hv).1

/-! ### What is read -/

theorem toLowerBytes_token {t : List UInt8} (ht : IsToken t) : toLowerBytes t = t := by
  have hlower : ∀ x ∈ t, tolower x = id x :=
    fun x hx => (isTokenByte_spec (List.all_eq_true.mp ht.2 x hx)).2.2
  rw [toLowerBytes, List.map_congr_left hlower, List.map_id]

/-- Words that begin with other letters differ. -/
theorem append_ne_of_head {key word : List UInt8} (hne : key ≠ []) (hhead : word.head? ≠ key.head?)
    (rest : List UInt8) : key ++ rest ≠ word := by
  rintro rfl
  apply hhead
  obtain ⟨x, xs, rfl⟩ := List.exists_cons_of_ne_nil hne
  rfl

theorem strtoull_age (n : UInt32) : UInt32.ofNat (strtoull (decimal n.toNat)) = n := by
  rw [strtoull_decimal (by have := n.toNat_lt; omega), UInt32.ofNat_toNat]

theorem readParam_maxAge (c : CacheControl) (n : UInt32) :
    c.readParam (bytesOf "max-age=" ++ decimal n.toNat) = { c with maxAge := n } := by
  unfold readParam
  rw [toLowerBytes_token (isToken_age (by decide) _)]
  dsimp only
  -- none of the words begins like it
  iterate 7 rw [if_neg (append_ne_of_head (by decide) (by decide) _)]
  rw [if_pos (List.prefix_append _ _), List.drop_left' (by decide), strtoull_age]

theorem readParam_sMaxAge (c : CacheControl) (n : UInt32) :
    c.readParam (bytesOf "s-maxage=" ++ decimal n.toNat) = { c with sMaxAge := n } := by
  have hage : ¬ bytesOf "max-age=" <+: bytesOf "s-maxage=" ++ decimal n.toNat := by
    rintro ⟨rest, hrest⟩
    have hhead : some (109 : UInt8) = some 115 := congrArg List.head? hrest
    exact absurd hhead (by decide)
  unfold readParam
  rw [toLowerBytes_token (isToken_age (by decide) _)]
  dsimp only
  iterate 7 rw [if_neg (append_ne_of_head (by decide) (by decide) _)]
  rw [if_neg hage, if_pos (List.prefix_append _ _), List.drop_left' (by decide), strtoull_age]

/-- **What is read of a cache policy that was written**: `no-store` is up by default, and
`must-revalidate` is not looked for. -/
theorem fromText_toText {c : CacheControl} (hne : c.toText ≠ []) :
    fromText c.toText = { c with optionNoStore := true, optionMustRevalidate := false } := by
  -- a setting that is not written has its default, and that is what it has so far
  have hflag : ∀ {policy : CacheControl} (flag : Bool) {word : List UInt8}
      (put : Bool → CacheControl → CacheControl), policy.readParam word = put true policy →
      put false policy = policy → ∀ parts,
        (writtenIf (flag = true) word ++ parts).foldl readParam policy =
        parts.foldl readParam (put flag policy) := by
    intro policy flag word put hread hdefault parts
    apply foldl_writtenIf
    · rintro rfl
      exact hread
    · intro hunset
      rw [Bool.eq_false_of_not_eq_true hunset, hdefault]
  have hage : ∀ {policy : CacheControl} (age : UInt32) {text : List UInt8}
      (put : UInt32 → CacheControl → CacheControl), policy.readParam text = put age policy →
      put 0 policy = policy → ∀ parts,
        (writtenIf ((age != 0) = true) text ++ parts).foldl readParam policy =
        parts.foldl readParam (put age policy) := by
    intro policy age text put hread hdefault parts
    apply foldl_writtenIf
    · exact fun _ => hread
    · intro hunset
      have hzero : age = 0 := by simpa using hunset
      rw [hzero, hdefault]
  rw [fromText, splitCompress_toText hne]
  simp only [options, settings, List.flatMap_cons, List.flatMap_nil]
  rw [hflag c.optionMustRevalidate (fun _ policy => policy) rfl rfl,
    hflag c.optionProxyRevalidate (fun flag policy => { policy with optionProxyRevalidate := flag })
      rfl rfl,
    hflag c.optionNoTransform (fun flag policy => { policy with optionNoTransform := flag }) rfl
      rfl,
    hflag c.optionImmutable (fun flag policy => { policy with optionImmutable := flag }) rfl rfl,
    hflag c.optionNoStore (fun _ policy => policy) rfl rfl,
    hflag c.optionNoCache (fun flag policy => { policy with optionNoCache := flag }) rfl rfl,
    hflag c.optionPrivate (fun flag policy => { policy with optionPrivate := flag }) rfl rfl,
    hflag c.optionPublic (fun flag policy => { policy with optionPublic := flag }) rfl rfl,
    hage c.maxAge (fun age policy => { policy with maxAge := age }) (readParam_maxAge _ _) rfl,
    hage c.sMaxAge (fun age policy => { policy with sMaxAge := age }) (readParam_sMaxAge _ _) rfl]
  rfl

end CacheControl

/-! ## Transport policies -/

/-- `Headers::Security::HSTS`. -/
structure HSTS where
  isActivated : Bool := false
  isPreloadEnabled : Bool := false
  isSubdomainIncluded : Bool := false
  maxAge : UInt32 := 0
deriving DecidableEq

namespace HSTS

/-- `toString`. -/
def toText (h : HSTS) : List UInt8 :=
  if h.isActivated then
    let r : List UInt8 := []
    let r := if h.maxAge ≠ 0 then r ++ bytesOf "; max-age=" ++ decimal h.maxAge.toNat else r
    let r := if h.isSubdomainIncluded then r ++ bytesOf "; includeSubDomains" else r
    let r := if h.isPreloadEnabled then r ++ bytesOf "; preload" else r
    if 2 < r.length then r.drop 2 else []
  else []

/-- What one part does.  The number is converted from the first letter of the part on
(`parts[i].substr(0)`). -/
def readPart (h : HSTS) (part : List UInt8) : HSTS :=
  if toLowerBytes part = toLowerBytes (bytesOf "preload") then { h with isPreloadEnabled := true }
  else if toLowerBytes part = toLowerBytes (bytesOf "includeSubDomains") then
    { h with isSubdomainIncluded := true }
  else if bytesOf "max-age=" <+: toLowerBytes part then
    { h with maxAge := UInt32.ofNat (strtoull (part.drop 0)) }
  else h

/-- `fromString`; what the object was before is reset. -/
def fromText (value : List UInt8) : HSTS :=
  if value = [] then {}
  else (splitCompress (fun c => c = 59 ∨ c = 32) value).foldl readPart { isActivated := true }

/-- The first letter of an age is not a digit. -/
theorem strtoull_age {part : List UInt8} (h : bytesOf "max-age=" <+: toLowerBytes part) :
    strtoull part = 0 := by
  obtain ⟨rest, hrest⟩ := h
  rcases part with _ | ⟨c, cs⟩
  · cases hrest
  · have hc : tolower c = 109 := (List.cons.inj hrest).1.symm
    have hletter : ∀ c : UInt8, tolower c = 109 →
        c ≠ 0 ∧ isspace c = false ∧ c ≠ 45 ∧ c ≠ 43 ∧ isdigit c = false := by
      decide +kernel
    obtain ⟨hzero, hspace, hminus, hplus, hdigit⟩ := hletter c hc
    unfold strtoull
    simp [hzero, hspace, hminus, hplus, hdigit]

/-- No part gives an age. -/
theorem readPart_maxAge (h : HSTS) (part : List UInt8) (hage : h.maxAge = 0) :
    (h.readPart part).maxAge = 0 := by
  unfold readPart
  split
  · exact hage
  · split
    · exact hage
    · split
      · rename_i hpart
        show UInt32.ofNat (strtoull part) = 0
        rw [strtoull_age hpart]
        rfl
      · exact hage

/-- **No age is ever read**, whatever the header says. -/
theorem maxAge_fromText (value : List UInt8) : (fromText value).maxAge = 0 := by
  have hfold : ∀ (parts : List (List UInt8)) (h : HSTS), h.maxAge = 0 →
      (parts.foldl readPart h).maxAge = 0 := by
    intro parts
    induction parts with
    | nil => exact fun h hage => hage
    | cons part parts ih => exact fun h hage => ih _ (readPart_maxAge h part hage)
  unfold fromText
  split
  · rfl
  · exact hfold _ _ rfl

/-! ### The flags -/

/-- The directives of a policy, in the order of the header. -/
def directives (h : HSTS) : List (List UInt8) :=
  writtenIf (h.maxAge ≠ 0) (bytesOf "max-age=" ++ decimal h.maxAge.toNat) ++
    writtenIf (h.isSubdomainIncluded = true) (bytesOf "includeSubDomains") ++
    writtenIf (h.isPreloadEnabled = true) (bytesOf "preload")

/-- Between two directives there are a semicolon and a blank. -/
theorem toText_eq {h : HSTS} (hactive : h.isActivated = true) :
    h.toText = (h.directives.flatMap (bytesOf "; " ++ ·)).drop 2 := by
  have hwrite : ∀ (isWritten : Prop) [Decidable isWritten] (r text : List UInt8),
      (if isWritten then r ++ (bytesOf "; " ++ text) else r) =
        r ++ (writtenIf isWritten text).flatMap (bytesOf "; " ++ ·) := by
    intro isWritten _ r text
    unfold writtenIf
    split <;> simp
  have hdrop : ∀ r : List UInt8, (if 2 < r.length then r.drop 2 else []) = r.drop 2 := by
    intro r
    split
    · rfl
    · rw [List.drop_eq_nil_of_le (by omega)]
  have hage : bytesOf "; max-age=" = bytesOf "; " ++ bytesOf "max-age=" := by decide
  have hsub : bytesOf "; includeSubDomains" = bytesOf "; " ++
    bytesOf "includeSubDomains" := by decide
  have hpreload : bytesOf "; preload" = bytesOf "; " ++ bytesOf "preload" := by decide
  rw [toText, if_pos hactive, directives]
  simp only [hage, hsub, hpreload, hdrop, List.append_assoc]
  rw [hwrite, hwrite, hwrite]
  simp only [List.flatMap_append, List.nil_append, List.append_assoc]

/-- No directive is empty or taken apart. -/
theorem directives_free (h : HSTS) :
    ∀ t ∈ h.directives, t ≠ [] ∧ ∀ x ∈ t, decide (x = 59 ∨ x = 32) = false := by
  have hdigit : ∀ x : UInt8, isdigit x = true → decide (x = 59 ∨ x = 32) =
    false := by decide +kernel
  have hword : ∀ t : List UInt8, t ≠ [] → 59 ∉ t → 32 ∉ t →
      t ≠ [] ∧ ∀ x ∈ t, decide (x = 59 ∨ x = 32) = false := by
    refine fun t hne hsemicolon hblank => ⟨hne, fun x hx => decide_eq_false ?_⟩
    rintro (rfl | rfl)
    · exact hsemicolon hx
    · exact hblank hx
  intro t ht
  simp only [directives, List.mem_append, mem_writtenIf] at ht
  rcases ht with (⟨-, rfl⟩ | ⟨-, rfl⟩) | ⟨-, rfl⟩
  · refine ⟨fun hnil => absurd (List.append_eq_nil_iff.mp hnil).1 (by decide), fun x hx => ?_⟩
    rcases List.mem_append.mp hx with hx | hx
    · exact (hword _ (by decide) (by decide) (by decide)).2 x hx
    · exact hdigit x (isdigit_of_mem_decimal _ x hx)
  · exact hword _ (by decide) (by decide) (by decide)
  · exact hword _ (by decide) (by decide) (by decide)

/-- The header is cut into the directives that were written. -/
theorem splitCompress_toText {h : HSTS} (hactive : h.isActivated = true) (hne : h.toText ≠ []) :
    splitCompress (fun x => x = 59 ∨ x = 32) h.toText = h.directives := by
  have hfree := directives_free h
  have hjoin : ∀ ts : List (List UInt8), ts.flatMap (bytesOf "; " ++ ·) =
      joined (ts.flatMap fun u => [((59 : UInt8), []), (32, u)]) := by
    intro ts
    induction ts with
    | nil => rfl
    | cons t ts ih => simpa [joined, show bytesOf "; " = [59, 32] by decide] using ih
  have hfilter : ∀ ts : List (List UInt8), (∀ t ∈ ts, t ≠ []) →
      ((ts.flatMap fun u => [((59 : UInt8), []), (32, u)]).map (·.2)).filter (· ≠ []) = ts := by
    intro ts
    induction ts with
    | nil => exact fun _ => rfl
    | cons t ts ih =>
        intro hts
        obtain ⟨ht, hts⟩ := List.forall_mem_cons.mp hts
        simpa [ht] using ih hts
  rw [toText_eq hactive] at hne ⊢
  rcases hparts : h.directives with _ | ⟨t, ts⟩
  · rw [hparts] at hne
    exact absurd rfl hne
  · rw [hparts, List.forall_mem_cons] at hfree
    have hdrop : ((t :: ts).flatMap (bytesOf "; " ++ ·)).drop 2 =
        t ++ ts.flatMap (bytesOf "; " ++ ·) := by
      rw [List.flatMap_cons, List.append_assoc]
      rfl
    rw [hdrop, hjoin, splitCompress_join hfree.1.2, hfilter ts fun u hu => (hfree.2 u hu).1]
    · intro u hu
      obtain ⟨v, hv, hmem⟩ := List.mem_flatMap.mp hu
      simp only [List.mem_cons, List.not_mem_nil, or_false] at hmem
      rcases hmem with rfl | rfl
      · exact ⟨rfl, fun x hx => absurd hx List.not_mem_nil⟩
      · exact ⟨rfl, (hfree.2 v hv).2⟩
    · intro u hu
      rcases List.eq_nil_or_concat ts with rfl | ⟨init, v, rfl⟩
      · cases hu
      · rw [List.concat_eq_append] at hu hfree
        simp only [List.flatMap_append, List.flatMap_singleton, List.getLast?_append] at hu
        have hv : u = (32, v) := by simpa using hu.symm
        rw [hv]
        exact (hfree.2 v (by simp)).1

/-- **What is read of a transport policy that was written**: the flags, and no age. -/
theorem fromText_toText {h : HSTS} (hactive : h.isActivated = true) (hne : h.toText ≠ []) :
    fromText h.toText = { h with maxAge := 0 } := by
  have hage : ∀ parts, (writtenIf (h.maxAge ≠ 0) (bytesOf "max-age=" ++ decimal h.maxAge.toNat) ++
      parts).foldl readPart { isActivated := true } =
        parts.foldl readPart { isActivated := true } := by
    apply foldl_writtenIf
    · intro _
      have hlower : bytesOf "max-age=" <+: toLowerBytes
          (bytesOf "max-age=" ++ decimal h.maxAge.toNat) := by
        rw [CacheControl.toLowerBytes_token (CacheControl.isToken_age (by decide) _)]
        exact List.prefix_append _ _
      have hzero := strtoull_age hlower
      unfold readPart
      rw [if_neg, if_neg, if_pos hlower, List.drop_zero, hzero]
      · rfl
      · intro heq
        have hhead : some (109 : UInt8) = some 105 := congrArg List.head? heq
        exact absurd hhead (by decide)
      · intro heq
        have hhead : some (109 : UInt8) = some 112 := congrArg List.head? heq
        exact absurd hhead (by decide)
    · exact fun _ => rfl
  have hsub : ∀ parts, (writtenIf (h.isSubdomainIncluded = true) (bytesOf "includeSubDomains") ++
      parts).foldl readPart { isActivated := true } = parts.foldl readPart
        { isActivated := true, isSubdomainIncluded := h.isSubdomainIncluded } := by
    apply foldl_writtenIf
    · intro hset
      rw [hset]
      rfl
    · intro hunset
      rw [Bool.eq_false_of_not_eq_true hunset]
  have hpreload : ∀ parts, (writtenIf (h.isPreloadEnabled = true) (bytesOf "preload") ++
      parts).foldl readPart { isActivated := true, isSubdomainIncluded := h.isSubdomainIncluded } =
        parts.foldl readPart { h with maxAge := 0 } := by
    apply foldl_writtenIf
    · intro hset
      rw [hset, hactive]
      rfl
    · intro hunset
      rw [Bool.eq_false_of_not_eq_true hunset, hactive]
  have hread := hpreload []
  rw [List.append_nil] at hread
  rw [fromText, if_neg hne, splitCompress_toText hactive hne, directives, List.append_assoc, hage,
    hsub, hread]
  rfl

end HSTS

/-! ## The round trips -/

/-- **The policies of a response.**  A cache policy comes back from its header exactly if it has
`no-store` and not `must-revalidate`; a transport policy with an age never does. -/
theorem policies_roundTrip_iff (c : CacheControl) (hne : c.toText ≠ []) (h : HSTS)
    (hpos : 0 < h.maxAge) :
    (CacheControl.fromText c.toText = c ↔
      c.optionNoStore = true ∧ c.optionMustRevalidate = false) ∧
    ¬ ((HSTS.fromText h.toText).maxAge = h.maxAge ∧
      (HSTS.fromText h.toText).isSubdomainIncluded = h.isSubdomainIncluded ∧
      (HSTS.fromText h.toText).isPreloadEnabled = h.isPreloadEnabled) := by
  constructor
  · rw [CacheControl.fromText_toText hne]
    constructor
    · intro heq
      exact ⟨(congrArg CacheControl.optionNoStore heq).symm,
        (congrArg CacheControl.optionMustRevalidate heq).symm⟩
    · rcases c with ⟨⟩
      rintro ⟨rfl, rfl⟩
      rfl
  · rintro ⟨hage, -, -⟩
    rw [HSTS.maxAge_fromText] at hage
    rw [← hage] at hpos
    exact absurd hpos (by decide)

/-- A policy that is not stored, and a year. -/
theorem policies_roundTrip_private :
    CacheControl.fromText
        ({ optionPrivate := true, optionNoCache := true, maxAge := 60 } : CacheControl).toText =
      { optionPrivate := true, optionNoCache := true, maxAge := 60 } ∧
    (HSTS.fromText ({ isActivated := true, maxAge := 31536000 } : HSTS).toText).maxAge ≠
      31536000 := by
  obtain ⟨hcache, hsts⟩ := policies_roundTrip_iff
    { optionPrivate := true, optionNoCache := true, maxAge := 60 } (by decide +kernel)
    { isActivated := true, maxAge := 31536000 } (by decide +kernel)
  exact ⟨hcache.mpr (by decide +kernel),
    fun hage => hsts ⟨hage, by decide +kernel, by decide +kernel⟩⟩

/-- A policy that asks for revalidation comes back as one that forbids to store, and a year as no
age. -/
theorem not_policies_roundTrip :
    CacheControl.fromText ({ optionNoStore := false, optionMustRevalidate := true } :
      CacheControl).toText ≠
      { optionNoStore := false, optionMustRevalidate := true } ∧
    (HSTS.fromText ({ isActivated := true, maxAge := 31536000 } : HSTS).toText).maxAge ≠
      31536000 := by
  constructor
  · rw [CacheControl.fromText_toText (by decide)]
    decide
  · rw [HSTS.maxAge_fromText]
    decide

end Mantids
