/-
# Browsers and the gate

Before anything else, `procHTTPClientContent` answers 426 to some browsers.

* `NamedProduct`, `Names` — the product of `supportedBrowsers` that a User-Agent names first, with
  its version;
* `upgradeRequired` — what the gate is for: an old version, or no product of the table, is answered
  426;
* `GatedAs` — a User-Agent is answered 426, or goes on;
* `gated_as_required_iff` — the gate does as required for a dotted version that is new enough of a
  product with a minimum, and for nothing else.

The result of `isSupportedUserAgent` is used the wrong way round, and a dotted version is no number
to it.
-/
import Mantids.ClientHandler

namespace Mantids

open Occurrence

/-! ## What a User-Agent names -/

/-- A product of the table with a version `M.m1...mk`. -/
structure NamedProduct where
  browser : String × ℤ
  major : List Char
  minors : List (List Char) := []

namespace NamedProduct

def name (p : NamedProduct) : List Char := p.browser.1.toList

def minVersion (p : NamedProduct) : ℤ := p.browser.2

def version (p : NamedProduct) : List Char := p.major ++ p.minors.flatMap ('.' :: ·)

end NamedProduct

/-- The text, in lower case, names the product before any other one of the table; its version ends
with a blank or with the text. -/
structure Names (details : List Char) (p : NamedProduct) : Prop where
  first : ∃ earlier later, supportedBrowsers = earlier ++ p.browser :: later ∧
    ∀ b ∈ earlier, ∀ pos, ¬ OccursAt b.1.toList details pos
  written : ∃ pos rest, details.drop pos = p.name ++ p.version ++ rest ∧
    (rest = [] ∨ rest.head? = some ' ') ∧ ∀ pos' < pos, ¬ OccursAt p.name details pos'
  major : p.major ≠ [] ∧ p.major.all Char.isDigit = true
  minors : ∀ m ∈ p.minors, m ≠ [] ∧ m.all Char.isDigit = true
  fits : decimalValue p.major < 2 ^ 31

/-- What a User-Agent names, if anything. -/
def Reads (userAgent : String) : Option NamedProduct → Prop
  | some p => Names (toLowerCopy userAgent).toList p
  | none => ∀ b ∈ supportedBrowsers, ∀ pos,
      ¬ OccursAt b.1.toList (toLowerCopy userAgent).toList pos

/-- What the gate is for. -/
def upgradeRequired : Option NamedProduct → Bool
  | some p => decide ((decimalValue p.major : ℤ) < p.minVersion)
  | none => true

/-! ## What the code makes of it -/

/-- A text that starts with a digit has no sign. -/
theorem lexicalCastInt_unsigned {c : Char} {text : List Char} (hc : c.isDigit = true) :
    lexicalCastInt (c :: text) =
      if c :: text ≠ [] ∧ (c :: text).all Char.isDigit = true then
        if -2 ^ 31 ≤ (decimalValue (c :: text) : ℤ) ∧ (decimalValue (c :: text) : ℤ) < 2 ^ 31 then
          some (decimalValue (c :: text) : ℤ)
        else none
      else none := by
  have hminus : c ≠ '-' := by
    rintro rfl
    exact absurd hc (by decide)
  have hplus : c ≠ '+' := by
    rintro rfl
    exact absurd hc (by decide)
  unfold lexicalCastInt
  split
  rename_i negative digits heq
  split at heq
  · rename_i hsign
    exact absurd (List.cons.inj hsign).1 hminus
  · rename_i hsign
    exact absurd (List.cons.inj hsign).1 hplus
  · obtain ⟨rfl, rfl⟩ := Prod.mk.inj heq
    simp only [Bool.false_eq_true, if_false]

/-- Such a text is read if it has digits only, and not too many. -/
theorem lexicalCastInt_of_isDigit {c : Char} {text : List Char} (hc : c.isDigit = true) :
    lexicalCastInt (c :: text) =
      if (c :: text).all Char.isDigit = true ∧ decimalValue (c :: text) < 2 ^ 31 then
        some (decimalValue (c :: text) : ℤ)
      else none := by
  rw [lexicalCastInt_unsigned hc]
  by_cases hall : (c :: text).all Char.isDigit = true
  · rw [if_pos ⟨List.cons_ne_nil _ _, hall⟩]
    exact if_congr ⟨fun hrange => ⟨hall, by omega⟩, fun hrange => by omega⟩ rfl rfl
  · rw [if_neg (fun h => hall h.2), if_neg (fun h => hall h.1)]

/-- A version is a number unless it is dotted. -/
theorem lexicalCastInt_version {details : List Char} {p : NamedProduct} (h : Names details p) :
    lexicalCastInt p.version = if p.minors = [] then some (decimalValue p.major : ℤ) else none := by
  obtain ⟨hne, hdigits⟩ := h.major
  obtain ⟨c, text, hmajor⟩ := List.exists_cons_of_ne_nil hne
  have hc : c.isDigit = true := by
    rw [hmajor, List.all_cons, Bool.and_eq_true] at hdigits
    exact hdigits.1
  rw [NamedProduct.version, hmajor, List.cons_append, lexicalCastInt_of_isDigit hc,
    ← List.cons_append, ← hmajor]
  rcases hminors : p.minors with _ | ⟨m, ms⟩
  · rw [List.flatMap_nil, List.append_nil, if_pos ⟨hdigits, h.fits⟩, if_pos rfl]
  · -- a dot is no digit
    have hdot : ¬ (p.major ++ (m :: ms).flatMap ('.' :: ·)).all Char.isDigit = true := by
      intro hall
      have hmem : '.' ∈ p.major ++ (m :: ms).flatMap ('.' :: ·) := by simp
      exact absurd (List.all_eq_true.mp hall _ hmem) (by decide)
    rw [if_neg (fun hcast => hdot hcast.1), if_neg (List.cons_ne_nil _ _)]

/-- A version has no blank in it. -/
theorem Names.version_ne_blank {details : List Char} {p : NamedProduct} (h : Names details p) :
    ∀ c ∈ p.version, c ≠ ' ' := by
  have hdigit : ∀ {text : List Char}, text.all Char.isDigit = true → ∀ c ∈ text, c ≠ ' ' := by
    rintro text hall _ hc rfl
    exact absurd (List.all_eq_true.mp hall _ hc) (by decide)
  intro c hc
  rcases List.mem_append.mp hc with hc | hc
  · exact hdigit h.major.2 c hc
  · obtain ⟨m, hm, hc⟩ := List.mem_flatMap.mp hc
    rcases List.mem_cons.mp hc with rfl | hc
    · decide
    · exact hdigit (h.minors m hm).2 c hc

/-- The version that the code cuts out is the one that is written. -/
theorem Names.takeWhile_version {details : List Char} {p : NamedProduct} (h : Names details p)
    {rest : List Char} (hrest : rest = [] ∨ rest.head? = some ' ') :
    (p.version ++ rest).takeWhile (· ≠ ' ') = p.version := by
  have hversion := h.version_ne_blank
  rw [List.takeWhile_append_of_pos (by simpa using hversion)]
  rcases hrest with rfl | hblank
  · rw [List.takeWhile_nil, List.append_nil]
  · obtain ⟨c, rest, rfl⟩ : ∃ c tail, rest = c :: tail := by
      rcases rest with _ | ⟨c, tail⟩
      · cases hblank
      · exact ⟨c, tail, rfl⟩
    obtain rfl := Option.some.inj hblank
    simp

/-- What the test says of a product. -/
def supported : Option NamedProduct → Bool
  | some p =>
    if p.minVersion = 0 then true
    else decide (p.minors = [] ∧ p.minVersion ≤ (decimalValue p.major : ℤ))
  | none => false

theorem name_ne_nil : ∀ b ∈ supportedBrowsers, b.1.toList ≠ [] := by decide +kernel

/-- Products that a text does not name are passed over. -/
theorem findSome?_of_not_named {browsers : List (String × ℤ)} {details : List Char}
    (hlisted : ∀ b ∈ browsers, b ∈ supportedBrowsers)
    (h : ∀ b ∈ browsers, ∀ pos, ¬ OccursAt b.1.toList details pos) :
    browsers.findSome? (fun browser =>
      (Occurrence.first browser.1.toList details).map (fun pos => (browser, pos))) = none := by
  rw [List.findSome?_eq_none_iff]
  intro b hb
  rw [Option.map_eq_none_iff, first_eq_none_iff (name_ne_nil b (hlisted b hb))]
  exact h b hb

/-- The loop over the table ends at the product that a text names, in front of its version. -/
theorem Names.findSome?_eq {details : List Char} {p : NamedProduct} (h : Names details p) :
    ∃ pos, supportedBrowsers.findSome? (fun browser =>
        (Occurrence.first browser.1.toList details).map (fun pos => (browser, pos))) =
          some (p.browser, pos) ∧
      (details.drop (pos + p.browser.1.toList.length)).takeWhile (· ≠ ' ') = p.version := by
  obtain ⟨earlier, later, htable, hearlier⟩ := h.first
  obtain ⟨pos, rest, hdrop, hrest, hleft⟩ := h.written
  have hlisted : ∀ b ∈ earlier ++ p.browser :: later, b ∈ supportedBrowsers := by
    intro b hb
    rw [htable]
    exact hb
  have hfirst : Occurrence.first p.browser.1.toList details = some pos := by
    apply (first_eq_some_iff (name_ne_nil p.browser (hlisted _ (by simp)))).mpr
    refine ⟨?_, hleft⟩
    rw [OccursAt, hdrop, List.append_assoc]
    exact List.prefix_append _ _
  refine ⟨pos, ?_, ?_⟩
  · rw [htable, List.findSome?_append, findSome?_of_not_named
      (fun b hb => hlisted b (List.mem_append_left _ hb)) hearlier, Option.none_or,
      List.findSome?_cons]
    simp only [hfirst, Option.map_some]
  · rw [← List.drop_drop, hdrop, NamedProduct.name, List.append_assoc, List.drop_left]
    exact h.takeWhile_version hrest

theorem isSupportedUserAgent_eq {userAgent : String} {p : Option NamedProduct}
    (h : Reads userAgent p) : isSupportedUserAgent userAgent = supported p := by
  unfold isSupportedUserAgent
  rcases p with _ | p
  · -- no product of the table is found
    simp only [findSome?_of_not_named (fun b hb => hb) h]
    rfl
  · obtain ⟨pos, hsome, hversion⟩ := Names.findSome?_eq h
    simp only [hsome, hversion, versionIsSupported, lexicalCastInt_version h, supported]
    have hmin : p.browser.2 = p.minVersion := rfl
    rw [hmin]
    by_cases hdotted : p.minors = []
    · simp only [hdotted, if_true, true_and]
    · -- a dotted version is no number, and passes only where every version does
      simp only [hdotted, if_false, false_and, decide_false]

/-! ## The gate -/

namespace ClientHandler

variable {Regex : Type*} (config : WebParameters Regex) (r : Request) (e : Surroundings)

/-- What `procHTTPClientContent` does for a browser that it lets pass. -/
def afterBrowserTest (h : ClientHandler) : Outcome × ClientHandler :=
  if (config.redirections r.uri).isSome then (.answered .S_307_TEMPORARY_REDIRECT, h)
  else
    match sessionStart config r e h with
    | (none, h) => (.threw, h)
    | (some code, h) => if code ≠ .S_200_OK then (.answered code, h) else serve config r e h

theorem procHTTPClientContent_eq_gate (h : ClientHandler) :
    procHTTPClientContent config r e h =
      if isSupportedUserAgent r.userAgent = true then (.answered .S_426_UPGRADE_REQUIRED, h)
      else afterBrowserTest config r e h :=
  rfl

end ClientHandler

open ClientHandler

/-- Every request of a User-Agent is answered 426, or every one goes on. -/
def GatedAs (Regex : Type*) (userAgent : String) (upgrade : Bool) : Prop :=
  ∀ (config : WebParameters Regex) (r : Request) (e : Surroundings) (h : ClientHandler),
    r.userAgent = userAgent →
      procHTTPClientContent config r e h =
        if upgrade = true then (.answered .S_426_UPGRADE_REQUIRED, h)
        else afterBrowserTest config r e h

/-- A server that redirects everything. -/
def redirecting (Regex : Type*) : WebParameters Regex where
  documentRootPath := ""
  redirections := fun _ => some "/"
  regexMatch := fun _ _ => false

/-- Which of the two it is, the test decides. -/
theorem gatedAs_iff (Regex : Type*) (userAgent : String) (upgrade : Bool) :
    GatedAs Regex userAgent upgrade ↔ isSupportedUserAgent userAgent = upgrade := by
  constructor
  · intro hgated
    -- behind the gate, this server answers 307
    have hanswer := hgated (redirecting Regex) { uri := "", userAgent := userAgent }
      sampleSurroundings (WebSessionsManager.newHandler {}) rfl
    rw [procHTTPClientContent_eq_gate] at hanswer
    have hredirect : ∀ e h, afterBrowserTest (redirecting Regex)
        { uri := "", userAgent := userAgent } e h = (.answered .S_307_TEMPORARY_REDIRECT, h) :=
      fun e h => rfl
    rw [hredirect] at hanswer
    rcases hsupported : isSupportedUserAgent userAgent with _ | _ <;> rcases upgrade with _ | _
    · rfl
    · simp [hsupported] at hanswer
    · simp [hsupported] at hanswer
    · rfl
  · rintro hsupported config r e h rfl
    rw [procHTTPClientContent_eq_gate, hsupported]

theorem minVersion_nonneg {details : List Char} {p : NamedProduct} (h : Names details p) :
    0 ≤ p.minVersion := by
  obtain ⟨earlier, later, htable, -⟩ := h.first
  have hall : ∀ b ∈ supportedBrowsers, (0 : ℤ) ≤ b.2 := by decide
  apply hall
  rw [htable]
  exact List.mem_append_right _ List.mem_cons_self

/-- **Browsers are gated as required** exactly if the product that the User-Agent names has a
minimum version, and is named with a dotted version that is not below it. -/
theorem gated_as_required_iff (Regex : Type*) {userAgent : String} {p : Option NamedProduct}
    (h : Reads userAgent p) :
    GatedAs Regex userAgent (upgradeRequired p) ↔
      ∃ q, p = some q ∧ 0 < q.minVersion ∧ q.minors ≠ [] ∧
        q.minVersion ≤ (decimalValue q.major : ℤ) := by
  rw [gatedAs_iff, isSupportedUserAgent_eq h]
  rcases p with _ | p
  · -- no product: 426 is required, and never given
    simp [supported, upgradeRequired]
  · have hnonneg := minVersion_nonneg h
    have hcondition : (∃ q, some p = some q ∧ 0 < q.minVersion ∧ q.minors ≠ [] ∧
        q.minVersion ≤ (decimalValue q.major : ℤ)) ↔
        0 < p.minVersion ∧ p.minors ≠ [] ∧ p.minVersion ≤ (decimalValue p.major : ℤ) := by
      simp
    rw [hcondition, supported, upgradeRequired]
    by_cases hzero : p.minVersion = 0
    · -- every version is answered 426
      rw [if_pos hzero]
      simp [hzero]
    · rw [if_neg hzero, decide_eq_decide]
      by_cases hdotted : p.minors = []
      · -- the test the wrong way round
        simp only [hdotted, true_and, ne_eq, not_true_eq_false, false_and, and_false, iff_false]
        omega
      · simp only [hdotted, false_and, ne_eq, not_false_eq_true, true_and, false_iff]
        omega

/-- A version of today, as it is written today, goes on. -/
theorem gated_as_required_iff_chrome :
    GatedAs String "Chrome/104.0.0.0 Safari/537.36" false := by
  have hreads : Reads "Chrome/104.0.0.0 Safari/537.36"
      (some ⟨("chrome/", 51), ['1', '0', '4'], [['0'], ['0'], ['0']]⟩) :=
    ⟨⟨[], _, rfl, fun b hb => absurd hb List.not_mem_nil⟩,
      ⟨0, " safari/537.36".toList, by decide +kernel, Or.inr rfl,
        fun pos' hpos' => absurd hpos' (by omega)⟩,
      by decide +kernel, by decide +kernel, by decide +kernel⟩
  exact (gated_as_required_iff String hreads).mpr
    ⟨_, rfl, by decide +kernel, by decide +kernel, by decide +kernel⟩

/-- An old version is let in, and a program that every version of is welcome is asked to upgrade. -/
theorem gate_inverted :
    let old : NamedProduct := ⟨("chrome/", 51), ['4', '0'], [['0']]⟩
    Reads "Chrome/40.0" (some old) ∧ ¬ GatedAs String "Chrome/40.0" (upgradeRequired (some old)) ∧
      ¬ GatedAs String "curl/8.5.0" false := by
  intro old
  rw [gatedAs_iff, gatedAs_iff]
  refine ⟨⟨⟨[], _, rfl, fun b hb => absurd hb List.not_mem_nil⟩,
    ⟨0, [], by decide, Or.inl rfl, fun pos' hpos' => absurd hpos' (by omega)⟩,
    by decide, by decide, by decide⟩, by decide, by decide⟩

end Mantids
