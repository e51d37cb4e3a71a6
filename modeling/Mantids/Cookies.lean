/-
# The cookies of a client

A client sends its cookies in one `Cookie` header (`Protocol_HTTP/req_cookies.cpp`), which the
server reads.

* `CookiesClientSide` — the cookies, in the order of their names;
* `toText`, `parseFromHeaders` — the header that is written, and how it is read;
* `cookies_roundTrip_iff` — the cookies come back if there is no more than one.

The separator stands in front of the first cookie, and nowhere else.
-/
import Mantids.Lib.Cut
import Mantids.Texts

namespace Mantids

/-! ## The map -/

/-- `std::map::operator[]` with an assignment, on the entries in their order. -/
def assign {α : Type*} (k : List UInt8) (v : α) : List (List UInt8 × α) → List (List UInt8 × α)
  | [] => [(k, v)]
  | e :: m =>
    if k < e.1 then (k, v) :: e :: m
    else if k = e.1 then (k, v) :: m
    else e :: assign k v m

theorem mem_assign {α : Type*} {k : List UInt8} {v : α} {m : List (List UInt8 × α)}
    {e : List UInt8 × α} (he : e ∈ assign k v m) : e = (k, v) ∨ e ∈ m := by
  induction m with
  | nil => exact Or.inl (List.mem_singleton.mp he)
  | cons e' m ih =>
      unfold assign at he
      split_ifs at he
      · rcases List.mem_cons.mp he with rfl | he
        · exact Or.inl rfl
        · exact Or.inr he
      · rcases List.mem_cons.mp he with rfl | he
        · exact Or.inl rfl
        · exact Or.inr (List.mem_cons_of_mem _ he)
      · rcases List.mem_cons.mp he with rfl | he
        · exact Or.inr List.mem_cons_self
        · exact (ih he).imp id (List.mem_cons_of_mem _)

/-- The keys stay in their order, each of them once. -/
theorem pairwise_assign {α : Type*} {m : List (List UInt8 × α)}
    (hm : m.Pairwise fun a b => a.1 < b.1) (k : List UInt8) (v : α) :
    (assign k v m).Pairwise fun a b => a.1 < b.1 := by
  induction m with
  | nil => exact List.pairwise_singleton _ _
  | cons e m ih =>
      obtain ⟨hfirst, hrest⟩ := List.pairwise_cons.mp hm
      unfold assign
      split_ifs with hlt heq
      · refine List.pairwise_cons.mpr ⟨fun e' he' => ?_, hm⟩
        rcases List.mem_cons.mp he' with rfl | he'
        · exact hlt
        · exact List.lt_trans hlt (hfirst e' he')
      · subst heq
        exact List.pairwise_cons.mpr ⟨hfirst, hrest⟩
      · refine List.pairwise_cons.mpr ⟨fun e' he' => ?_, ih hrest⟩
        rcases mem_assign he' with rfl | he'
        · exact Std.lt_of_le_of_ne (List.not_lt.mp hlt) (Ne.symm heq)
        · exact hfirst e' he'

/-- `Cookies_ClientSide`. -/
@[ext] structure CookiesClientSide where
  /-- `m_cookiesMap`, in the order of its iteration. -/
  cookiesMap : List (List UInt8 × List UInt8) := []
  sorted : cookiesMap.Pairwise fun a b => a.1 < b.1 := by exact List.Pairwise.nil

namespace CookiesClientSide

def addCookieVal (c : CookiesClientSide) (cookieName cookieValue : List UInt8) :
    CookiesClientSide :=
  ⟨assign cookieName cookieValue c.cookiesMap, pairwise_assign c.sorted _ _⟩

/-- The loop of `toString` over the map. -/
def toTextLoop : Bool → List (List UInt8 × List UInt8) → List UInt8
  | _, [] => []
  | first, i :: m =>
    -- the separator stands in front of the first cookie, and of no other
    (if first then bytesOf "; " else []) ++ i.1 ++ bytesOf "=" ++ i.2 ++ toTextLoop false m

/-- `toString`. -/
def toText (c : CookiesClientSide) : List UInt8 := toTextLoop true c.cookiesMap

/-- `parseCookie`.  The value is read as a C string. -/
def parseCookie (c : CookiesClientSide) (cookie : List UInt8) : CookiesClientSide :=
  if 61 ∈ cookie then
    let cookieValue := ((cookie.dropWhile (· ≠ 61)).drop 1).takeWhile (· ≠ 0)
    c.addCookieVal (trimBytes (cookie.takeWhile (· ≠ 61))) (trimBytes cookieValue)
  else c

def parseFromHeaders (c : CookiesClientSide) (cookies_str : List UInt8) : CookiesClientSide :=
  (splitCompress (· = 59) cookies_str).foldl parseCookie c

/-! ### Writing and reading -/

theorem toText_eq (c : CookiesClientSide) :
    c.toText = (if c.cookiesMap = [] then [] else bytesOf "; ") ++
      c.cookiesMap.flatMap fun i => i.1 ++ bytesOf "=" ++ i.2 := by
  have hloop : ∀ m : List (List UInt8 × List UInt8),
      toTextLoop false m = m.flatMap fun i => i.1 ++ bytesOf "=" ++ i.2 := by
    intro m
    induction m with
    | nil => rfl
    | cons i m ih => simp [toTextLoop, ih]
  rw [toText]
  rcases c.cookiesMap with _ | ⟨i, m⟩
  · rfl
  · simp [toTextLoop, hloop]

/-- A client of the HTTP protocol sends this text. -/
theorem cookiesText_eq (client : HTTPv1Client) (c : CookiesClientSide)
    (h : client.clientCookies = c.cookiesMap) : client.cookiesText = c.toText := by
  rw [toText_eq, HTTPv1Client.cookiesText, h]
  rfl

/-- The names and the values can be told apart. -/
def Plain (c : CookiesClientSide) : Prop :=
  ∀ i ∈ c.cookiesMap, (i.1 ≠ [] ∧ 59 ∉ i.1 ∧ 61 ∉ i.1 ∧ Trimmed i.1) ∧
    59 ∉ i.2 ∧ 0 ∉ i.2 ∧ Trimmed i.2

/-- Each cookie that is read leaves at most one more. -/
theorem length_parseCookie_le (c : CookiesClientSide) (cookie : List UInt8) :
    (c.parseCookie cookie).cookiesMap.length ≤ c.cookiesMap.length + 1 := by
  have hassign : ∀ (k v : List UInt8) (m : List (List UInt8 × List UInt8)),
      (assign k v m).length ≤ m.length + 1 := by
    intro k v m
    induction m with
    | nil => exact le_rfl
    | cons e m ih =>
        unfold assign
        split_ifs <;> simp only [List.length_cons] <;> omega
  unfold parseCookie
  split
  · exact hassign _ _ _
  · exact Nat.le_succ _

/-- A text without an equals sign is no cookie. -/
theorem parseCookie_of_not_mem {cookie : List UInt8} (h : 61 ∉ cookie) (c : CookiesClientSide) :
    c.parseCookie cookie = c := if_neg h

/-- What is behind the separator in front of the first cookie is read as one. -/
theorem parseFromHeaders_separator {text : List UInt8} (htext : 59 ∉ text)
    (c : CookiesClientSide) :
    c.parseFromHeaders (bytesOf "; " ++ text) = c.parseCookie (32 :: text) := by
  have hjoin : bytesOf "; " ++ text =
      [] ++ joined [((59 : UInt8), 32 :: text)] := by
    simp [joined, show bytesOf "; " = [59, 32] by decide]
  have hsplit : splitCompress (· = 59) (bytesOf "; " ++ text) = [[], 32 :: text] := by
    rw [hjoin, splitCompress_join (by simp) (by
      intro u hu
      rw [List.mem_singleton.mp hu]
      refine ⟨rfl, fun x hx => ?_⟩
      rcases List.mem_cons.mp hx with rfl | hx
      · rfl
      · exact decide_eq_false fun heq => htext (heq ▸ hx)) (by simp)]
    simp
  rw [parseFromHeaders, hsplit, List.foldl_cons, parseCookie_of_not_mem (by simp)]
  rfl

/-- A cookie that is read alone. -/
theorem parseCookie_plain {name value : List UInt8} (hname : 61 ∉ name ∧ Trimmed name)
    (hvalue : 0 ∉ value ∧ Trimmed value) :
    (({} : CookiesClientSide).parseCookie (32 :: (name ++ bytesOf "=" ++ value))).cookiesMap =
      [(name, value)] := by
  have heq : bytesOf "=" = [61] := by decide
  have hfree : 61 ∉ 32 :: name := List.not_mem_cons_of_ne_of_not_mem (by decide) hname.1
  have hshape : 32 :: (name ++ bytesOf "=" ++ value) = (32 :: name) ++ 61 :: value := by
    simp [heq]
  have hend : value.takeWhile (· ≠ 0) = value := Cut.takeWhile_ne_eq_self_iff.mpr hvalue.1
  rw [hshape, parseCookie, if_pos (by simp)]
  dsimp only
  rw [Cut.takeWhile_ne_append hfree, Cut.drop_dropWhile_ne_append hfree, hend,
    trimBytes_cons (by decide), hname.2, hvalue.2]
  rfl

/-- **The `Cookie` header.**  The cookies come back exactly if there is at most one. -/
theorem cookies_roundTrip_iff (c : CookiesClientSide) (h : c.Plain) :
    ({} : CookiesClientSide).parseFromHeaders c.toText = c ↔ c.cookiesMap.length ≤ 1 := by
  have hplain : 59 ∉ c.cookiesMap.flatMap fun i => i.1 ++ bytesOf "=" ++ i.2 := by
    rw [List.mem_flatMap]
    rintro ⟨i, hi, hmem⟩
    obtain ⟨⟨-, hname, -⟩, hvalue, -⟩ := h i hi
    simp only [List.mem_append, hname, hvalue, or_false, false_or] at hmem
    exact absurd hmem (by decide)
  by_cases hnil : c.cookiesMap = []
  · -- nothing is written and nothing read
    obtain rfl : c = {} := CookiesClientSide.ext hnil
    exact iff_of_true rfl (Nat.zero_le 1)
  rw [toText_eq, if_neg hnil, parseFromHeaders_separator hplain]
  constructor
  · intro heq
    rw [← heq]
    exact length_parseCookie_le {} _
  · intro hone
    obtain ⟨i, hi⟩ : ∃ i, c.cookiesMap = [i] := by
      apply List.length_eq_one_iff.mp
      have := List.length_pos_iff.mpr hnil
      omega
    obtain ⟨⟨-, -, hequals, hname⟩, -, hzero, hvalue⟩ := h i (by rw [hi]; exact List.mem_cons_self)
    apply CookiesClientSide.ext
    rw [hi, List.flatMap_singleton]
    exact parseCookie_plain ⟨hequals, hname⟩ ⟨hzero, hvalue⟩

/-- A client with one cookie. -/
theorem cookies_roundTrip_one :
    (⟨[(bytesOf "a", bytesOf "1")], List.pairwise_singleton _ _⟩ : CookiesClientSide).Plain ∧
      ({} : CookiesClientSide).parseFromHeaders
        (⟨[(bytesOf "a", bytesOf "1")], List.pairwise_singleton _ _⟩ : CookiesClientSide).toText =
          ⟨[(bytesOf "a", bytesOf "1")], List.pairwise_singleton _ _⟩ := by
  have hplain : (⟨[(bytesOf "a", bytesOf "1")], List.pairwise_singleton _ _⟩ :
      CookiesClientSide).Plain := by
    intro i hi
    rw [List.mem_singleton.mp hi]
    decide
  exact ⟨hplain, (cookies_roundTrip_iff _ hplain).mpr le_rfl⟩

/-- A client with two: the second is read as a part of the value of the first. -/
def twoCookies : CookiesClientSide :=
  ⟨[(bytesOf "a", bytesOf "1"), (bytesOf "b", bytesOf "2")], by decide⟩

theorem not_cookies_roundTrip :
    twoCookies.Plain ∧
      (({} : CookiesClientSide).parseFromHeaders twoCookies.toText).cookiesMap =
        [(bytesOf "a", bytesOf "1b=2")] ∧
      ({} : CookiesClientSide).parseFromHeaders twoCookies.toText ≠ twoCookies := by
  have hread : (({} : CookiesClientSide).parseFromHeaders twoCookies.toText).cookiesMap =
      [(bytesOf "a", bytesOf "1b=2")] := by decide
  refine ⟨?_, hread, ?_⟩
  · have hall : ∀ i ∈ twoCookies.cookiesMap, (i.1 ≠ [] ∧ 59 ∉ i.1 ∧ 61 ∉ i.1 ∧ Trimmed i.1) ∧
        59 ∉ i.2 ∧ 0 ∉ i.2 ∧ Trimmed i.2 := by decide
    exact hall
  · intro heq
    have hlength := congrArg (fun c : CookiesClientSide => c.cookiesMap.length) heq
    simp only [hread] at hlength
    exact absurd hlength (by decide)

end CookiesClientSide

end Mantids
