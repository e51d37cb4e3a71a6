/-
# A write to a parser ends and accounts for its bytes

`Parser::write` (`Memory/parser.cpp`) lets the current sub-parser take any part of what is
written, hands the rest on, and counts the rounds.  The sub-parsers are not trusted here: they
may take nothing, ask for the next one at any time, or refuse.

* `ParserClass.parseDataFrom` — `parseData` with the counter of the source;
* `ParserClass.recorded` — the same parser with a record of the calls its sub-parsers get;
* `Feeds` — every call is offered what the calls before it left;
* `write_ends_and_accounts` — the number of calls, the answer, and the fate of every byte.
-/
import Mantids.Parser

namespace Mantids

/-! ## The calls of a write -/

/-- A call of `writeIntoParser`: the bytes it was shown, and how many it took if it did not
refuse. -/
structure Offer where
  offered : List UInt8
  taken : Option ℕ
deriving DecidableEq

namespace Offer

/-- The bytes that are gone after the call. -/
def count (c : Offer) : ℕ := c.taken.getD 0

/-- The byte at a position of the buffer was shown to the call. -/
def Offers (buf : List UInt8) (c : Offer) (p : ℕ) : Prop :=
  buf.length - c.offered.length ≤ p ∧ p < buf.length

/-- The byte at a position of the buffer was taken by the call. -/
def Takes (buf : List UInt8) (c : Offer) (p : ℕ) : Prop :=
  buf.length - c.offered.length ≤ p ∧ p < buf.length - c.offered.length + c.count

end Offer

/-- The bytes that some calls took together. -/
def totalTaken (calls : List Offer) : ℕ := (calls.map Offer.count).sum

@[simp] theorem totalTaken_nil : totalTaken [] = 0 := rfl

@[simp] theorem totalTaken_cons (c : Offer) (calls : List Offer) :
    totalTaken (c :: calls) = c.count + totalTaken calls := by
  simp [totalTaken]

/-- Every call is offered what the calls before it left. -/
def Feeds : List UInt8 → List Offer → Prop
  | _, [] => True
  | buf, c :: calls => c.offered = buf ∧ c.count ≤ buf.length ∧ Feeds (buf.drop c.count) calls

theorem Feeds.suffix {buf : List UInt8} {calls : List Offer} (h : Feeds buf calls) :
    ∀ c ∈ calls, c.offered <:+ buf := by
  induction calls generalizing buf with
  | nil =>
      intro c hc
      cases hc
  | cons d calls ih =>
      obtain ⟨hd, -, hrest⟩ := h
      intro c hc
      rcases List.mem_cons.mp hc with rfl | hc
      · rw [hd]
      · exact (ih hrest c hc).trans (List.drop_suffix _ _)

/-- A byte that a call took is not shown to a later one. -/
theorem Feeds.once {whole buf : List UInt8} {calls : List Offer} (h : Feeds buf calls)
    (hbuf : buf.length ≤ whole.length) :
    calls.Pairwise (fun c d => ∀ p, c.Takes whole p → ¬ d.Offers whole p) := by
  induction calls generalizing buf with
  | nil => exact List.Pairwise.nil
  | cons c calls ih =>
      obtain ⟨hc, hle, hrest⟩ := h
      refine List.pairwise_cons.mpr ⟨fun d hd p htake hoffer => ?_,
        ih hrest (by rw [List.length_drop]; omega)⟩
      -- what is offered later is a suffix of what this call left
      have hlen := (hrest.suffix d hd).length_le
      rw [List.length_drop] at hlen
      obtain ⟨hfirst, hlast⟩ := htake
      obtain ⟨hlow, hhigh⟩ := hoffer
      rw [hc] at hfirst hlast
      omega

/-- No more is taken than there was. -/
theorem Feeds.totalTaken_le {buf : List UInt8} {calls : List Offer} (h : Feeds buf calls) :
    totalTaken calls ≤ buf.length := by
  induction calls generalizing buf with
  | nil => exact Nat.zero_le _
  | cons c calls ih =>
      obtain ⟨-, hle, hrest⟩ := h
      have htaken := ih hrest
      rw [List.length_drop] at htaken
      rw [totalTaken_cons]
      omega

theorem totalTaken_append (calls later : List Offer) :
    totalTaken (calls ++ later) = totalTaken calls + totalTaken later := by
  simp [totalTaken]

/-- The calls of a round are followed by those that are offered the rest. -/
theorem Feeds.append {buf : List UInt8} {calls later : List Offer} (h : Feeds buf calls)
    (hlater : Feeds (buf.drop (totalTaken calls)) later) : Feeds buf (calls ++ later) := by
  induction calls generalizing buf with
  | nil => exact hlater
  | cons c calls ih =>
      obtain ⟨hc, hle, hrest⟩ := h
      refine ⟨hc, hle, ih hrest ?_⟩
      rwa [List.drop_drop, ← totalTaken_cons]

namespace ParserClass

variable {π : Type*} (C : ParserClass π)

/-! ## The counter -/

/-- `parseData` with its counter, which has 64 bits; `none` if it has not ended after `fuel`
calls of itself. -/
def parseDataFrom : ℕ → π → List UInt8 → ℕ → Option (π × Option ℕ)
  | 0, _, _, _ => none
  | fuel + 1, s, buf, ttl =>
    if C.maxTTL < ttl then some (s, none)
    else
      match C.parseRound s buf with
      | (s, .failed) => some (s, none)
      | (s, .answer writtenBytes) => some (s, some writtenBytes)
      | (s, .left writtenBytes) =>
        (parseDataFrom fuel s (buf.drop writtenBytes) ((ttl + 1) % 2 ^ 64)).map
          (fun r => (r.1, r.2.map (· + writtenBytes)))

/-- A limit that the counter can exceed ends the recursion. -/
theorem parseDataFrom_eq (hmax : C.maxTTL < 2 ^ 64 - 1) {fuel ttl : ℕ} (s : π) (buf : List UInt8)
    (hle : ttl ≤ C.maxTTL + 1) (hfuel : C.maxTTL + 1 - ttl < fuel) :
    C.parseDataFrom fuel s buf ttl = some (C.parseData (C.maxTTL + 1 - ttl) s buf) := by
  induction fuel generalizing s buf ttl with
  | zero => omega
  | succ fuel ih =>
      unfold parseDataFrom
      by_cases hout : C.maxTTL < ttl
      · rw [if_pos hout, show C.maxTTL + 1 - ttl = 0 by omega]
        rfl
      · rw [if_neg hout]
        obtain ⟨rounds, hrounds⟩ : ∃ rounds, C.maxTTL + 1 - ttl = rounds + 1 :=
          ⟨C.maxTTL - ttl, by omega⟩
        rw [hrounds]
        rcases hround : C.parseRound s buf with ⟨s', _ | w | w⟩
        · rw [parseData_failed hround]
        · rw [parseData_answer hround]
        · simp only
          rw [parseData_left hround, Nat.mod_eq_of_lt (by omega), ih _ _ (by omega) (by omega),
            show C.maxTTL + 1 - (ttl + 1) = rounds by omega]
          rfl

/-! ## The record -/

/-- The same parser with a record of the calls of `writeIntoParser`. -/
def recorded : ParserClass (π × List Offer) where
  hasParser s := C.hasParser s.1
  writeIntoParser s buf :=
    (((C.writeIntoParser s.1 buf).1, s.2 ++ [⟨buf, (C.writeIntoParser s.1 buf).2.toOption⟩]),
      (C.writeIntoParser s.1 buf).2)
  parseStatus s := C.parseStatus s.1
  changeToNextParser s :=
    (((C.changeToNextParser s.1).1, s.2), (C.changeToNextParser s.1).2)
  maxTTL := C.maxTTL

/-- What a sub-parser takes is part of what it is offered. -/
def TakesOffered : Prop :=
  ∀ s buf n, (C.writeIntoParser s buf).2 = .bytes n → n ≤ buf.length

variable {C}

/-- The call of a round, if there is a sub-parser. -/
def roundCalls (C : ParserClass π) (s : π) (buf : List UInt8) : List Offer :=
  if C.hasParser s = true then [⟨buf, (C.writeIntoParser s buf).2.toOption⟩] else []

/-- A round of the recorded parser is the round of the parser, with its call. -/
theorem parseRound_recorded (s : π) (log : List Offer) (buf : List UInt8) :
    C.recorded.parseRound (s, log) buf =
      (((C.parseRound s buf).1, log ++ C.roundCalls s buf), (C.parseRound s buf).2) := by
  by_cases hparser : C.hasParser s = true
  · rw [roundCalls, if_pos hparser]
    rcases hwrite : C.writeIntoParser s buf with ⟨s', x⟩
    have hhas : C.recorded.hasParser (s, log) = true := hparser
    have hrecorded : C.recorded.writeIntoParser (s, log) buf =
        ((s', log ++ [⟨buf, x.toOption⟩]), x) := by
      simp only [recorded, hwrite]
    rcases hx : x.toOption with _ | n
    · -- a refusal, or an exception
      rw [parseRound_refused hparser hwrite hx,
        parseRound_refused (C := C.recorded) hhas hrecorded hx, hx]
    · obtain rfl : x = .bytes n := by
        rcases x with m | _ | _ <;> cases hx
        rfl
      rcases hstatus : C.parseStatus s' with _ | _ | _
      · rw [parseRound_error hparser hwrite hstatus,
          parseRound_error (C := C.recorded) hhas hrecorded hstatus, hx]
      · rw [parseRound_more hparser hwrite hstatus,
          parseRound_more (C := C.recorded) hhas hrecorded hstatus, hx]
      · rcases hchange : C.changeToNextParser s' with ⟨s'', changed⟩
        have hrecordedChange : ∀ l, C.recorded.changeToNextParser (s', l) =
            ((s'', l), changed) := by
          intro l
          simp only [recorded, hchange]
        rw [parseRound_next hparser hwrite hstatus hchange,
          parseRound_next (C := C.recorded) hhas hrecorded hstatus (hrecordedChange _), hx]
        rfl
  · rw [roundCalls, if_neg hparser, List.append_nil, parseRound, parseRound, if_neg hparser,
      if_neg (show ¬ C.recorded.hasParser (s, log) = true from hparser)]
    split <;> rfl

theorem length_roundCalls_le (s : π) (buf : List UInt8) : (C.roundCalls s buf).length ≤ 1 := by
  rw [roundCalls]
  split <;> simp

/-- The call of a round is offered the whole text. -/
theorem feeds_roundCalls (htakes : C.TakesOffered) (s : π) (buf : List UInt8) :
    Feeds buf (C.roundCalls s buf) := by
  rw [roundCalls]
  split
  · refine ⟨rfl, ?_, trivial⟩
    rcases hx : (C.writeIntoParser s buf).2 with n | _ | _
    · exact htakes s buf n hx
    · exact Nat.zero_le _
    · exact Nat.zero_le _
  · trivial

/-- What a round reports was taken in it, and is everything if it ends the write and there still is
a sub-parser. -/
theorem parseRound_accounts (s : π) (buf : List UInt8) :
    (∀ n, (C.parseRound s buf).2 = .answer n → totalTaken (C.roundCalls s buf) = n ∧
        (C.hasParser (C.parseRound s buf).1 = true → n = buf.length)) ∧
      ∀ n, (C.parseRound s buf).2 = .left n → totalTaken (C.roundCalls s buf) = n := by
  by_cases hparser : C.hasParser s = true
  · rw [roundCalls, if_pos hparser]
    rcases hwrite : C.writeIntoParser s buf with ⟨s', x⟩
    rcases hx : x.toOption with _ | n
    · rw [parseRound_refused hparser hwrite hx]
      exact ⟨by simp, by simp⟩
    · obtain rfl : x = .bytes n := by
        rcases x with m | _ | _ <;> cases hx
        rfl
      have htotal : totalTaken [⟨buf, (Written.bytes n).toOption⟩] = n := by
        simp [Offer.count, hx]
      rcases hstatus : C.parseStatus s' with _ | _ | _
      · rw [parseRound_error hparser hwrite hstatus]
        exact ⟨by simp, by simp⟩
      · -- more data is asked for
        rw [parseRound_more hparser hwrite hstatus]
        refine ⟨fun m hm => ?_, fun m hm => ?_⟩
        · split_ifs at hm with hall
          cases hm
          exact ⟨htotal, fun _ => hall⟩
        · split_ifs at hm
          cases hm
          exact htotal
      · -- the next sub-parser is asked for
        rcases hchange : C.changeToNextParser s' with ⟨s'', changed⟩
        rw [parseRound_next hparser hwrite hstatus hchange]
        refine ⟨fun m hm => ?_, fun m hm => ?_⟩
        · split_ifs at hm with hfailed hend
          cases hm
          refine ⟨htotal, fun hstill => hend.resolve_left ?_⟩
          rw [hstill]
          decide
        · split_ifs at hm
          cases hm
          exact htotal
  · have hround : C.parseRound s buf = (s, if buf.length = 0 then .answer 0 else .left 0) := by
      rw [parseRound, if_neg hparser]
      split <;> rfl
    rw [roundCalls, if_neg hparser, hround]
    refine ⟨fun m hm => ?_, fun m hm => ?_⟩
    · split_ifs at hm with hempty
      cases hm
      exact ⟨rfl, fun _ => hempty.symm⟩
    · split_ifs at hm
      cases hm
      rfl

/-- **Run lemma.**  By induction on the rounds that are left. -/
theorem parseData_recorded (htakes : C.TakesOffered) (ttl : ℕ) (s : π) (log : List Offer)
    (buf : List UInt8) :
    ∃ calls, C.recorded.parseData ttl (s, log) buf =
        (((C.parseData ttl s buf).1, log ++ calls), (C.parseData ttl s buf).2) ∧
      calls.length ≤ ttl ∧ Feeds buf calls ∧
      ∀ n, (C.parseData ttl s buf).2 = some n → totalTaken calls = n ∧
        (C.hasParser (C.parseData ttl s buf).1 = true → n = buf.length) := by
  induction ttl generalizing s log buf with
  | zero =>
      refine ⟨[], ?_, le_rfl, trivial, fun n hn => by cases hn⟩
      rw [List.append_nil]
      rfl
  | succ ttl ih =>
      have hrecorded := C.parseRound_recorded s log buf
      have hlen := C.length_roundCalls_le s buf
      have hfeeds := feeds_roundCalls htakes s buf
      obtain ⟨hanswer, hleft⟩ := C.parseRound_accounts s buf
      generalize C.roundCalls s buf = calls at hrecorded hlen hfeeds hanswer hleft
      rcases hround : C.parseRound s buf with ⟨s', _ | n | n⟩
      · rw [hround] at hrecorded
        rw [parseData_failed hround, parseData_failed hrecorded]
        exact ⟨calls, rfl, by omega, hfeeds, fun n hn => by cases hn⟩
      · rw [hround] at hrecorded hanswer
        rw [parseData_answer hround, parseData_answer hrecorded]
        refine ⟨calls, rfl, by omega, hfeeds, fun m hm => ?_⟩
        cases hm
        exact hanswer n rfl
      · rw [hround] at hrecorded hleft
        -- the rounds that are left are offered what this one did not take
        have htotal := hleft n rfl
        have hle := hfeeds.totalTaken_le
        obtain ⟨later, hrec, hlater, hfed, hend⟩ := ih s' (log ++ calls) (buf.drop n)
        rw [parseData_left hround, parseData_left hrecorded, hrec]
        refine ⟨calls ++ later, ?_, ?_, hfeeds.append (by rw [htotal]; exact hfed), ?_⟩
        · rw [List.append_assoc]
        · rw [List.length_append]
          omega
        · rintro m hm
          obtain ⟨x, hx, rfl⟩ := Option.map_eq_some_iff.mp hm
          obtain ⟨hsum, hall⟩ := hend x hx
          refine ⟨by rw [totalTaken_append]; omega, fun hparser => ?_⟩
          have hrest := hall hparser
          rw [List.length_drop] at hrest
          omega

/-- **A write ends and accounts for its bytes.**  Whatever the sub-parsers do with what they are
offered, a write returns after at most `m_maxTTL + 1` calls of them; no byte that one of them
took is offered again; and a count that is returned is what they took, which is everything
while there still is a sub-parser. -/
theorem write_ends_and_accounts (C : ParserClass π) (hmax : C.maxTTL < 2 ^ 64 - 1)
    (htakes : C.TakesOffered) (s : π) (buf : List UInt8) :
    ∃ s' calls r,
      (∀ fuel, C.maxTTL + 1 < fuel →
        C.recorded.parseDataFrom fuel (s, []) buf 0 = some ((s', calls), r)) ∧
      C.write s buf = (s', r) ∧
      calls.length ≤ C.maxTTL + 1 ∧
      (∀ c ∈ calls, c.offered <:+ buf) ∧
      calls.Pairwise (fun c d => ∀ p, c.Takes buf p → ¬ d.Offers buf p) ∧
      ∀ n, r = some n → n = totalTaken calls ∧ (C.hasParser s' = true → n = buf.length) := by
  obtain ⟨calls, hrun, hlen, hfeeds, hend⟩ :=
    parseData_recorded htakes (C.maxTTL + 1) s [] buf
  rw [List.nil_append] at hrun
  refine ⟨(C.write s buf).1, calls, (C.write s buf).2, fun fuel hfuel => ?_, rfl, hlen,
    hfeeds.suffix, hfeeds.once le_rfl, fun n hn => ?_⟩
  · have hfrom := C.recorded.parseDataFrom_eq hmax (s, []) buf (Nat.zero_le _)
      (show C.recorded.maxTTL + 1 - 0 < fuel from hfuel)
    rw [hfrom]
    exact congrArg some hrun
  · obtain ⟨htotal, hall⟩ := hend n hn
    exact ⟨htotal.symm, hall⟩

/-- A parser with two sub-parsers, the first of which takes one byte and the second everything. -/
def firstByteThenRest : ParserClass ℕ where
  hasParser s := s < 2
  writeIntoParser s buf := (s, .bytes (if s = 0 then min 1 buf.length else buf.length))
  parseStatus s := if s = 0 then .gotoNextSubparser else .getMoreData
  changeToNextParser s := (s + 1, true)

theorem write_ends_and_accounts_two :
    firstByteThenRest.TakesOffered ∧ firstByteThenRest.write 0 [1, 2, 3] = (1, some 3) ∧
      ∃ calls, (∀ fuel, 4097 < fuel →
          firstByteThenRest.recorded.parseDataFrom fuel (0, []) [1, 2, 3] 0 =
            some ((1, calls), some 3)) ∧ calls.length ≤ 4097 := by
  have htakes : firstByteThenRest.TakesOffered := by
    intro s buf n hn
    simp only [firstByteThenRest, Written.bytes.injEq] at hn
    subst hn
    split
    · exact Nat.min_le_right _ _
    · exact le_rfl
  have hwrite : firstByteThenRest.write 0 [1, 2, 3] = (1, some 3) := rfl
  obtain ⟨s', calls, r, hfrom, heq, hlen, -⟩ :=
    write_ends_and_accounts firstByteThenRest (by decide) htakes 0 [1, 2, 3]
  rw [hwrite] at heq
  cases heq
  exact ⟨htakes, hwrite, calls, hfrom, hlen⟩

end ParserClass

end Mantids
