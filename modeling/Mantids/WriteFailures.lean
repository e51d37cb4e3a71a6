/-
# What a failed write leaves in the status

Everything that is written to a `StreamableObject` (`Memory/streamableobject.cpp`) goes through its
`write`.  Where that fails, `writeFullStream` and `writeEOF` record it with `succeed += -1`; the
flag is a `bool`, so that it is turned over.  `write` has put it down already, and so it is up
again.

* `StreamableObject` — an object with its `write`, which reports a failure in the status;
* `writeFullStream`, `writeEOF`, `writeFullStreamWithEOF`, `strPrintf` — what is written through it;
* `Writes`, `Call`, `step` — an object, whether one of the calls has failed, and the calls;
* `Sticky` — once a call has failed, the flag is down;
* `Keeps` — the calls after which this is still so;
* `sticky_iff` — it is so in all of a run exactly if each of its calls is such a call.
-/
import Mantids.AppendTo
import Mantids.Lib.Run
import Mathlib.Logic.Relation

namespace Mantids

open Relation

/-- A failure is added to a status that has neither failed nor is finished. -/
theorem WriteStatus.add_neg (s : WriteStatus) :
    s.add (-1) =
      if s.succeed = false ∨ s.finish = true then none
      else some { s with succeed := false, finish := false, writeError := -1 } :=
  rfl

/-- What one `write` does: it throws, refuses the data, or returns a count. -/
inductive WriteResult where
  | threw
  | refused
  | wrote (n : ℕ)
deriving DecidableEq

/-- A `StreamableObject` over the states of its class. -/
structure StreamableObject where
  State : Type
  write : State → List UInt8 → State × WriteResult
  writeStatus : State → WriteStatus
  setWriteStatus : State → WriteStatus → State
  writeStatus_set : ∀ s w, writeStatus (setWriteStatus s w) = w
  /-- A refusal is reported in the status. -/
  reports : ∀ {s buf s'}, write s buf = (s', .refused) → (writeStatus s').succeed = false

namespace StreamableObject

variable (O : StreamableObject)

def succeed (s : O.State) : Bool := (O.writeStatus s).succeed

/-- `writeStatus.succeed += -1`, on a `bool`. -/
def turnOver (s : O.State) : O.State :=
  O.setWriteStatus s { O.writeStatus s with succeed := !O.succeed s }

@[simp] theorem succeed_turnOver (s : O.State) : O.succeed (O.turnOver s) = !O.succeed s := by
  rw [succeed, turnOver, O.writeStatus_set]

/-- The loop of `writeFullStream`.  The first `none` is a call that has not returned yet, the second
one a call that throws. -/
def writeFullStreamLoop (buf : List UInt8) :
    ℕ → O.State → ℕ → Option (O.State × Option Bool)
  | 0, _, _ => none
  | fuel + 1, s, writtenBytes =>
    if buf.length ≤ writtenBytes then some (s, some true)
    else
      match O.write s (buf.drop writtenBytes) with
      | (s, .threw) => some (s, none)
      | (s, .refused) => some (O.turnOver s, some false)
      | (s, .wrote cur) =>
        if O.succeed s = false then some (O.turnOver s, some false)
        else writeFullStreamLoop buf fuel s ((writtenBytes + cur) % 2 ^ 64)

def writeFullStream (fuel : ℕ) (s : O.State) (buf : List UInt8) :
    Option (O.State × Option Bool) :=
  O.writeFullStreamLoop buf fuel s 0

def writeString (fuel : ℕ) (s : O.State) (buf : List UInt8) : Option (O.State × Option Bool) :=
  O.writeFullStream fuel s buf

def writeEOF (s : O.State) : O.State × Option Bool :=
  match O.write s [] with
  | (s, .threw) => (s, none)
  | (s, .refused) => (O.turnOver s, some false)
  | (s, .wrote _) => (s, some true)

/-- `writeFullStreamWithEOF`, where a refused end of the stream turns the flag over twice. -/
def writeFullStreamWithEOF (fuel : ℕ) (s : O.State) (buf : List UInt8) :
    Option (O.State × Option Bool) :=
  match O.writeFullStream fuel s buf with
  | some (s, some true) =>
    match O.writeEOF s with
    | (s, some false) => some (O.turnOver s, some false)
    | r => some r
  | r => r

/-- `strPrintf`, given what `vasprintf` makes of its arguments.  It returns what `writeString` does,
as a number. -/
def strPrintf (fuel : ℕ) (s : O.State) (var : Option (List UInt8)) :
    Option (O.State × Option ℕ) :=
  match var with
  | some var =>
    (O.writeString fuel s (var.takeWhile (· ≠ 0))).map fun r => (r.1, r.2.map Bool.toNat)
  | none =>
    match (O.writeStatus s).add (-1) with
    | none => some (s, none)
    | some w => some (O.setWriteStatus s w, some 0)

/-! ## Calls -/

/-- What is called on the object. -/
inductive Call where
  | writeFullStream (buf : List UInt8)
  | writeString (buf : List UInt8)
  | writeEOF
  | writeFullStreamWithEOF (buf : List UInt8)
  | strPrintf (var : Option (List UInt8))
  /-- `writeStatus.reset`. -/
  | reset
deriving DecidableEq

/-- An object, and whether a call has failed since the last reset. -/
structure Writes where
  object : O.State
  failed : Bool := false

/-- The effect of a call, with what it returns as a number; `none` if it throws. -/
def call (fuel : ℕ) (s : O.State) : Call → Option (O.State × Option ℕ)
  | .writeFullStream buf => (O.writeFullStream fuel s buf).map fun r => (r.1, r.2.map Bool.toNat)
  | .writeString buf => (O.writeString fuel s buf).map fun r => (r.1, r.2.map Bool.toNat)
  | .writeEOF => some ((O.writeEOF s).1, (O.writeEOF s).2.map Bool.toNat)
  | .writeFullStreamWithEOF buf =>
    (O.writeFullStreamWithEOF fuel s buf).map fun r => (r.1, r.2.map Bool.toNat)
  | .strPrintf var => O.strPrintf fuel s var
  | .reset => some (O.setWriteStatus s {}, some 1)

/-- One call.  It has failed if it throws or returns `false` or zero. -/
def step (fuel : ℕ) (w : O.Writes) (c : Call) : Option (O.Writes × Option ℕ) :=
  (O.call fuel w.object c).map fun r =>
    (⟨r.1, if c = .reset then false else w.failed || r.2.getD 0 == 0⟩, r.2)

/-- Once a call has failed, the flag is down. -/
def Sticky (w : O.Writes) : Prop := w.failed = true → O.succeed w.object = false

/-! ## The calls that keep it -/

/-- A `write` of the loop that takes some data and leaves the flag up. -/
def Takes (buf : List UInt8) (before after : O.State × ℕ) : Prop :=
  before.2 < buf.length ∧
    ∃ cur, O.write before.1 (buf.drop before.2) = (after.1, .wrote cur) ∧
      O.succeed after.1 = true ∧ after.2 = (before.2 + cur) % 2 ^ 64

/-- All the data is taken. -/
def TakesAll (buf : List UInt8) (s s' : O.State) : Prop :=
  ∃ n, ReflTransGen (O.Takes buf) (s, 0) (s', n) ∧ buf.length ≤ n

/-- Some of the data may be taken; then a `write` throws, and the flag is down. -/
def Stops (buf : List UInt8) (s : O.State) : Prop :=
  ∃ s₁ n s', ReflTransGen (O.Takes buf) (s, 0) (s₁, n) ∧ n < buf.length ∧
    O.write s₁ (buf.drop n) = (s', .threw) ∧ O.succeed s' = false

/-- The data is all taken, but none if a call has failed before; or the object stops. -/
def DataKeeps (w : O.Writes) (buf : List UInt8) : Prop :=
  O.Stops buf w.object ∨ (∃ s', O.TakesAll buf w.object s') ∧ (w.failed = true → buf = [])

/-- The end of the stream is taken, or the object throws; the flag is down where it has to be.  The
third case is a refusal. -/
def EndKeeps (failed : Bool) (refusal : Prop) (s : O.State) : Prop :=
  match O.write s [] with
  | (s', .threw) => O.succeed s' = false
  | (s', .wrote _) => failed = true → O.succeed s' = false
  | (_, .refused) => refusal

/-- The calls that keep it. -/
def Keeps (w : O.Writes) : Call → Prop
  | .writeFullStream buf => O.DataKeeps w buf
  | .writeString buf => O.DataKeeps w buf
  | .writeEOF => O.EndKeeps w.failed False w.object
  | .writeFullStreamWithEOF buf =>
    O.Stops buf w.object ∨ ∃ s', O.TakesAll buf w.object s' ∧ O.EndKeeps w.failed True s'
  | .strPrintf (some var) => O.DataKeeps w (var.takeWhile (· ≠ 0))
  | .strPrintf none => O.succeed w.object = false ∨ (O.writeStatus w.object).finish = false
  | .reset => True

variable {O} {buf : List UInt8} {fuel n : ℕ} {s s' : O.State} {r : Option Bool}

/-! ### The loop -/

/-- The loop goes on behind the data that has been taken. -/
theorem loop_of_takes {before after : O.State × ℕ} (hg : ReflTransGen (O.Takes buf) before after)
    (h : O.writeFullStreamLoop buf fuel before.1 before.2 = some (s', r)) :
    ∃ fuel', O.writeFullStreamLoop buf fuel' after.1 after.2 = some (s', r) := by
  induction hg using ReflTransGen.head_induction_on generalizing fuel with
  | refl => exact ⟨fuel, h⟩
  | head hstep _ ih =>
      obtain ⟨hlt, cur, hwrite, hup, hnext⟩ := hstep
      cases fuel with
      | zero => cases h
      | succ fuel =>
          unfold writeFullStreamLoop at h
          rw [if_neg (by omega), hwrite] at h
          dsimp only at h
          rw [hup, if_neg (by simp), ← hnext] at h
          exact ih h

/-- The three ends of the loop: all is taken, a `write` throws, or the flag is turned over, and is
up again. -/
theorem loop_cases (h : O.writeFullStreamLoop buf fuel s n = some (s', r)) :
    (r = some true ∧ ∃ m, ReflTransGen (O.Takes buf) (s, n) (s', m) ∧ buf.length ≤ m) ∨
      (r = none ∧ ∃ s₁ m, ReflTransGen (O.Takes buf) (s, n) (s₁, m) ∧ m < buf.length ∧
        O.write s₁ (buf.drop m) = (s', .threw)) ∨
      r = some false ∧ O.succeed s' = true := by
  induction fuel generalizing s n with
  | zero => cases h
  | succ fuel ih =>
      unfold writeFullStreamLoop at h
      by_cases hdone : buf.length ≤ n
      · rw [if_pos hdone] at h
        obtain ⟨rfl, rfl⟩ := Prod.mk.inj (Option.some.inj h)
        exact Or.inl ⟨rfl, n, .refl, hdone⟩
      · rw [if_neg hdone] at h
        rcases hwrite : O.write s (buf.drop n) with ⟨s₁, _ | _ | cur⟩ <;> rw [hwrite] at h <;>
          dsimp only at h
        · obtain ⟨rfl, rfl⟩ := Prod.mk.inj (Option.some.inj h)
          exact Or.inr (Or.inl ⟨rfl, s, n, .refl, by omega, hwrite⟩)
        · obtain ⟨rfl, rfl⟩ := Prod.mk.inj (Option.some.inj h)
          have hdown : O.succeed s₁ = false := O.reports hwrite
          exact Or.inr (Or.inr ⟨rfl, by rw [succeed_turnOver, hdown]; rfl⟩)
        · by_cases hdown : O.succeed s₁ = false
          · rw [if_pos hdown] at h
            obtain ⟨rfl, rfl⟩ := Prod.mk.inj (Option.some.inj h)
            exact Or.inr (Or.inr ⟨rfl, by rw [succeed_turnOver, hdown]; rfl⟩)
          · rw [if_neg hdown] at h
            have hfirst : O.Takes buf (s, n) (s₁, (n + cur) % 2 ^ 64) :=
              ⟨by omega, cur, hwrite, by simpa using hdown, rfl⟩
            rcases ih h with ⟨hr, m, hg, hm⟩ | ⟨hr, s₂, m, hg, hm⟩ | hturned
            · exact Or.inl ⟨hr, m, .head hfirst hg, hm⟩
            · exact Or.inr (Or.inl ⟨hr, s₂, m, .head hfirst hg, hm⟩)
            · exact Or.inr (Or.inr hturned)

/-- If all the data is taken, the loop returns `true`. -/
theorem TakesAll.loop_eq {s₁ : O.State} (ht : O.TakesAll buf s s₁)
    (h : O.writeFullStream fuel s buf = some (s', r)) : s' = s₁ ∧ r = some true := by
  obtain ⟨n, hg, hn⟩ := ht
  obtain ⟨fuel', h'⟩ := loop_of_takes hg h
  cases fuel' with
  | zero => cases h'
  | succ fuel' =>
      unfold writeFullStreamLoop at h'
      rw [if_pos hn] at h'
      obtain ⟨rfl, rfl⟩ := Prod.mk.inj (Option.some.inj h')
      exact ⟨rfl, rfl⟩

/-- If the object stops, the call throws, and the flag is down. -/
theorem Stops.loop_eq (ht : O.Stops buf s) (h : O.writeFullStream fuel s buf = some (s', r)) :
    r = none ∧ O.succeed s' = false := by
  obtain ⟨s₁, n, s₂, hg, hn, hwrite, hdown⟩ := ht
  obtain ⟨fuel', h'⟩ := loop_of_takes hg h
  cases fuel' with
  | zero => cases h'
  | succ fuel' =>
      unfold writeFullStreamLoop at h'
      rw [if_neg (by omega), hwrite] at h'
      obtain ⟨rfl, rfl⟩ := Prod.mk.inj (Option.some.inj h')
      exact ⟨rfl, hdown⟩

/-- Data that has been taken leaves the flag up. -/
theorem TakesAll.eq_nil_or (ht : O.TakesAll buf s s') :
    (buf = [] ∧ s' = s) ∨ O.succeed s' = true := by
  obtain ⟨n, hg, hn⟩ := ht
  rcases ReflTransGen.cases_tail hg with heq | ⟨_, _, hlast⟩
  · obtain ⟨rfl, rfl⟩ := Prod.mk.inj heq
    exact Or.inl ⟨List.length_eq_zero_iff.mp (Nat.le_zero.mp hn), rfl⟩
  · exact Or.inr hlast.2.choose_spec.2.1

/-! ### The calls -/

/-- The flag is down if a call has failed, this one or one before. -/
def Recorded (O : StreamableObject) (failed : Bool) (s : O.State) (r : Option Bool) : Prop :=
  failed = true ∨ r ≠ some true → O.succeed s = false

/-- What a call returns as a number tells whether it has failed. -/
theorem recorded_iff (failed : Bool) (s : O.State) (r : Option Bool) :
    O.Recorded failed s r ↔
      (failed = true ∨ (r.map Bool.toNat).getD 0 = 0 → O.succeed s = false) := by
  rcases r with _ | _ | _ <;> simp [Recorded]

theorem recorded_data_iff {w : O.Writes} (hw : O.Sticky w)
    (h : O.writeFullStream fuel w.object buf = some (s', r)) :
    O.Recorded w.failed s' r ↔ O.DataKeeps w buf := by
  constructor
  · intro hrec
    rcases loop_cases h with ⟨rfl, m, hg, hm⟩ | ⟨rfl, s₁, m, hg, hm, hwrite⟩ | ⟨rfl, hup⟩
    · have ht : O.TakesAll buf w.object s' := ⟨m, hg, hm⟩
      refine Or.inr ⟨⟨s', ht⟩, fun hfailed => ?_⟩
      rcases ht.eq_nil_or with ⟨hnil, -⟩ | hup
      · exact hnil
      · rw [hrec (Or.inl hfailed)] at hup
        cases hup
    · exact Or.inl ⟨s₁, m, s', hg, hm, hwrite, hrec (Or.inr (by simp))⟩
    · rw [hrec (Or.inr (by simp))] at hup
      cases hup
  · rintro (hstops | ⟨⟨s₁, ht⟩, hnone⟩) hfailed
    · exact (hstops.loop_eq h).2
    · obtain ⟨rfl, rfl⟩ := ht.loop_eq h
      have hbefore : w.failed = true := hfailed.resolve_right (fun hr => hr rfl)
      obtain rfl := hnone hbefore
      obtain ⟨n, hg, -⟩ := ht
      -- no write takes anything of no data
      rcases ReflTransGen.cases_tail hg with heq | ⟨_, _, hlast⟩
      · obtain ⟨rfl, -⟩ := Prod.mk.inj heq
        exact hw hbefore
      · exact absurd hlast.1 (Nat.not_lt_zero _)

theorem recorded_writeEOF_iff (failed : Bool) (s : O.State) :
    O.Recorded failed (O.writeEOF s).1 (O.writeEOF s).2 ↔ O.EndKeeps failed False s := by
  unfold Recorded EndKeeps writeEOF
  rcases hwrite : O.write s [] with ⟨s', _ | _ | n⟩ <;> dsimp only
  · simp
  · have hdown : O.succeed s' = false := O.reports hwrite
    simp [hdown]
  · simp

/-- A refusal that turns the flag over twice leaves it down. -/
theorem recorded_end_iff (failed : Bool)
    (h : (match O.writeEOF s with
      | (s, some false) => some (O.turnOver s, some false)
      | r => some r) = some (s', r)) :
    O.Recorded failed s' r ↔ O.EndKeeps failed True s := by
  unfold writeEOF at h
  unfold Recorded EndKeeps
  rcases hwrite : O.write s [] with ⟨s₁, _ | _ | n⟩ <;> rw [hwrite] at h <;> dsimp only at h ⊢ <;>
    obtain ⟨rfl, rfl⟩ := Prod.mk.inj (Option.some.inj h)
  · simp
  · have hdown : O.succeed s₁ = false := O.reports hwrite
    simp [hdown]
  · simp

theorem recorded_withEOF_iff {w : O.Writes}
    (h : O.writeFullStreamWithEOF fuel w.object buf = some (s', r)) :
    O.Recorded w.failed s' r ↔ O.Keeps w (.writeFullStreamWithEOF buf) := by
  unfold writeFullStreamWithEOF at h
  unfold Keeps
  cases hfull : O.writeFullStream fuel w.object buf with
  | none =>
      rw [hfull] at h
      cases h
  | some q =>
      obtain ⟨s₁, r₁⟩ := q
      rw [hfull] at h
      rcases loop_cases hfull with ⟨rfl, m, hg, hm⟩ | ⟨rfl, s₂, m, hg, hm, hwrite⟩ | ⟨rfl, hup⟩
      · have ht : O.TakesAll buf w.object s₁ := ⟨m, hg, hm⟩
        rw [recorded_end_iff w.failed h]
        constructor
        · exact fun hend => Or.inr ⟨s₁, ht, hend⟩
        · rintro (hstops | ⟨s₂, ht₂, hend⟩)
          · cases (hstops.loop_eq hfull).1
          · rwa [(ht₂.loop_eq hfull).1]
      · obtain ⟨rfl, rfl⟩ := Prod.mk.inj (Option.some.inj h)
        constructor
        · exact fun hrec => Or.inl ⟨s₂, m, s₁, hg, hm, hwrite, hrec (Or.inr (by simp))⟩
        · rintro (hstops | ⟨s₃, ht, -⟩) _
          · exact (hstops.loop_eq hfull).2
          · cases (ht.loop_eq hfull).2
      · obtain ⟨rfl, rfl⟩ := Prod.mk.inj (Option.some.inj h)
        constructor
        · intro hrec
          rw [hrec (Or.inr (by simp))] at hup
          cases hup
        · rintro (hstops | ⟨s₃, ht, -⟩) _
          · exact (hstops.loop_eq hfull).2
          · cases (ht.loop_eq hfull).2

/-- Where `vasprintf` fails, the status only throws and stays up if it is finished. -/
theorem recorded_printf_iff {w : O.Writes} {var : Option (List UInt8)} {k : Option ℕ}
    (hw : O.Sticky w) (h : O.strPrintf fuel w.object var = some (s', k)) :
    (w.failed = true ∨ k.getD 0 = 0 → O.succeed s' = false) ↔ O.Keeps w (.strPrintf var) := by
  unfold strPrintf at h
  cases var with
  | some var =>
      obtain ⟨⟨s₁, r⟩, hstring, heq⟩ := Option.map_eq_some_iff.mp h
      obtain ⟨rfl, rfl⟩ := Prod.mk.inj heq
      rw [← recorded_iff]
      exact recorded_data_iff hw hstring
  | none =>
      unfold Keeps
      dsimp only at h
      rw [WriteStatus.add_neg] at h
      by_cases hover : (O.writeStatus w.object).succeed = false ∨
          (O.writeStatus w.object).finish = true
      · rw [if_pos hover] at h
        obtain ⟨rfl, rfl⟩ := Prod.mk.inj (Option.some.inj h)
        constructor
        · exact fun hrec => Or.inl (hrec (Or.inr rfl))
        · rintro (hdown | hopen) _
          · exact hdown
          · exact hover.resolve_right (by rw [hopen]; exact Bool.false_ne_true)
      · rw [if_neg hover] at h
        obtain ⟨rfl, rfl⟩ := Prod.mk.inj (Option.some.inj h)
        refine iff_of_true (fun _ => ?_) (Or.inr (by simpa using fun hfin => hover (Or.inr hfin)))
        rw [succeed, O.writeStatus_set]

/-- **One call.**  A call leaves the flag down where it has to be exactly if it is one that keeps
it. -/
theorem step_sticky_iff {w w' : O.Writes} {c : Call} {k : Option ℕ} (hw : O.Sticky w)
    (h : O.step fuel w c = some (w', k)) : O.Sticky w' ↔ O.Keeps w c := by
  obtain ⟨⟨s', k⟩, hcall, heq⟩ := Option.map_eq_some_iff.mp h
  obtain ⟨rfl, rfl⟩ := Prod.mk.inj heq
  have hdata : ∀ buf, (O.writeFullStream fuel w.object buf).map
      (fun r => (r.1, r.2.map Bool.toNat)) = some (s', k) →
        ((w.failed = true ∨ k.getD 0 = 0 → O.succeed s' = false) ↔ O.DataKeeps w buf) := by
    intro buf hmap
    obtain ⟨⟨s₁, r⟩, hfull, heq⟩ := Option.map_eq_some_iff.mp hmap
    obtain ⟨rfl, rfl⟩ := Prod.mk.inj heq
    rw [← recorded_data_iff hw hfull, recorded_iff]
  unfold Sticky
  cases c with
  | writeFullStream buf => simpa [Keeps] using hdata buf hcall
  | writeString buf => simpa [Keeps] using hdata buf hcall
  | writeEOF =>
      obtain ⟨rfl, rfl⟩ := Prod.mk.inj (Option.some.inj hcall)
      have hend := recorded_writeEOF_iff w.failed w.object
      rw [recorded_iff] at hend
      simpa [Keeps] using hend
  | writeFullStreamWithEOF buf =>
      obtain ⟨⟨s₁, r⟩, hfull, heq⟩ := Option.map_eq_some_iff.mp hcall
      obtain ⟨rfl, rfl⟩ := Prod.mk.inj heq
      have hend := recorded_withEOF_iff hfull
      rw [recorded_iff] at hend
      simpa using hend
  | strPrintf var => simpa using recorded_printf_iff hw hcall
  | reset => simp [Keeps]

/-- **When write failures are sticky.**  In a run of calls on an object on which none has failed
before, the flag is down after every call that fails, and stays down until the status is reset,
exactly if each call of the run is one that keeps it. -/
theorem sticky_iff (O : StreamableObject) (fuel : ℕ) (s : O.State) (calls : List Call) :
    (∀ t ∈ Run.transitions (O.step fuel) ⟨s, false⟩ calls,
        t.after.failed = true → (O.writeStatus t.after.object).succeed = false) ↔
      Run.Guarded (O.step fuel) O.Keeps ⟨s, false⟩ calls :=
  Run.guarded_iff_invariant O.Sticky (fun _ _ _ _ hw h => step_sticky_iff hw h) (fun h => nomatch h)

/-! ## The container -/

/-- `B_Chunks`.  What it has stored stays there if the status throws. -/
def chunks : StreamableObject where
  State := StreamableChunks
  write o buf :=
    match o.container.append false buf with
    | none => (o, .threw)
    | some (c, bytesAppended) =>
      match o.writeStatus.add (bytesAppended.elim (-1) toSsize) with
      | none => ({ o with container := c }, .threw)
      | some w => (⟨c, w⟩, bytesAppended.elim .refused .wrote)
  writeStatus := StreamableChunks.writeStatus
  setWriteStatus o w := { o with writeStatus := w }
  writeStatus_set _ _ := rfl
  reports := by
    intro o buf o' h
    split at h
    · cases h
    · rename_i c bytesAppended happ
      split at h
      · cases h
      · rename_i w hadd
        obtain ⟨rfl, hout⟩ := Prod.mk.inj h
        cases bytesAppended with
        | some n => cases hout
        | none =>
            rw [Option.elim_none, WriteStatus.add_neg] at hadd
            split at hadd
            · cases hadd
            · cases hadd
              rfl

/-- The `write` of the container, where it returns. -/
theorem chunks_write (o : StreamableChunks) (buf : List UInt8) :
    o.write buf =
      match chunks.write o buf with
      | (_, .threw) => none
      | (o', .refused) => some (o', none)
      | (o', .wrote n) => some (o', some n) := by
  unfold StreamableChunks.write
  dsimp only [chunks]
  rcases o.container.append false buf with _ | ⟨c, bytesAppended⟩
  · rfl
  · dsimp only
    rcases o.writeStatus.add (bytesAppended.elim (-1) toSsize) with _ | status
    · rfl
    · cases bytesAppended <;> rfl

/-- And its `writeEOF`. -/
theorem chunks_writeEOF (o : StreamableChunks) :
    o.writeEOF = (chunks.writeEOF o).2.map ((chunks.writeEOF o).1, ·) := by
  unfold StreamableChunks.writeEOF writeEOF
  rw [chunks_write]
  rcases chunks.write o [] with ⟨o', _ | _ | n⟩ <;> rfl

/-- And its `writeFullStream`. -/
theorem chunks_writeFullStreamLoop {buf : List UInt8} (hlt : buf.length < 2 ^ 64) (fuel : ℕ)
    (o : StreamableChunks) (n : ℕ) :
    o.writeFullStreamLoop fuel (buf.drop n) =
      (chunks.writeFullStreamLoop buf fuel o n).bind fun r => r.2.map (r.1, ·) := by
  induction fuel generalizing o n with
  | zero => rfl
  | succ fuel ih =>
      unfold StreamableChunks.writeFullStreamLoop
      rw [StreamableObject.writeFullStreamLoop.eq_2 chunks buf o n fuel]
      by_cases hdone : buf.length ≤ n
      · rw [if_pos hdone, if_pos (List.drop_eq_nil_of_le hdone)]
        rfl
      · rw [if_neg hdone, if_neg (by rw [List.drop_eq_nil_iff]; exact hdone)]
        have hw := chunks_write o (buf.drop n)
        rcases hwrite : chunks.write o (buf.drop n) with ⟨o', _ | _ | cur⟩ <;>
          rw [hwrite] at hw <;> rw [hw] <;> dsimp only
        · rfl
        · rfl
        · have hle := StreamableChunks.write_le hw
          rw [List.length_drop] at hle
          change (if some cur = none ∨ o'.writeStatus.succeed = false then _ else _) = Option.bind
            (if o'.writeStatus.succeed = false then _ else _) _
          by_cases hdown : o'.writeStatus.succeed = false
          · rw [if_pos (Or.inr hdown), if_pos hdown]
            rfl
          · rw [if_neg (by simpa using hdown), if_neg hdown, Option.getD_some, List.drop_drop,
              Nat.mod_eq_of_lt (by omega)]
            exact ih o' (n + cur)

theorem chunks_writeFullStream {buf : List UInt8} (hlt : buf.length < 2 ^ 64)
    (o : StreamableChunks) :
    o.writeFullStream buf =
      (chunks.writeFullStream (buf.length + 2) o buf).bind fun r => r.2.map (r.1, ·) :=
  chunks_writeFullStreamLoop hlt (buf.length + 2) o 0

/-- The end of the stream is refused by a container: `writeEOF` returns `false`, and the flag is up.
-/
theorem not_sticky :
    ∃ w : chunks.Writes,
      chunks.step 0 ⟨({} : StreamableChunks), false⟩ .writeEOF = some (w, some 0) ∧
      w.failed = true ∧ (chunks.writeStatus w.object).succeed = true := by
  refine ⟨⟨⟨{}, { writeError := -1 }⟩, true⟩, rfl, rfl, rfl⟩

end StreamableObject

end Mantids
