/-
# The URL encoder and what it writes to

`Encoders::URL::writeTo` (`Protocol_HTTP/streamencoder_url.cpp`) writes a stretch of letters and
digits, or one other byte as `%XX`, at a time.  It advances where `writeFullStream` returns `true`,
and leaves its loop early only where it finds the flag of the destination down.  A destination that
has put its flag down with a refusal finds it turned over by `writeFullStream`: the flag is up, and
the encoder writes the same bytes again.

* `Sink` — what is written to; a refusal need not be reported in its status;
* `Sink.TakesAll`, `Sink.Refuses` — the two ends of `writeFullStream`;
* `writeTo`, `piece` — the encoder, and what it writes in a turn;
* `EndsWell` — it returns, and returns less than it was given only where the flag is down;
* `endsWell_iff` — it does so exactly if the pieces are taken, or one is refused with the flag up;
* `endsWell_ofObject_iff` — which for an object that reports its refusals means that all are taken;
* `container` — `B_Base::write` over any `append`, and when the encoder ends on one.
-/
import Mantids.Lib.Loop
import Mantids.UrlStream
import Mantids.UrlStrings
import Mantids.WriteFailures

namespace Mantids

open Relation

/-! ## Sinks -/

/-- What the encoder writes to.  A socket refuses data and leaves the status as it is, so that
unlike a `StreamableObject` it need not report its refusals. -/
structure Sink where
  State : Type
  write : State → List UInt8 → State × WriteResult
  writeStatus : State → WriteStatus
  setWriteStatus : State → WriteStatus → State
  writeStatus_set : ∀ s w, writeStatus (setWriteStatus s w) = w

namespace Sink

variable (D : Sink)

def succeed (s : D.State) : Bool := (D.writeStatus s).succeed

/-- `writeStatus.succeed += -1`, on a `bool`. -/
def turnOver (s : D.State) : D.State :=
  D.setWriteStatus s { D.writeStatus s with succeed := !D.succeed s }

@[simp] theorem succeed_turnOver (s : D.State) : D.succeed (D.turnOver s) = !D.succeed s := by
  rw [succeed, turnOver, D.writeStatus_set]

/-- A turn of the loop of `writeFullStream`, in front of `writtenBytes`.  `none` is a call that
throws. -/
def fullStreamTurn (buf : List UInt8) (p : D.State × ℕ) :
    (D.State × ℕ) ⊕ (D.State × Option Bool) :=
  if buf.length ≤ p.2 then .inr (p.1, some true)
  else
    match D.write p.1 (buf.drop p.2) with
    | (s, .threw) => .inr (s, none)
    | (s, .refused) => .inr (D.turnOver s, some false)
    | (s, .wrote cur) =>
      if D.succeed s = false then .inr (D.turnOver s, some false)
      else .inl (s, (p.2 + cur) % 2 ^ 64)

def writeFullStream (fuel : ℕ) (s : D.State) (buf : List UInt8) :
    Option (D.State × Option Bool) :=
  Loop.run (fun _ p => some (D.fullStreamTurn buf p)) fuel (s, 0)

/-- A `StreamableObject`, which reports its refusals. -/
def ofObject (O : StreamableObject) : Sink where
  State := O.State
  write := O.write
  writeStatus := O.writeStatus
  setWriteStatus := O.setWriteStatus
  writeStatus_set := O.writeStatus_set

theorem writeFullStream_ofObject (O : StreamableObject) (fuel : ℕ) (s : O.State)
    (buf : List UInt8) : (ofObject O).writeFullStream fuel s buf =
      O.writeFullStream fuel s buf := by
  have hloop : ∀ n, Loop.run (fun _ p => some ((ofObject O).fullStreamTurn buf p)) fuel (s, n) =
      O.writeFullStreamLoop buf fuel s n := by
    induction fuel generalizing s with
    | zero => exact fun _ => rfl
    | succ fuel ih =>
        intro n
        rw [Loop.run, StreamableObject.writeFullStreamLoop, fullStreamTurn]
        by_cases hdone : buf.length ≤ n
        · rw [if_pos hdone, if_pos hdone]
          rfl
        · rw [if_neg hdone, if_neg hdone]
          rcases hwrite : O.write s (buf.drop n) with ⟨s', _ | _ | cur⟩
          · have hsink : (ofObject O).write s (buf.drop n) = (s', .threw) := hwrite
            rw [hsink]
            rfl
          · have hsink : (ofObject O).write s (buf.drop n) = (s', .refused) := hwrite
            rw [hsink]
            rfl
          · have hsink : (ofObject O).write s (buf.drop n) = (s', .wrote cur) := hwrite
            rw [hsink]
            dsimp only
            by_cases hdown : O.succeed s' = false
            · have hflag : (ofObject O).succeed s' = false := hdown
              rw [if_pos hflag, if_pos hdown]
              rfl
            · have hflag : ¬ (ofObject O).succeed s' = false := hdown
              rw [if_neg hflag, if_neg hdown]
              exact ih s' _
  exact hloop 0

/-! ### How it ends -/

/-- A `write` of the loop that takes some data and leaves the flag up. -/
def Takes (buf : List UInt8) (p q : D.State × ℕ) : Prop :=
  p.2 < buf.length ∧
    ∃ cur, D.write p.1 (buf.drop p.2) = (q.1, .wrote cur) ∧ D.succeed q.1 = true ∧
      q.2 = (p.2 + cur) % 2 ^ 64

/-- All the data is taken. -/
def TakesAll (buf : List UInt8) (s s' : D.State) : Prop :=
  ∃ n, ReflTransGen (D.Takes buf) (s, 0) (s', n) ∧ buf.length ≤ n

/-- Some of the data may be taken; then a `write` refuses the rest, or leaves the flag down. -/
def Refuses (buf : List UInt8) (s s' : D.State) : Prop :=
  ∃ p, ReflTransGen (D.Takes buf) (s, 0) p ∧ p.2 < buf.length ∧
    (D.write p.1 (buf.drop p.2) = (s', .refused) ∨
      ∃ cur, D.write p.1 (buf.drop p.2) = (s', .wrote cur) ∧ D.succeed s' = false)

variable {D} {buf : List UInt8} {s s' : D.State} {p q : D.State × ℕ}

theorem goes_fullStream :
    Loop.Goes (fun _ p => some (D.fullStreamTurn buf p)) = D.Takes buf := by
  funext p q
  apply propext
  unfold Loop.Goes fullStreamTurn Takes
  rw [exists_const]
  by_cases hdone : buf.length ≤ p.2
  · simp [hdone]
  · have hlt : p.2 < buf.length := Nat.lt_of_not_le hdone
    rcases hwrite : D.write p.1 (buf.drop p.2) with ⟨s', _ | _ | cur⟩
    · simp [hdone]
    · simp [hdone]
    · by_cases hdown : D.succeed s' = false
      · simp only [if_neg hdone, if_pos hdown]
        constructor
        · exact fun h => nomatch h
        · rintro ⟨-, cur', heq, hup, -⟩
          obtain ⟨rfl, -⟩ := Prod.mk.inj heq
          rw [hdown] at hup
          cases hup
      · simp only [if_neg hdone, if_neg hdown]
        constructor
        · intro h
          obtain rfl := Sum.inl.inj (Option.some.inj h)
          exact ⟨hlt, cur, rfl, by simpa using hdown, rfl⟩
        · rintro ⟨-, cur', heq, -, hnext⟩
          obtain ⟨rfl, hcur⟩ := Prod.mk.inj heq
          obtain rfl := WriteResult.wrote.inj hcur
          rw [← hnext]

theorem leaves_true_iff :
    Loop.Leaves (fun _ p => some (D.fullStreamTurn buf p)) p (s', some true) ↔
      buf.length ≤ p.2 ∧ p.1 = s' := by
  unfold Loop.Leaves fullStreamTurn
  rw [exists_const]
  by_cases hdone : buf.length ≤ p.2
  · simp [hdone]
  · rcases hwrite : D.write p.1 (buf.drop p.2) with ⟨s₁, _ | _ | cur⟩
    · simp [hdone]
    · simp [hdone]
    · by_cases hdown : D.succeed s₁ = false <;> simp [hdone, hdown]

theorem leaves_false_iff :
    Loop.Leaves (fun _ p => some (D.fullStreamTurn buf p)) p (s', some false) ↔
      p.2 < buf.length ∧ ∃ s₁, D.turnOver s₁ = s' ∧
        (D.write p.1 (buf.drop p.2) = (s₁, .refused) ∨
          ∃ cur, D.write p.1 (buf.drop p.2) = (s₁, .wrote cur) ∧ D.succeed s₁ = false) := by
  unfold Loop.Leaves fullStreamTurn
  rw [exists_const]
  by_cases hdone : buf.length ≤ p.2
  · simp [hdone]
  · have hlt : p.2 < buf.length := Nat.lt_of_not_le hdone
    rcases hwrite : D.write p.1 (buf.drop p.2) with ⟨s₁, _ | _ | cur⟩
    · simp [hdone]
    · simp [hdone, hlt]
    · by_cases hdown : D.succeed s₁ = false <;> simp [hdone, hdown, hlt]

theorem writeFullStream_mono : Loop.Grows fun fuel (p : D.State × List UInt8) =>
    D.writeFullStream fuel p.1 p.2 :=
  fun _ _ _ _ hle h => Loop.run_mono (Loop.grows_const _) hle h

/-- `writeFullStream` returns `true` exactly if all the data is taken. -/
theorem writeFullStream_true_iff :
    (∃ fuel, D.writeFullStream fuel s buf = some (s', some true)) ↔ D.TakesAll buf s s' := by
  unfold writeFullStream TakesAll
  rw [Loop.returns_iff (Loop.grows_const _), goes_fullStream]
  constructor
  · rintro ⟨p, hg, hleaves⟩
    obtain ⟨hdone, rfl⟩ := leaves_true_iff.mp hleaves
    exact ⟨p.2, hg, hdone⟩
  · rintro ⟨n, hg, hdone⟩
    exact ⟨(s', n), hg, leaves_true_iff.mpr ⟨hdone, rfl⟩⟩

/-- It returns `false` exactly if some of the data is refused, with the flag turned over. -/
theorem writeFullStream_false_iff :
    (∃ fuel, D.writeFullStream fuel s buf = some (s', some false)) ↔
      ∃ s₁, D.Refuses buf s s₁ ∧ D.turnOver s₁ = s' := by
  unfold writeFullStream Refuses
  rw [Loop.returns_iff (Loop.grows_const _), goes_fullStream]
  constructor
  · rintro ⟨p, hg, hleaves⟩
    obtain ⟨hlt, s₁, hs, hwrite⟩ := leaves_false_iff.mp hleaves
    exact ⟨s₁, ⟨p, hg, hlt, hwrite⟩, hs⟩
  · rintro ⟨s₁, ⟨p, hg, hlt, hwrite⟩, hs⟩
    exact ⟨p, hg, leaves_false_iff.mpr ⟨hlt, s₁, hs, hwrite⟩⟩

/-- Data that has been taken leaves the flag up. -/
theorem TakesAll.succeed (hne : buf ≠ []) (h : D.TakesAll buf s s') : D.succeed s' = true := by
  obtain ⟨n, hg, hn⟩ := h
  rcases ReflTransGen.cases_tail hg with heq | ⟨_, _, -, _, -, hup, -⟩
  · obtain ⟨-, rfl⟩ := Prod.mk.inj heq
    exact absurd (List.length_eq_zero_iff.mp (Nat.le_zero.mp hn)) hne
  · exact hup

/-- A destination that refuses the data at once, and one that takes it at once. -/
theorem writeFullStream_of_refused (hne : buf ≠ []) (h : D.write s buf = (s', .refused))
    (fuel : ℕ) : D.writeFullStream (fuel + 1) s buf = some (D.turnOver s', some false) := by
  have hpos := List.length_pos_iff.mpr hne
  apply Loop.run_succ_of_leaves
  unfold fullStreamTurn
  rw [if_neg (by omega), List.drop_zero, h]

theorem writeFullStream_of_wrote (hne : buf ≠ []) (hlen : buf.length < 2 ^ 64)
    (h : D.write s buf = (s', .wrote buf.length)) (hup : D.succeed s' = true) (fuel : ℕ) :
    D.writeFullStream (fuel + 2) s buf = some (s', some true) := by
  have hpos := List.length_pos_iff.mpr hne
  have hfirst : D.fullStreamTurn buf (s, 0) = .inl (s', buf.length) := by
    unfold fullStreamTurn
    rw [if_neg (by omega), List.drop_zero, h]
    dsimp only
    rw [if_neg (by simp [hup]), Nat.zero_add, Nat.mod_eq_of_lt hlen]
  show Loop.run (fun _ p => some (D.fullStreamTurn buf p)) (fuel + 2) (s, 0) = _
  rw [Loop.run_succ_of_goes (congrArg some hfirst)]
  apply Loop.run_succ_of_leaves
  unfold fullStreamTurn
  rw [if_pos (le_refl _)]

end Sink

/-! ## The encoder -/

namespace Encoders.URL

open UrlStream UrlStrings

/-- How many bytes in front are letters or digits. -/
def getPlainBytesSize (buf : List UInt8) : ℕ := (buf.takeWhile isalnum).length

/-- What a turn writes: the plain bytes in front, or one byte encoded. -/
def piece (buf : List UInt8) : List UInt8 :=
  if 0 < getPlainBytesSize buf then buf.take (getPlainBytesSize buf)
  else buf.head?.elim [] encodeByte

/-- By how many bytes it advances. -/
def advance (buf : List UInt8) : ℕ :=
  if 0 < getPlainBytesSize buf then getPlainBytesSize buf else 1

variable (D : Sink)

/-- A turn of the loop, in front of `readenBytes`. -/
def turn (buf : List UInt8) (fuel : ℕ) (p : D.State × ℕ) :
    Option ((D.State × ℕ) ⊕ (D.State × Option ℕ)) :=
  if buf.length ≤ p.2 then some (.inr (p.1, some p.2))
  else
    match D.writeFullStream fuel p.1 (piece (buf.drop p.2)) with
    | none => none
    | some (s, none) => some (.inr (s, none))
    | some (s, some written) =>
      let readenBytes := if written then p.2 + advance (buf.drop p.2) else p.2
      -- the only way out on a failure
      if D.succeed s = false then some (.inr (s, some readenBytes))
      else some (.inl (s, readenBytes))

/-- `Encoders::URL::writeTo`.  `none` has not returned within the bound; a call that throws returns
no count. -/
def writeTo (fuel : ℕ) (s : D.State) (buf : List UInt8) : Option (D.State × Option ℕ) :=
  if maxStream < buf.length then
    match (D.writeStatus s).add (-1) with
    | none => some (s, none)
    | some w => some (D.setWriteStatus s w, some (2 ^ 64 - 1))
  else Loop.run (turn D buf) fuel (s, 0)

/-- The encoder returns a count, and one that is smaller than the length of the input only if the
destination has its flag down. -/
def EndsWell (s : D.State) (buf : List UInt8) : Prop :=
  ∃ fuel s' n, writeTo D fuel s buf = some (s', some n) ∧ (n < buf.length → D.succeed s' = false)

/-! ### Its turns -/

/-- A turn that goes on: the piece is taken, or it is refused with the flag left down, so that it is
up again when the same piece is tried again. -/
def Moves (buf : List UInt8) (p q : D.State × ℕ) : Prop :=
  p.2 < buf.length ∧
    (D.TakesAll (piece (buf.drop p.2)) p.1 q.1 ∧ q.2 = p.2 + advance (buf.drop p.2) ∨
      ∃ s, D.Refuses (piece (buf.drop p.2)) p.1 s ∧ D.succeed s = false ∧ q = (D.turnOver s, p.2))

/-- All is taken, or a piece is refused with the flag left up. -/
def Ends (buf : List UInt8) (p : D.State × ℕ) : Prop :=
  buf.length ≤ p.2 ∨ ∃ s, D.Refuses (piece (buf.drop p.2)) p.1 s ∧ D.succeed s = true

/-- When the encoder ends.  An input that is too large is refused in the status of the destination.
-/
def Accepted (s : D.State) (buf : List UInt8) : Prop :=
  if maxStream < buf.length then D.succeed s = true ∧ (D.writeStatus s).finish = false
  else ∃ p, ReflTransGen (Moves D buf) (s, 0) p ∧ Ends D buf p

variable {D} {buf : List UInt8} {s s' : D.State} {p q : D.State × ℕ} {n : ℕ}

/-- The piece of a stretch of letters and digits, and of another byte. -/
theorem piece_alnum {x : UInt8} (hx : isalnum x = true) (rest : List UInt8) :
    piece (x :: rest) = x :: rest.takeWhile isalnum ∧
      (x :: rest).drop (advance (x :: rest)) = rest.dropWhile isalnum := by
  have hsize : getPlainBytesSize (x :: rest) = (rest.takeWhile isalnum).length + 1 := by
    rw [getPlainBytesSize, List.takeWhile_cons_of_pos hx, List.length_cons]
  unfold piece advance
  rw [hsize, if_pos (Nat.succ_pos _), if_pos (Nat.succ_pos _), List.take_succ_cons,
    List.drop_succ_cons]
  have hsplit := List.takeWhile_append_dropWhile (p := isalnum) (l := rest)
  constructor
  · rw [← List.prefix_iff_eq_take.mp (List.takeWhile_prefix isalnum)]
  · calc rest.drop (rest.takeWhile isalnum).length
        = (rest.takeWhile isalnum ++ rest.dropWhile isalnum).drop
            (rest.takeWhile isalnum).length := by rw [hsplit]
      _ = rest.dropWhile isalnum := List.drop_left

theorem piece_other {x : UInt8} (hx : isalnum x = false) (rest : List UInt8) :
    piece (x :: rest) = encodeByte x ∧ (x :: rest).drop (advance (x :: rest)) = rest := by
  have hsize : getPlainBytesSize (x :: rest) = 0 := by
    rw [getPlainBytesSize, List.takeWhile_cons_of_neg (by simp [hx]), List.length_nil]
  unfold piece advance
  rw [hsize]
  exact ⟨rfl, rfl⟩

theorem piece_ne_nil (hne : buf ≠ []) : piece buf ≠ [] := by
  obtain ⟨x, rest, rfl⟩ := List.exists_cons_of_ne_nil hne
  cases hx : isalnum x with
  | true =>
      rw [(piece_alnum hx rest).1]
      exact List.cons_ne_nil _ _
  | false =>
      rw [(piece_other hx rest).1, encodeByte, if_neg (by simp [hx])]
      exact List.cons_ne_nil _ _

theorem grows_turn : Loop.Grows (turn D buf) := by
  intro fuel fuel' p r hle h
  unfold turn at h ⊢
  by_cases hdone : buf.length ≤ p.2
  · rwa [if_pos hdone] at h ⊢
  · rw [if_neg hdone] at h ⊢
    cases hwrite : D.writeFullStream fuel p.1 (piece (buf.drop p.2)) with
    | none =>
        rw [hwrite] at h
        cases h
    | some w =>
        have hmore : D.writeFullStream fuel' p.1 (piece (buf.drop p.2)) = some w :=
          Sink.writeFullStream_mono (s := (p.1, piece (buf.drop p.2))) hle hwrite
        rw [hwrite] at h
        rw [hmore]
        exact h

theorem turn_of_write {fuel : ℕ} {written : Bool} (hlt : p.2 < buf.length)
    (hwrite : D.writeFullStream fuel p.1 (piece (buf.drop p.2)) = some (s, some written))
    (hup : D.succeed s = true) : turn D buf fuel p =
      some (.inl (s, if written then p.2 + advance (buf.drop p.2) else p.2)) := by
  unfold turn
  rw [if_neg (Nat.not_le.mpr hlt), hwrite]
  simp [hup]

theorem turn_of_done (hdone : buf.length ≤ p.2) (fuel : ℕ) :
    turn D buf fuel p = some (.inr (p.1, some p.2)) :=
  if_pos hdone

theorem turn_of_left {fuel : ℕ} (hlt : p.2 < buf.length)
    (hwrite : D.writeFullStream fuel p.1 (piece (buf.drop p.2)) = some (s, some false))
    (hdown : D.succeed s = false) : turn D buf fuel p = some (.inr (s, some p.2)) := by
  unfold turn
  rw [if_neg (Nat.not_le.mpr hlt), hwrite]
  simp [hdown]

/-- What a turn may do: nothing is left, the piece is taken, it is refused with the flag left down
or up, or the call throws. -/
theorem turn_cases {fuel : ℕ} {x : (D.State × ℕ) ⊕ (D.State × Option ℕ)}
    (h : turn D buf fuel p = some x) :
    buf.length ≤ p.2 ∧ x = .inr (p.1, some p.2) ∨
    p.2 < buf.length ∧
      ((∃ s, D.TakesAll (piece (buf.drop p.2)) p.1 s ∧ x = .inl (s, p.2 + advance (buf.drop p.2))) ∨
        (∃ s, D.Refuses (piece (buf.drop p.2)) p.1 s ∧ D.succeed s = false ∧
          x = .inl (D.turnOver s, p.2)) ∨
        (∃ s, D.Refuses (piece (buf.drop p.2)) p.1 s ∧ D.succeed s = true ∧
          x = .inr (D.turnOver s, some p.2)) ∨
        ∃ s, x = .inr (s, none)) := by
  unfold turn at h
  by_cases hdone : buf.length ≤ p.2
  · rw [if_pos hdone] at h
    exact Or.inl ⟨hdone, (Option.some.inj h).symm⟩
  · rw [if_neg hdone] at h
    have hne : piece (buf.drop p.2) ≠ [] :=
      piece_ne_nil (by rw [ne_eq, List.drop_eq_nil_iff]; exact hdone)
    refine Or.inr ⟨Nat.lt_of_not_le hdone, ?_⟩
    rcases hwrite : D.writeFullStream fuel p.1 (piece (buf.drop p.2)) with
      _ | ⟨s, _ | _ | _⟩ <;> rw [hwrite] at h
    · cases h
    · exact Or.inr (Or.inr (Or.inr ⟨s, (Option.some.inj h).symm⟩))
    · obtain ⟨s₁, hrefuses, rfl⟩ := Iff.mp Sink.writeFullStream_false_iff ⟨fuel, hwrite⟩
      cases hdown : D.succeed s₁ with
      | false =>
          simp only [Sink.succeed_turnOver, hdown] at h
          exact Or.inr (Or.inl ⟨s₁, hrefuses, hdown, (Option.some.inj h).symm⟩)
      | true =>
          simp only [Sink.succeed_turnOver, hdown] at h
          exact Or.inr (Or.inr (Or.inl ⟨s₁, hrefuses, hdown, (Option.some.inj h).symm⟩))
    · have htakes := Sink.writeFullStream_true_iff.mp ⟨fuel, hwrite⟩
      simp only [htakes.succeed hne] at h
      exact Or.inl ⟨s, htakes, (Option.some.inj h).symm⟩

/-- The turns that go on are those of `Moves`. -/
theorem goes_turn : Loop.Goes (turn D buf) = Moves D buf := by
  funext p q
  apply propext
  constructor
  · rintro ⟨fuel, h⟩
    rcases turn_cases h with ⟨-, hx⟩ |
      ⟨hlt, ⟨s, ht, hx⟩ | ⟨s, hr, hdown, hx⟩ | ⟨s, -, -, hx⟩ | ⟨s, hx⟩⟩
    · cases hx
    · obtain rfl := Sum.inl.inj hx
      exact ⟨hlt, Or.inl ⟨ht, rfl⟩⟩
    · exact ⟨hlt, Or.inr ⟨s, hr, hdown, Sum.inl.inj hx⟩⟩
    · cases hx
    · cases hx
  · rintro ⟨hlt, ⟨ht, hnext⟩ | ⟨s, hr, hdown, rfl⟩⟩
    · obtain ⟨fuel, hwrite⟩ := Sink.writeFullStream_true_iff.mpr ht
      have hne : piece (buf.drop p.2) ≠ [] :=
        piece_ne_nil (by rw [ne_eq, List.drop_eq_nil_iff]; omega)
      refine ⟨fuel, ?_⟩
      rw [turn_of_write hlt hwrite (ht.succeed hne), if_pos rfl, ← hnext]
    · obtain ⟨fuel, hwrite⟩ := Iff.mpr Sink.writeFullStream_false_iff ⟨s, hr, rfl⟩
      refine ⟨fuel, turn_of_write hlt hwrite ?_⟩
      rw [Sink.succeed_turnOver, hdown]
      rfl

/-- The turns that return a count: nothing is left, or the flag has been turned down. -/
theorem leaves_turn_iff :
    Loop.Leaves (turn D buf) p (s', some n) ↔
      n = p.2 ∧ (buf.length ≤ p.2 ∧ p.1 = s' ∨ p.2 < buf.length ∧
        ∃ s, D.Refuses (piece (buf.drop p.2)) p.1 s ∧ D.succeed s = true ∧ D.turnOver s = s') := by
  constructor
  · rintro ⟨fuel, h⟩
    rcases turn_cases h with ⟨hdone, hx⟩ | ⟨hlt,
      ⟨s, -, hx⟩ | ⟨s, -, -, hx⟩ | ⟨s, hr, hup, hx⟩ | ⟨s, hx⟩⟩
    · obtain ⟨rfl, hn⟩ := Prod.mk.inj (Sum.inr.inj hx)
      exact ⟨Option.some.inj hn, Or.inl ⟨hdone, rfl⟩⟩
    · cases hx
    · cases hx
    · obtain ⟨rfl, hn⟩ := Prod.mk.inj (Sum.inr.inj hx)
      exact ⟨Option.some.inj hn, Or.inr ⟨hlt, s, hr, hup, rfl⟩⟩
    · cases (Prod.mk.inj (Sum.inr.inj hx)).2
  · rintro ⟨rfl, ⟨hdone, rfl⟩ | ⟨hlt, s, hr, hup, rfl⟩⟩
    · exact ⟨0, turn_of_done hdone 0⟩
    · obtain ⟨fuel, hwrite⟩ := Iff.mpr Sink.writeFullStream_false_iff ⟨s, hr, rfl⟩
      refine ⟨fuel, turn_of_left hlt hwrite ?_⟩
      rw [Sink.succeed_turnOver, hup]
      rfl

/-! ### When it ends -/

/-- The loop returns a count exactly if its turns go on to a state in which it ends. -/
theorem returns_loop_iff :
    (∃ fuel s' n, Loop.run (turn D buf) fuel p = some (s', some n)) ↔
      ∃ q, ReflTransGen (Moves D buf) p q ∧ Ends D buf q := by
  constructor
  · rintro ⟨fuel, s', n, h⟩
    obtain ⟨q, hg, hleaves⟩ := (Loop.returns_iff grows_turn).mp ⟨fuel, h⟩
    rw [goes_turn] at hg
    rcases Iff.mp leaves_turn_iff hleaves with ⟨-, ⟨hdone, -⟩ | ⟨-, s, hrefuses, hup, -⟩⟩
    · exact ⟨q, hg, Or.inl hdone⟩
    · exact ⟨q, hg, Or.inr ⟨s, hrefuses, hup⟩⟩
  · rintro ⟨q, hg, hends⟩
    have hleaves : ∃ s', Loop.Leaves (turn D buf) q (s', some q.2) := by
      by_cases hdone : buf.length ≤ q.2
      · exact ⟨q.1, Iff.mpr leaves_turn_iff ⟨rfl, Or.inl ⟨hdone, rfl⟩⟩⟩
      · obtain ⟨s, hrefuses, hup⟩ := hends.resolve_left hdone
        exact ⟨D.turnOver s, Iff.mpr leaves_turn_iff
          ⟨rfl, Or.inr ⟨Nat.lt_of_not_le hdone, s, hrefuses, hup, rfl⟩⟩⟩
    obtain ⟨s', hleaves⟩ := hleaves
    have hreturns : ∃ fuel, Loop.run (turn D buf) fuel p = some (s', some q.2) :=
      (Loop.returns_iff grows_turn).mpr ⟨q, by rwa [goes_turn], hleaves⟩
    obtain ⟨fuel, h⟩ := hreturns
    exact ⟨fuel, s', q.2, h⟩

/-- Where the encoder returns less than it was given, the flag is down. -/
theorem succeed_of_short {fuel : ℕ} (h : writeTo D fuel s buf = some (s', some n))
    (hshort : n < buf.length) : D.succeed s' = false := by
  unfold writeTo at h
  by_cases hlarge : maxStream < buf.length
  · rw [if_pos hlarge, WriteStatus.add_neg] at h
    split at h
    · cases h
    · rename_i w hadd
      split at hadd
      · cases hadd
      · obtain rfl := Option.some.inj hadd
        obtain ⟨rfl, -⟩ := Prod.mk.inj (Option.some.inj h)
        rw [Sink.succeed, D.writeStatus_set]
  · rw [if_neg hlarge] at h
    obtain ⟨q, -, hleaves⟩ := (Loop.returns_iff grows_turn).mp ⟨fuel, h⟩
    rcases Iff.mp leaves_turn_iff hleaves with ⟨rfl, ⟨hdone, -⟩ | ⟨-, s₁, -, hup, rfl⟩⟩
    · omega
    · rw [Sink.succeed_turnOver, hup]
      rfl

/-- A destination that goes on refusing a piece, and reports it, is offered it for ever. -/
theorem not_returns_of_refusals {I : D.State → Prop} (hlt : n < buf.length)
    (hI : ∀ s, I s → ∃ s', D.write s (piece (buf.drop n)) = (s', .refused) ∧
      D.succeed s' = false ∧ I (D.turnOver s')) (hs : I s) (fuel : ℕ) :
    Loop.run (turn D buf) fuel (s, n) = none := by
  have hne : piece (buf.drop n) ≠ [] := piece_ne_nil (by rw [ne_eq, List.drop_eq_nil_iff]; omega)
  have hstays : Loop.Stays (turn D buf) (fun p => I p.1 ∧ p.2 = n) := by
    rintro ⟨s, n'⟩ ⟨hs, rfl⟩ fuel
    cases fuel with
    | zero =>
        apply Or.inl
        unfold turn
        rw [if_neg (Nat.not_le.mpr hlt)]
        rfl
    | succ fuel =>
        obtain ⟨s', hwrite, hdown, hs'⟩ := hI s hs
        have hfull := Sink.writeFullStream_of_refused hne hwrite fuel
        -- the flag is up again
        have hup : D.succeed (D.turnOver s') = true := by
          rw [Sink.succeed_turnOver, hdown]
          rfl
        exact Or.inr ⟨_, turn_of_write hlt hfull hup, hs', rfl⟩
  exact hstays.not_returns ⟨hs, rfl⟩ fuel

theorem endsWell_iff_returns :
    EndsWell D s buf ↔ ∃ fuel s' n, writeTo D fuel s buf = some (s', some n) := by
  constructor
  · rintro ⟨fuel, s', n, h, -⟩
    exact ⟨fuel, s', n, h⟩
  · rintro ⟨fuel, s', n, h⟩
    exact ⟨fuel, s', n, h, succeed_of_short h⟩

/-- **When the encoder ends.**  On every destination, in every state of it, and for every input: it
returns, and returns less than it was given only where the destination has its flag down, exactly if
the pieces are taken one after the other, a piece that is refused with the flag down being tried
again, until nothing is left or one is refused with the flag up. -/
theorem endsWell_iff (D : Sink) (s : D.State) (buf : List UInt8) :
    EndsWell D s buf ↔ Accepted D s buf := by
  rw [endsWell_iff_returns]
  unfold Accepted writeTo
  by_cases hlarge : maxStream < buf.length
  · simp only [if_pos hlarge, WriteStatus.add_neg]
    by_cases hover : (D.writeStatus s).succeed = false ∨ (D.writeStatus s).finish = true
    · simp only [if_pos hover]
      apply iff_of_false
      · rintro ⟨_, _, _, h⟩
        cases h
      · rintro ⟨hup, hopen⟩
        rcases hover with hdown | hfinish
        · exact absurd (hup.symm.trans hdown) (by simp)
        · exact absurd (hopen.symm.trans hfinish) (by simp)
    · simp only [if_neg hover]
      refine iff_of_true ⟨0, _, _, rfl⟩ ⟨?_, ?_⟩
      · simpa [Sink.succeed] using fun hdown => hover (Or.inl hdown)
      · simpa using fun hfinish => hover (Or.inr hfinish)
  · simp only [if_neg hlarge]
    exact returns_loop_iff

/-- An object that reports its refusals is never given up: the encoder ends exactly if everything is
taken. -/
theorem endsWell_ofObject_iff (O : StreamableObject) (s : O.State) {buf : List UInt8}
    (hlen : buf.length ≤ maxStream) :
    EndsWell (Sink.ofObject O) s buf ↔
      ∃ p, ReflTransGen (Moves (Sink.ofObject O) buf) (s, 0) p ∧ buf.length ≤ p.2 := by
  have hends : ∀ p, Ends (Sink.ofObject O) buf p ↔ buf.length ≤ p.2 := by
    intro p
    constructor
    · rintro (hdone | ⟨s', ⟨q, -, -, hrefused | ⟨cur, -, hdown⟩⟩, hup⟩)
      · exact hdone
      · have hdown : O.succeed s' = false := O.reports hrefused
        exact absurd (hdown.symm.trans hup) (by simp)
      · exact absurd (hdown.symm.trans hup) (by simp)
    · exact Or.inl
  refine (endsWell_iff (Sink.ofObject O) s buf).trans ?_
  unfold Accepted
  rw [if_neg (Nat.not_lt.mpr hlen)]
  simp only [hends]

/-! ## Containers -/

/-- `B_Base::write` of a container with this `append`, which takes all of the data or refuses it. -/
def container {σ : Type} (append : σ → List UInt8 → Option σ) : Sink where
  State := σ × WriteStatus
  write s buf :=
    match append s.1 buf with
    | none =>
      match s.2.add (-1) with
      | none => (s, .threw)
      | some w => ((s.1, w), .refused)
    | some c =>
      match s.2.add (toSsize buf.length) with
      | none => ((c, s.2), .threw)
      | some w => ((c, w), .wrote buf.length)
  writeStatus s := s.2
  setWriteStatus s w := (s.1, w)
  writeStatus_set _ _ := rfl

theorem advance_pos (buf : List UInt8) : 0 < advance buf := by
  unfold advance
  split
  · assumption
  · exact Nat.one_pos

/-- What the encoder writes, one turn after the other. -/
def pieces (buf : List UInt8) : List (List UInt8) :=
  if buf = [] then [] else piece buf :: pieces (buf.drop (advance buf))
termination_by buf.length
decreasing_by
  rename_i hne
  have hpos := List.length_pos_iff.mpr hne
  have := advance_pos buf
  rw [List.length_drop]
  omega

/-- A piece is what its bytes are encoded as. -/
theorem encode_eq_piece (hne : buf ≠ []) :
    encode buf = piece buf ++ encode (buf.drop (advance buf)) := by
  obtain ⟨x, rest, rfl⟩ := List.exists_cons_of_ne_nil hne
  cases hx : isalnum x with
  | true =>
      obtain ⟨hpiece, hrest⟩ := piece_alnum hx rest
      rw [hpiece, hrest]
      conv_rhs => rw [← encode_alnum (forall_mem_cons_takeWhile hx), ← encode_append]
      rw [List.cons_append, List.takeWhile_append_dropWhile]
  | false =>
      obtain ⟨hpiece, hrest⟩ := piece_other hx rest
      rw [hpiece, hrest]
      rfl

theorem length_encodeByte_le (x : UInt8) : (encodeByte x).length ≤ 3 := by
  unfold encodeByte
  split <;> simp

theorem length_encode_le (buf : List UInt8) : (encode buf).length ≤ 3 * buf.length := by
  induction buf with
  | nil => rfl
  | cons x buf ih =>
      have hx := length_encodeByte_le x
      rw [encode, List.flatMap_cons, ← encode, List.length_append, List.length_cons]
      omega

theorem length_piece_le (hne : buf ≠ []) : (piece buf).length ≤ buf.length + 2 := by
  obtain ⟨x, rest, rfl⟩ := List.exists_cons_of_ne_nil hne
  rw [List.length_cons]
  cases hx : isalnum x with
  | true =>
      have hle := (List.takeWhile_prefix (l := rest) isalnum).length_le
      rw [(piece_alnum hx rest).1, List.length_cons]
      omega
  | false =>
      have hle := length_encodeByte_le x
      rw [(piece_other hx rest).1]
      omega

theorem flatten_pieces (buf : List UInt8) : (pieces buf).flatten = encode buf := by
  induction buf using pieces.induct with
  | case1 => simp [pieces, encode]
  | case2 buf hne ih => rw [pieces, if_neg hne, List.flatten_cons, ih, encode_eq_piece hne]

theorem length_pieces (buf : List UInt8) : (pieces buf).length = encoderWrites buf := by
  induction buf using pieces.induct with
  | case1 => simp [pieces, encoderWrites]
  | case2 buf hne ih =>
      rw [pieces, if_neg hne, List.length_cons, ih]
      obtain ⟨x, rest, rfl⟩ := List.exists_cons_of_ne_nil hne
      cases hx : isalnum x with
      | true => rw [(piece_alnum hx rest).2, encoderWrites_alnum hx, Nat.add_comm]
      | false =>
          rw [(piece_other hx rest).2, encoderWrites]
          simp [hx, Nat.add_comm]

section

variable {σ : Type} {append : σ → List UInt8 → Option σ} {c c' : σ} {w : WriteStatus}

/-- A status that takes so many more bytes. -/
structure Ready (w : WriteStatus) (more : ℕ) : Prop where
  succeed : w.succeed = true
  finish : w.finish = false
  room : w.bytesWritten + more < 2 ^ 64

theorem Ready.add_neg {more : ℕ} (h : Ready w more) :
    w.add (-1) = some { w with succeed := false, finish := false, writeError := -1 } := by
  rw [WriteStatus.add_neg, if_neg (by simp [h.succeed, h.finish])]

theorem Ready.wrote {k more : ℕ} (h : Ready w (k + more)) :
    Ready { w with bytesWritten := w.bytesWritten + k } more :=
  ⟨h.succeed, h.finish, by rw [Nat.add_assoc]; exact h.room⟩

theorem container_takes {buf : List UInt8} {more : ℕ} (hw : Ready w (buf.length + more))
    (happend : append c buf = some c') (hlen : buf.length < 2 ^ 63) (hne : buf ≠ []) (fuel : ℕ) :
    (container append).writeFullStream (fuel + 2) (c, w) buf =
      some ((c', { w with bytesWritten := w.bytesWritten + buf.length }), some true) := by
  have hpos := List.length_pos_iff.mpr hne
  have hroom := hw.room
  have hadd := WriteStatus.add_of_pos hw.succeed hw.finish hpos hlen (by omega)
  have hwrite : (container append).write (c, w) buf =
      ((c', { w with bytesWritten := w.bytesWritten + buf.length }), .wrote buf.length) := by
    simp only [container, happend, hadd]
  exact Sink.writeFullStream_of_wrote hne (by omega) hwrite hw.succeed fuel

/-- A container that refuses a piece is offered it for ever. -/
theorem not_returns_of_append {buf : List UInt8} {n more : ℕ} (hlt : n < buf.length)
    (hw : Ready w more) (happend : append c (piece (buf.drop n)) = none) (fuel : ℕ) :
    Loop.run (turn (container append) buf) fuel ((c, w), n) = none := by
  apply not_returns_of_refusals (I := fun s : σ × WriteStatus => s.1 = c ∧ Ready s.2 more) hlt ?_
    ⟨rfl, hw⟩
  rintro ⟨c', w'⟩ ⟨rfl, hw'⟩
  refine ⟨(c', { w' with succeed := false, finish := false, writeError := -1 }), ?_, rfl, rfl,
    rfl, rfl, hw'.room⟩
  dsimp only at happend
  simp only [container, happend, hw'.add_neg]

/-- **Containers.**  The encoder ends on a new container that takes all of some data or refuses it
exactly if the container takes every piece. -/
theorem endsWell_container_iff (append : σ → List UInt8 → Option σ) (c : σ) {buf : List UInt8}
    (hlen : buf.length ≤ maxStream) :
    EndsWell (container append) (c, {}) buf ↔ ((pieces buf).foldlM append c).isSome := by
  have hmax : maxStream = (2 ^ 64 - 1) / 3 - 3 := rfl
  -- by the pieces that are left, from any content of the container
  have hloop : ∀ rest c w n, buf.drop n = rest → Ready w (encode rest).length →
      ((∃ s' k, ∃ fuel,
          Loop.run (turn (container append) buf) fuel ((c, w), n) = some (s', some k)) ↔
        ((pieces rest).foldlM append c).isSome) := by
    intro rest
    induction rest using pieces.induct with
    | case1 =>
        intro c w n hdrop _
        have hdone : buf.length ≤ n := List.drop_eq_nil_iff.mp hdrop
        refine iff_of_true ⟨(c, w), n, 1, ?_⟩ (by simp [pieces])
        exact Loop.run_succ_of_leaves (if_pos hdone)
    | case2 rest hne ih =>
        intro c w n hdrop hw
        have hlt : n < buf.length := by
          by_contra hge
          exact hne (hdrop ▸ List.drop_eq_nil_of_le (Nat.not_lt.mp hge))
        rw [pieces, if_neg hne, List.foldlM_cons]
        cases happend : append c (piece rest) with
        | none =>
            refine iff_of_false (fun ⟨s', k, fuel, h⟩ => ?_) (by simp)
            rw [not_returns_of_append hlt hw (by rwa [hdrop])] at h
            cases h
        | some c' =>
            rw [encode_eq_piece hne, List.length_append] at hw
            have hshort : (piece rest).length < 2 ^ 63 := by
              have hle := length_piece_le hne
              have hrest : rest.length ≤ buf.length := by
                rw [← hdrop, List.length_drop]
                exact Nat.sub_le _ _
              omega
            have hwrite := container_takes hw happend hshort (piece_ne_nil hne) 0
            rw [← hdrop] at hwrite
            have hgoes := turn_of_write (D := container append)
              (p := ((c, w), n)) hlt hwrite hw.succeed
            have hnext : buf.drop (n + advance (buf.drop n)) = rest.drop (advance rest) := by
              rw [← List.drop_drop, hdrop]
            simp only [Loop.returns_of_goes_iff grows_turn ⟨_, hgoes⟩]
            refine ih c' _ _ hnext ?_
            rw [hdrop]
            exact hw.wrote
  have hready : Ready {} (encode buf).length := by
    have hle := length_encode_le buf
    refine ⟨rfl, rfl, ?_⟩
    show 0 + (encode buf).length < 2 ^ 64
    omega
  rw [← hloop buf c {} 0 rfl hready]
  refine (endsWell_iff_returns (D := container append)).trans ?_
  unfold writeTo
  simp only [if_neg (Nat.not_lt.mpr hlen)]
  constructor
  · rintro ⟨fuel, s', k, h⟩
    exact ⟨s', k, fuel, h⟩
  · rintro ⟨s', k, fuel, h⟩
    exact ⟨fuel, s', k, h⟩

end

/-- A container of a bounded size, as `B_Base::append` bounds it. -/
def appendBounded (maxSize : ℕ) (c buf : List UInt8) : Option (List UInt8) :=
  if maxSize < buf.length + c.length then none else some (c ++ buf)

/-- One that takes so many writes, and no more. -/
def appendTimes : ℕ → List UInt8 → Option ℕ
  | 0, _ => none
  | times + 1, _ => some times

theorem foldlM_appendBounded {maxSize : ℕ} {c : List UInt8} (hc : c.length ≤ maxSize)
    (bufs : List (List UInt8)) :
    (bufs.foldlM (appendBounded maxSize) c).isSome ↔ c.length + bufs.flatten.length ≤ maxSize := by
  induction bufs generalizing c with
  | nil => simpa using hc
  | cons buf bufs ih =>
      rw [List.foldlM_cons, List.flatten_cons, List.length_append]
      by_cases hover : maxSize < buf.length + c.length
      · rw [appendBounded, if_pos hover]
        refine iff_of_false (by simp) ?_
        omega
      · rw [appendBounded, if_neg hover]
        show (bufs.foldlM (appendBounded maxSize) (c ++ buf)).isSome ↔ _
        rw [ih (by rw [List.length_append]; omega), List.length_append, Nat.add_assoc]

theorem foldlM_appendTimes (times : ℕ) (bufs : List (List UInt8)) :
    (bufs.foldlM appendTimes times).isSome ↔ bufs.length ≤ times := by
  induction bufs generalizing times with
  | nil => simp
  | cons buf bufs ih =>
      rw [List.foldlM_cons, List.length_cons]
      cases times with
      | zero => simp [appendTimes]
      | succ times =>
          show (bufs.foldlM appendTimes times).isSome ↔ _
          rw [ih, Nat.succ_le_succ_iff]

/-- On a container of a bounded size the encoder ends exactly if what it encodes still fits. -/
theorem endsWell_bounded_iff {maxSize : ℕ} {stored buf : List UInt8}
    (hstored : stored.length ≤ maxSize) (hlen : buf.length ≤ maxStream) :
    EndsWell (container (appendBounded maxSize)) (stored, {}) buf ↔
      stored.length + (encode buf).length ≤ maxSize := by
  rw [endsWell_container_iff _ _ hlen, foldlM_appendBounded hstored, flatten_pieces]

/-- On one that fails from some write on, exactly if the encoder writes no more often. -/
theorem endsWell_times_iff {times : ℕ} {buf : List UInt8} (hlen : buf.length ≤ maxStream) :
    EndsWell (container appendTimes) (times, {}) buf ↔ encoderWrites buf ≤ times := by
  rw [endsWell_container_iff _ _ hlen, foldlM_appendTimes, length_pieces]

/-- On one that takes everything it ends. -/
theorem endsWell_everything {stored buf : List UInt8} (hlen : buf.length ≤ maxStream) :
    EndsWell (container fun c buf => some (c ++ buf)) (stored, {}) buf := by
  rw [endsWell_container_iff _ _ hlen]
  generalize pieces buf = bufs
  induction bufs generalizing stored with
  | nil => rfl
  | cons buf bufs ih => exact ih

/-- A blank does not fit into a container of two bytes: the encoder writes it for ever. -/
theorem not_endsWell : ¬ EndsWell (Sink.ofObject StreamableObject.chunks)
    ({ container := { maxSize := 2 } } : StreamableChunks) [32] := by
  rintro ⟨fuel, s', n, h, -⟩
  have hnever : Loop.run (turn (Sink.ofObject StreamableObject.chunks) [32]) fuel
      (({ container := { maxSize := 2 } } : StreamableChunks), 0) = none := by
    apply not_returns_of_refusals (I := fun o : StreamableChunks => o.container = { maxSize := 2 } ∧
      Ready o.writeStatus 0) (by decide) ?_ ⟨rfl, rfl, rfl, by decide⟩
    rintro ⟨c, w⟩ ⟨rfl, hw⟩
    refine ⟨⟨{ maxSize := 2 }, { w with succeed := false, finish := false, writeError := -1 }⟩, ?_,
      rfl, rfl, rfl, rfl, hw.room⟩
    have happend : BChunks.append { maxSize := 2 } false (piece ([32].drop 0)) =
        some ({ maxSize := 2 }, none) := by decide
    dsimp only [Sink.ofObject, StreamableObject.chunks]
    rw [happend]
    dsimp only [Option.elim_none]
    rw [hw.add_neg]
  unfold writeTo at h
  rw [if_neg (by decide)] at h
  exact absurd (hnever.symm.trans h) (by simp)

end Encoders.URL

end Mantids
