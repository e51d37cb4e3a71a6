/-
# The mutual challenge

`CryptoChallenge::mutualChallengeResponseSHA256Auth` (`Net_Sockets/streams_cryptochallenge.cpp`):
two ends that share a key send each other a random value and the hash of the key with both values.

* `Sym` — the characters of a text, where hashes and random values are made of symbols of their own;
* `Knows` — what a peer without the keys can build from what it was sent;
* `step` — any number of runs of the function, over sockets that all lead to that peer;
* `NotCrossed` — the condition: two clients do not answer each other;
* `accepted_from_partner` — who has produced a challenge that was accepted.

The hash is a free constructor and a random value is never guessed.  Everything a run writes is seen
by the peer, which decides what every run reads.
-/
import Mathlib
import Mantids.Lib.Run

namespace Mantids

namespace CryptoChallenge

open Run

/-! ## Texts -/

/-- A character that is neither random nor from a hash. -/
inductive Atom where
  | const (b : UInt8)
  /-- Data of the peer. -/
  | own (n : ℕ)
  /-- Data that the peer does not have. -/
  | secret (n : ℕ)
deriving DecidableEq

inductive Sym where
  | atom (a : Atom)
  /-- A character of the random value of a run. -/
  | random (run i : ℕ)
  /-- A character of the hash of a text. -/
  | sha256 (text : List Sym) (i : ℕ)

mutual

def Sym.decEq : (c d : Sym) → Decidable (c = d)
  | .atom a, .atom b => decidable_of_iff (a = b) (by simp)
  | .random run i, .random run' j => decidable_of_iff (run = run' ∧ i = j) (by simp)
  | .sha256 text i, .sha256 text' j =>
    match Sym.decEqText text text' with
    | .isTrue h => decidable_of_iff (i = j) (by simp [h])
    | .isFalse h => .isFalse (by simp [h])
  | .atom _, .random .. => .isFalse (by simp)
  | .atom _, .sha256 .. => .isFalse (by simp)
  | .random .., .atom _ => .isFalse (by simp)
  | .random .., .sha256 .. => .isFalse (by simp)
  | .sha256 .., .atom _ => .isFalse (by simp)
  | .sha256 .., .random .. => .isFalse (by simp)

def Sym.decEqText : (x y : List Sym) → Decidable (x = y)
  | [], [] => .isTrue rfl
  | [], _ :: _ => .isFalse (by simp)
  | _ :: _, [] => .isFalse (by simp)
  | c :: x, d :: y =>
    match Sym.decEq c d, Sym.decEqText x y with
    | .isTrue h, .isTrue h' => .isTrue (by simp [h, h'])
    | .isFalse h, _ => .isFalse (by simp [h])
    | _, .isFalse h => .isFalse (by simp [h])

end

instance : DecidableEq Sym := Sym.decEq

/-- `createRandomString(64)`, in the run with this number. -/
def createRandomString (run : ℕ) : List Sym := (List.range 64).map (Sym.random run)

/-- `calcSHA256`: 64 hexadecimal digits. -/
def calcSHA256 (text : List Sym) : List Sym := (List.range 64).map (Sym.sha256 text)

def keyText (sharedKey : List Atom) : List Sym := sharedKey.map Sym.atom

/-- What the peer can build from what it was sent.  It takes texts apart and puts them together
freely, so this is about single characters. -/
inductive Knows (sent : List (List Sym)) : Sym → Prop where
  | const (b : UInt8) : Knows sent (.atom (.const b))
  | own (n : ℕ) : Knows sent (.atom (.own n))
  | seen {text : List Sym} {c : Sym} : text ∈ sent → c ∈ text → Knows sent c
  | sha256 {text : List Sym} (i : ℕ) : (∀ c ∈ text, Knows sent c) → Knows sent (.sha256 text i)

/-- The peer does not have the whole key. -/
def IsSecret (sharedKey : List Atom) : Prop := ∃ n, Atom.secret n ∈ sharedKey

/-! ## The runs -/

/-- What a run reads next. -/
inductive ChallengePc where
  | readRandom
  | readChallenge
  | readResult
  | returned (result : Bool × Bool)
deriving DecidableEq

/-- A run of `mutualChallengeResponseSHA256Auth`, with its local variables. -/
structure ChallengeRun where
  sharedKey : List Atom
  server : Bool
  sLocalRandomValue : List Sym
  sRemoteRandomValue : List Sym := []
  /-- The challenge it has written, in full or in part. -/
  localChallenge : Option (List Sym) := none
  sRemoteChallenge : List Sym := []
  bRemoteChallengeOK : Bool := false
  pc : ChallengePc

namespace ChallengeRun

/-- The hash that the remote end has to send. -/
def expected (r : ChallengeRun) : List Sym :=
  calcSHA256 (keyText r.sharedKey ++ r.sLocalRandomValue ++ r.sRemoteRandomValue)

/-- The hash that this end sends, with the key or without it. -/
def challenge (r : ChallengeRun) (withKey : Bool) : List Sym :=
  calcSHA256 ((if withKey then keyText r.sharedKey else []) ++ r.sRemoteRandomValue
    ++ r.sLocalRandomValue)

/-- The run writes a challenge, of which `written` characters get through. -/
def writeChallenge (r : ChallengeRun) (withKey : Bool) (written : ℕ) (next : ChallengePc) :
    ChallengeRun × List Sym :=
  ({ r with
      localChallenge := some (r.challenge withKey)
      pc := if written < 64 then .returned (false, false) else next },
    (r.challenge withKey).take written)

/-- The run reads a text; its next write gets `written` characters through. -/
def receive (r : ChallengeRun) (text : List Sym) (written : ℕ) :
    Option (ChallengeRun × List Sym) :=
  match r.pc with
  | .readRandom =>
    if text.length ≠ 64 then
      some ({ r with sRemoteRandomValue := text, pc := .returned (false, false) }, [])
    else if r.server then
      some ({ r with sRemoteRandomValue := text, pc := .readChallenge }, [])
    else
      some ({ r with sRemoteRandomValue := text }.writeChallenge true written .readChallenge)
  | .readChallenge =>
    if r.server then
      some ({ r with
          sRemoteChallenge := text
          bRemoteChallengeOK := text = r.expected }.writeChallenge
        (text = r.expected) written .readResult)
    else
      some ({ r with
          sRemoteChallenge := text
          bRemoteChallengeOK := text = r.expected
          pc := .readResult }, [])
  | .readResult => none
  | .returned _ => none

/-- The run reads the byte with the remote end's result, or it cannot read it. -/
def readResult (r : ChallengeRun) (result : Option UInt8) : Option ChallengeRun :=
  match r.pc with
  | .readResult =>
    some { r with pc := .returned (r.bRemoteChallengeOK, result = some 1) }
  | _ => none

/-- A read fails. -/
def broken (r : ChallengeRun) : Option ChallengeRun :=
  match r.pc with
  | .readRandom => some { r with pc := .returned (false, false) }
  | .readChallenge => some { r with pc := .returned (false, false) }
  | .readResult => r.readResult none
  | .returned _ => none

end ChallengeRun

/-- All runs, and what the peer was sent. -/
structure Net where
  runs : List ChallengeRun := []
  sent : List (List Sym) := []

inductive ChallengeAction where
  /-- A new run writes its random value. -/
  | start (sharedKey : List Atom) (server : Bool) (written : ℕ)
  | receive (i : ℕ) (text : List Sym) (written : ℕ)
  | result (i : ℕ) (result : UInt8)
  | broken (i : ℕ)

namespace Net

/-- A step.  The output is not used. -/
def step (s : Net) : ChallengeAction → Option (Net × Unit)
  | .start sharedKey server written =>
    some ({
      runs := s.runs ++ [{
        sharedKey, server
        sLocalRandomValue := createRandomString s.runs.length
        pc := if written < 64 then .returned (false, false) else .readRandom }]
      sent := s.sent ++ [(createRandomString s.runs.length).take written] }, ())
  | .receive i text written =>
    (s.runs[i]?.bind (·.receive text written)).map fun r =>
      ({ runs := s.runs.set i r.1, sent := s.sent ++ [r.2] }, ())
  | .result i result =>
    (s.runs[i]?.bind (·.readResult (some result))).map fun r =>
      ({ s with runs := s.runs.set i r }, ())
  | .broken i =>
    (s.runs[i]?.bind (·.broken)).map fun r => ({ s with runs := s.runs.set i r }, ())

/-- The peer sends only what it can build. -/
def Sendable (s : Net) : ChallengeAction → Prop
  | .receive _ text _ => ∀ c ∈ text, Knows s.sent c
  | _ => True

/-! ## The condition -/

/-- A client does not read as random value its own one, nor that of a client with its key that has
read this client's own. -/
def NotCrossed (s : Net) : ChallengeAction → Prop
  | .receive i text _ => ∀ r ∈ s.runs[i]?, r.pc = .readRandom → r.server = false →
      text ≠ r.sLocalRandomValue ∧
      ∀ p ∈ s.runs, p.server = false → p.sharedKey = r.sharedKey → p.sLocalRandomValue = text →
        p.sRemoteRandomValue ≠ r.sLocalRandomValue
  | _ => True

end Net

/-- The run `p` is the other end of `r`: of the other role, with the same key, it has read the
random value of `r` and has written the challenge that `r` has read. -/
structure ChallengeRun.Answers (p r : ChallengeRun) : Prop where
  server : p.server = !r.server
  sharedKey : p.sharedKey = r.sharedKey
  remote : p.sRemoteRandomValue = r.sLocalRandomValue
  loc : p.sLocalRandomValue = r.sRemoteRandomValue
  challenge : p.localChallenge = some r.sRemoteChallenge

/-! ## What the peer can build -/

theorem length_createRandomString (run : ℕ) : (createRandomString run).length = 64 := by
  rw [createRandomString, List.length_map, List.length_range]

theorem createRandomString_inj {run run' : ℕ}
    (h : createRandomString run = createRandomString run') : run = run' := by
  have hhead := congrArg List.head? h
  simpa [createRandomString, List.range_succ_eq_map] using hhead

theorem calcSHA256_inj {text text' : List Sym} (h : calcSHA256 text = calcSHA256 text') :
    text = text' := by
  have hhead := congrArg List.head? h
  simpa [calcSHA256, List.range_succ_eq_map] using hhead

theorem sha256_mem_calcSHA256 (text : List Sym) : Sym.sha256 text 0 ∈ calcSHA256 text :=
  List.mem_map.mpr ⟨0, by simp, rfl⟩

theorem keyText_inj {key key' : List Atom} (h : keyText key = keyText key') : key = key' :=
  List.map_injective_iff.mpr (fun _ _ h => Sym.atom.inj h) h

/-- The two random values have a fixed length, so the parts of a hashed text are told apart. -/
theorem text_inj {key key' : List Atom} {x y x' y' : List Sym}
    (hx : x.length = x'.length) (hy : y.length = y'.length)
    (h : keyText key ++ x ++ y = keyText key' ++ x' ++ y') : key = key' ∧ x = x' ∧ y = y' := by
  obtain ⟨hfirst, rfl⟩ := List.append_inj' h hy
  obtain ⟨hkey, rfl⟩ := List.append_inj' hfirst hx
  exact ⟨keyText_inj hkey, rfl, rfl⟩

/-- What was never sent of a key is not known. -/
theorem Knows.not_secret {sent : List (List Sym)} {n : ℕ}
    (hsent : ∀ text ∈ sent, Sym.atom (.secret n) ∉ text) : ¬ Knows sent (.atom (.secret n)) := by
  intro h
  cases h with
  | seen htext hmem => exact hsent _ htext hmem

/-- A hash of a text with a secret key cannot be built, only passed on. -/
theorem Knows.seen_of_secret {sent : List (List Sym)} {key : List Atom} {x y : List Sym} {i : ℕ}
    (hkey : IsSecret key) (hsent : ∀ text ∈ sent, ∀ n, Sym.atom (.secret n) ∉ text)
    (h : Knows sent (.sha256 (keyText key ++ x ++ y) i)) :
    ∃ text ∈ sent, Sym.sha256 (keyText key ++ x ++ y) i ∈ text := by
  obtain ⟨n, hn⟩ := hkey
  cases h with
  | seen htext hmem => exact ⟨_, htext, hmem⟩
  | sha256 _ hall =>
      have hknows := hall (.atom (.secret n))
        (List.mem_append_left _ (List.mem_append_left _ (List.mem_map.mpr ⟨_, hn, rfl⟩)))
      exact absurd hknows (Knows.not_secret fun text htext => hsent text htext n)

/-! ## A single run -/

namespace ChallengeRun

/-- What holds of the local variables of a run. -/
structure Sound (r : ChallengeRun) : Prop where
  loc : r.sLocalRandomValue.length = 64
  remote : r.pc = .readChallenge → r.sRemoteRandomValue.length = 64
  /-- A challenge is written once. -/
  unsent : r.pc = .readRandom ∨ (r.pc = .readChallenge ∧ r.server = true) →
    r.localChallenge = none
  /-- A server uses the key only when it has accepted. -/
  challenge : ∀ c ∈ r.localChallenge, r.sRemoteRandomValue.length = 64 ∧
    (c = r.challenge true ∧ (r.server = true → r.bRemoteChallengeOK = true) ∨ c = r.challenge false)
  unaccepted : r.pc = .readRandom ∨ r.pc = .readChallenge → r.bRemoteChallengeOK = false
  accepted : r.bRemoteChallengeOK = true →
    r.sRemoteRandomValue.length = 64 ∧ r.sRemoteChallenge = r.expected
  returned : ∀ b, r.pc = .returned (true, b) → r.bRemoteChallengeOK = true

/-- What later steps of a run keep of what it has written. -/
structure Keeps (r r' : ChallengeRun) : Prop where
  server : r'.server = r.server
  sharedKey : r'.sharedKey = r.sharedKey
  loc : r'.sLocalRandomValue = r.sLocalRandomValue
  challenge : ∀ c ∈ r.localChallenge, r'.localChallenge = some c ∧
    r'.sRemoteRandomValue = r.sRemoteRandomValue ∧
    (r.bRemoteChallengeOK = true → r'.bRemoteChallengeOK = true)

/-- The other end of a run stays it. -/
theorem Answers.keeps {p p' r : ChallengeRun} (h : p.Answers r) (hkeeps : p.Keeps p') :
    p'.Answers r := by
  obtain ⟨hchallenge, hremote, -⟩ := hkeeps.challenge _ h.challenge
  exact ⟨hkeeps.server.trans h.server, hkeeps.sharedKey.trans h.sharedKey,
    hremote.trans h.remote, hkeeps.loc.trans h.loc, hchallenge⟩

/-- What the reading of a text does to a run. -/
structure Received (r : ChallengeRun) (text : List Sym) (r' : ChallengeRun) (out : List Sym) :
    Prop where
  sound : r'.Sound
  keeps : r.Keeps r'
  /-- Only a part of a new challenge goes out. -/
  out : ∀ c ∈ out, ∃ x i, c = Sym.sha256 x i ∧ r'.localChallenge = some (calcSHA256 x)
  /-- The run has read the other's random value, or its challenge. -/
  read : (r.pc = .readRandom ∧ r'.sRemoteRandomValue = text ∧ r'.bRemoteChallengeOK = false) ∨
    (r.pc = .readChallenge ∧ r'.sRemoteRandomValue = r.sRemoteRandomValue ∧
      r'.sRemoteChallenge = text ∧ (r'.bRemoteChallengeOK = true ↔ text = r.expected))

theorem mem_take_challenge {r : ChallengeRun} {withKey : Bool} {written : ℕ} {c : Sym}
    (h : c ∈ (r.challenge withKey).take written) :
    ∃ x i, c = Sym.sha256 x i ∧ r.challenge withKey = calcSHA256 x := by
  obtain ⟨i, -, rfl⟩ := List.mem_map.mp (List.mem_of_mem_take h)
  exact ⟨_, i, rfl, rfl⟩

theorem received_of_receive {r r' : ChallengeRun} {text out : List Sym} {written : ℕ}
    (h : r.Sound) (hreceive : r.receive text written = some (r', out)) :
    r.Received text r' out := by
  cases hpc : r.pc with
  | readRandom =>
      have hunsent := h.unsent (Or.inl hpc)
      have hunaccepted := h.unaccepted (Or.inl hpc)
      have hnone : ∀ c ∈ r.localChallenge, False := by simp [hunsent]
      simp only [receive, hpc] at hreceive
      by_cases hlen : text.length = 64
      · rw [if_neg (not_not_intro hlen)] at hreceive
        cases hserver : r.server with
        | true =>
            rw [if_pos hserver] at hreceive
            cases hreceive
            exact {
              sound := ⟨h.loc, fun _ => hlen, fun _ => hunsent,
                fun c hc => (hnone c hc).elim, fun _ => hunaccepted,
                fun hok => absurd hok (by simp [hunaccepted]), fun b hb => (by cases hb)⟩
              keeps := ⟨rfl, rfl, rfl, fun c hc => (hnone c hc).elim⟩
              out := fun c hc => (by cases hc)
              read := Or.inl ⟨hpc, rfl, hunaccepted⟩ }
        | false =>
            rw [if_neg (by simp [hserver])] at hreceive
            cases hreceive
            refine ⟨⟨h.loc, fun _ => hlen, ?_, ?_, fun _ => hunaccepted,
              fun hok => absurd hok (by simp [hunaccepted]), ?_⟩,
              ⟨rfl, rfl, rfl, fun c hc => (hnone c hc).elim⟩, ?_,
              Or.inl ⟨hpc, rfl, hunaccepted⟩⟩
            · rintro (hpc' | ⟨-, hserver'⟩)
              · simp only at hpc'
                split at hpc' <;> cases hpc'
              · exact absurd (hserver'.symm.trans hserver) (by decide)
            · intro c hc
              cases hc
              exact ⟨hlen, Or.inl ⟨rfl, fun hserver' =>
                absurd (hserver'.symm.trans hserver) (by decide)⟩⟩
            · intro b hb
              simp only at hb
              split at hb <;> cases hb
            · intro c hc
              obtain ⟨x, i, hx, hchallenge⟩ := mem_take_challenge hc
              exact ⟨x, i, hx, congrArg some hchallenge⟩
      · rw [if_pos hlen] at hreceive
        cases hreceive
        exact {
          sound := ⟨h.loc, fun hpc' => (by cases hpc'), fun _ => hunsent,
            fun c hc => (hnone c hc).elim, fun _ => hunaccepted,
            fun hok => absurd hok (by simp [hunaccepted]), fun b hb => (by cases hb)⟩
          keeps := ⟨rfl, rfl, rfl, fun c hc => (hnone c hc).elim⟩
          out := fun c hc => (by cases hc)
          read := Or.inl ⟨hpc, rfl, hunaccepted⟩ }
  | readChallenge =>
      have hremote := h.remote hpc
      have hunaccepted := h.unaccepted (Or.inr hpc)
      simp only [receive, hpc] at hreceive
      cases hserver : r.server with
      | true =>
          have hunsent := h.unsent (Or.inr ⟨hpc, hserver⟩)
          have hnone : ∀ c ∈ r.localChallenge, False := by simp [hunsent]
          rw [if_pos hserver] at hreceive
          cases hreceive
          refine ⟨⟨h.loc, fun _ => hremote, ?_, ?_, ?_, ?_, ?_⟩,
            ⟨rfl, rfl, rfl, fun c hc => (hnone c hc).elim⟩, ?_,
            Or.inr ⟨hpc, rfl, rfl, decide_eq_true_iff⟩⟩
          · rintro (hpc' | ⟨hpc', -⟩)
            · simp only at hpc'
              split at hpc' <;> cases hpc'
            · simp only at hpc'
              split at hpc' <;> cases hpc'
          · intro c hc
            cases hc
            refine ⟨hremote, ?_⟩
            by_cases hok : text = r.expected
            · refine Or.inl ⟨?_, fun _ => decide_eq_true hok⟩
              rw [decide_eq_true hok]
              rfl
            · right
              rw [decide_eq_false hok]
              rfl
          · rintro (hpc' | hpc')
            · simp only at hpc'
              split at hpc' <;> cases hpc'
            · simp only at hpc'
              split at hpc' <;> cases hpc'
          · intro hok
            exact ⟨hremote, of_decide_eq_true hok⟩
          · intro b hb
            simp only at hb
            split at hb <;> cases hb
          · intro c hc
            obtain ⟨x, i, hx, hchallenge⟩ := mem_take_challenge hc
            exact ⟨x, i, hx, congrArg some hchallenge⟩
      | false =>
          rw [if_neg (by simp [hserver])] at hreceive
          cases hreceive
          refine ⟨⟨h.loc, fun hpc' => (by cases hpc'), ?_, ?_, ?_, ?_, fun b hb => (by cases hb)⟩,
            ⟨rfl, rfl, rfl, ?_⟩, fun c hc => (by cases hc),
              Or.inr ⟨hpc, rfl, rfl, decide_eq_true_iff⟩⟩
          · rintro (hpc' | ⟨hpc', -⟩)
            · cases hpc'
            · cases hpc'
          · intro c hc
            obtain ⟨hlen, hc⟩ := h.challenge c hc
            refine ⟨hlen, hc.imp (fun hkey => ⟨hkey.1, fun hserver' => ?_⟩) id⟩
            exact absurd (hserver'.symm.trans hserver) (by decide)
          · rintro (hpc' | hpc')
            · cases hpc'
            · cases hpc'
          · intro hok
            exact ⟨hremote, of_decide_eq_true hok⟩
          · intro c hc
            exact ⟨hc, rfl, fun hok => absurd hok (by simp [hunaccepted])⟩
  | readResult => simp [receive, hpc] at hreceive
  | returned result => simp [receive, hpc] at hreceive

/-- The run goes on to its end; only its place changes. -/
structure Ends (r r' : ChallengeRun) : Prop where
  sound : r'.Sound
  eq : ∃ pc, r' = { r with pc }

theorem ends_of_returned {r : ChallengeRun} (h : r.Sound) {ok b : Bool}
    (hok : ok = true → r.bRemoteChallengeOK = true) :
    r.Ends { r with pc := .returned (ok, b) } := by
  refine ⟨⟨h.loc, fun hpc => (by cases hpc), ?_, h.challenge, ?_, h.accepted, ?_⟩, _, rfl⟩
  · rintro (hpc | ⟨hpc, -⟩)
    · cases hpc
    · cases hpc
  · rintro (hpc | hpc)
    · cases hpc
    · cases hpc
  · intro b' hb
    cases hb
    exact hok rfl

theorem ends_of_readResult {r r' : ChallengeRun} {result : Option UInt8} (h : r.Sound)
    (hread : r.readResult result = some r') : r.Ends r' := by
  unfold readResult at hread
  split at hread
  · cases hread
    exact ends_of_returned h id
  · cases hread

theorem ends_of_broken {r r' : ChallengeRun} (h : r.Sound) (hbroken : r.broken = some r') :
    r.Ends r' := by
  unfold broken at hbroken
  split at hbroken
  · cases hbroken
    exact ends_of_returned h (by simp)
  · cases hbroken
    exact ends_of_returned h (by simp)
  · exact ends_of_readResult h hbroken
  · cases hbroken

theorem Ends.keeps {r r' : ChallengeRun} (h : r.Ends r') : r.Keeps r' := by
  obtain ⟨pc, rfl⟩ := h.eq
  exact ⟨rfl, rfl, rfl, fun _ hc => ⟨hc, rfl, id⟩⟩

end ChallengeRun

/-! ## All runs -/

namespace Net

open ChallengeRun

/-- The runs of a role that have accepted a challenge have another end. -/
def Met (s : Net) (server : Bool) : Prop :=
  ∀ r ∈ s.runs, r.server = server → IsSecret r.sharedKey → r.bRemoteChallengeOK = true →
    ∃ p ∈ s.runs, p.Answers r

/-- What holds whatever the peer sends. -/
structure Honest (s : Net) : Prop where
  sound : ∀ r ∈ s.runs, r.Sound
  numbered : ∀ i r, s.runs[i]? = some r → r.sLocalRandomValue = createRandomString i
  secret : ∀ text ∈ s.sent, ∀ n, Sym.atom (.secret n) ∉ text
  hashes : ∀ text ∈ s.sent, ∀ x i, Sym.sha256 x i ∈ text →
    ∃ p ∈ s.runs, p.localChallenge = some (calcSHA256 x)
  servers : s.Met true

/-- No two clients with the same key have read each other's random value, and none its own. -/
def Uncrossed (s : Net) : Prop :=
  ∀ p ∈ s.runs, ∀ q ∈ s.runs, p.server = false → q.server = false → p.sharedKey = q.sharedKey →
    p.sRemoteRandomValue = q.sLocalRandomValue → q.sRemoteRandomValue ≠ p.sLocalRandomValue

theorem mem_set_or_eq {runs : List ChallengeRun} {i : ℕ} {r p : ChallengeRun} (r' : ChallengeRun)
    (hr : runs[i]? = some r) (hp : p ∈ runs) : p ∈ runs.set i r' ∨ p = r := by
  obtain ⟨j, hj⟩ := List.mem_iff_getElem?.mp hp
  by_cases hij : i = j
  · subst hij
    rw [hr] at hj
    exact Or.inr (Option.some.inj hj).symm
  · refine Or.inl (List.mem_of_getElem? (i := j) ?_)
    rw [List.getElem?_set_ne hij, hj]

theorem mem_set_self {runs : List ChallengeRun} {i : ℕ} {r : ChallengeRun} (r' : ChallengeRun)
    (hr : runs[i]? = some r) : r' ∈ runs.set i r' := by
  obtain ⟨hlt, -⟩ := List.getElem?_eq_some_iff.mp hr
  exact List.mem_set hlt r'

/-- The other end of a run is still there after a step of any run. -/
theorem exists_answers_set {runs : List ChallengeRun} {i : ℕ} {r r' p q : ChallengeRun}
    (hr : runs[i]? = some r) (hkeeps : r.Keeps r') (hp : p ∈ runs) (h : p.Answers q) :
    ∃ p ∈ runs.set i r', p.Answers q := by
  rcases mem_set_or_eq r' hr hp with hp | rfl
  · exact ⟨p, hp, h⟩
  · exact ⟨r', mem_set_self r' hr, h.keeps hkeeps⟩

theorem Honest.eq_of_loc {s : Net} (h : s.Honest) {p q : ChallengeRun} (hp : p ∈ s.runs)
    (hq : q ∈ s.runs) (hloc : p.sLocalRandomValue = q.sLocalRandomValue) : p = q := by
  obtain ⟨i, hi⟩ := List.mem_iff_getElem?.mp hp
  obtain ⟨j, hj⟩ := List.mem_iff_getElem?.mp hq
  rw [h.numbered i p hi, h.numbered j q hj] at hloc
  rw [createRandomString_inj hloc, hj] at hi
  exact (Option.some.inj hi).symm

/-- Who has produced a challenge that a run expects. -/
theorem Honest.producer {s : Net} (h : s.Honest) {r : ChallengeRun} (hr : r ∈ s.runs)
    (hpc : r.pc = .readChallenge) (hkey : IsSecret r.sharedKey)
    (hknows : ∀ c ∈ r.expected, Knows s.sent c) :
    ∃ p ∈ s.runs, p.sharedKey = r.sharedKey ∧ p.sRemoteRandomValue = r.sLocalRandomValue ∧
      p.sLocalRandomValue = r.sRemoteRandomValue ∧ p.localChallenge = some r.expected ∧
      (p.server = true → p.bRemoteChallengeOK = true) := by
  have hremote := (h.sound r hr).remote hpc
  have hloc := (h.sound r hr).loc
  -- The hash was not built by the peer: it was sent by a run.
  obtain ⟨text, htext, hmem⟩ :=
    Knows.seen_of_secret hkey h.secret (hknows _ (sha256_mem_calcSHA256 _))
  obtain ⟨p, hp, hsent⟩ := h.hashes text htext _ _ hmem
  obtain ⟨hremote', hkinds⟩ := (h.sound p hp).challenge _ hsent
  have hloc' := (h.sound p hp).loc
  rcases hkinds with ⟨heq, hserver⟩ | heq
  · obtain ⟨hkeys, hlocal, hrandom⟩ :=
      text_inj (hloc.trans hremote'.symm) (hremote.trans hloc'.symm) (calcSHA256_inj heq)
    exact ⟨p, hp, hkeys.symm, hlocal.symm, hrandom.symm, hsent, hserver⟩
  · -- Without the key the text is too short.
    have hlength := congrArg List.length (calcSHA256_inj heq)
    simp only [Bool.false_eq_true, if_false, List.nil_append, List.length_append, keyText,
      List.length_map] at hlength
    obtain ⟨n, hn⟩ := hkey
    have hpos := List.length_pos_of_mem hn
    omega

/-! ## What a step keeps -/

/-- A step of one run, and what goes out. -/
theorem Honest.set {s : Net} (h : s.Honest) {i : ℕ} {r r' : ChallengeRun}
    (hr : s.runs[i]? = some r) (hsound : r'.Sound) (hkeeps : r.Keeps r')
    {sent : List (List Sym)} (hsent : ∀ text ∈ sent, text ∈ s.sent ∨
      ∀ c ∈ text, ∃ x k, c = Sym.sha256 x k ∧ r'.localChallenge = some (calcSHA256 x))
    (hmet : Met { runs := s.runs.set i r', sent } true) :
    Honest { runs := s.runs.set i r', sent } := by
  refine ⟨?_, ?_, ?_, ?_, hmet⟩
  · intro q hq
    rcases List.mem_or_eq_of_mem_set hq with hq | rfl
    · exact h.sound q hq
    · exact hsound
  · intro j q hq
    by_cases hij : i = j
    · subst hij
      obtain ⟨hlt, -⟩ := List.getElem?_eq_some_iff.mp hr
      rw [List.getElem?_set_self hlt] at hq
      cases hq
      exact hkeeps.loc.trans (h.numbered i r hr)
    · rw [List.getElem?_set_ne hij] at hq
      exact h.numbered j q hq
  · intro text htext n hmem
    rcases hsent text htext with htext | hnew
    · exact h.secret text htext n hmem
    · obtain ⟨x, k, hx, -⟩ := hnew _ hmem
      cases hx
  · intro text htext x k hmem
    rcases hsent text htext with htext | hnew
    · obtain ⟨p, hp, hchallenge⟩ := h.hashes text htext x k hmem
      rcases mem_set_or_eq r' hr hp with hp | rfl
      · exact ⟨p, hp, hchallenge⟩
      · exact ⟨r', mem_set_self r' hr, (hkeeps.challenge _ hchallenge).1⟩
    · obtain ⟨y, l, hy, hchallenge⟩ := hnew _ hmem
      cases hy
      exact ⟨r', mem_set_self r' hr, hchallenge⟩

/-- A run that goes to its end. -/
theorem Met.ends {s : Net} {server : Bool} (h : s.Met server) {i : ℕ} {r r' : ChallengeRun}
    (hr : s.runs[i]? = some r) (hends : r.Ends r') :
    Met { s with runs := s.runs.set i r' } server := by
  intro q hq hserver hkey hok
  have hold : ∃ p ∈ s.runs, p.Answers q := by
    rcases List.mem_or_eq_of_mem_set hq with hq | rfl
    · exact h q hq hserver hkey hok
    · obtain ⟨pc, rfl⟩ := hends.eq
      obtain ⟨p, hp, ha⟩ := h r (List.mem_of_getElem? hr) hserver hkey hok
      exact ⟨p, hp, ha.server, ha.sharedKey, ha.remote, ha.loc, ha.challenge⟩
  obtain ⟨p, hp, ha⟩ := hold
  exact exists_answers_set hr hends.keeps hp ha

/-- A run that reads a text.  Where it accepts it, the producer has to be of the other role. -/
theorem Met.receive {s : Net} {server : Bool} (h : s.Met server) (hhonest : s.Honest) {i : ℕ}
    {r r' : ChallengeRun} {text out : List Sym} (hr : s.runs[i]? = some r)
    (hreceived : r.Received text r' out) (hknows : ∀ c ∈ text, Knows s.sent c)
    (hother : r.server = server → IsSecret r.sharedKey → ∀ p ∈ s.runs,
      p.sharedKey = r.sharedKey → p.sRemoteRandomValue = r.sLocalRandomValue →
      p.sLocalRandomValue = r.sRemoteRandomValue →
      (p.server = true → p.bRemoteChallengeOK = true) → p.server = !server)
    (sent : List (List Sym)) : Met { runs := s.runs.set i r', sent } server := by
  intro q hq hserver hkey hok
  have hold : ∃ p ∈ s.runs, p.Answers q := by
    rcases List.mem_or_eq_of_mem_set hq with hq | rfl
    · exact h q hq hserver hkey hok
    · have hrmem := List.mem_of_getElem? hr
      rw [hreceived.keeps.server] at hserver
      rw [hreceived.keeps.sharedKey] at hkey
      rcases hreceived.read with ⟨-, -, hno⟩ | ⟨hpc, hremote, htext, haccept⟩
      · exact absurd (hok.symm.trans hno) (by decide)
      · have heq := haccept.mp hok
        rw [heq] at hknows
        obtain ⟨p, hp, hkeys, hlocal, hrandom, hsent, honest⟩ :=
          hhonest.producer hrmem hpc hkey hknows
        refine ⟨p, hp, ⟨?_, ?_, ?_, ?_, ?_⟩⟩
        · rw [hreceived.keeps.server, hserver]
          exact hother hserver hkey p hp hkeys hlocal hrandom honest
        · rw [hreceived.keeps.sharedKey, hkeys]
        · rw [hreceived.keeps.loc, hlocal]
        · rw [hremote, hrandom]
        · rw [htext, heq, hsent]
  obtain ⟨p, hp, ha⟩ := hold
  exact exists_answers_set hr hreceived.keeps hp ha

/-- A server does not accept the challenge of a server: that one has accepted a challenge before,
and only this one could have produced it. -/
theorem Honest.producer_of_server {s : Net} (h : s.Honest) {r p : ChallengeRun} (hr : r ∈ s.runs)
    (hserver : r.server = true) (hkey : IsSecret r.sharedKey) (hp : p ∈ s.runs)
    (hkeys : p.sharedKey = r.sharedKey) (hlocal : p.sRemoteRandomValue = r.sLocalRandomValue)
    (hok : p.server = true → p.bRemoteChallengeOK = true) : p.server = !true := by
  cases hp' : p.server with
  | false => rfl
  | true =>
      obtain ⟨q, hq, ha⟩ := h.servers p hp hp' (hkeys ▸ hkey) (hok hp')
      have hqr : q = r := h.eq_of_loc hq hr (ha.loc.trans hlocal)
      have hclient := ha.server
      rw [hqr, hserver, hp'] at hclient
      exact absurd hclient (by decide)

/-- Two clients do not accept each other's challenge where none has read the other's value. -/
theorem Uncrossed.producer_of_client {s : Net} (h : s.Uncrossed) {r p : ChallengeRun}
    (hr : r ∈ s.runs) (hserver : r.server = false) (hp : p ∈ s.runs)
    (hkeys : p.sharedKey = r.sharedKey) (hlocal : p.sRemoteRandomValue = r.sLocalRandomValue)
    (hrandom : p.sLocalRandomValue = r.sRemoteRandomValue) : p.server = !false := by
  cases hp' : p.server with
  | true => rfl
  | false => exact absurd hrandom.symm (h p hp r hr hp' hserver hkeys hlocal)

/-- The run that `start` adds. -/
theorem sound_start (sharedKey : List Atom) (server : Bool) (n written : ℕ) :
    Sound {
      sharedKey, server
      sLocalRandomValue := createRandomString n
      pc := if written < 64 then .returned (false, false) else .readRandom } := by
  refine ⟨length_createRandomString n, ?_, fun _ => rfl, fun c hc => (by cases hc), fun _ => rfl,
    fun hok => (by cases hok), ?_⟩
  · intro hpc
    simp only at hpc
    split at hpc <;> cases hpc
  · intro b hb
    simp only at hb
    split at hb <;> cases hb

theorem Met.start {s : Net} {server : Bool} (h : s.Met server) {r : ChallengeRun}
    (hno : r.bRemoteChallengeOK = false) (sent : List (List Sym)) :
    Met { runs := s.runs ++ [r], sent } server := by
  intro q hq hserver hkey hok
  rcases List.mem_append.mp hq with hq | hq
  · obtain ⟨p, hp, ha⟩ := h q hq hserver hkey hok
    exact ⟨p, List.mem_append_left _ hp, ha⟩
  · rw [List.mem_singleton.mp hq] at hok
    exact absurd (hok.symm.trans hno) (by decide)

theorem Honest.start {s : Net} (h : s.Honest) (sharedKey : List Atom) (server : Bool)
    (written : ℕ) :
    Honest {
      runs := s.runs ++ [{
        sharedKey, server
        sLocalRandomValue := createRandomString s.runs.length
        pc := if written < 64 then .returned (false, false) else .readRandom }]
      sent := s.sent ++ [(createRandomString s.runs.length).take written] } := by
  -- What goes out is random.
  have hout : ∀ c ∈ (createRandomString s.runs.length).take written, ∃ k,
      c = Sym.random s.runs.length k := by
    intro c hc
    obtain ⟨k, -, rfl⟩ := List.mem_map.mp (List.mem_of_mem_take hc)
    exact ⟨k, rfl⟩
  refine ⟨?_, ?_, ?_, ?_, h.servers.start rfl _⟩
  · intro q hq
    rcases List.mem_append.mp hq with hq | hq
    · exact h.sound q hq
    · rw [List.mem_singleton.mp hq]
      exact sound_start sharedKey server _ written
  · intro j q hq
    rw [List.getElem?_append] at hq
    split at hq
    · exact h.numbered j q hq
    · rename_i hj
      obtain ⟨hlt, rfl⟩ := List.getElem?_eq_some_iff.mp hq
      rw [List.length_singleton] at hlt
      have hj : j = s.runs.length := by omega
      simp [hj]
  · intro text htext n hmem
    rcases List.mem_append.mp htext with htext | htext
    · exact h.secret text htext n hmem
    · rw [List.mem_singleton.mp htext] at hmem
      obtain ⟨k, hk⟩ := hout _ hmem
      cases hk
  · intro text htext x k hmem
    rcases List.mem_append.mp htext with htext | htext
    · obtain ⟨p, hp, hchallenge⟩ := h.hashes text htext x k hmem
      exact ⟨p, List.mem_append_left _ hp, hchallenge⟩
    · rw [List.mem_singleton.mp htext] at hmem
      obtain ⟨l, hl⟩ := hout _ hmem
      cases hl

/-- What a step does: a run is added, or it reads a text, or it goes to its end. -/
theorem step_cases {s s' : Net} {action : ChallengeAction} {o : Unit} (h : s.Honest)
    (hstep : s.step action = some (s', o)) :
    (∃ sharedKey server written, action = .start sharedKey server written ∧
      s' = {
        runs := s.runs ++ [{
          sharedKey, server
          sLocalRandomValue := createRandomString s.runs.length
          pc := if written < 64 then .returned (false, false) else .readRandom }]
        sent := s.sent ++ [(createRandomString s.runs.length).take written] }) ∨
    (∃ i text written r r' out, action = .receive i text written ∧ s.runs[i]? = some r ∧
      r.Received text r' out ∧ s' = { runs := s.runs.set i r', sent := s.sent ++ [out] }) ∨
    (∃ i r r', s.runs[i]? = some r ∧ r.Ends r' ∧ s' = { s with runs := s.runs.set i r' }) := by
  cases action with
  | start sharedKey server written =>
      cases hstep
      exact Or.inl ⟨sharedKey, server, written, rfl, rfl⟩
  | receive i text written =>
      simp only [step, Option.map_eq_some_iff, Option.bind_eq_some_iff, Prod.mk.injEq] at hstep
      obtain ⟨⟨r', out⟩, ⟨r, hr, hreceive⟩, rfl, -⟩ := hstep
      have hsound := h.sound r (List.mem_of_getElem? hr)
      exact Or.inr (Or.inl ⟨i, text, written, r, r', out, rfl, hr,
        received_of_receive hsound hreceive, rfl⟩)
  | result i result =>
      simp only [step, Option.map_eq_some_iff, Option.bind_eq_some_iff, Prod.mk.injEq] at hstep
      obtain ⟨r', ⟨r, hr, hread⟩, rfl, -⟩ := hstep
      have hsound := h.sound r (List.mem_of_getElem? hr)
      exact Or.inr (Or.inr ⟨i, r, r', hr, ends_of_readResult hsound hread, rfl⟩)
  | broken i =>
      simp only [step, Option.map_eq_some_iff, Option.bind_eq_some_iff, Prod.mk.injEq] at hstep
      obtain ⟨r', ⟨r, hr, hbroken⟩, rfl, -⟩ := hstep
      have hsound := h.sound r (List.mem_of_getElem? hr)
      exact Or.inr (Or.inr ⟨i, r, r', hr, ends_of_broken hsound hbroken, rfl⟩)

theorem Honest.step {s s' : Net} {action : ChallengeAction} {o : Unit} (h : s.Honest)
    (hsendable : s.Sendable action) (hstep : s.step action = some (s', o)) : s'.Honest := by
  obtain ⟨sharedKey, server, written, rfl, rfl⟩ |
    ⟨i, text, written, r, r', out, rfl, hr, hreceived, rfl⟩ | ⟨i, r, r', hr, hends, rfl⟩ :=
    step_cases h hstep
  · exact h.start sharedKey server written
  · refine h.set hr hreceived.sound hreceived.keeps ?_ ?_
    · intro text' htext
      rcases List.mem_append.mp htext with htext | htext
      · exact Or.inl htext
      · rw [List.mem_singleton.mp htext]
        exact Or.inr hreceived.out
    · refine h.servers.receive h hr hreceived hsendable ?_ _
      intro hserver hkey p hp hkeys hlocal _ hok
      exact h.producer_of_server (List.mem_of_getElem? hr) hserver hkey hp hkeys hlocal hok
  · exact h.set hr hends.sound hends.keeps (fun _ htext => Or.inl htext) (h.servers.ends hr hends)

/-- A step of a run that does not read a random value. -/
theorem Uncrossed.set_of_same {s : Net} (h : s.Uncrossed) {i : ℕ} {r r' : ChallengeRun}
    (hr : s.runs[i]? = some r) (hkeeps : r.Keeps r')
    (hremote : r'.sRemoteRandomValue = r.sRemoteRandomValue) {sent : List (List Sym)} :
    Uncrossed { runs := s.runs.set i r', sent } := by
  -- Every run looks like one from before.
  have hold : ∀ q ∈ s.runs.set i r', ∃ q₀ ∈ s.runs, q.server = q₀.server ∧
      q.sharedKey = q₀.sharedKey ∧ q.sLocalRandomValue = q₀.sLocalRandomValue ∧
      q.sRemoteRandomValue = q₀.sRemoteRandomValue := by
    intro q hq
    rcases List.mem_or_eq_of_mem_set hq with hq | rfl
    · exact ⟨q, hq, rfl, rfl, rfl, rfl⟩
    · exact ⟨r, List.mem_of_getElem? hr, hkeeps.server, hkeeps.sharedKey, hkeeps.loc, hremote⟩
  intro p hp q hq hpclient hqclient hkeys hlocal hrandom
  obtain ⟨p₀, hp₀, hps, hpk, hpl, hpr⟩ := hold p hp
  obtain ⟨q₀, hq₀, hqs, hqk, hql, hqr⟩ := hold q hq
  rw [hps] at hpclient
  rw [hqs] at hqclient
  rw [hpk, hqk] at hkeys
  rw [hpr, hql] at hlocal
  rw [hqr, hpl] at hrandom
  exact h p₀ hp₀ q₀ hq₀ hpclient hqclient hkeys hlocal hrandom

/-- The clients' invariant, under the condition. -/
theorem Uncrossed.step {s s' : Net} {action : ChallengeAction} {o : Unit} (h : s.Uncrossed)
    (hhonest : s.Honest) (hguard : s.NotCrossed action) (hstep : s.step action = some (s', o)) :
    s'.Uncrossed := by
  obtain ⟨sharedKey, server, written, rfl, rfl⟩ |
    ⟨i, text, written, r, r', out, rfl, hr, hreceived, rfl⟩ | ⟨i, r, r', hr, hends, rfl⟩ :=
    step_cases hhonest hstep
  · intro p hp q hq hpc hqc hkeys hlocal hrandom
    -- The new run has not read a value, and an empty text is not random.
    have hloc : ∀ q ∈ s.runs ++ [{
        sharedKey, server
        sLocalRandomValue := createRandomString s.runs.length
        pc := if written < 64 then .returned (false, false) else .readRandom }],
        q.sLocalRandomValue ≠ [] := by
      intro q hq
      rw [← List.length_pos_iff, ((hhonest.start sharedKey server written).sound q hq).loc]
      decide
    rcases List.mem_append.mp hp with hp' | hp'
    · rcases List.mem_append.mp hq with hq' | hq'
      · exact h p hp' q hq' hpc hqc hkeys hlocal hrandom
      · rw [List.mem_singleton.mp hq'] at hrandom
        exact hloc p hp hrandom.symm
    · rw [List.mem_singleton.mp hp'] at hlocal
      exact hloc q hq hlocal.symm
  · have hrmem := List.mem_of_getElem? hr
    rcases hreceived.read with ⟨hpc, hremote, -⟩ | ⟨-, hremote, -⟩
    · intro p hp q hq hpclient hqclient hkeys hlocal hrandom
      rcases List.mem_or_eq_of_mem_set hp with hpold | rfl
      · rcases List.mem_or_eq_of_mem_set hq with hqold | rfl
        · exact h p hpold q hqold hpclient hqclient hkeys hlocal hrandom
        · rw [hreceived.keeps.server] at hqclient
          rw [hreceived.keeps.loc] at hlocal
          rw [hreceived.keeps.sharedKey] at hkeys
          exact (hguard r hr hpc hqclient).2 p hpold hpclient hkeys
            (hrandom.symm.trans hremote) hlocal
      · rw [hreceived.keeps.server] at hpclient
        rw [hreceived.keeps.loc] at hrandom
        rw [hreceived.keeps.sharedKey] at hkeys
        obtain ⟨hself, hothers⟩ := hguard r hr hpc hpclient
        rcases List.mem_or_eq_of_mem_set hq with hqold | rfl
        · exact hothers q hqold hqclient hkeys.symm (hlocal.symm.trans hremote) hrandom
        · rw [hreceived.keeps.loc] at hlocal
          exact hself (hremote.symm.trans hlocal)
    · exact h.set_of_same hr hreceived.keeps hremote
  · obtain ⟨pc, rfl⟩ := hends.eq
    exact h.set_of_same hr hends.keeps rfl

theorem Honest.empty : Honest {} :=
  ⟨fun _ hr => (by cases hr), fun _ _ hr => (by simp at hr), fun _ htext => (by cases htext),
    fun _ htext => (by cases htext), fun _ hr => (by cases hr)⟩

/-- The clients that have accepted a challenge have a server, under the condition. -/
theorem clients_step {s s' : Net} {action : ChallengeAction} {o : Unit} (h : s.Met false)
    (hhonest : s.Honest) (huncrossed : s.Uncrossed) (hsendable : s.Sendable action)
    (hstep : s.step action = some (s', o)) : s'.Met false := by
  obtain ⟨sharedKey, server, written, rfl, rfl⟩ |
    ⟨i, text, written, r, r', out, rfl, hr, hreceived, rfl⟩ | ⟨i, r, r', hr, hends, rfl⟩ :=
    step_cases hhonest hstep
  · exact h.start rfl _
  · refine h.receive hhonest hr hreceived hsendable ?_ _
    intro hserver _ p hp hkeys hlocal hrandom _
    exact huncrossed.producer_of_client (List.mem_of_getElem? hr) hserver hp hkeys hlocal hrandom
  · exact h.ends hr hends

/-! ## Who has produced an accepted challenge -/

/-- **An accepted challenge comes from the other end.**  However many runs there are, with whatever
keys, and whatever the peer sends that it can build: where a run returns with its first value `true`
and the peer does not have its key, the challenge that it has read was written, in a run of the
other role with the same key, for the random values of both.  Where the run is a client's, this is
so if no client in the whole run reads a random value across. -/
theorem accepted_from_partner (actions : List ChallengeAction)
    (hsendable : Guarded step Sendable {} actions) :
    ∀ t ∈ transitions step {} actions, ∀ r ∈ t.after.runs, ∀ b,
      r.pc = .returned (true, b) → IsSecret r.sharedKey →
      (r.server = false → Guarded step NotCrossed {} actions) →
      ∃ p ∈ t.after.runs, p.Answers r := by
  intro t ht r hr b hpc hkey hcondition
  have hhonest : t.after.Honest :=
    (hsendable.invariant Honest (fun s a s' _ h hG hstep => h.step hG hstep) Honest.empty t ht).2
  have hok := (hhonest.sound r hr).returned b hpc
  cases hserver : r.server with
  | true => exact hhonest.servers r hr hserver hkey hok
  | false =>
      have hboth : Guarded step (fun s a => s.Sendable a ∧ s.NotCrossed a) {} actions :=
        fun u hu => ⟨hsendable u hu, hcondition hserver u hu⟩
      have hinv := hboth.invariant (fun s => s.Honest ∧ s.Uncrossed ∧ s.Met false)
        (fun s a s' _ h hG hstep => ⟨h.1.step hG.1 hstep, h.2.1.step h.1 hG.2 hstep,
          clients_step h.2.2 h.1 h.2.1 hG.1 hstep⟩)
        ⟨Honest.empty, fun _ hp => (by cases hp), fun _ hr => (by cases hr)⟩ t ht
      exact hinv.2.2.2 r hr hserver hkey hok

/-- A client and a server, whose texts the peer passes on. -/
def relayed : List ChallengeAction :=
  [.start [.secret 0] false 64, .start [.secret 0] true 64,
    .receive 0 (createRandomString 1) 64, .receive 1 (createRandomString 0) 64,
    .receive 1 (calcSHA256 (keyText [.secret 0] ++ createRandomString 1 ++ createRandomString 0))
      64,
    .receive 0 (calcSHA256 (keyText [.secret 0] ++ createRandomString 0 ++ createRandomString 1))
      64,
    .result 0 1]

theorem knows_of_mem {sent : List (List Sym)} {text : List Sym} (h : text ∈ sent) :
    ∀ c ∈ text, Knows sent c := fun _ hc => .seen h hc

theorem accepted_from_partner_relayed :
    ∃ t ∈ transitions step {} relayed, ∃ r ∈ t.after.runs, r.server = false ∧
      r.pc = .returned (true, true) ∧ ∃ p ∈ t.after.runs, p.Answers r := by
  have hrun : transitions step {} relayed = [_, _, _, _, _, _, _] := rfl
  have hsendable : Guarded step Sendable {} relayed := by
    intro t ht
    rw [hrun] at ht
    simp only [List.mem_cons, List.not_mem_nil, or_false] at ht
    obtain rfl | rfl | rfl | rfl | rfl | rfl | rfl := ht
    · trivial
    · trivial
    · exact knows_of_mem (by decide)
    · exact knows_of_mem (by decide)
    · exact knows_of_mem (by decide)
    · exact knows_of_mem (by decide)
    · trivial
  have hcondition : Guarded step NotCrossed {} relayed := by
    intro t ht
    rw [hrun] at ht
    simp only [List.mem_cons, List.not_mem_nil, or_false] at ht
    obtain rfl | rfl | rfl | rfl | rfl | rfl | rfl := ht
    · trivial
    · trivial
    · rintro r hr - -
      cases hr
      refine ⟨by decide, fun p hp hclient _ hloc => ?_⟩
      -- The server's value is not the client's own.
      obtain rfl | rfl := List.mem_pair.mp hp
      · exact absurd hloc (by decide)
      · cases hclient
    · rintro r hr - hclient
      cases hr
      cases hclient
    · rintro r hr - hclient
      cases hr
      cases hclient
    · rintro r hr hpc -
      cases hr
      cases hpc
    · trivial
  have hmem := List.getElem_mem (l := transitions step {} relayed) (n := 6) (by decide)
  have hr := List.getElem_mem (l := (transitions step {} relayed)[6].after.runs) (n := 0)
    (by decide)
  exact ⟨_, hmem, _, hr, rfl, rfl,
    accepted_from_partner relayed hsendable _ hmem _ hr true rfl ⟨0, List.mem_singleton.mpr rfl⟩
      (fun _ => hcondition)⟩

/-! ## A client that answers itself -/

/-- A client whose texts are sent back to it. -/
def reflected : List ChallengeAction :=
  [.start [.secret 0] false 64, .receive 0 (createRandomString 0) 64,
    .receive 0 (calcSHA256 (keyText [.secret 0] ++ createRandomString 0 ++ createRandomString 0))
      64,
    .result 0 1]

/-- The peer does not need the key: it sends a client's random value and its challenge back to it,
and the client returns `true`.  There is no server at all. -/
theorem reflection_accepted :
    Guarded step Sendable {} reflected ∧
    ∃ t ∈ transitions step {} reflected, ∃ r ∈ t.after.runs, r.server = false ∧
      r.pc = .returned (true, true) ∧ IsSecret r.sharedKey ∧
      ∀ p ∈ t.after.runs, p.server = false := by
  have hrun : transitions step {} reflected = [_, _, _, _] := rfl
  refine ⟨?_, ?_⟩
  · intro t ht
    rw [hrun] at ht
    simp only [List.mem_cons, List.not_mem_nil, or_false] at ht
    obtain rfl | rfl | rfl | rfl := ht
    · trivial
    · exact knows_of_mem (by decide)
    · exact knows_of_mem (by decide)
    · trivial
  · have hmem := List.getElem_mem (l := transitions step {} reflected) (n := 3) (by decide)
    have hr := List.getElem_mem (l := (transitions step {} reflected)[3].after.runs) (n := 0)
      (by decide)
    refine ⟨_, hmem, _, hr, rfl, rfl, ⟨0, List.mem_singleton.mpr rfl⟩, ?_⟩
    intro p hp
    rw [List.mem_singleton.mp hp]
    rfl

end Net

end CryptoChallenge

end Mantids
