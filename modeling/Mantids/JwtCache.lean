/-
# The bytes of the token cache

`JWT::Cache` (`DataFormat_JWT/jwt_cache.cpp`) keeps verified payloads in a set for the lookups and
in a queue for the order of eviction, and counts the bytes of the queue.

* `Cache.step` — the five operations;
* `Accounts` — the count is that of the queue and within its limit, and what is found is queued;
* `EmptiesNothing` — the condition: a cache is cleared or switched off while it holds no bytes;
* `accounts_iff` — the accounts are right along a run exactly if its steps meet the condition.

`clear` and `setEnabled(false)` empty the queue and the set, but not the counter.  Bytes that were
counted for the old queue are then taken from payloads that are not there.
-/
import Mantids.Jwt

namespace Mantids

namespace JWT

namespace Cache

/-! ## Operations -/

inductive Op where
  | add (payload : Bytes)
  | clear
  | setEnabled (newEnabled : Bool)
  | setCacheMaxByteCount (maxByteCount : ℕ)
  | checkToken (payload : Bytes)
deriving DecidableEq

/-- One operation, with the answer of a lookup; `none` if it takes the front of an empty queue. -/
def step (c : Cache) : Op → Option (Cache × Option Bool)
  | .add payload => (c.add payload).map (·, none)
  | .clear => some (c.clear, none)
  | .setEnabled newEnabled => some (c.setEnabled newEnabled, none)
  | .setCacheMaxByteCount maxByteCount => (c.setCacheMaxByteCount maxByteCount).map (·, none)
  | .checkToken payload => some (c, some (c.checkToken payload))

/-- The bytes of some payloads. -/
def byteCount (queue : List Bytes) : ℕ := (queue.map List.length).sum

@[simp] theorem byteCount_nil : byteCount [] = 0 := rfl

@[simp] theorem byteCount_cons (payload : Bytes) (queue : List Bytes) :
    byteCount (payload :: queue) = payload.length + byteCount queue := by
  simp [byteCount]

theorem byteCount_append (queue later : List Bytes) :
    byteCount (queue ++ later) = byteCount queue + byteCount later := by
  simp [byteCount]

/-- The counter, the queue and the set agree. -/
structure Accounts (c : Cache) : Prop where
  count : c.cacheCurrentByteCount = byteCount c.cacheQueue
  bounded : c.cacheCurrentByteCount ≤ c.cacheMaxByteCount
  queued : ∀ payload ∈ c.tokenCache, payload ∈ c.cacheQueue

/-- The condition on an operation: one that drops the queue finds no bytes in it. -/
def EmptiesNothing (c : Cache) : Op → Prop
  | .clear => byteCount c.cacheQueue = 0
  | .setEnabled newEnabled => newEnabled = false → byteCount c.cacheQueue = 0
  | _ => True

instance (c : Cache) (op : Op) : Decidable (c.EmptiesNothing op) :=
  match op with
  | .clear => inferInstanceAs (Decidable (byteCount c.cacheQueue = 0))
  | .setEnabled newEnabled =>
    inferInstanceAs (Decidable (newEnabled = false → byteCount c.cacheQueue = 0))
  | .add _ | .setCacheMaxByteCount _ | .checkToken _ => isTrue trivial

/-! ## Eviction -/

/-- A count that is that of the queue reaches the limit before the queue is used up. -/
theorem evictLoop_spec (max : ℕ) (queue : List Bytes) {count : ℕ} {tokens : Finset Bytes}
    (hcount : count = byteCount queue) (hqueued : ∀ payload ∈ tokens, payload ∈ queue) :
    ∃ count' tokens' queue', evictLoop max queue count tokens = some (count', tokens', queue') ∧
      count' = byteCount queue' ∧ count' ≤ max ∧ ∀ payload ∈ tokens', payload ∈ queue' := by
  induction queue generalizing count tokens with
  | nil =>
      subst hcount
      exact ⟨0, tokens, [], by simp [evictLoop], rfl, Nat.zero_le _, hqueued⟩
  | cons p queue ih =>
      unfold evictLoop
      by_cases hle : count ≤ max
      · rw [if_pos hle]
        exact ⟨count, tokens, p :: queue, rfl, hcount, hle, hqueued⟩
      · rw [if_neg hle]
        apply ih
        · rw [hcount, byteCount_cons]
          omega
        · intro payload hmem
          -- the payload that left is not looked up any more, however often it is queued
          obtain ⟨hne, hin⟩ := Finset.mem_erase.mp hmem
          exact (List.mem_cons.mp (hqueued payload hin)).resolve_left hne

/-- Eviction goes through and leaves right accounts. -/
theorem evictCache_accounts {c : Cache} (hcount : c.cacheCurrentByteCount = byteCount c.cacheQueue)
    (hqueued : ∀ payload ∈ c.tokenCache, payload ∈ c.cacheQueue) :
    ∃ c', c.evictCache = some c' ∧ c'.Accounts := by
  obtain ⟨count, tokens, queue, hloop, hsum, hle, hin⟩ :=
    evictLoop_spec c.cacheMaxByteCount c.cacheQueue hcount hqueued
  refine ⟨{ c with cacheCurrentByteCount := count, tokenCache := tokens, cacheQueue := queue },
    ?_, hsum, hle, hin⟩
  rw [evictCache, hloop]
  rfl

/-! ## Steps -/

theorem Accounts.add {c : Cache} (h : c.Accounts) (payload : Bytes) :
    ∃ c', c.add payload = some c' ∧ c'.Accounts := by
  unfold Cache.add
  split
  · apply evictCache_accounts
    · rw [byteCount_append, byteCount_cons, byteCount_nil, h.count]
      rfl
    · intro p hp
      rcases Finset.mem_insert.mp hp with rfl | hp
      · exact List.mem_append_right _ (List.mem_singleton.mpr rfl)
      · exact List.mem_append_left _ (h.queued p hp)
  · exact ⟨c, rfl, h⟩

theorem Accounts.setCacheMaxByteCount {c : Cache} (h : c.Accounts) (maxByteCount : ℕ) :
    ∃ c', c.setCacheMaxByteCount maxByteCount = some c' ∧ c'.Accounts :=
  evictCache_accounts h.count h.queued

/-- A cache that is emptied has right accounts if nothing was counted. -/
theorem accounts_clear_iff {c : Cache} (h : c.Accounts) :
    c.clear.Accounts ↔ byteCount c.cacheQueue = 0 := by
  rw [← h.count]
  constructor
  · intro hclear
    exact hclear.count
  · intro hzero
    exact ⟨hzero, h.bounded, fun payload hmem => absurd hmem (Finset.notMem_empty payload)⟩

theorem Accounts.withEnabled {c : Cache} (enabled : Bool) :
    Accounts { c with enabled := enabled } ↔ c.Accounts :=
  ⟨fun h => ⟨h.count, h.bounded, h.queued⟩, fun h => ⟨h.count, h.bounded, h.queued⟩⟩

/-- **Step lemma.**  The condition says which operations keep the accounts. -/
theorem Accounts.step_iff {c c' : Cache} {op : Op} {r : Option Bool} (h : c.Accounts)
    (hs : step c op = some (c', r)) : c'.Accounts ↔ c.EmptiesNothing op := by
  rcases op with payload | _ | newEnabled | maxByteCount | payload
  · obtain ⟨d, hd, hacc⟩ := h.add payload
    simp only [step, hd, Option.map_some, Option.some.injEq, Prod.mk.injEq] at hs
    obtain ⟨rfl, -⟩ := hs
    exact iff_of_true hacc trivial
  · obtain ⟨rfl, -⟩ := Prod.mk.inj (Option.some.inj hs)
    exact accounts_clear_iff h
  · obtain ⟨rfl, -⟩ := Prod.mk.inj (Option.some.inj hs)
    rw [setEnabled, Accounts.withEnabled]
    rcases newEnabled with _ | _
    · rw [if_neg Bool.false_ne_true, accounts_clear_iff h]
      exact ⟨fun hzero _ => hzero, fun hzero => hzero rfl⟩
    · rw [if_pos rfl]
      exact iff_of_true h (fun hne => by cases hne)
  · obtain ⟨d, hd, hacc⟩ := h.setCacheMaxByteCount maxByteCount
    simp only [step, hd, Option.map_some, Option.some.injEq, Prod.mk.injEq] at hs
    obtain ⟨rfl, -⟩ := hs
    exact iff_of_true hacc trivial
  · obtain ⟨rfl, -⟩ := Prod.mk.inj (Option.some.inj hs)
    exact iff_of_true h trivial

/-- While the accounts are right, no operation finds the queue empty too early. -/
theorem Accounts.step_ne_none {c : Cache} (h : c.Accounts) (op : Op) : step c op ≠ none := by
  rcases op with payload | _ | newEnabled | maxByteCount | payload
  · obtain ⟨d, hd, -⟩ := h.add payload
    simp [step, hd]
  · simp [step]
  · simp [step]
  · obtain ⟨d, hd, -⟩ := h.setCacheMaxByteCount maxByteCount
    simp [step, hd]
  · simp [step]

/-! ## Runs -/

/-- A cache as it is constructed. -/
def fresh (enabled : Bool) : Cache := { enabled := enabled }

theorem accounts_fresh (enabled : Bool) : (fresh enabled).Accounts :=
  ⟨rfl, Nat.zero_le _, fun payload hmem => absurd hmem (Finset.notMem_empty payload)⟩

/-- Every operation of the run goes through, with right accounts afterwards. -/
def AccountsAlong (c : Cache) (ops : List Op) : Prop :=
  (Run.transitions step c ops).length = ops.length ∧
    ∀ t ∈ Run.transitions step c ops, t.after.Accounts

/-- **The accounts of a cache.**  They are right after every operation of a run, and no operation
takes the front of an empty queue, exactly if the cache holds no bytes whenever it is cleared or
switched off. -/
theorem accounts_iff (enabled : Bool) (ops : List Op) :
    (fresh enabled).AccountsAlong ops ↔ Run.Guarded step EmptiesNothing (fresh enabled) ops := by
  have hexact : (∀ t ∈ Run.transitions step (fresh enabled) ops, t.after.Accounts) ↔
      Run.Guarded step EmptiesNothing (fresh enabled) ops :=
    Run.guarded_iff_invariant Accounts (fun _ _ _ _ h hs => h.step_iff hs) (accounts_fresh enabled)
  rw [AccountsAlong, hexact, and_iff_right_iff_imp]
  intro hg
  exact Run.Guarded.length_transitions Accounts (fun _ _ _ _ h hc hs => (h.step_iff hs).mpr hc)
    (fun _ op h => h.step_ne_none op) (accounts_fresh enabled) hg

/-- One byte is cached and the cache cleared.  The byte stays counted, and a smaller limit then
asks the empty queue for its front. -/
theorem accounts_fail_after_clear :
    ¬ (fresh true).AccountsAlong [.add [65], .clear] ∧
      (Run.transitions step (fresh true) [.add [65], .clear, .setCacheMaxByteCount 0]).length =
        2 := by
  refine ⟨?_, by decide⟩
  rw [accounts_iff]
  unfold Run.Guarded
  decide

end Cache

end JWT

end Mantids
