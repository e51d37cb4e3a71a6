/-
# A map that many threads share

`Threads::Safe::Map` under any number of threads.  Every operation is one step, since it holds the
lock of the map, but for `destroyElement`: while it waits for the readers it gives the lock up, and
it looks its entry up again, by the key, when it goes on.

* `Threads` — the map, what the threads have open, and who is inside a destruction;
* `step` — a step of any thread; a thread releases only what it has opened;
* `Sound` — the invariant over entries, reader counts and destructions;
* `items_safe` — what holds in every run in which no reader count overflows.

An item is told apart from others, the same pointer added
again included, by the number of its addition.
-/
import Mantids.SafeMap
import Mantids.Lib.Run

namespace Mantids

namespace SafeMap

open Run

variable {κ ι : Type*} [DecidableEq κ]

/-! ## The threads -/

/-- An item that a thread has open. -/
structure Handle (κ ι : Type*) where
  thread : ℕ
  key : κ
  item : ι
  number : ℕ

/-- The map with its threads. -/
structure Threads (κ ι : Type*) where
  /-- Each item with the number of its addition. -/
  map : SafeMap κ (ι × ℕ) UInt32 := {}
  added : ℕ := 0
  opened : List (Handle κ ι) := []
  /-- The threads that wait in `destroyElement`, with their key and `delElement`. -/
  destroying : ℕ → Option (κ × ι × ℕ) := fun _ => none
  /-- The items whose destruction has started. -/
  started : List ℕ := []
  /-- The items that were deleted. -/
  deleted : List ℕ := []

/-- An operation of a thread. -/
inductive MapAction (κ ι : Type*) where
  /-- The element may be a null pointer. -/
  | addElement (thread : ℕ) (key : κ) (element : Option ι)
  | openElement (thread : ℕ) (key : κ)
  | releaseElement (thread : ℕ) (key : κ)
  | destroyElement (thread : ℕ) (key : κ)
  /-- A wait of `destroyElement` ends, with or without a notification. -/
  | wake (thread : ℕ)

/-- What a step leads to. -/
inductive MapEvent where
  | added (ok : Bool)
  | opened (number : Option ℕ)
  | released (ok : Bool)
  /-- The exception of `releaseElement`. -/
  | invalidClose
  | notDestroyed
  | waits
  /-- An item is deleted, and how many readers it has then. -/
  | deleted (number numReaders : ℕ)
deriving DecidableEq

namespace Threads

/-- The thread waits in `destroyElement`. -/
def Busy (s : Threads κ ι) (thread : ℕ) : Prop := (s.destroying thread).isSome = true

instance (s : Threads κ ι) (thread : ℕ) : Decidable (s.Busy thread) :=
  inferInstanceAs (Decidable (_ = true))

/-- The handle is one of the thread on the key. -/
def isHandle (thread : ℕ) (key : κ) (h : Handle κ ι) : Bool := h.thread = thread ∧ h.key = key

/-- The first part of `destroyElement`. -/
def destroy (s : Threads κ ι) (thread : ℕ) (key : κ) : Threads κ ι × MapEvent :=
  match s.map.item? key with
  | none => (s, .notDestroyed)
  | some (item, number) =>
    let s := { s with started := number :: s.started }
    match s.map.destroyElement key with
    | (.waiting, map) =>
      ({ s with
        map := map
        destroying := Function.update s.destroying thread (some (key, item, number)) }, .waits)
    | (_, map) => ({ s with map := map, deleted := number :: s.deleted },
        .deleted number (s.map.readers key).toNat)

/-- `destroyElement` after its wait.  An entry that has gone would be made again, without
readers. -/
def resume (s : Threads κ ι) (thread : ℕ) (key : κ) (number : ℕ) : Threads κ ι × MapEvent :=
  if s.map.readers key ≠ 0 then (s, .waits)
  else
    ({ s with
      map := s.map.set key none
      destroying := Function.update s.destroying thread none
      deleted := number :: s.deleted }, .deleted number (s.map.readers key).toNat)

def step (s : Threads κ ι) : MapAction κ ι → Option (Threads κ ι × MapEvent)
  | .addElement thread key element =>
    if s.Busy thread then none
    else
      match element with
      | some item =>
        match s.map.addElement key (item, s.added) with
        | (true, map) => some ({ s with map := map, added := s.added + 1 }, .added true)
        | (false, _) => some (s, .added false)
      | none =>
        if s.map.element key = none then
          some ({ s with map := s.map.set key (some ⟨none, 0⟩) }, .added true)
        else some (s, .added false)
  | .openElement thread key =>
    if s.Busy thread then none
    else
      match s.map.openElement key with
      | (some (item, number), map) =>
        some ({ s with
          map := map
          opened := ⟨thread, key, item, number⟩ :: s.opened }, .opened (some number))
      | (none, _) => some (s, .opened none)
  | .releaseElement thread key =>
    if s.Busy thread ∨ s.opened.any (isHandle thread key) = false then none
    else
      match s.map.releaseElement key with
      | (.released, map) =>
        some ({ s with map := map, opened := s.opened.eraseP (isHandle thread key) },
          .released true)
      | (.notFound, _) => some (s, .released false)
      | (.invalidClose, _) => some (s, .invalidClose)
  | .destroyElement thread key => if s.Busy thread then none else some (s.destroy thread key)
  | .wake thread =>
    match s.destroying thread with
    | none => none
    | some (key, _, number) => some (s.resume thread key number)

/-- The reader count of an item that is opened does not overflow. -/
def NoOverflow (s : Threads κ ι) : MapAction κ ι → Prop
  | .openElement _ key => s.map.item? key ≠ none → (s.map.readers key).toNat + 1 < 2 ^ 32
  | _ => True

/-! ## What a step can do -/

/-- The steps that change something, each with the entry that it finds. -/
inductive Effect (s : Threads κ ι) : MapAction κ ι → Threads κ ι → MapEvent → Prop where
  | add {thread : ℕ} {key : κ} {item : ι} (helem : s.map.element key = none) :
      Effect s (.addElement thread key (some item))
        { s with
          map := s.map.set key (some ⟨some (item, s.added), 0⟩)
          added := s.added + 1 } (.added true)
  | addNull {thread : ℕ} {key : κ} (helem : s.map.element key = none) :
      Effect s (.addElement thread key none)
        { s with map := s.map.set key (some ⟨none, 0⟩) } (.added true)
  | notAdded {thread : ℕ} {key : κ} {element : Option ι} (helem : s.map.element key ≠ none) :
      Effect s (.addElement thread key element) s (.added false)
  | opened {thread : ℕ} {key : κ} {item : ι} {number : ℕ} {numReaders : UInt32}
      {map : SafeMap κ (ι × ℕ) UInt32}
      (helem : s.map.element key = some ⟨some (item, number), numReaders⟩)
      (hmap : map.element = (s.map.set key
        (some ⟨some (item, number), numReaders + 1⟩)).element) :
      Effect s (.openElement thread key)
        { s with map := map, opened := ⟨thread, key, item, number⟩ :: s.opened }
        (.opened (some number))
  | notOpened {thread : ℕ} {key : κ} : Effect s (.openElement thread key) s (.opened none)
  | released {thread : ℕ} {key : κ} {item : Option (ι × ℕ)} {numReaders : UInt32}
      {map : SafeMap κ (ι × ℕ) UInt32}
      (hhandle : s.opened.any (isHandle thread key) = true)
      (helem : s.map.element key = some ⟨item, numReaders⟩) (hpos : numReaders ≠ 0)
      (hmap : map.element = (s.map.set key (some ⟨item, numReaders - 1⟩)).element) :
      Effect s (.releaseElement thread key)
        { s with map := map, opened := s.opened.eraseP (isHandle thread key) } (.released true)
  | notReleased {thread : ℕ} {key : κ} : Effect s (.releaseElement thread key) s (.released false)
  | invalidClose {thread : ℕ} {key : κ}
      (hhandle : s.opened.any (isHandle thread key) = true) (hzero : s.map.readers key = 0) :
      Effect s (.releaseElement thread key) s .invalidClose
  | notDestroyed {thread : ℕ} {key : κ} : Effect s (.destroyElement thread key) s .notDestroyed
  | waits {thread : ℕ} {key : κ} {item : ι} {number : ℕ} {numReaders : UInt32}
      (hfree : s.destroying thread = none)
      (helem : s.map.element key = some ⟨some (item, number), numReaders⟩) :
      Effect s (.destroyElement thread key)
        { s with
          map := s.map.set key (some ⟨none, numReaders⟩)
          destroying := Function.update s.destroying thread (some (key, item, number))
          started := number :: s.started } .waits
  | destroyed {thread : ℕ} {key : κ} {item : ι} {number : ℕ}
      (helem : s.map.element key = some ⟨some (item, number), 0⟩) :
      Effect s (.destroyElement thread key)
        { s with
          map := s.map.set key none
          started := number :: s.started
          deleted := number :: s.deleted } (.deleted number 0)
  | waitsOn {thread : ℕ} : Effect s (.wake thread) s .waits
  | finished {thread : ℕ} {key : κ} {item : ι} {number : ℕ}
      (hwaits : s.destroying thread = some (key, item, number)) (hzero : s.map.readers key = 0) :
      Effect s (.wake thread)
        { s with
          map := s.map.set key none
          destroying := Function.update s.destroying thread none
          deleted := number :: s.deleted } (.deleted number 0)

theorem step_effect {s s' : Threads κ ι} {a : MapAction κ ι} {event : MapEvent}
    (h : s.step a = some (s', event)) : Effect s a s' event := by
  cases a with
  | addElement thread key element =>
    simp only [step] at h
    by_cases hbusy : s.Busy thread
    · rw [if_pos hbusy] at h
      cases h
    rw [if_neg hbusy] at h
    cases element with
    | some item =>
      dsimp only [addElement] at h
      cases helem : s.map.element key with
      | none =>
        rw [helem] at h
        cases h
        exact .add helem
      | some entry =>
        rw [helem] at h
        cases h
        exact .notAdded (by rw [helem]; simp)
    | none =>
      dsimp only at h
      by_cases helem : s.map.element key = none
      · rw [if_pos helem] at h
        cases h
        exact .addNull helem
      · rw [if_neg helem] at h
        cases h
        exact .notAdded helem
  | openElement thread key =>
    simp only [step] at h
    by_cases hbusy : s.Busy thread
    · rw [if_pos hbusy] at h
      cases h
    rw [if_neg hbusy] at h
    cases hitem : s.map.item? key with
    | none =>
      rw [openElement_of_none hitem] at h
      cases h
      exact .notOpened
    | some x =>
      obtain ⟨numReaders, helem⟩ := element_of_item? hitem
      simp only [openElement, helem] at h
      cases h
      exact .opened helem rfl
  | releaseElement thread key =>
    simp only [step] at h
    split_ifs at h with hguard
    push Not at hguard
    have hhandle : s.opened.any (isHandle thread key) = true := by
      simpa using hguard.2
    simp only [releaseElement] at h
    split at h
    · rename_i map hrelease
      split at hrelease
      · cases hrelease
      · rename_i item numReaders helem
        by_cases hzero : numReaders = 0
        · rw [if_pos hzero] at hrelease
          cases hrelease
        · rw [if_neg hzero] at hrelease
          cases hrelease
          cases h
          exact .released hhandle helem hzero rfl
    · cases h
      exact .notReleased
    · rename_i map hrelease
      cases h
      refine .invalidClose hhandle ?_
      split at hrelease
      · cases hrelease
      · rename_i item numReaders helem
        by_cases hzero : numReaders = 0
        · rw [readers_of_element helem]
          exact hzero
        · rw [if_neg hzero] at hrelease
          cases hrelease
  | destroyElement thread key =>
    simp only [step] at h
    by_cases hbusy : s.Busy thread
    · rw [if_pos hbusy] at h
      cases h
    rw [if_neg hbusy] at h
    have hfree : s.destroying thread = none := by
      simpa [Busy] using hbusy
    unfold destroy at h
    cases hitem : s.map.item? key with
    | none =>
      rw [hitem] at h
      cases h
      exact .notDestroyed
    | some x =>
      obtain ⟨numReaders, helem⟩ := element_of_item? hitem
      rw [hitem] at h
      dsimp only [destroyElement] at h
      rw [helem] at h
      dsimp only at h
      by_cases hzero : numReaders = 0
      · have hcount : s.map.readers key = 0 := by simp [readers, helem, hzero]
        rw [if_pos hzero] at h
        dsimp only at h
        rw [hcount] at h
        cases h
        rw [hzero] at helem
        exact .destroyed helem
      · rw [if_neg hzero] at h
        cases h
        exact .waits hfree helem
  | wake thread =>
    simp only [step] at h
    split at h
    · cases h
    · rename_i key item number hwaits
      simp only [resume] at h
      split_ifs at h with hzero
      · cases h
        exact .waitsOn
      · push Not at hzero
        rw [hzero] at h
        cases h
        exact .finished hwaits hzero

/-! ## The invariant -/

/-- The entries, the reader counts and the destructions fit together. -/
structure Sound (s : Threads κ ι) : Prop where
  /-- A reader count is the number of the handles on the key. -/
  readers : ∀ key, (s.map.readers key).toNat = s.opened.countP (fun h => h.key = key)
  /-- What is open is in the map, or somebody waits to delete it. -/
  handle : ∀ h ∈ s.opened, s.map.item? h.key = some (h.item, h.number) ∨
    ∃ thread, s.destroying thread = some (h.key, h.item, h.number)
  /-- The entry of a destruction stays, without its item. -/
  entry : ∀ {thread : ℕ} {key : κ} {x : ι × ℕ}, s.destroying thread = some (key, x) →
    s.map.element key ≠ none ∧ s.map.item? key = none
  one : ∀ {thread thread' : ℕ} {key : κ} {x x' : ι × ℕ}, s.destroying thread = some (key, x) →
    s.destroying thread' = some (key, x') → thread = thread'
  item : ∀ {key : κ} {x : ι × ℕ}, s.map.item? key = some x → x.2 < s.added ∧ x.2 ∉ s.started
  itemKey : ∀ {key key' : κ} {x x' : ι × ℕ}, s.map.item? key = some x →
    s.map.item? key' = some x' → x.2 = x'.2 → key = key'
  destroying : ∀ {thread : ℕ} {key : κ} {x : ι × ℕ}, s.destroying thread = some (key, x) →
    x.2 ∈ s.started ∧ x.2 ∉ s.deleted
  destroyingNumber : ∀ {thread thread' : ℕ} {key key' : κ} {x x' : ι × ℕ},
    s.destroying thread = some (key, x) → s.destroying thread' = some (key', x') → x.2 = x'.2 →
      thread = thread'
  started : ∀ n ∈ s.started, n < s.added
  deleted : ∀ n ∈ s.deleted, n ∈ s.started
  nodup : s.deleted.Nodup

theorem sound_init : Sound ({} : Threads κ ι) where
  readers _ := rfl
  handle h hh := by cases hh
  entry h := by cases h
  one h := by cases h
  item h := by cases h
  itemKey h := by cases h
  destroying h := by cases h
  destroyingNumber h := by cases h
  started n hn := by cases hn
  deleted n hn := by cases hn
  nodup := List.nodup_nil

variable {s s' : Threads κ ι}

omit [DecidableEq κ] in
theorem item?_of_element {m : SafeMap κ ι UInt32} {key : κ} {entry : MapElement ι UInt32}
    (h : m.element key = some entry) : m.item? key = entry.item := by
  rw [item?, h]
  rfl

/-- Without readers nothing is open on the key. -/
theorem Sound.not_opened (h : Sound s) {key : κ} (hzero : s.map.readers key = 0) :
    ∀ d ∈ s.opened, d.key ≠ key := by
  intro d hd hkey
  have hcount := h.readers key
  rw [hzero, UInt32.toNat_zero] at hcount
  exact List.countP_eq_zero.mp hcount.symm d hd (decide_eq_true hkey)

/-- So a key that nobody has open can go. -/
theorem Sound.readers_erase (h : Sound s) {key : κ} (hzero : s.map.readers key = 0) (k : κ) :
    ((s.map.set key none).readers k).toNat = s.opened.countP (fun d => d.key = k) := by
  rw [← h.readers k, readers_set]
  split_ifs with hk
  · rw [hk, hzero]
    rfl
  · rfl

theorem Sound.add (h : Sound s) {key : κ} (item : ι) (helem : s.map.element key = none) :
    Sound { s with
      map := s.map.set key (some ⟨some (item, s.added), 0⟩)
      added := s.added + 1 } := by
  have hitem : s.map.item? key = none := by simp [item?, helem]
  have hzero : s.map.readers key = 0 := by simp [SafeMap.readers, helem]
  -- Elsewhere than under the key, the items are the old ones.
  have hcases : ∀ {k : κ} {x : ι × ℕ},
      (s.map.set key (some ⟨some (item, s.added), 0⟩)).item? k = some x →
        (k = key ∧ x.2 = s.added) ∨ (k ≠ key ∧ s.map.item? k = some x) := by
    intro k x hx
    rw [item?_set] at hx
    split_ifs at hx with hk
    · cases hx
      exact .inl ⟨hk, rfl⟩
    · exact .inr ⟨hk, hx⟩
  refine ⟨?_, ?_, ?_, h.one, ?_, ?_, h.destroying, h.destroyingNumber, ?_, h.deleted, h.nodup⟩
  · intro k
    show ((s.map.set key _).readers k).toNat = s.opened.countP _
    rw [readers_set]
    split_ifs with hk
    · rw [hk, ← h.readers key, hzero]
      rfl
    · exact h.readers k
  · intro d hd
    obtain hin | hwait := h.handle d hd
    · left
      show (s.map.set key _).item? d.key = _
      rw [item?_set, if_neg (by rintro hk; rw [hk, hitem] at hin; cases hin)]
      exact hin
    · exact .inr hwait
  · intro thread k x hx
    obtain ⟨hmem, hnone⟩ := h.entry hx
    have hk : k ≠ key := by
      rintro rfl
      exact hmem helem
    show (s.map.set key _).element k ≠ none ∧ (s.map.set key _).item? k = none
    rw [element_set, item?_set, if_neg hk, if_neg hk]
    exact ⟨hmem, hnone⟩
  · intro k x hx
    show x.2 < s.added + 1 ∧ x.2 ∉ s.started
    obtain ⟨-, hnew⟩ | ⟨-, hold⟩ := hcases hx
    · rw [hnew]
      exact ⟨Nat.lt_succ_self _, fun hn => absurd (h.started _ hn) (lt_irrefl _)⟩
    · obtain ⟨hlt, hns⟩ := h.item hold
      exact ⟨Nat.lt_succ_of_lt hlt, hns⟩
  · intro k k' x x' hx hx' heq
    obtain ⟨hk, hnew⟩ | ⟨hk, hold⟩ := hcases hx
    · obtain ⟨hk', -⟩ | ⟨-, hold'⟩ := hcases hx'
      · rw [hk, hk']
      · have hlt := (h.item hold').1
        omega
    · obtain ⟨-, hnew'⟩ | ⟨-, hold'⟩ := hcases hx'
      · have hlt := (h.item hold).1
        omega
      · exact h.itemKey hold hold' heq
  · intro n hn
    exact Nat.lt_succ_of_lt (h.started n hn)

/-- A step that keeps all items in place. -/
theorem Sound.same_items (h : Sound s) {map : SafeMap κ (ι × ℕ) UInt32}
    {opened : List (Handle κ ι)}
    (hitem : ∀ k, map.item? k = s.map.item? k)
    (hmember : ∀ k, s.map.element k ≠ none → map.element k ≠ none)
    (hreaders : ∀ k, (map.readers k).toNat = opened.countP (fun d => d.key = k))
    (hhandle : ∀ d ∈ opened, s.map.item? d.key = some (d.item, d.number) ∨
      ∃ thread, s.destroying thread = some (d.key, d.item, d.number)) :
    Sound { s with map := map, opened := opened } := by
  refine ⟨hreaders, ?_, ?_, h.one, ?_, ?_, h.destroying, h.destroyingNumber, h.started, h.deleted,
    h.nodup⟩
  · intro d hd
    show map.item? d.key = _ ∨ _
    rw [hitem]
    exact hhandle d hd
  · intro thread k x hx
    obtain ⟨hmem, hnone⟩ := h.entry hx
    exact ⟨hmember k hmem, (hitem k).trans hnone⟩
  · intro k x hx
    exact h.item ((hitem k).symm.trans hx)
  · intro k k' x x' hx hx' heq
    exact h.itemKey ((hitem k).symm.trans hx) ((hitem k').symm.trans hx') heq

/-- An entry without an item that nobody destroys. -/
theorem Sound.addNull (h : Sound s) {key : κ} (helem : s.map.element key = none) :
    Sound { s with map := s.map.set key (some ⟨none, 0⟩) } := by
  refine h.same_items ?_ ?_ ?_ h.handle
  · intro k
    rw [item?_set]
    split_ifs with hk
    · simp [hk, item?, helem]
    · rfl
  · intro k hk
    rw [element_set]
    split_ifs
    · simp
    · exact hk
  · intro k
    rw [← h.readers k, readers_set]
    split_ifs with hk
    · simp [hk, SafeMap.readers, helem]
    · rfl

omit [DecidableEq κ] in
/-- Items, entries and counts only depend on the entries. -/
theorem item?_congr {m m' : SafeMap κ ι UInt32} (h : m.element = m'.element) (k : κ) :
    m.item? k = m'.item? k ∧ m.element k = m'.element k ∧ m.readers k = m'.readers k := by
  simp [item?, SafeMap.readers, h]

/-- An entry with the same item and another count. -/
theorem set_same_item {m m' : SafeMap κ ι UInt32} {key : κ} {item : Option ι}
    {numReaders count : UInt32} (helem : m.element key = some ⟨item, numReaders⟩)
    (h : m'.element = (m.set key (some ⟨item, count⟩)).element) :
    (∀ k, m'.item? k = m.item? k) ∧ (∀ k, m.element k ≠ none → m'.element k ≠ none) ∧
      ∀ k, m'.readers k = if k = key then count else m.readers k := by
  refine ⟨?_, ?_, ?_⟩
  · intro k
    rw [(item?_congr h k).1, item?_set]
    split_ifs with hk
    · simp [hk, item?, helem]
    · rfl
  · intro k hk
    rw [(item?_congr h k).2.1, element_set]
    split_ifs
    · simp
    · exact hk
  · intro k
    rw [(item?_congr h k).2.2, readers_set]
    rfl

theorem Sound.opens (h : Sound s) {thread : ℕ} {key : κ} {item : ι} {number : ℕ}
    {numReaders : UInt32} {map : SafeMap κ (ι × ℕ) UInt32} (hlt : numReaders.toNat + 1 < 2 ^ 32)
    (helem : s.map.element key = some ⟨some (item, number), numReaders⟩)
    (hmap : map.element = (s.map.set key
      (some ⟨some (item, number), numReaders + 1⟩)).element) :
    Sound { s with map := map, opened := ⟨thread, key, item, number⟩ :: s.opened } := by
  obtain ⟨hitem, hmember, hreaders⟩ := set_same_item helem hmap
  have hcount : (numReaders + 1).toNat = numReaders.toNat + 1 := by
    rw [UInt32.toNat_add, UInt32.toNat_one, Nat.mod_eq_of_lt hlt]
  refine h.same_items hitem hmember ?_ ?_
  · intro k
    have hold : s.map.readers key = numReaders := readers_of_element helem
    rw [hreaders, List.countP_cons, ← h.readers k]
    by_cases hk : k = key
    · rw [if_pos hk, hk, hold, if_pos (decide_eq_true rfl), hcount]
    · rw [if_neg hk, if_neg (by simpa using Ne.symm hk), Nat.add_zero]
  · intro d hd
    obtain rfl | hd := List.mem_cons.mp hd
    · exact .inl (item?_of_element helem)
    · exact h.handle d hd

theorem Sound.releases (h : Sound s) {thread : ℕ} {key : κ} {item : Option (ι × ℕ)}
    {numReaders : UInt32} {map : SafeMap κ (ι × ℕ) UInt32}
    (hhandle : s.opened.any (isHandle thread key) = true)
    (helem : s.map.element key = some ⟨item, numReaders⟩) (hpos : numReaders ≠ 0)
    (hmap : map.element = (s.map.set key (some ⟨item, numReaders - 1⟩)).element) :
    Sound { s with map := map, opened := s.opened.eraseP (isHandle thread key) } := by
  obtain ⟨hitem, hmember, hreaders⟩ := set_same_item helem hmap
  obtain ⟨d, hd, his⟩ := List.any_eq_true.mp hhandle
  obtain ⟨d, l₁, l₂, -, hd, hopened, herase⟩ := List.exists_of_eraseP hd his
  have hkey : d.key = key := (of_decide_eq_true hd).2
  have hone : 0 < numReaders.toNat := Nat.pos_of_ne_zero fun hnat =>
    hpos (UInt32.toNat_inj.mp hnat)
  have hless : (numReaders - 1).toNat = numReaders.toNat - 1 :=
    UInt32.toNat_sub_of_le _ _ (UInt32.le_iff_toNat_le.mpr hone)
  refine h.same_items hitem hmember ?_ fun d hd => h.handle d (List.mem_of_mem_eraseP hd)
  intro k
  have hold := h.readers k
  have hcount : s.map.readers key = numReaders := readers_of_element helem
  rw [hopened, List.countP_append, List.countP_cons, hkey] at hold
  rw [hreaders, herase, List.countP_append]
  by_cases hk : k = key
  · rw [if_pos hk]
    rw [hk, hcount, if_pos (decide_eq_true rfl)] at hold
    rw [hk]
    omega
  · rw [if_neg hk, hold, if_neg (by simpa using Ne.symm hk), Nat.add_zero]

/-- An entry without an item leaves the items under the other keys. -/
theorem item?_of_set {m : SafeMap κ (ι × ℕ) UInt32} {key k : κ}
    {entry : Option (MapElement (ι × ℕ) UInt32)} (hentry : entry.bind (·.item) = none) {x : ι × ℕ}
    (hx : (m.set key entry).item? k = some x) : k ≠ key ∧ m.item? k = some x := by
  rw [item?_set, hentry] at hx
  split_ifs at hx with hk
  exact ⟨hk, hx⟩

/-- The destruction that begins is not that of another item. -/
theorem Sound.item_of_ne (h : Sound s) {key k : κ} {x y : ι × ℕ}
    (hy : s.map.item? key = some y) (hk : k ≠ key) (hx : s.map.item? k = some x) :
    x.2 < s.added ∧ x.2 ∉ y.2 :: s.started := by
  obtain ⟨hlt, hns⟩ := h.item hx
  refine ⟨hlt, fun hmem => ?_⟩
  obtain heq | hmem := List.mem_cons.mp hmem
  · exact hk (h.itemKey hx hy heq)
  · exact hns hmem

/-- A destruction that has to wait takes the item out of reach. -/
theorem Sound.waits (h : Sound s) {thread : ℕ} {key : κ} {item : ι} {number : ℕ}
    {numReaders : UInt32} (hfree : s.destroying thread = none)
    (helem : s.map.element key = some ⟨some (item, number), numReaders⟩) :
    Sound { s with
      map := s.map.set key (some ⟨none, numReaders⟩)
      destroying := Function.update s.destroying thread (some (key, item, number))
      started := number :: s.started } := by
  have hitem : s.map.item? key = some (item, number) := item?_of_element helem
  obtain ⟨hlt, hns⟩ := h.item hitem
  have hitems : ∀ {k : κ} {x : ι × ℕ}, (s.map.set key (some ⟨none, numReaders⟩)).item? k = some x →
      k ≠ key ∧ s.map.item? k = some x := item?_of_set rfl
  have hthreads : ∀ {t : ℕ} {k : κ} {x : ι × ℕ},
      Function.update s.destroying thread (some (key, item, number)) t = some (k, x) →
        (t = thread ∧ k = key ∧ x = (item, number)) ∨
          (t ≠ thread ∧ k ≠ key ∧ s.destroying t = some (k, x)) := by
    intro t k x hx
    rw [Function.update_apply] at hx
    split_ifs at hx with ht
    · cases hx
      exact .inl ⟨ht, rfl, rfl⟩
    · refine .inr ⟨ht, ?_, hx⟩
      rintro rfl
      have hnone := (h.entry hx).2
      rw [hitem] at hnone
      cases hnone
  refine ⟨?_, ?_, ?_, ?_, ?_, ?_, ?_, ?_, ?_, ?_, h.nodup⟩
  · intro k
    show ((s.map.set key _).readers k).toNat = s.opened.countP _
    rw [← h.readers k, readers_set]
    split_ifs with hk
    · rw [hk, readers_of_element helem]
      rfl
    · rfl
  · intro d hd
    show (s.map.set key _).item? d.key = _ ∨
      ∃ t, Function.update s.destroying thread (some (key, item, number)) t = _
    obtain hin | ⟨t, ht⟩ := h.handle d hd
    · by_cases hk : d.key = key
      · -- What was in reach under the key is now waited for.
        rw [hk, hitem] at hin
        cases hin
        exact .inr ⟨thread, by rw [Function.update_self, hk]⟩
      · exact .inl (by rw [item?_set, if_neg hk]; exact hin)
    · refine .inr ⟨t, ?_⟩
      rw [Function.update_of_ne]
      · exact ht
      · rintro rfl
        rw [hfree] at ht
        cases ht
  · intro t k x hx
    show (s.map.set key _).element k ≠ none ∧ (s.map.set key _).item? k = none
    rw [element_set, item?_set]
    obtain ⟨-, rfl, -⟩ | ⟨-, hk, hold⟩ := hthreads hx
    · rw [if_pos rfl, if_pos rfl]
      exact ⟨by simp, rfl⟩
    · rw [if_neg hk, if_neg hk]
      exact h.entry hold
  · intro t t' k x x' hx hx'
    obtain ⟨ht, hk, -⟩ | ⟨-, hk, hold⟩ := hthreads hx
    · obtain ⟨ht', -, -⟩ | ⟨-, hk', -⟩ := hthreads hx'
      · rw [ht, ht']
      · exact absurd hk hk'
    · obtain ⟨-, hk', -⟩ | ⟨-, -, hold'⟩ := hthreads hx'
      · exact absurd hk' hk
      · exact h.one hold hold'
  · intro k x hx
    obtain ⟨hk, hold⟩ := hitems hx
    exact h.item_of_ne hitem hk hold
  · intro k k' x x' hx hx' heq
    exact h.itemKey (hitems hx).2 (hitems hx').2 heq
  · intro t k x hx
    obtain ⟨-, -, rfl⟩ | ⟨-, -, hold⟩ := hthreads hx
    · exact ⟨List.mem_cons_self, fun hdel => hns (h.deleted _ hdel)⟩
    · obtain ⟨hst, hnd⟩ := h.destroying hold
      exact ⟨List.mem_cons_of_mem _ hst, hnd⟩
  · intro t t' k k' x x' hx hx' heq
    obtain ⟨ht, -, rfl⟩ | ⟨-, -, hold⟩ := hthreads hx
    · obtain ⟨ht', -, -⟩ | ⟨-, -, hold'⟩ := hthreads hx'
      · rw [ht, ht']
      · exact absurd (heq ▸ (h.destroying hold').1) hns
    · obtain ⟨-, -, rfl⟩ | ⟨-, -, hold'⟩ := hthreads hx'
      · exact absurd (heq ▸ (h.destroying hold).1) hns
      · exact h.destroyingNumber hold hold' heq
  · intro n hn
    obtain rfl | hn := List.mem_cons.mp hn
    · exact hlt
    · exact h.started n hn
  · intro n hn
    exact List.mem_cons_of_mem _ (h.deleted n hn)

/-- An item that nobody has open is deleted at once. -/
theorem Sound.destroyed (h : Sound s) {key : κ} {item : ι} {number : ℕ}
    (helem : s.map.element key = some ⟨some (item, number), 0⟩) :
    Sound { s with
      map := s.map.set key none
      started := number :: s.started
      deleted := number :: s.deleted } := by
  have hitem : s.map.item? key = some (item, number) := item?_of_element helem
  have hzero : s.map.readers key = 0 := readers_of_element helem
  obtain ⟨hlt, hns⟩ := h.item hitem
  have hitems : ∀ {k : κ} {x : ι × ℕ}, (s.map.set key none).item? k = some x →
      k ≠ key ∧ s.map.item? k = some x := item?_of_set rfl
  refine ⟨?_, ?_, ?_, h.one, ?_, ?_, ?_, h.destroyingNumber, ?_, ?_, ?_⟩
  · exact h.readers_erase hzero
  · intro d hd
    show (s.map.set key none).item? d.key = _ ∨ _
    rw [item?_set, if_neg (h.not_opened hzero d hd)]
    exact h.handle d hd
  · intro t k x hx
    obtain ⟨hmem, hnone⟩ := h.entry hx
    have hk : k ≠ key := by
      rintro rfl
      rw [hitem] at hnone
      cases hnone
    show (s.map.set key none).element k ≠ none ∧ (s.map.set key none).item? k = none
    rw [element_set, item?_set, if_neg hk, if_neg hk]
    exact ⟨hmem, hnone⟩
  · intro k x hx
    obtain ⟨hk, hold⟩ := hitems hx
    exact h.item_of_ne hitem hk hold
  · intro k k' x x' hx hx' heq
    exact h.itemKey (hitems hx).2 (hitems hx').2 heq
  · intro t k x hx
    obtain ⟨hst, hnd⟩ := h.destroying hx
    refine ⟨List.mem_cons_of_mem _ hst, fun hmem => ?_⟩
    obtain heq | hmem := List.mem_cons.mp hmem
    · exact hns (heq ▸ hst)
    · exact hnd hmem
  · intro n hn
    obtain rfl | hn := List.mem_cons.mp hn
    · exact hlt
    · exact h.started n hn
  · intro n hn
    obtain rfl | hn := List.mem_cons.mp hn
    · exact List.mem_cons_self
    · exact List.mem_cons_of_mem _ (h.deleted n hn)
  · exact List.nodup_cons.mpr ⟨fun hdel => hns (h.deleted _ hdel), h.nodup⟩

/-- A destruction that has waited deletes its item when the last reader has left. -/
theorem Sound.finished (h : Sound s) {thread : ℕ} {key : κ} {item : ι} {number : ℕ}
    (hwaits : s.destroying thread = some (key, item, number)) (hzero : s.map.readers key = 0) :
    Sound { s with
      map := s.map.set key none
      destroying := Function.update s.destroying thread none
      deleted := number :: s.deleted } := by
  obtain ⟨hst, hnd⟩ := h.destroying hwaits
  have hnone := (h.entry hwaits).2
  have hitems : ∀ {k : κ} {x : ι × ℕ}, (s.map.set key none).item? k = some x →
      s.map.item? k = some x := fun hx => (item?_of_set rfl hx).2
  have hthreads : ∀ {t : ℕ} {k : κ} {x : ι × ℕ},
      Function.update s.destroying thread none t = some (k, x) →
        t ≠ thread ∧ k ≠ key ∧ s.destroying t = some (k, x) := by
    intro t k x hx
    rw [Function.update_apply] at hx
    split_ifs at hx with ht
    refine ⟨ht, ?_, hx⟩
    rintro rfl
    exact ht (h.one hx hwaits)
  refine ⟨?_, ?_, ?_, ?_, fun hx => h.item (hitems hx),
    fun hx hx' heq => h.itemKey (hitems hx) (hitems hx') heq, ?_, ?_, h.started, ?_, ?_⟩
  · exact h.readers_erase hzero
  · intro d hd
    have hk := h.not_opened hzero d hd
    show (s.map.set key none).item? d.key = _ ∨ ∃ t, Function.update s.destroying thread none t = _
    rw [item?_set, if_neg hk]
    obtain hin | ⟨t, ht⟩ := h.handle d hd
    · exact .inl hin
    · refine .inr ⟨t, ?_⟩
      rw [Function.update_of_ne]
      · exact ht
      · rintro rfl
        rw [hwaits] at ht
        cases ht
        exact hk rfl
  · intro t k x hx
    obtain ⟨-, hk, hold⟩ := hthreads hx
    show (s.map.set key none).element k ≠ none ∧ (s.map.set key none).item? k = none
    rw [element_set, item?_set, if_neg hk, if_neg hk]
    exact h.entry hold
  · intro t t' k x x' hx hx'
    exact h.one (hthreads hx).2.2 (hthreads hx').2.2
  · intro t k x hx
    obtain ⟨ht, -, hold⟩ := hthreads hx
    obtain ⟨hst', hnd'⟩ := h.destroying hold
    refine ⟨hst', fun hmem => ?_⟩
    obtain heq | hmem := List.mem_cons.mp hmem
    · exact ht (h.destroyingNumber hold hwaits heq)
    · exact hnd' hmem
  · intro t t' k k' x x' hx hx' heq
    exact h.destroyingNumber (hthreads hx).2.2 (hthreads hx').2.2 heq
  · intro n hn
    obtain rfl | hn := List.mem_cons.mp hn
    · exact hst
    · exact h.deleted n hn
  · exact List.nodup_cons.mpr ⟨hnd, h.nodup⟩

theorem Sound.step {a : MapAction κ ι} {event : MapEvent} (h : Sound s) (hg : NoOverflow s a)
    (hs : s.step a = some (s', event)) : Sound s' := by
  cases step_effect hs with
  | add helem => exact h.add _ helem
  | addNull helem => exact h.addNull helem
  | notAdded helem => exact h
  | opened helem hmap =>
    have hlt := hg (by rw [item?_of_element helem]; simp)
    rw [readers_of_element helem] at hlt
    exact h.opens hlt helem hmap
  | notOpened => exact h
  | released hhandle helem hpos hmap => exact h.releases hhandle helem hpos hmap
  | notReleased => exact h
  | invalidClose hhandle hzero => exact h
  | notDestroyed => exact h
  | waits hfree helem => exact h.waits hfree helem
  | destroyed helem => exact h.destroyed helem
  | waitsOn => exact h
  | finished hwaits hzero => exact h.finished hwaits hzero

/-! ## The items are safe -/

/-- What is open is not deleted. -/
theorem Sound.not_deleted (h : Sound s) : ∀ d ∈ s.opened, d.number ∉ s.deleted := by
  intro d hd hdel
  obtain hin | ⟨t, ht⟩ := h.handle d hd
  · exact (h.item hin).2 (h.deleted _ hdel)
  · exact (h.destroying ht).2 hdel

/-- What a step of a sound map leads to. -/
structure StepSafe (s : Threads κ ι) (a : MapAction κ ι) (event : MapEvent) : Prop where
  /-- A deletion finds no reader, and no thread has the item open. -/
  deleted : ∀ number numReaders, event = .deleted number numReaders →
    numReaders = 0 ∧ number ∉ s.deleted ∧ ∀ d ∈ s.opened, d.number ≠ number
  /-- An item whose destruction has started is not opened. -/
  opened : ∀ number, event = .opened (some number) → number ∉ s.started
  invalidClose : event ≠ .invalidClose
  /-- A key whose destruction is in progress is not added again. -/
  added : ∀ thread key element, a = .addElement thread key element →
    (∃ t x, s.destroying t = some (key, x)) → event = .added false

theorem Sound.stepSafe {a : MapAction κ ι} {event : MapEvent} (h : Sound s)
    (hs : s.step a = some (s', event)) : StepSafe s a event := by
  have hopen : ∀ {key : κ} {number : ℕ}, s.map.readers key = 0 →
      (∀ d ∈ s.opened, d.number = number → d.key = key) → ∀ d ∈ s.opened, d.number ≠ number := by
    intro key number hzero hkey d hd heq
    exact h.not_opened hzero d hd (hkey d hd heq)
  cases step_effect hs with
  | @add thread key item helem =>
    refine ⟨by simp, by simp, by simp, ?_⟩
    rintro thread' key' element ha ⟨t, x, hx⟩
    cases ha
    exact absurd helem (h.entry hx).1
  | @addNull thread key helem =>
    refine ⟨by simp, by simp, by simp, ?_⟩
    rintro thread' key' element ha ⟨t, x, hx⟩
    cases ha
    exact absurd helem (h.entry hx).1
  | notAdded helem => exact ⟨by simp, by simp, by simp, fun _ _ _ _ _ => rfl⟩
  | opened helem hmap =>
    refine ⟨by simp, ?_, by simp, by simp⟩
    intro n hn
    cases hn
    exact (h.item (item?_of_element helem)).2
  | notOpened => exact ⟨by simp, by simp, by simp, by simp⟩
  | released hhandle helem hpos hmap => exact ⟨by simp, by simp, by simp, by simp⟩
  | notReleased => exact ⟨by simp, by simp, by simp, by simp⟩
  | invalidClose hhandle hzero =>
    -- The thread has the key open, so the count is not zero.
    obtain ⟨d, hd, his⟩ := List.any_eq_true.mp hhandle
    exact absurd (of_decide_eq_true his).2 (h.not_opened hzero d hd)
  | notDestroyed => exact ⟨by simp, by simp, by simp, by simp⟩
  | waits hfree helem => exact ⟨by simp, by simp, by simp, by simp⟩
  | @destroyed thread key item number helem =>
    have hitem := item?_of_element helem
    refine ⟨?_, by simp, by simp, by simp⟩
    intro n r hn
    cases hn
    refine ⟨rfl, fun hdel => (h.item hitem).2 (h.deleted _ hdel),
      hopen (readers_of_element helem) ?_⟩
    intro d hd heq
    obtain hin | ⟨t, ht⟩ := h.handle d hd
    · exact h.itemKey hin hitem heq
    · exact absurd (heq ▸ (h.destroying ht).1) (h.item hitem).2
  | waitsOn => exact ⟨by simp, by simp, by simp, by simp⟩
  | @finished thread key item number hwaits hzero =>
    refine ⟨?_, by simp, by simp, by simp⟩
    intro n r hn
    cases hn
    refine ⟨rfl, (h.destroying hwaits).2, hopen hzero ?_⟩
    intro d hd heq
    obtain hin | ⟨t, ht⟩ := h.handle d hd
    · exact absurd (heq ▸ (h.destroying hwaits).1) (h.item hin).2
    · have ht' := h.destroyingNumber ht hwaits heq
      rw [ht', hwaits] at ht
      cases ht
      rfl

/-- **The items of a shared map.**  In every run in which no reader count overflows, no item is
deleted twice or while somebody has it open, an item whose destruction has started is not opened,
the exception is not thrown, and a key is not added again before its entry has gone. -/
theorem items_safe (actions : List (MapAction κ ι))
    (hg : Guarded step NoOverflow ({} : Threads κ ι) actions) :
    ∀ t ∈ transitions step ({} : Threads κ ι) actions,
      t.after.deleted.Nodup ∧ (∀ d ∈ t.after.opened, d.number ∉ t.after.deleted) ∧
        StepSafe t.before t.input t.output := by
  intro t ht
  obtain ⟨hbefore, hafter⟩ := hg.invariant Sound
    (fun s a s' _ h hg hs => h.step hg hs) sound_init t ht
  exact ⟨hafter.nodup, hafter.not_deleted, hbefore.stepSafe (step_of_mem_transitions ht)⟩

/-- A thread opens an item, another one destroys it and waits, and the first one releases it. -/
def sampleActions : List (MapAction ℕ Unit) :=
  [.addElement 0 7 (some ()), .openElement 1 7, .destroyElement 2 7, .releaseElement 1 7, .wake 2]

theorem items_safe_one :
    ∃ t ∈ transitions step ({} : Threads ℕ Unit) sampleActions,
      t.output = .deleted 0 0 ∧ ∀ d ∈ t.before.opened, d.number ≠ 0 := by
  have hg : Guarded step NoOverflow ({} : Threads ℕ Unit) sampleActions := by
    intro t ht
    have hrun : transitions step ({} : Threads ℕ Unit) sampleActions = [_, _, _, _, _] := rfl
    rw [hrun] at ht
    simp only [List.mem_cons, List.not_mem_nil, or_false] at ht
    obtain rfl | rfl | rfl | rfl | rfl := ht
    · trivial
    · exact fun _ => by decide
    · trivial
    · trivial
    · trivial
  have hmem := List.getElem_mem (l := transitions step ({} : Threads ℕ Unit) sampleActions)
    (n := 4) (by decide)
  exact ⟨_, hmem, rfl, ((items_safe sampleActions hg _ hmem).2.2.deleted 0 0 rfl).2.2⟩

/-! ## A count that overflows -/

/-- What a thread has done that opened an item so many times. -/
structure OpenedTimes (s s' : Threads κ ι) (thread : ℕ) (key : κ) (x : ι × ℕ) (count : ℕ) :
    Prop where
  element : s'.map.element key = some ⟨some x, UInt32.ofNat count⟩
  destroying : s'.destroying = s.destroying
  handle : s.opened.any (isHandle thread key) = true → s'.opened.any (isHandle thread key) = true

theorem step_open {thread : ℕ} {key : κ} {x : ι × ℕ} {count : ℕ}
    (hfree : s.destroying thread = none)
    (helem : s.map.element key = some ⟨some x, UInt32.ofNat count⟩) :
    ∃ s', s.step (.openElement thread key) = some (s', .opened (some x.2)) ∧
      OpenedTimes s s' thread key x (count + 1) ∧ s'.opened.any (isHandle thread key) = true := by
  obtain ⟨item, number⟩ := x
  have hstep : s.step (.openElement thread key) = some ({ s with
      map := (s.map.set key (some ⟨some (item, number), UInt32.ofNat count + 1⟩)).record
        (.opened key)
      opened := ⟨thread, key, item, number⟩ :: s.opened }, .opened (some number)) := by
    have hbusy : ¬ s.Busy thread := by simp [Busy, hfree]
    simp only [step, if_neg hbusy, SafeMap.openElement, helem]
  refine ⟨_, hstep, ⟨?_, rfl, fun _ => by simp [isHandle]⟩, by simp [isHandle]⟩
  show (s.map.set key _).element key = _
  rw [element_set, if_pos rfl, UInt32.ofNat_add]
  rfl

/-- A run in which a thread opens an item `n` times. -/
theorem transitions_opens (thread : ℕ) {key : κ} {x : ι × ℕ} (n : ℕ) (rest : List (MapAction κ ι))
    (s : Threads κ ι) (count : ℕ) (hfree : s.destroying thread = none)
    (helem : s.map.element key = some ⟨some x, UInt32.ofNat count⟩) :
    ∃ s' pre, transitions step s (List.replicate n (.openElement thread key) ++ rest)
        = pre ++ transitions step s' rest ∧ OpenedTimes s s' thread key x (count + n) ∧
      (0 < n → s'.opened.any (isHandle thread key) = true) := by
  induction n generalizing s count with
  | zero =>
    exact ⟨s, [], rfl, ⟨helem, rfl, fun hd => hd⟩, fun h => absurd h (lt_irrefl _)⟩
  | succ n ih =>
    obtain ⟨s₁, hstep, hone, hopened⟩ := step_open hfree helem
    obtain ⟨s', pre, hrun, hmany, -⟩ :=
      ih s₁ (count + 1) (by rw [hone.destroying]; exact hfree) hone.element
    refine ⟨s', ⟨s, .openElement thread key, .opened (some x.2), s₁⟩ :: pre, ?_, ⟨?_, ?_, ?_⟩,
      fun _ => hmany.handle hopened⟩
    · rw [List.replicate_succ, List.cons_append, transitions_cons_some hstep, hrun,
        List.cons_append]
    · rw [hmany.element, Nat.add_assoc, Nat.add_comm 1 n]
    · rw [hmany.destroying, hone.destroying]
    · exact fun hd => hmany.handle (hone.handle hd)

/-- A thread opens an item 2^32 times: the release of what it has open throws. -/
theorem overflow_invalidClose :
    ∃ t ∈ transitions step ({} : Threads ℕ Unit) (.addElement 0 7 (some ()) ::
        (List.replicate (2 ^ 32) (.openElement 0 7) ++ [.releaseElement 0 7])),
      t.output = .invalidClose ∧ t.before.opened.any (isHandle 0 7) = true := by
  obtain ⟨s₁, hadd, hfree, helem⟩ : ∃ s₁ : Threads ℕ Unit,
      step ({} : Threads ℕ Unit) (.addElement 0 7 (some ())) = some (s₁, .added true) ∧
        s₁.destroying = (fun _ => none) ∧ s₁.map.element 7 = some ⟨some ((), 0), UInt32.ofNat 0⟩ :=
    ⟨_, rfl, rfl, rfl⟩
  obtain ⟨s', pre, hrun, hmany, hopen⟩ := transitions_opens 0 (2 ^ 32) [.releaseElement 0 7] s₁ 0
    (by rw [hfree]) helem
  have hhandle := hopen (by decide)
  have hzero : s'.map.element 7 = some ⟨some ((), 0), 0⟩ := hmany.element
  have hguard : ¬ (s'.Busy 0 ∨ s'.opened.any (isHandle 0 7) = false) := by
    rw [hhandle]
    simp [Busy, hmany.destroying, hfree]
  have hrelease : step s' (.releaseElement 0 7) = some (s', .invalidClose) := by
    simp only [step, if_neg hguard, SafeMap.releaseElement, hzero, if_pos]
  refine ⟨⟨s', .releaseElement 0 7, .invalidClose, s'⟩, ?_, rfl, hhandle⟩
  rw [transitions_cons_some hadd, hrun]
  exact List.mem_cons_of_mem _ (List.mem_append_right _ (mem_transitions_head hrelease))

end Threads

end SafeMap

end Mantids
