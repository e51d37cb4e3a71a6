/-
# A map whose items are opened and released

`Threads::Safe::Map` (`Threads/map.h`) keeps items under keys, with a count of the readers
that have each item open.  An item is destroyed in two parts: it is taken out of reach at
once, and the entry goes when the last reader has left.

* `openElement`, `releaseElement`, `addElement`, `destroyElement` — the operations, each of
  them under the lock of the map;
* `finishDestroy` — the second part of a destruction that had to wait;
* `calls` records what was opened and released, and the releases that threw.

An entry without an item belongs to a destruction that waits.

The source counts readers in an `uint32_t`, and the count of the readers that overflows is zero
again.  The type of the counts is a parameter: it is `UInt32` where readers can leave without a
release, and `ℕ` where each of them is a thread that waits, of which there are fewer than 2^32.
-/
import Mathlib

namespace Mantids

/-- `Map::MapElement`, with its readers counted in `ν`. -/
structure MapElement (ι : Type*) (ν : Type) where
  /-- The item, or none while a destruction waits. -/
  item : Option ι
  numReaders : ν
deriving DecidableEq

/-- A call that took or gave back a reader, or threw "Invalid close on Mutex MAP". -/
inductive Call (κ : Type*) where
  | opened (key : κ)
  | released (key : κ)
  | invalidClose (key : κ)
deriving DecidableEq

/-- `Threads::Safe::Map`. -/
structure SafeMap (κ ι : Type*) (ν : Type) where
  /-- `m_keyValueMap`. -/
  element : κ → Option (MapElement ι ν) := fun _ => none
  /-- The calls so far, in order. -/
  calls : List (Call κ) := []

/-- A count of readers: taking back what was added leaves it. -/
class ReaderCount (ν : Type) [OfNat ν 1] [Add ν] [Sub ν] : Prop where
  add_sub_one : ∀ n : ν, n + 1 - 1 = n

instance : ReaderCount ℕ := ⟨fun n => Nat.add_sub_cancel n 1⟩

instance : ReaderCount UInt32 := ⟨fun n => UInt32.add_sub_cancel n 1⟩

namespace SafeMap

variable {κ ι : Type*} {ν : Type}

/-! ## Operations -/

section Operations

variable [OfNat ν 0] [OfNat ν 1] [Add ν] [Sub ν] [DecidableEq ν]

/-- The item that `openElement` would return. -/
def item? (m : SafeMap κ ι ν) (key : κ) : Option ι := (m.element key).bind (·.item)

/-- How many readers an item has. -/
def readers (m : SafeMap κ ι ν) (key : κ) : ν := ((m.element key).map (·.numReaders)).getD 0

def record (m : SafeMap κ ι ν) (call : Call κ) : SafeMap κ ι ν :=
  { m with calls := m.calls ++ [call] }

variable [DecidableEq κ]

/-- The map with another entry under a key. -/
def set (m : SafeMap κ ι ν) (key : κ) (entry : Option (MapElement ι ν)) : SafeMap κ ι ν :=
  { m with element := Function.update m.element key entry }

def addElement (m : SafeMap κ ι ν) (key : κ) (element : ι) : Bool × SafeMap κ ι ν :=
  match m.element key with
  | none => (true, m.set key (some ⟨some element, 0⟩))
  | some _ => (false, m)

def openElement (m : SafeMap κ ι ν) (key : κ) : Option ι × SafeMap κ ι ν :=
  match m.element key with
  | some ⟨some item, numReaders⟩ =>
    (some item, (m.set key (some ⟨some item, numReaders + 1⟩)).record (.opened key))
  | _ => (none, m)

/-- The result of a release: `true`, `false` or the exception. -/
inductive Release where
  | released
  | notFound
  | invalidClose
deriving DecidableEq

def releaseElement (m : SafeMap κ ι ν) (key : κ) : Release × SafeMap κ ι ν :=
  match m.element key with
  | none => (.notFound, m)
  | some ⟨item, numReaders⟩ =>
    if numReaders = 0 then (.invalidClose, m.record (.invalidClose key))
    else (.released, (m.set key (some ⟨item, numReaders - 1⟩)).record (.released key))

/-- The result of a destruction: `true`, `false`, or it waits for the readers. -/
inductive Destroy where
  | destroyed
  | notFound
  | waiting
deriving DecidableEq

def destroyElement (m : SafeMap κ ι ν) (key : κ) : Destroy × SafeMap κ ι ν :=
  match m.element key with
  | some ⟨some _, numReaders⟩ =>
    if numReaders = 0 then (.destroyed, m.set key none)
    else (.waiting, m.set key (some ⟨none, numReaders⟩))
  | _ => (.notFound, m)

/-- A destruction that waited, once it has found no reader. -/
def finishDestroy (m : SafeMap κ ι ν) (key : κ) : Option (SafeMap κ ι ν) :=
  match m.element key with
  | some ⟨none, numReaders⟩ => if numReaders = 0 then some (m.set key none) else none
  | _ => none

/-- A change of the item behind the pointer that `openElement` gave. -/
def modifyItem (m : SafeMap κ ι ν) (key : κ) (f : ι → ι) : SafeMap κ ι ν :=
  match m.element key with
  | some ⟨some item, numReaders⟩ => m.set key (some ⟨some (f item), numReaders⟩)
  | _ => m

end Operations

/-! ## Entries -/

theorem element_of_item? {m : SafeMap κ ι ν} {key : κ} {item : ι} (h : m.item? key = some item) :
    ∃ numReaders, m.element key = some ⟨some item, numReaders⟩ := by
  obtain ⟨⟨i, numReaders⟩, helem, hitem⟩ := Option.bind_eq_some_iff.mp h
  simp only at hitem
  subst hitem
  exact ⟨numReaders, helem⟩

theorem readers_of_element [OfNat ν 0] {m : SafeMap κ ι ν} {key : κ} {entry : MapElement ι ν}
    (h : m.element key = some entry) : m.readers key = entry.numReaders := by
  rw [readers, h]
  rfl

variable [DecidableEq κ]

@[simp] theorem element_set (m : SafeMap κ ι ν) (key k : κ) (entry : Option (MapElement ι ν)) :
    (m.set key entry).element k = if k = key then entry else m.element k := by
  simp [set, Function.update_apply]

/-- The items after an entry was set. -/
theorem item?_set (m : SafeMap κ ι ν) (key k : κ) (entry : Option (MapElement ι ν)) :
    (m.set key entry).item? k = if k = key then entry.bind (·.item) else m.item? k := by
  by_cases hk : k = key
  · simp [item?, hk]
  · simp [item?, hk]

/-- A change of the item does not matter to what is in reach. -/
theorem isSome_item?_modifyItem (m : SafeMap κ ι ν) (key k : κ) (f : ι → ι) :
    ((m.modifyItem key f).item? k).isSome = (m.item? k).isSome := by
  unfold modifyItem
  split
  · rename_i item numReaders helem
    rw [item?_set]
    split_ifs with hk
    · simp [hk, item?, helem]
    · rfl
  · rfl

@[simp] theorem calls_modifyItem (m : SafeMap κ ι ν) (key : κ) (f : ι → ι) :
    (m.modifyItem key f).calls = m.calls := by
  unfold modifyItem
  split <;> rfl

/-- No operation but `addElement` makes an entry. -/
theorem element_eq_none_set {m : SafeMap κ ι ν} {k key : κ} (h : m.element k = none)
    {e : MapElement ι ν} (hkey : m.element key = some e) (entry : Option (MapElement ι ν)) :
    (m.set key entry).element k = none := by
  have hne : k ≠ key := by
    rintro rfl
    rw [h] at hkey
    cases hkey
  simp [hne, h]

theorem element_eq_none_modifyItem {m : SafeMap κ ι ν} {k : κ} (h : m.element k = none) (key : κ)
    (f : ι → ι) : (m.modifyItem key f).element k = none := by
  unfold modifyItem
  split
  · rename_i hkey
    exact element_eq_none_set h hkey _
  · exact h

theorem isNone_element_modifyItem (m : SafeMap κ ι ν) (key : κ) (f : ι → ι) (k : κ) :
    ((m.modifyItem key f).element k).isNone = (m.element k).isNone := by
  unfold modifyItem
  split
  · rename_i hkey
    rw [element_set]
    split
    · rename_i hk
      rw [hk, hkey]
      rfl
    · rfl
  · rfl

/-! ## Which items stay in reach -/

section Operations

variable [OfNat ν 0] [OfNat ν 1] [Add ν] [Sub ν] [DecidableEq ν]

omit [OfNat ν 0] [Sub ν] [DecidableEq ν] in
theorem item?_openElement (m : SafeMap κ ι ν) (key k : κ) :
    (m.openElement key).2.item? k = m.item? k := by
  unfold openElement
  split
  · rename_i item numReaders helem
    change (m.set key _).item? k = _
    rw [item?_set]
    split_ifs with hk
    · simp [hk, item?, helem]
    · rfl
  · rfl

omit [Add ν] in
theorem item?_releaseElement (m : SafeMap κ ι ν) (key k : κ) :
    (m.releaseElement key).2.item? k = m.item? k := by
  unfold releaseElement
  split
  · rfl
  · rename_i item numReaders helem
    split_ifs
    · rfl
    · change (m.set key _).item? k = _
      rw [item?_set]
      split_ifs with hk
      · simp [hk, item?, helem]
      · rfl

omit [OfNat ν 1] [Add ν] [Sub ν] in
theorem item?_destroyElement_of_ne (m : SafeMap κ ι ν) {key k : κ} (hne : k ≠ key) :
    (m.destroyElement key).2.item? k = m.item? k := by
  unfold destroyElement
  split
  · split_ifs
    · rw [item?_set, if_neg hne]
    · rw [item?_set, if_neg hne]
  · rfl

omit [OfNat ν 1] [Add ν] [Sub ν] in
@[simp] theorem calls_destroyElement (m : SafeMap κ ι ν) (key : κ) :
    (m.destroyElement key).2.calls = m.calls := by
  unfold destroyElement
  split
  · split_ifs <;> rfl
  · rfl

omit [OfNat ν 0] [Sub ν] [DecidableEq ν] in
/-- What is out of reach is not opened. -/
theorem openElement_of_none {m : SafeMap κ ι ν} {key : κ} (h : m.item? key = none) :
    m.openElement key = (none, m) := by
  unfold openElement
  split
  · rename_i item numReaders helem
    simp [item?, helem] at h
  · rfl

omit [OfNat ν 0] [Sub ν] [DecidableEq ν] in
theorem element_eq_none_openElement {m : SafeMap κ ι ν} {k : κ} (h : m.element k = none) (key : κ) :
    (m.openElement key).2.element k = none := by
  unfold openElement
  split
  · rename_i hkey
    exact element_eq_none_set h hkey _
  · exact h

omit [Add ν] in
theorem element_eq_none_releaseElement {m : SafeMap κ ι ν} {k : κ} (h : m.element k = none)
    (key : κ) : (m.releaseElement key).2.element k = none := by
  unfold releaseElement
  split
  · exact h
  · rename_i hkey
    split_ifs
    · exact h
    · exact element_eq_none_set h hkey _

omit [OfNat ν 1] [Add ν] [Sub ν] in
theorem element_eq_none_destroyElement {m : SafeMap κ ι ν} {k : κ} (h : m.element k = none)
    (key : κ) : (m.destroyElement key).2.element k = none := by
  unfold destroyElement
  split
  · rename_i hkey
    split_ifs
    · exact element_eq_none_set h hkey _
    · exact element_eq_none_set h hkey _
  · exact h

/-! ## Opening and releasing -/

omit [Sub ν] [DecidableEq ν] in
theorem openElement_of_some {m : SafeMap κ ι ν} {key : κ} {item : ι}
    (h : m.item? key = some item) :
    m.openElement key = (some item,
      (m.set key (some ⟨some item, m.readers key + 1⟩)).record (.opened key)) := by
  obtain ⟨numReaders, helem⟩ := element_of_item? h
  simp [openElement, readers, helem]

omit [OfNat ν 0] [Sub ν] [DecidableEq ν] in
theorem openElement_eq_some {m : SafeMap κ ι ν} {key : κ} {item : ι}
    (h : m.item? key = some item) : m.openElement key = (some item, (m.openElement key).2) := by
  obtain ⟨numReaders, helem⟩ := element_of_item? h
  simp [openElement, helem]

/-- Opening and releasing leaves only its trace in the calls, unless the count overflows. -/
theorem releaseElement_openElement [ReaderCount ν] {m : SafeMap κ ι ν} {key : κ} {item : ι}
    (h : m.item? key = some item) (hroom : m.readers key + 1 ≠ 0) :
    (m.openElement key).2.releaseElement key
      = (.released, { m with calls := m.calls ++ [.opened key, .released key] }) := by
  obtain ⟨numReaders, helem⟩ := element_of_item? h
  have hcount : m.readers key = numReaders := readers_of_element helem
  rw [hcount] at hroom
  have hset : Function.update m.element key (some ⟨some item, numReaders⟩) = m.element := by
    rw [← helem]
    exact Function.update_eq_self key m.element
  simp [openElement, releaseElement, helem, record, set, hset, hroom, ReaderCount.add_sub_one]

/-- A count that overflows is zero, and the release throws. -/
theorem releaseElement_openElement_of_full {m : SafeMap κ ι ν} {key : κ} {item : ι}
    (h : m.item? key = some item) (hfull : m.readers key + 1 = 0) :
    ((m.openElement key).2.releaseElement key).1 = .invalidClose ∧
      ((m.openElement key).2.releaseElement key).2.calls
        = m.calls ++ [.opened key, .invalidClose key] := by
  obtain ⟨numReaders, helem⟩ := element_of_item? h
  have hcount : m.readers key = numReaders := readers_of_element helem
  rw [hcount] at hfull
  simp [openElement, releaseElement, helem, record, set, hfull]

/-- A change of the item in between stays. -/
theorem releaseElement_modifyItem_openElement [ReaderCount ν] {m : SafeMap κ ι ν} {key : κ}
    {item : ι} (h : m.item? key = some item) (hroom : m.readers key + 1 ≠ 0) (f : ι → ι) :
    ((m.openElement key).2.modifyItem key f).releaseElement key
      = (.released,
          { m.modifyItem key f with calls := m.calls ++ [.opened key, .released key] }) := by
  obtain ⟨numReaders, helem⟩ := element_of_item? h
  have hcount : m.readers key = numReaders := readers_of_element helem
  rw [hcount] at hroom
  simp [openElement, modifyItem, releaseElement, helem, record, set, hroom,
    ReaderCount.add_sub_one]

theorem releaseElement_modifyItem_openElement_of_full {m : SafeMap κ ι ν} {key : κ} {item : ι}
    (h : m.item? key = some item) (hfull : m.readers key + 1 = 0) (f : ι → ι) :
    (((m.openElement key).2.modifyItem key f).releaseElement key).1 = .invalidClose ∧
      (((m.openElement key).2.modifyItem key f).releaseElement key).2.calls
        = m.calls ++ [.opened key, .invalidClose key] := by
  obtain ⟨numReaders, helem⟩ := element_of_item? h
  have hcount : m.readers key = numReaders := readers_of_element helem
  rw [hcount] at hfull
  simp [openElement, modifyItem, releaseElement, helem, record, set, hfull]

omit [Add ν] in
theorem releaseElement_of_element_none {m : SafeMap κ ι ν} {key : κ} (h : m.element key = none) :
    m.releaseElement key = (.notFound, m) := by
  simp [releaseElement, h]

omit [Add ν] in
/-- A reader that leaves is counted off. -/
theorem releaseElement_of_readers {m : SafeMap κ ι ν} {key : κ} (h : m.readers key ≠ 0) :
    ∃ item, m.item? key = item ∧ m.releaseElement key = (.released,
      (m.set key (some ⟨item, m.readers key - 1⟩)).record (.released key)) := by
  cases helem : m.element key with
  | none => simp [readers, helem] at h
  | some entry =>
    obtain ⟨item, numReaders⟩ := entry
    have hcount : m.readers key = numReaders := readers_of_element helem
    rw [hcount] at h ⊢
    exact ⟨item, by simp [item?, helem], by simp [releaseElement, helem, h]⟩

/-! ### The number of readers -/

omit [OfNat ν 1] [Add ν] [Sub ν] [DecidableEq ν] in
@[simp] theorem readers_set (m : SafeMap κ ι ν) (key k : κ) (entry : Option (MapElement ι ν)) :
    (m.set key entry).readers k
      = if k = key then (entry.map (·.numReaders)).getD 0 else m.readers k := by
  unfold readers
  rw [element_set]
  split <;> rfl

omit [DecidableEq κ] [OfNat ν 1] [Add ν] [Sub ν] [DecidableEq ν] in
@[simp] theorem readers_record (m : SafeMap κ ι ν) (call : Call κ) (k : κ) :
    (m.record call).readers k = m.readers k := rfl

omit [OfNat ν 1] [Add ν] [Sub ν] [DecidableEq ν] in
theorem readers_modifyItem (m : SafeMap κ ι ν) (key : κ) (f : ι → ι) (k : κ) :
    (m.modifyItem key f).readers k = m.readers k := by
  unfold modifyItem
  split
  · rename_i helem
    rw [readers_set]
    split_ifs with hk
    · simp [hk, readers, helem]
    · rfl
  · rfl

omit [OfNat ν 1] [Add ν] [Sub ν] in
theorem readers_destroyElement (m : SafeMap κ ι ν) (key k : κ) :
    (m.destroyElement key).2.readers k = m.readers k := by
  unfold destroyElement
  split
  · rename_i helem
    split_ifs with hzero
    · rw [readers_set]
      split_ifs with hk
      · simp [hk, readers, helem, hzero]
      · rfl
    · rw [readers_set]
      split_ifs with hk
      · simp [hk, readers, helem]
      · rfl
  · rfl

omit [OfNat ν 1] [Add ν] [Sub ν] in
/-- What has waited goes when it has no reader. -/
theorem finishDestroy_of_some {m m' : SafeMap κ ι ν} {key : κ}
    (h : m.finishDestroy key = some m') :
    m.element key = some ⟨none, 0⟩ ∧ m' = m.set key none := by
  unfold finishDestroy at h
  split at h
  · rename_i numReaders helem
    split_ifs at h with hzero
    subst hzero
    exact ⟨helem, (Option.some.inj h).symm⟩
  · cases h

omit [OfNat ν 1] [Add ν] [Sub ν] in
theorem readers_finishDestroy {m m' : SafeMap κ ι ν} {key : κ} (h : m.finishDestroy key = some m')
    (k : κ) : m'.readers k = m.readers k := by
  obtain ⟨helem, rfl⟩ := finishDestroy_of_some h
  rw [readers_set]
  split_ifs with hk
  · simp [hk, readers, helem]
  · rfl

end Operations

/-! ### Counts that wrap -/

/-- The readers of an item are those that opened it and have not released it, up to overflows;
`start` counts those there were before the record began. -/
def Tallied (start : κ → UInt32) (m : SafeMap κ ι UInt32) : Prop :=
  ∀ k, ((start k).toNat + m.calls.count (.opened k)) % 2 ^ 32
    = ((m.readers k).toNat + m.calls.count (.released k)) % 2 ^ 32

variable {start : κ → UInt32} {m : SafeMap κ ι UInt32}

theorem Tallied.modifyItem (h : m.Tallied start) (key : κ) (f : ι → ι) :
    (m.modifyItem key f).Tallied start := by
  intro k
  rw [calls_modifyItem, readers_modifyItem]
  exact h k

/-- A new entry has no reader. -/
theorem Tallied.set (h : m.Tallied start) {key : κ} (helem : m.element key = none) (item : ι) :
    (m.set key (some ⟨some item, 0⟩)).Tallied start := by
  intro k
  have hk := h k
  rw [readers_set]
  split_ifs with heq
  · subst heq
    simpa [SafeMap.set, readers, helem] using hk
  · exact hk

/-- A call that changes the number of readers of an entry as its record says. -/
theorem Tallied.set_record (h : m.Tallied start) {key : κ} {entry entry' : MapElement ι UInt32}
    {call : Call κ} (helem : m.element key = some entry)
    (hcount : (entry.numReaders.toNat + [call].count (.opened key)) % 2 ^ 32 =
      (entry'.numReaders.toNat + [call].count (.released key)) % 2 ^ 32)
    (hother : ∀ k, k ≠ key → call ≠ .opened k ∧ call ≠ .released k) :
    ((m.set key (some entry')).record call).Tallied start := by
  intro k
  have hk := h k
  by_cases heq : k = key
  · subst heq
    have hbefore : m.readers k = entry.numReaders := readers_of_element helem
    have hafter : ((m.set k (some entry')).record call).readers k = entry'.numReaders := by
      simp [readers, record, SafeMap.set]
    rw [hbefore] at hk
    rw [hafter]
    simp only [record, SafeMap.set, List.count_append]
    omega
  · obtain ⟨hopened, hreleased⟩ := hother k heq
    simpa [record, SafeMap.set, List.count_append, readers, heq, hopened, hreleased] using hk

theorem Tallied.openElement (h : m.Tallied start) (key : κ) :
    (m.openElement key).2.Tallied start := by
  unfold SafeMap.openElement
  split
  · rename_i helem
    refine h.set_record helem ?_ fun k hk => by simp [Ne.symm hk]
    simp [UInt32.toNat_add]
  · exact h

theorem Tallied.releaseElement (h : m.Tallied start) (key : κ) :
    (m.releaseElement key).2.Tallied start := by
  unfold SafeMap.releaseElement
  split
  · exact h
  · rename_i item numReaders helem
    split_ifs with hzero
    · intro k
      simpa [record, List.count_append, readers] using h k
    · refine h.set_record helem ?_ fun k hk => by simp [Ne.symm hk]
      have hpos : 0 < numReaders.toNat := Nat.pos_of_ne_zero fun hnat =>
        hzero (UInt32.toNat_inj.mp hnat)
      have hlt := numReaders.toNat_lt
      simp [UInt32.toNat_sub]
      omega

theorem Tallied.destroyElement (h : m.Tallied start) (key : κ) :
    (m.destroyElement key).2.Tallied start := by
  intro k
  rw [calls_destroyElement, readers_destroyElement]
  exact h k

end SafeMap

end Mantids
