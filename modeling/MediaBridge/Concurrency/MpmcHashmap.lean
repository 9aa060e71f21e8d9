import MediaBridge.Lib.BoundedMap
import MediaBridge.Lib.ProbeIndex
import MediaBridge.Lib.Run
import Mathlib.Data.Set.Function
import Mathlib.Data.Fintype.Basic
import Mathlib.Algebra.GroupWithZero.Nat

set_option autoImplicit false

/-! # `concurrency::MpmcHashmap32` run by one thread

`MpmcHashmap32<KeyT, T>` keeps `_capacity` elements, each `empty` (never built), `committed` or
a `tombstone`, and a `LockFreeList` of the elements to reuse: all of them at first, in order,
and every erased one pushed at the tail. `_end` counts the empty elements taken so far, and
iteration visits the committed elements below it. A `MurmurHashIndex` of `4 * _capacity`
entries finds the element of a key: an entry holds the key's hash cut to 40 bits and the
element's position plus one in 24 bits, and the probes of a hash `h` are `(h + i) % size`.

The model follows one thread through the calls: the list is a FIFO queue of element
positions, and every compare-exchange succeeds the first time it can.

`Holds` is what every run keeps: the index is the one the committed elements should have, the
queue holds the positions from `_end` on and then the tombstones, and the elements from `_end`
on are empty. Under it `find` finds exactly the committed element of a key, a popped position
is `_end` itself while there are empty elements, and the index always has room for an
insertion. So over keys whose 40-bit hashes are distinct, and `_capacity < 2^24`, every call
is a call of a partial map of capacity `_capacity` with the same reply
(`runs_as_partial_map`).
-/

namespace MediaBridge.Concurrency

/-! ## `MurmurHashIndex` -/

/-- `MurmurHashIndex`: the entries of `_index`, each a 40-bit key and a 24-bit value (the empty
`KeyValue()` is `none`), and `_maxSpread`. -/
structure MurmurHashIndex where
  index : List (Option (Nat × Nat))
  maxSpread : Nat

namespace MurmurHashIndex

/-- `key &= KEY_MASK`, with `KEY_MASK = 2^40 - 1`. -/
def maskKey (key : Nat) : Nat := key % 2 ^ 40

/-- `position(hashValue, offset)` in an index of `size` entries. -/
def position (size hashValue offset : Nat) : Nat := (hashValue + offset) % size

/-- `MurmurHashIndex(elementCount)`, and the index after `reInitialize()`. -/
def create (elementCount : Nat) : MurmurHashIndex where
  index := List.replicate elementCount none
  maxSpread := if elementCount = 0 then 0 else 1

/-- `updateSpread(i)`: the spread grows to cover probe `i`, except for the first probe. -/
def updateSpread (maxSpread i : Nat) : Nat := if i < 1 then maxSpread else max maxSpread (i + 1)

/-- The entry of a key among the first `_maxSpread` probes, as `get`, `containsKey` and
`remove` look for it: its place and its value. -/
def get (x : MurmurHashIndex) (key : Nat) : Option (Nat × Nat) :=
  ProbeIndex.lookup (position x.index.length) x.index x.maxSpread (maskKey key)

/-- `containsKey(key)`. -/
def containsKey (x : MurmurHashIndex) (key : Nat) : Bool := (x.get key).isSome

/-- Whether an entry holds `key`: `expected.key == key` after a failed compare-exchange. -/
def holdsKey (key : Nat) : Option (Option (Nat × Nat)) → Bool
  | some (some (k, _)) => decide (k = key)
  | _ => false

/-- `add(key, value)`: refused for a key among the first `_maxSpread` probes; otherwise the
first probe whose compare-exchange from the empty entry succeeds takes the entry, and a probe
that holds the key ends the loop with a refusal. `updateSpread(i)` runs before each probe. -/
def add (x : MurmurHashIndex) (key value : Nat) : MurmurHashIndex × Bool :=
  if (x.get key).isSome then (x, false)
  else
    match ProbeIndex.firstProbe (position x.index.length) x.index (maskKey key)
        (fun s => ProbeIndex.isEmptySlot s || holdsKey (maskKey key) s) x.index.length with
    | none => ({ x with maxSpread := updateSpread x.maxSpread (x.index.length - 1) }, false)
    | some i =>
        if ProbeIndex.isEmptySlot x.index[position x.index.length (maskKey key) i]? then
          ({ index := x.index.set (position x.index.length (maskKey key) i)
                (some (maskKey key, value % 2 ^ 24))
             maxSpread := updateSpread x.maxSpread i }, true)
        else ({ x with maxSpread := updateSpread x.maxSpread i }, false)

/-- `remove(key)`: the entry of the key emptied. -/
def remove (x : MurmurHashIndex) (key : Nat) : MurmurHashIndex × Bool :=
  match x.get key with
  | none => (x, false)
  | some (q, _) => ({ x with index := x.index.set q none }, true)

/-- The value field of entry `i`, `0` for the empty entry. -/
def valueAt (x : MurmurHashIndex) (i : Nat) : Nat := ((x.index[i]?.bind id).map Prod.snd).getD 0

/-- `removeNext(index, position)`: the first entry at or after `index` with a value, emptied;
the place after it and its value, or the end of the index and `0`. -/
def removeNext (x : MurmurHashIndex) (index : Nat) : MurmurHashIndex × Nat × Nat :=
  match (List.range' index (x.index.length - index)).find? (fun i => x.valueAt i != 0) with
  | some i => ({ x with index := x.index.set i none }, i + 1, x.valueAt i)
  | none => (x, x.index.length, 0)

/-! ### What the index operations do under the probe invariant -/

theorem maskKey_lt (key : Nat) : maskKey key < 2 ^ 40 := Nat.mod_lt _ (by decide)

theorem updateSpread_of_pos {maxSpread : Nat} (h : 0 < maxSpread) (i : Nat) :
    updateSpread maxSpread i = max maxSpread (i + 1) := by
  unfold updateSpread
  split <;> omega

/-- The probes `0, …, size - 1` of a hash reach every entry once. -/
theorem probes_nodup (size h : Nat) : ((List.range' 0 size).map (position size h)).Nodup := by
  refine List.Nodup.map_on ?_ List.nodup_range'
  intro i hi j hj hij
  have hi' := (List.mem_range'_1).mp hi
  have hj' := (List.mem_range'_1).mp hj
  have := ProbeIndex.mod_injOn (a := h) (n := size) (N := size) le_rfl (h + i)
    (List.mem_range'_1.mpr (by omega)) (h + j) (List.mem_range'_1.mpr (by omega)) hij
  omega

theorem remove_of_get {x : MurmurHashIndex} {key q v : Nat} (h : x.get key = some (q, v)) :
    x.remove key = ({ x with index := x.index.set q none }, true) := by
  rw [remove, h]

theorem valueAt_of_entry {x : MurmurHashIndex} {j key n : Nat}
    (h : x.index[j]? = some (some (key, n))) : x.valueAt j = n := by
  simp [valueAt, h]

/-- A value read off the index is an entry's. -/
theorem exists_entry_of_valueAt {x : MurmurHashIndex} {j : Nat} (h : x.valueAt j ≠ 0) :
    ∃ key, x.index[j]? = some (some (key, x.valueAt j)) := by
  unfold valueAt at h ⊢
  cases hj : x.index[j]? with
  | none => simp [hj] at h
  | some s =>
      cases s with
      | none => simp [hj] at h
      | some e => exact ⟨e.1, by simp⟩

theorem removeNext_of_find_some {x : MurmurHashIndex} {i j : Nat}
    (h : (List.range' i (x.index.length - i)).find? (fun j => x.valueAt j != 0) = some j) :
    x.removeNext i = ({ x with index := x.index.set j none }, j + 1, x.valueAt j) := by
  rw [removeNext, h]

theorem removeNext_of_find_none {x : MurmurHashIndex} {i : Nat}
    (h : (List.range' i (x.index.length - i)).find? (fun j => x.valueAt j != 0) = none) :
    x.removeNext i = (x, x.index.length, 0) := by
  rw [removeNext, h]

/-- **`add` of an absent key.** With room in the index, the first empty probe of the key takes
the entry, and the spread grows to cover it. -/
theorem add_of_absent {x : MurmurHashIndex} (hs : 0 < x.maxSpread) {key : Nat} (value : Nat)
    (hI : ProbeIndex.Inv (position x.index.length) x.index x.maxSpread)
    (habs : ∀ p, (maskKey key, p) ∉ ProbeIndex.entries x.index)
    (hroom : (ProbeIndex.entries x.index).length < x.index.length) :
    ∃ i, x.index[position x.index.length (maskKey key) i]? = some none ∧
      x.add key value =
        ({ index := x.index.set (position x.index.length (maskKey key) i)
              (some (maskKey key, value % 2 ^ 24))
           maxSpread := max x.maxSpread (i + 1) }, true) := by
  have hget : x.get key = none := (ProbeIndex.lookup_eq_none_iff _ hI).mpr habs
  -- an empty probe exists, and no probe holds the key
  obtain ⟨q, hq, hempty⟩ := ProbeIndex.exists_empty x.index _
    (probes_nodup x.index.length (maskKey key))
    (by
      intro q hq
      obtain ⟨i, -, rfl⟩ := List.mem_map.mp hq
      exact Nat.mod_lt _ (by omega))
    (by rw [List.length_map, List.length_range']; exact hroom)
  obtain ⟨i₀, hi₀, rfl⟩ := List.mem_map.mp hq
  have hnot : ∀ j, holdsKey (maskKey key) x.index[position x.index.length (maskKey key) j]? = false := by
    intro j
    unfold holdsKey
    split
    · rename_i k v hs'
      exact decide_eq_false fun hk => habs v (ProbeIndex.mem_entries.mpr ⟨_, by rw [hs', hk]⟩)
    · rfl
  obtain ⟨i, hi⟩ := Option.isSome_iff_exists.mp (ProbeIndex.firstProbe_isSome
    (p := fun s => ProbeIndex.isEmptySlot s || holdsKey (maskKey key) s) _
    (show i₀ < x.index.length by have := ((List.mem_range'_1).mp hi₀).2; omega)
    (by rw [hempty]; rfl))
  have hemp : ProbeIndex.isEmptySlot x.index[position x.index.length (maskKey key) i]? = true := by
    have := (ProbeIndex.firstProbe_eq_some _ hi).2
    rwa [hnot, Bool.or_false] at this
  have hnone : x.index[position x.index.length (maskKey key) i]? = some none := by
    unfold ProbeIndex.isEmptySlot at hemp
    split at hemp
    · assumption
    · cases hemp
  refine ⟨i, hnone, ?_⟩
  rw [add, hget]
  simp only [Option.isSome_none, Bool.false_eq_true, if_false, hi, hemp, if_true,
    updateSpread_of_pos hs]

end MurmurHashIndex

/-! ## The map -/

/-- The state of an element: `empty` (never built, or reinitialized), `committed`, `tombstone`. -/
inductive State
  | empty
  | committed
  | tombstone
  deriving DecidableEq, Repr

/-- An `Entry` of `_elements`: its state and the element built in it, if any. -/
structure Entry (K V : Type) where
  state : State
  element : Option (K × V)

/-- The element of a committed entry. -/
def Entry.committed? {K V : Type} (e : Entry K V) : Option (K × V) :=
  if e.state = .committed then e.element else none

/-- `MpmcHashmap32<KeyT, T>`: `_elements`, `_end`, `_capacity`, `_index` and the positions in
`_freeItems`, the next one to pop first. -/
structure MpmcHashmap32 (K V : Type) where
  elements : List (Entry K V)
  end_ : Nat
  capacity : Nat
  index : MurmurHashIndex
  freeItems : List Nat

namespace MpmcHashmap32

variable {K V : Type}

/-- `MpmcHashmap32(maxElements)`: every element empty and pushed, in order. -/
def create (K V : Type) (maxElements : Nat) : MpmcHashmap32 K V where
  elements := List.replicate maxElements ⟨.empty, none⟩
  end_ := 0
  capacity := maxElements
  index := MurmurHashIndex.create (maxElements * 4)
  freeItems := List.range maxElements

/-- `*it` for an iterator at element `p`. -/
def entryAt (m : MpmcHashmap32 K V) (p : Nat) : Option (K × V) := m.elements[p]?.bind (·.element)

/-- The elements iteration from `begin()` to `end()` visits: the committed ones below `_end`. -/
def entries (m : MpmcHashmap32 K V) : List (K × V) :=
  (m.elements.take m.end_).filterMap Entry.committed?

/-- `size()`. -/
def size (m : MpmcHashmap32 K V) : Nat := m.capacity - m.freeItems.length

variable (hash : K → BitVec 64)

/-- `find(key)`: the element the returned iterator is at, `none` for `end()`. -/
def find (m : MpmcHashmap32 K V) (k : K) : Option Nat :=
  match m.index.get (hash k).toNat with
  | some (_, pos) =>
      if (m.elements[pos - 1]?.map (·.state)) = some .committed then some (pos - 1) else none
  | none => none

/-- `contains(key)`. -/
def contains (m : MpmcHashmap32 K V) (k : K) : Bool := m.index.containsKey (hash k).toNat

/-- `getItem(key)`. -/
def getItem (m : MpmcHashmap32 K V) (k : K) : Option V :=
  ((m.find hash k).bind m.entryAt).map Prod.snd

/-- `emplace(key, value)`: the map, the element the returned iterator is at (`none` for
`end()`), and whether the element was stored. An existing key returns its element; otherwise
the list is popped, a popped empty element moves `_end`, and the new element is committed before
the index takes it. -/
def emplace (m : MpmcHashmap32 K V) (k : K) (v : V) : MpmcHashmap32 K V × Option Nat × Bool :=
  match m.find hash k with
  | some p => (m, some p, false)
  | none =>
      match m.freeItems with
      | [] => (m, none, false)
      | pos :: freeItems =>
          let end_ := if (m.elements[pos]?.map (·.state)) = some .empty then m.end_ + 1 else m.end_
          let elements := m.elements.set pos ⟨.committed, some (k, v)⟩
          match m.index.add (hash k).toNat (pos + 1) with
          | (index, true) => ({ m with elements, end_, index, freeItems }, some pos, true)
          | (index, false) =>
              -- the index is full or holds the key: the element goes back as a tombstone
              let m' := { m with
                elements := elements.set pos ⟨.tombstone, some (k, v)⟩
                end_, index
                freeItems := freeItems ++ [pos] }
              (m', m'.find hash k, false)

/-- The element at `pos` becomes a tombstone and goes back to the list: what `erase` and
`clear` do to the element of an index entry they removed. -/
def retire (m : MpmcHashmap32 K V) (pos : Nat) : MpmcHashmap32 K V :=
  { m with
    elements := m.elements.modify pos fun e => { e with state := .tombstone }
    freeItems := m.freeItems ++ [pos] }

/-- `erase(key)`. -/
def erase (m : MpmcHashmap32 K V) (k : K) : MpmcHashmap32 K V × Bool :=
  match m.index.get (hash k).toNat with
  | none => (m, false)
  | some (_, pos) =>
      match m.index.remove (hash k).toNat with
      | (index, true) => ({ m.retire (pos - 1) with index }, true)
      | (index, false) => ({ m with index }, false)

/-- One round of the loop of `clear()`: `removeNext(i, pos)`, and the element of a removed entry
retired. -/
def clearStep (m : MpmcHashmap32 K V) (i : Nat) : MpmcHashmap32 K V × Nat :=
  match m.index.removeNext i with
  | (index, i', pos) => if pos ≠ 0 then ({ m.retire (pos - 1) with index }, i') else ({ m with index }, i')

/-- The loop of `clear()` from entry `i`, with `fuel` rounds. -/
def clearLoop : Nat → MpmcHashmap32 K V → Nat → MpmcHashmap32 K V
  | 0, m, _ => m
  | fuel + 1, m, i =>
      if i < m.index.index.length then clearLoop fuel (m.clearStep i).1 (m.clearStep i).2 else m

/-- `clear()`: one round per index entry at most, each round moving past the entry it
removes. -/
def clear (m : MpmcHashmap32 K V) : MpmcHashmap32 K V :=
  clearLoop (m.index.index.length + 1) m 0

/-- `reInitialize()`: the index emptied, the list emptied and refilled with every element in
order, every element empty again. -/
def reInitialize (m : MpmcHashmap32 K V) : MpmcHashmap32 K V :=
  { m with
    index := MurmurHashIndex.create m.index.index.length
    elements := m.elements.map fun _ => ⟨.empty, none⟩
    freeItems := List.range m.capacity
    end_ := 0 }

/-! ### The cases of `emplace` -/

section EmplaceCases

variable {m : MpmcHashmap32 K V} {k : K}

theorem emplace_of_find {p : Nat} (hfind : m.find hash k = some p) (v : V) :
    m.emplace hash k v = (m, some p, false) := by
  rw [emplace, hfind]

theorem emplace_of_nil (hfind : m.find hash k = none) (hf : m.freeItems = []) (v : V) :
    m.emplace hash k v = (m, none, false) := by
  rw [emplace, hfind, hf]

theorem emplace_of_add (hfind : m.find hash k = none) {pos : Nat} {rest : List Nat}
    (hf : m.freeItems = pos :: rest) {index : MurmurHashIndex}
    (hadd : m.index.add (hash k).toNat (pos + 1) = (index, true)) (v : V) :
    m.emplace hash k v =
      ({ m with
          elements := m.elements.set pos ⟨.committed, some (k, v)⟩
          end_ := if m.elements[pos]?.map (·.state) = some .empty then m.end_ + 1 else m.end_
          index
          freeItems := rest }, some pos, true) := by
  rw [emplace, hfind, hf]
  simp only [hadd]

end EmplaceCases

/-! ## What every run keeps -/

/-- The committed elements, in place: the element of a committed entry, `none` for the others. -/
def slots (m : MpmcHashmap32 K V) : List (Option (K × V)) := m.elements.map Entry.committed?

/-- The state of element `i`. -/
def stateAt (m : MpmcHashmap32 K V) (i : Nat) : Option State := m.elements[i]?.map (·.state)

/-- **The invariant of the map.** The index is the one the committed elements should have
(their keys' 40-bit hashes, at the element's position plus one) and its lookups are right; the
list holds the positions from `_end` on, in order, and then tombstones, each once, and exactly
the elements that are not committed; the elements from `_end` on are the empty ones; the keys
are in `S`; and the list and the committed elements make up the capacity. -/
structure Holds (S : Set K) (m : MpmcHashmap32 K V) : Prop where
  elements_length : m.elements.length = m.capacity
  index_length : m.index.index.length = m.capacity * 4
  spread_pos : 0 < m.index.maxSpread
  inv : ProbeIndex.Inv (MurmurHashIndex.position (m.capacity * 4)) m.index.index m.index.maxSpread
  entries_perm : (ProbeIndex.entries m.index.index).Perm
    (ProbeIndex.positions (fun s => s.map fun e => MurmurHashIndex.maskKey (hash e.1).toNat) m.slots)
  end_le : m.end_ ≤ m.capacity
  free_order : ∃ tomb, m.freeItems = List.range' m.end_ (m.capacity - m.end_) ++ tomb
  free_nodup : m.freeItems.Nodup
  mem_free : ∀ i, i ∈ m.freeItems ↔ i < m.capacity ∧ m.stateAt i ≠ some .committed
  empty_iff : ∀ i < m.capacity, m.stateAt i = some .empty ↔ m.end_ ≤ i
  keys_mem : ∀ e ∈ ProbeIndex.entries m.slots, e.1 ∈ S
  size_eq : m.freeItems.length + (ProbeIndex.entries m.slots).length = m.capacity

/-- The calls of the map: those of a map's interface, and `reInitialize()`. -/
inductive Call (K V : Type)
  | map (c : BoundedMap.Call K V)
  | reInitialize

/-- The key a call names. -/
def Call.key? : Call K V → Option K
  | .map c => c.key?
  | .reInitialize => none

/-- One call on the map. -/
def step (m : MpmcHashmap32 K V) : Call K V → MpmcHashmap32 K V × BoundedMap.Reply K V
  | .map (.emplace k v) =>
      ((m.emplace hash k v).1,
        .emplaced ((m.emplace hash k v).2.1.bind (m.emplace hash k v).1.entryAt) (m.emplace hash k v).2.2)
  | .map (.erase k) => ((m.erase hash k).1, .erased (m.erase hash k).2)
  | .map .clear => (m.clear, .cleared)
  | .map (.find k) => (m, .found ((m.find hash k).bind m.entryAt))
  | .map (.contains k) => (m, .contained (m.contains hash k))
  | .map (.getItem k) => (m, .item (m.getItem hash k))
  | .map .size => (m, .sized m.size)
  | .reInitialize => (m.reInitialize, .cleared)

/-- The calls on a partial map of bounded capacity: a refused `emplace` of a present key
returns its entry, and `reInitialize()` empties the map. -/
def specStep [DecidableEq K] (M : BoundedMap K V) : Call K V → BoundedMap K V × BoundedMap.Reply K V
  | .map c => BoundedMap.step true M c
  | .reInitialize => (BoundedMap.empty M.capacity, .cleared)

/-! ## The committed elements under each change -/

theorem committed?_eq_some {e : Entry K V} {p : K × V} :
    e.committed? = some p ↔ e.state = .committed ∧ e.element = some p := by
  unfold Entry.committed?
  split <;> simp_all

theorem slots_getElem? (m : MpmcHashmap32 K V) (i : Nat) :
    m.slots[i]? = m.elements[i]?.map Entry.committed? :=
  List.getElem?_map ..

theorem length_slots (m : MpmcHashmap32 K V) : m.slots.length = m.elements.length :=
  List.length_map ..

/-- A retired element is no longer committed. -/
theorem slots_retire (m : MpmcHashmap32 K V) (pos : Nat) :
    (m.retire pos).slots = m.slots.set pos none := by
  apply List.ext_getElem?
  intro j
  rw [slots_getElem?, List.getElem?_set, length_slots]
  simp only [retire, List.getElem?_modify]
  by_cases hj : pos = j
  · subst hj
    cases he : m.elements[pos]? with
    | none =>
        have : ¬ pos < m.elements.length := fun h => by
          rw [List.getElem?_eq_getElem h] at he
          cases he
        simp [this]
    | some e =>
        have : pos < m.elements.length := (List.getElem?_eq_some_iff.mp he).1
        simp [this, Entry.committed?]
  · rw [if_neg hj, slots_getElem?]
    simp [hj]

theorem stateAt_retire (m : MpmcHashmap32 K V) (pos j : Nat) :
    (m.retire pos).stateAt j = if pos = j then (m.stateAt j).map (fun _ => .tombstone) else m.stateAt j := by
  unfold stateAt
  simp only [retire, List.getElem?_modify]
  by_cases hj : pos = j
  · subst hj
    cases m.elements[pos]? <;> simp
  · simp [hj]

theorem stateAt_set (m : MpmcHashmap32 K V) {pos : Nat} (hpos : pos < m.elements.length)
    (e : Entry K V) (j : Nat) :
    (m.elements.set pos e)[j]?.map (·.state) = if pos = j then some e.state else m.stateAt j := by
  rw [List.getElem?_set]
  by_cases hj : pos = j
  · subst hj
    simp [hpos]
  · simp [hj, stateAt]

/-- A committed element shows in its slot. -/
theorem slots_set_committed (m : MpmcHashmap32 K V) (pos : Nat) (e : K × V) :
    (m.elements.set pos ⟨.committed, some e⟩).map Entry.committed? = m.slots.set pos (some e) := by
  rw [List.map_set]
  rfl

theorem slot_of_not_committed {m : MpmcHashmap32 K V} {pos : Nat} (hlt : pos < m.elements.length)
    (hnc : m.stateAt pos ≠ some .committed) : m.slots[pos]? = some none := by
  rw [slots_getElem?, List.getElem?_eq_getElem hlt]
  rw [stateAt, List.getElem?_eq_getElem hlt] at hnc
  simp only [Option.map_some, Option.some.injEq, Entry.committed?]
  rw [if_neg fun hc => hnc (by simp [hc])]

@[simp] theorem slots_with_index (m : MpmcHashmap32 K V) (x : MurmurHashIndex) :
    ({ m with index := x } : MpmcHashmap32 K V).slots = m.slots := rfl

@[simp] theorem stateAt_with_index (m : MpmcHashmap32 K V) (x : MurmurHashIndex) (j : Nat) :
    ({ m with index := x } : MpmcHashmap32 K V).stateAt j = m.stateAt j := rfl

/-! ## Lookups under the invariant -/

section Lookups

variable {hash} {S : Set K} {m : MpmcHashmap32 K V}

/-- `get` looks up the 40-bit hash in an index of `4 * _capacity` entries. -/
theorem Holds.get_eq (h : Holds hash S m) (k : K) :
    m.index.get (hash k).toNat =
      ProbeIndex.lookup (MurmurHashIndex.position (m.capacity * 4)) m.index.index m.index.maxSpread
        (MurmurHashIndex.maskKey (hash k).toNat) := by
  rw [MurmurHashIndex.get, h.index_length]

/-- **The index finds the key's committed element.** -/
theorem Holds.get_slot (hinj : Set.InjOn (fun k => MurmurHashIndex.maskKey (hash k).toNat) S)
    (h : Holds hash S m) {k : K} (hk : k ∈ S) {q n : Nat}
    (hg : m.index.get (hash k).toNat = some (q, n)) :
    m.index.index[q]? = some (some (MurmurHashIndex.maskKey (hash k).toNat, n)) ∧
      ∃ v, 0 < n ∧ m.slots[n - 1]? = some (some (k, v)) := by
  rw [h.get_eq] at hg
  -- the index key of a slot, as the library's key hash of its element
  have hperm : (ProbeIndex.entries m.index.index).Perm (ProbeIndex.positions
      (fun s => s.map fun e => (fun k => MurmurHashIndex.maskKey (hash k).toNat) e.1) m.slots) :=
    h.entries_perm
  exact ProbeIndex.lookup_slot _ hperm hinj h.keys_mem hk hg

/-- **The index finds nothing for a key with no committed element.** -/
theorem Holds.get_eq_none_iff (hinj : Set.InjOn (fun k => MurmurHashIndex.maskKey (hash k).toNat) S)
    (h : Holds hash S m) {k : K} (hk : k ∈ S) :
    m.index.get (hash k).toNat = none ↔ k ∉ (ProbeIndex.entries m.slots).map Prod.fst := by
  rw [h.get_eq]
  exact ProbeIndex.lookup_eq_none_iff_keys _ h.inv h.entries_perm hinj h.keys_mem hk

theorem slot_committed {p : Nat} {e : K × V} (hs : m.slots[p]? = some (some e)) :
    m.stateAt p = some .committed ∧ m.entryAt p = some e := by
  rw [slots_getElem?] at hs
  cases he : m.elements[p]? with
  | none =>
      rw [he] at hs
      cases hs
  | some x =>
      rw [he] at hs
      obtain ⟨h1, h2⟩ := committed?_eq_some.mp (Option.some.inj hs)
      simp [stateAt, entryAt, he, h1, h2]

/-- `find` goes by the index: an index entry always points at a committed element. -/
theorem Holds.find_eq (hinj : Set.InjOn (fun k => MurmurHashIndex.maskKey (hash k).toNat) S)
    (h : Holds hash S m) {k : K} (hk : k ∈ S) :
    m.find hash k = (m.index.get (hash k).toNat).map fun r => r.2 - 1 := by
  unfold find
  cases hg : m.index.get (hash k).toNat with
  | none => rfl
  | some r =>
      obtain ⟨q, n⟩ := r
      obtain ⟨-, v, -, hs⟩ := h.get_slot hinj hk hg
      have hc : (m.elements[n - 1]?.map (·.state)) = some .committed := (slot_committed hs).1
      show (if _ then some (n - 1) else none) = some (n - 1)
      rw [if_pos hc]

/-- Iteration visits the committed elements: those from `_end` on are empty. -/
theorem Holds.entries_eq (h : Holds hash S m) : m.entries = ProbeIndex.entries m.slots := by
  have hsplit := List.take_append_drop m.end_ m.elements
  have hdrop : (m.elements.drop m.end_).filterMap Entry.committed? = [] := by
    rw [List.filterMap_eq_nil_iff]
    intro e he
    obtain ⟨j, hj⟩ := List.mem_iff_getElem?.mp he
    rw [List.getElem?_drop] at hj
    have hlt : m.end_ + j < m.capacity := by
      rw [← h.elements_length]
      exact (List.getElem?_eq_some_iff.mp hj).1
    have hempty := (h.empty_iff (m.end_ + j) hlt).mpr (by omega)
    simp only [stateAt, hj, Option.map_some, Option.some.injEq] at hempty
    simp [Entry.committed?, hempty]
  calc m.entries
      = (m.elements.take m.end_).filterMap Entry.committed? := rfl
    _ = (m.elements.take m.end_ ++ m.elements.drop m.end_).filterMap Entry.committed? := by
        rw [List.filterMap_append, hdrop, List.append_nil]
    _ = ProbeIndex.entries m.slots := by
        rw [hsplit, ProbeIndex.entries, slots, List.filterMap_map]
        rfl

/-- An index entry points at a committed element of its key. -/
theorem Holds.slot_of_entry (h : Holds hash S m) {q n x : Nat}
    (hq : m.index.index[q]? = some (some (x, n))) :
    ∃ k v, 0 < n ∧ m.slots[n - 1]? = some (some (k, v)) ∧
      MurmurHashIndex.maskKey (hash k).toNat = x := by
  have hmem := h.entries_perm.subset (ProbeIndex.mem_entries.mpr ⟨q, hq⟩)
  obtain ⟨p, k, v, rfl, hs, hk⟩ :=
    (ProbeIndex.mem_positions_slots fun k => MurmurHashIndex.maskKey (hash k).toNat).mp hmem
  refine ⟨k, v, Nat.succ_pos p, ?_, hk⟩
  rw [Nat.add_sub_cancel]
  exact hs

end Lookups

/-! ## Retiring an element -/

section Retire

variable {hash} {S : Set K} {m : MpmcHashmap32 K V}

/-- **Retiring keeps the invariant.** The index entry of a committed element emptied and the
element retired, as `erase` and every round of `clear` do. -/
theorem Holds.retire_committed (h : Holds hash S m) {q n : Nat} {k : K} {v : V}
    (hq : m.index.index[q]? = some (some (MurmurHashIndex.maskKey (hash k).toNat, n)))
    (hn : 0 < n) (hs : m.slots[n - 1]? = some (some (k, v))) :
    Holds hash S
      { m.retire (n - 1) with index := { m.index with index := m.index.index.set q none } } := by
  have hc := (slot_committed hs).1
  have hlt : n - 1 < m.capacity := by
    rw [← h.elements_length, ← length_slots]
    exact (List.getElem?_eq_some_iff.mp hs).1
  have hfree : n - 1 ∉ m.freeItems := fun hm => ((h.mem_free _).mp hm).2 hc
  have hslots := ProbeIndex.entries_set_none hs
  obtain ⟨tomb, ht⟩ := h.free_order
  refine
    { elements_length := by simp [retire, h.elements_length]
      index_length := by simp [h.index_length, retire]
      spread_pos := h.spread_pos
      inv := ProbeIndex.inv_set_none _ h.inv q
      entries_perm := ?entries_perm
      end_le := h.end_le
      free_order := ⟨tomb ++ [n - 1], by simp [retire, ht]⟩
      free_nodup := ?free_nodup
      mem_free := ?mem_free
      empty_iff := ?empty_iff
      keys_mem := ?keys_mem
      size_eq := ?size_eq }
  case entries_perm =>
    -- the emptied entry is the one the retired element had
    have hidx := ProbeIndex.entries_set_none hq
    have hpos := ProbeIndex.positions_set_none
      (fun s => s.map fun e => MurmurHashIndex.maskKey (hash e.1).toNat) hs rfl (y := none) rfl
    rw [Nat.sub_add_cancel hn] at hpos
    show (ProbeIndex.entries (m.index.index.set q none)).Perm (ProbeIndex.positions _ (m.retire (n - 1)).slots)
    rw [slots_retire]
    exact ((hidx.symm.trans h.entries_perm).trans hpos).cons_inv
  case free_nodup =>
    refine List.nodup_append.mpr ⟨h.free_nodup, List.nodup_singleton _, ?_⟩
    intro a ha b hb hab
    rw [List.mem_singleton] at hb
    exact hfree (by rw [← hb, ← hab]; exact ha)
  case mem_free =>
    intro i
    show i ∈ m.freeItems ++ [n - 1] ↔ i < m.capacity ∧ (m.retire (n - 1)).stateAt i ≠ some .committed
    rw [stateAt_retire, List.mem_append, List.mem_singleton]
    by_cases hi : n - 1 = i
    · subst hi
      simp [hc, hlt]
    · rw [if_neg hi, ← h.mem_free]
      exact ⟨fun h' => h'.resolve_right (Ne.symm hi), .inl⟩
  case empty_iff =>
    intro i hi
    show (m.retire (n - 1)).stateAt i = some .empty ↔ m.end_ ≤ i
    rw [stateAt_retire]
    by_cases hj : n - 1 = i
    · subst hj
      have hne : ¬ m.end_ ≤ n - 1 := fun hle => by
        have := (h.empty_iff _ hlt).mpr hle
        rw [hc] at this
        cases this
      simp [hc, hne]
    · rw [if_neg hj]
      exact h.empty_iff i hi
  case keys_mem =>
    intro e he
    rw [slots_with_index, slots_retire] at he
    exact h.keys_mem e (hslots.symm.subset (List.mem_cons_of_mem _ he))
  case size_eq =>
    have hlen := hslots.length_eq
    have hsize := h.size_eq
    show (m.freeItems ++ [n - 1]).length + (ProbeIndex.entries (m.retire (n - 1)).slots).length = m.capacity
    rw [slots_retire, List.length_append]
    rw [List.length_cons] at hlen
    simp only [List.length_singleton]
    omega

end Retire

/-! ## `clear()` and `reInitialize()` -/

section Clear

variable {hash} {S : Set K} {m : MpmcHashmap32 K V}

theorem no_entry_of_below {t : List (Option (Nat × Nat))} {i : Nat} (hlen : t.length ≤ i)
    (hb : ∀ j < i, ∀ e, t[j]? ≠ some (some e)) (j : Nat) (e : Nat × Nat) : t[j]? ≠ some (some e) := by
  by_cases hj : j < i
  · exact hb j hj e
  · rw [List.getElem?_eq_none (by omega)]
    simp

/-- **One round of `clear()`.** With no entry below `i`, the round empties the first entry from
`i` on and retires its element: the invariant holds again, no entry is left below the new place,
and the place has moved on. -/
theorem Holds.clearStep_holds (h : Holds hash S m) {i : Nat} (hi : i < m.index.index.length)
    (hb : ∀ j < i, ∀ e, m.index.index[j]? ≠ some (some e)) :
    Holds hash S (m.clearStep i).1 ∧ (m.clearStep i).1.capacity = m.capacity ∧
      (∀ j < (m.clearStep i).2, ∀ e, (m.clearStep i).1.index.index[j]? ≠ some (some e)) ∧
      i < (m.clearStep i).2 := by
  -- an index position whose value is `0` holds no entry: every entry's value is positive
  have hzero : ∀ j, m.index.valueAt j = 0 → ∀ e, m.index.index[j]? ≠ some (some e) := by
    rintro j hj ⟨x, n⟩ he
    obtain ⟨-, -, hn, -, -⟩ := h.slot_of_entry he
    rw [MurmurHashIndex.valueAt_of_entry he] at hj
    omega
  unfold clearStep
  cases hf : (List.range' i (m.index.index.length - i)).find? (fun j => m.index.valueAt j != 0) with
  | none =>
      -- no entry is left from `i` on
      have hall := List.find?_range'_eq_none.mp hf
      rw [MurmurHashIndex.removeNext_of_find_none hf]
      show Holds hash S m ∧ m.capacity = m.capacity ∧
        (∀ j < m.index.index.length, ∀ e, m.index.index[j]? ≠ some (some e)) ∧ i < m.index.index.length
      refine ⟨h, rfl, fun j hj e => ?_, hi⟩
      by_cases hji : j < i
      · exact hb j hji e
      · exact hzero j (by simpa using hall j (by omega) (by omega)) e
  | some j =>
      -- the first entry from `i` on is at `j`
      obtain ⟨hv, hmem, hbefore⟩ := List.find?_range'_eq_some.mp hf
      have hv' : m.index.valueAt j ≠ 0 := by simpa using hv
      have hij := (List.mem_range'_1.mp hmem).1
      obtain ⟨key, hq⟩ := MurmurHashIndex.exists_entry_of_valueAt hv'
      obtain ⟨k, v, hn, hs, rfl⟩ := h.slot_of_entry hq
      rw [MurmurHashIndex.removeNext_of_find_some hf]
      simp only [ne_eq, hv', not_false_eq_true, if_true]
      refine ⟨h.retire_committed hq hn hs, rfl, fun j' hj' e => ?_, by omega⟩
      show (m.index.index.set j none)[j']? ≠ _
      by_cases hjj : j = j'
      · subst hjj
        rw [List.getElem?_set_self (List.getElem?_eq_some_iff.mp hq).1]
        simp
      · rw [List.getElem?_set_ne hjj]
        by_cases hji : j' < i
        · exact hb j' hji e
        · exact hzero j' (by simpa using hbefore j' (by omega) (by omega)) e

/-- **The loop of `clear()`.** From a place with no entry below it, and with a round for every
entry position left, the loop ends with the invariant and an empty index. The induction is on the
rounds left; each round moves the place on. -/
theorem Holds.clearLoop_holds : ∀ (fuel : Nat) (m : MpmcHashmap32 K V) (i : Nat), Holds hash S m →
    (∀ j < i, ∀ e, m.index.index[j]? ≠ some (some e)) → m.index.index.length < i + fuel →
    Holds hash S (m.clearLoop fuel i) ∧ (m.clearLoop fuel i).capacity = m.capacity ∧
      ∀ (j : Nat) (e : Nat × Nat), (m.clearLoop fuel i).index.index[j]? ≠ some (some e)
  | 0, m, i, h, hb, hlen => ⟨h, rfl, no_entry_of_below (t := m.index.index) (by omega) hb⟩
  | fuel + 1, m, i, h, hb, hlen => by
      unfold clearLoop
      by_cases hi : i < m.index.index.length
      · rw [if_pos hi]
        obtain ⟨h1, hcap, hb1, hlt⟩ := h.clearStep_holds hi hb
        have hlen1 : (m.clearStep i).1.index.index.length < (m.clearStep i).2 + fuel := by
          rw [h1.index_length, hcap, ← h.index_length]
          omega
        obtain ⟨h2, hcap2, hno⟩ := Holds.clearLoop_holds fuel _ _ h1 hb1 hlen1
        exact ⟨h2, hcap2.trans hcap, hno⟩
      · rw [if_neg hi]
        exact ⟨h, rfl, no_entry_of_below (t := m.index.index) (by omega) hb⟩

/-- **`clear()` empties the map**, and keeps the invariant. -/
theorem Holds.clear_holds (h : Holds hash S m) :
    Holds hash S m.clear ∧ m.clear.capacity = m.capacity ∧ ProbeIndex.entries m.clear.slots = [] := by
  unfold clear
  obtain ⟨h1, hcap, hno⟩ :=
    Holds.clearLoop_holds (m.index.index.length + 1) m 0 h (fun j hj => absurd hj (Nat.not_lt_zero j))
      (by omega)
  refine ⟨h1, hcap, ?_⟩
  -- no index entry is left, so no element is committed
  have hidx : ProbeIndex.entries (m.clearLoop (m.index.index.length + 1) 0).index.index = [] :=
    List.eq_nil_iff_forall_not_mem.mpr fun e he => by
      obtain ⟨q, hq⟩ := ProbeIndex.mem_entries.mp he
      exact hno q e hq
  have hlen := h1.entries_perm.length_eq
  rw [hidx, ProbeIndex.length_positions_slots fun k => MurmurHashIndex.maskKey (hash k).toNat] at hlen
  exact List.eq_nil_of_length_eq_zero hlen.symm

end Clear

theorem elements_reInitialize (m : MpmcHashmap32 K V) :
    m.reInitialize.elements = List.replicate m.elements.length ⟨.empty, none⟩ :=
  List.map_const'

theorem slots_reInitialize (m : MpmcHashmap32 K V) :
    m.reInitialize.slots = List.replicate m.elements.length none := by
  rw [slots, elements_reInitialize, List.map_replicate]
  rfl

theorem stateAt_reInitialize (m : MpmcHashmap32 K V) {j : Nat} (hj : j < m.elements.length) :
    m.reInitialize.stateAt j = some .empty := by
  rw [stateAt, elements_reInitialize, List.getElem?_replicate, if_pos hj]
  rfl

/-- **`reInitialize()` starts the invariant over**, from any map with its elements and an index of
`4 * _capacity` entries. -/
theorem holds_reInitialize (S : Set K) (m : MpmcHashmap32 K V) (hC : 0 < m.capacity)
    (hel : m.elements.length = m.capacity) (hidx : m.index.index.length = m.capacity * 4) :
    Holds hash S m.reInitialize := by
  have hslots : m.reInitialize.slots = List.replicate m.capacity none := by
    rw [slots_reInitialize, hel]
  refine
    { elements_length := by rw [elements_reInitialize, List.length_replicate, hel]; rfl
      index_length := by simp [reInitialize, MurmurHashIndex.create, hidx]
      spread_pos := by
        show 0 < if m.index.index.length = 0 then 0 else 1
        rw [if_neg (by rw [hidx]; omega)]
        exact Nat.one_pos
      inv := ProbeIndex.inv_replicate _ _ _
      entries_perm := ?entries_perm
      end_le := Nat.zero_le _
      free_order := ⟨[], by simp [reInitialize, List.range_eq_range']⟩
      free_nodup := List.nodup_range
      mem_free := fun j => ?mem_free
      empty_iff := fun j hj => ?empty_iff
      keys_mem := ?keys_mem
      size_eq := ?size_eq }
  case entries_perm =>
    show (ProbeIndex.entries (List.replicate _ none)).Perm _
    rw [ProbeIndex.entries_replicate, hslots,
      ProbeIndex.positions_replicate_none fun k => MurmurHashIndex.maskKey (hash k).toNat]
  case mem_free =>
    show j ∈ List.range m.capacity ↔ j < m.capacity ∧ _
    rw [List.mem_range]
    refine ⟨fun hj => ⟨hj, ?_⟩, And.left⟩
    rw [stateAt_reInitialize m (by rw [hel]; exact hj)]
    simp
  case empty_iff =>
    exact ⟨fun _ => Nat.zero_le _, fun _ => stateAt_reInitialize m (by rw [hel]; exact hj)⟩
  case keys_mem =>
    intro e he
    rw [hslots, ProbeIndex.entries_replicate] at he
    cases he
  case size_eq =>
    rw [hslots, ProbeIndex.entries_replicate]
    simp [reInitialize]

theorem reInitialize_create (C : Nat) : (create K V C).reInitialize = create K V C := by
  simp [reInitialize, create, MurmurHashIndex.create]

theorem holds_create (S : Set K) {C : Nat} (hC : 0 < C) : Holds hash S (create K V C) := by
  rw [← reInitialize_create]
  exact holds_reInitialize hash S _ hC List.length_replicate List.length_replicate

/-! ## Storing an element -/

section Commit

variable {hash} {S : Set K} {m : MpmcHashmap32 K V}

/-- **The list hands out `_end` while empty elements are left.** The popped position is then
`_end` itself, an empty element, and `_end` moves past it; after that it is a tombstone below
`_end`. Either way the rest of the list is again the positions from the new `_end` on and then
tombstones. -/
theorem Holds.pop (h : Holds hash S m) {pos : Nat} {rest : List Nat}
    (hf : m.freeItems = pos :: rest) {e₁ : Nat}
    (he : e₁ = if m.stateAt pos = some .empty then m.end_ + 1 else m.end_) :
    pos < e₁ ∧ e₁ ≤ m.capacity ∧ (∀ i, i ≠ pos → (m.end_ ≤ i ↔ e₁ ≤ i)) ∧
      ∃ tomb, rest = List.range' e₁ (m.capacity - e₁) ++ tomb := by
  obtain ⟨tomb, ht⟩ := h.free_order
  have hpos := (h.mem_free pos).mp (by rw [hf]; exact List.mem_cons_self)
  by_cases hend : m.end_ < m.capacity
  · -- empty elements are left: the list starts with `_end`
    have hsplit : m.capacity - m.end_ = (m.capacity - (m.end_ + 1)) + 1 := by omega
    rw [hf, hsplit, List.range'_succ, List.cons_append] at ht
    obtain ⟨rfl, rfl⟩ := List.cons.inj ht
    rw [if_pos ((h.empty_iff _ hend).mpr le_rfl)] at he
    subst he
    exact ⟨by omega, by omega, fun i hi => by omega, tomb, rfl⟩
  · -- every element has been taken: the list holds tombstones only
    have heq : m.end_ = m.capacity := by
      have := h.end_le
      omega
    have hne : m.stateAt pos ≠ some .empty := fun hemp => by
      have := (h.empty_iff pos hpos.1).mp hemp
      omega
    rw [if_neg hne] at he
    subst he
    refine ⟨by omega, le_of_eq heq, fun i _ => Iff.rfl, rest, ?_⟩
    rw [heq, Nat.sub_self, List.range'_zero, List.nil_append]

/-- **Storing keeps the invariant.** The popped element committed with the new entry, at the
first empty probe of a key the index does not hold. -/
theorem Holds.commit (h : Holds hash S m) {pos : Nat} {rest : List Nat}
    (hf : m.freeItems = pos :: rest) {k : K} (hk : k ∈ S) (v : V) {i : Nat}
    (habs : ∀ p, (MurmurHashIndex.maskKey (hash k).toNat, p) ∉ ProbeIndex.entries m.index.index)
    (hi : m.index.index[MurmurHashIndex.position (m.capacity * 4)
      (MurmurHashIndex.maskKey (hash k).toNat) i]? = some none) :
    Holds hash S
      { m with
        elements := m.elements.set pos ⟨.committed, some (k, v)⟩
        end_ := if m.stateAt pos = some .empty then m.end_ + 1 else m.end_
        index :=
          { index := m.index.index.set (MurmurHashIndex.position (m.capacity * 4)
              (MurmurHashIndex.maskKey (hash k).toNat) i)
              (some (MurmurHashIndex.maskKey (hash k).toNat, pos + 1))
            maxSpread := max m.index.maxSpread (i + 1) }
        freeItems := rest } := by
  obtain ⟨hlt, hnc⟩ := (h.mem_free pos).mp (by rw [hf]; exact List.mem_cons_self)
  have hlt' : pos < m.elements.length := by rw [h.elements_length]; exact hlt
  have hslot := slot_of_not_committed hlt' hnc
  have hnd := h.free_nodup
  rw [hf, List.nodup_cons] at hnd
  obtain ⟨hpe, hle, hmove, hrest⟩ := h.pop hf rfl
  have hslots := ProbeIndex.entries_set_some hslot (k, v)
  refine
    { elements_length := by simp [h.elements_length]
      index_length := by simp [h.index_length]
      spread_pos := Nat.lt_of_lt_of_le h.spread_pos (le_max_left _ _)
      inv := ProbeIndex.inv_set_some _ h.inv habs hi (pos + 1)
      entries_perm := ?entries_perm
      end_le := hle
      free_order := hrest
      free_nodup := hnd.2
      mem_free := ?mem_free
      empty_iff := ?empty_iff
      keys_mem := ?keys_mem
      size_eq := ?size_eq }
  case entries_perm =>
    -- the new entry is the one the committed element should have
    have hidx := ProbeIndex.entries_set_some hi (MurmurHashIndex.maskKey (hash k).toNat, pos + 1)
    have hpos := ProbeIndex.positions_set_some
      (fun s => s.map fun e => MurmurHashIndex.maskKey (hash e.1).toNat) hslot rfl
      (y := some (k, v)) rfl
    show (ProbeIndex.entries _).Perm
      (ProbeIndex.positions _ ((m.elements.set pos ⟨.committed, some (k, v)⟩).map Entry.committed?))
    rw [slots_set_committed]
    exact hidx.trans ((h.entries_perm.cons _).trans hpos.symm)
  case mem_free =>
    intro j
    show j ∈ rest ↔ j < m.capacity ∧ (m.elements.set pos _)[j]?.map (·.state) ≠ some .committed
    rw [stateAt_set m hlt']
    by_cases hj : pos = j
    · subst hj
      simp [hnd.1]
    · rw [if_neg hj, ← h.mem_free, hf, List.mem_cons]
      exact ⟨.inr, fun h' => h'.resolve_left (Ne.symm hj)⟩
  case empty_iff =>
    intro j hj
    show (m.elements.set pos _)[j]?.map (·.state) = some .empty ↔ _ ≤ j
    rw [stateAt_set m hlt']
    by_cases hjp : pos = j
    · subst hjp
      simp only [if_true, Option.some.injEq, reduceCtorEq, false_iff]
      omega
    · rw [if_neg hjp, h.empty_iff j hj]
      exact hmove j (Ne.symm hjp)
  case keys_mem =>
    intro e he
    change e ∈ ProbeIndex.entries ((m.elements.set pos ⟨.committed, some (k, v)⟩).map Entry.committed?) at he
    rw [slots_set_committed] at he
    rcases List.mem_cons.mp (hslots.subset he) with rfl | hold
    · exact hk
    · exact h.keys_mem e hold
  case size_eq =>
    have hlen := hslots.length_eq
    have hsize := h.size_eq
    show rest.length + (ProbeIndex.entries ((m.elements.set pos _).map Entry.committed?)).length = m.capacity
    rw [slots_set_committed, hlen, List.length_cons]
    rw [hf, List.length_cons] at hsize
    omega

end Commit

/-! ## Each call is a call of the partial map -/

/-- The map is the partial map `M`: it keeps its invariant, and its committed elements are the
entries of `M`, in their own order. -/
def Refines (S : Set K) (m : MpmcHashmap32 K V) (M : BoundedMap K V) : Prop :=
  Holds hash S m ∧ (ProbeIndex.entries m.slots).Perm M.entries ∧ M.capacity = m.capacity

section Refinement

variable {hash} {S : Set K} [DecidableEq K] {m : MpmcHashmap32 K V} {M : BoundedMap K V}

theorem lookup_of_slot (hM : (ProbeIndex.entries m.slots).Perm M.entries) {p : Nat} {k : K}
    {v : V} (hs : m.slots[p]? = some (some (k, v))) : M.lookup k = some v :=
  M.lookup_eq_some_iff.mpr (hM.subset (ProbeIndex.mem_entries.mpr ⟨p, hs⟩))

theorem lookup_of_notMem (hM : (ProbeIndex.entries m.slots).Perm M.entries) {k : K}
    (hk : k ∉ (ProbeIndex.entries m.slots).map Prod.fst) : M.lookup k = none :=
  M.lookup_eq_none_iff.mpr fun hmem => hk ((hM.map Prod.fst).symm.subset hmem)

/-- `*find(key)` is the entry of the key in `M`. -/
theorem found_eq (hinj : Set.InjOn (fun k => MurmurHashIndex.maskKey (hash k).toNat) S)
    (h : Refines hash S m M) {k : K} (hk : k ∈ S) :
    (m.find hash k).bind m.entryAt = (M.lookup k).map (k, ·) := by
  rw [h.1.find_eq hinj hk]
  cases hg : m.index.get (hash k).toNat with
  | none =>
      rw [lookup_of_notMem h.2.1 ((h.1.get_eq_none_iff hinj hk).mp hg)]
      rfl
  | some r =>
      obtain ⟨q, n⟩ := r
      obtain ⟨-, v, -, hs⟩ := h.1.get_slot hinj hk hg
      rw [lookup_of_slot h.2.1 hs]
      exact (slot_committed hs).2

theorem contains_eq (hinj : Set.InjOn (fun k => MurmurHashIndex.maskKey (hash k).toNat) S)
    (h : Refines hash S m M) {k : K} (hk : k ∈ S) : m.contains hash k = M.contains k := by
  unfold contains MurmurHashIndex.containsKey BoundedMap.contains
  cases hg : m.index.get (hash k).toNat with
  | none =>
      rw [lookup_of_notMem h.2.1 ((h.1.get_eq_none_iff hinj hk).mp hg)]
      rfl
  | some r =>
      obtain ⟨q, n⟩ := r
      obtain ⟨-, v, -, hs⟩ := h.1.get_slot hinj hk hg
      rw [lookup_of_slot h.2.1 hs]
      rfl

theorem getItem_eq (hinj : Set.InjOn (fun k => MurmurHashIndex.maskKey (hash k).toNat) S)
    (h : Refines hash S m M) {k : K} (hk : k ∈ S) : m.getItem hash k = M.lookup k := by
  rw [getItem, found_eq hinj h hk, Option.map_map]
  cases M.lookup k <;> rfl

/-- `erase(key)` is the partial map's `erase`, and reports whether the key was there. -/
theorem erase_refines (hinj : Set.InjOn (fun k => MurmurHashIndex.maskKey (hash k).toNat) S)
    (h : Refines hash S m M) {k : K} (hk : k ∈ S) :
    Refines hash S (m.erase hash k).1 (M.erase k) ∧ (m.erase hash k).2 = M.contains k := by
  obtain ⟨hH, hM, hcap⟩ := h
  unfold erase
  cases hg : m.index.get (hash k).toNat with
  | none =>
      have hnk := (hH.get_eq_none_iff hinj hk).mp hg
      have hMk : k ∉ M.keys := fun hmem => hnk ((hM.map Prod.fst).symm.subset hmem)
      refine ⟨⟨hH, ?_, hcap⟩, ?_⟩
      · rw [BoundedMap.erase_of_notMem hMk]
        exact hM
      · simp [BoundedMap.contains, lookup_of_notMem hM hnk]
  | some r =>
      obtain ⟨q, n⟩ := r
      obtain ⟨hq, v, hn, hs⟩ := hH.get_slot hinj hk hg
      have hl := lookup_of_slot hM hs
      rw [MurmurHashIndex.remove_of_get hg]
      refine ⟨⟨hH.retire_committed hq hn hs, ?_, by simp [hcap, retire]⟩, ?_⟩
      · show (ProbeIndex.entries (m.retire (n - 1)).slots).Perm _
        rw [slots_retire]
        exact ((ProbeIndex.entries_set_none hs).symm.trans (hM.trans (BoundedMap.perm_erase hl))).cons_inv
      · simp [BoundedMap.contains, hl]

/-- The key of a found element is in `M`. -/
theorem lookup_of_find (hinj : Set.InjOn (fun k => MurmurHashIndex.maskKey (hash k).toNat) S)
    (h : Refines hash S m M) {k : K} (hk : k ∈ S) {p : Nat} (hfind : m.find hash k = some p) :
    ∃ v, M.lookup k = some v := by
  rw [h.1.find_eq hinj hk] at hfind
  obtain ⟨⟨q, n⟩, hg, -⟩ := Option.map_eq_some_iff.mp hfind
  obtain ⟨-, v, -, hs⟩ := h.1.get_slot hinj hk hg
  exact ⟨v, lookup_of_slot h.2.1 hs⟩

/-- **`emplace(key, value)` is the partial map's.** A present key's element is returned
unchanged; a full map refuses; otherwise the popped element is committed, the index takes it,
and the returned iterator is at the new entry. -/
theorem emplace_refines (hinj : Set.InjOn (fun k => MurmurHashIndex.maskKey (hash k).toNat) S)
    (hC : m.capacity < 2 ^ 24) (h : Refines hash S m M) {k : K} (hk : k ∈ S) (v : V) :
    Refines hash S (m.step hash (.map (.emplace k v))).1 (specStep M (.map (.emplace k v))).1 ∧
      (m.step hash (.map (.emplace k v))).2 = (specStep M (.map (.emplace k v))).2 := by
  obtain ⟨hH, hM, hcap⟩ := h
  have hfound := found_eq hinj ⟨hH, hM, hcap⟩ hk
  cases hfind : m.find hash k with
  | some p =>
      -- the key is present: both refuse and return its entry
      obtain ⟨v', hv'⟩ := lookup_of_find hinj ⟨hH, hM, hcap⟩ hk hfind
      have hmem : k ∈ M.keys := BoundedMap.mem_keys_of_lookup hv'
      rw [hfind] at hfound
      simp only [step, specStep, BoundedMap.step, emplace_of_find hash hfind, if_pos (Or.inl hmem),
        if_true]
      exact ⟨⟨hH, hM, hcap⟩, by rw [← hfound]⟩
  | none =>
      rw [hfind] at hfound
      have hnone : M.lookup k = none := Option.map_eq_none_iff.mp hfound.symm
      have hMk : k ∉ M.keys := M.lookup_eq_none_iff.mp hnone
      have hsize := hH.size_eq
      have hlen := hM.length_eq
      cases hf : m.freeItems with
      | nil =>
          -- every element is taken: both refuse
          have hfull : M.capacity ≤ M.size := by
            rw [hf, List.length_nil] at hsize
            rw [BoundedMap.size, ← hlen, hcap]
            omega
          simp only [step, specStep, BoundedMap.step, emplace_of_nil hash hfind hf,
            if_pos (Or.inr hfull), hnone]
          exact ⟨⟨hH, hM, hcap⟩, rfl⟩
      | cons pos rest =>
          -- the index has room, and the first empty probe of the key takes the element
          have hlt : pos < m.capacity := ((hH.mem_free pos).mp (by rw [hf]; exact List.mem_cons_self)).1
          have hroom : M.size < M.capacity := by
            rw [hf, List.length_cons] at hsize
            rw [BoundedMap.size, ← hlen, hcap]
            omega
          have hget : m.index.get (hash k).toNat = none := by
            rw [hH.find_eq hinj hk] at hfind
            exact Option.map_eq_none_iff.mp hfind
          have habs := (ProbeIndex.lookup_eq_none_iff _ hH.inv).mp (by rw [← hH.get_eq]; exact hget)
          have hentries : (ProbeIndex.entries m.index.index).length < m.index.index.length := by
            have hp := hH.entries_perm.length_eq
            rw [ProbeIndex.length_positions_slots (fun k => MurmurHashIndex.maskKey (hash k).toNat)] at hp
            rw [hH.index_length]
            omega
          obtain ⟨i, hi, hadd⟩ := MurmurHashIndex.add_of_absent hH.spread_pos (pos + 1)
            (by rw [hH.index_length]; exact hH.inv) habs hentries
          -- the position plus one fits the 24 bits of the value
          rw [hH.index_length, Nat.mod_eq_of_lt (by omega : pos + 1 < 2 ^ 24)] at hadd
          rw [hH.index_length] at hi
          have hnot : ¬ (k ∈ M.keys ∨ M.capacity ≤ M.size) := by
            rintro (h' | h')
            · exact hMk h'
            · omega
          simp only [step, specStep, BoundedMap.step, emplace_of_add hash hfind hf hadd, if_neg hnot]
          refine ⟨⟨hH.commit hf hk v habs hi, ?_, by rw [BoundedMap.capacity_emplace, hcap]⟩, ?_⟩
          · -- the committed element is the new entry
            show (ProbeIndex.entries ((m.elements.set pos ⟨.committed, some (k, v)⟩).map Entry.committed?)).Perm _
            rw [slots_set_committed, BoundedMap.entries_emplace v hMk hroom]
            exact (ProbeIndex.entries_set_some (slot_of_not_committed (by rw [hH.elements_length]; exact hlt)
              ((hH.mem_free pos).mp (by rw [hf]; exact List.mem_cons_self)).2) (k, v)).trans (hM.cons _)
          · simp [entryAt, List.getElem?_set_self (by rw [hH.elements_length]; exact hlt : pos < m.elements.length)]

omit [DecidableEq K] in
theorem size_eq (h : Refines hash S m M) : m.size = M.size := by
  have := h.1.size_eq
  rw [size, BoundedMap.size, ← h.2.1.length_eq]
  omega

omit [DecidableEq K] in
/-- `clear()` is the partial map's: it leaves the empty map. -/
theorem clear_refines (h : Refines hash S m M) :
    Refines hash S m.clear (BoundedMap.empty M.capacity) := by
  obtain ⟨h1, hcap, hnil⟩ := h.1.clear_holds
  refine ⟨h1, ?_, by rw [BoundedMap.capacity_empty, hcap, h.2.2]⟩
  rw [hnil, BoundedMap.entries_empty]

omit [DecidableEq K] in
/-- `reInitialize()` leaves the empty map. -/
theorem reInitialize_refines (hC : 0 < m.capacity) (h : Refines hash S m M) :
    Refines hash S m.reInitialize (BoundedMap.empty M.capacity) := by
  refine ⟨holds_reInitialize hash S m hC h.1.elements_length h.1.index_length, ?_, h.2.2⟩
  rw [slots_reInitialize, ProbeIndex.entries_replicate, BoundedMap.entries_empty]

/-- **Every call is the partial map's call.** -/
theorem step_refines (hinj : Set.InjOn (fun k => MurmurHashIndex.maskKey (hash k).toNat) S)
    (hC : 0 < m.capacity) (hC' : m.capacity < 2 ^ 24) (h : Refines hash S m M) (c : Call K V)
    (hc : ∀ k, c.key? = some k → k ∈ S) :
    Refines hash S (m.step hash c).1 (specStep M c).1 ∧ (m.step hash c).2 = (specStep M c).2 := by
  cases c with
  | reInitialize => exact ⟨reInitialize_refines hC h, rfl⟩
  | map c =>
      cases c with
      | emplace k v => exact emplace_refines hinj hC' h (hc k rfl) v
      | erase k =>
          obtain ⟨h1, h2⟩ := erase_refines hinj h (hc k rfl)
          exact ⟨h1, by simp only [step, specStep, BoundedMap.step, h2]⟩
      | clear => exact ⟨clear_refines h, rfl⟩
      | find k =>
          exact ⟨h, by simp only [step, specStep, BoundedMap.step, found_eq hinj h (hc k rfl)]⟩
      | contains k =>
          exact ⟨h, by simp only [step, specStep, BoundedMap.step, contains_eq hinj h (hc k rfl)]⟩
      | getItem k =>
          exact ⟨h, by simp only [step, specStep, BoundedMap.step, getItem_eq hinj h (hc k rfl)]⟩
      | size => exact ⟨h, by simp only [step, specStep, BoundedMap.step, size_eq h]⟩

end Refinement

/-- No call changes the capacity of the partial map. -/
@[simp] theorem capacity_specStep [DecidableEq K] (M : BoundedMap K V) (c : Call K V) :
    (specStep M c).1.capacity = M.capacity := by
  cases c with
  | map c => exact BoundedMap.capacity_step true M c
  | reInitialize => rfl

/-- **`MpmcHashmap32` run by one thread is a partial map of capacity `C`.** For every sequence
of calls on keys whose 40-bit hashes are distinct, with `1 ≤ C < 2^24`, every reply is the one
of the partial map the calls describe: `find`, `contains` and `getItem` agree with it,
`emplace` stores exactly when the key is absent and fewer than `C` entries are stored and
otherwise returns the key's entry or `end()`, `erase` reports whether the key was there,
`size()` is its size; and iteration from `begin()` to `end()` visits its entries, each once. -/
theorem runs_as_partial_map [DecidableEq K] (hash : K → BitVec 64) {C : Nat} (hC : 1 ≤ C)
    (hC' : C < 2 ^ 24) (calls : List (Call K V))
    (hinj : Set.InjOn (fun k => MurmurHashIndex.maskKey (hash k).toNat)
      {k | ∃ c ∈ calls, c.key? = some k}) :
    (Run.run (step hash) (create K V C) calls).2 =
        (Run.run specStep (BoundedMap.empty C) calls).2 ∧
      (Run.run (step hash) (create K V C) calls).1.entries.Perm
        (Run.run specStep (BoundedMap.empty C) calls).1.entries := by
  -- the relation carried through the run: the refinement, at capacity `C`
  let R : MpmcHashmap32 K V → BoundedMap K V → Prop := fun m M =>
    Refines hash {k | ∃ c ∈ calls, c.key? = some k} m M ∧ M.capacity = C
  have hstep : ∀ m M c, (∀ k, c.key? = some k → k ∈ {k | ∃ c ∈ calls, c.key? = some k}) →
      R m M → R (m.step hash c).1 (specStep M c).1 ∧ (m.step hash c).2 = (specStep M c).2 := by
    rintro m M c hc ⟨hmM, hcap⟩
    have hm : m.capacity = C := hmM.2.2.symm.trans hcap
    obtain ⟨h1, h2⟩ := step_refines hinj (by omega) (by omega) hmM c hc
    exact ⟨⟨h1, by rw [capacity_specStep, hcap]⟩, h2⟩
  have hinit : R (create K V C) (BoundedMap.empty C) :=
    ⟨⟨holds_create hash _ hC, by simp [create, slots, Entry.committed?], rfl⟩, rfl⟩
  obtain ⟨⟨⟨hH, hperm, -⟩, -⟩, hout⟩ := Run.run_simulation_of (step hash) specStep hstep
    _ _ calls (fun c hc k hk => ⟨c, hc, hk⟩) hinit
  exact ⟨hout, by rw [hH.entries_eq]; exact hperm⟩

/-- A map of one element over two keys: the second key is refused while the first is stored,
and taken after an erase and a `reInitialize()`. -/
theorem runs_as_partial_map_one_element :
    1 ≤ 1 ∧ 1 < 2 ^ 24 ∧
      Set.InjOn (fun k => MurmurHashIndex.maskKey (BitVec.ofNat 64 (Bool.toNat k)).toNat)
        {k | ∃ c ∈ ([.map (.emplace true 1), .map (.emplace false 2), .map (.erase true),
          .reInitialize, .map (.emplace false 3)] : List (Call Bool Nat)), c.key? = some k} ∧
      ((Run.run (step fun k => BitVec.ofNat 64 (Bool.toNat k)) (create Bool Nat 1)
          [.map (.emplace true 1), .map (.emplace false 2), .map (.erase true), .reInitialize,
            .map (.emplace false 3)]).2 =
        (Run.run specStep (BoundedMap.empty 1) [.map (.emplace true 1), .map (.emplace false 2),
          .map (.erase true), .reInitialize, .map (.emplace false 3)]).2 ∧
      (Run.run (step fun k => BitVec.ofNat 64 (Bool.toNat k)) (create Bool Nat 1)
          [.map (.emplace true 1), .map (.emplace false 2), .map (.erase true), .reInitialize,
            .map (.emplace false 3)]).1.entries.Perm
        (Run.run specStep (BoundedMap.empty 1) [.map (.emplace true 1), .map (.emplace false 2),
          .map (.erase true), .reInitialize, .map (.emplace false 3)]).1.entries) := by
  have hinj : Function.Injective fun k : Bool =>
      MurmurHashIndex.maskKey (BitVec.ofNat 64 (Bool.toNat k)).toNat := by
    decide
  exact ⟨le_rfl, by decide, Set.injOn_of_injective hinj,
    runs_as_partial_map (fun k => BitVec.ofNat 64 (Bool.toNat k)) le_rfl (by decide) _
      (Set.injOn_of_injective hinj)⟩

end MpmcHashmap32

end MediaBridge.Concurrency
