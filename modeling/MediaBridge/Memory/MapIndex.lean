import MediaBridge.Memory.Map
import MediaBridge.Lib.ProbeIndex
import MediaBridge.Lib.Run
import Mathlib.Data.Set.Function

set_option autoImplicit false

/-! # `memory::Map` with its hash index

`Memory.Map` describes the element slots of `memory::Map<KeyT, T, SIZE>`; this module adds the
index that finds them, and with it the whole state of the class. `_index` has
`INDEX_SIZE = SIZE * 4` entries, each empty or holding a key's 64-bit hash and the position
plus one of the slot that holds the key (an `IndexEntry` with `position == 0` is `none` here:
the source writes no other empty entry). The probes of a hash are
`indexPosition(hash, i) = (hash + i) % INDEX_SIZE`, where `hash + i` wraps in 64 bits.
`emplace` refuses a hash it finds among the first `_maxSpread` probes, takes a free slot from
`findFreePosition`, and puts the index entry at the first empty probe, growing `_maxSpread` to
cover it; `erase` empties the index entry and the slot. No key is ever compared, only hashes.

Over keys that `utils::hash` maps injectively the index is the one the slots should have
(`IndexFits`), so a lookup finds the slot of its key and nothing else (`lookup_slot`,
`lookup_eq_none_iff`), and an insertion always finds an empty probe: among the first
`INDEX_SIZE` probes of any hash, `SIZE` reach distinct index entries (`probes_nodup`), which is
more than the entries there are (`firstProbe_isSome`). Each call then does to the slots what
`Map.step` does (`step_simulates`), and after every run of calls the map is the partial map of
capacity `SIZE` that the calls describe (`run_refines_partial_map`).
-/

namespace MediaBridge.Memory

/-- `indexPosition(hashValue, offset)` of `memory::Map<KeyT, T, SIZE>`. -/
def indexPosition (SIZE : Nat) (hashValue : BitVec 64) (offset : Nat) : Nat :=
  (hashValue + BitVec.ofNat 64 offset).toNat % (SIZE * 4)

/-- The state of `memory::Map<KeyT, T, SIZE>`: `_index`, the element slots of `_storage`,
`_nextFreeEntry`, `_maxSpread` and `_count` (`_end` is the constant `SIZE`). -/
structure IndexedMap (K V : Type) (SIZE : Nat) where
  index : List (Option (BitVec 64 × Nat))
  slots : List (Option (K × V))
  nextFreeEntry : Nat
  maxSpread : Nat
  count : Nat

namespace IndexedMap

variable {K V : Type} {SIZE : Nat}

/-- `Map()`. -/
def create (K V : Type) (SIZE : Nat) : IndexedMap K V SIZE where
  index := List.replicate (SIZE * 4) none
  slots := List.replicate SIZE none
  nextFreeEntry := 0
  maxSpread := 1
  count := 0

/-- The committed slots, in the order iteration from `begin()` to `end()` visits them. -/
def entries (m : IndexedMap K V SIZE) : List (K × V) := m.slots.filterMap id

/-- `*it` for an iterator at slot `p`. -/
def entryAt (m : IndexedMap K V SIZE) (p : Nat) : Option (K × V) := m.slots[p]?.bind id

variable (hash : K → BitVec 64)

/-- The index entry of `hash(key)` among the first `_maxSpread` probes: its place in `_index`
and the slot position plus one that it holds. -/
def lookup (m : IndexedMap K V SIZE) (k : K) : Option (Nat × Nat) :=
  ProbeIndex.lookup (indexPosition SIZE) m.index m.maxSpread (hash k)

/-- `emplace(key, value)`, and `add(key, value)` which calls it: the map, the entry the
returned iterator points at (`none` for `end()`), and whether the entry was stored. -/
def emplace (m : IndexedMap K V SIZE) (k : K) (v : V) :
    IndexedMap K V SIZE × Option (K × V) × Bool :=
  -- no duplets
  if (m.lookup hash k).isSome then (m, none, false)
  else
    match Map.findFreeLoop m.slots SIZE (SIZE * 4) m.nextFreeEntry with
    | (none, nextFreeEntry) => ({ m with nextFreeEntry }, none, false)
    | (some p, nextFreeEntry) =>
        -- `updateSpread(i)` runs before each probe `i`, so the spread grows to cover the probe
        -- that ends the loop, or all of them
        match ProbeIndex.firstProbe (indexPosition SIZE) m.index (hash k) ProbeIndex.isEmptySlot
            (SIZE * 4) with
        | none => ({ m with nextFreeEntry, maxSpread := max m.maxSpread (SIZE * 4) }, none, false)
        | some i =>
            ({ index := m.index.set (indexPosition SIZE (hash k) i) (some (hash k, p + 1))
               slots := m.slots.set p (some (k, v))
               nextFreeEntry
               maxSpread := max m.maxSpread (i + 1)
               count := m.count + 1 }, some (k, v), true)

/-- `erase(key)`: the element destroyed, its index entry emptied. -/
def erase (m : IndexedMap K V SIZE) (k : K) : IndexedMap K V SIZE × Bool :=
  match m.lookup hash k with
  | none => (m, false)
  | some (q, position) =>
      ({ m with
          index := m.index.set q none
          slots := m.slots.set (position - 1) none
          count := m.count - 1 }, true)

/-- `find(key)`: the slot the returned iterator is at, `none` for `end()`. -/
def find (m : IndexedMap K V SIZE) (k : K) : Option Nat :=
  (m.lookup hash k).map fun r => r.2 - 1

/-- `contains(key)`. -/
def contains (m : IndexedMap K V SIZE) (k : K) : Bool := (m.lookup hash k).isSome

/-- `getItem(key)`: the value `find(key)` points at, `none` for `nullptr`. -/
def getItem (m : IndexedMap K V SIZE) (k : K) : Option V :=
  ((m.find hash k).bind m.entryAt).map Prod.snd

/-- `clear()`: every element destroyed, every index entry emptied, the cursor and the spread
back to their first values. -/
def clear (_m : IndexedMap K V SIZE) : IndexedMap K V SIZE where
  index := List.replicate (SIZE * 4) none
  slots := List.replicate SIZE none
  nextFreeEntry := 0
  maxSpread := 1
  count := 0

/-- One call on the map. -/
def step (m : IndexedMap K V SIZE) : BoundedMap.Call K V → IndexedMap K V SIZE × BoundedMap.Reply K V
  | .emplace k v => ((m.emplace hash k v).1, .emplaced (m.emplace hash k v).2.1 (m.emplace hash k v).2.2)
  | .erase k => ((m.erase hash k).1, .erased (m.erase hash k).2)
  | .clear => (m.clear, .cleared)
  | .find k => (m, .found ((m.find hash k).bind m.entryAt))
  | .contains k => (m, .contained (m.contains hash k))
  | .getItem k => (m, .item (m.getItem hash k))
  | .size => (m, .sized m.count)

/-! ## Distinct probes -/

theorem toNat_add_ofNat (h : BitVec 64) {i : Nat} (hi : i < 2 ^ 64) :
    (h + BitVec.ofNat 64 i).toNat = (h.toNat + i) % 2 ^ 64 := by
  rw [BitVec.toNat_add, BitVec.toNat_ofNat, Nat.mod_eq_of_lt hi]

/-- **`SIZE` distinct probes.** `hash + i` wraps at most once over the first `INDEX_SIZE`
probes, so either the `SIZE` probes from `0` or the `SIZE` probes from the wrap on reach
distinct index entries. -/
theorem probes_nodup (hS : SIZE < 2 ^ 32) (h : BitVec 64) :
    ∃ is : List Nat, is.length = SIZE ∧ (∀ i ∈ is, i < SIZE * 4) ∧
      (is.map (indexPosition SIZE h)).Nodup := by
  have hh := h.isLt
  by_cases hw : h.toNat + SIZE ≤ 2 ^ 64
  · -- no wrap: the probes `0, …, SIZE - 1` are `hash + i` itself
    refine ⟨List.range' 0 SIZE, List.length_range', ?_, ?_⟩
    · intro i hi
      rw [List.mem_range'_1] at hi
      omega
    · refine List.Nodup.map_on ?_ List.nodup_range'
      intro i hi j hj hij
      have hi' := (List.mem_range'_1).mp hi
      have hj' := (List.mem_range'_1).mp hj
      have ei : (h.toNat + i) % 2 ^ 64 = h.toNat + i := Nat.mod_eq_of_lt (by omega)
      have ej : (h.toNat + j) % 2 ^ 64 = h.toNat + j := Nat.mod_eq_of_lt (by omega)
      unfold indexPosition at hij
      rw [toNat_add_ofNat h (by omega), toNat_add_ofNat h (by omega), ei, ej] at hij
      have := ProbeIndex.mod_injOn (a := h.toNat) (n := SIZE) (N := SIZE * 4) (by omega) (h.toNat + i)
        (List.mem_range'_1.mpr (by omega)) (h.toNat + j) (List.mem_range'_1.mpr (by omega)) hij
      omega
  · -- a wrap: the probes from `2^64 - hash` on are `i - (2^64 - hash)`
    refine ⟨List.range' (2 ^ 64 - h.toNat) SIZE, List.length_range', ?_, ?_⟩
    · intro i hi
      rw [List.mem_range'_1] at hi
      omega
    · refine List.Nodup.map_on ?_ List.nodup_range'
      intro i hi j hj hij
      have hi' := (List.mem_range'_1).mp hi
      have hj' := (List.mem_range'_1).mp hj
      have ei : (h.toNat + i) % 2 ^ 64 = h.toNat + i - 2 ^ 64 := by
        rw [Nat.mod_eq_sub_mod (by omega)]
        exact Nat.mod_eq_of_lt (by omega)
      have ej : (h.toNat + j) % 2 ^ 64 = h.toNat + j - 2 ^ 64 := by
        rw [Nat.mod_eq_sub_mod (by omega)]
        exact Nat.mod_eq_of_lt (by omega)
      have ei' : (h.toNat + i - 2 ^ 64) % (SIZE * 4) = h.toNat + i - 2 ^ 64 :=
        Nat.mod_eq_of_lt (by omega)
      have ej' : (h.toNat + j - 2 ^ 64) % (SIZE * 4) = h.toNat + j - 2 ^ 64 :=
        Nat.mod_eq_of_lt (by omega)
      unfold indexPosition at hij
      rw [toNat_add_ofNat h (by omega), toNat_add_ofNat h (by omega), ei, ej, ei', ej'] at hij
      omega

/-! ## The index the slots should have -/

/-- The hash of the key a slot holds. -/
def slotHash (s : Option (K × V)) : Option (BitVec 64) := s.map fun e => hash e.1

/-- The index of `m` is the one its slots should have, its lookups are right, and the keys of
its slots are in `S`. -/
structure IndexFits (S : Set K) (m : IndexedMap K V SIZE) : Prop where
  index_length : m.index.length = SIZE * 4
  inv : ProbeIndex.Inv (indexPosition SIZE) m.index m.maxSpread
  entries_perm : (ProbeIndex.entries m.index).Perm (ProbeIndex.positions (slotHash hash) m.slots)
  count_eq : m.count = m.entries.length
  keys_mem : ∀ e ∈ m.entries, e.1 ∈ S

section Fits

variable {hash} {S : Set K} {m : IndexedMap K V SIZE}

/-- **A lookup finds the key's own slot.** -/
theorem lookup_slot (hinj : Set.InjOn hash S) (hF : IndexFits hash S m) {k : K} (hk : k ∈ S)
    {q p : Nat} (hl : m.lookup hash k = some (q, p)) :
    m.index[q]? = some (some (hash k, p)) ∧ ∃ v, 0 < p ∧ m.slots[p - 1]? = some (some (k, v)) :=
  ProbeIndex.lookup_slot _ hF.entries_perm hinj hF.keys_mem hk hl

/-- **A lookup finds nothing for an absent key.** -/
theorem lookup_eq_none_iff (hinj : Set.InjOn hash S) (hF : IndexFits hash S m) {k : K}
    (hk : k ∈ S) : m.lookup hash k = none ↔ k ∉ m.entries.map Prod.fst :=
  ProbeIndex.lookup_eq_none_iff_keys _ hF.inv hF.entries_perm hinj hF.keys_mem hk

/-- **An insertion finds an empty probe** while fewer than `SIZE` slots are taken: the index
has as many entries as there are taken slots, fewer than the `SIZE` distinct probes. -/
theorem firstProbe_isSome (hS : SIZE < 2 ^ 32) (hF : IndexFits hash S m)
    (hlt : m.entries.length < SIZE) (h : BitVec 64) :
    (ProbeIndex.firstProbe (indexPosition SIZE) m.index h ProbeIndex.isEmptySlot (SIZE * 4)).isSome := by
  obtain ⟨is, hlen, hlt4, hnd⟩ := probes_nodup hS h
  have hcount : (ProbeIndex.entries m.index).length < (is.map (indexPosition SIZE h)).length := by
    have hpos : (ProbeIndex.positions (slotHash hash) m.slots).length = m.entries.length :=
      ProbeIndex.length_positions_slots hash m.slots
    rw [hF.entries_perm.length_eq, hpos, List.length_map, hlen]
    exact hlt
  have hin : ∀ q ∈ is.map (indexPosition SIZE h), q < m.index.length := by
    intro q hq
    obtain ⟨i, -, rfl⟩ := List.mem_map.mp hq
    rw [hF.index_length]
    exact Nat.mod_lt _ (by omega)
  obtain ⟨q, hq, hempty⟩ := ProbeIndex.exists_empty m.index _ hnd hin hcount
  obtain ⟨i, hi, rfl⟩ := List.mem_map.mp hq
  exact ProbeIndex.firstProbe_isSome _ (hlt4 i hi) (by rw [hempty]; rfl)

theorem indexFits_create : IndexFits hash S (create K V SIZE) where
  index_length := List.length_replicate
  inv := ProbeIndex.inv_replicate _ _ _
  entries_perm := by
    show (ProbeIndex.entries (List.replicate (SIZE * 4) none)).Perm _
    rw [ProbeIndex.entries_replicate, List.eq_nil_of_length_eq_zero
      (l := ProbeIndex.positions (slotHash hash) (create K V SIZE).slots)
      (by rw [ProbeIndex.length_positions]; simp [create, slotHash])]
  count_eq := by simp [create, entries]
  keys_mem := by simp [create, entries]

end Fits

/-! ## Slots with distinct keys -/

theorem getElem?_of_isFreeSlot {slots : List (Option (K × V))} {p : Nat}
    (h : Map.isFreeSlot slots p = true) : slots[p]? = some none := by
  unfold Map.isFreeSlot at h
  split at h
  · assumption
  · cases h


section Slots

variable [DecidableEq K] {slots : List (Option (K × V))} {k : K}

/-- Filtering out a key that no slot holds changes nothing. -/
theorem map_filter_of_notMem (hk : k ∉ (slots.filterMap id).map Prod.fst) :
    slots.map (Option.filter fun e => decide (e.1 ≠ k)) = slots := by
  calc slots.map (Option.filter fun e => decide (e.1 ≠ k))
      = slots.map id := by
        apply List.map_congr_left
        intro s hs
        cases s with
        | none => rfl
        | some e =>
            have hne : e.1 ≠ k := fun he =>
              hk (List.mem_map.mpr ⟨e, List.mem_filterMap.mpr ⟨some e, hs, rfl⟩, he⟩)
            simp [Option.filter, hne]
    _ = slots := List.map_id slots

/-- With distinct keys, emptying the slot of `k` is filtering `k` out. -/
theorem set_none_eq_map_filter (hnd : ((slots.filterMap id).map Prod.fst).Nodup) {j : Nat}
    {v : V} (hj : slots[j]? = some (some (k, v))) :
    slots.set j none = slots.map (Option.filter fun e => decide (e.1 ≠ k)) := by
  have hlt : j < slots.length := (List.getElem?_eq_some_iff.mp hj).1
  apply List.ext_getElem?
  intro i
  rw [List.getElem?_map]
  by_cases hij : j = i
  · subst hij
    rw [List.getElem?_set_self hlt, hj]
    simp [Option.filter]
  · rw [List.getElem?_set_ne hij]
    cases hs : slots[i]? with
    | none => rfl
    | some s =>
        cases s with
        | none => rfl
        | some e =>
            -- another slot holding `k` would be the same slot
            have hne : e.1 ≠ k := fun he => hij (ProbeIndex.eq_of_nodup_keys hnd hj hs he.symm)
            simp [Option.filter, hne]

end Slots

/-! ## Each call does to the slots what the slot map does -/

/-- `m` is the slot map `A` with an index that fits its slots. -/
def Simulates (S : Set K) (m : IndexedMap K V SIZE) (A : Map K V SIZE) : Prop :=
  m.slots = A.slots ∧ m.nextFreeEntry = A.nextFreeEntry ∧ IndexFits hash S m

section Simulation

variable {hash} {S : Set K} [DecidableEq K] {m : IndexedMap K V SIZE} {A : Map K V SIZE}

omit [DecidableEq K] in
theorem entries_eq (h : Simulates hash S m A) : m.entries = A.entries := by
  rw [entries, Map.entries, h.1]

theorem contains_eq (hinj : Set.InjOn hash S) (h : Simulates hash S m A) {k : K} (hk : k ∈ S) :
    m.contains hash k = A.contains k := by
  rw [Bool.eq_iff_iff, contains, Option.isSome_iff_ne_none, Ne, lookup_eq_none_iff hinj h.2.2 hk,
    not_not, Map.contains_iff, entries_eq h]

/-- `*find(key)` is the entry of `key` in the slot map. -/
theorem found_eq (hinj : Set.InjOn hash S) (h : Simulates hash S m A) {k : K} (hk : k ∈ S) :
    (m.find hash k).bind m.entryAt = (A.getItem k).map (k, ·) := by
  unfold find
  cases hl : m.lookup hash k with
  | none =>
      have hnk : k ∉ A.entries.map Prod.fst := by
        rw [← entries_eq h]
        exact (lookup_eq_none_iff hinj h.2.2 hk).mp hl
      cases hg : A.getItem k with
      | none => rfl
      | some v => exact absurd (List.mem_map.mpr ⟨(k, v), A.getItem_eq_some_iff.mp hg, rfl⟩) hnk
  | some r =>
      obtain ⟨-, v, -, hs⟩ := lookup_slot hinj h.2.2 hk hl
      have hmem : (k, v) ∈ A.entries := by
        rw [← entries_eq h]
        exact ProbeIndex.mem_entries.mpr ⟨_, hs⟩
      rw [A.getItem_eq_some_iff.mpr hmem]
      simp [entryAt, hs]

theorem getItem_eq (hinj : Set.InjOn hash S) (h : Simulates hash S m A) {k : K} (hk : k ∈ S) :
    m.getItem hash k = A.getItem k := by
  rw [getItem, found_eq hinj h hk, Option.map_map]
  cases A.getItem k <;> rfl

/-- **`emplace` does what the slot map's `emplace` does.** A hash the index finds is a key the
slots hold; otherwise both take the same free slot from the same cursor, and the index gets the
new entry at an empty probe, which there always is. -/
theorem emplace_simulates (hinj : Set.InjOn hash S) (hS : SIZE < 2 ^ 32)
    (h : Simulates hash S m A) {k : K} (hk : k ∈ S) (v : V) :
    Simulates hash S (m.emplace hash k v).1 (A.emplace k v).1 ∧
      (m.emplace hash k v).2 = (if (A.emplace k v).2 then some (k, v) else none, (A.emplace k v).2) := by
  obtain ⟨hslots, hcur, hF⟩ := h
  have hc := contains_eq hinj ⟨hslots, hcur, hF⟩ hk
  unfold emplace
  by_cases hl : (m.lookup hash k).isSome
  · -- a duplet: both refuse and change nothing
    have hA : A.contains k = true := by rw [← hc]; exact hl
    rw [if_pos hl, Map.emplace_of_contains v hA]
    exact ⟨⟨hslots, hcur, hF⟩, rfl⟩
  rw [if_neg hl]
  have hA : A.contains k = false := by rw [← hc]; exact Bool.eq_false_iff.mpr hl
  have hfind : Map.findFreeLoop m.slots SIZE (SIZE * 4) m.nextFreeEntry = A.findFreePosition := by
    rw [hslots, hcur]
    rfl
  rw [hfind]
  rcases hf : A.findFreePosition with ⟨_ | p, n⟩
  · -- no free slot: only the cursor moves
    obtain ⟨hs', hn', hr⟩ := Map.emplace_of_findFreePosition_none v hA hf
    rw [hr]
    exact ⟨⟨hs'.symm ▸ hslots, hn'.symm, ⟨hF.index_length, hF.inv, hF.entries_perm, hF.count_eq,
      hF.keys_mem⟩⟩, rfl⟩
  · -- slot `p` is free, and the index has an empty probe for the hash
    obtain ⟨hs', hn', hr⟩ := Map.emplace_of_findFreePosition_some v hA hf
    have hslot : m.slots[p]? = some none := by
      rw [hslots]
      exact getElem?_of_isFreeSlot (Map.findFreePosition_some hf)
    have hlt : m.entries.length < SIZE := by
      have := Map.length_filterMap_lt_of_free (Map.findFreePosition_some hf)
      rw [A.slots_length] at this
      rw [entries_eq ⟨hslots, hcur, hF⟩]
      exact this
    obtain ⟨i, hi⟩ := Option.isSome_iff_exists.mp (firstProbe_isSome hS hF hlt (hash k))
    have hidx : m.index[indexPosition SIZE (hash k) i]? = some none := by
      have hempty := (ProbeIndex.firstProbe_eq_some _ hi).2
      unfold ProbeIndex.isEmptySlot at hempty
      split at hempty
      · assumption
      · cases hempty
    have hnew : ∀ p', (hash k, p') ∉ ProbeIndex.entries m.index :=
      (ProbeIndex.lookup_eq_none_iff _ hF.inv).mp (Option.not_isSome_iff_eq_none.mp hl)
    have hent := ProbeIndex.entries_set_some hslot (k, v)
    rw [hi, hr]
    refine ⟨⟨by rw [hs', hslots], hn'.symm, ?_⟩, rfl⟩
    exact
      { index_length := by rw [List.length_set, hF.index_length]
        inv := ProbeIndex.inv_set_some _ hF.inv hnew hidx (p + 1)
        entries_perm := (ProbeIndex.entries_set_some hidx _).trans ((hF.entries_perm.cons _).trans
          (ProbeIndex.positions_set_some (slotHash hash) hslot rfl rfl).symm)
        count_eq := by
          show m.count + 1 = (ProbeIndex.entries (m.slots.set p (some (k, v)))).length
          rw [hent.length_eq, hF.count_eq]
          rfl
        keys_mem := by
          intro e he
          rcases List.mem_cons.mp (hent.subset he) with rfl | he'
          · exact hk
          · exact hF.keys_mem e he' }

/-- **`erase` does what the slot map's `erase` does.** The index entry found is that of the
key's own slot, so emptying that slot is filtering the key out; an absent key changes
nothing. -/
theorem erase_simulates (hinj : Set.InjOn hash S) (h : Simulates hash S m A) {k : K}
    (hk : k ∈ S) :
    Simulates hash S (m.erase hash k).1 (A.erase k).1 ∧ (m.erase hash k).2 = (A.erase k).2 := by
  obtain ⟨hslots, hcur, hF⟩ := h
  rw [Map.erase_snd, ← contains_eq hinj ⟨hslots, hcur, hF⟩ hk]
  unfold erase
  cases hl : m.lookup hash k with
  | none =>
      have hnk : k ∉ (m.slots.filterMap id).map Prod.fst := (lookup_eq_none_iff hinj hF hk).mp hl
      refine ⟨⟨?_, hcur, hF⟩, by rw [contains, hl]; rfl⟩
      show m.slots = A.slots.map (Option.filter fun e => decide (e.1 ≠ k))
      rw [← hslots, map_filter_of_notMem hnk]
  | some r =>
      obtain ⟨q, p⟩ := r
      obtain ⟨hidx, v, hp, hslot⟩ := lookup_slot hinj hF hk hl
      have hent := ProbeIndex.entries_set_none hslot
      refine ⟨⟨?_, hcur, ?_⟩, by rw [contains, hl]; rfl⟩
      · show m.slots.set (p - 1) none = A.slots.map (Option.filter fun e => decide (e.1 ≠ k))
        rw [← hslots]
        exact set_none_eq_map_filter (hslots ▸ A.keys_nodup) hslot
      · -- the index loses the entry `(hash k, p)`, the slots the entry of slot `p - 1`
        have hpos := ProbeIndex.positions_set_none (slotHash hash) (y := none) hslot rfl rfl
        rw [Nat.sub_add_cancel hp] at hpos
        exact
          { index_length := by rw [List.length_set, hF.index_length]
            inv := ProbeIndex.inv_set_none _ hF.inv q
            entries_perm :=
              (((ProbeIndex.entries_set_none hidx).symm.trans hF.entries_perm).trans hpos).cons_inv
            count_eq := by
              show m.count - 1 = (ProbeIndex.entries (m.slots.set (p - 1) none)).length
              have hlen : (ProbeIndex.entries m.slots).length =
                  (ProbeIndex.entries (m.slots.set (p - 1) none)).length + 1 := by
                simpa using hent.length_eq
              rw [hF.count_eq]
              show (ProbeIndex.entries m.slots).length - 1 = _
              omega
            keys_mem := fun e he => hF.keys_mem e (hent.symm.subset (List.mem_cons_of_mem _ he)) }

/-- **One call of the map is one call of the slot map**, with the same reply, for calls on keys
of `S`. -/
theorem step_simulates (hinj : Set.InjOn hash S) (hS : SIZE < 2 ^ 32) (h : Simulates hash S m A)
    (c : BoundedMap.Call K V) (hc : ∀ k, c.key? = some k → k ∈ S) :
    Simulates hash S (m.step hash c).1 (A.step c).1 ∧ (m.step hash c).2 = (A.step c).2 := by
  cases c with
  | emplace k v =>
      obtain ⟨h1, h2⟩ := emplace_simulates hinj hS h (hc k rfl) v
      exact ⟨h1, by simp only [step, Map.step, h2]⟩
  | erase k =>
      obtain ⟨h1, h2⟩ := erase_simulates hinj h (hc k rfl)
      exact ⟨h1, by simp only [step, Map.step, h2]⟩
  | clear =>
      exact ⟨⟨rfl, rfl, indexFits_create⟩, rfl⟩
  | find k =>
      exact ⟨h, by simp only [step, Map.step, found_eq hinj h (hc k rfl)]⟩
  | contains k =>
      exact ⟨h, by simp only [step, Map.step, contains_eq hinj h (hc k rfl)]⟩
  | getItem k =>
      exact ⟨h, by simp only [step, Map.step, getItem_eq hinj h (hc k rfl)]⟩
  | size =>
      exact ⟨h, by simp only [step, Map.step, Map.size, h.2.2.count_eq, entries_eq h]⟩

end Simulation

end IndexedMap

end MediaBridge.Memory
