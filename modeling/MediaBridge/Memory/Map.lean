import MediaBridge.Lib.BoundedMap
import Mathlib.Algebra.GroupWithZero.Nat

set_option autoImplicit false

/-! # `memory::Map`: a map in a fixed array of slots

`memory::Map<KeyT, T, SIZE>` keeps its entries in `SIZE` element slots, each committed (holding
a key and a value) or free, and finds the slot of a key through a hash index. Iterating the map
visits the committed slots in slot order. `emplace` refuses a key that is present, and
otherwise takes the first free slot from the rotating cursor `_nextFreeEntry`; `erase` frees the
slot of a key; `clear` frees every slot and puts the cursor back to `0`.

The slots are a list of `Option (K × V)`, and keys are compared here where the class compares
their hashes: `Memory.MapIndex` adds the hash index and shows that, over keys with distinct
hashes, it finds exactly the slot that holds a key and is never full, so that every call does
to the slots what `step` does here. The keys of the committed slots are distinct
(`keys_nodup`). `entries` lists the committed slots in iteration order, and every operation is
described by what it does to `entries` (`emplace_snd`, `entries_emplace_of_snd`,
`entries_erase`, `entries_setValue`, `entries_clear`), which is all the users of the map read.
`step_refines` puts them together: behind its interface of calls the map is a partial map of
capacity `SIZE`.
-/

namespace MediaBridge.Memory

/-- `memory::Map<KeyT, T, SIZE>`: the element slots and the cursor `_nextFreeEntry`. -/
structure Map (K V : Type) (SIZE : Nat) where
  slots : List (Option (K × V))
  slots_length : slots.length = SIZE
  nextFreeEntry : Nat
  nextFreeEntry_lt : nextFreeEntry < SIZE
  keys_nodup : ((slots.filterMap id).map Prod.fst).Nodup

namespace Map

variable {K V : Type} {SIZE : Nat}

/-! ## Reading the map -/

/-- The committed slots, in the order iteration visits them. -/
def entries (m : Map K V SIZE) : List (K × V) := m.slots.filterMap id

/-- `size()`: the number of committed slots (`_count`). -/
def size (m : Map K V SIZE) : Nat := m.entries.length

/-- `getItem(key)`: the value stored under `key`, `none` for `nullptr`. -/
def getItem [DecidableEq K] (m : Map K V SIZE) (k : K) : Option V := m.entries.lookup k

/-- `contains(key)`. -/
def contains [DecidableEq K] (m : Map K V SIZE) (k : K) : Bool := (m.getItem k).isSome

theorem keys_entries_nodup (m : Map K V SIZE) : (m.entries.map Prod.fst).Nodup := m.keys_nodup

theorem size_le (m : Map K V SIZE) : m.size ≤ SIZE := by
  have h := List.length_filterMap_le id m.slots
  rw [m.slots_length] at h
  exact h

section Lookup

variable [DecidableEq K]

theorem getItem_eq_some_iff (m : Map K V SIZE) {k : K} {v : V} :
    m.getItem k = some v ↔ (k, v) ∈ m.entries :=
  KeyedList.lookup_eq_some_iff m.keys_entries_nodup

theorem contains_iff (m : Map K V SIZE) {k : K} : m.contains k = true ↔ k ∈ m.entries.map Prod.fst := by
  unfold contains
  rw [Option.isSome_iff_exists, List.mem_map]
  constructor
  · rintro ⟨v, hv⟩
    exact ⟨(k, v), (m.getItem_eq_some_iff).mp hv, rfl⟩
  · rintro ⟨⟨k', v⟩, hmem, rfl⟩
    exact ⟨v, (m.getItem_eq_some_iff).mpr hmem⟩

end Lookup

/-! ## Free slots -/

/-- `!elements[i].committed`, for a slot index in range. -/
def isFreeSlot (slots : List (Option (K × V))) (i : Nat) : Bool :=
  match slots[i]? with
  | some none => true
  | _ => false

/-- The loop of `findFreePosition` with `i` rounds left, from the cursor `nextFreeEntry`: the
free slot found (the source returns it plus one, and `0` for none) and the cursor after. -/
def findFreeLoop (slots : List (Option (K × V))) (SIZE : Nat) : Nat → Nat → Option Nat × Nat
  | 0, nextFreeEntry => (none, nextFreeEntry)
  | i + 1, nextFreeEntry =>
      if isFreeSlot slots nextFreeEntry then (some nextFreeEntry, (nextFreeEntry + 1) % SIZE)
      else findFreeLoop slots SIZE i ((nextFreeEntry + 1) % SIZE)

/-- `findFreePosition()`: one round per index entry, `INDEX_SIZE = SIZE * 4`. -/
def findFreePosition (m : Map K V SIZE) : Option Nat × Nat :=
  findFreeLoop m.slots SIZE (SIZE * 4) m.nextFreeEntry

theorem findFreeLoop_snd_lt (slots : List (Option (K × V))) {n : Nat} (hn : n < SIZE) (i : Nat) :
    (findFreeLoop slots SIZE i n).2 < SIZE := by
  induction i generalizing n with
  | zero => exact hn
  | succ i ih =>
      unfold findFreeLoop
      split
      · exact Nat.mod_lt _ (by omega)
      · exact ih (Nat.mod_lt _ (by omega))

theorem findFreeLoop_some {slots : List (Option (K × V))} {i n p : Nat}
    (h : (findFreeLoop slots SIZE i n).1 = some p) : isFreeSlot slots p = true := by
  induction i generalizing n with
  | zero => cases h
  | succ i ih =>
      unfold findFreeLoop at h
      split at h
      · rename_i hfree
        cases h
        exact hfree
      · exact ih h

/-- The loop that finds nothing has looked at the `i` slots from the cursor on. -/
theorem findFreeLoop_none {slots : List (Option (K × V))} {i n : Nat} (hn : n < SIZE)
    (h : (findFreeLoop slots SIZE i n).1 = none) :
    ∀ j < i, isFreeSlot slots ((n + j) % SIZE) = false := by
  induction i generalizing n with
  | zero => intro j hj; omega
  | succ i ih =>
      unfold findFreeLoop at h
      split at h
      · cases h
      · rename_i hfree
        intro j hj
        cases j with
        | zero =>
            rw [Nat.add_zero, Nat.mod_eq_of_lt hn]
            exact Bool.eq_false_iff.mpr hfree
        | succ j =>
            have hrest := ih (Nat.mod_lt _ (by omega)) h j (by omega)
            rwa [Nat.mod_add_mod, Nat.add_right_comm, Nat.add_assoc] at hrest

/-- A slot list with fewer committed slots than slots has a free slot. -/
theorem exists_isFreeSlot {slots : List (Option (K × V))}
    (h : (slots.filterMap id).length < slots.length) : ∃ p < slots.length, isFreeSlot slots p = true := by
  induction slots with
  | nil => simp at h
  | cons s slots ih =>
      cases s with
      | none => exact ⟨0, by simp, rfl⟩
      | some e =>
          have h' : (slots.filterMap id).length < slots.length := by
            simpa [List.filterMap_cons] using h
          obtain ⟨p, hp, hfree⟩ := ih h'
          exact ⟨p + 1, by simp; omega, hfree⟩

/-- **A map below its capacity has a free slot that `findFreePosition` finds**: its `4 * SIZE`
rounds go around all the slots from the cursor. -/
theorem findFreePosition_isSome (m : Map K V SIZE) (h : m.size < SIZE) :
    (m.findFreePosition).1.isSome = true := by
  have hlen := m.slots_length
  obtain ⟨p, hp, hfree⟩ := exists_isFreeSlot
    (show (m.slots.filterMap id).length < m.slots.length by unfold size entries at h; omega)
  have hn := m.nextFreeEntry_lt
  -- slot `p` is the `j`-th one from the cursor
  have hj : (m.nextFreeEntry + (p + SIZE - m.nextFreeEntry) % SIZE) % SIZE = p := by
    rw [Nat.add_mod_mod, show m.nextFreeEntry + (p + SIZE - m.nextFreeEntry) = p + SIZE by omega,
      Nat.add_mod_right, Nat.mod_eq_of_lt (by omega)]
  cases hf : (m.findFreePosition).1 with
  | some q => rfl
  | none =>
      have hlt := Nat.mod_lt (p + SIZE - m.nextFreeEntry) (show SIZE > 0 by omega)
      have := findFreeLoop_none hn hf ((p + SIZE - m.nextFreeEntry) % SIZE) (by omega)
      rw [hj, hfree] at this
      cases this

/-! ## Changing the map -/

/-- A free slot splits the slots around it. -/
theorem free_split {slots : List (Option (K × V))} {p : Nat} (h : isFreeSlot slots p = true) :
    p < slots.length ∧ slots = slots.take p ++ none :: slots.drop (p + 1) := by
  unfold isFreeSlot at h
  split at h
  · rename_i hs
    obtain ⟨hp, hnone⟩ := List.getElem?_eq_some_iff.mp hs
    refine ⟨hp, ?_⟩
    conv => lhs; rw [← List.take_append_drop p slots]
    rw [← List.getElem_cons_drop hp, hnone]
  · cases h

/-- A list with a free slot has fewer committed slots than slots. -/
theorem length_filterMap_lt_of_free {slots : List (Option (K × V))} {p : Nat}
    (h : isFreeSlot slots p = true) : (slots.filterMap id).length < slots.length := by
  obtain ⟨-, hsplit⟩ := free_split h
  rw [hsplit, List.filterMap_append, List.filterMap_cons_none rfl, List.length_append, List.length_append,
    List.length_cons]
  have h₁ := List.length_filterMap_le id (slots.take p)
  have h₂ := List.length_filterMap_le id (slots.drop (p + 1))
  omega

/-- Filling a free slot adds its entry between those before and after it. -/
theorem filterMap_set_of_free {slots : List (Option (K × V))} {p : Nat} (h : isFreeSlot slots p = true)
    (e : K × V) : ∃ l₁ l₂, slots.filterMap id = l₁ ++ l₂ ∧ (slots.set p (some e)).filterMap id = l₁ ++ e :: l₂ := by
  obtain ⟨hp, hsplit⟩ := free_split h
  refine ⟨(slots.take p).filterMap id, (slots.drop (p + 1)).filterMap id, ?_, ?_⟩
  · conv => lhs; rw [hsplit]
    simp
  · rw [List.set_eq_take_append_cons_drop, if_pos hp]
    simp

variable [DecidableEq K]

/-- `emplace(key, value)`: a present key is refused ("no duplets"), then the first free slot from
the cursor takes the entry; with none free the map is full. -/
def emplace (m : Map K V SIZE) (k : K) (v : V) : Map K V SIZE × Bool :=
  if hk : m.contains k = true then (m, false)
  else
    match hf : m.findFreePosition with
    | (none, nextFreeEntry) =>
        ({ m with
            nextFreeEntry := nextFreeEntry
            nextFreeEntry_lt := by
              have := findFreeLoop_snd_lt m.slots m.nextFreeEntry_lt (SIZE * 4)
              rw [show findFreeLoop m.slots SIZE (SIZE * 4) m.nextFreeEntry = _ from hf] at this
              exact this }, false)
    | (some p, nextFreeEntry) =>
        ({ slots := m.slots.set p (some (k, v))
           slots_length := by rw [List.length_set, m.slots_length]
           nextFreeEntry := nextFreeEntry
           nextFreeEntry_lt := by
             have := findFreeLoop_snd_lt m.slots m.nextFreeEntry_lt (SIZE * 4)
             rw [show findFreeLoop m.slots SIZE (SIZE * 4) m.nextFreeEntry = _ from hf] at this
             exact this
           keys_nodup := by
             have hfree : isFreeSlot m.slots p = true :=
               findFreeLoop_some (show (findFreeLoop m.slots SIZE (SIZE * 4) m.nextFreeEntry).1 = _
                 by rw [show findFreeLoop m.slots SIZE (SIZE * 4) m.nextFreeEntry = _ from hf])
             obtain ⟨l₁, l₂, hold, hnew⟩ := filterMap_set_of_free hfree (k, v)
             have hnodup := m.keys_nodup
             have hk' : k ∉ (m.slots.filterMap id).map Prod.fst := fun hmem =>
               hk ((m.contains_iff).mpr hmem)
             rw [hold] at hnodup hk'
             rw [hnew, List.map_append, List.map_cons, List.nodup_middle, List.nodup_cons]
             rw [List.map_append] at hnodup hk'
             exact ⟨hk', hnodup⟩ }, true)

/-- `erase(key)`: the slot of the key is freed; whether there was one. -/
def erase (m : Map K V SIZE) (k : K) : Map K V SIZE × Bool :=
  ({ m with
      slots := m.slots.map (Option.filter (fun e => decide (e.1 ≠ k)))
      slots_length := by rw [List.length_map, m.slots_length]
      keys_nodup := by
        have hsub : ((m.slots.map (Option.filter (fun e => decide (e.1 ≠ k)))).filterMap id).Sublist
            (m.slots.filterMap id) := by
          rw [List.filterMap_map, show (id ∘ Option.filter (fun e : K × V => decide (e.1 ≠ k))) =
            (fun s => (id s).filter (fun e => decide (e.1 ≠ k))) from rfl, ← List.filter_filterMap]
          exact List.filter_sublist
        exact (hsub.map Prod.fst).nodup m.keys_nodup }, m.contains k)

/-- The value of the committed slot of `key` replaced, as a write through the reference that
`getItem` or an iterator gives. -/
def setValue (m : Map K V SIZE) (k : K) (v : V) : Map K V SIZE :=
  { m with
    slots := m.slots.map (Option.map (fun e => if e.1 = k then (e.1, v) else e))
    slots_length := by rw [List.length_map, m.slots_length]
    keys_nodup := by
      -- the keys stay where they are
      have hkeys : ((m.slots.map (Option.map (fun e => if e.1 = k then (e.1, v) else e))).filterMap
          id).map Prod.fst = (m.slots.filterMap id).map Prod.fst := by
        rw [List.filterMap_map, List.map_filterMap, List.map_filterMap]
        apply List.filterMap_congr
        intro s _
        cases s with
        | none => rfl
        | some e =>
            simp only [Function.comp_apply, id, Option.map_some]
            split <;> rfl
      rw [hkeys]
      exact m.keys_nodup }

/-- `clear()`: every slot freed, the cursor back at `0`. -/
def clear (m : Map K V SIZE) : Map K V SIZE where
  slots := List.replicate SIZE none
  slots_length := List.length_replicate
  nextFreeEntry := 0
  nextFreeEntry_lt := Nat.lt_of_le_of_lt (Nat.zero_le _) m.nextFreeEntry_lt
  keys_nodup := by simp

/-! ## What each operation does to the entries -/

omit [DecidableEq K] in
/-- The free slot `emplace` takes when the key is absent. -/
theorem findFreePosition_some {m : Map K V SIZE} {p n : Nat} (hf : m.findFreePosition = (some p, n)) :
    isFreeSlot m.slots p = true :=
  findFreeLoop_some (show (findFreeLoop m.slots SIZE (SIZE * 4) m.nextFreeEntry).1 = some p by
    rw [show findFreeLoop m.slots SIZE (SIZE * 4) m.nextFreeEntry = _ from hf])

theorem emplace_of_contains {m : Map K V SIZE} {k : K} (v : V) (hk : m.contains k = true) :
    m.emplace k v = (m, false) := by
  rw [emplace, dif_pos hk]

/-- With the key absent and nothing free, `emplace` only moves the cursor. -/
theorem emplace_of_findFreePosition_none {m : Map K V SIZE} {k : K} (v : V)
    (hk : m.contains k = false) {n : Nat} (hf : m.findFreePosition = (none, n)) :
    (m.emplace k v).1.slots = m.slots ∧ (m.emplace k v).1.nextFreeEntry = n ∧
      (m.emplace k v).2 = false := by
  unfold emplace
  rw [dif_neg (by rw [hk]; exact Bool.false_ne_true)]
  split
  · rename_i n' hf'
    rw [hf] at hf'
    cases hf'
    exact ⟨rfl, rfl, rfl⟩
  · rename_i p n' hf'
    rw [hf] at hf'
    cases hf'

/-- With the key absent and slot `p` free, `emplace` fills it. -/
theorem emplace_of_findFreePosition_some {m : Map K V SIZE} {k : K} (v : V)
    (hk : m.contains k = false) {p n : Nat} (hf : m.findFreePosition = (some p, n)) :
    (m.emplace k v).1.slots = m.slots.set p (some (k, v)) ∧ (m.emplace k v).1.nextFreeEntry = n ∧
      (m.emplace k v).2 = true := by
  unfold emplace
  rw [dif_neg (by rw [hk]; exact Bool.false_ne_true)]
  split
  · rename_i n' hf'
    rw [hf] at hf'
    cases hf'
  · rename_i p' n' hf'
    rw [hf] at hf'
    cases hf'
    exact ⟨rfl, rfl, rfl⟩

/-- **`emplace` stores the entry exactly when the key is absent and the map is below its
capacity.** -/
theorem emplace_snd (m : Map K V SIZE) (k : K) (v : V) :
    (m.emplace k v).2 = (!m.contains k && decide (m.size < SIZE)) := by
  unfold emplace
  split
  · rename_i hk
    rw [hk]
    rfl
  · rename_i hk
    rw [Bool.not_eq_true] at hk
    rw [hk, Bool.not_false, Bool.true_and]
    split
    · rename_i n hf
      -- nothing free was found, so the map is full
      have hfull : ¬ m.size < SIZE := fun hlt => by
        have := m.findFreePosition_isSome hlt
        rw [hf] at this
        cases this
      exact (decide_eq_false hfull).symm
    · rename_i p n hf
      have hlt := length_filterMap_lt_of_free (findFreePosition_some hf)
      rw [m.slots_length] at hlt
      exact (decide_eq_true hlt).symm

/-- A stored entry joins the others; iteration finds it at the slot it took. -/
theorem entries_emplace_of_snd {m : Map K V SIZE} {k : K} {v : V} (h : (m.emplace k v).2 = true) :
    (m.emplace k v).1.entries.Perm ((k, v) :: m.entries) := by
  revert h
  unfold emplace
  split
  · intro h
    cases h
  · split
    · intro h
      cases h
    · rename_i p n hf
      intro _
      obtain ⟨l₁, l₂, hold, hnew⟩ := filterMap_set_of_free (findFreePosition_some hf) (k, v)
      show (m.slots.set p (some (k, v))).filterMap id |>.Perm ((k, v) :: m.slots.filterMap id)
      rw [hold, hnew]
      exact List.perm_middle

/-- A refused entry leaves the entries as they were. -/
theorem entries_emplace_of_not_snd {m : Map K V SIZE} {k : K} {v : V} (h : (m.emplace k v).2 = false) :
    (m.emplace k v).1.entries = m.entries := by
  revert h
  unfold emplace
  split
  · intro _
    rfl
  · split
    · intro _
      rfl
    · intro h
      cases h

theorem erase_snd (m : Map K V SIZE) (k : K) : (m.erase k).2 = m.contains k := rfl

/-- `erase` drops the entry of the key and keeps the others in their order. -/
theorem entries_erase (m : Map K V SIZE) (k : K) :
    (m.erase k).1.entries = m.entries.filter (fun e => decide (e.1 ≠ k)) := by
  show (m.slots.map (Option.filter (fun e => decide (e.1 ≠ k)))).filterMap id = _
  rw [List.filterMap_map, entries, List.filter_filterMap]
  rfl

/-- `setValue` replaces the value of the key and keeps the entries in their order. -/
theorem entries_setValue (m : Map K V SIZE) (k : K) (v : V) :
    (m.setValue k v).entries = m.entries.map (fun e => if e.1 = k then (e.1, v) else e) := by
  show (m.slots.map (Option.map (fun e => if e.1 = k then (e.1, v) else e))).filterMap id = _
  rw [List.filterMap_map, entries, List.map_filterMap]
  rfl

theorem size_emplace_of_snd {m : Map K V SIZE} {k : K} {v : V} (h : (m.emplace k v).2 = true) :
    (m.emplace k v).1.size = m.size + 1 := by
  unfold size
  rw [(entries_emplace_of_snd h).length_eq, List.length_cons]

theorem mem_entries_erase (m : Map K V SIZE) (k : K) (e : K × V) :
    e ∈ (m.erase k).1.entries ↔ e ∈ m.entries ∧ e.1 ≠ k := by
  rw [entries_erase, List.mem_filter, decide_eq_true_iff]

theorem mem_entries_setValue (m : Map K V SIZE) (k : K) (v : V) (e : K × V) :
    e ∈ (m.setValue k v).entries ↔ ∃ e' ∈ m.entries, (if e'.1 = k then (e'.1, v) else e') = e := by
  rw [entries_setValue, List.mem_map]

theorem size_setValue (m : Map K V SIZE) (k : K) (v : V) : (m.setValue k v).size = m.size := by
  unfold size
  rw [entries_setValue, List.length_map]

omit [DecidableEq K] in
@[simp]
theorem entries_clear (m : Map K V SIZE) : m.clear.entries = [] := by
  simp [clear, entries]

end Map

/-! ## The map behind its interface -/

namespace Map

variable {K V : Type} {SIZE : Nat} [DecidableEq K]

/-- One call on the map (`add(key, value)` is `emplace(key, value)`): a stored entry is what the
returned iterator points at, a refused one gets `end()`. -/
def step (m : Map K V SIZE) : BoundedMap.Call K V → Map K V SIZE × BoundedMap.Reply K V
  | .emplace k v => ((m.emplace k v).1, .emplaced (if (m.emplace k v).2 then some (k, v) else none)
      (m.emplace k v).2)
  | .erase k => ((m.erase k).1, .erased (m.erase k).2)
  | .clear => (m.clear, .cleared)
  | .find k => (m, .found ((m.getItem k).map (k, ·)))
  | .contains k => (m, .contained (m.contains k))
  | .getItem k => (m, .item (m.getItem k))
  | .size => (m, .sized m.size)

/-- The map holds the entries of a partial map of capacity `SIZE`, in its own order. -/
def Refines (m : Map K V SIZE) (M : BoundedMap K V) : Prop :=
  m.entries.Perm M.entries ∧ M.capacity = SIZE

theorem getItem_eq_lookup {m : Map K V SIZE} {M : BoundedMap K V} (h : m.Refines M) (k : K) :
    m.getItem k = M.lookup k :=
  KeyedList.lookup_eq_of_perm m.keys_entries_nodup h.1 k

theorem contains_eq {m : Map K V SIZE} {M : BoundedMap K V} (h : m.Refines M) (k : K) :
    m.contains k = M.contains k := by
  rw [contains, BoundedMap.contains, getItem_eq_lookup h]

/-- **One call of the map is one call of the partial map**, with the same reply: iteration
order apart, the map is a partial map of capacity `SIZE`. -/
theorem step_refines {m : Map K V SIZE} {M : BoundedMap K V} (h : m.Refines M)
    (c : BoundedMap.Call K V) :
    (m.step c).1.Refines (BoundedMap.step false M c).1 ∧ (m.step c).2 = (BoundedMap.step false M c).2 := by
  obtain ⟨hperm, hcap⟩ := h
  have hsize : m.size = M.size := hperm.length_eq
  cases c with
  | emplace k v =>
      -- the map refuses exactly what the partial map refuses
      have hmem : m.contains k = true ↔ k ∈ M.keys := by
        rw [contains_eq ⟨hperm, hcap⟩, BoundedMap.contains_iff]
      have hsnd := m.emplace_snd k v
      simp only [step, BoundedMap.step]
      by_cases hr : k ∈ M.keys ∨ M.capacity ≤ M.size
      · have hf : (m.emplace k v).2 = false := by
          rw [hsnd]
          rcases hr with hk | hc
          · rw [hmem.mpr hk]
            rfl
          · rw [decide_eq_false (by omega), Bool.and_false]
        rw [if_pos hr, hf]
        exact ⟨⟨by rw [entries_emplace_of_not_snd hf]; exact hperm, hcap⟩, rfl⟩
      · have hk : k ∉ M.keys := fun hk => hr (.inl hk)
        have hs : M.size < M.capacity := by omega
        have ht : (m.emplace k v).2 = true := by
          rw [hsnd, Bool.and_eq_true, Bool.not_eq_true', decide_eq_true_iff]
          exact ⟨Bool.eq_false_iff.mpr (fun hc => hk (hmem.mp hc)), by omega⟩
        rw [if_neg hr, ht]
        refine ⟨⟨?_, by rw [BoundedMap.capacity_emplace, hcap]⟩, rfl⟩
        rw [BoundedMap.entries_emplace v hk hs]
        exact (entries_emplace_of_snd ht).trans (hperm.cons _)
  | erase k =>
      refine ⟨⟨?_, hcap⟩, by simp only [step, BoundedMap.step, erase_snd, contains_eq ⟨hperm, hcap⟩]⟩
      show (m.erase k).1.entries.Perm (M.erase k).entries
      rw [entries_erase, BoundedMap.entries_erase]
      have hp : (fun e : K × V => decide (e.1 ≠ k)) = fun e => e.1 != k := by
        funext e
        by_cases he : e.1 = k <;> simp [he]
      rw [hp]
      exact hperm.filter _
  | clear =>
      exact ⟨⟨by simp [step, BoundedMap.step], by simp [BoundedMap.step, hcap]⟩, rfl⟩
  | find k =>
      exact ⟨⟨hperm, hcap⟩, by simp only [step, BoundedMap.step, getItem_eq_lookup ⟨hperm, hcap⟩]⟩
  | contains k =>
      exact ⟨⟨hperm, hcap⟩, by simp only [step, BoundedMap.step, contains_eq ⟨hperm, hcap⟩]⟩
  | getItem k =>
      exact ⟨⟨hperm, hcap⟩, by simp only [step, BoundedMap.step, getItem_eq_lookup ⟨hperm, hcap⟩]⟩
  | size =>
      exact ⟨⟨hperm, hcap⟩, by simp only [step, BoundedMap.step, hsize]⟩

end Map

/-- `Map()`: all slots free. -/
def Map.empty {K V : Type} (SIZE : Nat) [NeZero SIZE] : Map K V SIZE where
  slots := List.replicate SIZE none
  slots_length := List.length_replicate
  nextFreeEntry := 0
  nextFreeEntry_lt := Nat.pos_of_neZero SIZE
  keys_nodup := by simp

@[simp]
theorem Map.entries_empty {K V : Type} (SIZE : Nat) [NeZero SIZE] : (Map.empty SIZE : Map K V SIZE).entries = [] := by
  simp [Map.empty, Map.entries]

end MediaBridge.Memory
