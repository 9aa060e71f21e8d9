import Mathlib.Data.List.Nodup
import Mathlib.Data.List.Perm.Basic

set_option autoImplicit false

/-! # Lists of pairs with distinct keys, and maps of bounded capacity

A hash map of fixed capacity, as systems code keeps them, refuses an insertion when the key is
present or when every element slot is taken, and reports it only through a return value its
callers may ignore. `BoundedMap α β` is such a map: a list of pairs with distinct keys, never
more than `capacity` of them. `emplace` puts a new pair in front, `erase` filters a key out.
The order of the list is not an iteration order of any implementation; what the lemmas here
describe, and what users of the map read, is its lookups, its key and value lists up to
permutation, and its size.

`KeyedList` holds the facts about the underlying lists: lookup in a list with distinct keys,
and the keys left by filtering.
-/

namespace KeyedList

variable {α β : Type} [DecidableEq α]

/-- Over a list with distinct keys, `lookup` finds exactly the stored pairs. -/
theorem lookup_eq_some_iff {l : List (α × β)} (hl : (l.map Prod.fst).Nodup) {k : α} {v : β} :
    l.lookup k = some v ↔ (k, v) ∈ l := by
  induction l with
  | nil => simp
  | cons e l ih =>
      obtain ⟨k', v'⟩ := e
      rw [List.map_cons, List.nodup_cons] at hl
      by_cases hk : k = k'
      · subst hk
        have hnot : ∀ w, (k, w) ∉ l := fun w hw => hl.1 (List.mem_map.mpr ⟨(k, w), hw, rfl⟩)
        simp only [List.lookup_cons, beq_self_eq_true, Option.some.injEq, List.mem_cons,
          Prod.mk.injEq, true_and]
        constructor
        · exact fun h => .inl h.symm
        · rintro (h | h)
          · exact h.symm
          · exact absurd h (hnot v)
      · have hbeq : (k == k') = false := beq_false_of_ne hk
        simp only [List.lookup_cons, hbeq, List.mem_cons, Prod.mk.injEq, hk, false_and, false_or]
        exact ih hl.2

/-- `lookup` finds a value exactly for the keys of the list. -/
theorem lookup_isSome_iff {l : List (α × β)} {k : α} :
    (l.lookup k).isSome ↔ k ∈ l.map Prod.fst := by
  induction l with
  | nil => simp
  | cons e l ih =>
      obtain ⟨k', v'⟩ := e
      by_cases hk : k = k'
      · subst hk
        simp
      · have hbeq : (k == k') = false := beq_false_of_ne hk
        simp only [List.lookup_cons, hbeq, List.map_cons, List.mem_cons, hk, false_or]
        exact ih

/-- Lists with distinct keys that are permutations of each other have the same lookups. -/
theorem lookup_eq_of_perm {l l' : List (α × β)} (hl : (l.map Prod.fst).Nodup) (hp : l.Perm l')
    (k : α) : l.lookup k = l'.lookup k := by
  have hl' : (l'.map Prod.fst).Nodup := (hp.map Prod.fst).nodup_iff.mp hl
  cases h : l'.lookup k with
  | none =>
      rw [← Option.not_isSome_iff_eq_none, lookup_isSome_iff] at h ⊢
      exact fun hk => h ((hp.map Prod.fst).subset hk)
  | some v =>
      rw [lookup_eq_some_iff hl, hp.mem_iff]
      exact (lookup_eq_some_iff hl').mp h

/-- Filtering a key out of a list with distinct keys erases it from the keys. -/
theorem keys_filter_ne {l : List (α × β)} (hl : (l.map Prod.fst).Nodup) (k : α) :
    (l.filter (fun e => e.1 != k)).map Prod.fst = (l.map Prod.fst).erase k := by
  rw [hl.erase_eq_filter, List.filter_map]
  rfl

/-- A stored pair, in front of the list with its key filtered out, is a permutation of the
list. -/
theorem perm_cons_filter_ne {l : List (α × β)} (hl : (l.map Prod.fst).Nodup) {k : α} {v : β}
    (hmem : (k, v) ∈ l) : l.Perm ((k, v) :: l.filter (fun e => e.1 != k)) := by
  induction l with
  | nil => exact absurd hmem List.not_mem_nil
  | cons e l ih =>
      obtain ⟨k', v'⟩ := e
      rw [List.map_cons, List.nodup_cons] at hl
      by_cases hk : k' = k
      · subst hk
        -- the key is not repeated, so the head is the pair and the rest keeps every entry
        have hkl : ∀ w, (k', w) ∉ l := fun w hw => hl.1 (List.mem_map.mpr ⟨(k', w), hw, rfl⟩)
        have hv : v' = v := by
          rcases List.mem_cons.mp hmem with h | h
          · exact (Prod.mk.inj h).2.symm
          · exact absurd h (hkl v)
        have hrest : l.filter (fun e => e.1 != k') = l := by
          rw [List.filter_eq_self]
          intro e he
          have : e.1 ≠ k' := fun h => hkl e.2 (by rw [← h]; exact he)
          simpa using this
        rw [List.filter_cons_of_neg (by simp), hrest, hv]
      · have hmem' : (k, v) ∈ l := by
          rcases List.mem_cons.mp hmem with h | h
          · exact absurd (Prod.mk.inj h).1.symm hk
          · exact h
        rw [List.filter_cons_of_pos (by simpa using hk)]
        exact ((ih hl.2 hmem').cons _).trans (List.Perm.swap _ _ _)

end KeyedList

/-- A map of at most `capacity` entries with distinct keys. -/
structure BoundedMap (α β : Type) where
  capacity : Nat
  entries : List (α × β)
  keys_nodup : (entries.map Prod.fst).Nodup
  length_le : entries.length ≤ capacity

namespace BoundedMap

variable {α β : Type}

/-- The empty map of a capacity. -/
def empty (capacity : Nat) : BoundedMap α β := ⟨capacity, [], List.nodup_nil, Nat.zero_le _⟩

def size (m : BoundedMap α β) : Nat := m.entries.length

def keys (m : BoundedMap α β) : List α := m.entries.map Prod.fst

def values (m : BoundedMap α β) : List β := m.entries.map Prod.snd

theorem size_le (m : BoundedMap α β) : m.size ≤ m.capacity := m.length_le

@[simp] theorem length_keys (m : BoundedMap α β) : m.keys.length = m.size := List.length_map _

@[simp] theorem length_values (m : BoundedMap α β) : m.values.length = m.size := List.length_map _

@[simp] theorem entries_empty (capacity : Nat) : (empty capacity : BoundedMap α β).entries = [] :=
  rfl

@[simp] theorem capacity_empty (capacity : Nat) :
    (empty capacity : BoundedMap α β).capacity = capacity := rfl

/-! ## Updating values in place -/

/-- Every value replaced by `f` of its key and itself, as a loop over the map that updates the
entries in place does. -/
def mapValues (m : BoundedMap α β) (f : α → β → β) : BoundedMap α β where
  capacity := m.capacity
  entries := m.entries.map fun e => (e.1, f e.1 e.2)
  keys_nodup := by
    rw [List.map_map]
    exact m.keys_nodup
  length_le := by
    rw [List.length_map]
    exact m.length_le

@[simp] theorem capacity_mapValues (m : BoundedMap α β) (f : α → β → β) :
    (m.mapValues f).capacity = m.capacity := rfl

@[simp] theorem keys_mapValues (m : BoundedMap α β) (f : α → β → β) :
    (m.mapValues f).keys = m.keys := by
  simp only [keys, mapValues, List.map_map]
  rfl

section Operations

variable [DecidableEq α]

def lookup (m : BoundedMap α β) (k : α) : Option β := m.entries.lookup k

def contains (m : BoundedMap α β) (k : α) : Bool := (m.lookup k).isSome

/-- `emplace(key, value)`: refused when the key is present or the map is full. -/
def emplace (m : BoundedMap α β) (k : α) (v : β) : BoundedMap α β :=
  if h : k ∈ m.keys ∨ m.capacity ≤ m.size then m
  else
    { capacity := m.capacity
      entries := (k, v) :: m.entries
      keys_nodup := by
        rw [List.map_cons, List.nodup_cons]
        exact ⟨fun hk => h (.inl hk), m.keys_nodup⟩
      length_le := by
        have : m.size < m.capacity := Nat.lt_of_not_le (fun hc => h (.inr hc))
        exact this }

/-- `erase(key)`. -/
def erase (m : BoundedMap α β) (k : α) : BoundedMap α β where
  capacity := m.capacity
  entries := m.entries.filter (fun e => e.1 != k)
  keys_nodup := by
    rw [KeyedList.keys_filter_ne m.keys_nodup]
    exact m.keys_nodup.erase k
  length_le := Nat.le_trans (List.length_filter_le _ _) m.length_le

theorem lookup_eq_some_iff (m : BoundedMap α β) {k : α} {v : β} :
    m.lookup k = some v ↔ (k, v) ∈ m.entries :=
  KeyedList.lookup_eq_some_iff m.keys_nodup

theorem contains_iff (m : BoundedMap α β) {k : α} : m.contains k = true ↔ k ∈ m.keys :=
  KeyedList.lookup_isSome_iff

theorem lookup_eq_none_iff (m : BoundedMap α β) {k : α} : m.lookup k = none ↔ k ∉ m.keys := by
  rw [← contains_iff, contains, Option.not_isSome_iff_eq_none]

theorem mem_keys_of_lookup {m : BoundedMap α β} {k : α} {v : β} (h : m.lookup k = some v) :
    k ∈ m.keys :=
  List.mem_map.mpr ⟨(k, v), (m.lookup_eq_some_iff).mp h, rfl⟩

theorem exists_lookup_of_mem_keys {m : BoundedMap α β} {k : α} (h : k ∈ m.keys) :
    ∃ v, m.lookup k = some v := by
  obtain ⟨⟨k', v⟩, hmem, rfl⟩ := List.mem_map.mp h
  exact ⟨v, (m.lookup_eq_some_iff).mpr hmem⟩

/-! ## `emplace` -/

@[simp] theorem capacity_emplace (m : BoundedMap α β) (k : α) (v : β) :
    (m.emplace k v).capacity = m.capacity := by
  unfold emplace
  split <;> rfl

theorem emplace_of_mem {m : BoundedMap α β} {k : α} (v : β) (h : k ∈ m.keys) :
    m.emplace k v = m := by
  rw [emplace, dif_pos (.inl h)]

theorem emplace_of_full {m : BoundedMap α β} (k : α) (v : β) (h : m.capacity ≤ m.size) :
    m.emplace k v = m := by
  rw [emplace, dif_pos (.inr h)]

/-- An accepted `emplace` puts the pair in front. -/
theorem entries_emplace {m : BoundedMap α β} {k : α} (v : β) (hk : k ∉ m.keys)
    (hs : m.size < m.capacity) : (m.emplace k v).entries = (k, v) :: m.entries := by
  have h : ¬ (k ∈ m.keys ∨ m.capacity ≤ m.size) := by
    rintro (h | h)
    · exact hk h
    · exact absurd hs (Nat.not_lt.mpr h)
  rw [emplace, dif_neg h]

theorem keys_emplace {m : BoundedMap α β} {k : α} (v : β) (hk : k ∉ m.keys)
    (hs : m.size < m.capacity) : (m.emplace k v).keys = k :: m.keys := by
  rw [keys, entries_emplace v hk hs]
  rfl

theorem values_emplace {m : BoundedMap α β} {k : α} (v : β) (hk : k ∉ m.keys)
    (hs : m.size < m.capacity) : (m.emplace k v).values = v :: m.values := by
  rw [values, entries_emplace v hk hs]
  rfl

/-- Whether accepted or refused, `emplace` adds at most the new pair. -/
theorem entries_emplace_cases (m : BoundedMap α β) (k : α) (v : β) :
    (m.emplace k v).entries = (k, v) :: m.entries ∨ m.emplace k v = m := by
  unfold emplace
  split
  · exact .inr rfl
  · exact .inl rfl

theorem mem_keys_emplace {m : BoundedMap α β} {k k' : α} {v : β} (h : k' ∈ (m.emplace k v).keys) :
    k' = k ∨ k' ∈ m.keys := by
  rcases m.entries_emplace_cases k v with he | he
  · rw [keys, he, List.map_cons, List.mem_cons] at h
    exact h
  · rw [he] at h
    exact .inr h

theorem keys_subset_emplace (m : BoundedMap α β) (k : α) (v : β) : m.keys ⊆ (m.emplace k v).keys := by
  intro k' hk'
  rcases m.entries_emplace_cases k v with he | he
  · rw [keys, he, List.map_cons]
    exact List.mem_cons_of_mem _ hk'
  · rw [he]
    exact hk'

/-! ## `erase` -/

@[simp] theorem capacity_erase (m : BoundedMap α β) (k : α) : (m.erase k).capacity = m.capacity :=
  rfl

theorem entries_erase (m : BoundedMap α β) (k : α) :
    (m.erase k).entries = m.entries.filter (fun e => e.1 != k) := rfl

theorem keys_erase (m : BoundedMap α β) (k : α) : (m.erase k).keys = m.keys.erase k :=
  KeyedList.keys_filter_ne m.keys_nodup k

theorem erase_of_notMem {m : BoundedMap α β} {k : α} (h : k ∉ m.keys) :
    (m.erase k).entries = m.entries := by
  rw [entries_erase, List.filter_eq_self]
  intro e he
  have : e.1 ≠ k := fun hek => h (List.mem_map.mpr ⟨e, he, hek⟩)
  simpa using this

/-- The entry `erase` removes is the one `lookup` finds. -/
theorem perm_erase {m : BoundedMap α β} {k : α} {v : β} (h : m.lookup k = some v) :
    m.entries.Perm ((k, v) :: (m.erase k).entries) :=
  KeyedList.perm_cons_filter_ne m.keys_nodup ((m.lookup_eq_some_iff).mp h)

theorem values_perm_erase {m : BoundedMap α β} {k : α} {v : β} (h : m.lookup k = some v) :
    m.values.Perm (v :: (m.erase k).values) :=
  (perm_erase h).map Prod.snd

theorem keys_perm_erase {m : BoundedMap α β} {k : α} (h : k ∈ m.keys) :
    m.keys.Perm (k :: (m.erase k).keys) := by
  rw [keys_erase]
  exact List.perm_cons_erase h

theorem mem_keys_erase {m : BoundedMap α β} {k k' : α} :
    k' ∈ (m.erase k).keys ↔ k' ≠ k ∧ k' ∈ m.keys := by
  rw [keys_erase]
  exact m.keys_nodup.mem_erase_iff

theorem size_erase {m : BoundedMap α β} {k : α} (h : k ∈ m.keys) :
    (m.erase k).size + 1 = m.size := by
  obtain ⟨v, hv⟩ := exists_lookup_of_mem_keys h
  have := (perm_erase hv).length_eq
  rw [List.length_cons] at this
  exact this.symm

theorem size_erase_le (m : BoundedMap α β) (k : α) : (m.erase k).size ≤ m.size :=
  List.length_filter_le _ _

theorem lookup_erase_ne (m : BoundedMap α β) {k k' : α} (h : k' ≠ k) :
    (m.erase k).lookup k' = m.lookup k' := by
  cases hl : m.lookup k' with
  | none =>
      rw [lookup_eq_none_iff, keys_erase] at *
      exact fun hk => hl (List.mem_of_mem_erase hk)
  | some v =>
      rw [lookup_eq_some_iff, entries_erase, List.mem_filter]
      exact ⟨(m.lookup_eq_some_iff).mp hl, by simpa using h⟩

/-- What `emplace` does to the keys depends on the keys and the capacity alone. -/
theorem keys_emplace_eq (m : BoundedMap α β) (k : α) (v : β) :
    (m.emplace k v).keys =
      if k ∈ m.keys ∨ m.capacity ≤ m.keys.length then m.keys else k :: m.keys := by
  rw [length_keys]
  unfold emplace
  -- the refusal and the insertion test the same condition
  split <;> rfl

/-- The value at `k`, if there is one, replaced by `f` of it: an update through `find(key)`. -/
def modify (m : BoundedMap α β) (k : α) (f : β → β) : BoundedMap α β :=
  m.mapValues fun k' v => if k' = k then f v else v

theorem lookup_mapValues (m : BoundedMap α β) (f : α → β → β) (k : α) :
    (m.mapValues f).lookup k = (m.lookup k).map (f k) := by
  cases hl : m.lookup k with
  | none =>
      rw [Option.map_none, lookup_eq_none_iff, keys_mapValues]
      exact (lookup_eq_none_iff m).mp hl
  | some v =>
      rw [Option.map_some, lookup_eq_some_iff]
      exact List.mem_map.mpr ⟨(k, v), (lookup_eq_some_iff m).mp hl, rfl⟩

@[simp] theorem capacity_modify (m : BoundedMap α β) (k : α) (f : β → β) :
    (m.modify k f).capacity = m.capacity := rfl

@[simp] theorem keys_modify (m : BoundedMap α β) (k : α) (f : β → β) :
    (m.modify k f).keys = m.keys :=
  keys_mapValues m _

/-- Values modified one after another: the keys and the capacity stay. -/
theorem keys_foldl_modify {γ : Type} (m : BoundedMap α β) (l : List γ) (k : γ → α)
    (f : γ → β → β) :
    (l.foldl (fun m x => m.modify (k x) (f x)) m).keys = m.keys ∧
      (l.foldl (fun m x => m.modify (k x) (f x)) m).capacity = m.capacity := by
  induction l generalizing m with
  | nil => exact ⟨rfl, rfl⟩
  | cons x l ih =>
      rw [List.foldl_cons]
      obtain ⟨hk, hc⟩ := ih (m.modify (k x) (f x))
      exact ⟨hk.trans (keys_modify m _ _), hc.trans (capacity_modify m _ _)⟩

/-! ## One key after another -/

/-- Emplacing distinct fresh keys into a map with room for them adds one pair per key. -/
theorem entries_foldl_emplace (m : BoundedMap α β) (ks : List α) (v : β) (hnd : ks.Nodup)
    (hfresh : ∀ k ∈ ks, k ∉ m.keys) (hroom : m.size + ks.length ≤ m.capacity) :
    (ks.foldl (fun m k => m.emplace k v) m).entries.Perm (ks.map (fun k => (k, v)) ++ m.entries) := by
  induction ks generalizing m with
  | nil => exact List.Perm.refl _
  | cons k ks ih =>
      rw [List.nodup_cons] at hnd
      have hk : k ∉ m.keys := hfresh k List.mem_cons_self
      have hs : m.size < m.capacity := by
        rw [List.length_cons] at hroom
        omega
      have he := entries_emplace v hk hs
      -- the rest of the keys are fresh for the map with `k` in it
      have hfresh' : ∀ k' ∈ ks, k' ∉ (m.emplace k v).keys := by
        intro k' hk' hmem
        rcases mem_keys_emplace hmem with rfl | h
        · exact hnd.1 hk'
        · exact hfresh k' (List.mem_cons_of_mem k hk') h
      have hroom' : (m.emplace k v).size + ks.length ≤ (m.emplace k v).capacity := by
        rw [capacity_emplace, size, he, List.length_cons]
        rw [List.length_cons] at hroom
        exact Nat.le_trans (Nat.le_of_eq (by unfold size; omega)) hroom
      rw [List.foldl_cons]
      refine (ih _ hnd.2 hfresh' hroom').trans ?_
      rw [he, List.map_cons, List.cons_append]
      exact List.perm_middle

/-- Erasing keys one after another filters them all out. -/
theorem entries_foldl_erase (m : BoundedMap α β) (ks : List α) :
    (ks.foldl (fun m k => m.erase k) m).entries = m.entries.filter (fun e => decide (e.1 ∉ ks)) := by
  induction ks generalizing m with
  | nil => simp
  | cons k ks ih =>
      rw [List.foldl_cons, ih, entries_erase, List.filter_filter]
      apply List.filter_congr
      intro e _
      cases decide (e.1 ∈ ks) <;> cases h : e.1 == k <;> simp_all

@[simp] theorem capacity_foldl_emplace (m : BoundedMap α β) (ks : List α) (v : β) :
    (ks.foldl (fun m k => m.emplace k v) m).capacity = m.capacity := by
  induction ks generalizing m with
  | nil => rfl
  | cons k ks ih => rw [List.foldl_cons, ih, capacity_emplace]

@[simp] theorem capacity_foldl_erase (m : BoundedMap α β) (ks : List α) :
    (ks.foldl (fun m k => m.erase k) m).capacity = m.capacity := by
  induction ks generalizing m with
  | nil => rfl
  | cons k ks ih => rw [List.foldl_cons, ih, capacity_erase]

/-! ## The map behind an interface of calls -/

/-- The calls of a map's interface, each naming at most one key. -/
inductive Call (α β : Type)
  | emplace (key : α) (value : β)
  | erase (key : α)
  | clear
  | find (key : α)
  | contains (key : α)
  | getItem (key : α)
  | size

/-- The key a call names. -/
def Call.key? {α β : Type} : Call α β → Option α
  | .emplace k _ | .erase k | .find k | .contains k | .getItem k => some k
  | .clear | .size => none

/-- What a call returns: for `emplace` and `find` the entry an iterator points at (`none` for
`end()`), for `getItem` the value a pointer points at (`none` for `nullptr`). -/
inductive Reply (α β : Type)
  | emplaced (it : Option (α × β)) (ok : Bool)
  | erased (ok : Bool)
  | cleared
  | found (it : Option (α × β))
  | contained (b : Bool)
  | item (v : Option β)
  | sized (n : Nat)

/-- One call on a partial map of bounded capacity. A refused `emplace` of a present key
returns an iterator to its entry when `refusedFinds` holds, and `end()` otherwise. -/
def step (refusedFinds : Bool) (m : BoundedMap α β) : Call α β → BoundedMap α β × Reply α β
  | .emplace k v =>
      if k ∈ m.keys ∨ m.capacity ≤ m.size then
        (m, .emplaced (if refusedFinds then (m.lookup k).map (k, ·) else none) false)
      else (m.emplace k v, .emplaced (some (k, v)) true)
  | .erase k => (m.erase k, .erased (m.contains k))
  | .clear => (empty m.capacity, .cleared)
  | .find k => (m, .found ((m.lookup k).map (k, ·)))
  | .contains k => (m, .contained (m.contains k))
  | .getItem k => (m, .item (m.lookup k))
  | .size => (m, .sized m.size)

/-- No call changes the capacity. -/
@[simp] theorem capacity_step (refusedFinds : Bool) (m : BoundedMap α β) (c : Call α β) :
    (step refusedFinds m c).1.capacity = m.capacity := by
  cases c <;> simp only [step] <;> (try split) <;> simp

end Operations

end BoundedMap
