import Mathlib.Data.List.FinRange

set_option autoImplicit false

/-! # `memory::List`: a doubly linked list on a pool of entries

`memory::List<T, MAX_SIZE>` links entries taken from a `PoolAllocator` of `MAX_SIZE` elements:
`pushToTail` and `pushToHead` allocate an entry for the new datum (and fail when the pool is
depleted), `remove(data)` unlinks and frees the first entry from the head holding `data`,
`popFromHead` unlinks and frees the head entry, and `head()` and `tail()` are the end entries,
`nullptr` for an empty list.

An entry is a node of the pool, `Fin MAX_SIZE`, so that a pointer to an entry kept elsewhere
(as `ActiveMediaList` keeps one per endpoint) can be compared with the entries of the list.
`entries` is the chain from the head; the `_next` and `_previous` links are the order of this
list. The pool's free nodes are `free`, and every node is either linked or free, once
(`nodes_perm`). The pool hands out the first free node and takes a freed node back in front;
the source's allocator picks among several free stacks in turn, and nothing here depends on
which free node it picks. The source's pool rounds its size up to a page, so it may have more
than `MAX_SIZE` entries; with `MAX_SIZE` nodes a push fails no later than there.
-/

namespace MediaBridge.Memory

/-- `memory::List<T, MAX_SIZE>`: the linked entries from the head, each a pool node with its
datum, and the free nodes of the pool. -/
structure PoolList (T : Type) (MAX_SIZE : Nat) where
  entries : List (Fin MAX_SIZE × T)
  free : List (Fin MAX_SIZE)
  nodes_perm : (entries.map Prod.fst ++ free).Perm (List.finRange MAX_SIZE)

namespace PoolList

variable {T : Type} {MAX_SIZE : Nat}

/-- `List()`: no entry, every node free. -/
def empty : PoolList T MAX_SIZE := ⟨[], List.finRange MAX_SIZE, List.Perm.refl _⟩

/-- The data from the head to the tail. -/
def data (l : PoolList T MAX_SIZE) : List T := l.entries.map Prod.snd

def length (l : PoolList T MAX_SIZE) : Nat := l.entries.length

/-- `head()`: the head entry, `none` for `nullptr`. -/
def head (l : PoolList T MAX_SIZE) : Option (Fin MAX_SIZE) := l.entries.head?.map Prod.fst

/-- `tail()`: the tail entry, `none` for `nullptr`. -/
def tail (l : PoolList T MAX_SIZE) : Option (Fin MAX_SIZE) := l.entries.getLast?.map Prod.fst

/-- `pushToTail(data)`: `false` when the pool is depleted. -/
def pushToTail (l : PoolList T MAX_SIZE) (d : T) : PoolList T MAX_SIZE × Bool :=
  match h : l.free with
  | [] => (l, false)
  | n :: rest =>
      (⟨l.entries ++ [(n, d)], rest, by
        rw [List.map_append, List.map_singleton, List.append_assoc, List.singleton_append, ← h]
        exact l.nodes_perm⟩, true)

/-- `pushToHead(data)`: into an empty list as `pushToTail`. -/
def pushToHead (l : PoolList T MAX_SIZE) (d : T) : PoolList T MAX_SIZE × Bool :=
  if l.entries = [] then l.pushToTail d
  else
    match h : l.free with
    | [] => (l, false)
    | n :: rest =>
        (⟨(n, d) :: l.entries, rest, by
          rw [List.map_cons, List.cons_append]
          refine List.Perm.trans ?_ l.nodes_perm
          rw [h]
          exact List.perm_middle.symm⟩, true)

/-- The search of `remove(data)` from the head: the node of the first entry holding `d`, and
the entries without it. -/
def removeEntry [DecidableEq T] (d : T) :
    List (Fin MAX_SIZE × T) → Option (Fin MAX_SIZE × List (Fin MAX_SIZE × T))
  | [] => none
  | e :: es => if e.2 = d then some (e.1, es) else (removeEntry d es).map fun r => (r.1, e :: r.2)

/-- What `removeEntry` finds: an entry holding `d`, with no earlier one. -/
theorem removeEntry_eq_some [DecidableEq T] {d : T} {es es' : List (Fin MAX_SIZE × T)}
    {n : Fin MAX_SIZE} (h : removeEntry d es = some (n, es')) :
    ∃ l₁ l₂, es = l₁ ++ (n, d) :: l₂ ∧ es' = l₁ ++ l₂ := by
  induction es generalizing es' with
  | nil => cases h
  | cons e es ih =>
      unfold removeEntry at h
      split at h
      · rename_i hd
        obtain ⟨rfl, rfl⟩ := Prod.mk.inj (Option.some.inj h)
        exact ⟨[], es, by rw [← hd]; rfl, rfl⟩
      · obtain ⟨⟨n', es''⟩, hr, he⟩ := Option.map_eq_some_iff.mp h
        obtain ⟨rfl, rfl⟩ := Prod.mk.inj he
        obtain ⟨l₁, l₂, rfl, rfl⟩ := ih hr
        exact ⟨e :: l₁, l₂, rfl, rfl⟩

theorem removeEntry_eq_none [DecidableEq T] {d : T} {es : List (Fin MAX_SIZE × T)} :
    removeEntry d es = none ↔ d ∉ es.map Prod.snd := by
  induction es with
  | nil => simp [removeEntry]
  | cons e es ih =>
      unfold removeEntry
      split
      · rename_i hd
        simp [hd]
      · rename_i hd
        rw [Option.map_eq_none_iff, ih, List.map_cons, List.mem_cons]
        constructor
        · rintro h (h' | h')
          · exact hd h'.symm
          · exact h h'
        · exact fun h h' => h (.inr h')

/-- `remove(data)`: `false` when no entry holds `data`. -/
def remove [DecidableEq T] (l : PoolList T MAX_SIZE) (d : T) : PoolList T MAX_SIZE × Bool :=
  match h : removeEntry d l.entries with
  | none => (l, false)
  | some (n, es) =>
      (⟨es, n :: l.free, by
        obtain ⟨l₁, l₂, he, rfl⟩ := removeEntry_eq_some h
        refine List.Perm.trans ?_ l.nodes_perm
        rw [he]
        simp only [List.map_append, List.map_cons, List.append_assoc, List.cons_append]
        exact List.perm_middle.append_left _⟩, true)

/-- `popFromHead(outData)`: the datum of the head entry, `none` for an empty list. -/
def popFromHead (l : PoolList T MAX_SIZE) : Option (T × PoolList T MAX_SIZE) :=
  match h : l.entries with
  | [] => none
  | (n, d) :: es =>
      some (d, ⟨es, n :: l.free, by
        refine List.Perm.trans ?_ l.nodes_perm
        rw [h, List.map_cons, List.cons_append]
        exact List.perm_middle⟩)

/-! ## The pool -/

theorem length_add_length_free (l : PoolList T MAX_SIZE) : l.length + l.free.length = MAX_SIZE := by
  have h := l.nodes_perm.length_eq
  rw [List.length_append, List.length_map, List.length_finRange] at h
  exact h

@[simp] theorem entries_empty : (empty : PoolList T MAX_SIZE).entries = [] := rfl

@[simp] theorem length_data (l : PoolList T MAX_SIZE) : l.data.length = l.length := List.length_map _

theorem exists_free_of_lt {l : PoolList T MAX_SIZE} (h : l.length < MAX_SIZE) :
    ∃ n rest, l.free = n :: rest := by
  have := l.length_add_length_free
  cases hf : l.free with
  | nil => rw [hf, List.length_nil] at this; omega
  | cons n rest => exact ⟨n, rest, rfl⟩

/-! ## The operations on the chain of entries -/

theorem head_of_entries {l : PoolList T MAX_SIZE} {n : Fin MAX_SIZE} {d : T}
    {es : List (Fin MAX_SIZE × T)} (h : l.entries = (n, d) :: es) : l.head = some n := by
  rw [head, h]
  rfl

theorem tail_of_entries {l : PoolList T MAX_SIZE} {n : Fin MAX_SIZE} {d : T}
    {es : List (Fin MAX_SIZE × T)} (h : l.entries = es ++ [(n, d)]) : l.tail = some n := by
  rw [tail, h, List.getLast?_concat]
  rfl

/-- With a node free, `pushToTail` links it after the tail. -/
theorem pushToTail_of_lt {l : PoolList T MAX_SIZE} (d : T) (h : l.length < MAX_SIZE) :
    ∃ n, (l.pushToTail d).1.entries = l.entries ++ [(n, d)] := by
  obtain ⟨n, rest, hf⟩ := exists_free_of_lt h
  refine ⟨n, ?_⟩
  unfold pushToTail
  split
  · rename_i h'
    rw [hf] at h'
    cases h'
  · rename_i n' rest' h'
    rw [hf] at h'
    cases h'
    rfl

/-- With a node free, `pushToHead` links it before the head. -/
theorem pushToHead_of_lt {l : PoolList T MAX_SIZE} (d : T) (h : l.length < MAX_SIZE) :
    ∃ n, (l.pushToHead d).1.entries = (n, d) :: l.entries := by
  unfold pushToHead
  split
  · rename_i he
    obtain ⟨n, hn⟩ := pushToTail_of_lt d h
    exact ⟨n, by rw [hn, he]; rfl⟩
  · obtain ⟨n, rest, hf⟩ := exists_free_of_lt h
    refine ⟨n, ?_⟩
    split
    · rename_i h'
      rw [hf] at h'
      cases h'
    · rename_i n' rest' h'
      rw [hf] at h'
      cases h'
      rfl

/-- `push` links `d` on a free node, which `entry` reads back: `pushToHead` with `head`,
`pushToTail` with `tail`. -/
def LinksNew (push : PoolList T MAX_SIZE → T → PoolList T MAX_SIZE × Bool)
    (entry : PoolList T MAX_SIZE → Option (Fin MAX_SIZE)) : Prop :=
  ∀ (l : PoolList T MAX_SIZE) (d : T), l.length < MAX_SIZE →
    ∃ n, (push l d).1.entries.Perm ((n, d) :: l.entries) ∧ entry (push l d).1 = some n

theorem linksNew_pushToHead : LinksNew (@pushToHead T MAX_SIZE) head := by
  intro l d h
  obtain ⟨n, hn⟩ := pushToHead_of_lt d h
  exact ⟨n, by rw [hn], head_of_entries hn⟩

theorem linksNew_pushToTail : LinksNew (@pushToTail T MAX_SIZE) tail := by
  intro l d h
  obtain ⟨n, hn⟩ := pushToTail_of_lt d h
  exact ⟨n, by rw [hn]; exact List.perm_append_singleton _ _, tail_of_entries hn⟩

theorem LinksNew.data_perm {push : PoolList T MAX_SIZE → T → PoolList T MAX_SIZE × Bool}
    {entry : PoolList T MAX_SIZE → Option (Fin MAX_SIZE)} (hp : LinksNew push entry)
    {l : PoolList T MAX_SIZE} (d : T) (h : l.length < MAX_SIZE) :
    (push l d).1.data.Perm (d :: l.data) := by
  obtain ⟨n, hn, -⟩ := hp l d h
  exact hn.map Prod.snd

theorem LinksNew.length_eq {push : PoolList T MAX_SIZE → T → PoolList T MAX_SIZE × Bool}
    {entry : PoolList T MAX_SIZE → Option (Fin MAX_SIZE)} (hp : LinksNew push entry)
    {l : PoolList T MAX_SIZE} (d : T) (h : l.length < MAX_SIZE) :
    (push l d).1.length = l.length + 1 := by
  obtain ⟨n, hn, -⟩ := hp l d h
  exact hn.length_eq

section Remove

variable [DecidableEq T]

theorem remove_of_notMem {l : PoolList T MAX_SIZE} {d : T} (h : d ∉ l.data) : l.remove d = (l, false) := by
  unfold remove
  split
  · rfl
  · rename_i n es hr
    rw [removeEntry_eq_none.mpr h] at hr
    cases hr

/-- `remove` unlinks one entry holding `d`: the chain is that entry in front of what is left. -/
theorem remove_of_mem {l : PoolList T MAX_SIZE} {d : T} (h : d ∈ l.data) :
    ∃ n, (n, d) ∈ l.entries ∧ l.entries.Perm ((n, d) :: (l.remove d).1.entries) := by
  unfold remove
  split
  · rename_i hr
    exact absurd h (removeEntry_eq_none.mp hr)
  · rename_i n es hr
    obtain ⟨l₁, l₂, he, rfl⟩ := removeEntry_eq_some hr
    have hp : l.entries.Perm ((n, d) :: (l₁ ++ l₂)) := by
      rw [he]
      exact List.perm_middle
    exact ⟨n, hp.mem_iff.mpr List.mem_cons_self, hp⟩

/-- `remove` reports an entry it found. -/
theorem remove_eq_of_mem {l : PoolList T MAX_SIZE} {d : T} (h : d ∈ l.data) :
    l.remove d = ((l.remove d).1, true) := by
  unfold remove
  split
  · rename_i hr
    exact absurd h (removeEntry_eq_none.mp hr)
  · rfl

theorem data_perm_remove {l : PoolList T MAX_SIZE} {d : T} (h : d ∈ l.data) :
    l.data.Perm (d :: (l.remove d).1.data) := by
  obtain ⟨n, -, hp⟩ := remove_of_mem h
  exact hp.map Prod.snd

theorem length_remove_le (l : PoolList T MAX_SIZE) (d : T) : (l.remove d).1.length ≤ l.length := by
  by_cases h : d ∈ l.data
  · obtain ⟨n, -, hp⟩ := remove_of_mem h
    have := hp.length_eq
    rw [List.length_cons] at this
    unfold length
    omega
  · rw [remove_of_notMem h]

end Remove

theorem popFromHead_eq_none {l : PoolList T MAX_SIZE} : l.popFromHead = none ↔ l.entries = [] := by
  unfold popFromHead
  split
  · rename_i h
    exact ⟨fun _ => h, fun _ => rfl⟩
  · rename_i n d es h
    constructor
    · intro h'
      cases h'
    · intro h'
      rw [h] at h'
      cases h'

theorem entries_of_popFromHead {l l' : PoolList T MAX_SIZE} {d : T}
    (h : l.popFromHead = some (d, l')) : ∃ n, l.entries = (n, d) :: l'.entries := by
  unfold popFromHead at h
  split at h
  · cases h
  · rename_i n d' es he
    obtain ⟨rfl, rfl⟩ := Prod.mk.inj (Option.some.inj h)
    exact ⟨n, he⟩

end PoolList

end MediaBridge.Memory
