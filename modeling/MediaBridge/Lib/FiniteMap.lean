import Mathlib.Data.List.AList

set_option autoImplicit false

/-! # Finite maps with insert-if-absent and value counts

Hash maps of fixed capacity in systems code often offer `emplace`, which inserts a key only
when it is absent, `erase`, `find` and iteration over the entries. Here such a map is a
Mathlib `AList` with values of one type; `emplace` is defined from `AList.insert`, and
`countValue m v` counts the keys mapped to `v`, which is what a map of reference counts
kept beside `m` has to agree with.
-/

namespace FiniteMap

/-- A finite map from `α` to `β`. -/
abbrev Map (α β : Type) := AList (fun _ : α => β)

section Emplace

variable {α β : Type} [DecidableEq α]

/-- `emplace`: insert unless the key is present. -/
def emplace (m : Map α β) (k : α) (v : β) : Map α β := if k ∈ m then m else m.insert k v

/-- The value under `k`, `0` when absent: a count kept in a map. -/
def countOf (m : Map α Nat) (k : α) : Nat := (m.lookup k).getD 0

theorem lookup_emplace_of_notMem {m : Map α β} {k : α} (v : β) (h : k ∉ m) :
    (emplace m k v).lookup k = some v := by
  rw [emplace, if_neg h, AList.lookup_insert]

theorem lookup_emplace_ne {m : Map α β} {k k' : α} (v : β) (h : k' ≠ k) :
    (emplace m k v).lookup k' = m.lookup k' := by
  unfold emplace
  split
  · rfl
  · rw [AList.lookup_insert_ne h]

/-- Erasing an absent key changes nothing. -/
theorem erase_of_notMem {m : Map α β} {k : α} (h : k ∉ m) : m.erase k = m :=
  AList.ext (List.kerase_of_notMem_keys (fun hk => h (AList.mem_keys.mpr hk)))

theorem mem_emplace {m : Map α β} {k k' : α} (v : β) : k' ∈ emplace m k v ↔ k' = k ∨ k' ∈ m := by
  unfold emplace
  split
  · rename_i hk
    constructor
    · exact Or.inr
    · rintro (rfl | h)
      · exact hk
      · exact h
  · exact AList.mem_insert m

end Emplace

/-! ## Counting the keys of a value -/

section Count

variable {α β : Type} [DecidableEq α] [DecidableEq β]

/-- The number of keys mapped to `v`. -/
def countValue (m : Map α β) (v : β) : Nat := m.entries.countP (fun e => decide (e.2 = v))

theorem countValue_insert_of_notMem {m : Map α β} {k : α} (w v : β) (h : k ∉ m) :
    countValue (m.insert k w) v = countValue m v + if w = v then 1 else 0 := by
  unfold countValue
  rw [AList.entries_insert_of_notMem h, List.countP_cons]
  simp

/-- Erasing a key takes its value's count down by one. -/
theorem countValue_erase_of_lookup {m : Map α β} {k : α} {w : β} (v : β)
    (h : m.lookup k = some w) :
    countValue (m.erase k) v + (if w = v then 1 else 0) = countValue m v := by
  have hk : k ∈ m.entries.keys := AList.mem_keys.mp (AList.lookup_isSome.mp (by simp [h]))
  obtain ⟨b, l₁, l₂, -, hsplit, herase⟩ := List.exists_of_kerase hk
  -- the erased entry is the one `lookup` finds
  have hb : b = w := by
    have hmem : (⟨k, b⟩ : Sigma (fun _ : α => β)) ∈ m.entries := by
      rw [hsplit]; simp
    have := List.mem_dlookup m.nodupKeys hmem
    rw [← AList.lookup] at this
    rw [h] at this
    exact (Option.some.inj this).symm
  have he : (m.erase k).entries = m.entries.kerase k := rfl
  unfold countValue
  rw [he, herase, hsplit, hb]
  simp only [List.countP_append, List.countP_cons]
  simp only [decide_eq_true_eq]
  omega

/-- A value has a key exactly when its count is positive. -/
theorem countValue_pos_iff {m : Map α β} {v : β} :
    0 < countValue m v ↔ ∃ k, m.lookup k = some v := by
  unfold countValue
  rw [List.countP_pos_iff]
  constructor
  · rintro ⟨⟨k, w⟩, hmem, hw⟩
    simp only [decide_eq_true_eq] at hw
    subst hw
    exact ⟨k, List.mem_dlookup m.nodupKeys hmem⟩
  · rintro ⟨k, hk⟩
    exact ⟨⟨k, v⟩, List.of_mem_dlookup hk, by simp⟩

end Count

end FiniteMap
