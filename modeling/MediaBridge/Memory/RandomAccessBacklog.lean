import Mathlib.Data.BitVec
import Mathlib.Data.Nat.ModEq
import Mathlib.Logic.Function.Basic
import Mathlib.Tactic.Abel

set_option autoImplicit false

/-! # `memory::RandomAccessBacklog`: a ring of slots with a wrapping head

`RandomAccessBacklog<T, N>` keeps up to `N` items in `N` slots. `_head` is a `uint32_t` that
moves down by one at each `push_front` and is never reduced: item `i`, counting from the front,
lives in slot `(_head + i) % N`, the sum taken in 32 bits. `N` is a power of two, so it divides
`2^32` and the wrap of `_head` does not move any item to another slot (`slot_val`). A
`push_front` on a full backlog overwrites the back item, whose slot is the one before the front.

`toList` reads the items from the front. Each operation is described by what it does to that
list (`toList_pushFront`, `toList_popBack`, `back_eq_getLast`), which is all its users read.
-/

namespace MediaBridge.Memory

/-- `memory::RandomAccessBacklog<T, N>`: the slots `_data`, `_head` and `_count`. -/
structure RandomAccessBacklog (T : Type) (N : Nat) where
  data : Fin N → T
  head : BitVec 32
  count : Nat
  count_le : count ≤ N

namespace RandomAccessBacklog

variable {T : Type} {N : Nat} [NeZero N]

/-- The slot `(_head + index) % N` of item `index`, the sum taken in 32 bits. -/
def slot (head index : BitVec 32) : Fin N :=
  ⟨(head + index).toNat % N, Nat.mod_lt _ (Nat.pos_of_neZero N)⟩

/-- `RandomAccessBacklog()`: no items, the slots as they are. -/
def empty [Inhabited T] : RandomAccessBacklog T N := ⟨fun _ => default, 0, 0, Nat.zero_le _⟩

variable (b : RandomAccessBacklog T N)

/-- `operator[](index)`. -/
def get (index : BitVec 32) : T := b.data (slot b.head index)

/-- `size()`. -/
def size : Nat := b.count

/-- `back()`: item `_count - 1`, the index taken in 32 bits. -/
def back : T := b.get (BitVec.ofNat 32 b.count - 1)

/-- `pop_back()`. -/
def popBack : RandomAccessBacklog T N :=
  if b.count > 0 then
    { b with count := b.count - 1, count_le := Nat.le_trans (Nat.sub_le _ _) b.count_le }
  else b

/-- `push_front(item)`: the head moves down one slot and the item is written there; a full
backlog first gives up its back item, which sits in that slot. -/
def pushFront (item : T) : RandomAccessBacklog T N where
  data := Function.update b.data (slot (b.head - 1) 0) item
  head := b.head - 1
  count := (if b.count = N then b.count - 1 else b.count) + 1
  count_le := by
    have := b.count_le
    have := Nat.pos_of_neZero N
    split <;> omega

/-- The items from the front. -/
def toList : List T := (List.range b.count).map fun i => b.get (BitVec.ofNat 32 i)

@[simp] theorem length_toList : b.toList.length = b.size := by
  simp [toList, size]

@[simp] theorem toList_empty [Inhabited T] : (empty : RandomAccessBacklog T N).toList = [] := rfl

/-! ## Slots -/

section Slots

variable (hN : N ∣ 2 ^ 32)
include hN

/-- With `N` dividing `2^32`, the slot of item `i` is `(_head + i) % N` whatever the wrap. -/
theorem slot_val (head : BitVec 32) (i : Nat) :
    (slot head (BitVec.ofNat 32 i) : Fin N).val = (head.toNat + i) % N := by
  obtain ⟨k, hk⟩ := hN
  show (head + BitVec.ofNat 32 i).toNat % N = (head.toNat + i) % N
  rw [BitVec.toNat_add, BitVec.toNat_ofNat, hk, Nat.mod_mul_right_mod, Nat.add_mod,
    Nat.mod_mul_right_mod, ← Nat.add_mod]

/-- Items fewer than `N` apart lie in different slots. -/
theorem slot_ne (head : BitVec 32) {i j : Nat} (hi : i < N) (hj : j < N) (hij : i ≠ j) :
    (slot head (BitVec.ofNat 32 i) : Fin N) ≠ slot head (BitVec.ofNat 32 j) := by
  intro h
  have hmod : head.toNat + i ≡ head.toNat + j [MOD N] := by
    unfold Nat.ModEq
    rw [← slot_val hN, ← slot_val hN, h]
  exact hij ((Nat.ModEq.add_left_cancel' _ hmod).eq_of_lt_of_lt hi hj)

end Slots

/-- Item `i + 1` after the head has moved down is item `i` before. -/
theorem slot_sub_one_succ (head : BitVec 32) (i : Nat) :
    (slot (head - 1) (BitVec.ofNat 32 (i + 1)) : Fin N) = slot head (BitVec.ofNat 32 i) := by
  have hsum : head - 1 + BitVec.ofNat 32 (i + 1) = head + BitVec.ofNat 32 i := by
    rw [BitVec.ofNat_add, show BitVec.ofNat 32 1 = (1 : BitVec 32) from rfl]
    abel
  apply Fin.ext
  show (head - 1 + BitVec.ofNat 32 (i + 1)).toNat % N = (head + BitVec.ofNat 32 i).toNat % N
  rw [hsum]

/-! ## The items -/

theorem toList_popBack : b.popBack.toList = b.toList.dropLast := by
  unfold popBack toList
  split
  · next hpos =>
      obtain ⟨n, hn⟩ : ∃ n, b.count = n + 1 := ⟨b.count - 1, by omega⟩
      simp only [hn, Nat.add_sub_cancel, List.range_succ, List.map_append, List.map_singleton,
        List.dropLast_concat]
      rfl
  · next hzero =>
      have h0 : b.count = 0 := by omega
      simp [h0]

/-- The back item is the last of the list. -/
theorem back_eq_getLast (hpos : 0 < b.count) :
    b.back = b.toList.getLast (by simp [← List.length_pos_iff, size]; exact hpos) := by
  obtain ⟨n, hn⟩ : ∃ n, b.count = n + 1 := ⟨b.count - 1, by omega⟩
  have hidx : BitVec.ofNat 32 b.count - 1 = BitVec.ofNat 32 n := by
    rw [hn, BitVec.ofNat_add, show BitVec.ofNat 32 1 = (1 : BitVec 32) from rfl]
    abel
  simp only [back, hidx, toList, List.getLast_map]
  congr
  simp [hn]

/-- **A push at the front.** The item goes in front of the others, and a full backlog loses
its back item. -/
theorem toList_pushFront (hN : N ∣ 2 ^ 32) (item : T) :
    (b.pushFront item).toList =
      item :: if b.count = N then b.toList.dropLast else b.toList := by
  have hkept : ∀ i, i < (if b.count = N then b.count - 1 else b.count) →
      (b.pushFront item).get (BitVec.ofNat 32 (i + 1)) = b.get (BitVec.ofNat 32 i) := by
    intro i hi
    have hlt : i + 1 < N := by have := b.count_le; split at hi <;> omega
    -- item `i + 1` is not in the slot just written
    have hne : (slot (b.head - 1) (BitVec.ofNat 32 (i + 1)) : Fin N) ≠ slot (b.head - 1) 0 :=
      slot_ne hN (b.head - 1) hlt (Nat.pos_of_neZero N) (Nat.succ_ne_zero i)
    show Function.update b.data (slot (b.head - 1) 0) item
        (slot (b.head - 1) (BitVec.ofNat 32 (i + 1))) = b.data (slot b.head (BitVec.ofNat 32 i))
    rw [Function.update_of_ne hne, slot_sub_one_succ]
  have hfront : (b.pushFront item).get (BitVec.ofNat 32 0) = item := by
    simp [get, pushFront]
  have hrest : (List.range (if b.count = N then b.count - 1 else b.count)).map
      (fun i => b.get (BitVec.ofNat 32 i)) =
      if b.count = N then b.toList.dropLast else b.toList := by
    split
    · rw [← toList_popBack]
      unfold popBack
      rw [if_pos (by have := Nat.pos_of_neZero N; omega)]
      rfl
    · rfl
  calc (b.pushFront item).toList
      = item :: (List.range (if b.count = N then b.count - 1 else b.count)).map
          (fun i => (b.pushFront item).get (BitVec.ofNat 32 (i + 1))) := by
        rw [toList, show (b.pushFront item).count =
            (if b.count = N then b.count - 1 else b.count) + 1 from rfl,
          List.range_succ_eq_map, List.map_cons, hfront, List.map_map]
        rfl
    _ = item :: (List.range (if b.count = N then b.count - 1 else b.count)).map
          (fun i => b.get (BitVec.ofNat 32 i)) := by
        congr 1
        exact List.map_congr_left fun i hi => hkept i (List.mem_range.mp hi)
    _ = item :: if b.count = N then b.toList.dropLast else b.toList := by rw [hrest]

end RandomAccessBacklog

end MediaBridge.Memory
