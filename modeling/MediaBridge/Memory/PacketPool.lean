import MediaBridge.Memory.RingAllocator
import Mathlib.Data.BitVec
import Mathlib.Logic.Function.Basic

set_option autoImplicit false

/-! # Packets and their pool: `memory::Packet`, `PoolAllocator`, `makeUniquePacket`

A `memory::Packet` is a `FixedPacket<1504>`: up to 1504 bytes. Packets are kept in entries of a
`PoolAllocator`, whose free entries sit on `QCOUNT` stacks. The constructor rounds the space for
the entries up to whole pages and pushes entry `i` on stack `i % QCOUNT`. `allocate` pops from
stack `_popIndex % QCOUNT` and `free` pushes on stack `_pushIndex % QCOUNT`, each index moving
on by one at every call, also when the stack it names is empty. An allocation therefore fails
when its own stack is empty, even if the others are not.

The model counts the entries on each stack; which entry a stack gives is not modelled. After
`pops` allocations and `pushes` frees, every stack holds the entries the constructor put on it,
less those it gave and plus those it took back (`Balanced`). Those are counts of indices in
residue classes, so an allocation succeeds while fewer entries are out than the pool holds,
rounded down to whole rounds of the stacks (`Balanced.allocate`).
-/

namespace MediaBridge.Memory

/-- `memory::Packet`: its bytes, never more than `Packet::size`. -/
structure Packet where
  data : List (BitVec 8)
  length_le : data.length ≤ 1504
  deriving DecidableEq

/-- `Packet::size`. -/
def Packet.size : Nat := 1504

/-- `PoolAllocator::QCOUNT`. -/
def QCOUNT : Nat := 8

/-- A `PoolAllocator`: the number of free entries on each of its stacks, `_popIndex`,
`_pushIndex` and `_originalElementCount`. -/
structure PoolAllocator where
  freeQueue : Fin QCOUNT → Nat
  popIndex : BitVec 32
  pushIndex : BitVec 32
  originalElementCount : Nat

namespace PoolAllocator

/-- The stack `index % QCOUNT`. -/
def stack (index : BitVec 32) : Fin QCOUNT := ⟨index.toNat % QCOUNT, Nat.mod_lt _ (by decide)⟩

/-- How many of the entries below `n` go on stack `j`, entry `i` going on stack `i % QCOUNT`. -/
def onStack (n : Nat) (j : Fin QCOUNT) : Nat :=
  ((List.range n).filter fun i => i % QCOUNT = j.val).length

/-- `PoolAllocator(elementCount, name)` with pages of `pageSize` bytes and entries of
`entrySize` bytes: as many entries as fit in the space rounded up to whole pages, pushed on the
stacks in turn. -/
def create (pageSize entrySize elementCount : Nat) : PoolAllocator :=
  let originalElementCount := alignedSpace pageSize (elementCount * entrySize) / entrySize
  ⟨onStack originalElementCount, 0, 0, originalElementCount⟩

variable (a : PoolAllocator)

/-- `allocate()`: whether an entry was given. `_popIndex` moves on in any case. -/
def allocate : Bool × PoolAllocator :=
  let j := stack a.popIndex
  if a.freeQueue j = 0 then (false, { a with popIndex := a.popIndex + 1 })
  else
    (true, { a with
      popIndex := a.popIndex + 1
      freeQueue := Function.update a.freeQueue j (a.freeQueue j - 1) })

/-- `free(pointer)`. -/
def free : PoolAllocator :=
  let j := stack a.pushIndex
  { a with
    pushIndex := a.pushIndex + 1
    freeQueue := Function.update a.freeQueue j (a.freeQueue j + 1) }

@[simp] theorem originalElementCount_free : a.free.originalElementCount = a.originalElementCount :=
  rfl

@[simp] theorem originalElementCount_allocate :
    a.allocate.2.originalElementCount = a.originalElementCount := by
  unfold PoolAllocator.allocate
  dsimp only
  split <;> rfl

/-- The pool holds at least the entries asked for. -/
theorem le_originalElementCount_create {pageSize entrySize : Nat} (hpage : 0 < pageSize)
    (hentry : 0 < entrySize) (elementCount : Nat) :
    elementCount ≤ (create pageSize entrySize elementCount).originalElementCount := by
  show elementCount ≤ alignedSpace pageSize (elementCount * entrySize) / entrySize
  rw [Nat.le_div_iff_mul_le hentry]
  exact le_alignedSpace hpage _

/-! ## Counting the entries on a stack -/

theorem onStack_succ (n : Nat) (j : Fin QCOUNT) :
    onStack (n + 1) j = onStack n j + if n % QCOUNT = j.val then 1 else 0 := by
  unfold onStack
  rw [List.range_succ, List.filter_append, List.length_append]
  by_cases h : n % QCOUNT = j.val <;> simp [h]

/-- Entry `i` below `n` goes on stack `j` for every `i ≡ j` modulo `QCOUNT`. -/
theorem onStack_eq (n : Nat) (j : Fin QCOUNT) : onStack n j = (n + 7 - j.val) / 8 := by
  have hj : j.val < 8 := j.isLt
  induction n with
  | zero => simp [onStack]; omega
  | succ n ih =>
      rw [onStack_succ, ih]
      unfold QCOUNT
      split <;> omega

theorem stack_ofNat (n : Nat) : stack (BitVec.ofNat 32 n) = ⟨n % QCOUNT, Nat.mod_lt _ (by decide)⟩ := by
  apply Fin.ext
  show (BitVec.ofNat 32 n).toNat % QCOUNT = n % QCOUNT
  rw [BitVec.toNat_ofNat]
  exact Nat.mod_mod_of_dvd n (by decide)

/-! ## Allocations and frees in balance -/

/-- The allocator after `pops` allocations, all successful, and `pushes` frees. -/
structure Balanced (pops pushes : Nat) : Prop where
  popIndex_eq : a.popIndex = BitVec.ofNat 32 pops
  pushIndex_eq : a.pushIndex = BitVec.ofNat 32 pushes
  freeQueue_eq : ∀ j, a.freeQueue j + onStack pops j = onStack a.originalElementCount j + onStack pushes j

theorem balanced_create (pageSize entrySize elementCount : Nat) :
    (create pageSize entrySize elementCount).Balanced 0 0 where
  popIndex_eq := rfl
  pushIndex_eq := rfl
  freeQueue_eq j := by simp [create, onStack]

variable {a} {pops pushes : Nat}

/-- **A free** puts the entry back on the next stack. -/
theorem Balanced.free (h : a.Balanced pops pushes) : a.free.Balanced pops (pushes + 1) where
  popIndex_eq := h.popIndex_eq
  pushIndex_eq := by
    show a.pushIndex + 1 = _
    rw [h.pushIndex_eq, BitVec.ofNat_add]
    rfl
  freeQueue_eq j := by
    have hj := h.freeQueue_eq j
    show Function.update a.freeQueue (stack a.pushIndex) (a.freeQueue (stack a.pushIndex) + 1) j +
      onStack pops j = onStack a.originalElementCount j + onStack (pushes + 1) j
    rw [onStack_succ, h.pushIndex_eq, stack_ofNat]
    by_cases hs : j = ⟨pushes % QCOUNT, Nat.mod_lt _ (by decide)⟩
    · subst hs
      rw [Function.update_self, if_pos rfl]
      omega
    · rw [Function.update_of_ne hs, if_neg (fun h' => hs (Fin.ext h'.symm))]
      omega

/-- **An allocation succeeds** while the entries out, counted in whole rounds of the stacks,
are fewer than the pool's entries counted so. -/
theorem Balanced.allocate (h : a.Balanced pops pushes) (hle : pushes ≤ pops)
    (hroom : (pops - pushes) / QCOUNT < a.originalElementCount / QCOUNT) :
    a.allocate.1 = true ∧ a.allocate.2.Balanced (pops + 1) pushes := by
  set j : Fin QCOUNT := ⟨pops % QCOUNT, Nat.mod_lt _ (by decide)⟩ with hj_def
  have hstack : stack a.popIndex = j := by rw [h.popIndex_eq, stack_ofNat]
  -- the entries out on stack `j` are those of the last `(pops - pushes) / QCOUNT` rounds
  have hfree : a.freeQueue j ≠ 0 := by
    have heq := h.freeQueue_eq j
    rw [onStack_eq, onStack_eq, onStack_eq] at heq
    unfold QCOUNT at hroom hj_def
    have hjv : j.val = pops % 8 := rfl
    omega
  unfold PoolAllocator.allocate
  rw [hstack, if_neg hfree]
  refine ⟨rfl, ?_, h.pushIndex_eq, ?_⟩
  · show a.popIndex + 1 = _
    rw [h.popIndex_eq, BitVec.ofNat_add]
    rfl
  · intro k
    have hk := h.freeQueue_eq k
    show Function.update a.freeQueue j (a.freeQueue j - 1) k + onStack (pops + 1) k =
      onStack a.originalElementCount k + onStack pushes k
    rw [onStack_succ]
    by_cases hs : k = j
    · subst hs
      rw [Function.update_self, if_pos rfl]
      omega
    · rw [Function.update_of_ne hs, if_neg (fun h' => hs (Fin.ext h'.symm))]
      omega

end PoolAllocator

/-- `makeUniquePacket(allocator, packet)`: a copy of the packet's bytes in an entry of the pool,
`none` (an empty `UniquePacket`) when the pool gives no entry. -/
def makeUniquePacket (allocator : PoolAllocator) (packet : Packet) :
    Option (List (BitVec 8)) × PoolAllocator :=
  if packet.data.length > Packet.size then (none, allocator)
  else
    match allocator.allocate with
    | (true, allocator) => (some packet.data, allocator)
    | (false, allocator) => (none, allocator)

/-- A packet always fits an entry: the copy is made whenever the pool gives one. -/
theorem makeUniquePacket_of_allocate {allocator : PoolAllocator} (packet : Packet)
    (h : allocator.allocate.1 = true) :
    makeUniquePacket allocator packet = (some packet.data, allocator.allocate.2) := by
  unfold makeUniquePacket
  rw [if_neg (show ¬ packet.data.length > Packet.size from Nat.not_lt.mpr packet.length_le)]
  generalize allocator.allocate = r at h ⊢
  obtain ⟨ok, allocator'⟩ := r
  dsimp only at h
  subst h
  rfl

end MediaBridge.Memory
