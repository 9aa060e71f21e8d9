import Mathlib.Data.List.Basic
import Mathlib.Tactic.Ring

set_option autoImplicit false

/-! # `memory::RingAllocator`: blocks in a circular area

The allocator hands out blocks one after another from the tail of a fixed area of `_size`
bytes, a page-aligned size. Each block starts with an eight-byte header (a guard word and the
block's size) and its data is rounded up to whole eight-byte words. A block that does not fit
before the end of the area is placed at its start, after a free block that pads out the end.
Blocks may be freed in any order, but their space comes back only when the block at the head is
free: `free` moves `_head` over the free blocks at the front.

`_head` and `_tail` are offsets that only grow, reduced modulo `_size` when `_head` passes it.
The model keeps the headers between them as a list of block sizes with their guards, in the
order they lie from `_head`; a block's data pointer is its offset in the area plus the header.

`capacity()` counts only the bytes between the tail and the head, not the header of the next
block nor its rounding: `alloc_eq_none_of_capacity_lt` and `alloc_eq_some` say when an
allocation is refused and where it is placed.
-/

namespace MediaBridge.Memory

/-- `alignSize(size, pageSize)` of `RingAllocator.cpp`: `size` rounded up to a multiple. -/
def alignSize (size pageSize : Nat) : Nat :=
  let remaining := size % pageSize
  size + (if remaining > 0 then pageSize - remaining else 0)

/-- `memory::page::alignedSpace(space)` for a page size that is a power of two:
`(space + pageSize - 1) & ~(pageSize - 1)`, the space rounded up to whole pages. -/
def alignedSpace (pageSize space : Nat) : Nat :=
  (space + pageSize - 1) - (space + pageSize - 1) % pageSize

/-- Whole pages hold at least the space asked for. -/
theorem le_alignedSpace {pageSize : Nat} (hpage : 0 < pageSize) (space : Nat) :
    space ≤ alignedSpace pageSize space := by
  have hr : (space + pageSize - 1) % pageSize < pageSize := Nat.mod_lt _ hpage
  unfold alignedSpace
  generalize (space + pageSize - 1) % pageSize = r at hr ⊢
  omega

/-- `sizeof(Block)`: the guard word and the size word. -/
def blockHeaderSize : Nat := 8

/-- `memory::RingAllocator`: `_size`, `_head`, `_tail`, and the blocks from `_head` to `_tail`,
each its size and whether its guard is `ALLOCATED`. -/
structure RingAllocator where
  size : Nat
  head : Nat
  tail : Nat
  blocks : List (Nat × Bool)
  deriving DecidableEq, Repr

namespace RingAllocator

/-- `RingAllocator(maxSize)`, with the system's page size. -/
def create (pageSize maxSize : Nat) : RingAllocator := ⟨alignedSpace pageSize maxSize, 0, 0, []⟩

variable (a : RingAllocator)

/-- `capacity()`: the bytes between the tail and the head. -/
def capacity : Nat := a.size - (a.tail - a.head)

/-- An allocated block of `blockSize` bytes at the tail, and its data pointer. -/
def placeAtTail (blockSize : Nat) : Nat × RingAllocator :=
  (a.tail % a.size + blockHeaderSize,
    { a with tail := a.tail + blockSize, blocks := a.blocks ++ [(blockSize, true)] })

/-- `alloc(size)`: the data pointer of a new block of `size` bytes, `none` (`nullptr`) when
there is no room. -/
def alloc (size : Nat) : Option (Nat × RingAllocator) :=
  let blockSize := blockHeaderSize + alignSize size 8
  if blockSize > a.capacity then none
  else
    let tailSize := a.size - a.tail % a.size
    if tailSize < blockSize then
      if a.tail + tailSize + blockSize - a.head > a.size then none
      else
        -- a free block pads out the end of the area, and the block starts at its beginning
        let a := { a with tail := a.tail + tailSize, blocks := a.blocks ++ [(tailSize, false)] }
        some (a.placeAtTail blockSize)
    else some (a.placeAtTail blockSize)

/-- The blocks with the one whose data pointer is `data` marked free; `start` is the offset of
the first. -/
def markFree (data : Nat) : Nat → List (Nat × Bool) → List (Nat × Bool)
  | _, [] => []
  | start, (blockSize, allocated) :: rest =>
      if start % a.size + blockHeaderSize = data then (blockSize, false) :: rest
      else (blockSize, allocated) :: markFree data (start + blockSize) rest

/-- The loop of `free` that moves `_head` over the free blocks at the front. -/
def releaseLoop : Nat → List (Nat × Bool) → Nat × List (Nat × Bool)
  | head, (blockSize, false) :: rest => releaseLoop (head + blockSize) rest
  | head, blocks => (head, blocks)

/-- `free(data)`. -/
def free (data : Nat) : RingAllocator :=
  let released := releaseLoop (a.head) (a.markFree data a.head a.blocks)
  let a := { a with head := released.1, blocks := released.2 }
  if a.head > a.size then { a with head := a.head % a.size, tail := a.tail % a.size } else a

/-! ## What `alloc` does -/

/-- A block larger than the capacity is refused. -/
theorem alloc_eq_none_of_capacity_lt {size : Nat}
    (h : a.capacity < blockHeaderSize + alignSize size 8) : a.alloc size = none := by
  unfold alloc
  rw [if_pos h]

/-- A block that fits in the capacity and before the end of the area is placed at the tail. -/
theorem alloc_eq_some {size : Nat} (hcap : blockHeaderSize + alignSize size 8 ≤ a.capacity)
    (hend : blockHeaderSize + alignSize size 8 ≤ a.size - a.tail % a.size) :
    a.alloc size = some (a.placeAtTail (blockHeaderSize + alignSize size 8)) := by
  unfold alloc
  rw [if_neg (Nat.not_lt.mpr hcap)]
  dsimp only
  rw [if_neg (Nat.not_lt.mpr hend)]

/-- A block at the tail takes its size off the capacity. -/
theorem capacity_placeAtTail {blockSize : Nat} (hle : a.head ≤ a.tail) :
    (a.placeAtTail blockSize).2.capacity = a.capacity - blockSize := by
  simp only [placeAtTail, capacity]
  omega

theorem tail_placeAtTail (blockSize : Nat) :
    (a.placeAtTail blockSize).2.tail = a.tail + blockSize := rfl

theorem head_placeAtTail (blockSize : Nat) : (a.placeAtTail blockSize).2.head = a.head := rfl

theorem size_placeAtTail (blockSize : Nat) : (a.placeAtTail blockSize).2.size = a.size := rfl

/-- Eight-byte rounding of a size. -/
theorem alignSize_eight (size : Nat) : alignSize size 8 = (size + 7) / 8 * 8 := by
  unfold alignSize
  dsimp only
  split <;> omega

end RingAllocator

end MediaBridge.Memory
