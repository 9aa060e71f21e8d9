import MediaBridge.Lib.BoundedFifo
import MediaBridge.Lib.Run
import Mathlib.Algebra.GroupWithZero.Nat
import Mathlib.Tactic.Ring

set_option autoImplicit false

/-! # `concurrency::MpmcQueue` run by one thread

`MpmcQueue<T>` keeps `_capacity` cells, each with a version and a state (`emptySlot`,
`committed`, or `nullSlot` for the one cell of a queue of capacity zero), and two cursors, each
a lap count (`version`) and a position. A push writes the cell under the write cursor when it is
empty at the cursor's version and commits it at that version; a pop takes the cell under the
read cursor when it is committed at the cursor's version and leaves it empty at the next
version, the one the write cursor has when it comes round again. Positions map to cells
through `indexTransform`, which spreads consecutive positions over the cache lines:
`_capacity` is rounded up to a multiple of `kEntryPerCacheLine`, the number of entries in
64 bytes.

The model follows one thread through the calls: every compare-exchange succeeds the first time
it is tried, so the retry loops of `push` and `pop` run once. `sizeof(Entry)` is the parameter
`entrySize`. Positions stay below `_capacity`, so the `uint32_t` arithmetic on them never wraps
except in `size()`, where the model keeps the wrap; versions are `BitVec 32`.

`Holds q xs` is what every run keeps: the queue holds `xs`, and the cell `i` steps after the
read cursor is committed with `xs[i]` at that step's version for `i < xs.length`, and empty at
that version for the others. `indexTransform` is a bijection of the positions onto the cells
(`interleave_injective`), which is what lets a write to one cell leave every other step alone.
Under it every call is a call of a FIFO queue of capacity `_capacity` with the same reply
(`runs_as_bounded_fifo`).
-/

namespace MediaBridge.Concurrency

namespace MpmcQueue

/-- `CellState::State`. -/
inductive CellState.State
  | emptySlot
  | committed
  | nullSlot
deriving DecidableEq, Repr

/-- `CellState`: the lap a cell was last written or emptied for, and its state. -/
structure CellState where
  version : BitVec 32
  state : CellState.State
deriving DecidableEq, Repr

/-- `Entry`: the state of a cell and the `T` constructed in its `data`, if there is one. -/
structure Entry (T : Type) where
  state : CellState
  value : Option T
deriving DecidableEq

/-- `VersionedIndex`: a lap count and a position. -/
structure VersionedIndex where
  version : BitVec 32
  pos : Nat
deriving DecidableEq, Repr

end MpmcQueue

/-- `MpmcQueue<T>`: the two cursors, `_capacity`, `_elementsCount` and the cells. -/
structure MpmcQueue (T : Type) where
  readCursor : MpmcQueue.VersionedIndex
  writeCursor : MpmcQueue.VersionedIndex
  capacity : Nat
  elementsCount : Nat
  elements : List (MpmcQueue.Entry T)

namespace MpmcQueue

variable {T : Type} (entrySize : Nat)

/-- `kEntryPerCacheLine = (63 + sizeof(Entry)) / sizeof(Entry)`. -/
def kEntryPerCacheLine : Nat := (63 + entrySize) / entrySize

/-- The cell `_nullEntry` of a queue of capacity zero: never readable, never writable. -/
def nullEntry : Entry T := ⟨⟨0, .nullSlot⟩, none⟩

/-- A cell as `Entry()` builds it. -/
def emptyEntry : Entry T := ⟨⟨0, .emptySlot⟩, none⟩

/-- `MpmcQueue(capacity)`: the capacity rounded up to whole cache lines, kept in a `uint32_t`;
a queue of capacity zero has the one cell `_nullEntry`. -/
def create (T : Type) (capacity : Nat) : MpmcQueue T :=
  let k := kEntryPerCacheLine entrySize
  let cap := if capacity = 0 then 0 else k * ((capacity + k - 1) / k) % 2 ^ 32
  { readCursor := ⟨0, 0⟩
    writeCursor := ⟨0, 0⟩
    capacity := cap
    elementsCount := if capacity = 0 then 1 else cap
    elements := if capacity = 0 then [nullEntry] else List.replicate cap emptyEntry }

section Create

variable (T) (capacity : Nat)

@[simp] theorem readCursor_create : (create entrySize T capacity).readCursor = ⟨0, 0⟩ := rfl

@[simp] theorem writeCursor_create : (create entrySize T capacity).writeCursor = ⟨0, 0⟩ := rfl

theorem capacity_create : (create entrySize T capacity).capacity =
    if capacity = 0 then 0
    else kEntryPerCacheLine entrySize *
      ((capacity + kEntryPerCacheLine entrySize - 1) / kEntryPerCacheLine entrySize) % 2 ^ 32 :=
  rfl

theorem elementsCount_create : (create entrySize T capacity).elementsCount =
    if capacity = 0 then 1 else (create entrySize T capacity).capacity := by
  rw [capacity_create]; rfl

theorem elements_create : (create entrySize T capacity).elements =
    if capacity = 0 then [nullEntry] else List.replicate (create entrySize T capacity).capacity emptyEntry := by
  rw [capacity_create]; rfl

end Create

/-- `indexTransform(v)`: the cell of a position. -/
def indexTransform (q : MpmcQueue T) (v : VersionedIndex) : Nat :=
  if kEntryPerCacheLine entrySize = 1 then v.pos % q.elementsCount
  else
    let p := v.pos * kEntryPerCacheLine entrySize
    (p / q.elementsCount + p) % q.elementsCount

/-- `nextPosition(index)`: the next position, and the next lap after the last one. -/
def nextPosition (q : MpmcQueue T) (index : VersionedIndex) : VersionedIndex :=
  if index.pos + 1 < q.capacity then { index with pos := index.pos + 1 }
  else ⟨index.version + 1, 0⟩

/-- The cell of `index` is in `state` at the version of `index`: `isWritable` and
`isReadable` differ only in the state they ask for. -/
def cellIs (q : MpmcQueue T) (state : CellState.State) (index : VersionedIndex) : Bool :=
  match q.elements[q.indexTransform entrySize index]? with
  | some e => e.state.state == state && e.state.version == index.version
  | none => false

/-- `isWritable(index)`. -/
def isWritable (q : MpmcQueue T) (index : VersionedIndex) : Bool :=
  q.cellIs entrySize .emptySlot index

/-- `isReadable(index)`. -/
def isReadable (q : MpmcQueue T) (index : VersionedIndex) : Bool :=
  q.cellIs entrySize .committed index

/-- `push(obj)`: the compare-exchange of the write cursor succeeds at once, then the cell is
built and committed at the cursor's version. -/
def push (q : MpmcQueue T) (obj : T) : MpmcQueue T × Bool :=
  let pos := q.writeCursor
  if q.isWritable entrySize pos then
    ({ q with
        writeCursor := q.nextPosition pos
        elements := q.elements.set (q.indexTransform entrySize pos)
          ⟨⟨pos.version, .committed⟩, some obj⟩ }, true)
  else (q, false)

/-- `pop(target)`: the value moved to `target`, or `none` where `pop` returns `false`; the cell
is left empty for the next lap. -/
def pop (q : MpmcQueue T) : MpmcQueue T × Option T :=
  let pos := q.readCursor
  if q.isReadable entrySize pos then
    let i := q.indexTransform entrySize pos
    ({ q with
        readCursor := q.nextPosition pos
        elements := q.elements.set i ⟨⟨pos.version + 1, .emptySlot⟩, none⟩ },
      q.elements[i]?.bind (·.value))
  else (q, none)

/-- `size()`, with the `uint32_t` sum `_capacity + writePos.pos - readPos.pos`. -/
def size (q : MpmcQueue T) : Nat :=
  let writePos := q.writeCursor
  let readPos := q.readCursor
  if writePos = readPos then 0
  else if writePos.pos = readPos.pos then q.capacity
  else max 1 ((q.capacity + writePos.pos - readPos.pos) % 2 ^ 32 % q.capacity)

/-- `full()`. -/
def full (q : MpmcQueue T) : Bool := !q.isWritable entrySize q.writeCursor

/-- `empty()`. -/
def empty (q : MpmcQueue T) : Bool := !q.isReadable entrySize q.readCursor

/-- `while (pop(elem));`, cut after `fuel` pops. -/
def popAll : Nat → MpmcQueue T → MpmcQueue T
  | 0, q => q
  | fuel + 1, q =>
      match q.pop entrySize with
      | (q', some _) => popAll fuel q'
      | (q', none) => q'

/-- `clear()`: pops until a pop fails. A queue never holds more than `_capacity` values, so
`_capacity + 1` pops are enough (`Holds.clear_holds`). -/
def clear (q : MpmcQueue T) : MpmcQueue T :=
  if !q.empty entrySize then popAll entrySize (q.capacity + 1) q else q

/-- One call on the queue, answered as the calls of `BoundedFifo` are. -/
def step (q : MpmcQueue T) : BoundedFifo.Call T → MpmcQueue T × BoundedFifo.Reply T
  | .push x => ((q.push entrySize x).1, .pushed (q.push entrySize x).2)
  | .pop => ((q.pop entrySize).1, .popped (q.pop entrySize).2)
  | .size => (q, .size q.size)
  | .full => (q, .full (q.full entrySize))
  | .empty => (q, .empty (q.empty entrySize))
  | .clear => (q.clear entrySize, .cleared)
  | .capacity => (q, .capacity q.capacity)

/-! ## The cells of the positions

With `_capacity = k * m`, `indexTransform` sends the position `a * m + b` (`b < m`) to the cell
`a + b * k`: it reads the positions as a `k × m` grid by rows and writes them by columns. -/

/-- The cell `indexTransform` gives the position `pos` of a queue of `k * m` cells. -/
def interleave (k m pos : Nat) : Nat := pos / m + pos % m * k

section Interleave

variable {k m : Nat}

theorem interleave_lt {pos : Nat} (h : pos < k * m) : interleave k m pos < k * m := by
  have hm : 0 < m := Nat.pos_of_ne_zero (by rintro rfl; simp at h)
  have ha : pos / m < k := Nat.div_lt_of_lt_mul (by rwa [Nat.mul_comm] at h)
  have hb : (pos % m + 1) * k ≤ m * k := Nat.mul_le_mul_right k (Nat.mod_lt pos hm)
  calc interleave k m pos < k + pos % m * k := by unfold interleave; omega
    _ = (pos % m + 1) * k := by ring
    _ ≤ m * k := hb
    _ = k * m := Nat.mul_comm m k

theorem interleave_mod {pos : Nat} (h : pos < k * m) :
    interleave k m pos % k = pos / m := by
  have ha : pos / m < k := Nat.div_lt_of_lt_mul (by rwa [Nat.mul_comm] at h)
  rw [interleave, Nat.add_mul_mod_self_right, Nat.mod_eq_of_lt ha]

theorem interleave_div (hk : 0 < k) {pos : Nat} (h : pos < k * m) :
    interleave k m pos / k = pos % m := by
  have ha : pos / m < k := Nat.div_lt_of_lt_mul (by rwa [Nat.mul_comm] at h)
  rw [interleave, Nat.add_mul_div_right _ _ hk, Nat.div_eq_of_lt ha, Nat.zero_add]

/-- Distinct positions have distinct cells. -/
theorem interleave_injective (hk : 0 < k) {p p' : Nat} (hp : p < k * m) (hp' : p' < k * m)
    (h : interleave k m p = interleave k m p') : p = p' := by
  have hdiv : p / m = p' / m := by
    rw [← interleave_mod hp, ← interleave_mod hp', h]
  have hmod : p % m = p' % m := by
    rw [← interleave_div hk hp, ← interleave_div hk hp', h]
  rw [← Nat.div_add_mod p m, ← Nat.div_add_mod p' m, hdiv, hmod]

/-- The arithmetic of `indexTransform`: `(p / (k * m) + p) % (k * m)` for `p = pos * k`. -/
theorem transform_eq_interleave (hk : 0 < k) {pos : Nat} (h : pos < k * m) :
    (pos * k / (k * m) + pos * k) % (k * m) = interleave k m pos := by
  have hm : 0 < m := Nat.pos_of_ne_zero (by rintro rfl; simp at h)
  have hsplit : pos * k = pos % m * k + pos / m * (k * m) := by
    calc pos * k = (m * (pos / m) + pos % m) * k := by rw [Nat.div_add_mod]
      _ = pos % m * k + pos / m * (k * m) := by ring
  have hlow : pos % m * k < k * m := by
    rw [Nat.mul_comm k m]
    exact Nat.mul_lt_mul_of_pos_right (Nat.mod_lt pos hm) hk
  rw [hsplit, Nat.add_mul_div_right _ _ (Nat.mul_pos hk hm), Nat.div_eq_of_lt hlow, Nat.zero_add,
    ← Nat.add_assoc, Nat.add_mul_mod_self_right]
  exact Nat.mod_eq_of_lt (interleave_lt h)

end Interleave

section IndexTransform

variable {entrySize}

/-- In a queue of `k * m` cells, `indexTransform` is `interleave`, in both of its branches. -/
theorem indexTransform_eq {q : MpmcQueue T} (hk : 0 < kEntryPerCacheLine entrySize)
    (hcount : q.elementsCount = q.capacity) {m : Nat}
    (hm : q.capacity = kEntryPerCacheLine entrySize * m) {v : VersionedIndex}
    (hpos : v.pos < q.capacity) :
    q.indexTransform entrySize v = interleave (kEntryPerCacheLine entrySize) m v.pos := by
  rw [hm] at hpos
  unfold indexTransform
  rw [hcount, hm]
  split
  · -- one entry per cache line: the cell is the position
    rename_i h1
    rw [h1, Nat.one_mul] at hpos ⊢
    rw [Nat.mod_eq_of_lt hpos, interleave, Nat.div_eq_of_lt hpos, Nat.mul_one, Nat.zero_add,
      Nat.mod_eq_of_lt hpos]
  · exact transform_eq_interleave hk hpos

theorem indexTransform_lt {q : MpmcQueue T} (hk : 0 < kEntryPerCacheLine entrySize)
    (hcount : q.elementsCount = q.capacity) (hdvd : kEntryPerCacheLine entrySize ∣ q.capacity)
    {v : VersionedIndex} (hpos : v.pos < q.capacity) :
    q.indexTransform entrySize v < q.capacity := by
  obtain ⟨m, hm⟩ := hdvd
  rw [indexTransform_eq hk hcount hm hpos, hm]
  exact interleave_lt (hm ▸ hpos)

/-- A queue with one cell sends every position to it. -/
theorem indexTransform_of_count_one {q : MpmcQueue T} (hcount : q.elementsCount = 1)
    (v : VersionedIndex) : q.indexTransform entrySize v = 0 := by
  unfold indexTransform
  rw [hcount]
  split <;> exact Nat.mod_one _

/-- `indexTransform` reads the position only. -/
theorem indexTransform_of_pos_eq (q : MpmcQueue T) {v v' : VersionedIndex} (h : v.pos = v'.pos) :
    q.indexTransform entrySize v = q.indexTransform entrySize v' := by
  unfold indexTransform
  rw [h]

/-- `indexTransform` reads `_elementsCount` only, which no call changes. -/
@[simp] theorem indexTransform_mk (q : MpmcQueue T) (r w : VersionedIndex) (c : Nat)
    (els : List (Entry T)) (v : VersionedIndex) :
    indexTransform entrySize ⟨r, w, c, q.elementsCount, els⟩ v = q.indexTransform entrySize v :=
  rfl

end IndexTransform

/-! ## The cursors, step by step -/

/-- The cursor `i` steps after `index` in a ring of `cap` positions. -/
def VersionedIndex.advance (cap : Nat) (index : VersionedIndex) (i : Nat) : VersionedIndex :=
  ⟨index.version + BitVec.ofNat 32 ((index.pos + i) / cap), (index.pos + i) % cap⟩

section Advance

variable {cap : Nat} {index : VersionedIndex}

theorem VersionedIndex.advance_zero (h : index.pos < cap) : index.advance cap 0 = index := by
  simp [VersionedIndex.advance, Nat.div_eq_of_lt h, Nat.mod_eq_of_lt h]

theorem VersionedIndex.advance_advance (index : VersionedIndex) (a b : Nat) :
    (index.advance cap a).advance cap b = index.advance cap (a + b) := by
  have hdiv : (index.pos + a + b) / cap = (index.pos + a) / cap + ((index.pos + a) % cap + b) / cap := by
    conv_lhs => rw [← Nat.div_add_mod (index.pos + a) cap]
    rcases Nat.eq_zero_or_pos cap with rfl | hc
    · simp
    · rw [Nat.add_assoc, Nat.mul_add_div hc]
  simp only [VersionedIndex.advance, VersionedIndex.mk.injEq]
  constructor
  · rw [BitVec.add_assoc, BitVec.ofNat_add_ofNat, ← hdiv, Nat.add_assoc]
  · rw [Nat.mod_add_mod, Nat.add_assoc]

theorem VersionedIndex.pos_advance_lt (hc : 0 < cap) (index : VersionedIndex) (i : Nat) :
    (index.advance cap i).pos < cap :=
  Nat.mod_lt _ hc

/-- A whole lap comes back to the same position, one version on. -/
theorem VersionedIndex.advance_cap (h : index.pos < cap) :
    index.advance cap cap = ⟨index.version + 1, index.pos⟩ := by
  have hc : 0 < cap := by omega
  simp only [VersionedIndex.advance, Nat.add_div_right _ hc, Nat.add_mod_right,
    Nat.div_eq_of_lt h, Nat.mod_eq_of_lt h, Nat.zero_add]
  rfl

/-- Within one lap a step wraps at most once. -/
theorem VersionedIndex.pos_advance (h : index.pos < cap) {i : Nat} (hi : i ≤ cap) :
    (index.advance cap i).pos = if index.pos + i < cap then index.pos + i else index.pos + i - cap := by
  show (index.pos + i) % cap = _
  split
  · exact Nat.mod_eq_of_lt ‹_›
  · rw [Nat.mod_eq_sub_mod (by omega), Nat.mod_eq_of_lt (by omega)]

/-- Within one lap, distinct steps are at distinct positions. -/
theorem VersionedIndex.pos_advance_injective (h : index.pos < cap) {i j : Nat} (hi : i < cap)
    (hj : j < cap) (hij : (index.advance cap i).pos = (index.advance cap j).pos) : i = j := by
  rw [pos_advance h hi.le, pos_advance h hj.le] at hij
  split at hij <;> split at hij <;> omega

end Advance

variable {entrySize}

/-- `nextPosition` is one step. -/
theorem nextPosition_eq (q : MpmcQueue T) {index : VersionedIndex} (h : index.pos < q.capacity) :
    q.nextPosition index = index.advance q.capacity 1 := by
  unfold nextPosition VersionedIndex.advance
  split
  · rename_i h1
    simp [Nat.div_eq_of_lt h1, Nat.mod_eq_of_lt h1]
  · have h1 : index.pos + 1 = q.capacity := by omega
    simp [h1, Nat.div_self (by omega : 0 < q.capacity)]

/-! ## The invariant -/

/-- The entry of a cell at the step `index` after the read cursor, holding `x?`: committed with
the value, or empty, at the version of the step. -/
def Entry.expected (index : VersionedIndex) : Option T → Entry T
  | some x => ⟨⟨index.version, .committed⟩, some x⟩
  | none => ⟨⟨index.version, .emptySlot⟩, none⟩

variable (entrySize) in
/-- What every run keeps, for a queue holding `xs`: the constructor's facts on the capacity,
the write cursor `xs.length` steps after the read cursor, and the cell of every step of the lap
from the read cursor holding the value of that step, committed, or empty. -/
structure Holds (q : MpmcQueue T) (xs : List T) : Prop where
  k_pos : 0 < kEntryPerCacheLine entrySize
  k_dvd : kEntryPerCacheLine entrySize ∣ q.capacity
  capacity_le : q.capacity ≤ 2 ^ 31
  count : q.elementsCount = if q.capacity = 0 then 1 else q.capacity
  null : q.capacity = 0 → q.elements = [nullEntry]
  length_le : xs.length ≤ q.capacity
  pos_lt : 0 < q.capacity → q.readCursor.pos < q.capacity
  write : q.writeCursor = q.readCursor.advance q.capacity xs.length
  cells : ∀ i < q.capacity, q.elements[q.indexTransform entrySize (q.readCursor.advance q.capacity i)]? =
    some (Entry.expected (q.readCursor.advance q.capacity i) xs[i]?)

section Holds

variable {q : MpmcQueue T} {xs : List T}

/-- Distinct steps of the lap from the read cursor have distinct cells. -/
theorem Holds.cell_injective (h : Holds entrySize q xs) {i j : Nat} (hi : i < q.capacity)
    (hj : j < q.capacity)
    (hij : q.indexTransform entrySize (q.readCursor.advance q.capacity i) =
      q.indexTransform entrySize (q.readCursor.advance q.capacity j)) : i = j := by
  have hc : 0 < q.capacity := by omega
  have hcount : q.elementsCount = q.capacity := by rw [h.count, if_neg (by omega)]
  obtain ⟨m, hm⟩ := h.k_dvd
  have hpos := VersionedIndex.pos_advance_lt hc q.readCursor
  rw [indexTransform_eq h.k_pos hcount hm (hpos i), indexTransform_eq h.k_pos hcount hm (hpos j)]
    at hij
  have hpos' : ∀ i, (q.readCursor.advance q.capacity i).pos < kEntryPerCacheLine entrySize * m :=
    fun i => hm ▸ hpos i
  exact VersionedIndex.pos_advance_injective (h.pos_lt hc) hi hj
    (interleave_injective h.k_pos (hpos' i) (hpos' j) hij)

/-- The cell of the read cursor after a whole lap is the cell of the read cursor. -/
theorem Holds.cell_cap (h : Holds entrySize q xs) (hc : 0 < q.capacity) :
    q.indexTransform entrySize (q.readCursor.advance q.capacity q.capacity) =
      q.indexTransform entrySize (q.readCursor.advance q.capacity 0) := by
  apply indexTransform_of_pos_eq
  rw [VersionedIndex.advance_cap (h.pos_lt hc), VersionedIndex.advance_zero (h.pos_lt hc)]

theorem Holds.cell_of_null (h : Holds entrySize q xs) (hc : q.capacity = 0) (v : VersionedIndex) :
    q.elements[q.indexTransform entrySize v]? = some nullEntry := by
  rw [indexTransform_of_count_one (by rw [h.count, if_pos hc]), h.null hc]
  rfl

theorem cellIs_of_getElem? {q : MpmcQueue T} {v : VersionedIndex} {e : Entry T}
    (he : q.elements[q.indexTransform entrySize v]? = some e) (state : CellState.State) :
    q.cellIs entrySize state v = (e.state.state == state && e.state.version == v.version) := by
  unfold cellIs
  rw [he]

/-- The write cursor's cell is writable exactly when the queue has room. -/
theorem Holds.isWritable_writeCursor (h : Holds entrySize q xs) :
    q.isWritable entrySize q.writeCursor = decide (xs.length < q.capacity) := by
  unfold isWritable
  rcases Nat.eq_zero_or_pos q.capacity with hc | hc
  · rw [cellIs_of_getElem? (h.cell_of_null hc _)]
    simp [nullEntry, hc]
  by_cases hlt : xs.length < q.capacity
  · -- the first free step is empty at the write cursor's version
    have hcell := h.cells xs.length hlt
    rw [List.getElem?_eq_none (Nat.le_refl _), ← h.write] at hcell
    rw [cellIs_of_getElem? hcell]
    simp [Entry.expected, hlt]
  · -- a full queue: the write cursor is a lap after the read cursor, on the oldest value
    have hlen : xs.length = q.capacity := by have := h.length_le; omega
    obtain ⟨x, rest, hxs⟩ := List.exists_cons_of_length_pos (hlen ▸ hc : 0 < xs.length)
    have hcell := h.cells 0 hc
    have hw : q.readCursor.advance q.capacity q.capacity = q.writeCursor := by rw [h.write, hlen]
    rw [← h.cell_cap hc, hw] at hcell
    rw [cellIs_of_getElem? hcell, decide_eq_false hlt]
    simp [Entry.expected, hxs]

/-- The read cursor's cell is readable exactly when the queue holds a value. -/
theorem Holds.isReadable_readCursor (h : Holds entrySize q xs) :
    q.isReadable entrySize q.readCursor = decide (0 < xs.length) := by
  unfold isReadable
  rcases Nat.eq_zero_or_pos q.capacity with hc | hc
  · have hnil : xs.length = 0 := by have := h.length_le; omega
    rw [cellIs_of_getElem? (h.cell_of_null hc _)]
    simp [nullEntry, hnil]
  have hcell := h.cells 0 hc
  rw [VersionedIndex.advance_zero (h.pos_lt hc)] at hcell
  rw [cellIs_of_getElem? hcell]
  cases xs with
  | nil => simp [Entry.expected]
  | cons x rest => simp [Entry.expected]

end Holds

/-! ## What each call does -/

section Calls

variable {q : MpmcQueue T} {xs : List T}

@[simp] theorem capacity_push (q : MpmcQueue T) (x : T) :
    (q.push entrySize x).1.capacity = q.capacity := by
  dsimp only [push]
  split <;> rfl

@[simp] theorem capacity_pop (q : MpmcQueue T) : (q.pop entrySize).1.capacity = q.capacity := by
  dsimp only [pop]
  split <;> rfl

@[simp] theorem capacity_popAll (fuel : Nat) (q : MpmcQueue T) :
    (popAll entrySize fuel q).capacity = q.capacity := by
  induction fuel generalizing q with
  | zero => rfl
  | succ fuel ih =>
      unfold popAll
      split
      · rename_i q' _ hpop
        rw [ih, ← @capacity_pop T entrySize q, hpop]
      · rename_i q' hpop
        rw [← @capacity_pop T entrySize q, hpop]

@[simp] theorem capacity_clear (q : MpmcQueue T) : (q.clear entrySize).capacity = q.capacity := by
  unfold clear
  split
  · exact capacity_popAll _ _
  · rfl

theorem getElem?_concat_of_ne {x : T} {i : Nat} (h : i ≠ xs.length) :
    (xs ++ [x])[i]? = xs[i]? := by
  rw [List.getElem?_append]
  split
  · rfl
  · rw [List.getElem?_singleton, if_neg (by omega), List.getElem?_eq_none (by omega)]

/-- A push with room commits the value under the write cursor and moves it one step. -/
theorem Holds.push_of_lt (h : Holds entrySize q xs) (hlt : xs.length < q.capacity) (x : T) :
    (q.push entrySize x).2 = true ∧ Holds entrySize (q.push entrySize x).1 (xs ++ [x]) := by
  have hc : 0 < q.capacity := by omega
  have hw : q.isWritable entrySize q.writeCursor = true := by
    rw [h.isWritable_writeCursor]; exact decide_eq_true hlt
  have hnext : q.nextPosition q.writeCursor = q.readCursor.advance q.capacity (xs.length + 1) := by
    rw [nextPosition_eq q (by rw [h.write]; exact VersionedIndex.pos_advance_lt hc _ _), h.write,
      VersionedIndex.advance_advance]
  unfold push
  dsimp only
  rw [if_pos hw]
  refine ⟨rfl, ⟨h.k_pos, h.k_dvd, h.capacity_le, h.count, fun h0 => absurd h0 hc.ne', ?_,
    h.pos_lt, ?_, ?_⟩⟩ <;> dsimp only [indexTransform_mk]
  · rw [List.length_append, List.length_singleton]; omega
  · rw [hnext, List.length_append, List.length_singleton]
  · intro i hi
    have hold := h.cells i hi
    rw [List.getElem?_set]
    split
    · -- the cell written is the step `xs.length`
      rename_i heq
      have hi' : xs.length = i := h.cell_injective hlt hi (by rw [← h.write]; exact heq)
      subst hi'
      rw [heq, if_pos (List.getElem?_eq_some_iff.mp hold).1, List.getElem?_concat_length,
        ← h.write]
      rfl
    · rename_i hne
      have hi' : i ≠ xs.length := by rintro rfl; exact hne (by rw [h.write])
      rw [hold, getElem?_concat_of_ne hi']

/-- A push on a full queue is refused and changes nothing. -/
theorem Holds.push_of_le (h : Holds entrySize q xs) (hle : q.capacity ≤ xs.length) (x : T) :
    q.push entrySize x = (q, false) := by
  have hw : q.isWritable entrySize q.writeCursor = false := by
    rw [h.isWritable_writeCursor]; exact decide_eq_false (by omega)
  simp only [push, hw]
  rfl

/-- A pop takes the oldest value, leaves its cell empty for the next lap, and moves the read
cursor one step. -/
theorem Holds.pop_of_cons {x : T} (h : Holds entrySize q (x :: xs)) :
    (q.pop entrySize).2 = some x ∧ Holds entrySize (q.pop entrySize).1 xs := by
  have hlen := h.length_le
  rw [List.length_cons] at hlen
  have hc : 0 < q.capacity := by omega
  have hr : q.isReadable entrySize q.readCursor = true := by
    rw [h.isReadable_readCursor]; simp
  have hfirst := h.cells 0 hc
  rw [VersionedIndex.advance_zero (h.pos_lt hc)] at hfirst
  have hnext : q.nextPosition q.readCursor = q.readCursor.advance q.capacity 1 :=
    nextPosition_eq q (h.pos_lt hc)
  unfold pop
  dsimp only
  rw [if_pos hr]
  refine ⟨by rw [hfirst]; rfl, ⟨h.k_pos, h.k_dvd, h.capacity_le, h.count,
    fun h0 => absurd h0 hc.ne', ?_, ?_, ?_, ?_⟩⟩ <;> dsimp only [indexTransform_mk]
  · omega
  · intro _
    rw [hnext]; exact VersionedIndex.pos_advance_lt hc _ _
  · rw [hnext, VersionedIndex.advance_advance, h.write, List.length_cons, Nat.add_comm]
  · intro i hi
    rw [hnext, VersionedIndex.advance_advance, Nat.add_comm 1 i, List.getElem?_set]
    split
    · -- the cell emptied is the step a lap on: the last step of the new lap
      rename_i heq
      have hlast : i + 1 = q.capacity := by
        by_contra hne
        have h0 := h.cell_injective hc (by omega : i + 1 < q.capacity)
          (by rw [VersionedIndex.advance_zero (h.pos_lt hc)]; exact heq)
        omega
      have hnone : xs[i]? = none := List.getElem?_eq_none (by omega)
      rw [if_pos (List.getElem?_eq_some_iff.mp hfirst).1, hnone, hlast,
        VersionedIndex.advance_cap (h.pos_lt hc)]
      rfl
    · rename_i hne
      have hlt : i + 1 < q.capacity := by
        by_contra hge
        have hcap : i + 1 = q.capacity := by omega
        apply hne
        rw [hcap, h.cell_cap hc, VersionedIndex.advance_zero (h.pos_lt hc)]
      rw [h.cells (i + 1) hlt, List.getElem?_cons_succ]

/-- A pop on an empty queue returns nothing and changes nothing. -/
theorem Holds.pop_of_nil (h : Holds entrySize q []) : q.pop entrySize = (q, none) := by
  have hr : q.isReadable entrySize q.readCursor = false := by
    rw [h.isReadable_readCursor]; simp
  simp only [pop, hr]
  rfl

/-- An empty queue has its write cursor on its read cursor. -/
theorem Holds.write_of_nil (h : Holds entrySize q []) : q.writeCursor = q.readCursor := by
  rw [h.write, List.length_nil]
  rcases Nat.eq_zero_or_pos q.capacity with hc | hc
  · simp [VersionedIndex.advance, hc]
  · exact VersionedIndex.advance_zero (h.pos_lt hc)

/-- `size()` is the number of values held: the sum `_capacity + writePos.pos` stays below
`2^32`. -/
theorem Holds.size_eq (h : Holds entrySize q xs) : q.size = xs.length := by
  unfold size
  rcases Nat.eq_zero_or_pos xs.length with hnil | hpos
  · rw [List.length_eq_zero_iff] at hnil
    subst hnil
    rw [if_pos h.write_of_nil, List.length_nil]
  have hc : 0 < q.capacity := by have := h.length_le; omega
  have hr := h.pos_lt hc
  have hwpos := VersionedIndex.pos_advance hr h.length_le
  rw [← h.write] at hwpos
  rcases Nat.lt_or_ge xs.length q.capacity with hlt | hge
  · -- a partly full queue: the cursors are at distinct positions
    have hne : q.writeCursor.pos ≠ q.readCursor.pos := by
      intro heq
      have h0 := VersionedIndex.pos_advance_injective hr hlt hc
        (by rw [VersionedIndex.advance_zero hr, ← h.write]; exact heq)
      omega
    have hwlt : q.writeCursor.pos < q.capacity := by
      rw [h.write]; exact VersionedIndex.pos_advance_lt hc _ _
    have hsum : q.capacity + q.writeCursor.pos - q.readCursor.pos < 2 ^ 32 := by
      have := h.capacity_le; omega
    rw [if_neg (fun heq => hne (congrArg VersionedIndex.pos heq)), if_neg hne,
      Nat.mod_eq_of_lt hsum]
    have hmod : (q.capacity + q.writeCursor.pos - q.readCursor.pos) % q.capacity = xs.length := by
      rw [hwpos]
      split
      · rw [show q.capacity + (q.readCursor.pos + xs.length) - q.readCursor.pos = xs.length + q.capacity
          by omega, Nat.add_mod_right, Nat.mod_eq_of_lt hlt]
      · rw [show q.capacity + (q.readCursor.pos + xs.length - q.capacity) - q.readCursor.pos = xs.length
          by omega, Nat.mod_eq_of_lt hlt]
    rw [hmod]
    omega
  · -- a full queue: the write cursor is a lap on, at the same position
    have hlen : xs.length = q.capacity := by have := h.length_le; omega
    have hw : q.writeCursor = ⟨q.readCursor.version + 1, q.readCursor.pos⟩ := by
      rw [h.write, hlen, VersionedIndex.advance_cap hr]
    have hne : q.writeCursor ≠ q.readCursor := by
      rw [hw]
      intro heq
      have hv := congrArg VersionedIndex.version heq
      simp at hv
    rw [if_neg hne, if_pos (by rw [hw]), hlen]

theorem Holds.full_eq (h : Holds entrySize q xs) :
    q.full entrySize = decide (q.capacity ≤ xs.length) := by
  unfold full
  rw [h.isWritable_writeCursor]
  by_cases hlt : xs.length < q.capacity
  · simp [hlt, Nat.not_le.mpr hlt]
  · simp [hlt, Nat.le_of_not_lt hlt]

theorem Holds.empty_eq (h : Holds entrySize q xs) : q.empty entrySize = decide (xs.length = 0) := by
  unfold empty
  rw [h.isReadable_readCursor]
  cases xs <;> simp

/-- The pops of `clear()` empty the queue, one value at a time, before the fuel runs out. -/
theorem Holds.popAll_holds : ∀ (fuel : Nat) {q : MpmcQueue T} {xs : List T},
    Holds entrySize q xs → xs.length < fuel → Holds entrySize (popAll entrySize fuel q) []
  | 0, _, _, _, hlt => absurd hlt (Nat.not_lt_zero _)
  | fuel + 1, q, xs, h, hlt => by
      cases xs with
      | nil =>
          rw [popAll, h.pop_of_nil]
          exact h
      | cons x xs =>
          -- the pop succeeds, and the loop goes on with one value less
          obtain ⟨hx, h'⟩ := h.pop_of_cons
          have hpop : q.pop entrySize = ((q.pop entrySize).1, some x) := Prod.ext rfl hx
          rw [popAll, hpop]
          exact Holds.popAll_holds fuel h' (by rw [List.length_cons] at hlt; omega)

/-- `clear()` leaves the queue empty. -/
theorem Holds.clear_holds (h : Holds entrySize q xs) : Holds entrySize (q.clear entrySize) [] := by
  unfold clear
  rw [h.empty_eq]
  cases xs with
  | nil => exact h
  | cons x xs =>
      have hlen := h.length_le
      exact h.popAll_holds _ (by omega)

end Calls

/-- A fresh queue is empty, when `sizeof(Entry)` is positive and the capacity, rounded up to
whole cache lines, stays below `2^31`. -/
theorem holds_create (hsize : 0 < entrySize) {capacity : Nat}
    (hcap : capacity + kEntryPerCacheLine entrySize ≤ 2 ^ 31 + 1) :
    Holds entrySize (create entrySize T capacity) [] := by
  have hk : 0 < kEntryPerCacheLine entrySize := Nat.div_pos (by omega) hsize
  rcases Nat.eq_zero_or_pos capacity with rfl | hc
  · refine ⟨hk, ?_, ?_, ?_, ?_, ?_, ?_, ?_, ?_⟩ <;>
      simp [capacity_create, elementsCount_create, elements_create, VersionedIndex.advance]
  -- the capacity is `k * n` for `n` cache lines, with no wrap of the `uint32_t`
  obtain ⟨k, hkdef⟩ : ∃ k, kEntryPerCacheLine entrySize = k := ⟨_, rfl⟩
  rw [hkdef] at hk hcap
  obtain ⟨n, hn⟩ : ∃ n, (capacity + k - 1) / k = n := ⟨_, rfl⟩
  have hle : k * n ≤ capacity + k - 1 := hn ▸ Nat.mul_div_le _ _
  have hn1 : 0 < n := hn ▸ Nat.div_pos (by omega) hk
  have hcap' : (create entrySize T capacity).capacity = k * n := by
    rw [capacity_create, if_neg (by omega), hkdef, hn, Nat.mod_eq_of_lt (by omega)]
  have hpos : 0 < k * n := Nat.mul_pos hk hn1
  have hcount : (create entrySize T capacity).elementsCount = (create entrySize T capacity).capacity := by
    rw [elementsCount_create, if_neg (by omega)]
  refine ⟨hkdef ▸ hk, ⟨n, hkdef ▸ hcap'⟩, by omega, by rw [hcount, if_neg (by omega)], fun h0 => by omega,
    Nat.zero_le _, fun _ => by rw [hcap']; exact hpos, ?_, ?_⟩
  · simp [VersionedIndex.advance]
  · intro i hi
    have hslot := indexTransform_lt (hkdef ▸ hk) hcount ⟨n, hkdef ▸ hcap'⟩
      (VersionedIndex.pos_advance_lt (by omega) (⟨0, 0⟩ : VersionedIndex) i)
    rw [readCursor_create, elements_create, if_neg (by omega), List.getElem?_replicate, if_pos hslot]
    simp [Entry.expected, emptyEntry, VersionedIndex.advance, Nat.div_eq_of_lt hi]

/-! ## The queue refines the FIFO -/

variable (entrySize) in
/-- The queue holds the FIFO's items, at the FIFO's capacity. -/
def Refines (q : MpmcQueue T) (F : BoundedFifo T) : Prop :=
  Holds entrySize q F.items ∧ q.capacity = F.capacity

section Refinement

variable {q : MpmcQueue T} {F : BoundedFifo T}

/-- Every call keeps the refinement and gets the FIFO's reply. -/
theorem step_refines (h : Refines entrySize q F) (c : BoundedFifo.Call T) :
    Refines entrySize (q.step entrySize c).1 (F.step c).1 ∧
      (q.step entrySize c).2 = (F.step c).2 := by
  obtain ⟨hq, hcap⟩ := h
  cases c with
  | push x =>
      by_cases hlt : F.items.length < F.capacity
      · obtain ⟨hitems, hok⟩ := BoundedFifo.push_of_lt hlt x
        obtain ⟨hok', hq'⟩ := hq.push_of_lt (by omega) x
        refine ⟨⟨?_, by simp [step, BoundedFifo.step, hcap]⟩, ?_⟩
        · simp only [step, BoundedFifo.step, hitems]
          exact hq'
        · simp only [step, BoundedFifo.step, hok, hok']
      · have hle : F.capacity ≤ F.items.length := by omega
        simp only [step, BoundedFifo.step, BoundedFifo.push_of_le hle x,
          hq.push_of_le (by omega) x]
        exact ⟨⟨hq, hcap⟩, trivial⟩
  | pop =>
      cases hitems : F.items with
      | nil =>
          rw [hitems] at hq
          simp only [step, BoundedFifo.step, BoundedFifo.pop_of_nil hitems, hq.pop_of_nil]
          exact ⟨⟨hitems ▸ hq, hcap⟩, trivial⟩
      | cons x xs =>
          rw [hitems] at hq
          obtain ⟨hitems', hx⟩ := BoundedFifo.pop_of_cons hitems
          obtain ⟨hx', hq'⟩ := hq.pop_of_cons
          refine ⟨⟨?_, by simp [step, BoundedFifo.step, hcap]⟩, ?_⟩
          · simp only [step, BoundedFifo.step, hitems']
            exact hq'
          · simp only [step, BoundedFifo.step, hx, hx']
  | size => exact ⟨⟨hq, hcap⟩, by simp [step, BoundedFifo.step, hq.size_eq, BoundedFifo.size]⟩
  | full =>
      refine ⟨⟨hq, hcap⟩, ?_⟩
      show BoundedFifo.Reply.full (q.full entrySize) = .full (decide (F.capacity ≤ F.size))
      rw [hq.full_eq, hcap]
      rfl
  | empty => exact ⟨⟨hq, hcap⟩, by simp [step, BoundedFifo.step, hq.empty_eq, BoundedFifo.size]⟩
  | clear => exact ⟨⟨hq.clear_holds, by simp [step, BoundedFifo.step, BoundedFifo.empty, hcap]⟩, rfl⟩
  | capacity => exact ⟨⟨hq, hcap⟩, by simp [step, BoundedFifo.step, hcap]⟩

/-- From a state that refines the FIFO, every run keeps the refinement and gets the FIFO's
replies. -/
theorem run_refines (h : Refines entrySize q F) (calls : List (BoundedFifo.Call T)) :
    Refines entrySize (Run.run (step entrySize) q calls).1 (Run.run BoundedFifo.step F calls).1 ∧
      (Run.run (step entrySize) q calls).2 = (Run.run BoundedFifo.step F calls).2 :=
  Run.run_simulation (step entrySize) BoundedFifo.step (R := Refines entrySize)
    (fun _ _ c h => step_refines h c) q F calls h

end Refinement

/-- **The queue is a bounded FIFO.** Run by one thread from `MpmcQueue(capacity)`, with entries
of a positive size and a capacity that stays below `2^31` once rounded up to whole cache lines,
every call gets the reply the FIFO of capacity `capacity()` gives, and the cells hold the FIFO's
items in order. -/
theorem runs_as_bounded_fifo (hsize : 0 < entrySize) {capacity : Nat}
    (hcap : capacity + kEntryPerCacheLine entrySize ≤ 2 ^ 31 + 1) (calls : List (BoundedFifo.Call T)) :
    (Run.run (step entrySize) (create entrySize T capacity) calls).2 =
        (Run.run BoundedFifo.step (BoundedFifo.empty (create entrySize T capacity).capacity) calls).2 ∧
      Holds entrySize (Run.run (step entrySize) (create entrySize T capacity) calls).1
        (Run.run BoundedFifo.step (BoundedFifo.empty (create entrySize T capacity).capacity) calls).1.items := by
  obtain ⟨⟨hq, -⟩, hout⟩ := run_refines (F := BoundedFifo.empty (create entrySize T capacity).capacity)
    ⟨holds_create hsize hcap, rfl⟩ calls
  exact ⟨hout, hq⟩

theorem runs_as_bounded_fifo_four_cells :
    0 < 16 ∧ 4 + kEntryPerCacheLine 16 ≤ 2 ^ 31 + 1 ∧
      ((Run.run (step 16) (create 16 Nat 4) [.push 1, .push 2, .pop]).2 =
          (Run.run BoundedFifo.step (BoundedFifo.empty (create 16 Nat 4).capacity)
            [.push 1, .push 2, .pop]).2 ∧
        Holds 16 (Run.run (step 16) (create 16 Nat 4) [.push 1, .push 2, .pop]).1
          (Run.run BoundedFifo.step (BoundedFifo.empty (create 16 Nat 4).capacity)
            [.push 1, .push 2, .pop]).1.items) :=
  ⟨by decide, by decide, runs_as_bounded_fifo (by decide) (by decide) _⟩

variable (entrySize) in
/-- The values of the cells from the read cursor on, `size()` of them: what the queue holds,
oldest first. -/
def contents (q : MpmcQueue T) : List T :=
  (List.range q.size).filterMap fun i =>
    q.elements[q.indexTransform entrySize (q.readCursor.advance q.capacity i)]?.bind (·.value)

theorem filterMap_range_getElem? (xs : List T) :
    ∀ n ≤ xs.length, (List.range n).filterMap (fun i => xs[i]?) = xs.take n := by
  intro n
  induction n with
  | zero => simp
  | succ n ih =>
      intro hn
      rw [List.range_succ, List.filterMap_append, ih (by omega), List.take_add_one]
      simp [List.getElem?_eq_getElem (show n < xs.length by omega)]

theorem Holds.contents_eq {q : MpmcQueue T} {xs : List T} (h : Holds entrySize q xs) :
    q.contents entrySize = xs := by
  unfold contents
  rw [h.size_eq]
  have hvalue : ∀ i ∈ List.range xs.length,
      (q.elements[q.indexTransform entrySize (q.readCursor.advance q.capacity i)]?.bind (·.value)) =
        xs[i]? := by
    intro i hi
    rw [List.mem_range] at hi
    rw [h.cells i (by have := h.length_le; omega), List.getElem?_eq_getElem hi]
    rfl
  rw [List.filterMap_congr hvalue, filterMap_range_getElem? xs _ le_rfl, List.take_length]

/-- **Pops follow pushes.** Over every run by one thread from `MpmcQueue(capacity)`, under the
bounds of `runs_as_bounded_fifo`, the values popped followed by those the queue still holds are
values whose push was accepted, in the order of the pushes and each at most once; and without a
`clear()`, they are exactly the values accepted: no value is lost, duplicated or reordered. -/
theorem pops_follow_pushes (hsize : 0 < entrySize) {capacity : Nat}
    (hcap : capacity + kEntryPerCacheLine entrySize ≤ 2 ^ 31 + 1) (calls : List (BoundedFifo.Call T)) :
    (BoundedFifo.popped (calls.zip (Run.run (step entrySize) (create entrySize T capacity) calls).2) ++
        (Run.run (step entrySize) (create entrySize T capacity) calls).1.contents entrySize).Sublist
      (BoundedFifo.accepted (calls.zip (Run.run (step entrySize) (create entrySize T capacity) calls).2)) ∧
    (BoundedFifo.Call.clear ∉ calls →
      BoundedFifo.popped (calls.zip (Run.run (step entrySize) (create entrySize T capacity) calls).2) ++
          (Run.run (step entrySize) (create entrySize T capacity) calls).1.contents entrySize =
        BoundedFifo.accepted (calls.zip (Run.run (step entrySize) (create entrySize T capacity) calls).2)) := by
  set F : BoundedFifo T := BoundedFifo.empty (create entrySize T capacity).capacity
  obtain ⟨⟨hq, -⟩, hout⟩ := run_refines (F := F) ⟨holds_create hsize hcap, rfl⟩ calls
  rw [hq.contents_eq, hout]
  have hnil : F.items = [] := rfl
  constructor
  · simpa [hnil] using BoundedFifo.popped_sublist_accepted F calls
  · intro hclear
    simpa [hnil] using BoundedFifo.popped_append_items F calls hclear

theorem pops_follow_pushes_four_cells :
    0 < 16 ∧ 4 + kEntryPerCacheLine 16 ≤ 2 ^ 31 + 1 ∧
      ((BoundedFifo.popped ([.push 1, .push 2, .pop].zip
            (Run.run (step 16) (create 16 Nat 4) [.push 1, .push 2, .pop]).2) ++
          (Run.run (step 16) (create 16 Nat 4) [.push 1, .push 2, .pop]).1.contents 16).Sublist
        (BoundedFifo.accepted ([.push 1, .push 2, .pop].zip
          (Run.run (step 16) (create 16 Nat 4) [.push 1, .push 2, .pop]).2)) ∧
      (BoundedFifo.Call.clear ∉ [.push 1, .push 2, .pop] →
        BoundedFifo.popped ([.push 1, .push 2, .pop].zip
            (Run.run (step 16) (create 16 Nat 4) [.push 1, .push 2, .pop]).2) ++
            (Run.run (step 16) (create 16 Nat 4) [.push 1, .push 2, .pop]).1.contents 16 =
          BoundedFifo.accepted ([.push 1, .push 2, .pop].zip
            (Run.run (step 16) (create 16 Nat 4) [.push 1, .push 2, .pop]).2))) :=
  ⟨by decide, by decide, pops_follow_pushes (by decide) (by decide) _⟩

example : (Run.run (step 16) (create 16 Nat 4)
    [.push 1, .push 2, .pop, .push 3, .push 4, .push 5, .push 6, .size, .pop, .full]).2 =
    [.pushed true, .pushed true, .popped (some 1), .pushed true, .pushed true, .pushed true,
      .pushed false, .size 4, .popped (some 2), .full false] := by decide

end MpmcQueue

end MediaBridge.Concurrency
