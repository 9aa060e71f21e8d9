import MediaBridge.Concurrency.MpmcQueue
import Mathlib.Data.List.ReduceOption

set_option autoImplicit false

/-! # `concurrency::MpmcQueue` under every interleaving of its threads

`push` and `pop` are retry loops of single atomic steps on the shared queue: load the cursor,
test the cell under it (`isWritable`, `isReadable`); after a failed test reload the cursor and
return `false` if it has not moved; after a passed one compare-exchange the cursor one step on
and, having won it, build or take the cell and store its state. Here each thread makes its calls
step by step, and a schedule picks the thread of every step and whether its
`compare_exchange_weak` fails spuriously. Memory is sequentially consistent: a step sees the
effect of every earlier step.

The cursors count the calls that won them: the write cursor is at the ticket `W`, the number of
pushes taken, at position `W % _capacity` of lap `W / _capacity` (`ofTicket`), and the read
cursor at the ticket `R` of the pops. The history of a run lists each call where it takes
effect: a push or a pop when it wins its cursor, a refusal when the thread finds its cursor
unmoved. The invariant `Inv` says where each thread can be and what each cell holds: a cell
belongs to one ticket at a time, is written by the push that won the ticket, read by the pop
that won the same ticket, and then empty for the next lap. Versions are `uint32_t`, so the
invariant needs fewer than `2^32` laps of pushes in the run: a thread that loaded the cursor
`2^32` laps earlier would find it equal again.

Under that bound every run is linearizable: its history is one of a FIFO of capacity
`_capacity` that may refuse (`BoundedFifo.History`), every thread has returned what the history
says, no two threads ever hold the same cell, and once no thread is inside a call the queue is
in the state `Holds` of the one-thread model, holding the FIFO's items.
-/

namespace MediaBridge.Concurrency

namespace MpmcQueue

variable {T : Type}

/-- A call of a thread: `push(obj)` or `pop(target)`. -/
inductive Op (T : Type)
  | push (obj : T)
  | pop

/-- Where a thread is: between calls, or in the loop of a call with its `pos`, about to test
the cell (`check`), to reload the cursor after a failed test (`reload`), to compare-exchange the
cursor (`cas`), or, having won it, to build or take the cell (`commit`). -/
inductive Pc (T : Type)
  | idle
  | check (op : Op T) (pos : VersionedIndex)
  | reload (op : Op T) (pos : VersionedIndex)
  | cas (op : Op T) (pos : VersionedIndex)
  | commit (op : Op T) (pos : VersionedIndex)

/-- A thread: where it is, the calls it has still to make, and the calls it returned from with
their replies, oldest first. -/
structure Thread (T : Type) where
  pc : Pc T
  calls : List (Op T)
  done : List (BoundedFifo.Call T × BoundedFifo.Reply T)

/-- The shared queue and the threads. -/
structure System (T : Type) where
  queue : MpmcQueue T
  threads : List (Thread T)

/-- An entry of the history: a thread and the call it made, with the reply. -/
abbrev Event (T : Type) := Nat × BoundedFifo.Call T × BoundedFifo.Reply T

variable (entrySize : Nat)

namespace Op

/-- The call as a call of `BoundedFifo`. -/
def call : Op T → BoundedFifo.Call T
  | .push obj => .push obj
  | .pop => .pop

/-- The cursor the call loads: `_writeCursor` for a push, `_readCursor` for a pop. -/
def cursor (q : MpmcQueue T) : Op T → VersionedIndex
  | .push _ => q.writeCursor
  | .pop => q.readCursor

/-- The test of the cell: `isWritable` for a push, `isReadable` for a pop. -/
def ready (q : MpmcQueue T) : Op T → VersionedIndex → Bool
  | .push _ => q.isWritable entrySize
  | .pop => q.isReadable entrySize

/-- The queue with the call's cursor at `newPos`. -/
def setCursor (q : MpmcQueue T) (newPos : VersionedIndex) : Op T → MpmcQueue T
  | .push _ => { q with writeCursor := newPos }
  | .pop => { q with readCursor := newPos }

/-- A call that found its cell not ready and its cursor unmoved returns `false`. -/
def refused : Op T → BoundedFifo.Call T × BoundedFifo.Reply T
  | .push obj => (.push obj, .pushed false)
  | .pop => (.pop, .popped none)

/-- The call, having won its cursor at `pos`: the object built in the cell and the cell
committed at the version of `pos`; or the value moved out, destroyed, and the cell left empty
at the next version. The queue after it and the reply. -/
def commit (q : MpmcQueue T) (pos : VersionedIndex) : Op T → MpmcQueue T × BoundedFifo.Reply T
  | .push obj =>
      ({ q with
          elements := q.elements.set (q.indexTransform entrySize pos)
            ⟨⟨pos.version, .committed⟩, some obj⟩ }, .pushed true)
  | .pop =>
      let i := q.indexTransform entrySize pos
      ({ q with elements := q.elements.set i ⟨⟨pos.version + 1, .emptySlot⟩, none⟩ },
        .popped (q.elements[i]?.bind (·.value)))

end Op

/-- One atomic step of a thread on the queue `q`, where `spurious` makes a
`compare_exchange_weak` fail although the cursor is `pos`: the queue after it, the thread after
it, and the call it puts in the history, if any. A call is put in the history where it takes
effect: when it wins its cursor, with the reply its cell gives then, or when it returns `false`. -/
def Thread.step (q : MpmcQueue T) (spurious : Bool) (th : Thread T) :
    MpmcQueue T × Thread T × Option (BoundedFifo.Call T × BoundedFifo.Reply T) :=
  match th.pc with
  | .idle =>
      match th.calls with
      | [] => (q, th, none)
      | op :: calls => (q, { th with pc := .check op (op.cursor q), calls := calls }, none)
  | .check op pos =>
      (q, { th with pc := if op.ready entrySize q pos then .cas op pos else .reload op pos }, none)
  | .reload op pos =>
      if pos = op.cursor q then
        (q, { th with pc := .idle, done := th.done ++ [op.refused] }, some op.refused)
      else (q, { th with pc := .check op (op.cursor q) }, none)
  | .cas op pos =>
      if spurious = false ∧ op.cursor q = pos then
        (op.setCursor q (q.nextPosition pos), { th with pc := .commit op pos },
          some (op.call, (op.commit entrySize q pos).2))
      -- a failed compare-exchange leaves the cursor's value in `pos`
      else (q, { th with pc := .check op (op.cursor q) }, none)
  | .commit op pos =>
      ((op.commit entrySize q pos).1,
        { th with pc := .idle, done := th.done ++ [(op.call, (op.commit entrySize q pos).2)] }, none)

/-- A step of the thread `e.1`, its compare-exchange failing spuriously if `e.2`; a step of a
thread that does not exist changes nothing. The entry of the history is the thread with the
call it put there. -/
def System.step (s : System T) (e : Nat × Bool) : System T × Option (Event T) :=
  match s.threads[e.1]? with
  | none => (s, none)
  | some th =>
      let r := th.step entrySize s.queue e.2
      (⟨r.1, s.threads.set e.1 r.2.1⟩, r.2.2.map (e.1, ·))

/-- `MpmcQueue(capacity)` and a thread for each program, none of them started. -/
def System.init (capacity : Nat) (programs : List (List (Op T))) : System T :=
  ⟨create entrySize T capacity, programs.map fun calls => ⟨.idle, calls, []⟩⟩

/-- The system after the steps of a schedule, and the history of the run. -/
def System.run (s : System T) (sched : List (Nat × Bool)) : System T × List (Event T) :=
  ((Run.run (System.step entrySize) s sched).1, (Run.run (System.step entrySize) s sched).2.reduceOption)

/-- The call a thread has won its cursor for and not yet completed, with the reply it will
return: the part of the history the thread has not returned yet. -/
def Thread.pending (q : MpmcQueue T) (th : Thread T) : List (BoundedFifo.Call T × BoundedFifo.Reply T) :=
  match th.pc with
  | .commit op pos => [(op.call, (op.commit entrySize q pos).2)]
  | _ => []

/-- Two pushes interleaved up to their compare-exchanges: the second thread wins the first cell,
the first thread's compare-exchange fails and it takes the next cell; a pop then takes the
value of the second thread. -/
example :
    (System.run 16 (System.init 16 4 [[.push 1], [.push 2], [.pop]])
      [(0, false), (1, false), (0, false), (1, false), (1, false), (0, false), (0, false),
        (0, false), (0, false), (1, false), (2, false), (2, false), (2, false),
        (2, false)]).2 =
      [(1, .push 2, .pushed true), (0, .push 1, .pushed true), (2, .pop, .popped (some 2))] := by
  decide

variable {entrySize}

/-! ## Tickets

The `t`-th call to win a cursor wins it at position `t % _capacity` of lap `t / _capacity`.
Tickets of fewer than `2^32` laps are distinct cursors (`ofTicket_injective`), and two tickets
share a cell exactly when they are at the same position (`indexTransform_ofTicket_eq_iff`). -/

/-- The cursor of the ticket `t` in a ring of `cap` positions. -/
def VersionedIndex.ofTicket (cap t : Nat) : VersionedIndex := ⟨BitVec.ofNat 32 (t / cap), t % cap⟩

section Tickets

variable {cap : Nat}

@[simp] theorem VersionedIndex.ofTicket_zero : ofTicket cap 0 = ⟨0, 0⟩ := by
  simp [ofTicket]

theorem VersionedIndex.ofTicket_injective {a b : Nat} (ha : a / cap < 2 ^ 32) (hb : b / cap < 2 ^ 32)
    (h : ofTicket cap a = ofTicket cap b) : a = b := by
  simp only [ofTicket, VersionedIndex.mk.injEq] at h
  obtain ⟨hv, hpos⟩ := h
  have hlap : a / cap = b / cap := by
    have := congrArg BitVec.toNat hv
    rwa [BitVec.toNat_ofNat, BitVec.toNat_ofNat, Nat.mod_eq_of_lt ha, Nat.mod_eq_of_lt hb] at this
  rw [← Nat.div_add_mod a cap, ← Nat.div_add_mod b cap, hlap, hpos]

theorem VersionedIndex.advance_ofTicket (hc : 0 < cap) (t i : Nat) :
    (ofTicket cap t).advance cap i = ofTicket cap (t + i) := by
  have hdiv : (t + i) / cap = t / cap + (t % cap + i) / cap := by
    conv_lhs => rw [← Nat.div_add_mod t cap]
    rw [Nat.add_assoc, Nat.mul_add_div hc]
  simp only [advance, ofTicket, VersionedIndex.mk.injEq]
  exact ⟨by rw [BitVec.ofNat_add_ofNat, hdiv], Nat.mod_add_mod t cap i⟩

/-- A lap later is the same position at the next version. -/
theorem VersionedIndex.ofTicket_add_cap (hc : 0 < cap) (t : Nat) :
    ofTicket cap (t + cap) = ⟨(ofTicket cap t).version + 1, (ofTicket cap t).pos⟩ := by
  simp only [ofTicket, Nat.add_div_right t hc, Nat.add_mod_right, VersionedIndex.mk.injEq, and_true]
  rw [← BitVec.ofNat_add_ofNat]
  rfl

theorem VersionedIndex.version_ofTicket_add_cap_ne (hc : 0 < cap) (t : Nat) :
    (ofTicket cap (t + cap)).version ≠ (ofTicket cap t).version := by
  rw [ofTicket_add_cap hc]
  intro h
  have := congrArg BitVec.toNat h
  simp [BitVec.toNat_add] at this
  omega

/-- Tickets less than a lap apart are at distinct positions. -/
theorem mod_ne_of_lt_of_lt {a b : Nat} (hab : a < b) (hba : b < a + cap) : a % cap ≠ b % cap := by
  intro h
  have h1 : (b - a) % cap = 0 := Nat.sub_mod_eq_zero_of_mod_eq h.symm
  rw [Nat.mod_eq_of_lt (by omega)] at h1
  omega

/-- Distinct tickets less than a lap apart are at distinct positions. -/
theorem mod_ne_of_ne {a b : Nat} (hne : a ≠ b) (hab : a < b + cap) (hba : b < a + cap) :
    a % cap ≠ b % cap := by
  rcases Nat.lt_or_gt_of_ne hne with hlt | hlt
  · exact mod_ne_of_lt_of_lt hlt hba
  · exact fun h => mod_ne_of_lt_of_lt hlt hab h.symm

end Tickets

/-- `nextPosition` moves a cursor on one ticket. -/
theorem nextPosition_ofTicket {q : MpmcQueue T} (hc : 0 < q.capacity) (t : Nat) :
    q.nextPosition (.ofTicket q.capacity t) = .ofTicket q.capacity (t + 1) := by
  rw [nextPosition_eq q (Nat.mod_lt t hc), VersionedIndex.advance_ofTicket hc]

/-- Two tickets share a cell exactly when they are at the same position. -/
theorem indexTransform_ofTicket_eq_iff {q : MpmcQueue T} (hk : 0 < kEntryPerCacheLine entrySize)
    (hdvd : kEntryPerCacheLine entrySize ∣ q.capacity) (hcount : q.elementsCount = q.capacity)
    (hc : 0 < q.capacity) {a b : Nat} :
    q.indexTransform entrySize (.ofTicket q.capacity a) =
        q.indexTransform entrySize (.ofTicket q.capacity b) ↔ a % q.capacity = b % q.capacity := by
  obtain ⟨m, hm⟩ := hdvd
  have hpos : ∀ t, (VersionedIndex.ofTicket q.capacity t).pos < kEntryPerCacheLine entrySize * m :=
    fun t => hm ▸ Nat.mod_lt t hc
  rw [indexTransform_eq hk hcount hm (Nat.mod_lt a hc), indexTransform_eq hk hcount hm (Nat.mod_lt b hc)]
  exact ⟨interleave_injective hk (hpos a) (hpos b), fun h => by simp only [VersionedIndex.ofTicket, h]⟩

/-! ## The history -/

/-- The values of the pushes taken, in the order they won the write cursor. -/
def taken (L : List (Event T)) : List T := BoundedFifo.accepted (L.map Prod.snd)

/-- The values popped, in the order the pops won the read cursor. -/
def given (L : List (Event T)) : List T := BoundedFifo.popped (L.map Prod.snd)

/-- The calls of the thread `i` in the history, with their replies. -/
def mine (L : List (Event T)) (i : Nat) : List (BoundedFifo.Call T × BoundedFifo.Reply T) :=
  (L.filter (·.1 == i)).map Prod.snd

section History

variable (L L' : List (Event T))

theorem taken_append : taken (L ++ L') = taken L ++ taken L' := by
  simp only [taken, List.map_append, BoundedFifo.accepted_append]

theorem given_append : given (L ++ L') = given L ++ given L' := by
  simp only [given, List.map_append, BoundedFifo.popped_append]

theorem mine_append_self (i : Nat) (e : BoundedFifo.Call T × BoundedFifo.Reply T) :
    mine (L ++ [(i, e)]) i = mine L i ++ [e] := by
  simp [mine]

theorem mine_append_ne {i j : Nat} (h : j ≠ i) (e : BoundedFifo.Call T × BoundedFifo.Reply T) :
    mine (L ++ [(i, e)]) j = mine L j := by
  simp [mine, Ne.symm h]

@[simp] theorem taken_refused (i : Nat) (op : Op T) : taken [(i, op.refused)] = [] := by
  cases op <;> rfl

@[simp] theorem given_refused (i : Nat) (op : Op T) : given [(i, op.refused)] = [] := by
  cases op <;> rfl

@[simp] theorem taken_pushed (i : Nat) (x : T) : taken [(i, (.push x, .pushed true))] = [x] := rfl

@[simp] theorem given_pushed (i : Nat) (x : T) : given [(i, (.push x, .pushed true))] = [] := rfl

@[simp] theorem taken_popped (i : Nat) (v : Option T) : taken [(i, (.pop, .popped v))] = [] := rfl

@[simp] theorem given_popped (i : Nat) (v : Option T) : given [(i, (.pop, .popped v))] = v.toList := by
  cases v <;> rfl

end History

/-! ## The cells and the threads that hold them -/

variable (entrySize) in
/-- The cell of the ticket `t`. -/
def System.cell (s : System T) (t : Nat) : Option (Entry T) :=
  s.queue.elements[s.queue.indexTransform entrySize (.ofTicket s.queue.capacity t)]?

/-- The thread holds the cell of `pos` to build its value. -/
def Pc.Builds (pc : Pc T) (pos : VersionedIndex) : Prop := ∃ x, pc = .commit (.push x) pos

/-- The thread holds the cell of `pos` to take its value out. -/
def Pc.Takes (pc : Pc T) (pos : VersionedIndex) : Prop := pc = .commit .pop pos

/-- A thread is building the cell of the ticket `t`. -/
def System.Writing (s : System T) (t : Nat) : Prop :=
  ∃ (i : Nat) (th : Thread T), s.threads[i]? = some th ∧ th.pc.Builds (.ofTicket s.queue.capacity t)

/-- A thread is taking the value out of the cell of the ticket `t`. -/
def System.Reading (s : System T) (t : Nat) : Prop :=
  ∃ (i : Nat) (th : Thread T), s.threads[i]? = some th ∧ th.pc.Takes (.ofTicket s.queue.capacity t)

/-- The ticket of the call's cursor: the number of pushes, or of pops, taken. -/
def Op.ticket (L : List (Event T)) : Op T → Nat
  | .push _ => (taken L).length
  | .pop => (given L).length

/-- The cell of the call's next ticket is ready for it: for a push, empty at the ticket's lap,
on the first lap or once the pop of the lap before is done; for a pop, committed by its push. -/
def System.Claimable (s : System T) (L : List (Event T)) : Op T → Prop
  | .push _ => 0 < s.queue.capacity ∧ ((taken L).length < s.queue.capacity ∨
      ((taken L).length - s.queue.capacity < (given L).length ∧
        ¬ s.Reading ((taken L).length - s.queue.capacity)))
  | .pop => (given L).length < (taken L).length ∧ ¬ s.Writing (given L).length

variable (entrySize) in
/-- Where the thread `i` can be, in a system with the history `L`. In the loop, its `pos` is a
ticket its cursor has passed, and if the cursor is still there and the test passed, the cell is
ready. Having won a ticket, a push owns an empty cell of a ticket not yet popped, and a pop owns
the committed cell of a ticket less than a lap behind the write cursor. Its replies are its
calls in the history, but for the one it is completing. -/
def ThreadOk (s : System T) (L : List (Event T)) (i : Nat) (th : Thread T) : Prop :=
  match th.pc with
  | .idle => th.done = mine L i
  | .check op pos | .reload op pos =>
      (∃ t ≤ op.ticket L, pos = .ofTicket s.queue.capacity t) ∧ th.done = mine L i
  | .cas op pos =>
      (∃ t ≤ op.ticket L, pos = .ofTicket s.queue.capacity t ∧ (t = op.ticket L → s.Claimable L op)) ∧
        th.done = mine L i
  | .commit (.push x) pos =>
      ∃ t, pos = .ofTicket s.queue.capacity t ∧ (given L).length ≤ t ∧ t < (taken L).length ∧
        (taken L)[t]? = some x ∧ s.cell entrySize t = some (Entry.expected pos none) ∧
        th.done ++ [(.push x, .pushed true)] = mine L i
  | .commit .pop pos =>
      ∃ r, pos = .ofTicket s.queue.capacity r ∧ r < (given L).length ∧
        (taken L).length ≤ r + s.queue.capacity ∧
        s.cell entrySize r = some (Entry.expected pos (taken L)[r]?) ∧
        th.done ++ [(.pop, .popped (taken L)[r]?)] = mine L i

variable (entrySize) in
/-- What every run keeps, with its history `L`: the constructor's facts, the cursors at the
tickets of the pushes and pops taken, the history one of a FIFO that may refuse with the values
taken and not popped, where every thread can be, one owner for each cell held, and the cells no
thread holds: committed with their value from the read cursor to the write cursor, and empty
for the next lap after it where the pop of the lap before is done. -/
structure Inv (s : System T) (L : List (Event T)) : Prop where
  k_pos : 0 < kEntryPerCacheLine entrySize
  k_dvd : kEntryPerCacheLine entrySize ∣ s.queue.capacity
  capacity_le : s.queue.capacity ≤ 2 ^ 31
  count : s.queue.elementsCount = if s.queue.capacity = 0 then 1 else s.queue.capacity
  null : s.queue.capacity = 0 → s.queue.elements = [nullEntry]
  write : s.queue.writeCursor = .ofTicket s.queue.capacity (taken L).length
  read : s.queue.readCursor = .ofTicket s.queue.capacity (given L).length
  history : ∃ F : BoundedFifo T,
    BoundedFifo.History (BoundedFifo.empty s.queue.capacity) (L.map Prod.snd) F ∧
      F.capacity = s.queue.capacity ∧ F.items = (taken L).drop (given L).length
  threads : ∀ (i : Nat) (th : Thread T), s.threads[i]? = some th → ThreadOk entrySize s L i th
  writers_unique : ∀ (pos : VersionedIndex) (i j : Nat) (thi thj : Thread T),
    s.threads[i]? = some thi → s.threads[j]? = some thj → thi.pc.Builds pos → thj.pc.Builds pos →
    i = j
  readers_unique : ∀ (pos : VersionedIndex) (i j : Nat) (thi thj : Thread T),
    s.threads[i]? = some thi → s.threads[j]? = some thj → thi.pc.Takes pos → thj.pc.Takes pos →
    i = j
  committed : ∀ m, (given L).length ≤ m → m < (taken L).length → ¬ s.Writing m →
    s.cell entrySize m = some (Entry.expected (.ofTicket s.queue.capacity m) (taken L)[m]?)
  ready : ∀ n, (taken L).length ≤ n → n < (taken L).length + s.queue.capacity →
    (n < s.queue.capacity ∨
      (n - s.queue.capacity < (given L).length ∧ ¬ s.Reading (n - s.queue.capacity))) →
    s.cell entrySize n = some (Entry.expected (.ofTicket s.queue.capacity n) none)

section Inv

variable {s : System T} {L : List (Event T)}

/-- The values popped and the FIFO's items are the values taken. -/
theorem Inv.given_append_items (h : Inv entrySize s L) :
    given L ++ (taken L).drop (given L).length = taken L := by
  obtain ⟨F, hF, -, hitems⟩ := h.history
  have := hF.popped_append_items
  rwa [hitems] at this

/-- The pops took the oldest values. -/
theorem Inv.given_eq (h : Inv entrySize s L) : given L = (taken L).take (given L).length := by
  have h1 := h.given_append_items
  conv_rhs at h1 => rw [← List.take_append_drop (given L).length (taken L)]
  exact List.append_cancel_right h1

theorem Inv.given_le (h : Inv entrySize s L) : (given L).length ≤ (taken L).length := by
  have := congrArg List.length h.given_eq
  rw [List.length_take] at this
  omega

/-- Never more than `_capacity` values taken and not popped. -/
theorem Inv.taken_le (h : Inv entrySize s L) :
    (taken L).length ≤ (given L).length + s.queue.capacity := by
  obtain ⟨F, -, hcap, hitems⟩ := h.history
  have hlen := F.length_le
  rw [hitems, hcap, List.length_drop] at hlen
  omega

end Inv

/-- `MpmcQueue(capacity)` with its threads not started, and nothing in the history. -/
theorem inv_init (hsize : 0 < entrySize) {capacity : Nat}
    (hcap : capacity + kEntryPerCacheLine entrySize ≤ 2 ^ 31 + 1) (programs : List (List (Op T))) :
    Inv entrySize (System.init entrySize capacity programs) [] := by
  have hq := holds_create (T := T) hsize hcap
  -- no thread has started, so none is in a call
  have hidle : ∀ (i : Nat) (th : Thread T), (System.init entrySize capacity programs).threads[i]? = some th →
      th.pc = .idle ∧ th.done = [] := by
    intro i th hth
    simp only [System.init, List.getElem?_map, Option.map_eq_some_iff] at hth
    obtain ⟨calls, -, rfl⟩ := hth
    exact ⟨rfl, rfl⟩
  refine ⟨hq.k_pos, hq.k_dvd, hq.capacity_le, hq.count, hq.null, by simp [System.init, taken],
    by simp [System.init, given], ⟨BoundedFifo.empty _, .nil, rfl, rfl⟩, ?_, ?_, ?_, ?_, ?_⟩
  · intro i th hth
    obtain ⟨hpc, hdone⟩ := hidle i th hth
    simp only [ThreadOk, hpc, hdone]
    rfl
  · intro pos i j thi thj hi _ hpi _
    simp [Pc.Builds, (hidle i thi hi).1] at hpi
  · intro pos i j thi thj hi _ hpi _
    simp [Pc.Takes, (hidle i thi hi).1] at hpi
  · intro m _ hm
    simp [taken] at hm
  · intro n _ hn _
    have hn' : n < (create entrySize T capacity).capacity := by simpa [taken, System.init] using hn
    have hpos : 0 < (create entrySize T capacity).capacity := by omega
    have hcell := hq.cells n hn'
    rw [readCursor_create, ← VersionedIndex.ofTicket_zero, VersionedIndex.advance_ofTicket hpos,
      Nat.zero_add] at hcell
    simpa [System.cell, System.init] using hcell

/-! ## What a step of one thread leaves to the others -/

theorem getElem?_set_eq_some {α : Type} {l : List α} {i j : Nat} {a b : α}
    (h : (l.set i a)[j]? = some b) : (j = i ∧ b = a) ∨ (j ≠ i ∧ l[j]? = some b) := by
  rw [List.getElem?_set] at h
  split_ifs at h with h1 h2
  · exact .inl ⟨h1.symm, (Option.some.inj h).symm⟩
  · exact .inr ⟨Ne.symm h1, h⟩

/-- A thread of the list with the thread `i` replaced is the new thread or another one. -/
theorem exists_getElem?_set_iff {α : Type} {l : List α} {i : Nat} {a b : α} (hi : l[i]? = some b)
    (P : α → Prop) :
    (∃ (j : Nat) (c : α), (l.set i a)[j]? = some c ∧ P c) ↔
      P a ∨ ∃ (j : Nat) (c : α), j ≠ i ∧ l[j]? = some c ∧ P c := by
  have hlt : i < l.length := (List.getElem?_eq_some_iff.mp hi).1
  constructor
  · rintro ⟨j, c, hj, hc⟩
    rcases getElem?_set_eq_some hj with ⟨-, rfl⟩ | ⟨hne, hj'⟩
    · exact .inl hc
    · exact .inr ⟨j, c, hne, hj', hc⟩
  · rintro (ha | ⟨j, c, hne, hj, hc⟩)
    · exact ⟨i, a, List.getElem?_set_self hlt, ha⟩
    · exact ⟨j, c, by rw [List.getElem?_set_ne (Ne.symm hne)]; exact hj, hc⟩

theorem exists_getElem?_iff {α : Type} {l : List α} {i : Nat} {b : α} (hi : l[i]? = some b)
    (P : α → Prop) :
    (∃ (j : Nat) (c : α), l[j]? = some c ∧ P c) ↔
      P b ∨ ∃ (j : Nat) (c : α), j ≠ i ∧ l[j]? = some c ∧ P c := by
  constructor
  · rintro ⟨j, c, hj, hc⟩
    by_cases hji : j = i
    · subst hji
      rw [hi] at hj
      exact .inl (Option.some.inj hj ▸ hc)
    · exact .inr ⟨j, c, hji, hj, hc⟩
  · rintro (hb | ⟨j, c, -, hj, hc⟩)
    · exact ⟨i, b, hi, hb⟩
    · exact ⟨j, c, hj, hc⟩

theorem System.claimable_congr {s s' : System T} (hq : s'.queue = s.queue)
    (hw : ∀ t, s'.Writing t ↔ s.Writing t) (hr : ∀ t, s'.Reading t ↔ s.Reading t)
    (L : List (Event T)) (op : Op T) : s'.Claimable L op ↔ s.Claimable L op := by
  cases op <;> simp only [System.Claimable, hq, hw, hr]

/-- What a thread needs of a step of another to stay where it can be: its replies and its cell
untouched, the tickets only moving on, and the cell of its next ticket, if ready, staying so. -/
theorem ThreadOk.transport {s s' : System T} {L L' : List (Event T)} {j : Nat} {th : Thread T}
    (h : ThreadOk entrySize s L j th) (hRW : (given L).length ≤ (taken L).length)
    (hcap : s'.queue.capacity = s.queue.capacity) (hmine : mine L' j = mine L j)
    (htaken : ∃ extra, taken L' = taken L ++ extra)
    (hgiven : (given L).length ≤ (given L').length)
    (hclaim : ∀ op t, th.pc = .cas op (.ofTicket s.queue.capacity t) → t ≤ op.ticket L →
      (t = op.ticket L → s.Claimable L op) → t = op.ticket L' → s'.Claimable L' op)
    (hwriter : ∀ x t, th.pc = .commit (.push x) (.ofTicket s.queue.capacity t) →
      (given L).length ≤ t → t < (taken L).length →
      (given L').length ≤ t ∧ s'.cell entrySize t = s.cell entrySize t)
    (hreader : ∀ r, th.pc = .commit .pop (.ofTicket s.queue.capacity r) → r < (given L).length →
      (taken L).length ≤ r + s.queue.capacity →
      (taken L').length ≤ r + s.queue.capacity ∧ s'.cell entrySize r = s.cell entrySize r) :
    ThreadOk entrySize s' L' j th := by
  obtain ⟨extra, hext⟩ := htaken
  have hget : ∀ t, t < (taken L).length → (taken L')[t]? = (taken L)[t]? := fun t ht => by
    rw [hext, List.getElem?_append_left ht]
  have hticket : ∀ op : Op T, op.ticket L ≤ op.ticket L' := by
    intro op
    cases op
    · simp only [Op.ticket, hext, List.length_append]; omega
    · exact hgiven
  unfold ThreadOk at h ⊢
  cases hpc : th.pc with
  | idle =>
      simp only [hpc] at h ⊢
      rw [hmine]; exact h
  | check op pos =>
      simp only [hpc] at h ⊢
      obtain ⟨⟨t, ht, rfl⟩, hd⟩ := h
      exact ⟨⟨t, ht.trans (hticket op), by rw [hcap]⟩, hd.trans hmine.symm⟩
  | reload op pos =>
      simp only [hpc] at h ⊢
      obtain ⟨⟨t, ht, rfl⟩, hd⟩ := h
      exact ⟨⟨t, ht.trans (hticket op), by rw [hcap]⟩, hd.trans hmine.symm⟩
  | cas op pos =>
      simp only [hpc] at h ⊢
      obtain ⟨⟨t, ht, rfl, hcl⟩, hd⟩ := h
      exact ⟨⟨t, ht.trans (hticket op), by rw [hcap], hclaim op t hpc ht hcl⟩, hd.trans hmine.symm⟩
  | commit op pos =>
      cases op with
      | push x =>
          simp only [hpc] at h ⊢
          obtain ⟨t, rfl, hR, hW, hx, hcell, hd⟩ := h
          obtain ⟨hR', hcell'⟩ := hwriter x t hpc hR hW
          refine ⟨t, by rw [hcap], hR', ?_, by rw [hget t hW]; exact hx, by rw [hcell']; exact hcell,
            by rw [hmine]; exact hd⟩
          rw [hext, List.length_append]
          omega
      | pop =>
          simp only [hpc] at h ⊢
          obtain ⟨r, rfl, hr, hwin, hcell, hd⟩ := h
          obtain ⟨hwin', hcell'⟩ := hreader r hpc hr hwin
          have hr' : r < (taken L).length := by omega
          refine ⟨r, by rw [hcap], by omega, by rw [hcap]; exact hwin', ?_, ?_⟩
          · rw [hcell', hget r hr']; exact hcell
          · rw [hget r hr', hmine]; exact hd

@[simp] theorem Entry.version_expected (index : VersionedIndex) (x? : Option T) :
    (Entry.expected index x?).state.version = index.version := by
  cases x? <;> rfl

@[simp] theorem Entry.value_expected (index : VersionedIndex) (x? : Option T) :
    (Entry.expected index x?).value = x? := by
  cases x? <;> rfl

/-- A property of one thread at most stays so when the thread `i` is replaced by one that has it
where no other thread does. -/
theorem unique_set {α : Type} {l : List α} {i : Nat} {a : α} {P : α → Prop}
    (huniq : ∀ (j k : Nat) (c d : α), l[j]? = some c → l[k]? = some d → P c → P d → j = k)
    (hnew : P a → ∀ (j : Nat) (c : α), j ≠ i → l[j]? = some c → P c → False) :
    ∀ (j k : Nat) (c d : α), (l.set i a)[j]? = some c → (l.set i a)[k]? = some d → P c → P d →
      j = k := by
  intro j k c d hj hk hc hd
  rcases getElem?_set_eq_some hj with ⟨rfl, rfl⟩ | ⟨hj', hjl⟩ <;>
    rcases getElem?_set_eq_some hk with ⟨rfl, rfl⟩ | ⟨hk', hkl⟩
  · rfl
  · exact (hnew hc k d hk' hkl hd).elim
  · exact (hnew hd j c hj' hjl hc).elim
  · exact huniq j k c d hjl hkl hc hd

section Holders

variable {s : System T} {q : MpmcQueue T} {i : Nat} {th th' : Thread T}

theorem System.writing_iff (hi : s.threads[i]? = some th) (t : Nat) :
    s.Writing t ↔ th.pc.Builds (.ofTicket s.queue.capacity t) ∨
      ∃ (j : Nat) (c : Thread T), j ≠ i ∧ s.threads[j]? = some c ∧
        c.pc.Builds (.ofTicket s.queue.capacity t) :=
  exists_getElem?_iff hi (fun c : Thread T => c.pc.Builds (.ofTicket s.queue.capacity t))

theorem System.writing_set_iff (hi : s.threads[i]? = some th) (t : Nat) :
    System.Writing ⟨q, s.threads.set i th'⟩ t ↔ th'.pc.Builds (.ofTicket q.capacity t) ∨
      ∃ (j : Nat) (c : Thread T), j ≠ i ∧ s.threads[j]? = some c ∧
        c.pc.Builds (.ofTicket q.capacity t) :=
  exists_getElem?_set_iff hi (fun c : Thread T => c.pc.Builds (.ofTicket q.capacity t))

theorem System.reading_iff (hi : s.threads[i]? = some th) (t : Nat) :
    s.Reading t ↔ th.pc.Takes (.ofTicket s.queue.capacity t) ∨
      ∃ (j : Nat) (c : Thread T), j ≠ i ∧ s.threads[j]? = some c ∧
        c.pc.Takes (.ofTicket s.queue.capacity t) :=
  exists_getElem?_iff hi (fun c : Thread T => c.pc.Takes (.ofTicket s.queue.capacity t))

theorem System.reading_set_iff (hi : s.threads[i]? = some th) (t : Nat) :
    System.Reading ⟨q, s.threads.set i th'⟩ t ↔ th'.pc.Takes (.ofTicket q.capacity t) ∨
      ∃ (j : Nat) (c : Thread T), j ≠ i ∧ s.threads[j]? = some c ∧
        c.pc.Takes (.ofTicket q.capacity t) :=
  exists_getElem?_set_iff hi (fun c : Thread T => c.pc.Takes (.ofTicket q.capacity t))

/-- Replacing a thread that builds no cell by another that builds none leaves the cells being
built. -/
theorem System.writing_set_of_not (q : MpmcQueue T) (hcap : q.capacity = s.queue.capacity)
    (hi : s.threads[i]? = some th) (hth : ∀ pos, ¬ th.pc.Builds pos)
    (hth' : ∀ pos, ¬ th'.pc.Builds pos) (t : Nat) :
    System.Writing ⟨q, s.threads.set i th'⟩ t ↔ s.Writing t := by
  rw [writing_set_iff hi, writing_iff hi, hcap]
  simp only [hth, hth', false_or]

theorem System.reading_set_of_not (q : MpmcQueue T) (hcap : q.capacity = s.queue.capacity)
    (hi : s.threads[i]? = some th) (hth : ∀ pos, ¬ th.pc.Takes pos)
    (hth' : ∀ pos, ¬ th'.pc.Takes pos) (t : Nat) :
    System.Reading ⟨q, s.threads.set i th'⟩ t ↔ s.Reading t := by
  rw [reading_set_iff hi, reading_iff hi, hcap]
  simp only [hth, hth', false_or]

end Holders

section Cells

variable {s : System T} {L : List (Event T)}

theorem System.cell_congr (s : System T) {a b : Nat}
    (h : VersionedIndex.ofTicket s.queue.capacity a = .ofTicket s.queue.capacity b) :
    s.cell entrySize a = s.cell entrySize b := by
  unfold System.cell
  rw [h]

/-- A ticket and the one a lap later share their cell. -/
theorem System.cell_add_cap (s : System T) (t : Nat) :
    s.cell entrySize (t + s.queue.capacity) = s.cell entrySize t := by
  unfold System.cell
  exact congrArg _ (indexTransform_of_pos_eq s.queue (Nat.add_mod_right t _))

/-- A cell that passes the test of `isWritable` or `isReadable` at a ticket is in that state at
the ticket's version. -/
theorem System.cell_of_cellIs {st : CellState.State} {t : Nat}
    (h : s.queue.cellIs entrySize st (.ofTicket s.queue.capacity t) = true) :
    ∃ e, s.cell entrySize t = some e ∧ e.state.state = st ∧
      e.state.version = (VersionedIndex.ofTicket s.queue.capacity t).version := by
  unfold cellIs at h
  unfold System.cell
  split at h
  · rename_i e he
    simp only [Bool.and_eq_true, beq_iff_eq] at h
    exact ⟨e, he, h.1, h.2⟩
  · cases h

theorem Inv.cell_of_null (h : Inv entrySize s L) (hc : s.queue.capacity = 0) (t : Nat) :
    s.cell entrySize t = some nullEntry := by
  unfold System.cell
  rw [indexTransform_of_count_one (by rw [h.count, if_pos hc]), h.null hc]
  rfl

/-- Writing the cell of the ticket `t` changes the cells of the tickets at its position only. -/
theorem Inv.cell_set (h : Inv entrySize s L) (hc : 0 < s.queue.capacity) {t : Nat} {e₀ : Entry T}
    (ht : s.cell entrySize t = some e₀) (e : Entry T) (ths : List (Thread T)) (n : Nat) :
    System.cell entrySize
        ⟨{ s.queue with
            elements := s.queue.elements.set
              (s.queue.indexTransform entrySize (.ofTicket s.queue.capacity t)) e }, ths⟩ n =
      if n % s.queue.capacity = t % s.queue.capacity then some e else s.cell entrySize n := by
  have hcount : s.queue.elementsCount = s.queue.capacity := by rw [h.count, if_neg hc.ne']
  have hlt := (List.getElem?_eq_some_iff.mp ht).1
  have hidx := indexTransform_ofTicket_eq_iff (T := T) h.k_pos h.k_dvd hcount hc (a := t) (b := n)
  show (s.queue.elements.set _ e)[s.queue.indexTransform entrySize (.ofTicket s.queue.capacity n)]? = _
  rw [List.getElem?_set]
  by_cases hmod : n % s.queue.capacity = t % s.queue.capacity
  · rw [if_pos (hidx.mpr hmod.symm), if_pos hlt, if_pos hmod]
  · rw [if_neg (fun heq => hmod (hidx.mp heq).symm), if_neg hmod]
    rfl

end Cells

section Holding

variable {s : System T} {L : List (Event T)} {j : Nat} {th : Thread T} {pos : VersionedIndex}

/-- A thread building a cell won a ticket not yet popped, and its cell is empty at the
ticket's version. -/
theorem ThreadOk.of_builds (hok : ThreadOk entrySize s L j th) (hb : th.pc.Builds pos) :
    ∃ t x, pos = .ofTicket s.queue.capacity t ∧ th.pc = .commit (.push x) pos ∧
      (given L).length ≤ t ∧ t < (taken L).length ∧ (taken L)[t]? = some x ∧
      s.cell entrySize t = some (Entry.expected pos none) ∧
      th.done ++ [(.push x, .pushed true)] = mine L j := by
  obtain ⟨x, hpc⟩ := hb
  unfold ThreadOk at hok
  simp only [hpc] at hok
  obtain ⟨t, rfl, hR, hW, hx, hcell, hd⟩ := hok
  exact ⟨t, x, rfl, hpc, hR, hW, hx, hcell, hd⟩

/-- A thread taking a cell won a ticket less than a lap behind the write cursor, and its cell is
committed with the ticket's value. -/
theorem ThreadOk.of_takes (hok : ThreadOk entrySize s L j th) (ht : th.pc.Takes pos) :
    ∃ r, pos = .ofTicket s.queue.capacity r ∧ r < (given L).length ∧
      (taken L).length ≤ r + s.queue.capacity ∧
      s.cell entrySize r = some (Entry.expected pos (taken L)[r]?) ∧
      th.done ++ [(.pop, .popped (taken L)[r]?)] = mine L j := by
  unfold Pc.Takes at ht
  unfold ThreadOk at hok
  simp only [ht] at hok
  exact hok

end Holding

section Claim

variable {s : System T} {L : List (Event T)}

/-- **A writable cell is ready.** If the cell under the write cursor is empty at its version,
the cell is on its first lap or the pop of the lap before is done. -/
theorem Inv.claimable_of_isWritable (h : Inv entrySize s L)
    (hw : s.queue.isWritable entrySize (.ofTicket s.queue.capacity (taken L).length) = true) :
    0 < s.queue.capacity ∧ ((taken L).length < s.queue.capacity ∨
      ((taken L).length - s.queue.capacity < (given L).length ∧
        ¬ s.Reading ((taken L).length - s.queue.capacity))) := by
  obtain ⟨e, hcell, hst, hver⟩ := System.cell_of_cellIs hw
  rcases Nat.eq_zero_or_pos s.queue.capacity with hc | hc
  · -- the one cell `_nullEntry` is never writable
    rw [h.cell_of_null hc, Option.some.injEq] at hcell
    subst hcell
    cases hst
  refine ⟨hc, ?_⟩
  by_cases hlt : (taken L).length < s.queue.capacity
  · exact .inl hlt
  right
  -- the ticket `m` a lap before the write cursor shares its cell
  obtain ⟨m, hm⟩ : ∃ m, (taken L).length = m + s.queue.capacity :=
    ⟨_, (Nat.sub_add_cancel (Nat.le_of_not_lt hlt)).symm⟩
  rw [hm, Nat.add_sub_cancel]
  rw [hm, System.cell_add_cap] at hcell
  rw [hm] at hver
  have hne := VersionedIndex.version_ofTicket_add_cap_ne hc m
  have hRW := h.taken_le
  constructor
  · -- `m` not popped yet would leave its cell committed, or empty at `m`'s version
    by_contra hge
    by_cases hwr : s.Writing m
    · obtain ⟨j, thj, hj, hb⟩ := hwr
      obtain ⟨t, -, ht, -, -, -, -, hcell', -⟩ := (h.threads j thj hj).of_builds hb
      rw [← s.cell_congr ht, hcell, Option.some.injEq] at hcell'
      subst hcell'
      rw [Entry.version_expected] at hver
      exact hne hver.symm
    · rw [h.committed m (by omega) (by omega) hwr, Option.some.injEq,
        List.getElem?_eq_getElem (show m < (taken L).length by omega)] at hcell
      subst hcell
      cases hst
  · -- a pop of `m` in progress leaves its cell committed
    rintro ⟨j, thj, hj, htk⟩
    obtain ⟨r, hr, -, -, hcell', -⟩ := (h.threads j thj hj).of_takes htk
    rw [← s.cell_congr hr, hcell, Option.some.injEq] at hcell'
    subst hcell'
    rw [Entry.version_expected] at hver
    exact hne hver.symm

/-- **A readable cell is ready.** If the cell under the read cursor is committed at its version,
a push of that ticket is done. -/
theorem Inv.claimable_of_isReadable (h : Inv entrySize s L)
    (hr : s.queue.isReadable entrySize (.ofTicket s.queue.capacity (given L).length) = true) :
    s.Claimable L .pop := by
  obtain ⟨e, hcell, hst, hver⟩ := System.cell_of_cellIs hr
  rcases Nat.eq_zero_or_pos s.queue.capacity with hc | hc
  · rw [h.cell_of_null hc, Option.some.injEq] at hcell
    subst hcell
    cases hst
  have hRW := h.given_le
  have hWR := h.taken_le
  constructor
  · -- with nothing to pop, the cell is empty for the write cursor, or still being taken a lap
    -- before at the version of that lap
    by_contra hge
    have hRW' : (given L).length = (taken L).length := by omega
    by_cases hlap : (taken L).length < s.queue.capacity ∨
        ((taken L).length - s.queue.capacity < (given L).length ∧
          ¬ s.Reading ((taken L).length - s.queue.capacity))
    · rw [hRW', h.ready _ le_rfl (by omega) hlap, Option.some.injEq] at hcell
      subst hcell
      cases hst
    · have hm : (taken L).length - s.queue.capacity + s.queue.capacity = (taken L).length := by
        omega
      have hrd : s.Reading ((taken L).length - s.queue.capacity) := by
        by_contra hrd
        exact hlap (.inr ⟨by omega, hrd⟩)
      obtain ⟨j, thj, hj, htk⟩ := hrd
      obtain ⟨r, hr, -, -, hcell', -⟩ := (h.threads j thj hj).of_takes htk
      rw [← s.cell_congr hr, ← System.cell_add_cap, hm, ← hRW', hcell, Option.some.injEq] at hcell'
      subst hcell'
      have hne := VersionedIndex.version_ofTicket_add_cap_ne hc ((taken L).length - s.queue.capacity)
      rw [hm, ← hRW'] at hne
      rw [Entry.version_expected] at hver
      exact hne hver.symm
  · -- a push of the ticket in progress leaves its cell empty
    rintro ⟨j, thj, hj, hb⟩
    obtain ⟨t, -, ht, -, -, -, -, hcell', -⟩ := (h.threads j thj hj).of_builds hb
    rw [← s.cell_congr ht, hcell, Option.some.injEq] at hcell'
    subst hcell'
    cases hst

end Claim

/-! ## The invariant, step by step

One lemma for each kind of step of a thread: a move that holds no cell before or after it
(`Inv.move`, which also puts a refusal in the history), the compare-exchange a push or a pop wins
(`Inv.claim_push`, `Inv.claim_pop`), and the build or take of the cell won
(`Inv.commit_push`, `Inv.commit_pop`). The other threads are carried over by
`ThreadOk.transport`. -/

section Steps

variable {s : System T} {L : List (Event T)} {i : Nat} {th th' : Thread T}

theorem System.claimable_of_history {L' : List (Event T)} (htaken : taken L' = taken L)
    (hgiven : given L' = given L) (op : Op T) : s.Claimable L' op ↔ s.Claimable L op := by
  cases op <;> simp only [System.Claimable, htaken, hgiven]

theorem Op.ticket_of_history {L' : List (Event T)} (htaken : taken L' = taken L)
    (hgiven : given L' = given L) (op : Op T) : op.ticket L' = op.ticket L := by
  cases op <;> simp only [Op.ticket, htaken, hgiven]

/-- The cursor of a call is at the ticket of the calls of its kind taken. -/
theorem Inv.cursor_eq (h : Inv entrySize s L) (op : Op T) :
    op.cursor s.queue = .ofTicket s.queue.capacity (op.ticket L) := by
  cases op
  · exact h.write
  · exact h.read

/-- A test that passes under the cursor means the cell is ready for the cursor's ticket. -/
theorem Inv.claimable_of_ready (h : Inv entrySize s L) (op : Op T)
    (hr : op.ready entrySize s.queue (.ofTicket s.queue.capacity (op.ticket L)) = true) :
    s.Claimable L op := by
  cases op with
  | push x => exact h.claimable_of_isWritable hr
  | pop => exact h.claimable_of_isReadable hr

/-- **A step that holds no cell.** A thread that holds no cell before or after its step, and
whose step changes neither the pushes nor the pops taken, keeps the invariant once its new place
is one it can be. -/
theorem Inv.move (h : Inv entrySize s L) (hi : s.threads[i]? = some th)
    (hth : ∀ op pos, th.pc ≠ .commit op pos) (hth' : ∀ op pos, th'.pc ≠ .commit op pos)
    {L' : List (Event T)} (htaken : taken L' = taken L) (hgiven : given L' = given L)
    (hmine : ∀ j, j ≠ i → mine L' j = mine L j)
    (hhist : ∀ F, BoundedFifo.History (BoundedFifo.empty s.queue.capacity) (L.map Prod.snd) F →
      BoundedFifo.History (BoundedFifo.empty s.queue.capacity) (L'.map Prod.snd) F)
    (hok : ThreadOk entrySize s L' i th') :
    Inv entrySize ⟨s.queue, s.threads.set i th'⟩ L' := by
  have hb : ∀ c : Thread T, (∀ op pos, c.pc ≠ .commit op pos) → ∀ pos, ¬ c.pc.Builds pos :=
    fun c hc pos ⟨_, hx⟩ => hc _ _ hx
  have ht : ∀ c : Thread T, (∀ op pos, c.pc ≠ .commit op pos) → ∀ pos, ¬ c.pc.Takes pos :=
    fun c hc pos hx => hc _ _ hx
  have hw := System.writing_set_of_not s.queue rfl hi (hb th hth) (hb th' hth')
  have hr := System.reading_set_of_not s.queue rfl hi (ht th hth) (ht th' hth')
  have hcl : ∀ L op, System.Claimable ⟨s.queue, s.threads.set i th'⟩ L op ↔ s.Claimable L op :=
    System.claimable_congr rfl hw hr
  obtain ⟨F, hF, hFc, hFi⟩ := h.history
  refine ⟨h.k_pos, h.k_dvd, h.capacity_le, h.count, h.null, by rw [htaken]; exact h.write,
    by rw [hgiven]; exact h.read, ⟨F, hhist F hF, hFc, by rw [htaken, hgiven]; exact hFi⟩, ?_, ?_, ?_,
    ?_, ?_⟩
  · intro j c hj
    rcases getElem?_set_eq_some hj with ⟨rfl, rfl⟩ | ⟨hne, hj⟩
    · refine hok.transport (by rw [htaken, hgiven]; exact h.given_le) rfl rfl ⟨[], by simp⟩ le_rfl
        (fun op t _ _ hcl' ht' => (hcl L' op).mpr (hcl' ht')) (fun _ _ hp => absurd hp (hth' _ _))
        (fun _ hp => absurd hp (hth' _ _))
    · refine (h.threads j c hj).transport h.given_le rfl (hmine j hne) ⟨[], by simp [htaken]⟩
        (by rw [hgiven]) (fun op t _ _ hcl' ht' => ?_) (fun _ _ _ hR _ => ⟨by rw [hgiven]; exact hR, rfl⟩)
        (fun _ _ _ hwin => ⟨by rw [htaken]; exact hwin, rfl⟩)
      rw [Op.ticket_of_history htaken hgiven] at ht'
      exact (System.claimable_of_history htaken hgiven op).mpr ((hcl L op).mpr (hcl' ht'))
  · intro pos
    exact unique_set (h.writers_unique pos) (fun hb' => absurd hb' (hb th' hth' pos))
  · intro pos
    exact unique_set (h.readers_unique pos) (fun ht' => absurd ht' (ht th' hth' pos))
  · intro m hR hW hnw
    rw [htaken] at hW ⊢
    rw [hgiven] at hR
    exact h.committed m hR hW (fun hw' => hnw ((hw m).mpr hw'))
  · intro n hW hW' hcond
    rw [htaken] at hW hW'
    rw [hgiven] at hcond
    exact h.ready n hW hW' (hcond.imp_right fun ⟨h1, h2⟩ => ⟨h1, fun h3 => h2 ((hr _).mpr h3)⟩)

/-- **A push wins the write cursor.** Its ticket is the write cursor's, the cell of the ticket
is empty for it, and the push is taken in the history with room in the FIFO. -/
theorem Inv.claim_push (h : Inv entrySize s L) (hi : s.threads[i]? = some th) {x : T}
    {pos : VersionedIndex} (hpc : th.pc = .cas (.push x) pos) (hcur : s.queue.writeCursor = pos)
    (hwrap : ((taken L).length + 1) / s.queue.capacity < 2 ^ 32) :
    Inv entrySize ⟨{ s.queue with writeCursor := s.queue.nextPosition pos },
      s.threads.set i { th with pc := .commit (.push x) pos }⟩ (L ++ [(i, .push x, .pushed true)]) := by
  have hok := h.threads i th hi
  unfold ThreadOk at hok
  simp only [hpc, Op.ticket] at hok
  obtain ⟨⟨t, ht, rfl, hcl⟩, hd⟩ := hok
  have hbound : (taken L).length / s.queue.capacity < 2 ^ 32 :=
    lt_of_le_of_lt (Nat.div_le_div_right (Nat.le_succ _)) hwrap
  -- the cursor is still at the ticket the thread loaded: no lap of versions went by
  have htW : t = (taken L).length :=
    VersionedIndex.ofTicket_injective (lt_of_le_of_lt (Nat.div_le_div_right ht) hbound) hbound
      (hcur.symm.trans h.write)
  subst htW
  obtain ⟨hc, hroom⟩ := hcl rfl
  have hRW := h.given_le
  have hlt : (taken L).length < (given L).length + s.queue.capacity := by
    rcases hroom with h1 | ⟨h1, -⟩ <;> omega
  have hcell := h.ready _ le_rfl (by omega) hroom
  have htk : taken (L ++ [(i, .push x, .pushed true)]) = taken L ++ [x] := by
    rw [taken_append, taken_pushed]
  have hgv : given (L ++ [(i, .push x, .pushed true)]) = given L := by
    rw [given_append, given_pushed, List.append_nil]
  -- the cells being built: those of before and the winner's
  have hw_mono : ∀ m, s.Writing m → System.Writing ⟨{ s.queue with
      writeCursor := s.queue.nextPosition (.ofTicket s.queue.capacity (taken L).length) },
      s.threads.set i { th with pc := .commit (.push x) (.ofTicket s.queue.capacity (taken L).length) }⟩ m := by
    intro m hm
    rw [System.writing_iff hi] at hm
    rw [System.writing_set_iff hi]
    exact .inr (hm.resolve_left fun ⟨y, hy⟩ => by rw [hpc] at hy; cases hy)
  have hw_new : ∀ m, System.Writing ⟨{ s.queue with
      writeCursor := s.queue.nextPosition (.ofTicket s.queue.capacity (taken L).length) },
      s.threads.set i { th with pc := .commit (.push x) (.ofTicket s.queue.capacity (taken L).length) }⟩ m →
      s.Writing m ∨ VersionedIndex.ofTicket s.queue.capacity (taken L).length = .ofTicket s.queue.capacity m := by
    intro m hm
    rw [System.writing_set_iff hi] at hm
    rcases hm with ⟨y, hy⟩ | ⟨j, c, -, hj, hb⟩
    · injection hy with hop hpos
      exact .inr hpos
    · exact .inl ⟨j, c, hj, hb⟩
  have hr : ∀ m, System.Reading ⟨{ s.queue with
      writeCursor := s.queue.nextPosition (.ofTicket s.queue.capacity (taken L).length) },
      s.threads.set i { th with pc := .commit (.push x) (.ofTicket s.queue.capacity (taken L).length) }⟩ m ↔
      s.Reading m :=
    System.reading_set_of_not _ rfl hi (fun pos hp => by rw [Pc.Takes, hpc] at hp; cases hp)
      (fun pos hp => by cases hp)
  obtain ⟨F, hF, hFc, hFi⟩ := h.history
  have hroomF : F.items.length < F.capacity := by
    rw [hFi, hFc, List.length_drop]
    omega
  refine ⟨h.k_pos, h.k_dvd, h.capacity_le, h.count, h.null, ?_, by rw [hgv]; exact h.read,
    ⟨(F.push x).1, ?_, by rw [BoundedFifo.capacity_push, hFc], ?_⟩, ?_, ?_, ?_, ?_, ?_⟩
  · show s.queue.nextPosition _ = _
    rw [nextPosition_ofTicket hc, htk, List.length_append, List.length_singleton]
  · rw [List.map_append]
    exact .snoc hF (.push_taken x hroomF)
  · rw [(BoundedFifo.push_of_lt hroomF x).1, hFi, htk, hgv, List.drop_append_of_le_length hRW]
  · intro j c hj
    rcases getElem?_set_eq_some hj with ⟨rfl, rfl⟩ | ⟨hne, hj⟩
    · -- the winner builds the cell of its ticket
      unfold ThreadOk
      refine ⟨(taken L).length, rfl, by rw [hgv]; exact hRW, by rw [htk]; simp, by rw [htk]; simp,
        hcell, by rw [mine_append_self, hd]⟩
    · refine (h.threads j c hj).transport hRW rfl (mine_append_ne _ hne _) ⟨[x], htk⟩
        (by rw [hgv]) (fun op t hcpc ht hcl' ht' => ?_) (fun _ _ _ hR _ => ⟨by rw [hgv]; exact hR, rfl⟩)
        (fun r hcpc _ hwin => ⟨?_, rfl⟩)
      · cases op with
        | push y =>
            simp only [Op.ticket, htk, List.length_append, List.length_singleton] at ht ht'
            omega
        | pop =>
            simp only [Op.ticket, hgv] at ht ht' hcl'
            obtain ⟨h1, h2⟩ := hcl' ht'
            refine ⟨by rw [htk, hgv, List.length_append]; omega, fun hw' => ?_⟩
            rw [hgv] at hw'
            rcases hw_new _ hw' with hw'' | heq
            · exact h2 hw''
            · have := VersionedIndex.ofTicket_injective hbound
                (lt_of_le_of_lt (Nat.div_le_div_right hRW) hbound) heq
              omega
      · -- a pop of the lap before is still in progress, so the push had room a lap ahead of it
        have hrd : s.Reading r := ⟨j, c, hj, hcpc⟩
        rw [htk, List.length_append, List.length_singleton]
        rcases hroom with h1 | ⟨-, h2⟩
        · omega
        · have : r ≠ (taken L).length - s.queue.capacity := fun hr' => h2 (hr' ▸ hrd)
          omega
  · intro pos'
    refine unique_set (h.writers_unique pos') (fun hb j c hne hj hbc => ?_)
    obtain ⟨y, hy⟩ := hb
    injection hy with hop hpos
    obtain ⟨t', -, ht', -, -, hlt', -⟩ := (h.threads j c hj).of_builds hbc
    have := VersionedIndex.ofTicket_injective hbound
      (lt_of_le_of_lt (Nat.div_le_div_right hlt'.le) hbound) (hpos.trans ht')
    omega
  · intro pos'
    exact unique_set (h.readers_unique pos') (fun ht' => by cases ht')
  · intro m hR hW hnw
    rw [htk, List.length_append, List.length_singleton] at hW
    rw [hgv] at hR
    have hmW : m ≠ (taken L).length := by
      rintro rfl
      exact hnw ⟨i, _, List.getElem?_set_self (List.getElem?_eq_some_iff.mp hi).1, x, rfl⟩
    rw [htk, List.getElem?_append_left (by omega)]
    exact h.committed m hR (by omega) (fun hw' => hnw (hw_mono m hw'))
  · intro n hW hW' hcond
    dsimp only at hW' hcond
    rw [htk, List.length_append, List.length_singleton] at hW hW'
    rw [hgv] at hcond
    have hn : n < (taken L).length + s.queue.capacity := by
      rcases hcond with h1 | ⟨h1, -⟩ <;> omega
    exact h.ready n (by omega) hn (hcond.imp_right fun ⟨h1, h2⟩ => ⟨h1, fun h3 => h2 ((hr _).mpr h3)⟩)

/-- **A pop wins the read cursor.** Its ticket is the read cursor's, the cell of the ticket is
committed by its push, and the pop takes the oldest value of the FIFO in the history. -/
theorem Inv.claim_pop (h : Inv entrySize s L) (hi : s.threads[i]? = some th) {pos : VersionedIndex}
    (hpc : th.pc = .cas .pop pos) (hcur : s.queue.readCursor = pos)
    (hwrap : (taken L).length / s.queue.capacity < 2 ^ 32) :
    Inv entrySize ⟨{ s.queue with readCursor := s.queue.nextPosition pos },
      s.threads.set i { th with pc := .commit .pop pos }⟩
      (L ++ [(i, .pop, .popped (s.queue.elements[s.queue.indexTransform entrySize pos]?.bind (·.value)))]) := by
  have hok := h.threads i th hi
  unfold ThreadOk at hok
  simp only [hpc, Op.ticket] at hok
  obtain ⟨⟨t, ht, rfl, hcl⟩, hd⟩ := hok
  have hRW := h.given_le
  have hWR := h.taken_le
  have hbound : (given L).length / s.queue.capacity < 2 ^ 32 :=
    lt_of_le_of_lt (Nat.div_le_div_right hRW) hwrap
  -- the cursor is still at the ticket the thread loaded
  have htR : t = (given L).length :=
    VersionedIndex.ofTicket_injective (lt_of_le_of_lt (Nat.div_le_div_right ht) hbound) hbound
      (hcur.symm.trans h.read)
  subst htR
  obtain ⟨hlt, hnw⟩ := hcl rfl
  have hc : 0 < s.queue.capacity := by omega
  have hcell := h.committed _ le_rfl hlt hnw
  have hv : (taken L)[(given L).length]? = some (taken L)[(given L).length] :=
    List.getElem?_eq_getElem hlt
  -- the pop's reply is the value committed in its cell
  have hval : s.queue.elements[s.queue.indexTransform entrySize
      (.ofTicket s.queue.capacity (given L).length)]?.bind (·.value) =
      some (taken L)[(given L).length] := by
    change (s.cell entrySize (given L).length).bind (·.value) = _
    rw [hcell, Option.bind_some, Entry.value_expected, hv]
  rw [hval]
  have htk : taken (L ++ [(i, .pop, .popped (some (taken L)[(given L).length]))]) = taken L := by
    rw [taken_append, taken_popped, List.append_nil]
  have hgv : given (L ++ [(i, .pop, .popped (some (taken L)[(given L).length]))]) =
      given L ++ [(taken L)[(given L).length]] := by
    rw [given_append, given_popped]
    rfl
  have hw : ∀ m, System.Writing ⟨{ s.queue with
      readCursor := s.queue.nextPosition (.ofTicket s.queue.capacity (given L).length) },
      s.threads.set i { th with pc := .commit .pop (.ofTicket s.queue.capacity (given L).length) }⟩ m ↔
      s.Writing m :=
    System.writing_set_of_not _ rfl hi (fun pos ⟨_, hp⟩ => by rw [hpc] at hp; cases hp)
      (fun pos ⟨_, hp⟩ => by cases hp)
  -- the cells being taken: those of before and the winner's
  have hr_mono : ∀ m, s.Reading m → System.Reading ⟨{ s.queue with
      readCursor := s.queue.nextPosition (.ofTicket s.queue.capacity (given L).length) },
      s.threads.set i { th with pc := .commit .pop (.ofTicket s.queue.capacity (given L).length) }⟩ m := by
    intro m hm
    rw [System.reading_iff hi] at hm
    rw [System.reading_set_iff hi]
    exact .inr (hm.resolve_left fun hp => by rw [Pc.Takes, hpc] at hp; cases hp)
  have hr_new : ∀ m, System.Reading ⟨{ s.queue with
      readCursor := s.queue.nextPosition (.ofTicket s.queue.capacity (given L).length) },
      s.threads.set i { th with pc := .commit .pop (.ofTicket s.queue.capacity (given L).length) }⟩ m →
      s.Reading m ∨ VersionedIndex.ofTicket s.queue.capacity (given L).length = .ofTicket s.queue.capacity m := by
    intro m hm
    rw [System.reading_set_iff hi] at hm
    rcases hm with hp | ⟨j, c, -, hj, htc⟩
    · injection hp with hop hpos
      exact .inr hpos
    · exact .inl ⟨j, c, hj, htc⟩
  have hrd : System.Reading ⟨{ s.queue with
      readCursor := s.queue.nextPosition (.ofTicket s.queue.capacity (given L).length) },
      s.threads.set i { th with pc := .commit .pop (.ofTicket s.queue.capacity (given L).length) }⟩
      (given L).length :=
    ⟨i, _, List.getElem?_set_self (List.getElem?_eq_some_iff.mp hi).1, rfl⟩
  obtain ⟨F, hF, hFc, hFi⟩ := h.history
  have hFi' : F.items = (taken L)[(given L).length] :: (taken L).drop ((given L).length + 1) := by
    rw [hFi, List.drop_eq_getElem_cons hlt]
  refine ⟨h.k_pos, h.k_dvd, h.capacity_le, h.count, h.null, by rw [htk]; exact h.write, ?_,
    ⟨(BoundedFifo.pop F).1, ?_, by rw [BoundedFifo.capacity_pop, hFc], ?_⟩, ?_, ?_, ?_, ?_, ?_⟩
  · show s.queue.nextPosition _ = _
    rw [nextPosition_ofTicket hc, hgv, List.length_append, List.length_singleton]
  · rw [List.map_append]
    exact .snoc hF (.pop_oldest hFi')
  · rw [(BoundedFifo.pop_of_cons hFi').1, htk, hgv, List.length_append, List.length_singleton]
  · intro j c hj
    rcases getElem?_set_eq_some hj with ⟨rfl, rfl⟩ | ⟨hne, hj⟩
    · -- the winner takes the committed cell of its ticket
      unfold ThreadOk
      dsimp only
      refine ⟨(given L).length, rfl, by rw [hgv]; simp, by rw [htk]; omega, by rw [htk]; exact hcell,
        by rw [htk, hv, mine_append_self, hd]⟩
    · refine (h.threads j c hj).transport hRW rfl (mine_append_ne _ hne _) ⟨[], by rw [htk, List.append_nil]⟩
        (by rw [hgv]; simp) (fun op t hcpc ht hcl' ht' => ?_) (fun y t hcpc hR _ => ⟨?_, rfl⟩)
        (fun _ _ _ hwin => ⟨by rw [htk]; exact hwin, rfl⟩)
      · cases op with
        | push y =>
            simp only [Op.ticket, htk] at ht' hcl'
            obtain ⟨hc', hroom⟩ := hcl' ht'
            refine ⟨hc', ?_⟩
            simp only [htk, hgv, List.length_append, List.length_singleton]
            rcases hroom with h1 | ⟨h1, h2⟩
            · exact .inl h1
            · refine .inr ⟨by omega, fun hrd' => ?_⟩
              rcases hr_new _ hrd' with h3 | heq
              · exact h2 h3
              · have := VersionedIndex.ofTicket_injective hbound
                  (lt_of_le_of_lt (Nat.div_le_div_right (Nat.sub_le _ _)) hwrap) heq
                omega
        | pop =>
            simp only [Op.ticket, hgv, List.length_append, List.length_singleton] at ht ht'
            omega
      · -- a push of the read cursor's ticket would have left its cell empty
        have hne' : t ≠ (given L).length := by
          rintro rfl
          exact hnw ⟨j, c, hj, y, hcpc⟩
        rw [hgv, List.length_append, List.length_singleton]
        omega
  · intro pos'
    exact unique_set (h.writers_unique pos') (fun ⟨_, hp⟩ => by cases hp)
  · intro pos'
    refine unique_set (h.readers_unique pos') (fun htc j c hne hj htc' => ?_)
    injection htc with hop hpos
    obtain ⟨r, hr, hrR, -, -, -⟩ := (h.threads j c hj).of_takes htc'
    have := VersionedIndex.ofTicket_injective hbound
      (lt_of_le_of_lt (Nat.div_le_div_right (by omega : r ≤ (taken L).length)) hwrap) (hpos.trans hr)
    omega
  · intro m hR hW hnw
    rw [htk] at hW ⊢
    rw [hgv, List.length_append, List.length_singleton] at hR
    exact h.committed m (by omega) hW (fun hw' => hnw ((hw m).mpr hw'))
  · intro n hW hW' hcond
    dsimp only at hW' hcond
    rw [htk] at hW hW'
    rw [hgv, List.length_append, List.length_singleton] at hcond
    refine h.ready n hW hW' (hcond.imp_right fun ⟨h1, h2⟩ => ?_)
    have hne : n - s.queue.capacity ≠ (given L).length := fun heq => h2 (heq ▸ hrd)
    exact ⟨by omega, fun h3 => h2 (hr_mono _ h3)⟩

/-- **A push builds the cell it won.** The cell is committed with the value at the version of
the ticket, and the push returns `true`, as the history says. -/
theorem Inv.commit_push (h : Inv entrySize s L) (hi : s.threads[i]? = some th) {x : T}
    {pos : VersionedIndex} (hpc : th.pc = .commit (.push x) pos)
    (hwrap : (taken L).length / s.queue.capacity < 2 ^ 32) :
    Inv entrySize ⟨{ s.queue with
        elements := s.queue.elements.set (s.queue.indexTransform entrySize pos)
          ⟨⟨pos.version, .committed⟩, some x⟩ },
      s.threads.set i { th with pc := .idle, done := th.done ++ [(.push x, .pushed true)] }⟩ L := by
  have hok := h.threads i th hi
  unfold ThreadOk at hok
  simp only [hpc] at hok
  obtain ⟨t, rfl, hR, hW, hx, hcell, hd⟩ := hok
  have hRW := h.given_le
  have hWR := h.taken_le
  have hc : 0 < s.queue.capacity := by omega
  have hcells := h.cell_set hc hcell ⟨⟨(VersionedIndex.ofTicket s.queue.capacity t).version, .committed⟩,
    some x⟩ (s.threads.set i { th with pc := .idle, done := th.done ++ [(.push x, .pushed true)] })
  have hentry : (⟨⟨(VersionedIndex.ofTicket s.queue.capacity t).version, .committed⟩, some x⟩ : Entry T) =
      Entry.expected (.ofTicket s.queue.capacity t) (taken L)[t]? := by
    rw [hx]
    rfl
  -- the cells being built: those of the other threads
  have hw_sub : ∀ m, System.Writing ⟨{ s.queue with
      elements := s.queue.elements.set (s.queue.indexTransform entrySize (.ofTicket s.queue.capacity t))
        ⟨⟨(VersionedIndex.ofTicket s.queue.capacity t).version, .committed⟩, some x⟩ },
      s.threads.set i { th with pc := .idle, done := th.done ++ [(.push x, .pushed true)] }⟩ m →
      s.Writing m := by
    intro m hm
    rw [System.writing_set_iff hi] at hm
    rcases hm with ⟨_, hp⟩ | ⟨j, c, -, hj, hb⟩
    · cases hp
    · exact ⟨j, c, hj, hb⟩
  have hw_other : ∀ m, s.Writing m → m < (taken L).length → m ≠ t → System.Writing ⟨{ s.queue with
      elements := s.queue.elements.set (s.queue.indexTransform entrySize (.ofTicket s.queue.capacity t))
        ⟨⟨(VersionedIndex.ofTicket s.queue.capacity t).version, .committed⟩, some x⟩ },
      s.threads.set i { th with pc := .idle, done := th.done ++ [(.push x, .pushed true)] }⟩ m := by
    intro m hm hmW hmt
    rw [System.writing_iff hi] at hm
    rw [System.writing_set_iff hi]
    refine .inr (hm.resolve_left fun ⟨y, hy⟩ => hmt ?_)
    rw [hpc] at hy
    injection hy with hop hpos
    exact VersionedIndex.ofTicket_injective (lt_of_le_of_lt (Nat.div_le_div_right hmW.le) hwrap)
      (lt_of_le_of_lt (Nat.div_le_div_right hW.le) hwrap) hpos.symm
  have hr : ∀ m, System.Reading ⟨{ s.queue with
      elements := s.queue.elements.set (s.queue.indexTransform entrySize (.ofTicket s.queue.capacity t))
        ⟨⟨(VersionedIndex.ofTicket s.queue.capacity t).version, .committed⟩, some x⟩ },
      s.threads.set i { th with pc := .idle, done := th.done ++ [(.push x, .pushed true)] }⟩ m ↔
      s.Reading m :=
    System.reading_set_of_not _ rfl hi (fun pos hp => by rw [Pc.Takes, hpc] at hp; cases hp)
      (fun pos hp => by cases hp)
  refine ⟨h.k_pos, h.k_dvd, h.capacity_le, h.count, fun h0 => absurd h0 hc.ne', h.write, h.read,
    h.history, ?_, ?_, ?_, ?_, ?_⟩
  · intro j c hj
    rcases getElem?_set_eq_some hj with ⟨rfl, rfl⟩ | ⟨hne, hjs⟩
    · unfold ThreadOk
      exact hd
    · refine (h.threads j c hjs).transport hRW rfl rfl ⟨[], by simp⟩ le_rfl
        (fun op t' _ _ hcl' ht' => ?_) (fun y t' hcpc hR' hW' => ⟨hR', ?_⟩)
        (fun r hcpc hr' hwin => ⟨hwin, ?_⟩)
      · cases op with
        | push y =>
            obtain ⟨hc', hroom⟩ := hcl' ht'
            exact ⟨hc', hroom.imp_right fun ⟨h1, h2⟩ => ⟨h1, fun h3 => h2 ((hr _).mp h3)⟩⟩
        | pop =>
            obtain ⟨h1, h2⟩ := hcl' ht'
            exact ⟨h1, fun h3 => h2 (hw_sub _ h3)⟩
      · -- another push holds another ticket of the window, at another position
        have hne' : t' ≠ t := by
          rintro rfl
          exact hne (h.writers_unique _ j i c th hjs hi ⟨y, hcpc⟩ ⟨x, hpc⟩)
        rw [hcells, if_neg (mod_ne_of_ne hne' (by omega) (by omega))]
      · -- a pop in progress is less than a lap behind, at another position
        rw [hcells, if_neg (mod_ne_of_ne (by omega) (by omega) (by omega))]
  · intro pos'
    exact unique_set (h.writers_unique pos') (fun ⟨_, hp⟩ => by cases hp)
  · intro pos'
    exact unique_set (h.readers_unique pos') (fun hp => by cases hp)
  · intro m hR' hW' hnw
    by_cases hmt : m = t
    · subst hmt
      rw [hcells, if_pos rfl, hentry]
    · rw [hcells, if_neg (mod_ne_of_ne hmt (by omega) (by omega))]
      exact h.committed m hR' hW' (fun hw' => hnw (hw_other m hw' hW' hmt))
  · intro n hW' hW'' hcond
    dsimp only at hW'' hcond
    by_cases hmod : n % s.queue.capacity = t % s.queue.capacity
    · -- the position of `t` a lap on: its pop has not started, so the condition fails
      exfalso
      have hge : t + s.queue.capacity ≤ n := by
        by_contra hlt
        exact mod_ne_of_lt_of_lt (by omega : t < n) (by omega) hmod.symm
      rcases hcond with h1 | ⟨h1, -⟩ <;> omega
    · rw [hcells, if_neg hmod]
      exact h.ready n hW' hW'' (hcond.imp_right fun ⟨h1, h2⟩ => ⟨h1, fun h3 => h2 ((hr _).mpr h3)⟩)

/-- **A pop takes the cell it won.** The cell is left empty at the version of the next lap, and
the pop returns the value the history gave it. -/
theorem Inv.commit_pop (h : Inv entrySize s L) (hi : s.threads[i]? = some th) {pos : VersionedIndex}
    (hpc : th.pc = .commit .pop pos) (hwrap : (taken L).length / s.queue.capacity < 2 ^ 32) :
    Inv entrySize ⟨{ s.queue with
        elements := s.queue.elements.set (s.queue.indexTransform entrySize pos)
          ⟨⟨pos.version + 1, .emptySlot⟩, none⟩ },
      s.threads.set i { th with
        pc := .idle,
        done := th.done ++
          [(.pop, .popped (s.queue.elements[s.queue.indexTransform entrySize pos]?.bind (·.value)))] }⟩
      L := by
  have hok := h.threads i th hi
  unfold ThreadOk at hok
  simp only [hpc] at hok
  obtain ⟨r, rfl, hr, hwin, hcell, hd⟩ := hok
  have hRW := h.given_le
  have hWR := h.taken_le
  have hc : 0 < s.queue.capacity := by omega
  have hval : s.queue.elements[s.queue.indexTransform entrySize
      (.ofTicket s.queue.capacity r)]?.bind (·.value) = (taken L)[r]? := by
    change (s.cell entrySize r).bind (·.value) = _
    rw [hcell, Option.bind_some, Entry.value_expected]
  rw [hval]
  have hcells := h.cell_set hc hcell
    ⟨⟨(VersionedIndex.ofTicket s.queue.capacity r).version + 1, .emptySlot⟩, none⟩
    (s.threads.set i { th with pc := .idle, done := th.done ++ [(.pop, .popped (taken L)[r]?)] })
  have hentry : (⟨⟨(VersionedIndex.ofTicket s.queue.capacity r).version + 1, .emptySlot⟩, none⟩ :
      Entry T) = Entry.expected (.ofTicket s.queue.capacity (r + s.queue.capacity)) none := by
    rw [VersionedIndex.ofTicket_add_cap hc]
    rfl
  have hw : ∀ m, System.Writing ⟨{ s.queue with
      elements := s.queue.elements.set (s.queue.indexTransform entrySize (.ofTicket s.queue.capacity r))
        ⟨⟨(VersionedIndex.ofTicket s.queue.capacity r).version + 1, .emptySlot⟩, none⟩ },
      s.threads.set i { th with pc := .idle, done := th.done ++ [(.pop, .popped (taken L)[r]?)] }⟩ m ↔
      s.Writing m :=
    System.writing_set_of_not _ rfl hi (fun pos ⟨_, hp⟩ => by rw [hpc] at hp; cases hp)
      (fun pos ⟨_, hp⟩ => by cases hp)
  -- the cells being taken: those of the other threads
  have hr_sub : ∀ m, System.Reading ⟨{ s.queue with
      elements := s.queue.elements.set (s.queue.indexTransform entrySize (.ofTicket s.queue.capacity r))
        ⟨⟨(VersionedIndex.ofTicket s.queue.capacity r).version + 1, .emptySlot⟩, none⟩ },
      s.threads.set i { th with pc := .idle, done := th.done ++ [(.pop, .popped (taken L)[r]?)] }⟩ m →
      s.Reading m := by
    intro m hm
    rw [System.reading_set_iff hi] at hm
    rcases hm with hp | ⟨j, c, -, hj, htc⟩
    · cases hp
    · exact ⟨j, c, hj, htc⟩
  have hr_other : ∀ m, s.Reading m → m < (taken L).length → m ≠ r → System.Reading ⟨{ s.queue with
      elements := s.queue.elements.set (s.queue.indexTransform entrySize (.ofTicket s.queue.capacity r))
        ⟨⟨(VersionedIndex.ofTicket s.queue.capacity r).version + 1, .emptySlot⟩, none⟩ },
      s.threads.set i { th with pc := .idle, done := th.done ++ [(.pop, .popped (taken L)[r]?)] }⟩ m := by
    intro m hm hmW hmr
    rw [System.reading_iff hi] at hm
    rw [System.reading_set_iff hi]
    refine .inr (hm.resolve_left fun hp => hmr ?_)
    rw [Pc.Takes, hpc] at hp
    injection hp with hop hpos
    exact VersionedIndex.ofTicket_injective (lt_of_le_of_lt (Nat.div_le_div_right hmW.le) hwrap)
      (lt_of_le_of_lt (Nat.div_le_div_right (by omega : r ≤ (taken L).length)) hwrap) hpos.symm
  refine ⟨h.k_pos, h.k_dvd, h.capacity_le, h.count, fun h0 => absurd h0 hc.ne', h.write, h.read,
    h.history, ?_, ?_, ?_, ?_, ?_⟩
  · intro j c hj
    rcases getElem?_set_eq_some hj with ⟨rfl, rfl⟩ | ⟨hne, hjs⟩
    · unfold ThreadOk
      exact hd
    · refine (h.threads j c hjs).transport hRW rfl rfl ⟨[], by simp⟩ le_rfl
        (fun op t' _ _ hcl' ht' => ?_) (fun y t hcpc hR' hW' => ⟨hR', ?_⟩)
        (fun r' hcpc hr' hwin' => ⟨hwin', ?_⟩)
      · cases op with
        | push y =>
            obtain ⟨hc', hroom⟩ := hcl' ht'
            exact ⟨hc', hroom.imp_right fun ⟨h1, h2⟩ => ⟨h1, fun h3 => h2 (hr_sub _ h3)⟩⟩
        | pop =>
            obtain ⟨h1, h2⟩ := hcl' ht'
            exact ⟨h1, fun h3 => h2 ((hw _).mp h3)⟩
      · -- a push in progress holds a ticket not yet popped, at another position
        rw [hcells, if_neg (mod_ne_of_ne (by omega) (by omega) (by omega))]
      · -- another pop holds another ticket less than a lap behind
        have hne' : r' ≠ r := by
          rintro rfl
          exact hne (h.readers_unique _ j i c th hjs hi hcpc hpc)
        rw [hcells, if_neg (mod_ne_of_ne hne' (by omega) (by omega))]
  · intro pos'
    exact unique_set (h.writers_unique pos') (fun ⟨_, hp⟩ => by cases hp)
  · intro pos'
    exact unique_set (h.readers_unique pos') (fun hp => by cases hp)
  · intro m hR' hW' hnw
    rw [hcells, if_neg (mod_ne_of_ne (by omega) (by omega) (by omega))]
    exact h.committed m hR' hW' (fun hw' => hnw ((hw m).mpr hw'))
  · intro n hW' hW'' hcond
    dsimp only at hW'' hcond
    by_cases hmod : n % s.queue.capacity = r % s.queue.capacity
    · -- the position of `r` a lap on: now empty for it
      have hn : n = r + s.queue.capacity := by
        by_contra hne
        rcases Nat.lt_or_gt_of_ne hne with hlt | hlt
        · exact mod_ne_of_lt_of_lt (by omega : r < n) hlt hmod.symm
        · exact mod_ne_of_lt_of_lt hlt (by omega : n < r + s.queue.capacity + s.queue.capacity)
            (by rw [Nat.add_mod_right, hmod])
      subst hn
      rw [hcells, if_pos hmod, hentry]
    · rw [hcells, if_neg hmod]
      by_cases hn : n < s.queue.capacity
      · exact h.ready n hW' hW'' (.inl hn)
      obtain ⟨h1, h2⟩ := hcond.resolve_left hn
      refine h.ready n hW' hW'' (.inr ⟨h1, fun h3 => h2 (hr_other _ h3 (by omega) fun heq => hmod ?_)⟩)
      rw [← Nat.sub_add_cancel (Nat.le_of_not_lt hn), heq, Nat.add_mod_right]

end Steps

/-! ## Every run -/

section Run

variable {s : System T} {L : List (Event T)}

theorem System.step_none {i : Nat} (hi : s.threads[i]? = none) (b : Bool) :
    System.step entrySize s (i, b) = (s, none) := by
  simp only [System.step, hi]

theorem System.step_some {i : Nat} {th : Thread T} (hi : s.threads[i]? = some th) (b : Bool) :
    System.step entrySize s (i, b) =
      (⟨(th.step entrySize s.queue b).1, s.threads.set i (th.step entrySize s.queue b).2.1⟩,
        (th.step entrySize s.queue b).2.2.map (i, ·)) := by
  simp only [System.step, hi]

/-- No step changes `_capacity`. -/
@[simp] theorem Thread.capacity_step (q : MpmcQueue T) (b : Bool) (th : Thread T) :
    (th.step entrySize q b).1.capacity = q.capacity := by
  unfold Thread.step
  split
  · split <;> rfl
  · rfl
  · split <;> rfl
  · rename_i op pos _
    split
    · cases op <;> rfl
    · rfl
  · rename_i op pos _
    cases op <;> rfl

@[simp] theorem System.capacity_step (s : System T) (e : Nat × Bool) :
    (System.step entrySize s e).1.queue.capacity = s.queue.capacity := by
  unfold System.step
  split
  · rfl
  · exact Thread.capacity_step _ _ _

theorem ThreadOk.done_eq {i : Nat} {th : Thread T} (hok : ThreadOk entrySize s L i th)
    (hth : ∀ op pos, th.pc ≠ .commit op pos) : th.done = mine L i := by
  unfold ThreadOk at hok
  cases hpc : th.pc with
  | idle => simp only [hpc] at hok; exact hok
  | check op pos => simp only [hpc] at hok; exact hok.2
  | reload op pos => simp only [hpc] at hok; exact hok.2
  | cas op pos => simp only [hpc] at hok; exact hok.2
  | commit op pos => exact absurd hpc (hth op pos)

/-- **One step of any thread keeps the invariant**, as long as the pushes taken stay below
`2^32` laps. -/
theorem Inv.step (h : Inv entrySize s L) (e : Nat × Bool)
    (hwrap : (taken (L ++ (System.step entrySize s e).2.toList)).length / s.queue.capacity < 2 ^ 32) :
    Inv entrySize (System.step entrySize s e).1 (L ++ (System.step entrySize s e).2.toList) := by
  obtain ⟨i, b⟩ := e
  cases hi : s.threads[i]? with
  | none =>
      rw [System.step_none hi]
      simpa using h
  | some th =>
      rw [System.step_some hi] at hwrap ⊢
      have hbound : (taken L).length / s.queue.capacity < 2 ^ 32 :=
        lt_of_le_of_lt (Nat.div_le_div_right (by rw [taken_append, List.length_append]; omega)) hwrap
      have hok := h.threads i th hi
      -- a thread that holds no cell has returned what the history says
      have hdone : (∀ op pos, th.pc ≠ .commit op pos) → th.done = mine L i := hok.done_eq
      cases hpc : th.pc with
      | idle =>
          cases hcalls : th.calls with
          | nil =>
              simp only [Thread.step, hpc, hcalls, Option.map_none, Option.toList_none, List.append_nil]
              refine h.move hi (by simp [hpc]) (by simp [hpc]) rfl rfl (fun _ _ => rfl) (fun _ hF => hF) hok
          | cons op calls =>
              simp only [Thread.step, hpc, hcalls, Option.map_none, Option.toList_none, List.append_nil]
              refine h.move hi (by simp [hpc]) (by simp) rfl rfl (fun _ _ => rfl) (fun _ hF => hF) ?_
              unfold ThreadOk
              exact ⟨⟨op.ticket L, le_rfl, h.cursor_eq op⟩, hdone (by simp [hpc])⟩
      | check op pos =>
          unfold ThreadOk at hok
          simp only [hpc] at hok
          obtain ⟨⟨t, ht, hpos⟩, hd⟩ := hok
          simp only [Thread.step, hpc, Option.map_none, Option.toList_none, List.append_nil]
          by_cases hr : op.ready entrySize s.queue pos = true
          · -- the test passed: if the cursor is still at `t`, the cell is ready for it
            rw [if_pos hr]
            refine h.move hi (by simp [hpc]) (by simp) rfl rfl (fun _ _ => rfl) (fun _ hF => hF) ?_
            unfold ThreadOk
            refine ⟨⟨t, ht, hpos, fun htt => h.claimable_of_ready op ?_⟩, hd⟩
            rw [← htt, ← hpos]
            exact hr
          · rw [if_neg hr]
            refine h.move hi (by simp [hpc]) (by simp) rfl rfl (fun _ _ => rfl) (fun _ hF => hF) ?_
            unfold ThreadOk
            exact ⟨⟨t, ht, hpos⟩, hd⟩
      | reload op pos =>
          have hd := hdone (by simp [hpc])
          simp only [Thread.step, hpc]
          by_cases heq : pos = op.cursor s.queue
          · -- the cursor has not moved: the call returns `false`
            rw [if_pos heq]
            simp only [Option.map_some, Option.toList_some]
            refine h.move hi (by simp [hpc]) (by simp)
              (by rw [taken_append, taken_refused, List.append_nil])
              (by rw [given_append, given_refused, List.append_nil]) (fun j hj => mine_append_ne _ hj _)
              (fun F hF => ?_) ?_
            · rw [List.map_append]
              cases op with
              | push x => exact .snoc hF (.push_refused F x)
              | pop => exact .snoc hF (.pop_nothing F)
            · unfold ThreadOk
              dsimp only
              rw [mine_append_self, hd]
          · rw [if_neg heq]
            simp only [Option.map_none, Option.toList_none, List.append_nil]
            refine h.move hi (by simp [hpc]) (by simp) rfl rfl (fun _ _ => rfl) (fun _ hF => hF) ?_
            unfold ThreadOk
            exact ⟨⟨op.ticket L, le_rfl, h.cursor_eq op⟩, hd⟩
      | cas op pos =>
          have hd := hdone (by simp [hpc])
          simp only [Thread.step, hpc] at hwrap ⊢
          by_cases hcas : b = false ∧ op.cursor s.queue = pos
          · rw [if_pos hcas] at hwrap ⊢
            simp only [Option.map_some, Option.toList_some] at hwrap ⊢
            cases op with
            | push x =>
                have hw' : ((taken L).length + 1) / s.queue.capacity < 2 ^ 32 := by
                  rw [taken_append] at hwrap
                  simpa [Op.call, Op.commit] using hwrap
                exact h.claim_push hi hpc hcas.2 hw'
            | pop => exact h.claim_pop hi hpc hcas.2 hbound
          · -- a failed compare-exchange reloads the cursor into `pos`
            rw [if_neg hcas]
            simp only [Option.map_none, Option.toList_none, List.append_nil]
            refine h.move hi (by simp [hpc]) (by simp) rfl rfl (fun _ _ => rfl) (fun _ hF => hF) ?_
            unfold ThreadOk
            exact ⟨⟨op.ticket L, le_rfl, h.cursor_eq op⟩, hd⟩
      | commit op pos =>
          simp only [Thread.step, hpc, Option.map_none, Option.toList_none, List.append_nil]
          cases op with
          | push x => exact h.commit_push hi hpc hbound
          | pop => exact h.commit_pop hi hpc hbound

theorem reduceOption_cons {α : Type} (o : Option α) (l : List (Option α)) :
    (o :: l).reduceOption = o.toList ++ l.reduceOption := by
  cases o <;> simp

/-- **Every run keeps the invariant**, as long as fewer than `2^32` laps of pushes are taken in
it. The induction is on the schedule, one step of `Inv.step` at a time; the bound holds of
every prefix of the run since the pushes taken only grow. -/
theorem Inv.run (h : Inv entrySize s L) (sched : List (Nat × Bool))
    (hwrap : (taken (L ++ (Run.run (System.step entrySize) s sched).2.reduceOption)).length /
      s.queue.capacity < 2 ^ 32) :
    Inv entrySize (Run.run (System.step entrySize) s sched).1
      (L ++ (Run.run (System.step entrySize) s sched).2.reduceOption) := by
  induction sched generalizing s L with
  | nil => simpa using h
  | cons e sched ih =>
      simp only [Run.run_cons_fst, Run.run_cons_snd, reduceOption_cons, ← List.append_assoc] at hwrap ⊢
      have hcap : (System.step entrySize s e).1.queue.capacity = s.queue.capacity :=
        System.capacity_step s e
      refine ih (h.step e (lt_of_le_of_lt (Nat.div_le_div_right ?_) hwrap)) (by rw [hcap]; exact hwrap)
      rw [taken_append _ (List.reduceOption _), List.length_append]
      omega

end Run

/-! ## Linearizability

What the invariant says of a thread and of the queue once no thread is inside a call. -/

section Linearizable

variable {s : System T} {L : List (Event T)}

/-- A thread has returned its calls of the history, but for the one it is completing. -/
theorem Inv.done_append_pending (h : Inv entrySize s L) {i : Nat} {th : Thread T}
    (hi : s.threads[i]? = some th) : th.done ++ th.pending entrySize s.queue = mine L i := by
  have hok := h.threads i th hi
  unfold Thread.pending
  cases hpc : th.pc with
  | commit op pos =>
      cases op with
      | push x =>
          obtain ⟨t, x', -, hpc', -, -, -, -, hd⟩ := hok.of_builds ⟨x, hpc⟩
          rw [hpc] at hpc'
          cases hpc'
          exact hd
      | pop =>
          obtain ⟨r, rfl, -, -, hcell, hd⟩ := hok.of_takes hpc
          -- the reply is the value of the cell the pop holds
          show th.done ++ [(.pop, .popped ((s.cell entrySize r).bind (·.value)))] = mine L i
          rw [hcell, Option.bind_some, Entry.value_expected]
          exact hd
  | idle | check _ _ | reload _ _ | cas _ _ =>
      show th.done ++ [] = mine L i
      rw [List.append_nil]
      exact hok.done_eq (by simp [hpc])

/-- A thread completing its call holds a cell that still passes the test it passed: empty at
the version of its position for a push, committed for a pop. -/
theorem Inv.ready_of_commit (h : Inv entrySize s L) {i : Nat} {th : Thread T} {op : Op T}
    {pos : VersionedIndex} (hi : s.threads[i]? = some th) (hpc : th.pc = .commit op pos) :
    op.ready entrySize s.queue pos = true := by
  have hok := h.threads i th hi
  cases op with
  | push x =>
      obtain ⟨t, -, rfl, -, -, -, -, hcell, -⟩ := hok.of_builds ⟨x, hpc⟩
      simp [Op.ready, isWritable, cellIs_of_getElem? hcell, Entry.expected]
  | pop =>
      obtain ⟨r, rfl, hr, -, hcell, -⟩ := hok.of_takes hpc
      have hr' : r < (taken L).length := by have := h.given_le; omega
      have hx : (taken L)[r]? = some (taken L)[r] := List.getElem?_eq_getElem hr'
      simp [Op.ready, isReadable, cellIs_of_getElem? hcell, hx, Entry.expected]

/-- A thread completing its call holds the cell of a ticket of the lap before the write cursor:
a push one not yet popped, a pop one already popped. -/
theorem Inv.ticket_of_commit (h : Inv entrySize s L) {i : Nat} {th : Thread T} {op : Op T}
    {pos : VersionedIndex} (hi : s.threads[i]? = some th) (hpc : th.pc = .commit op pos) :
    ∃ t, pos = .ofTicket s.queue.capacity t ∧ (taken L).length ≤ t + s.queue.capacity ∧
      t < (taken L).length ∧ ((given L).length ≤ t ↔ ∃ x, op = .push x) := by
  have hok := h.threads i th hi
  cases op with
  | push x =>
      obtain ⟨t, -, hpos, -, hR, hW, -⟩ := hok.of_builds ⟨x, hpc⟩
      have := h.taken_le
      exact ⟨t, hpos, by omega, hW, iff_of_true hR ⟨x, rfl⟩⟩
  | pop =>
      obtain ⟨r, hpos, hr, hW, -⟩ := hok.of_takes hpc
      have := h.given_le
      exact ⟨r, hpos, hW, by omega, iff_of_false (by omega) (by rintro ⟨_, ⟨⟩⟩)⟩

/-- Two threads completing their calls hold the cells of distinct tickets of one lap, so
distinct cells. -/
theorem Inv.indexTransform_ne (h : Inv entrySize s L) {i j : Nat} {thi thj : Thread T}
    {opi opj : Op T} {posi posj : VersionedIndex} (hi : s.threads[i]? = some thi)
    (hj : s.threads[j]? = some thj) (hij : i ≠ j) (hpi : thi.pc = .commit opi posi)
    (hpj : thj.pc = .commit opj posj) :
    s.queue.indexTransform entrySize posi ≠ s.queue.indexTransform entrySize posj := by
  obtain ⟨ti, rfl, hi1, hi2, hi3⟩ := h.ticket_of_commit hi hpi
  obtain ⟨tj, rfl, hj1, hj2, hj3⟩ := h.ticket_of_commit hj hpj
  -- one ticket is held by one thread: the builders and the takers are unique, and a ticket is
  -- either popped or not
  have hne : ti ≠ tj := by
    rintro rfl
    cases opi with
    | push x =>
        cases opj with
        | push y => exact hij (h.writers_unique _ i j thi thj hi hj ⟨x, hpi⟩ ⟨y, hpj⟩)
        | pop => exact absurd (hi3.mpr ⟨x, rfl⟩) (fun hR => by obtain ⟨_, ⟨⟩⟩ := hj3.mp hR)
    | pop =>
        cases opj with
        | push y => exact absurd (hj3.mpr ⟨y, rfl⟩) (fun hR => by obtain ⟨_, ⟨⟩⟩ := hi3.mp hR)
        | pop => exact hij (h.readers_unique _ i j thi thj hi hj hpi hpj)
  have hc : 0 < s.queue.capacity := by omega
  have hcount : s.queue.elementsCount = s.queue.capacity := by rw [h.count, if_neg hc.ne']
  rw [Ne, indexTransform_ofTicket_eq_iff h.k_pos h.k_dvd hcount hc]
  exact mod_ne_of_ne hne (by omega) (by omega)

/-- **A quiet queue is the one-thread queue.** Once no thread is completing a call, the queue
is in the state `Holds` of the one-thread model, holding the values taken and not popped. -/
theorem Inv.holds_of_quiet (h : Inv entrySize s L)
    (hquiet : ∀ th ∈ s.threads, th.pending entrySize s.queue = []) :
    Holds entrySize s.queue ((taken L).drop (given L).length) := by
  -- no thread holds a cell
  have hnw : ∀ m, ¬ s.Writing m := by
    rintro m ⟨j, th, hj, x, hpc⟩
    have := hquiet th (List.mem_of_getElem? hj)
    simp [Thread.pending, hpc] at this
  have hnr : ∀ m, ¬ s.Reading m := by
    rintro m ⟨j, th, hj, hpc⟩
    unfold Pc.Takes at hpc
    have := hquiet th (List.mem_of_getElem? hj)
    simp [Thread.pending, hpc] at this
  have hRW := h.given_le
  have hWR := h.taken_le
  refine ⟨h.k_pos, h.k_dvd, h.capacity_le, h.count, h.null, by rw [List.length_drop]; omega,
    fun hc => ?_, ?_, fun k hk => ?_⟩
  · rw [h.read]
    exact Nat.mod_lt _ hc
  · -- the write cursor is `W - R` steps after the read cursor
    rw [h.write, h.read, List.length_drop]
    rcases Nat.eq_zero_or_pos s.queue.capacity with hc | hc
    · have hWR' : (taken L).length = (given L).length := by omega
      simp [VersionedIndex.advance, VersionedIndex.ofTicket, hc, hWR']
    · rw [VersionedIndex.advance_ofTicket hc]
      congr 1
      omega
  · rw [h.read, VersionedIndex.advance_ofTicket (by omega), List.getElem?_drop]
    by_cases hkW : (given L).length + k < (taken L).length
    · exact h.committed _ (by omega) hkW (hnw _)
    · -- a cell after the write cursor is empty for its next push
      rw [List.getElem?_eq_none (show (taken L).length ≤ (given L).length + k by omega)]
      refine h.ready _ (by omega) (by omega) ?_
      rcases Nat.lt_or_ge ((given L).length + k) s.queue.capacity with hn | hn
      · exact .inl hn
      · exact .inr ⟨by omega, hnr _⟩

/-- `full()` under the threads: the one cell of a queue of capacity zero, `_capacity` values
taken and not popped, or a pop of the cell's ticket a lap before still moving its value out. -/
theorem Inv.full_iff (h : Inv entrySize s L) :
    s.queue.full entrySize = true ↔ s.queue.capacity = 0 ∨
      (taken L).length = (given L).length + s.queue.capacity ∨
      (s.queue.capacity ≤ (taken L).length ∧ s.Reading ((taken L).length - s.queue.capacity)) := by
  have hRW := h.given_le
  have hWR := h.taken_le
  simp only [full, Bool.not_eq_true', h.write]
  rw [← Bool.not_eq_true]
  constructor
  · intro hw
    by_contra hno
    simp only [not_or, not_and] at hno
    obtain ⟨hc, hfull, hrd⟩ := hno
    -- otherwise the cell of the write cursor is empty for it
    have hcell := h.ready _ le_rfl (by omega) (by
      rcases Nat.lt_or_ge (taken L).length s.queue.capacity with hlt | hge
      · exact .inl hlt
      · exact .inr ⟨by omega, hrd hge⟩)
    simp [isWritable, cellIs_of_getElem? hcell, Entry.expected] at hw
  · intro hfull hw
    obtain ⟨hc, hlt | ⟨hlt, hnr⟩⟩ := h.claimable_of_isWritable hw
    · omega
    · rcases hfull with hc0 | hW | ⟨-, hrd⟩
      · omega
      · omega
      · exact hnr hrd

/-- `empty()` under the threads: every value taken popped, or the push of the read cursor's
ticket still building its cell. -/
theorem Inv.empty_iff (h : Inv entrySize s L) :
    s.queue.empty entrySize = true ↔
      (given L).length = (taken L).length ∨ s.Writing (given L).length := by
  have hRW := h.given_le
  simp only [empty, Bool.not_eq_true', h.read]
  rw [← Bool.not_eq_true]
  constructor
  · intro hr
    by_contra hno
    simp only [not_or] at hno
    obtain ⟨hne, hnw⟩ := hno
    -- otherwise the cell of the read cursor is committed with its value
    have hlt : (given L).length < (taken L).length := by omega
    have hcell := h.committed _ le_rfl hlt hnw
    rw [List.getElem?_eq_getElem hlt] at hcell
    simp [isReadable, cellIs_of_getElem? hcell, Entry.expected] at hr
  · intro hemp hr
    obtain ⟨hlt, hnw⟩ := h.claimable_of_isReadable hr
    rcases hemp with heq | hw
    · omega
    · exact hnw hw

end Linearizable

section Runs

/-- No run changes `_capacity`. -/
theorem System.capacity_run (s : System T) (sched : List (Nat × Bool)) :
    (System.run entrySize s sched).1.queue.capacity = s.queue.capacity :=
  Run.run_inv (System.step entrySize) (P := fun s' => s'.queue.capacity = s.queue.capacity)
    (fun s' e hs => (System.capacity_step s' e).trans hs) s sched rfl

/-- Every run from `MpmcQueue(capacity)` keeps the invariant, under the bound on laps. -/
theorem inv_of_run (hsize : 0 < entrySize) {capacity : Nat}
    (hcap : capacity + kEntryPerCacheLine entrySize ≤ 2 ^ 31 + 1) {programs : List (List (Op T))}
    {sched : List (Nat × Bool)} {s : System T} {L : List (Event T)}
    (hrun : System.run entrySize (System.init entrySize capacity programs) sched = (s, L))
    (hwrap : (taken L).length / (create entrySize T capacity).capacity < 2 ^ 32) :
    Inv entrySize s L := by
  simp only [System.run, Prod.mk.injEq] at hrun
  obtain ⟨rfl, rfl⟩ := hrun
  have h := (inv_init hsize hcap programs).run sched (by rw [List.nil_append]; exact hwrap)
  rwa [List.nil_append] at h

/-- **Every interleaving is linearizable.** In every run of threads making pushes and pops on
`MpmcQueue(capacity)`, under any schedule and any spurious failures of the compare-exchanges,
as long as fewer than `2^32` laps of pushes are taken: the history, each call placed where it
takes effect, is one of a FIFO of capacity `capacity` that may refuse a call, and every thread
has returned its own calls of the history with their replies, but for the one it is completing,
whose reply is already fixed. -/
theorem threads_linearizable (hsize : 0 < entrySize) {capacity : Nat}
    (hcap : capacity + kEntryPerCacheLine entrySize ≤ 2 ^ 31 + 1) {programs : List (List (Op T))}
    {sched : List (Nat × Bool)} {s : System T} {L : List (Event T)}
    (hrun : System.run entrySize (System.init entrySize capacity programs) sched = (s, L))
    (hwrap : (taken L).length / (create entrySize T capacity).capacity < 2 ^ 32) :
    (∃ F : BoundedFifo T,
        BoundedFifo.History (BoundedFifo.empty (create entrySize T capacity).capacity) (L.map Prod.snd) F) ∧
      ∀ (i : Nat) (th : Thread T), s.threads[i]? = some th →
        th.done ++ th.pending entrySize s.queue = mine L i := by
  have h := inv_of_run hsize hcap hrun hwrap
  have hcap' : s.queue.capacity = (create entrySize T capacity).capacity := by
    have hs : (System.run entrySize (System.init entrySize capacity programs) sched).1 = s := by
      rw [hrun]
    rw [← hs, System.capacity_run]
    rfl
  obtain ⟨F, hF, -, -⟩ := h.history
  exact ⟨⟨F, hcap' ▸ hF⟩, fun i th hi => h.done_append_pending hi⟩

theorem threads_linearizable_two_pushes_pop :
    let r := System.run 16 (System.init 16 4 [[.push 1], [.push 2], [.pop]])
      [(0, false), (1, false), (0, false), (1, false), (1, false), (0, false), (0, false),
        (0, false), (0, false), (1, false), (2, false), (2, false), (2, false), (2, false)]
    0 < 16 ∧ 4 + kEntryPerCacheLine 16 ≤ 2 ^ 31 + 1 ∧ r = (r.1, r.2) ∧
      (taken r.2).length / (create 16 Nat 4).capacity < 2 ^ 32 ∧
      ((∃ F : BoundedFifo Nat,
          BoundedFifo.History (BoundedFifo.empty (create 16 Nat 4).capacity) (r.2.map Prod.snd) F) ∧
        ∀ (i : Nat) (th : Thread Nat), r.1.threads[i]? = some th →
          th.done ++ th.pending 16 r.1.queue = mine r.2 i) := by
  intro r
  exact ⟨by decide, by decide, rfl, by decide, threads_linearizable (by decide) (by decide) rfl (by decide)⟩

/-- **A quiet queue holds the FIFO's items.** In every run as in `threads_linearizable`, once no
thread is completing a call, the queue is in the state `Holds` of the one-thread model with the
values taken and not popped: `size()` counts them, and the values popped followed by the values
`contents` reads from the cells are the values of the pushes taken. -/
theorem quiescent_holds (hsize : 0 < entrySize) {capacity : Nat}
    (hcap : capacity + kEntryPerCacheLine entrySize ≤ 2 ^ 31 + 1) {programs : List (List (Op T))}
    {sched : List (Nat × Bool)} {s : System T} {L : List (Event T)}
    (hrun : System.run entrySize (System.init entrySize capacity programs) sched = (s, L))
    (hwrap : (taken L).length / (create entrySize T capacity).capacity < 2 ^ 32)
    (hquiet : ∀ th ∈ s.threads, th.pending entrySize s.queue = []) :
    Holds entrySize s.queue ((taken L).drop (given L).length) ∧
      s.queue.size = (taken L).length - (given L).length ∧
      given L ++ s.queue.contents entrySize = taken L := by
  have h := inv_of_run hsize hcap hrun hwrap
  have hq := h.holds_of_quiet hquiet
  refine ⟨hq, ?_, ?_⟩
  · rw [hq.size_eq, List.length_drop]
  · rw [hq.contents_eq]
    exact h.given_append_items

theorem quiescent_holds_two_pushes_pop :
    let r := System.run 16 (System.init 16 4 [[.push 1], [.push 2], [.pop]])
      [(0, false), (1, false), (0, false), (1, false), (1, false), (0, false), (0, false),
        (0, false), (0, false), (1, false), (2, false), (2, false), (2, false), (2, false)]
    0 < 16 ∧ 4 + kEntryPerCacheLine 16 ≤ 2 ^ 31 + 1 ∧ r = (r.1, r.2) ∧
      (taken r.2).length / (create 16 Nat 4).capacity < 2 ^ 32 ∧
      (∀ th ∈ r.1.threads, th.pending 16 r.1.queue = []) ∧
      (Holds 16 r.1.queue ((taken r.2).drop (given r.2).length) ∧
        r.1.queue.size = (taken r.2).length - (given r.2).length ∧
        given r.2 ++ r.1.queue.contents 16 = taken r.2) := by
  intro r
  have hquiet : ∀ th ∈ r.1.threads, th.pending 16 r.1.queue = [] := by decide
  exact ⟨by decide, by decide, rfl, by decide, hquiet,
    quiescent_holds (by decide) (by decide) rfl (by decide) hquiet⟩

/-- **`full()` and `empty()` under the threads.** In every run as in `threads_linearizable`,
`full()` returns true exactly when the capacity is zero, `_capacity` values are taken and not
popped, or a pop of the write cursor's cell a lap before is still moving its value out; and
`empty()` returns true exactly when every value taken is popped or the push of the read cursor's
ticket is still building its cell. -/
theorem full_empty_of_run (hsize : 0 < entrySize) {capacity : Nat}
    (hcap : capacity + kEntryPerCacheLine entrySize ≤ 2 ^ 31 + 1) {programs : List (List (Op T))}
    {sched : List (Nat × Bool)} {s : System T} {L : List (Event T)}
    (hrun : System.run entrySize (System.init entrySize capacity programs) sched = (s, L))
    (hwrap : (taken L).length / (create entrySize T capacity).capacity < 2 ^ 32) :
    (s.queue.full entrySize = true ↔ s.queue.capacity = 0 ∨
        (taken L).length = (given L).length + s.queue.capacity ∨
        (s.queue.capacity ≤ (taken L).length ∧ s.Reading ((taken L).length - s.queue.capacity))) ∧
      (s.queue.empty entrySize = true ↔
        (given L).length = (taken L).length ∨ s.Writing (given L).length) := by
  have h := inv_of_run hsize hcap hrun hwrap
  exact ⟨h.full_iff, h.empty_iff⟩

/-- After the first push has won the first cell and before it has built it, `empty()` says the
queue is empty. -/
theorem full_empty_of_run_push_in_progress :
    let r := System.run 16 (System.init 16 4 [[.push 1], [.push 2], [.pop]])
      [(0, false), (0, false), (0, false)]
    0 < 16 ∧ 4 + kEntryPerCacheLine 16 ≤ 2 ^ 31 + 1 ∧ r = (r.1, r.2) ∧
      (taken r.2).length / (create 16 Nat 4).capacity < 2 ^ 32 ∧
      ((r.1.queue.full 16 = true ↔ r.1.queue.capacity = 0 ∨
          (taken r.2).length = (given r.2).length + r.1.queue.capacity ∨
          (r.1.queue.capacity ≤ (taken r.2).length ∧
            r.1.Reading ((taken r.2).length - r.1.queue.capacity))) ∧
        (r.1.queue.empty 16 = true ↔
          (given r.2).length = (taken r.2).length ∨ r.1.Writing (given r.2).length)) := by
  intro r
  exact ⟨by decide, by decide, rfl, by decide,
    full_empty_of_run (by decide) (by decide) rfl (by decide)⟩

/-- **No two threads hold one cell.** In every run as in `threads_linearizable`, two threads
completing their calls hold distinct cells of `_elements`, and each holds a cell still in the
state its test saw: empty at the version of its position for a push, committed for a pop. -/
theorem cells_exclusive (hsize : 0 < entrySize) {capacity : Nat}
    (hcap : capacity + kEntryPerCacheLine entrySize ≤ 2 ^ 31 + 1) {programs : List (List (Op T))}
    {sched : List (Nat × Bool)} {s : System T} {L : List (Event T)}
    (hrun : System.run entrySize (System.init entrySize capacity programs) sched = (s, L))
    (hwrap : (taken L).length / (create entrySize T capacity).capacity < 2 ^ 32)
    {i j : Nat} {thi thj : Thread T} {opi opj : Op T} {posi posj : VersionedIndex}
    (hi : s.threads[i]? = some thi) (hj : s.threads[j]? = some thj) (hij : i ≠ j)
    (hpi : thi.pc = .commit opi posi) (hpj : thj.pc = .commit opj posj) :
    s.queue.indexTransform entrySize posi ≠ s.queue.indexTransform entrySize posj ∧
      opi.ready entrySize s.queue posi = true ∧ opj.ready entrySize s.queue posj = true := by
  have h := inv_of_run hsize hcap hrun hwrap
  exact ⟨h.indexTransform_ne hi hj hij hpi hpj, h.ready_of_commit hi hpi, h.ready_of_commit hj hpj⟩

/-- The two pushes both past their compare-exchanges, the second thread on the first cell and
the first thread on the next. -/
theorem cells_exclusive_two_pushes :
    let r := System.run 16 (System.init 16 4 [[.push 1], [.push 2], [.pop]])
      [(0, false), (1, false), (0, false), (1, false), (1, false), (0, false), (0, false),
        (0, false)]
    0 < 16 ∧ 4 + kEntryPerCacheLine 16 ≤ 2 ^ 31 + 1 ∧ r = (r.1, r.2) ∧
      (taken r.2).length / (create 16 Nat 4).capacity < 2 ^ 32 ∧
      r.1.threads[0]? = some ⟨.commit (.push 1) ⟨0, 1⟩, [], []⟩ ∧
      r.1.threads[1]? = some ⟨.commit (.push 2) ⟨0, 0⟩, [], []⟩ ∧ (0 : Nat) ≠ 1 ∧
      (r.1.queue.indexTransform 16 ⟨0, 1⟩ ≠ r.1.queue.indexTransform 16 ⟨0, 0⟩ ∧
        (Op.push 1).ready 16 r.1.queue ⟨0, 1⟩ = true ∧ (Op.push 2).ready 16 r.1.queue ⟨0, 0⟩ = true) := by
  intro r
  have h0 : r.1.threads[0]? = some ⟨.commit (.push 1) ⟨0, 1⟩, [], []⟩ := rfl
  have h1 : r.1.threads[1]? = some ⟨.commit (.push 2) ⟨0, 0⟩, [], []⟩ := rfl
  exact ⟨by decide, by decide, rfl, by decide, h0, h1, by decide,
    cells_exclusive (by decide) (by decide) rfl (by decide) h0 h1 (by decide) rfl rfl⟩

end Runs

end MpmcQueue

end MediaBridge.Concurrency
