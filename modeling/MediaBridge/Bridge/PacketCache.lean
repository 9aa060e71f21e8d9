import MediaBridge.Lib.BoundedMap
import MediaBridge.Lib.RecentWindow
import MediaBridge.Memory.PacketPool
import MediaBridge.Memory.RandomAccessBacklog

set_option autoImplicit false

/-! # `bridge::PacketCache`: the last packets of a stream, by sequence number

A `PacketCache` keeps copies of the packets of one stream for retransmission. Three structures
are kept in step: the hash map `_cache` from sequence number to copy, the backlog
`_arrivalQueue` of the sequence numbers newest in front, and the pool `_packetAllocator` the
copies live in. `add` refuses a sequence number it holds; otherwise, with `maxPackets` held, it
first gives up the oldest and frees its copy (`evictOldest`), and then copies the packet into
the pool (`storePacket`).

What the cache is for is a window of the packets it took, newest first, cut at `maxPackets`
(`RecentWindow.put`). `Holds c w pops pushes` relates the cache to its window `w` and counts
the allocations and frees of its pool. `Holds.step` shows that one `add` moves both alike and
returns what the window does: since a copy is freed before each copy beyond the `maxPackets`-th,
the pool always has an entry to give.
-/

namespace MediaBridge.Bridge

open Memory RecentWindow

/-- `PacketCache::maxPackets`. -/
def maxPackets : Nat := 512

instance : NeZero maxPackets := ⟨by decide⟩

/-- A `PacketCache`: `_packetAllocator`, `_cache` and `_arrivalQueue`. A cached packet is the copy
of its bytes. -/
structure PacketCache where
  packetAllocator : PoolAllocator
  cache : BoundedMap (BitVec 16) (List (BitVec 8))
  arrivalQueue : RandomAccessBacklog (BitVec 16) maxPackets

namespace PacketCache

/-- `PacketCache(loggableId)`, the pool's entries of `entrySize` bytes on pages of `pageSize`. -/
def create (pageSize entrySize : Nat) : PacketCache where
  packetAllocator := PoolAllocator.create pageSize entrySize maxPackets
  cache := BoundedMap.empty (maxPackets * 2)
  arrivalQueue := RandomAccessBacklog.empty

variable (c : PacketCache)

/-- The eviction that opens `add`: a full arrival queue gives up its oldest sequence number, and
that packet's copy, if cached, is freed and erased. -/
def evictOldest : PacketCache :=
  if c.arrivalQueue.size ≥ maxPackets then
    let sequenceNumberToRemove := c.arrivalQueue.back
    let c := { c with arrivalQueue := c.arrivalQueue.popBack }
    match c.cache.lookup sequenceNumberToRemove with
    | some _ =>
        { c with
          packetAllocator := c.packetAllocator.free
          cache := c.cache.erase sequenceNumberToRemove }
    | none => c
  else c

/-- The end of `add`: the copy made by `makeUniquePacket`, put in the map and the queue. -/
def storePacket (packet : Packet) (sequenceNumber : BitVec 16) : PacketCache × Bool :=
  match makeUniquePacket c.packetAllocator packet with
  | (none, packetAllocator) => ({ c with packetAllocator }, false)
  | (some cachedPacket, packetAllocator) =>
      ({ c with
        packetAllocator
        cache := c.cache.emplace sequenceNumber cachedPacket
        arrivalQueue := c.arrivalQueue.pushFront sequenceNumber }, true)

/-- `add(packet, sequenceNumber)`: whether the packet was cached. -/
def add (packet : Packet) (sequenceNumber : BitVec 16) : PacketCache × Bool :=
  if c.cache.contains sequenceNumber then (c, false)
  else c.evictOldest.storePacket packet sequenceNumber

/-- `get(sequenceNumber)`: the cached copy, if any. -/
def get (sequenceNumber : BitVec 16) : Option (List (BitVec 8)) := c.cache.lookup sequenceNumber

/-- One call of `add`, as a step of a run. -/
def step (call : Packet × BitVec 16) : PacketCache × Bool := c.add call.1 call.2

/-! ## The cache and its window -/

/-- The cache holds the window `w`, newest first, after `pops` allocations and `pushes` frees of
its pool: the queue lists the window's sequence numbers, the map holds its entries, and every
copy the pool gave is in the window. -/
structure Holds (w : List (BitVec 16 × List (BitVec 8))) (pops pushes : Nat) : Prop where
  queue_eq : c.arrivalQueue.toList = w.map Prod.fst
  entries_perm : c.cache.entries.Perm w
  capacity_eq : c.cache.capacity = maxPackets * 2
  balanced : c.packetAllocator.Balanced pops pushes
  pops_eq : pops = pushes + w.length
  le_pool : maxPackets ≤ c.packetAllocator.originalElementCount

theorem holds_create {pageSize entrySize : Nat} (hpage : 0 < pageSize) (hentry : 0 < entrySize) :
    (create pageSize entrySize).Holds [] 0 0 where
  queue_eq := RandomAccessBacklog.toList_empty
  entries_perm := List.Perm.nil
  capacity_eq := rfl
  balanced := PoolAllocator.balanced_create pageSize entrySize maxPackets
  pops_eq := rfl
  le_pool := PoolAllocator.le_originalElementCount_create hpage hentry maxPackets

variable {c} {w : List (BitVec 16 × List (BitVec 8))} {pops pushes : Nat}

theorem Holds.length_eq (h : c.Holds w pops pushes) : w.length = c.arrivalQueue.count := by
  rw [← List.length_map (f := Prod.fst), ← h.queue_eq, RandomAccessBacklog.length_toList]
  rfl

theorem Holds.length_le (h : c.Holds w pops pushes) : w.length ≤ maxPackets :=
  h.length_eq ▸ c.arrivalQueue.count_le

theorem Holds.keys_perm (h : c.Holds w pops pushes) : c.cache.keys.Perm (w.map Prod.fst) :=
  h.entries_perm.map Prod.fst

theorem Holds.nodup (h : c.Holds w pops pushes) : (w.map Prod.fst).Nodup :=
  h.keys_perm.nodup_iff.mp c.cache.keys_nodup

/-- `get` reads the window. -/
theorem Holds.get_eq (h : c.Holds w pops pushes) (sequenceNumber : BitVec 16) :
    c.get sequenceNumber = w.lookup sequenceNumber :=
  KeyedList.lookup_eq_of_perm c.cache.keys_nodup h.entries_perm sequenceNumber

theorem Holds.contains_iff (h : c.Holds w pops pushes) {sequenceNumber : BitVec 16} :
    c.cache.contains sequenceNumber = true ↔ sequenceNumber ∈ w.map Prod.fst := by
  rw [BoundedMap.contains_iff]
  exact h.keys_perm.mem_iff

/-! ## One call -/

/-- **Eviction.** A full cache gives up the oldest entry of its window and frees its copy. -/
theorem Holds.evictOldest (h : c.Holds w pops pushes) :
    ∃ pushes', c.evictOldest.Holds (w.take (maxPackets - 1)) pops pushes' := by
  by_cases hfull : c.arrivalQueue.size ≥ maxPackets
  · have hlen : w.length = maxPackets := by
      have := h.length_le
      have := h.length_eq
      unfold RandomAccessBacklog.size at hfull
      omega
    have hne : w ≠ [] := by
      intro hw
      rw [hw] at hlen
      exact absurd hlen.symm (NeZero.ne maxPackets)
    -- the oldest entry is the last of the window, and the map holds it
    set last := w.getLast hne with hlast
    have hback : c.arrivalQueue.back = last.1 := by
      rw [RandomAccessBacklog.back_eq_getLast _ (by rw [← h.length_eq, hlen]; exact Nat.pos_of_neZero _)]
      simp only [h.queue_eq, List.getLast_map, hlast]
    have hlookup : c.cache.lookup last.1 = some last.2 := by
      rw [BoundedMap.lookup_eq_some_iff, h.entries_perm.mem_iff]
      exact List.getLast_mem hne
    have htake : w.take (maxPackets - 1) = w.dropLast := by
      rw [List.dropLast_eq_take, hlen]
    -- no other entry of the window has the last one's key
    have hkeep : w.filter (fun e => e.1 != last.1) = w.dropLast := by
      have hsplit := List.dropLast_append_getLast hne
      have hnd := h.nodup
      rw [← hsplit, List.map_append, List.nodup_append] at hnd
      rw [← hsplit, List.filter_append, List.filter_eq_self.mpr, List.filter_singleton]
      · simp [hlast]
      · intro e he
        have hne' : e.1 ≠ last.1 := fun heq =>
          hnd.2.2 e.1 (List.mem_map_of_mem he) last.1 (by simp [hlast]) heq
        simpa using hne'
    refine ⟨pushes + 1, ?_⟩
    unfold PacketCache.evictOldest
    rw [if_pos hfull]
    dsimp only
    rw [hback, hlookup]
    dsimp only
    constructor
    · rw [RandomAccessBacklog.toList_popBack, h.queue_eq, htake, List.map_dropLast]
    · rw [BoundedMap.entries_erase, htake, ← hkeep]
      exact h.entries_perm.filter _
    · exact h.capacity_eq
    · exact h.balanced.free
    · have := h.pops_eq
      rw [htake, List.length_dropLast, hlen]
      rw [hlen] at this
      unfold maxPackets at this ⊢
      omega
    · exact h.le_pool
  · have hlen : w.length < maxPackets := by
      have := h.length_eq
      unfold RandomAccessBacklog.size at hfull
      omega
    refine ⟨pushes, ?_⟩
    have hkeep : w.take (maxPackets - 1) = w := List.take_of_length_le (by omega)
    unfold PacketCache.evictOldest
    rw [if_neg hfull, hkeep]
    exact h

/-- **The copy.** Below `maxPackets` entries, the pool gives an entry, and a new sequence number
goes in front of the window. -/
theorem Holds.storePacket (h : c.Holds w pops pushes) (hlen : w.length < maxPackets)
    {packet : Packet} {sequenceNumber : BitVec 16} (hnew : sequenceNumber ∉ w.map Prod.fst) :
    (c.storePacket packet sequenceNumber).2 = true ∧
      (c.storePacket packet sequenceNumber).1.Holds ((sequenceNumber, packet.data) :: w)
        (pops + 1) pushes := by
  have hpool := h.le_pool
  have hpops := h.pops_eq
  -- fewer entries are out than the pool holds, in whole rounds of its stacks
  have hroom : (pops - pushes) / QCOUNT < c.packetAllocator.originalElementCount / QCOUNT := by
    unfold QCOUNT
    unfold maxPackets at hlen hpool
    omega
  obtain ⟨hok, hbal⟩ := h.balanced.allocate (by omega) hroom
  have hsize : c.cache.size < c.cache.capacity := by
    rw [h.capacity_eq, BoundedMap.size, h.entries_perm.length_eq]
    unfold maxPackets at hlen ⊢
    omega
  have hkey : sequenceNumber ∉ c.cache.keys := fun hk => hnew (h.keys_perm.subset hk)
  have hcount : c.arrivalQueue.count ≠ maxPackets := by
    rw [← h.length_eq]
    omega
  unfold PacketCache.storePacket
  rw [makeUniquePacket_of_allocate packet hok]
  refine ⟨rfl, ?_, ?_, ?_, hbal, ?_, ?_⟩
  · show (c.arrivalQueue.pushFront sequenceNumber).toList = _
    rw [RandomAccessBacklog.toList_pushFront _ (by decide), if_neg hcount, h.queue_eq]
    rfl
  · show (c.cache.emplace sequenceNumber packet.data).entries.Perm _
    rw [BoundedMap.entries_emplace _ hkey hsize]
    exact h.entries_perm.cons _
  · show (c.cache.emplace sequenceNumber packet.data).capacity = _
    rw [BoundedMap.capacity_emplace]
    exact h.capacity_eq
  · rw [List.length_cons]
    omega
  · show maxPackets ≤ c.packetAllocator.allocate.2.originalElementCount
    rw [PoolAllocator.originalElementCount_allocate]
    exact hpool

/-- A sequence number the window holds is refused and changes nothing. -/
theorem Holds.add_of_mem (h : c.Holds w pops pushes) (packet : Packet) {sequenceNumber : BitVec 16}
    (hheld : sequenceNumber ∈ w.map Prod.fst) : c.add packet sequenceNumber = (c, false) := by
  unfold PacketCache.add
  rw [if_pos (h.contains_iff.mpr hheld)]

/-- **One call.** `add` moves the cache as `put` moves its window, and returns what `put`
returns. -/
theorem Holds.step (h : c.Holds w pops pushes) (call : Packet × BitVec 16) :
    (∃ pops' pushes', (c.step call).1.Holds (put maxPackets w call.2 call.1.data).1 pops' pushes') ∧
      (c.step call).2 = (put maxPackets w call.2 call.1.data).2 := by
  obtain ⟨packet, sequenceNumber⟩ := call
  by_cases hheld : sequenceNumber ∈ w.map Prod.fst
  · have hput : put maxPackets w sequenceNumber packet.data = (w, false) := if_pos hheld
    rw [PacketCache.step, h.add_of_mem packet hheld, hput]
    exact ⟨⟨pops, pushes, h⟩, rfl⟩
  · -- the window cut to `maxPackets - 1` entries, then the new one in front
    have hput : put maxPackets w sequenceNumber packet.data =
        ((sequenceNumber, packet.data) :: w.take (maxPackets - 1), true) := if_neg hheld
    have hadd : c.add packet sequenceNumber = c.evictOldest.storePacket packet sequenceNumber := by
      unfold PacketCache.add
      rw [if_neg (fun hc => hheld (h.contains_iff.mp hc))]
    obtain ⟨pushes', he⟩ := h.evictOldest
    have hlen : (w.take (maxPackets - 1)).length < maxPackets := by
      rw [List.length_take]
      unfold maxPackets
      omega
    have hnew : sequenceNumber ∉ (w.take (maxPackets - 1)).map Prod.fst := fun hm =>
      hheld ((List.take_sublist _ w).map Prod.fst |>.subset hm)
    obtain ⟨hok, hholds⟩ := he.storePacket hlen hnew
    rw [PacketCache.step, hadd, hput]
    exact ⟨⟨pops + 1, pushes', hholds⟩, hok⟩

/-! ## Every run -/

/-- The packets of the last `maxPackets` accepted calls, newest first, by sequence number. -/
def recentPackets (calls : List (Packet × BitVec 16)) (results : List Bool) :
    List (BitVec 16 × List (BitVec 8)) :=
  ((accepted calls results).reverse.take maxPackets).map fun call => (call.2, call.1.data)

/-- **Every run.** From a new cache, the cache after any calls holds the window that `put`
builds from the same calls, and every call returns what `put` returns. -/
theorem run_simulates {pageSize entrySize : Nat} (hpage : 0 < pageSize) (hentry : 0 < entrySize)
    (calls : List (Packet × BitVec 16)) :
    (∃ pops pushes, (Run.run step (create pageSize entrySize) calls).1.Holds
        (Run.run (fun w call => put maxPackets w call.2 call.1.data) [] calls).1 pops pushes) ∧
      (Run.run step (create pageSize entrySize) calls).2 =
        (Run.run (fun w call => put maxPackets w call.2 call.1.data) [] calls).2 :=
  Run.run_simulation step _ (R := fun c w => ∃ pops pushes, c.Holds w pops pushes)
    (fun _ _ call ⟨_, _, h⟩ => h.step call) _ [] calls ⟨0, 0, holds_create hpage hentry⟩

theorem run_keeps_recent_packets {pageSize entrySize : Nat} (hpage : 0 < pageSize)
    (hentry : 0 < entrySize) (calls : List (Packet × BitVec 16)) :
    (∀ sequenceNumber, (Run.run step (create pageSize entrySize) calls).1.get sequenceNumber =
        (recentPackets calls (Run.run step (create pageSize entrySize) calls).2).lookup
          sequenceNumber) ∧
      (Run.run step (create pageSize entrySize) calls).1.arrivalQueue.toList =
        (recentPackets calls (Run.run step (create pageSize entrySize) calls).2).map Prod.fst ∧
      ∀ k (hk : k < calls.length), (Run.run step (create pageSize entrySize) calls).2[k]? =
        some !((Run.run step (create pageSize entrySize) (calls.take k)).1.get calls[k].2).isSome := by
  obtain ⟨⟨pops, pushes, h⟩, hout⟩ := run_simulates hpage hentry calls
  have hwindow : (Run.run (fun w call => put maxPackets w call.2 call.1.data) [] calls).1 =
      recentPackets calls (Run.run step (create pageSize entrySize) calls).2 := by
    rw [hout]
    exact run_put maxPackets (fun call => call.2) (fun call => call.1.data) calls
  refine ⟨fun sequenceNumber => ?_, ?_, fun k hk => ?_⟩
  · rw [h.get_eq, hwindow]
  · rw [h.queue_eq, hwindow]
  · -- call `k` meets the cache the first `k` calls left, which holds their window
    obtain ⟨⟨pops', pushes', h'⟩, -⟩ := run_simulates hpage hentry (calls.take k)
    have hheld : ∀ (w : List (BitVec 16 × List (BitVec 8))) (sequenceNumber : BitVec 16),
        (w.lookup sequenceNumber).isSome = decide (sequenceNumber ∈ w.map Prod.fst) := by
      intro w sequenceNumber
      rw [Bool.eq_iff_iff, decide_eq_true_iff]
      exact KeyedList.lookup_isSome_iff
    rw [Run.getElem?_run_snd _ _ _ _ hk, (h'.step calls[k]).2, h'.get_eq, put_snd, hheld]

theorem run_keeps_recent_packets_on_one_call :
    0 < 4096 ∧ 0 < 1504 ∧
    ((∀ sequenceNumber, (Run.run step (create 4096 1504) [(⟨[], Nat.zero_le _⟩, 7)]).1.get sequenceNumber =
        (recentPackets [(⟨[], Nat.zero_le _⟩, 7)] (Run.run step (create 4096 1504) [(⟨[], Nat.zero_le _⟩, 7)]).2).lookup
          sequenceNumber) ∧
      (Run.run step (create 4096 1504) [(⟨[], Nat.zero_le _⟩, 7)]).1.arrivalQueue.toList =
        (recentPackets [(⟨[], Nat.zero_le _⟩, 7)] (Run.run step (create 4096 1504) [(⟨[], Nat.zero_le _⟩, 7)]).2).map Prod.fst ∧
      ∀ k (hk : k < ([(⟨[], Nat.zero_le _⟩, 7)] : List (Packet × BitVec 16)).length),
        (Run.run step (create 4096 1504) [(⟨[], Nat.zero_le _⟩, 7)]).2[k]? =
          some !((Run.run step (create 4096 1504) (([(⟨[], Nat.zero_le _⟩, 7)] : List (Packet × BitVec 16)).take k)).1.get
            ([(⟨[], Nat.zero_le _⟩, 7)] : List (Packet × BitVec 16))[k].2).isSome) :=
  ⟨by decide, by decide, run_keeps_recent_packets (by decide) (by decide) [(⟨[], Nat.zero_le _⟩, 7)]⟩

end PacketCache

end MediaBridge.Bridge
