import MediaBridge.Lib.Run
import MediaBridge.Lib.SerialNumber

set_option autoImplicit false

/-! # The receive path of an SCTP association

`SctpAssociationImpl::onDataReceived` keeps every DATA chunk it has not seen before in
`_inboundDataChunks`, a `std::map` from TSN to chunk ordered by `LessReceivedDataChunk`, the
serial number order of `diff`. After the packet's chunks, `prepareSack` moves the cumulative
ack over the stored chunks that follow it directly, and `gatherReceivedFragments` is called
again and again: among the chunks at or below the cumulative ack it looks for a fragment begin
followed by a fragment end, and `reportFragment` appends their bytes, erases them and passes the
message to the listener.

The map is a list in its order, with `find` and insertion at the lower bound. A stored chunk's
bytes are its payload (`ReceivedDataChunk::data()` is the copy behind the record). Whether the
receive window is open and the inbound buffer has room for a chunk is the `room` flag it
arrives with; the SACK built after the ack and the chunks of other types are left out.

A report erases at least one chunk (`length_gatherReceivedFragments_lt`), which is why the
`while` loop of `onDataReceived` stops.
-/

namespace MediaBridge.Transport.Sctp

/-- `diff(a, b)` of `Sctprotocol.h`: `b - a` read as an `int32_t`. -/
def diff (a b : BitVec 32) : Int := (b - a).toInt

/-- `LessReceivedDataChunk`, the order of `_inboundDataChunks`. -/
def lessReceivedDataChunk (tsnA tsnB : BitVec 32) : Bool := decide (0 < diff tsnA tsnB)

/-- A DATA chunk as it arrives (`PayloadDataChunk`): the header fields the receive path reads
and the payload after the header. -/
structure PayloadDataChunk where
  flags : BitVec 8
  transmissionSequenceNumber : BitVec 32
  streamId : BitVec 16
  streamSequenceNumber : BitVec 16
  payloadProtocol : BitVec 32
  payload : List (BitVec 8)
  deriving DecidableEq

namespace PayloadDataChunk

variable (chunk : PayloadDataChunk)

def isBegin : Bool := chunk.flags &&& 0x02 == 0x02

def isEnd : Bool := chunk.flags &&& 0x01 == 0x01

def payloadSize : Nat := chunk.payload.length

end PayloadDataChunk

/-- `ReceivedDataChunk`: what the association keeps of a stored DATA chunk, with the bytes
that follow the record in the inbound buffer. -/
structure ReceivedDataChunk where
  transmissionSequenceNumber : BitVec 32
  streamId : BitVec 16
  streamSequenceNumber : BitVec 16
  payloadProtocol : BitVec 32
  fragmentBegin : Bool
  fragmentEnd : Bool
  data : List (BitVec 8)
  deriving DecidableEq

namespace ReceivedDataChunk

/-- `size`: the number of bytes copied behind the record. -/
def size (chunk : ReceivedDataChunk) : Nat := chunk.data.length

/-- `ReceivedDataChunk(const PayloadDataChunk&, uint64_t)`. -/
def ofPayload (chunk : PayloadDataChunk) : ReceivedDataChunk :=
  ⟨chunk.transmissionSequenceNumber, chunk.streamId, chunk.streamSequenceNumber,
    chunk.payloadProtocol, chunk.isBegin, chunk.isEnd, chunk.payload⟩

section OfPayload

variable (chunk : PayloadDataChunk)

@[simp] theorem transmissionSequenceNumber_ofPayload :
    (ofPayload chunk).transmissionSequenceNumber = chunk.transmissionSequenceNumber := rfl

@[simp] theorem fragmentBegin_ofPayload : (ofPayload chunk).fragmentBegin = chunk.isBegin := rfl

@[simp] theorem fragmentEnd_ofPayload : (ofPayload chunk).fragmentEnd = chunk.isEnd := rfl

@[simp] theorem data_ofPayload : (ofPayload chunk).data = chunk.payload := rfl

end OfPayload

end ReceivedDataChunk

/-- A chunk of an arriving packet as the receive path sees it: a DATA chunk, with whether the
receive window is open and the inbound buffer can hold it, or a chunk of another type. -/
inductive Chunk
  | data (chunk : PayloadDataChunk) (room : Bool)
  | other
  deriving DecidableEq

def Chunk.isData : Chunk → Bool
  | .data _ _ => true
  | .other => false

/-- The receive side of an association: `_inboundDataChunks` in its order and
`_local.cumulativeAck`. -/
structure InboundState where
  inboundDataChunks : List (BitVec 32 × ReceivedDataChunk)
  cumulativeAck : BitVec 32

/-- A new association: nothing stored, the cumulative ack just below the peer's initial TSN. -/
def InboundState.create (peerTsn : BitVec 32) : InboundState := ⟨[], peerTsn - 1⟩

/-- A call of `IEvents::onSctpFragmentReceived`: the head chunk's stream id, stream sequence
number and payload protocol, the bytes in the buffer and the length passed with them. -/
structure FragmentReceived where
  streamId : BitVec 16
  streamSequenceNumber : BitVec 16
  payloadProtocol : BitVec 32
  data : List (BitVec 8)
  length : Nat
  deriving DecidableEq

/-! ## The map -/

/-- `_inboundDataChunks.find(tsn)`: the first entry not before `tsn`, if `tsn` is not before
it either. -/
def findChunk (chunks : List (BitVec 32 × ReceivedDataChunk)) (tsn : BitVec 32) :
    Option ReceivedDataChunk :=
  match chunks.dropWhile fun e => lessReceivedDataChunk e.1 tsn with
  | [] => none
  | e :: _ => if lessReceivedDataChunk tsn e.1 then none else some e.2

/-- `_inboundDataChunks[tsn] = chunk` for a `tsn` the map does not hold: the new entry goes in
at the lower bound of `tsn`. -/
def insertChunk (chunks : List (BitVec 32 × ReceivedDataChunk)) (tsn : BitVec 32)
    (chunk : ReceivedDataChunk) : List (BitVec 32 × ReceivedDataChunk) :=
  (chunks.takeWhile fun e => lessReceivedDataChunk e.1 tsn) ++
    (tsn, chunk) :: chunks.dropWhile fun e => lessReceivedDataChunk e.1 tsn

@[simp] theorem findChunk_nil (tsn : BitVec 32) : findChunk [] tsn = none := rfl

@[simp] theorem insertChunk_nil (tsn : BitVec 32) (chunk : ReceivedDataChunk) :
    insertChunk [] tsn chunk = [(tsn, chunk)] := rfl

section Map

variable {e : BitVec 32 × ReceivedDataChunk} {chunks : List (BitVec 32 × ReceivedDataChunk)}
  {tsn : BitVec 32}

/-- The lookup passes over an entry before the key. -/
theorem findChunk_cons_of_less (h : lessReceivedDataChunk e.1 tsn = true) :
    findChunk (e :: chunks) tsn = findChunk chunks tsn := by
  simp only [findChunk, List.dropWhile_cons, h, if_true]

/-- The lookup stops at the first entry not before the key. -/
theorem findChunk_cons_of_not_less (h : lessReceivedDataChunk e.1 tsn = false) :
    findChunk (e :: chunks) tsn = if lessReceivedDataChunk tsn e.1 then none else some e.2 := by
  simp only [findChunk, List.dropWhile_cons, h]
  rfl

theorem insertChunk_cons_of_less (chunk : ReceivedDataChunk)
    (h : lessReceivedDataChunk e.1 tsn = true) :
    insertChunk (e :: chunks) tsn chunk = e :: insertChunk chunks tsn chunk := by
  simp only [insertChunk, List.takeWhile_cons, List.dropWhile_cons, h, if_true,
    List.cons_append]

theorem insertChunk_cons_of_not_less (chunk : ReceivedDataChunk)
    (h : lessReceivedDataChunk e.1 tsn = false) :
    insertChunk (e :: chunks) tsn chunk = (tsn, chunk) :: e :: chunks := by
  simp only [insertChunk, List.takeWhile_cons, List.dropWhile_cons, h]
  rfl

/-- An entry that goes before every entry of the map goes in at the front. -/
theorem insertChunk_of_forall_not_less (chunk : ReceivedDataChunk)
    (h : ∀ e ∈ chunks, lessReceivedDataChunk e.1 tsn = false) :
    insertChunk chunks tsn chunk = (tsn, chunk) :: chunks := by
  cases chunks with
  | nil => rfl
  | cons e rest => exact insertChunk_cons_of_not_less chunk (h e List.mem_cons_self)

end Map

/-! ## `prepareSack` -/

/-- The loop of `prepareSack`: from the start of the map, while the chunk is at or below
`cumulativeAck + 1`, the ack moves up by one at a chunk that follows it directly. -/
def prepareSackLoop : List (BitVec 32 × ReceivedDataChunk) → BitVec 32 → BitVec 32
  | [], cumulativeAck => cumulativeAck
  | (_, chunk) :: rest, cumulativeAck =>
      if 0 ≤ diff chunk.transmissionSequenceNumber (cumulativeAck + 1) then
        prepareSackLoop rest
          (if chunk.transmissionSequenceNumber = cumulativeAck + 1 then cumulativeAck + 1
            else cumulativeAck)
      else cumulativeAck

theorem prepareSackLoop_cons (tsn : BitVec 32) (chunk : ReceivedDataChunk)
    (rest : List (BitVec 32 × ReceivedDataChunk)) (cumulativeAck : BitVec 32) :
    prepareSackLoop ((tsn, chunk) :: rest) cumulativeAck =
      if 0 ≤ diff chunk.transmissionSequenceNumber (cumulativeAck + 1) then
        prepareSackLoop rest
          (if chunk.transmissionSequenceNumber = cumulativeAck + 1 then cumulativeAck + 1
            else cumulativeAck)
      else cumulativeAck := rfl

/-- The ack stays where it is when no stored chunk is at or below the TSN after it. -/
theorem prepareSackLoop_of_forall_above {chunks : List (BitVec 32 × ReceivedDataChunk)}
    {cumulativeAck : BitVec 32}
    (h : ∀ e ∈ chunks, diff e.2.transmissionSequenceNumber (cumulativeAck + 1) < 0) :
    prepareSackLoop chunks cumulativeAck = cumulativeAck := by
  cases chunks with
  | nil => rfl
  | cons e rest =>
      have hlt := h e List.mem_cons_self
      simp only [prepareSackLoop, if_neg (Int.not_le.mpr hlt)]

/-! ## `gatherReceivedFragments` and `reportFragment` -/

/-- The loop of `gatherReceivedFragments` from position `index` of the map, with the position of
the last fragment begin met (`itBegin`) and the bytes counted since it (`fragmentSize`). It
stops with the range to report at the first fragment end after a begin, and with `none` at the
end of the map or at the first chunk above the cumulative ack. -/
def gatherScan (cumulativeAck : BitVec 32) :
    List (BitVec 32 × ReceivedDataChunk) → Nat → Option Nat → Nat → Option (Nat × Nat)
  | [], _, _, _ => none
  | (_, chunk) :: rest, index, itBegin, fragmentSize =>
      if 0 ≤ diff chunk.transmissionSequenceNumber cumulativeAck then
        let itBegin := if chunk.fragmentBegin then some index else itBegin
        let fragmentSize := (if chunk.fragmentBegin then 0 else fragmentSize) + chunk.size
        match itBegin with
        | some chunkHead =>
            if chunk.fragmentEnd then some (chunkHead, fragmentSize)
            else gatherScan cumulativeAck rest (index + 1) itBegin fragmentSize
        | none => gatherScan cumulativeAck rest (index + 1) itBegin fragmentSize
      else none

theorem gatherScan_cons (cumulativeAck tsn : BitVec 32) (chunk : ReceivedDataChunk)
    (rest : List (BitVec 32 × ReceivedDataChunk)) (index : Nat) (itBegin : Option Nat)
    (fragmentSize : Nat) :
    gatherScan cumulativeAck ((tsn, chunk) :: rest) index itBegin fragmentSize =
      if 0 ≤ diff chunk.transmissionSequenceNumber cumulativeAck then
        match (if chunk.fragmentBegin then some index else itBegin) with
        | some chunkHead =>
            if chunk.fragmentEnd then
              some (chunkHead, (if chunk.fragmentBegin then 0 else fragmentSize) + chunk.size)
            else gatherScan cumulativeAck rest (index + 1)
              (if chunk.fragmentBegin then some index else itBegin)
              ((if chunk.fragmentBegin then 0 else fragmentSize) + chunk.size)
        | none => gatherScan cumulativeAck rest (index + 1)
            (if chunk.fragmentBegin then some index else itBegin)
            ((if chunk.fragmentBegin then 0 else fragmentSize) + chunk.size)
      else none := rfl

/-- `memory::Array::append`: the bytes go in only if they fit in the capacity. -/
def arrayAppend (capacity : Nat) (buffer data : List (BitVec 8)) : List (BitVec 8) :=
  if buffer.length + data.length ≤ capacity then buffer ++ data else buffer

/-- The loop of `reportFragment` from the head chunk: the buffer after appending the chunks
through the first fragment end, and the map after that end, which the erase keeps; `none`
when no fragment end follows, and the loop then runs to the end of the map and erases
nothing. -/
def reportLoop (capacity : Nat) :
    List (BitVec 32 × ReceivedDataChunk) → List (BitVec 8) →
      List (BitVec 8) × Option (List (BitVec 32 × ReceivedDataChunk))
  | [], buffer => (buffer, none)
  | (_, chunk) :: rest, buffer =>
      let buffer := arrayAppend capacity buffer chunk.data
      if chunk.fragmentEnd then (buffer, some rest) else reportLoop capacity rest buffer

theorem reportLoop_cons (capacity : Nat) (tsn : BitVec 32) (chunk : ReceivedDataChunk)
    (rest : List (BitVec 32 × ReceivedDataChunk)) (buffer : List (BitVec 8)) :
    reportLoop capacity ((tsn, chunk) :: rest) buffer =
      if chunk.fragmentEnd then (arrayAppend capacity buffer chunk.data, some rest)
      else reportLoop capacity rest (arrayAppend capacity buffer chunk.data) := rfl

/-- `reportFragment(chunkHeadIt, fragmentSize)`: the map after the erase and the call made to
the listener, with a buffer of capacity `fragmentSize`; `none` for a head past the end of the
map, which `gatherReceivedFragments` never passes. -/
def reportFragment (chunks : List (BitVec 32 × ReceivedDataChunk)) (chunkHead : Nat)
    (fragmentSize : Nat) : Option (List (BitVec 32 × ReceivedDataChunk) × FragmentReceived) :=
  match chunks.drop chunkHead with
  | [] => none
  | (_, head) :: _ =>
      let r := reportLoop fragmentSize (chunks.drop chunkHead) []
      let chunks' := match r.2 with
        | some rest => chunks.take chunkHead ++ rest
        | none => chunks
      some (chunks', ⟨head.streamId, head.streamSequenceNumber, head.payloadProtocol, r.1,
        fragmentSize⟩)

/-- One call of `gatherReceivedFragments` that reports: the map after it and the report;
`none` when it returns `false`. -/
def gatherReceivedFragments (cumulativeAck : BitVec 32)
    (chunks : List (BitVec 32 × ReceivedDataChunk)) :
    Option (List (BitVec 32 × ReceivedDataChunk) × FragmentReceived) :=
  match gatherScan cumulativeAck chunks 0 none 0 with
  | none => none
  | some (chunkHead, fragmentSize) => reportFragment chunks chunkHead fragmentSize

/-- A fragment end follows the range the scan reports. -/
theorem exists_fragmentEnd_of_gatherScan {cumulativeAck : BitVec 32} :
    ∀ {chunks : List (BitVec 32 × ReceivedDataChunk)} {index : Nat} {itBegin : Option Nat}
      {fragmentSize chunkHead size : Nat},
      gatherScan cumulativeAck chunks index itBegin fragmentSize = some (chunkHead, size) →
      (∀ b, itBegin = some b → b ≤ index) →
      ∃ k, ∃ hk : k < chunks.length, chunkHead ≤ index + k ∧ chunks[k].2.fragmentEnd = true
  | [], _, _, _, _, _, h, _ => by simp [gatherScan] at h
  | (tsn, chunk) :: rest, index, itBegin, fragmentSize, chunkHead, size, h, hbegin => by
      simp only [gatherScan] at h
      split at h
      · -- the head is the last begin met, at this position or before it
        have hhead : ∀ b, (if chunk.fragmentBegin then some index else itBegin) = some b →
            b ≤ index := by
          intro b hb
          split at hb
          · cases hb; exact Nat.le_refl _
          · exact hbegin b hb
        -- the rest of the scan starts one position further on
        have hnext : ∀ b, (if chunk.fragmentBegin then some index else itBegin) = some b →
            b ≤ index + 1 := fun b hb => Nat.le_succ_of_le (hhead b hb)
        have hrest : gatherScan cumulativeAck rest (index + 1)
            (if chunk.fragmentBegin then some index else itBegin)
            ((if chunk.fragmentBegin then 0 else fragmentSize) + chunk.size) =
              some (chunkHead, size) →
            ∃ k, ∃ hk : k < ((tsn, chunk) :: rest).length, chunkHead ≤ index + k ∧
              ((tsn, chunk) :: rest)[k].2.fragmentEnd = true := by
          intro hr
          obtain ⟨k, hk, hle, hend⟩ := exists_fragmentEnd_of_gatherScan hr hnext
          exact ⟨k + 1, by simp; omega, by omega, hend⟩
        split at h
        · next b hb =>
          split at h
          · next hend =>
            cases h
            exact ⟨0, by simp, by simpa using hhead _ hb, hend⟩
          · exact hrest h
        · exact hrest h
      · cases h

/-- The loop of `reportFragment` erases through a fragment end when one follows. -/
theorem reportLoop_of_fragmentEnd (capacity : Nat) :
    ∀ {chunks : List (BitVec 32 × ReceivedDataChunk)} (buffer : List (BitVec 8)) {k : Nat}
      (hk : k < chunks.length), chunks[k].2.fragmentEnd = true →
      ∃ rest, (reportLoop capacity chunks buffer).2 = some rest ∧ rest.length < chunks.length
  | [], _, _, hk, _ => absurd hk (Nat.not_lt_zero _)
  | (tsn, chunk) :: rest, buffer, k, hk, hend => by
      simp only [reportLoop]
      split
      · exact ⟨rest, rfl, by simp⟩
      · next hne =>
        cases k with
        | zero => exact absurd hend (by simpa using hne)
        | succ k =>
          obtain ⟨rest', hr, hlen⟩ :=
            reportLoop_of_fragmentEnd capacity _ (Nat.lt_of_succ_lt_succ hk) hend
          exact ⟨rest', hr, by simp; omega⟩

/-- Every report erases at least one chunk. -/
theorem length_gatherReceivedFragments_lt {cumulativeAck : BitVec 32}
    {chunks chunks' : List (BitVec 32 × ReceivedDataChunk)} {report : FragmentReceived}
    (h : gatherReceivedFragments cumulativeAck chunks = some (chunks', report)) :
    chunks'.length < chunks.length := by
  unfold gatherReceivedFragments at h
  split at h
  · cases h
  · next chunkHead fragmentSize hscan =>
    obtain ⟨k, hk, hle, hend⟩ :=
      exists_fragmentEnd_of_gatherScan hscan (fun b hb => by cases hb)
    -- the first fragment end at or after the head is where the erase stops
    have hk' : k - chunkHead < (chunks.drop chunkHead).length := by simp; omega
    have hend' : (chunks.drop chunkHead)[k - chunkHead].2.fragmentEnd = true := by
      simpa [List.getElem_drop, Nat.add_sub_cancel' (show chunkHead ≤ k by omega)] using hend
    obtain ⟨rest, hrest, hlen⟩ := reportLoop_of_fragmentEnd fragmentSize [] hk' hend'
    unfold reportFragment at h
    split at h
    · cases h
    · next head tail hdrop =>
      simp only [hrest, Option.some.injEq, Prod.mk.injEq] at h
      obtain ⟨rfl, -⟩ := h
      have hdl : (chunks.drop chunkHead).length = chunks.length - chunkHead := List.length_drop
      simp only [List.length_append, List.length_take]
      omega

set_option linter.unusedVariables false in
/-- `while (newDataReceived && gatherReceivedFragments(timestamp))`: the map once no complete
message is left at or below the cumulative ack, and the reports in the order they were made. -/
def gatherLoop (cumulativeAck : BitVec 32) (chunks : List (BitVec 32 × ReceivedDataChunk)) :
    List (BitVec 32 × ReceivedDataChunk) × List FragmentReceived :=
  match h : gatherReceivedFragments cumulativeAck chunks with
  | none => (chunks, [])
  | some (chunks', report) =>
      let r := gatherLoop cumulativeAck chunks'
      (r.1, report :: r.2)
termination_by chunks.length
decreasing_by exact length_gatherReceivedFragments_lt h

section Loop

variable {cumulativeAck : BitVec 32} {chunks chunks' : List (BitVec 32 × ReceivedDataChunk)}

theorem gatherLoop_of_none (h : gatherReceivedFragments cumulativeAck chunks = none) :
    gatherLoop cumulativeAck chunks = (chunks, []) := by
  rw [gatherLoop]
  split
  · rfl
  · next hsome => rw [h] at hsome; cases hsome

theorem gatherLoop_of_some {report : FragmentReceived}
    (h : gatherReceivedFragments cumulativeAck chunks = some (chunks', report)) :
    gatherLoop cumulativeAck chunks =
      ((gatherLoop cumulativeAck chunks').1, report :: (gatherLoop cumulativeAck chunks').2) := by
  rw [gatherLoop]
  split
  · next hnone => rw [h] at hnone; cases hnone
  · next hsome =>
    rw [h] at hsome
    cases hsome
    rfl

end Loop

/-- The scan finds nothing when no chunk at or below the cumulative ack ends a fragment. -/
theorem gatherScan_eq_none {cumulativeAck : BitVec 32} :
    ∀ {chunks : List (BitVec 32 × ReceivedDataChunk)},
      (∀ e ∈ chunks, 0 ≤ diff e.2.transmissionSequenceNumber cumulativeAck →
        e.2.fragmentEnd = false) →
      ∀ (index : Nat) (itBegin : Option Nat) (fragmentSize : Nat),
        gatherScan cumulativeAck chunks index itBegin fragmentSize = none
  | [], _, _, _, _ => rfl
  | (tsn, chunk) :: rest, h, index, itBegin, fragmentSize => by
      have hrest : ∀ index itBegin fragmentSize,
          gatherScan cumulativeAck rest index itBegin fragmentSize = none :=
        gatherScan_eq_none fun e he => h e (List.mem_cons_of_mem _ he)
      simp only [gatherScan]
      split
      · next hle =>
        have hend : chunk.fragmentEnd = false := h (tsn, chunk) List.mem_cons_self hle
        split <;> simp only [hend, Bool.false_eq_true, if_false, hrest]
      · rfl

/-! ## `onDataReceived` -/

/-- One DATA chunk of `onDataReceived`: the map after it, and whether it was stored. -/
def receiveDataChunk (cumulativeAck : BitVec 32) (chunks : List (BitVec 32 × ReceivedDataChunk))
    (chunk : PayloadDataChunk) (room : Bool) : List (BitVec 32 × ReceivedDataChunk) × Bool :=
  let tsn := chunk.transmissionSequenceNumber
  if 0 < chunk.payloadSize then
    -- a duplicate only counts as received again
    if (findChunk chunks tsn).isSome then (chunks, false)
    -- already acked and removed from the map
    else if 0 ≤ diff tsn cumulativeAck then (chunks, false)
    else if room then (insertChunk chunks tsn (.ofPayload chunk), true)
    -- the receive window is closed or the receive buffer is depleted
    else (chunks, false)
  -- an empty DATA chunk is answered with an error cause
  else (chunks, false)

/-- The loop of `onDataReceived` over the packet's chunks, with `newDataReceived`. -/
def receiveChunks (cumulativeAck : BitVec 32) :
    List (BitVec 32 × ReceivedDataChunk) → Bool → List Chunk →
      List (BitVec 32 × ReceivedDataChunk) × Bool
  | chunks, newDataReceived, [] => (chunks, newDataReceived)
  | chunks, newDataReceived, .other :: packet =>
      receiveChunks cumulativeAck chunks newDataReceived packet
  | chunks, newDataReceived, .data chunk room :: packet =>
      let r := receiveDataChunk cumulativeAck chunks chunk room
      receiveChunks cumulativeAck r.1 (newDataReceived || r.2) packet

/-- `SctpAssociationImpl::onDataReceived` on the receive side: the state after the packet and
the messages passed to the listener. -/
def onDataReceived (s : InboundState) (packet : List Chunk) :
    InboundState × List FragmentReceived :=
  let r := receiveChunks s.cumulativeAck s.inboundDataChunks false packet
  if packet.any Chunk.isData then
    let cumulativeAck := prepareSackLoop r.1 s.cumulativeAck
    if r.2 then
      let g := gatherLoop cumulativeAck r.1
      (⟨g.1, cumulativeAck⟩, g.2)
    else (⟨r.1, cumulativeAck⟩, [])
  else (⟨r.1, s.cumulativeAck⟩, [])

/-! ## Every byte passed on has arrived

A report takes its bytes from the chunks in the map and only erases from it, and a chunk goes
into the map with the payload it arrived with: whatever holds of every byte that arrives holds of
every byte the listener is given (`onDataReceived_bytes`). -/

section Bytes

variable (Q : BitVec 8 → Prop)

/-- Every byte of every chunk in the map satisfies `Q`. -/
def AllBytes (chunks : List (BitVec 32 × ReceivedDataChunk)) : Prop :=
  ∀ e ∈ chunks, ∀ b ∈ e.2.data, Q b

variable {Q}

theorem AllBytes.of_subset {chunks chunks' : List (BitVec 32 × ReceivedDataChunk)}
    (h : AllBytes Q chunks) (hsub : ∀ e ∈ chunks', e ∈ chunks) : AllBytes Q chunks' :=
  fun e he => h e (hsub e he)

theorem mem_arrayAppend {capacity : Nat} {buffer data : List (BitVec 8)} {b : BitVec 8}
    (hb : b ∈ arrayAppend capacity buffer data) : b ∈ buffer ∨ b ∈ data := by
  unfold arrayAppend at hb
  split at hb
  · exact List.mem_append.mp hb
  · exact .inl hb

/-- The loop of `reportFragment` appends bytes of the map and keeps a part of it. -/
theorem reportLoop_bytes (capacity : Nat) :
    ∀ {chunks : List (BitVec 32 × ReceivedDataChunk)} {buffer : List (BitVec 8)},
      AllBytes Q chunks → (∀ b ∈ buffer, Q b) →
      (∀ b ∈ (reportLoop capacity chunks buffer).1, Q b) ∧
        ∀ rest, (reportLoop capacity chunks buffer).2 = some rest → AllBytes Q rest
  | [], _, _, hbuf => ⟨hbuf, fun _ hr => by simp [reportLoop] at hr⟩
  | (tsn, chunk) :: rest, buffer, h, hbuf => by
      have happend : ∀ b ∈ arrayAppend capacity buffer chunk.data, Q b := fun b hb =>
        (mem_arrayAppend hb).elim (hbuf b) (h (tsn, chunk) List.mem_cons_self b)
      have hrest : AllBytes Q rest := h.of_subset fun e he => List.mem_cons_of_mem _ he
      rw [reportLoop_cons]
      split
      · exact ⟨happend, fun r hr => by cases hr; exact hrest⟩
      · exact reportLoop_bytes capacity hrest happend

/-- A report gives bytes of the map and leaves a part of it. -/
theorem gatherReceivedFragments_bytes {cumulativeAck : BitVec 32}
    {chunks chunks' : List (BitVec 32 × ReceivedDataChunk)} {report : FragmentReceived}
    (h : AllBytes Q chunks) (hgather : gatherReceivedFragments cumulativeAck chunks =
      some (chunks', report)) :
    AllBytes Q chunks' ∧ ∀ b ∈ report.data, Q b := by
  unfold gatherReceivedFragments at hgather
  split at hgather
  · cases hgather
  · next chunkHead fragmentSize _ =>
    unfold reportFragment at hgather
    split at hgather
    · cases hgather
    · have hdrop : AllBytes Q (chunks.drop chunkHead) :=
        h.of_subset fun e he => List.mem_of_mem_drop he
      obtain ⟨hbuf, hrest⟩ :=
        @reportLoop_bytes Q fragmentSize (chunks.drop chunkHead) [] hdrop fun b hb => by cases hb
      simp only [Option.some.injEq, Prod.mk.injEq] at hgather
      obtain ⟨rfl, rfl⟩ := hgather
      refine ⟨?_, hbuf⟩
      split
      · next rest hr =>
        intro e he
        rcases List.mem_append.mp he with he | he
        · exact h e (List.mem_of_mem_take he) 
        · exact hrest rest hr e he
      · exact h

/-- The gather loop gives bytes of the map and leaves a part of it. -/
theorem gatherLoop_bytes (cumulativeAck : BitVec 32) :
    ∀ (n : Nat) (chunks : List (BitVec 32 × ReceivedDataChunk)), chunks.length = n →
      AllBytes Q chunks →
      AllBytes Q (gatherLoop cumulativeAck chunks).1 ∧
        ∀ r ∈ (gatherLoop cumulativeAck chunks).2, ∀ b ∈ r.data, Q b := by
  -- on the length of the map, which every report shortens
  intro n
  induction n using Nat.strong_induction_on with
  | _ n ih =>
    intro chunks hn h
    cases hgather : gatherReceivedFragments cumulativeAck chunks with
    | none =>
      rw [gatherLoop_of_none hgather]
      exact ⟨h, fun r hr => by cases hr⟩
    | some result =>
      obtain ⟨chunks', report⟩ := result
      obtain ⟨h', hreport⟩ := gatherReceivedFragments_bytes h hgather
      have hlt := length_gatherReceivedFragments_lt hgather
      obtain ⟨ih1, ih2⟩ := ih chunks'.length (hn ▸ hlt) chunks' rfl h'
      rw [gatherLoop_of_some hgather]
      refine ⟨ih1, fun r hr => ?_⟩
      rcases List.mem_cons.mp hr with rfl | hr
      · exact hreport
      · exact ih2 r hr

theorem insertChunk_bytes {chunks : List (BitVec 32 × ReceivedDataChunk)} {tsn : BitVec 32}
    {chunk : ReceivedDataChunk} (h : AllBytes Q chunks) (hchunk : ∀ b ∈ chunk.data, Q b) :
    AllBytes Q (insertChunk chunks tsn chunk) := by
  intro e he
  unfold insertChunk at he
  rcases List.mem_append.mp he with he | he
  · exact h e (List.takeWhile_subset _ he)
  · rcases List.mem_cons.mp he with rfl | he
    · exact hchunk
    · exact h e (List.dropWhile_subset _ he)

/-- A DATA chunk leaves the map as it is or goes into it. -/
theorem receiveDataChunk_fst (cumulativeAck : BitVec 32)
    (chunks : List (BitVec 32 × ReceivedDataChunk)) (chunk : PayloadDataChunk) (room : Bool) :
    (receiveDataChunk cumulativeAck chunks chunk room).1 = chunks ∨
      (receiveDataChunk cumulativeAck chunks chunk room).1 =
        insertChunk chunks chunk.transmissionSequenceNumber (.ofPayload chunk) := by
  unfold receiveDataChunk
  dsimp only
  split
  · split
    · exact .inl rfl
    · split
      · exact .inl rfl
      · split
        · exact .inr rfl
        · exact .inl rfl
  · exact .inl rfl

/-- The chunks of a packet go into the map with their payloads. -/
theorem receiveChunks_bytes (cumulativeAck : BitVec 32) :
    ∀ (packet : List Chunk) {chunks : List (BitVec 32 × ReceivedDataChunk)}
      (newDataReceived : Bool), AllBytes Q chunks →
      (∀ x room, Chunk.data x room ∈ packet → ∀ b ∈ x.payload, Q b) →
      AllBytes Q (receiveChunks cumulativeAck chunks newDataReceived packet).1
  | [], _, _, h, _ => h
  | .other :: packet, _, newDataReceived, h, hpacket =>
      receiveChunks_bytes cumulativeAck packet newDataReceived h
        fun x room hx => hpacket x room (List.mem_cons_of_mem _ hx)
  | .data x room :: packet, chunks, newDataReceived, h, hpacket => by
      have hone : AllBytes Q (receiveDataChunk cumulativeAck chunks x room).1 := by
        rcases receiveDataChunk_fst cumulativeAck chunks x room with hsame | hinsert
        · rw [hsame]; exact h
        · rw [hinsert]
          exact insertChunk_bytes h fun b hb => hpacket x room List.mem_cons_self b hb
      exact receiveChunks_bytes cumulativeAck packet _ hone
        fun y r hy => hpacket y r (List.mem_cons_of_mem _ hy)

/-- **Every byte the listener is given arrived in a DATA chunk**: a property of every byte that
arrives holds of every byte of the map and of every report. -/
theorem onDataReceived_bytes {s : InboundState} {packet : List Chunk}
    (h : AllBytes Q s.inboundDataChunks)
    (hpacket : ∀ x room, Chunk.data x room ∈ packet → ∀ b ∈ x.payload, Q b) :
    AllBytes Q (onDataReceived s packet).1.inboundDataChunks ∧
      ∀ r ∈ (onDataReceived s packet).2, ∀ b ∈ r.data, Q b := by
  have hr := receiveChunks_bytes s.cumulativeAck packet false h hpacket
  simp only [onDataReceived]
  split
  · split
    · exact gatherLoop_bytes _ _ _ rfl hr
    · exact ⟨hr, fun r hr => by cases hr⟩
  · exact ⟨hr, fun r hr => by cases hr⟩

end Bytes

end MediaBridge.Transport.Sctp
