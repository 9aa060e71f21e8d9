import MediaBridge.Lib.Run
import MediaBridge.Memory.RingAllocator
import MediaBridge.Transport.SctpReassembly

set_option autoImplicit false

/-! # The send path of an SCTP association: `SctpAssociationImpl::sendMessage`

A message is cut into `pktCount` DATA chunks of at most `payloadMtu` bytes, the MTU less the
common header and the DATA chunk header. Each chunk is a `SentDataChunk` record followed by its
bytes, placed in the outbound ring buffer, appended to `_outboundDataChunks` and given the next
TSN; the first carries the begin flag, the last the end flag, all the stream's sequence number,
which then moves on by one.

Before the chunks are made, `sendMessage` checks that the buffer's capacity holds
`pktCount` records and the message. The allocator needs more: an eight-byte block header per
chunk and the block rounded up to eight bytes (`Memory.RingAllocator`). When an allocation fails
anyway, the chunks made so far are taken back and freed and `false` is returned, but the TSNs
they took are not given back.

The cutting itself is right: when the call succeeds, the chunks are `pktCount` pieces of one to
`payloadMtu` bytes, consecutive TSNs, that concatenate to the message (`sendMessage_chunks`).
A fresh association with a 4096-byte buffer reaches the failing allocation after two messages
(`sendMessage_refused_after_check`).

Sizes are `Nat`: the capacity check bounds the message by the buffer, far below `2^32`. The
association's other state, and `processOutboundChunks`, which transmits the chunks, are left out.
-/

namespace MediaBridge.Transport.Sctp

open Memory

/-- `SctpPacketW::HEADER_SIZE`, the common header. -/
def SctpPacketW.HEADER_SIZE : Nat := 12

/-- `PayloadDataChunk::HEADER_SIZE`: the chunk header, the TSN, the stream id and sequence
number, and the payload protocol. -/
def PayloadDataChunk.HEADER_SIZE : Nat := 16

/-- `PAYLOAD_DATA_OVERHEAD`. -/
def PAYLOAD_DATA_OVERHEAD : Nat := SctpPacketW.HEADER_SIZE + PayloadDataChunk.HEADER_SIZE

/-- `SctpAssociationImpl::SentDataChunk`, with the address the allocator gave it and the bytes
that follow it. -/
structure SentDataChunk where
  address : Nat
  transmitTime : BitVec 64
  size : Nat
  transmissionSequenceNumber : BitVec 32
  streamId : BitVec 16
  streamSequenceNumber : BitVec 16
  payloadProtocol : BitVec 32
  transmitCount : BitVec 16
  nackCount : BitVec 16
  fragmentBegin : Bool
  fragmentEnd : Bool
  payload : List (BitVec 8)
  deriving DecidableEq, Repr

/-- `sizeof(SentDataChunk)`. -/
def SentDataChunk.byteSize : Nat := 40

/-- What `sendMessage` reads and writes of the association: whether it is established, the
current MTU, `_local.tsn`, the streams with their sequence counters, the outbound chunks and
the outbound buffer. -/
structure SendState where
  established : Bool
  mtu : Nat
  localTsn : BitVec 32
  streams : List (BitVec 16 × BitVec 16)
  outboundDataChunks : List SentDataChunk
  outboundBuffer : RingAllocator
  deriving DecidableEq, Repr

namespace SendState

/-- The number of chunks a message of `length` bytes is cut into. -/
def pktCount (length payloadMtu : Nat) : Nat :=
  if length > payloadMtu then (length + payloadMtu - 1) / payloadMtu else 1

/-- The bytes per chunk, all but the last. -/
def payloadSize (length pktCount payloadMtu : Nat) : Nat := min (1 + length / pktCount) payloadMtu

/-- The `SentDataChunk` the loop places at `address` for index `i`, `toWrite` bytes from
`writtenBytes` on. -/
def dataChunk (streamId : BitVec 16) (payloadProtocol : BitVec 32) (sequenceCounter : BitVec 16)
    (pktCount : Nat) (payload : List (BitVec 8)) (i writtenBytes toWrite : Nat)
    (tsn : BitVec 32) (address : Nat) : SentDataChunk where
  address := address
  transmitTime := 0
  size := toWrite
  transmissionSequenceNumber := tsn
  streamId := streamId
  streamSequenceNumber := sequenceCounter
  payloadProtocol := payloadProtocol
  transmitCount := 0
  nackCount := 0
  fragmentBegin := i == 0
  fragmentEnd := i == pktCount - 1
  payload := (payload.drop writtenBytes).take toWrite

/-- The rollback after a failed allocation: the last `k` chunks taken off and freed. -/
def rollback : Nat → SendState → SendState
  | 0, s => s
  | k + 1, s =>
      match s.outboundDataChunks.getLast? with
      | none => s
      | some chunk =>
          rollback k { s with
            outboundDataChunks := s.outboundDataChunks.dropLast
            outboundBuffer := s.outboundBuffer.free chunk.address }

/-- The loop of `sendMessage`: `fuel` more chunks from index `i`, with `length` bytes left and
`writtenBytes` written. -/
def sendLoop (streamId : BitVec 16) (payloadProtocol : BitVec 32) (sequenceCounter : BitVec 16)
    (pktCount payloadSize : Nat) (payload : List (BitVec 8)) :
    Nat → Nat → Nat → Nat → SendState → SendState × Bool
  | 0, _, _, _, s => (s, true)
  | fuel + 1, i, length, writtenBytes, s =>
      let toWrite := min length payloadSize
      match s.outboundBuffer.alloc (SentDataChunk.byteSize + toWrite) with
      | none => (rollback i s, false)
      | some (address, buffer) =>
          sendLoop streamId payloadProtocol sequenceCounter pktCount payloadSize payload fuel
            (i + 1) (length - toWrite) (writtenBytes + toWrite)
            { s with
              outboundBuffer := buffer
              outboundDataChunks := s.outboundDataChunks ++
                [dataChunk streamId payloadProtocol sequenceCounter pktCount payload i writtenBytes
                  toWrite s.localTsn address]
              localTsn := s.localTsn + 1 }

/-- `++streamState.sequenceCounter`. -/
def incrementCounter (streamId : BitVec 16) (streams : List (BitVec 16 × BitVec 16)) :
    List (BitVec 16 × BitVec 16) :=
  streams.map fun stream => if stream.1 = streamId then (stream.1, stream.2 + 1) else stream

/-- `sendMessage(streamId, payloadProtocol, payloadData, length, timestamp)`. -/
def sendMessage (s : SendState) (streamId : BitVec 16) (payloadProtocol : BitVec 32)
    (payload : List (BitVec 8)) : SendState × Bool :=
  match s.streams.lookup streamId with
  | none => (s, false)
  | some sequenceCounter =>
      if !s.established then (s, false)
      else if payload.length = 0 then (s, true)
      else
        let payloadMtu := s.mtu - PAYLOAD_DATA_OVERHEAD
        let pktCount := pktCount payload.length payloadMtu
        let payloadSize := payloadSize payload.length pktCount payloadMtu
        if pktCount * SentDataChunk.byteSize + payload.length > s.outboundBuffer.capacity then
          (s, false)
        else
          let r := sendLoop streamId payloadProtocol sequenceCounter pktCount payloadSize payload
            pktCount 0 payload.length 0 s
          if r.2 then ({ r.1 with streams := incrementCounter streamId r.1.streams }, true) else r

/-! ## The loop -/

/-- One TSN, then `n` more. -/
theorem add_one_add_ofNat (a : BitVec 32) (n : Nat) :
    a + 1 + BitVec.ofNat 32 n = a + BitVec.ofNat 32 (n + 1) := by
  rw [BitVec.ofNat_add, BitVec.add_assoc, BitVec.add_comm (1 : BitVec 32)]
  rfl

section Loop

variable (streamId : BitVec 16) (payloadProtocol : BitVec 32) (sequenceCounter : BitVec 16)
  (pktCount payloadSize : Nat) (payload : List (BitVec 8))

/-- **A loop that succeeds** appends one chunk per round, with consecutive TSNs: chunk `k`
holds `payloadSize` bytes, or what is left, from `min (k * payloadSize) length` on. -/
theorem sendLoop_spec : ∀ (fuel i length writtenBytes : Nat) (s : SendState),
    (sendLoop streamId payloadProtocol sequenceCounter pktCount payloadSize payload fuel i length
      writtenBytes s).2 = true →
    ∃ added : List SentDataChunk,
      (sendLoop streamId payloadProtocol sequenceCounter pktCount payloadSize payload fuel i length
        writtenBytes s).1 =
        { s with
          outboundDataChunks := s.outboundDataChunks ++ added
          localTsn := s.localTsn + BitVec.ofNat 32 fuel
          outboundBuffer := (sendLoop streamId payloadProtocol sequenceCounter pktCount payloadSize
            payload fuel i length writtenBytes s).1.outboundBuffer } ∧
      added.length = fuel ∧
      ∀ k (hk : k < added.length), ∃ address, added[k] =
        dataChunk streamId payloadProtocol sequenceCounter pktCount payload (i + k)
          (writtenBytes + min (k * payloadSize) length) (min (length - k * payloadSize) payloadSize)
          (s.localTsn + BitVec.ofNat 32 k) address := by
  intro fuel
  induction fuel with
  | zero =>
      intro i length writtenBytes s _
      exact ⟨[], by simp [sendLoop], rfl, fun k hk => absurd hk (Nat.not_lt_zero k)⟩
  | succ fuel ih =>
      intro i length writtenBytes s h
      unfold sendLoop at h ⊢
      dsimp only at h ⊢
      cases halloc : s.outboundBuffer.alloc (SentDataChunk.byteSize + min length payloadSize) with
      | none =>
          rw [halloc] at h
          simp at h
      | some r =>
          obtain ⟨address, buffer⟩ := r
          rw [halloc] at h
          dsimp only at h ⊢
          obtain ⟨added, heq, hlen, hchunks⟩ := ih _ _ _ _ h
          -- the first chunk, then the rounds after it
          refine ⟨dataChunk streamId payloadProtocol sequenceCounter pktCount payload i writtenBytes
            (min length payloadSize) s.localTsn address :: added, ?_, by simp [hlen], ?_⟩
          · rw [heq, add_one_add_ofNat]
            simp only [List.append_assoc, List.singleton_append]
          · intro k hk
            cases k with
            | zero => exact ⟨address, by simp⟩
            | succ k =>
                obtain ⟨address', hk'⟩ := hchunks k (by simpa using hk)
                refine ⟨address', ?_⟩
                rw [List.getElem_cons_succ, hk', Nat.succ_mul]
                have hoff : writtenBytes + min length payloadSize +
                    min (k * payloadSize) (length - min length payloadSize) =
                    writtenBytes + min (k * payloadSize + payloadSize) length := by omega
                have hsize : min (length - min length payloadSize - k * payloadSize) payloadSize =
                    min (length - (k * payloadSize + payloadSize)) payloadSize := by omega
                rw [hoff, hsize, add_one_add_ofNat, show i + 1 + k = i + (k + 1) by omega]

end Loop

/-! ## The cut -/

/-- `pktCount` pieces of `payloadMtu` bytes hold the message, one fewer do not. -/
theorem pktCount_bounds {length payloadMtu : Nat} (hmtu : 0 < payloadMtu) (hlen : 0 < length) :
    0 < pktCount length payloadMtu ∧ length ≤ pktCount length payloadMtu * payloadMtu ∧
      (pktCount length payloadMtu - 1) * payloadMtu < length := by
  unfold pktCount
  split
  · rename_i hgt
    -- `(length + payloadMtu - 1) / payloadMtu` is the ceiling of `length / payloadMtu`
    have hdiv := Nat.div_add_mod (length + payloadMtu - 1) payloadMtu
    have hmod := Nat.mod_lt (length + payloadMtu - 1) hmtu
    set n := (length + payloadMtu - 1) / payloadMtu
    have hmul : n * payloadMtu = payloadMtu * n := Nat.mul_comm _ _
    have hpos : 0 < n := Nat.div_pos (by omega) hmtu
    have hsub : (n - 1) * payloadMtu = n * payloadMtu - payloadMtu := Nat.sub_one_mul _ _
    refine ⟨hpos, by omega, by omega⟩
  · omega

/-- Pieces of `payloadSize` bytes: at least one byte, at most `payloadMtu`, and `pktCount` of
them hold the message while one fewer do not. -/
theorem payloadSize_bounds {length payloadMtu : Nat} (hmtu : 0 < payloadMtu) (hlen : 0 < length) :
    0 < payloadSize length (pktCount length payloadMtu) payloadMtu ∧
    payloadSize length (pktCount length payloadMtu) payloadMtu ≤ payloadMtu ∧
    (pktCount length payloadMtu - 1) * payloadSize length (pktCount length payloadMtu) payloadMtu <
      length ∧
    length ≤ pktCount length payloadMtu * payloadSize length (pktCount length payloadMtu) payloadMtu := by
  obtain ⟨hpos, hceil, hfloor⟩ := pktCount_bounds hmtu hlen
  set n := pktCount length payloadMtu
  unfold payloadSize
  have hle : min (1 + length / n) payloadMtu ≤ payloadMtu := Nat.min_le_right _ _
  refine ⟨Nat.lt_min.mpr ⟨Nat.add_pos_left Nat.one_pos _, hmtu⟩, hle, ?_, ?_⟩
  · calc (n - 1) * min (1 + length / n) payloadMtu ≤ (n - 1) * payloadMtu :=
          Nat.mul_le_mul_left _ hle
      _ < length := hfloor
  · rcases Nat.le_total (1 + length / n) payloadMtu with hmin | hmin
    · -- one more than the quotient, `n` times, is more than `length`
      rw [Nat.min_eq_left hmin, Nat.mul_add, Nat.mul_one]
      have hdiv := Nat.div_add_mod length n
      have hmod := Nat.mod_lt length hpos
      omega
    · rw [Nat.min_eq_right hmin]
      exact hceil

/-- Consecutive slices of `S` elements concatenate to a prefix. -/
theorem flatten_take_drop {α : Type} (l : List α) (S : Nat) :
    ∀ n, ((List.range n).map fun k => (l.drop (k * S)).take S).flatten = l.take (n * S)
  | 0 => by simp
  | n + 1 => by
      rw [List.range_succ, List.map_append, List.flatten_append, flatten_take_drop l S n,
        Nat.succ_mul, List.take_add]
      simp

/-- A call that succeeds for a non-empty message ran the loop to its end. -/
theorem sendMessage_of_sent {s : SendState} {streamId : BitVec 16} {payloadProtocol : BitVec 32}
    {payload : List (BitVec 8)} {sequenceCounter : BitVec 16}
    (hstream : s.streams.lookup streamId = some sequenceCounter) (hlen : 0 < payload.length)
    (hsent : (s.sendMessage streamId payloadProtocol payload).2 = true) :
    (sendLoop streamId payloadProtocol sequenceCounter
      (pktCount payload.length (s.mtu - PAYLOAD_DATA_OVERHEAD))
      (payloadSize payload.length (pktCount payload.length (s.mtu - PAYLOAD_DATA_OVERHEAD))
        (s.mtu - PAYLOAD_DATA_OVERHEAD)) payload
      (pktCount payload.length (s.mtu - PAYLOAD_DATA_OVERHEAD)) 0 payload.length 0 s).2 = true ∧
    (s.sendMessage streamId payloadProtocol payload).1 =
      { (sendLoop streamId payloadProtocol sequenceCounter
          (pktCount payload.length (s.mtu - PAYLOAD_DATA_OVERHEAD))
          (payloadSize payload.length (pktCount payload.length (s.mtu - PAYLOAD_DATA_OVERHEAD))
            (s.mtu - PAYLOAD_DATA_OVERHEAD)) payload
          (pktCount payload.length (s.mtu - PAYLOAD_DATA_OVERHEAD)) 0 payload.length 0 s).1 with
        streams := incrementCounter streamId (sendLoop streamId payloadProtocol sequenceCounter
          (pktCount payload.length (s.mtu - PAYLOAD_DATA_OVERHEAD))
          (payloadSize payload.length (pktCount payload.length (s.mtu - PAYLOAD_DATA_OVERHEAD))
            (s.mtu - PAYLOAD_DATA_OVERHEAD)) payload
          (pktCount payload.length (s.mtu - PAYLOAD_DATA_OVERHEAD)) 0 payload.length 0 s).1.streams } := by
  unfold sendMessage at hsent ⊢
  rw [hstream] at hsent ⊢
  dsimp only at hsent ⊢
  rw [if_neg (Nat.pos_iff_ne_zero.mp hlen)] at hsent ⊢
  -- the association is established, the check passes and the loop succeeds
  cases hest : s.established
  · simp [hest] at hsent
  · rw [hest] at hsent
    rw [Bool.not_true, if_neg Bool.false_ne_true] at hsent ⊢
    by_cases hcheck : pktCount payload.length (s.mtu - PAYLOAD_DATA_OVERHEAD) * SentDataChunk.byteSize +
        payload.length > s.outboundBuffer.capacity
    · rw [if_pos hcheck] at hsent
      exact absurd hsent Bool.false_ne_true
    · rw [if_neg hcheck] at hsent ⊢
      by_cases hloop : (sendLoop streamId payloadProtocol sequenceCounter
          (pktCount payload.length (s.mtu - PAYLOAD_DATA_OVERHEAD))
          (payloadSize payload.length (pktCount payload.length (s.mtu - PAYLOAD_DATA_OVERHEAD))
            (s.mtu - PAYLOAD_DATA_OVERHEAD)) payload
          (pktCount payload.length (s.mtu - PAYLOAD_DATA_OVERHEAD)) 0 payload.length 0 s).2 = true
      · rw [if_pos hloop]
        exact ⟨hloop, rfl⟩
      · rw [if_neg hloop] at hsent
        exact absurd hsent hloop

/-- **What a successful `sendMessage` appends**: `max 1 ⌈L / payloadMtu⌉` chunks of one to
`payloadMtu` bytes that concatenate to the message, with consecutive TSNs from `_local.tsn`,
the begin flag on the first only, the end flag on the last only, and the stream's sequence
number, which moves on by one. -/
theorem sendMessage_chunks {s : SendState} {streamId : BitVec 16} {payloadProtocol : BitVec 32}
    {payload : List (BitVec 8)} {sequenceCounter : BitVec 16}
    (hstream : s.streams.lookup streamId = some sequenceCounter)
    (hmtu : PAYLOAD_DATA_OVERHEAD < s.mtu) (hlen : 0 < payload.length)
    (hsent : (s.sendMessage streamId payloadProtocol payload).2 = true) :
    ∃ added : List SentDataChunk,
      (s.sendMessage streamId payloadProtocol payload).1.outboundDataChunks =
        s.outboundDataChunks ++ added ∧
      added.length = max 1 ((payload.length + (s.mtu - PAYLOAD_DATA_OVERHEAD) - 1) /
        (s.mtu - PAYLOAD_DATA_OVERHEAD)) ∧
      (added.map SentDataChunk.payload).flatten = payload ∧
      (∀ k (hk : k < added.length),
        1 ≤ added[k].size ∧ added[k].size ≤ s.mtu - PAYLOAD_DATA_OVERHEAD ∧
        added[k].payload.length = added[k].size ∧
        added[k].transmissionSequenceNumber = s.localTsn + BitVec.ofNat 32 k ∧
        added[k].fragmentBegin = decide (k = 0) ∧
        added[k].fragmentEnd = decide (k = added.length - 1) ∧
        added[k].streamId = streamId ∧ added[k].payloadProtocol = payloadProtocol ∧
        added[k].streamSequenceNumber = sequenceCounter) ∧
      (s.sendMessage streamId payloadProtocol payload).1.localTsn =
        s.localTsn + BitVec.ofNat 32 added.length ∧
      (s.sendMessage streamId payloadProtocol payload).1.streams =
        incrementCounter streamId s.streams := by
  obtain ⟨hloop, hresult⟩ := sendMessage_of_sent hstream hlen hsent
  set P := s.mtu - PAYLOAD_DATA_OVERHEAD with hP
  set L := payload.length with hL
  have hP0 : 0 < P := by omega
  obtain ⟨hn0, -, -⟩ := pktCount_bounds hP0 hlen
  obtain ⟨hS0, hSP, hfloor, hceil⟩ := payloadSize_bounds hP0 hlen
  set n := pktCount L P with hn
  set S := payloadSize L n P with hS
  obtain ⟨added, hstate, hcount, hchunks⟩ := sendLoop_spec streamId payloadProtocol sequenceCounter
    n S payload n 0 L 0 s hloop
  rw [hresult, hstate]
  -- every chunk but the last is full, and the last holds what is left
  have hk_le : ∀ k, k < n → k * S ≤ L := fun k hk =>
    le_of_lt (lt_of_le_of_lt (Nat.mul_le_mul_right S (by omega)) hfloor)
  have hslice : ∀ k, k < n → (payload.drop (min (k * S) L)).take (min (L - k * S) S) =
      (payload.drop (k * S)).take S := by
    intro k hk
    rw [Nat.min_eq_left (hk_le k hk), List.take_eq_take_iff, List.length_drop]
    omega
  have hbelow : ∀ k, k < n → k * S < L := fun k hk =>
    lt_of_le_of_lt (Nat.mul_le_mul_right S (by omega)) hfloor
  refine ⟨added, rfl, ?_, ?_, fun k hk => ?_, by simp [hcount], rfl⟩
  · -- `pktCount` is the ceiling of `L / P`, and `1` for a message that fits in one chunk
    rw [hcount, hn]
    unfold pktCount
    split
    · exact (Nat.max_eq_right (Nat.div_pos (by omega) hP0)).symm
    · have hone : (L + P - 1) / P = 1 := Nat.div_eq_of_lt_le (by omega) (by omega)
      rw [hone]
      rfl
  · -- the pieces are the message's consecutive slices of `S` bytes
    have hmap : added.map SentDataChunk.payload =
        (List.range n).map fun k => (payload.drop (k * S)).take S := by
      apply List.ext_getElem (by simp [hcount])
      intro k hk₁ hk₂
      have hkn : k < n := by simpa [hcount] using hk₁
      obtain ⟨address, hk'⟩ := hchunks k (by simpa using hk₁)
      rw [List.getElem_map, hk', List.getElem_map, List.getElem_range]
      simp only [dataChunk, Nat.zero_add]
      exact hslice k hkn
    rw [hmap, flatten_take_drop, List.take_of_length_le hceil]
  · have hkn : k < n := hcount ▸ hk
    have hkS := hbelow k hkn
    obtain ⟨address, hk'⟩ := hchunks k hk
    rw [hk']
    refine ⟨?_, ?_, ?_, ?_, ?_, ?_, ?_, ?_, ?_⟩ <;> simp only [dataChunk, Nat.zero_add, hcount]
    · omega
    · exact le_trans (Nat.min_le_right _ _) hSP
    · rw [List.length_take, List.length_drop]
      omega
    · rw [Bool.eq_iff_iff, beq_iff_eq, decide_eq_true_iff]
    · rw [Bool.eq_iff_iff, beq_iff_eq, decide_eq_true_iff]

/-- A message of 1500 bytes under an MTU of 1024 goes out as two chunks. -/
theorem sendMessage_chunks_two_chunks :
    let s : SendState := ⟨true, 1024, 0, [(0, 0)], [], RingAllocator.create 4096 4096⟩
    let payload : List (BitVec 8) := List.replicate 1500 7
    s.streams.lookup 0 = some 0 ∧ PAYLOAD_DATA_OVERHEAD < s.mtu ∧ 0 < payload.length ∧
      (s.sendMessage 0 0 payload).2 = true ∧
      ∃ added : List SentDataChunk,
        (s.sendMessage 0 0 payload).1.outboundDataChunks = s.outboundDataChunks ++ added ∧
        added.length = max 1 ((payload.length + (s.mtu - PAYLOAD_DATA_OVERHEAD) - 1) /
          (s.mtu - PAYLOAD_DATA_OVERHEAD)) ∧
        (added.map SentDataChunk.payload).flatten = payload ∧
        (∀ k (hk : k < added.length),
          1 ≤ added[k].size ∧ added[k].size ≤ s.mtu - PAYLOAD_DATA_OVERHEAD ∧
          added[k].payload.length = added[k].size ∧
          added[k].transmissionSequenceNumber = s.localTsn + BitVec.ofNat 32 k ∧
          added[k].fragmentBegin = decide (k = 0) ∧
          added[k].fragmentEnd = decide (k = added.length - 1) ∧
          added[k].streamId = 0 ∧ added[k].payloadProtocol = 0 ∧
          added[k].streamSequenceNumber = 0) ∧
        (s.sendMessage 0 0 payload).1.localTsn = s.localTsn + BitVec.ofNat 32 added.length ∧
        (s.sendMessage 0 0 payload).1.streams = incrementCounter 0 s.streams := by
  intro s payload
  have hstream : s.streams.lookup 0 = some 0 := by decide
  have hmtu : PAYLOAD_DATA_OVERHEAD < s.mtu := by decide
  have hlen : 0 < payload.length := by
    show 0 < (List.replicate 1500 (7 : BitVec 8)).length
    rw [List.length_replicate]
    decide
  have hsent : (s.sendMessage 0 0 payload).2 = true := by decide +kernel
  exact ⟨hstream, hmtu, hlen, hsent, sendMessage_chunks hstream hmtu hlen hsent⟩

/-- An established association with the default MTU and a 4096-byte outbound buffer sends three
messages of 752 bytes. A message of 1600 bytes then passes the capacity check (two records and
the bytes, 1680 of the 1696 left), but its second chunk finds no room: the call returns
`false`, and the TSN the first chunk took stays taken. -/
theorem sendMessage_refused_after_check :
    (Run.run (fun s payload => s.sendMessage 0 0 payload)
        (⟨true, 1024, 0, [(0, 0)], [], RingAllocator.create 4096 4096⟩ : SendState)
        [List.replicate 752 0, List.replicate 752 0, List.replicate 752 0]).2 = [true, true, true] ∧
      pktCount 1600 (1024 - PAYLOAD_DATA_OVERHEAD) * SentDataChunk.byteSize + 1600 ≤
        (Run.run (fun s payload => s.sendMessage 0 0 payload)
          (⟨true, 1024, 0, [(0, 0)], [], RingAllocator.create 4096 4096⟩ : SendState)
          [List.replicate 752 0, List.replicate 752 0, List.replicate 752 0]).1.outboundBuffer.capacity ∧
      ((Run.run (fun s payload => s.sendMessage 0 0 payload)
          (⟨true, 1024, 0, [(0, 0)], [], RingAllocator.create 4096 4096⟩ : SendState)
          [List.replicate 752 0, List.replicate 752 0, List.replicate 752 0]).1.sendMessage 0 0
          (List.replicate 1600 0)).2 = false ∧
      ((Run.run (fun s payload => s.sendMessage 0 0 payload)
          (⟨true, 1024, 0, [(0, 0)], [], RingAllocator.create 4096 4096⟩ : SendState)
          [List.replicate 752 0, List.replicate 752 0, List.replicate 752 0]).1.sendMessage 0 0
          (List.replicate 1600 0)).1.outboundDataChunks.length = 3 ∧
      ((Run.run (fun s payload => s.sendMessage 0 0 payload)
          (⟨true, 1024, 0, [(0, 0)], [], RingAllocator.create 4096 4096⟩ : SendState)
          [List.replicate 752 0, List.replicate 752 0, List.replicate 752 0]).1.sendMessage 0 0
          (List.replicate 1600 0)).1.localTsn = 4 := by
  decide +kernel

end SendState

end MediaBridge.Transport.Sctp
