import MediaBridge.Transport.SctpPrepareSack
import MediaBridge.Transport.SctpCongestionControl
import MediaBridge.Transport.SctpPacket

set_option autoImplicit false

/-! # Sending after a SACK: `handleFastRetransmits` and `processOutboundChunks`

`onSackReceived` ends with two passes over the outbound chunks that are left.

`handleFastRetransmits` enters fast recovery when a chunk has been reported missing three times,
and leaves it once the cumulative ack passes the exit point. In fast recovery it counts every
chunk at three misses once more, up to the first one that fits in a packet, which it sends
again.

`processOutboundChunks` computes the window still open from the congestion window, the peer's
window and the bytes in flight, and walks the chunks with a packet: a chunk that does not fit
sends the packet so far and uses up one packet of the burst, a chunk never sent is put in the
packet, and a sent chunk whose retransmit timeout has passed is sent again. The retransmit timer
is then restarted, extended or stopped.

Both passes keep the chunks and their order and change only their transmit counts and times, and
the first one the miss counts (`handleFastRetransmits_resends`, `processOutboundChunks_keeps`).
`processOutboundChunks` sends at most `max(1, maxBurst)` packets, one when it probes
(`processOutboundChunks_sent_le`), and fills none past its area when the MTU is in whole words and
every chunk fits in an empty packet (`processOutboundChunks_sent_fit`).

Times are compared by the 32-bit `sctp::diff`, the one the calls find in their namespace: the
64-bit timestamps are cut to their low 32 bits. The RTT estimator works in floating point and is
left out: its peak is an argument. The back-off factor is a power of two from `1` to `128`, kept
as its exponent, and the product `retransmitTimeout0 * factor` is taken exactly, as a double holds
it while it is below `2^53` ns. The packets are kept as their size and the TSNs put in them.
-/

namespace MediaBridge.Transport.Sctp

/-! ## Timers and the retransmit timeout -/

/-- `sctp::Timer`: when it expires and whether it is armed. The maximum timeout, read only by
`startMs`, is left out. -/
structure Timer where
  expires : BitVec 64
  armed : Bool
  deriving DecidableEq, Repr

namespace Timer

/-- `startNs(timestamp, timeoutNs)`. -/
def startNs (timestamp timeoutNs : BitVec 64) : Timer := ⟨timestamp + timeoutNs, true⟩

/-- `expireAt(timestamp)`. -/
def expireAt (timestamp : BitVec 64) : Timer := ⟨timestamp, true⟩

/-- `stop()`. -/
def stop (t : Timer) : Timer := { t with armed := false }

/-- `hasExpired(timestamp)`: armed, with `remainingTime`, `max(int64_t(_expires - timestamp), 0)`,
at `0`. -/
def hasExpired (t : Timer) (timestamp : BitVec 64) : Bool :=
  t.armed && decide ((t.expires - timestamp).toInt ≤ 0)

end Timer

/-- The fields of `CongestionControl` besides its window: the idle and retransmit timers, the
exit point of fast recovery, `retransmitTimeout0`, and `_retransmitBackOffFactor` as the exponent
`backOff` of its power of two. -/
structure FlowTimers where
  idleTimer : Timer
  retransmitTimer : Timer
  fastRecoveryExitPoint : BitVec 32
  retransmitTimeout0 : BitVec 64
  backOff : Nat
  deriving DecidableEq, Repr

namespace FlowTimers

variable (t : FlowTimers)

/-- `getRetransmitTimeout()`: `retransmitTimeout0` times the back-off factor, at most `RTO.max`
milliseconds. -/
def getRetransmitTimeout (rtoMaxMs : BitVec 32) : BitVec 64 :=
  umin (BitVec.ofNat 64 (t.retransmitTimeout0.toNat * 2 ^ t.backOff)) (rtoMaxMs.setWidth 64 * 1000000)

/-- `doubleRetransmitTimeout()`: the factor doubles, up to `128`. -/
def doubleRetransmitTimeout : FlowTimers := { t with backOff := min (t.backOff + 1) 7 }

/-- `resetRetransmitTimeout()`: the factor is `1` again. -/
def resetRetransmitTimeout : FlowTimers := { t with backOff := 0 }

end FlowTimers

/-- What `processOutboundChunks` reads of `SctpConfig`: `flow.maxBurst` and `RTO.max` in
milliseconds. -/
structure OutboundConfig where
  maxBurst : Nat
  rtoMaxMs : BitVec 32
  deriving DecidableEq, Repr

/-! ## Chunks and packets -/

/-- `fullSize()`: the payload and the DATA chunk header. -/
def SentDataChunk.fullSize (chunk : SentDataChunk) : Nat := chunk.size + 16

/-- A chunk put in a packet at `timestamp`: `chunk.transmitTime = timestamp; ++chunk.transmitCount`. -/
def SentDataChunk.transmit (chunk : SentDataChunk) (timestamp : BitVec 64) : SentDataChunk :=
  { chunk with transmitTime := timestamp, transmitCount := chunk.transmitCount + 1 }

/-- `SctpPacketW` on a stack area of `_mtu.current + 16` bytes, of which the last word is a guard:
its size so far, from the 12-byte common header, and the TSNs of the DATA chunks in it. -/
structure PacketW where
  size : Nat
  tsns : List (BitVec 32)
  deriving DecidableEq, Repr

namespace PacketW

/-- A packet with only its common header. -/
def empty : PacketW := ⟨12, []⟩

/-- `capacity()`: the area, less its guard word, less the size so far. -/
def capacity (mtu : BitVec 32) (p : PacketW) : Nat := ((mtu + 16).toNat - 4) - p.size

/-- `appendPayloadData(packet, chunk)`: the DATA chunk takes its length rounded up to a word. -/
def appendPayloadData (p : PacketW) (chunk : SentDataChunk) : PacketW :=
  ⟨p.size + paddedSize chunk.fullSize, p.tsns ++ [chunk.transmissionSequenceNumber]⟩

end PacketW

/-- `size()` of a SACK chunk: its header, the gap-ack blocks and the duplicates. -/
def SelectiveAckChunk.size (ack : SelectiveAckChunk) : Nat :=
  16 + 4 * (ack.gapAckBlocks.length + ack.duplicates.length)

/-- `getFlightSize(timestamp)`: the sizes of the leading chunks that are sent and whose retransmit
timeout has not passed. -/
def getFlightSize (rto timestamp : BitVec 64) : List SentDataChunk → BitVec 32
  | [] => 0
  | chunk :: chunks =>
      if 0 < chunk.transmitCount ∧
          diff (timestamp.setWidth 32) ((chunk.transmitTime + rto).setWidth 32) > 0 then
        BitVec.ofNat 32 chunk.size + getFlightSize rto timestamp chunks
      else 0

/-! ## `handleFastRetransmits` -/

/-- The first loop of `handleFastRetransmits`, outside fast recovery: fast recovery starts at a
chunk missed three times, and the exit point moves to every sent chunk up to the first unsent
one. -/
def scanFastRecovery : List SentDataChunk → Bool × BitVec 32 → Bool × BitVec 32
  | [], acc => acc
  | chunk :: chunks, (inFastRecovery, exitPoint) =>
      let inFastRecovery := inFastRecovery || chunk.nackCount == 3
      if 0 < chunk.transmitCount then
        scanFastRecovery chunks (inFastRecovery, chunk.transmissionSequenceNumber)
      else (inFastRecovery, exitPoint)

/-- The second loop, in fast recovery: the chunks at three misses are counted once more up to
the first one that fits in the packet, which is put in it and sent. -/
def fastRetransmitLoop (mtu : BitVec 32) (timestamp : BitVec 64) :
    List SentDataChunk → List SentDataChunk × PacketW
  | [] => ([], PacketW.empty)
  | chunk :: chunks =>
      if chunk.nackCount = 3 ∧ PacketW.empty.capacity mtu > chunk.fullSize then
        let chunk' := { chunk with nackCount := chunk.nackCount + 1 }
        (chunk'.transmit timestamp :: chunks, PacketW.empty.appendPayloadData chunk')
      else
        let rest := fastRetransmitLoop mtu timestamp chunks
        -- a chunk too large for one packet is counted, and not sent
        ((if chunk.nackCount = 3 then { chunk with nackCount := chunk.nackCount + 1 } else chunk) ::
          rest.1, rest.2)

/-- Whether `handleFastRetransmits` is in fast recovery after its first part, and the exit point:
outside fast recovery the first loop decides; inside, it ends when no chunk is left or the first
one is past the exit point. -/
def fastRecovery (flow : CongestionControl) (timers : FlowTimers) (chunks : List SentDataChunk) :
    Bool × BitVec 32 :=
  if !flow.inFastRecovery then scanFastRecovery chunks (false, timers.fastRecoveryExitPoint)
  else
    match chunks with
    | [] => (false, timers.fastRecoveryExitPoint)
    | front :: _ =>
        (!decide (diff timers.fastRecoveryExitPoint front.transmissionSequenceNumber > 0),
          timers.fastRecoveryExitPoint)

/-- `handleFastRetransmits(timestamp)`: the flow, its timers, the chunks and the packets sent. -/
def handleFastRetransmits (mtu : BitVec 32) (timestamp : BitVec 64) (flow : CongestionControl)
    (timers : FlowTimers) (chunks : List SentDataChunk) :
    CongestionControl × FlowTimers × List SentDataChunk × List PacketW :=
  let recovery := fastRecovery flow timers chunks
  let flow := { flow with inFastRecovery := recovery.1 }
  let timers := { timers with fastRecoveryExitPoint := recovery.2 }
  if recovery.1 then
    let resent := fastRetransmitLoop mtu timestamp chunks
    (flow, timers, resent.1, if resent.2.size > 12 then [resent.2] else [])
  else (flow, timers, chunks, [])

/-! ## `processOutboundChunks` -/

/-- The probe for a lost SACK: the leading sent chunks are made unsent. -/
def resetLeading : List SentDataChunk → List SentDataChunk
  | [] => []
  | chunk :: chunks =>
      if 0 < chunk.transmitCount then { chunk with transmitCount := 0 } :: resetLeading chunks
      else chunk :: chunks

/-- What the transmit loop carries: the packet being filled, the packets sent, the burst limit,
the window still open, the number of retransmits and the flow's timers. -/
structure TransmitProgress where
  packet : PacketW
  sent : List PacketW
  burstLimit : Nat
  availableWindow : BitVec 32
  retransmits : Nat
  timers : FlowTimers
  deriving DecidableEq, Repr

/-- A chunk put in the packet: the window shrinks by its full size. -/
def TransmitProgress.put (p : TransmitProgress) (chunk : SentDataChunk) : TransmitProgress :=
  { p with
    packet := p.packet.appendPayloadData chunk
    availableWindow := p.availableWindow - umin p.availableWindow (BitVec.ofNat 32 chunk.fullSize) }

/-- A chunk that does not fit sends the packet so far and uses up one packet of the burst. -/
def TransmitProgress.makeRoom (mtu : BitVec 32) (chunk : SentDataChunk) (p : TransmitProgress) :
    TransmitProgress :=
  if p.packet.capacity mtu < chunk.fullSize then
    { p with sent := p.sent ++ [p.packet], packet := PacketW.empty, burstLimit := p.burstLimit - 1 }
  else p

/-- The timer update for the first chunk when it goes out for the first time: a fresh timeout
while the peer has a window, a doubled one for a probe of a closed window. -/
def firstTransmitTimers (rtoMaxMs peerWindow : BitVec 32) (timestamp : BitVec 64)
    (timers : FlowTimers) : FlowTimers :=
  if peerWindow > 0 then
    let timers := timers.resetRetransmitTimeout
    { timers with retransmitTimer := Timer.expireAt (timestamp + timers.getRetransmitTimeout rtoMaxMs) }
  else
    let timers := timers.doubleRetransmitTimeout
    { timers with retransmitTimer := Timer.startNs timestamp (timers.getRetransmitTimeout rtoMaxMs) }

/-- The loop of `processOutboundChunks` from the chunk `it` on; `first` says `it` is the first
chunk. It stops at the end, or when the burst or the window is used up. -/
def transmitLoop (rtoMaxMs mtu peerWindow : BitVec 32) (timestamp : BitVec 64) :
    Bool → List SentDataChunk → TransmitProgress → List SentDataChunk × TransmitProgress
  | _, [], p => ([], p)
  | first, chunk :: chunks, p =>
      if p.burstLimit = 0 ∨ p.availableWindow = 0 then (chunk :: chunks, p)
      else
        let p := p.makeRoom mtu chunk
        if p.burstLimit = 0 then (chunk :: chunks, p)
        else if chunk.transmitCount = 0 then
          let p := { p.put chunk with
            timers := if first then firstTransmitTimers rtoMaxMs peerWindow timestamp p.timers
              else p.timers }
          let rest := transmitLoop rtoMaxMs mtu peerWindow timestamp false chunks p
          (chunk.transmit timestamp :: rest.1, rest.2)
        else if diff ((chunk.transmitTime + p.timers.getRetransmitTimeout rtoMaxMs).setWidth 32)
            (timestamp.setWidth 32) ≥ 0 then
          let p := { p.put chunk with retransmits := p.retransmits + 1 }
          let rest := transmitLoop rtoMaxMs mtu peerWindow timestamp false chunks p
          (chunk.transmit timestamp :: rest.1, rest.2)
        else
          let rest := transmitLoop rtoMaxMs mtu peerWindow timestamp false chunks p
          (chunk :: rest.1, rest.2)

/-- `updateRetransmitTimer(timestamp, retransmitsPerformed)`, with `_rtt.getPeak()` as
`rttPeak`. -/
def updateRetransmitTimer (rtoMaxMs mtu peerWindow : BitVec 32) (rttPeak timestamp : BitVec 64)
    (chunksEmpty retransmitsPerformed : Bool) (flow : CongestionControl) (timers : FlowTimers) :
    CongestionControl × FlowTimers :=
  if chunksEmpty then
    let timers := timers.resetRetransmitTimeout
    (flow, { timers with
      retransmitTimer := timers.retransmitTimer.stop
      idleTimer := Timer.startNs timestamp rttPeak })
  else if retransmitsPerformed then
    let timers := timers.doubleRetransmitTimeout
    let timers := { timers with
      retransmitTimer := Timer.startNs timestamp (timers.getRetransmitTimeout rtoMaxMs) }
    (if peerWindow > 0 then flow.onTransmitTimeout mtu else flow, timers)
  else if timers.retransmitTimer.hasExpired timestamp then
    (flow, { timers with
      retransmitTimer := Timer.expireAt (timestamp + timers.getRetransmitTimeout rtoMaxMs) })
  else (flow, timers)

/-- What `processOutboundChunks` returns: the flow and its timers, the chunks, and the packets
sent. `_ack.prepared` is `false` after it. -/
structure OutboundResult where
  flow : CongestionControl
  timers : FlowTimers
  chunks : List SentDataChunk
  sent : List PacketW
  deriving DecidableEq, Repr

/-- `processOutboundChunks(timestamp)`, with `_ack.prepared` and `_ack.pendingAck`, and
`_rtt.getPeak()` as `rttPeak`. -/
def processOutboundChunks (config : OutboundConfig) (mtu peerWindow : BitVec 32)
    (rttPeak timestamp : BitVec 64) (flow : CongestionControl) (timers : FlowTimers)
    (ackPrepared : Bool) (pendingAck : SelectiveAckChunk) (chunks : List SentDataChunk) :
    OutboundResult :=
  let flightSize := getFlightSize (timers.getRetransmitTimeout config.rtoMaxMs) timestamp chunks
  let windowSize := umin flow.congestionWindow peerWindow
  let availableWindow := windowSize - umin windowSize flightSize
  let availableWindow := if ackPrepared then
      availableWindow - BitVec.ofNat 32 (min availableWindow.toNat pendingAck.size)
    else availableWindow
  -- the probe for a lost SACK when the peer's window is closed and nothing is in flight
  let probe := peerWindow = 0 ∧ flightSize = 0
  let progress : TransmitProgress :=
    { packet := if ackPrepared then ⟨PacketW.empty.size + pendingAck.size, []⟩ else PacketW.empty
      sent := []
      burstLimit := if probe then 1 else max 1 config.maxBurst
      availableWindow := if probe then mtu else availableWindow
      retransmits := 0
      timers := timers }
  let result := transmitLoop config.rtoMaxMs mtu peerWindow timestamp true
    (if probe then resetLeading chunks else chunks) progress
  let updated := updateRetransmitTimer config.rtoMaxMs mtu peerWindow rttPeak timestamp
    result.1.isEmpty (result.2.retransmits > 0) flow result.2.timers
  { flow := updated.1
    timers := updated.2
    chunks := result.1
    sent := if result.2.packet.size > 12 then result.2.sent ++ [result.2.packet] else result.2.sent }

/-! ## What the two passes change -/

/-- What neither pass changes of a chunk: all but its transmit time and count and its miss
count. -/
def SentDataChunk.identity (chunk : SentDataChunk) :
    Nat × Nat × BitVec 32 × BitVec 16 × BitVec 16 × BitVec 32 × Bool × Bool × List (BitVec 8) :=
  (chunk.address, chunk.size, chunk.transmissionSequenceNumber, chunk.streamId,
    chunk.streamSequenceNumber, chunk.payloadProtocol, chunk.fragmentBegin, chunk.fragmentEnd,
    chunk.payload)

/-- What `processOutboundChunks` never changes of a chunk: its identity and its miss count. -/
def SentDataChunk.kept (chunk : SentDataChunk) :
    (Nat × Nat × BitVec 32 × BitVec 16 × BitVec 16 × BitVec 32 × Bool × Bool × List (BitVec 8)) ×
      BitVec 16 :=
  (chunk.identity, chunk.nackCount)

@[simp] theorem kept_transmit (chunk : SentDataChunk) (timestamp : BitVec 64) :
    (chunk.transmit timestamp).kept = chunk.kept := rfl

theorem map_kept_resetLeading : ∀ chunks : List SentDataChunk,
    (resetLeading chunks).map SentDataChunk.kept = chunks.map SentDataChunk.kept
  | [] => rfl
  | chunk :: chunks => by
      unfold resetLeading
      split
      · rw [List.map_cons, List.map_cons, map_kept_resetLeading chunks]
        rfl
      · rfl

/-- The transmit loop sends chunks and leaves them where they are. -/
theorem map_kept_transmitLoop (rtoMaxMs mtu peerWindow : BitVec 32) (timestamp : BitVec 64) :
    ∀ (first : Bool) (chunks : List SentDataChunk) (p : TransmitProgress),
      (transmitLoop rtoMaxMs mtu peerWindow timestamp first chunks p).1.map SentDataChunk.kept =
        chunks.map SentDataChunk.kept
  | _, [], _ => rfl
  | first, chunk :: chunks, p => by
      unfold transmitLoop
      -- every branch keeps the chunk, sent or not, in front of the loop over the rest
      split
      · rfl
      · dsimp only
        split
        · rfl
        · split
          · simp only [List.map_cons, kept_transmit, map_kept_transmitLoop]
          · split <;> simp only [List.map_cons, kept_transmit, map_kept_transmitLoop]

/-- **`processOutboundChunks` keeps the chunks**: their order, identities and miss counts. -/
theorem processOutboundChunks_keeps (config : OutboundConfig) (mtu peerWindow : BitVec 32)
    (rttPeak timestamp : BitVec 64) (flow : CongestionControl) (timers : FlowTimers)
    (ackPrepared : Bool) (pendingAck : SelectiveAckChunk) (chunks : List SentDataChunk) :
    (processOutboundChunks config mtu peerWindow rttPeak timestamp flow timers ackPrepared
        pendingAck chunks).chunks.map SentDataChunk.kept = chunks.map SentDataChunk.kept := by
  unfold processOutboundChunks
  dsimp only
  rw [map_kept_transmitLoop]
  split
  · exact map_kept_resetLeading chunks
  · rfl

/-- What `handleFastRetransmits` may do to a chunk: keep its identity, and count it missing once
more only when it was missed three times. -/
def Resent (chunk chunk' : SentDataChunk) : Prop :=
  chunk'.identity = chunk.identity ∧
    (chunk'.nackCount = chunk.nackCount ∨ (chunk.nackCount = 3 ∧ chunk'.nackCount = 4))

theorem Resent.refl (chunk : SentDataChunk) : Resent chunk chunk := ⟨rfl, .inl rfl⟩

theorem forall₂_resent_refl (chunks : List SentDataChunk) : List.Forall₂ Resent chunks chunks :=
  List.forall₂_same.mpr fun c _ => Resent.refl c

theorem resent_nack_of_three {chunk : SentDataChunk} (h : chunk.nackCount = 3) :
    Resent chunk { chunk with nackCount := chunk.nackCount + 1 } :=
  ⟨rfl, .inr ⟨h, by rw [h]; rfl⟩⟩

/-- A chunk that the transmit pass then sends is still resent from the same chunk. -/
theorem Resent.of_kept {chunk chunk' chunk'' : SentDataChunk} (h : Resent chunk chunk')
    (hk : chunk''.kept = chunk'.kept) : Resent chunk chunk'' := by
  obtain ⟨hid, hn⟩ := h
  have hn' : chunk''.nackCount = chunk'.nackCount := congrArg Prod.snd hk
  exact ⟨(congrArg Prod.fst hk).trans hid, hn' ▸ hn⟩

theorem forall₂_resent_of_map_kept : ∀ {chunks chunks' chunks'' : List SentDataChunk},
    List.Forall₂ Resent chunks chunks' →
      chunks''.map SentDataChunk.kept = chunks'.map SentDataChunk.kept →
      List.Forall₂ Resent chunks chunks''
  | _, _, [], .nil, _ => .nil
  | _, _, _ :: _, .nil, h => absurd h (List.cons_ne_nil _ _)
  | _, _, [], .cons _ _, h => absurd h.symm (List.cons_ne_nil _ _)
  | _, _, _ :: _, .cons hr hrest, h => by
      rw [List.map_cons, List.map_cons, List.cons.injEq] at h
      exact .cons (hr.of_kept h.1) (forall₂_resent_of_map_kept hrest h.2)

theorem forall₂_resent_fastRetransmitLoop (mtu : BitVec 32) (timestamp : BitVec 64) :
    ∀ chunks : List SentDataChunk,
      List.Forall₂ Resent chunks (fastRetransmitLoop mtu timestamp chunks).1
  | [] => .nil
  | chunk :: chunks => by
      unfold fastRetransmitLoop
      split
      · next h =>
          exact .cons (resent_nack_of_three h.1) (forall₂_resent_refl chunks)
      · refine .cons ?_ (forall₂_resent_fastRetransmitLoop mtu timestamp chunks)
        split
        · next h => exact resent_nack_of_three h
        · exact Resent.refl chunk

/-- **`handleFastRetransmits` keeps the chunks** and counts a miss once more only on chunks
missed three times. -/
theorem handleFastRetransmits_resends (mtu : BitVec 32) (timestamp : BitVec 64)
    (flow : CongestionControl) (timers : FlowTimers) (chunks : List SentDataChunk) :
    List.Forall₂ Resent chunks (handleFastRetransmits mtu timestamp flow timers chunks).2.2.1 := by
  unfold handleFastRetransmits
  dsimp only
  split
  · exact forall₂_resent_fastRetransmitLoop mtu timestamp chunks
  · exact forall₂_resent_refl chunks

/-! ## Invariants of the transmit loop -/

/-- **The transmit loop's induction rule.** A property of what the loop carries that reads only
the packet, the packets sent and the burst holds after the loop, when making room for a chunk
of the list keeps it, and putting the chunk in the packet made room for keeps it too. -/
theorem transmitLoop_inv (rtoMaxMs mtu peerWindow : BitVec 32) (timestamp : BitVec 64)
    (Q : TransmitProgress → Prop) (P : SentDataChunk → Prop)
    (hfields : ∀ p p' : TransmitProgress, p'.packet = p.packet → p'.sent = p.sent →
      p'.burstLimit = p.burstLimit → Q p → Q p')
    (hroom : ∀ (p : TransmitProgress) (chunk : SentDataChunk), P chunk → p.burstLimit ≠ 0 → Q p →
      Q (p.makeRoom mtu chunk))
    (hput : ∀ (p : TransmitProgress) (chunk : SentDataChunk), P chunk →
      (p.makeRoom mtu chunk).burstLimit ≠ 0 → Q (p.makeRoom mtu chunk) →
      Q ((p.makeRoom mtu chunk).put chunk)) :
    ∀ (first : Bool) (chunks : List SentDataChunk) (p : TransmitProgress),
      (∀ c ∈ chunks, P c) → Q p → Q (transmitLoop rtoMaxMs mtu peerWindow timestamp first chunks p).2
  | _, [], _, _, h => h
  | first, chunk :: chunks, p, hchunks, h => by
      have hchunk := hchunks chunk List.mem_cons_self
      have hrest : ∀ c ∈ chunks, P c := fun c hc => hchunks c (List.mem_cons_of_mem chunk hc)
      have ih := transmitLoop_inv rtoMaxMs mtu peerWindow timestamp Q P hfields hroom hput false
        chunks
      unfold transmitLoop
      split
      · exact h
      · next hstop =>
        have hroom' := hroom p chunk hchunk (fun h0 => hstop (.inl h0)) h
        dsimp only
        split
        · exact hroom'
        · next hpos =>
          -- a chunk sent for the first time or again is put in the packet; another is passed
          have hput' := hput p chunk hchunk hpos hroom'
          split
          · exact ih _ hrest (hfields ((p.makeRoom mtu chunk).put chunk) _ rfl rfl rfl hput')
          · split
            · exact ih _ hrest (hfields ((p.makeRoom mtu chunk).put chunk) _ rfl rfl rfl hput')
            · exact ih _ hrest hroom'

/-! ## The burst limit -/

/-- What the transmit loop keeps of the burst: the packets sent and the packets the burst still
allows add up to at most `burst`, and once none is left the packet being filled is empty. -/
structure BurstInv (burst : Nat) (p : TransmitProgress) : Prop where
  sent_add_le : p.sent.length + p.burstLimit ≤ burst
  empty_of_zero : p.burstLimit = 0 → p.packet = PacketW.empty

theorem BurstInv.makeRoom {burst : Nat} {p : TransmitProgress} (h : BurstInv burst p)
    (hpos : p.burstLimit ≠ 0) (mtu : BitVec 32) (chunk : SentDataChunk) :
    BurstInv burst (p.makeRoom mtu chunk) := by
  unfold TransmitProgress.makeRoom
  split
  · -- the packet so far is sent, and the one after it starts empty
    have := h.sent_add_le
    refine ⟨?_, fun _ => rfl⟩
    dsimp only
    rw [List.length_append, List.length_singleton]
    omega
  · exact h

/-- Putting a chunk in the packet, or changing the timers or the retransmit count, leaves the
burst as it is. -/
theorem BurstInv.of_burst {burst : Nat} {p p' : TransmitProgress} (h : BurstInv burst p)
    (hpos : p.burstLimit ≠ 0) (hsent : p'.sent = p.sent) (hlimit : p'.burstLimit = p.burstLimit) :
    BurstInv burst p' :=
  ⟨hsent ▸ hlimit ▸ h.sent_add_le, fun h0 => absurd (hlimit ▸ h0) hpos⟩

/-- The transmit loop keeps the burst invariant: every packet it sends in the middle of the loop
uses up one of the burst. -/
theorem burstInv_transmitLoop (rtoMaxMs mtu peerWindow : BitVec 32) (timestamp : BitVec 64)
    (burst : Nat) (first : Bool) (chunks : List SentDataChunk) (p : TransmitProgress)
    (h : BurstInv burst p) :
    BurstInv burst (transmitLoop rtoMaxMs mtu peerWindow timestamp first chunks p).2 :=
  transmitLoop_inv rtoMaxMs mtu peerWindow timestamp (BurstInv burst) (fun _ => True)
    (fun _ _ hpacket hsent hlimit h => ⟨hsent ▸ hlimit ▸ h.sent_add_le,
      fun h0 => hpacket ▸ h.empty_of_zero (hlimit ▸ h0)⟩)
    (fun _ chunk _ hpos h => h.makeRoom hpos mtu chunk)
    (fun _ _ _ hpos h => h.of_burst hpos rfl rfl) first chunks p (fun _ _ => trivial) h

/-- The loop starts with nothing sent and the whole burst left. -/
theorem burstInv_start {burst : Nat} (p : TransmitProgress) (hsent : p.sent = [])
    (hpos : 0 < p.burstLimit) (hle : p.burstLimit ≤ burst) : BurstInv burst p :=
  ⟨by rw [hsent, List.length_nil, Nat.zero_add]; exact hle, fun h0 => absurd h0 (by omega)⟩

/-- After the loop the last packet is sent only when it holds something, which it can only
while the burst has one left. -/
theorem sent_le_of_burstInv {burst : Nat} {p : TransmitProgress} (h : BurstInv burst p) :
    (if p.packet.size > 12 then p.sent ++ [p.packet] else p.sent).length ≤ burst := by
  have hle := h.sent_add_le
  split
  · next hsize =>
    have hlimit : p.burstLimit ≠ 0 := fun h0 => by
      rw [h.empty_of_zero h0] at hsize
      exact absurd hsize (by decide)
    rw [List.length_append, List.length_singleton]
    omega
  · omega

/-- **`processOutboundChunks` keeps to the burst limit**: it sends at most `max(1, maxBurst)`
packets, and one when it probes a closed window with nothing in flight. -/
theorem processOutboundChunks_sent_le (config : OutboundConfig) (mtu peerWindow : BitVec 32)
    (rttPeak timestamp : BitVec 64) (flow : CongestionControl) (timers : FlowTimers)
    (ackPrepared : Bool) (pendingAck : SelectiveAckChunk) (chunks : List SentDataChunk) :
    (processOutboundChunks config mtu peerWindow rttPeak timestamp flow timers ackPrepared
        pendingAck chunks).sent.length ≤
      if peerWindow = 0 ∧
          getFlightSize (timers.getRetransmitTimeout config.rtoMaxMs) timestamp chunks = 0 then 1
      else max 1 config.maxBurst := by
  unfold processOutboundChunks
  dsimp only
  apply sent_le_of_burstInv
  apply burstInv_transmitLoop
  refine burstInv_start _ rfl ?_ ?_
  · dsimp only
    split <;> omega
  · exact le_rfl

theorem processOutboundChunks_sent_le_maxBurst (config : OutboundConfig)
    (mtu peerWindow : BitVec 32) (rttPeak timestamp : BitVec 64) (flow : CongestionControl)
    (timers : FlowTimers) (ackPrepared : Bool) (pendingAck : SelectiveAckChunk)
    (chunks : List SentDataChunk) :
    (processOutboundChunks config mtu peerWindow rttPeak timestamp flow timers ackPrepared
        pendingAck chunks).sent.length ≤ max 1 config.maxBurst :=
  (processOutboundChunks_sent_le ..).trans (by split <;> omega)

/-- `handleFastRetransmits` sends at most one packet. -/
theorem handleFastRetransmits_sent_le (mtu : BitVec 32) (timestamp : BitVec 64)
    (flow : CongestionControl) (timers : FlowTimers) (chunks : List SentDataChunk) :
    (handleFastRetransmits mtu timestamp flow timers chunks).2.2.2.length ≤ 1 := by
  unfold handleFastRetransmits
  dsimp only
  split
  · split <;> simp
  · simp

/-! ## Packets stay within their area -/

theorem paddedSize_mod_four (n : Nat) : paddedSize n % 4 = 0 := by
  unfold paddedSize
  dsimp only
  split <;> omega

/-- Rounding up to a word stays below any bound in whole words. -/
theorem paddedSize_le {n c : Nat} (hn : n ≤ c) (hc : c % 4 = 0) : paddedSize n ≤ c := by
  unfold paddedSize
  dsimp only
  split <;> omega

namespace PacketW

/-- A packet within the area less its guard word, in whole words: what the asserts of `add` and
`commitAppendedChunk` check. -/
def Fits (mtu : BitVec 32) (p : PacketW) : Prop :=
  p.size ≤ (mtu + 16).toNat - 4 ∧ p.size % 4 = 0

theorem area_eq {mtu : BitVec 32} (h : mtu.toNat + 16 < 2 ^ 32) :
    (mtu + 16).toNat - 4 = mtu.toNat + 12 := by
  rw [BitVec.toNat_add, show (16 : BitVec 32).toNat = 16 from rfl, Nat.mod_eq_of_lt h]
  omega

variable {mtu : BitVec 32}

theorem fits_empty (h : mtu.toNat + 16 < 2 ^ 32) : empty.Fits mtu := by
  unfold Fits empty
  dsimp only
  rw [area_eq h]
  omega

/-- A chunk no larger than the room left keeps the packet within its area. -/
theorem Fits.appendPayloadData {p : PacketW} (hp : p.Fits mtu) (harea : mtu.toNat % 4 = 0)
    (h : mtu.toNat + 16 < 2 ^ 32) {chunk : SentDataChunk} (hcap : chunk.fullSize ≤ p.capacity mtu) :
    (p.appendPayloadData chunk).Fits mtu := by
  unfold Fits capacity at *
  rw [area_eq h] at hp hcap ⊢
  -- the room left is in whole words, so the padding fits in it too
  have hpad := paddedSize_le hcap (by omega)
  have hmod := paddedSize_mod_four chunk.fullSize
  unfold PacketW.appendPayloadData
  dsimp only
  omega

theorem capacity_empty (h : mtu.toNat + 16 < 2 ^ 32) : empty.capacity mtu = mtu.toNat := by
  unfold capacity empty
  dsimp only
  rw [area_eq h]
  omega

end PacketW

section Fit

variable {mtu : BitVec 32}

/-- What the transmit loop keeps: the packet being filled and every packet sent fit. -/
structure FitInv (mtu : BitVec 32) (p : TransmitProgress) : Prop where
  packet : p.packet.Fits mtu
  sent : ∀ q ∈ p.sent, q.Fits mtu

theorem FitInv.makeRoom {p : TransmitProgress} (h : FitInv mtu p) (hmtu : mtu.toNat + 16 < 2 ^ 32)
    (chunk : SentDataChunk) : FitInv mtu (p.makeRoom mtu chunk) := by
  unfold TransmitProgress.makeRoom
  split
  · refine ⟨PacketW.fits_empty hmtu, fun q hq => ?_⟩
    rcases List.mem_append.mp hq with hq | hq
    · exact h.sent q hq
    · rw [List.mem_singleton.mp hq]
      exact h.packet
  · exact h

/-- After `makeRoom` a chunk no larger than an empty packet's room fits in the packet. -/
theorem fullSize_le_makeRoom (p : TransmitProgress) (hmtu : mtu.toNat + 16 < 2 ^ 32)
    {chunk : SentDataChunk} (hchunk : chunk.fullSize ≤ mtu.toNat) :
    chunk.fullSize ≤ (p.makeRoom mtu chunk).packet.capacity mtu := by
  unfold TransmitProgress.makeRoom
  split
  · rw [PacketW.capacity_empty hmtu]
    exact hchunk
  · omega

theorem FitInv.put {p : TransmitProgress} (h : FitInv mtu p) (harea : mtu.toNat % 4 = 0)
    (hmtu : mtu.toNat + 16 < 2 ^ 32) {chunk : SentDataChunk}
    (hcap : chunk.fullSize ≤ p.packet.capacity mtu) : FitInv mtu (p.put chunk) :=
  ⟨h.packet.appendPayloadData harea hmtu hcap, h.sent⟩

/-- The transmit loop fills packets within their area when every chunk fits in an empty one. -/
theorem fitInv_transmitLoop (rtoMaxMs peerWindow : BitVec 32) (timestamp : BitVec 64)
    (harea : mtu.toNat % 4 = 0) (hmtu : mtu.toNat + 16 < 2 ^ 32) (first : Bool)
    (chunks : List SentDataChunk) (p : TransmitProgress)
    (hchunks : ∀ c ∈ chunks, c.fullSize ≤ mtu.toNat) (h : FitInv mtu p) :
    FitInv mtu (transmitLoop rtoMaxMs mtu peerWindow timestamp first chunks p).2 :=
  transmitLoop_inv rtoMaxMs mtu peerWindow timestamp (FitInv mtu) (fun c => c.fullSize ≤ mtu.toNat)
    (fun _ _ hpacket hsent _ h => ⟨hpacket ▸ h.packet, hsent ▸ h.sent⟩)
    (fun _ chunk _ _ h => h.makeRoom hmtu chunk)
    (fun p _ hchunk _ h => h.put harea hmtu (fullSize_le_makeRoom p hmtu hchunk))
    first chunks p hchunks h

theorem size_map_resetLeading (chunks : List SentDataChunk) :
    (resetLeading chunks).map SentDataChunk.size = chunks.map SentDataChunk.size := by
  have h := congrArg (List.map fun k => k.1.2.1) (map_kept_resetLeading chunks)
  rw [List.map_map, List.map_map] at h
  exact h

/-- **`processOutboundChunks` never overfills a packet**: with an MTU in whole words, chunks
no larger than the MTU and a pending SACK no larger than it, every packet it sends lies within
its area of `mtu + 12` bytes, in whole words. -/
theorem processOutboundChunks_sent_fit (config : OutboundConfig) (peerWindow : BitVec 32)
    (rttPeak timestamp : BitVec 64) (flow : CongestionControl) (timers : FlowTimers)
    (ackPrepared : Bool) (pendingAck : SelectiveAckChunk) (chunks : List SentDataChunk)
    (harea : mtu.toNat % 4 = 0) (hmtu : mtu.toNat + 16 < 2 ^ 32)
    (hchunks : ∀ c ∈ chunks, c.fullSize ≤ mtu.toNat) (hack : pendingAck.size ≤ mtu.toNat) :
    ∀ q ∈ (processOutboundChunks config mtu peerWindow rttPeak timestamp flow timers ackPrepared
        pendingAck chunks).sent, q.size ≤ mtu.toNat + 12 ∧ q.size % 4 = 0 := by
  -- the probe resets transmit counts only, so every chunk the loop sees still fits
  have hreset : ∀ c ∈ resetLeading chunks, c.fullSize ≤ mtu.toNat := by
    intro c hc
    have hsize : c.size ∈ chunks.map SentDataChunk.size := by
      rw [← size_map_resetLeading]
      exact List.mem_map_of_mem hc
    obtain ⟨c', hc', heq⟩ := List.mem_map.mp hsize
    unfold SentDataChunk.fullSize
    rw [← heq]
    exact hchunks c' hc'
  have hstart : (if ackPrepared then (⟨PacketW.empty.size + pendingAck.size, []⟩ : PacketW)
      else PacketW.empty).Fits mtu := by
    split
    · unfold PacketW.Fits SelectiveAckChunk.size at *
      rw [PacketW.area_eq hmtu]
      unfold PacketW.empty
      dsimp only
      omega
    · exact PacketW.fits_empty hmtu
  unfold processOutboundChunks
  dsimp only
  generalize hloop : transmitLoop config.rtoMaxMs mtu peerWindow timestamp true _ _ = result
  have hinv : FitInv mtu result.2 := by
    rw [← hloop]
    refine fitInv_transmitLoop _ _ _ harea hmtu _ _ _ ?_ ⟨hstart, fun q hq => absurd hq List.not_mem_nil⟩
    split
    · exact hreset
    · exact hchunks
  intro q hq
  have hfit : q.Fits mtu := by
    split at hq
    · rcases List.mem_append.mp hq with hq | hq
      · exact hinv.sent q hq
      · rw [List.mem_singleton.mp hq]
        exact hinv.packet
    · exact hinv.sent q hq
  unfold PacketW.Fits at hfit
  rw [PacketW.area_eq hmtu] at hfit
  exact hfit

/-- An MTU of 1200 bytes, one unsent chunk of 100 bytes and a prepared SACK with no blocks. -/
theorem processOutboundChunks_sent_fit_one_chunk :
    (1200 : BitVec 32).toNat % 4 = 0 ∧ (1200 : BitVec 32).toNat + 16 < 2 ^ 32 ∧
      (∀ c ∈ [(⟨0, 0, 100, 5, 0, 0, 0, 0, 0, true, true, []⟩ : SentDataChunk)],
        c.fullSize ≤ (1200 : BitVec 32).toNat) ∧
      (⟨0, 65536, [], []⟩ : SelectiveAckChunk).size ≤ (1200 : BitVec 32).toNat ∧
      ∀ q ∈ (processOutboundChunks ⟨4, 1000⟩ 1200 65536 100000000 0
          (CongestionControl.create (32 * 1024)) ⟨⟨0, false⟩, ⟨0, false⟩, 0, 100000000, 0⟩ true
          ⟨0, 65536, [], []⟩ [⟨0, 0, 100, 5, 0, 0, 0, 0, 0, true, true, []⟩]).sent,
        q.size ≤ (1200 : BitVec 32).toNat + 12 ∧ q.size % 4 = 0 := by
  have harea : (1200 : BitVec 32).toNat % 4 = 0 := by decide
  have hmtu : (1200 : BitVec 32).toNat + 16 < 2 ^ 32 := by decide
  have hchunks : ∀ c ∈ [(⟨0, 0, 100, 5, 0, 0, 0, 0, 0, true, true, []⟩ : SentDataChunk)],
      c.fullSize ≤ (1200 : BitVec 32).toNat := by decide
  have hack : (⟨0, 65536, [], []⟩ : SelectiveAckChunk).size ≤ (1200 : BitVec 32).toNat := by decide
  exact ⟨harea, hmtu, hchunks, hack, processOutboundChunks_sent_fit ⟨4, 1000⟩ 65536 100000000 0
    (CongestionControl.create (32 * 1024)) ⟨⟨0, false⟩, ⟨0, false⟩, 0, 100000000, 0⟩ true
    ⟨0, 65536, [], []⟩ _ harea hmtu hchunks hack⟩

end Fit

end MediaBridge.Transport.Sctp
