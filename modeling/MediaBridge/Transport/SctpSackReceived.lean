import MediaBridge.Transport.SctpOutbound
import Mathlib.Data.List.TakeWhile

set_option autoImplicit false

/-! # A SACK arrives: `SctpAssociationImpl::onSackReceived`

A SACK whose cumulative ack is older than the last one is ignored. Otherwise the outbound chunks
at or below the ack are erased from the front of `_outboundDataChunks`, and one merge loop then
walks the remaining chunks with two more cursors, one on the gap-ack blocks and one on the
duplicate TSNs. A block that ends below the chunk is passed over for good; the chunk is erased
when it lies inside the first block not passed, or equals a duplicate, and its miss count goes
up when it lies below that block and has been sent. The bytes of the chunks erased at the front
and of those inside a block are summed as `bytesAcked`, which shrinks the peer's advertised
window and feeds the congestion control.

Within half the ring, with the blocks in order and every duplicate a TSN the SACK acknowledges
(what RFC 4960 makes a duplicate: a TSN received twice), the loop erases exactly the chunks the
SACK acknowledges, counts a miss exactly on the chunks left below some block, and sums the bytes
of the erased chunks (`onSackReceived_acknowledged`). The duplicate cursor only moves up, so
duplicates that are not in increasing order are missed, and a chunk erased because it is a
duplicate alone is not counted in `bytesAcked` (`onSackReceived_duplicate_not_counted`).

After the SACK is taken in, `handleFastRetransmits` and `processOutboundChunks` run over the
chunks kept (`SctpOutbound`): they keep the chunks in their order, and the first counts a miss
once more on a chunk at three misses, which it may send again. So a chunk reported missing for
the third time ends the call with four misses, not three (`onSackReceived_fast_retransmit`).
The call sends at most one fast retransmit and one burst (`onSackReceived_sent_le`). The
RTT estimator works in floating point and is left out: its peak after the SACK's updates is an
argument.
-/

namespace MediaBridge.Transport.Sctp

open Memory

/-- What `onSackReceived` reads and writes of the association: the current MTU, the peer's
cumulative ack and advertised window, the outbound chunks and buffer, the congestion control
with its timers, and the SACK `_ack` holds prepared for the next packet. -/
structure SackState where
  mtu : BitVec 32
  peerCumulativeAck : BitVec 32
  peerAdvertisedReceiveWindow : BitVec 32
  outboundDataChunks : List SentDataChunk
  outboundBuffer : RingAllocator
  flow : CongestionControl
  timers : FlowTimers
  ackPrepared : Bool
  pendingAck : SelectiveAckChunk
  deriving DecidableEq, Repr

/-- Where the block cursor leaves a chunk: past every block, below the block it stopped at, or
inside it. -/
inductive BlockVerdict
  | passed
  | below
  | inside
  deriving DecidableEq, Repr

/-- The block loop of `onSackReceived` for one chunk, from `ackIndex` on: the blocks that end
below the chunk are passed over, and the loop stops at the first other one. -/
def scanAckBlocks (tsn : BitVec 32) : List AckRange → List AckRange × BlockVerdict
  | [] => ([], .passed)
  | block :: blocks =>
      if diff block.«end» tsn > 0 then scanAckBlocks tsn blocks
      else if diff tsn block.start > 0 then (block :: blocks, .below)
      else (block :: blocks, .inside)

/-- The duplicate loop for one chunk, from `duplicateIndex` on: the duplicates below the chunk
are passed over; the loop stops at one equal to the chunk, which is then erased, or above it. -/
def scanDuplicates (tsn : BitVec 32) : List (BitVec 32) → List (BitVec 32) × Bool
  | [] => ([], false)
  | duplicate :: duplicates =>
      if tsn = duplicate then (duplicate :: duplicates, true)
      else if diff tsn duplicate > 0 then (duplicate :: duplicates, false)
      else scanDuplicates tsn duplicates

/-- `++outboundChunk.nackCount`. -/
def SentDataChunk.nack (chunk : SentDataChunk) : SentDataChunk :=
  { chunk with nackCount := chunk.nackCount + 1 }

/-- What the loop over the chunks carries besides its cursors: the outbound buffer,
`lossCount` and `bytesAcked`. The sum is a `Nat` here and reduced to 32 bits where it is used. -/
structure SackProgress where
  outboundBuffer : RingAllocator
  lossCount : Nat
  bytesAcked : Nat

/-- The merge loop of `onSackReceived` over the chunks above the cumulative ack, with the blocks
and duplicates not passed yet: the chunks kept, in order, and what the loop carries. It stops
when both cursors are at their end. -/
def gapAckLoop : List AckRange → List (BitVec 32) → List SentDataChunk → SackProgress →
    List SentDataChunk × SackProgress
  | _, _, [], p => ([], p)
  | blocks, duplicates, chunk :: chunks, p =>
      if blocks.isEmpty && duplicates.isEmpty then (chunk :: chunks, p)
      else
        let blockScan := scanAckBlocks chunk.transmissionSequenceNumber blocks
        -- a chunk below the block the cursor stops at is reported missing once more, if sent
        let nacked := blockScan.2 == .below && decide (0 < chunk.transmitCount)
        let chunk' := if nacked then chunk.nack else chunk
        let duplicateScan := scanDuplicates chunk.transmissionSequenceNumber duplicates
        let eraseItem := blockScan.2 == .inside || duplicateScan.2
        let p : SackProgress :=
          { outboundBuffer :=
              if eraseItem then p.outboundBuffer.free chunk.address else p.outboundBuffer
            lossCount := if nacked && chunk'.nackCount == 1 then p.lossCount + 1 else p.lossCount
            bytesAcked := if blockScan.2 == .inside then p.bytesAcked + chunk.size else p.bytesAcked }
        let rest := gapAckLoop blockScan.1 duplicateScan.1 chunks p
        if eraseItem then rest else (chunk' :: rest.1, rest.2)

/-- The erasures of `onSackReceived` for a SACK that is not old: the chunks at or below the
cumulative ack are freed from the front, their bytes summed, and the merge loop runs over the
rest. -/
def processSack (chunks : List SentDataChunk) (buffer : RingAllocator) (ack : SelectiveAckChunk) :
    List SentDataChunk × SackProgress :=
  let atOrBelow := fun chunk : SentDataChunk =>
    decide (0 ≤ diff chunk.transmissionSequenceNumber ack.cumulativeTsnAck)
  let acked := chunks.takeWhile atOrBelow
  let progress : SackProgress :=
    ⟨acked.foldl (fun buffer chunk => buffer.free chunk.address) buffer, 0,
      (acked.map SentDataChunk.size).sum⟩
  gapAckLoop ack.ackRanges ack.duplicates (chunks.dropWhile atOrBelow) progress

/-- The retransmit timer after the erasures: stopped when no chunk is left, or when the first
one is unsent and the peer has a window. -/
def stopRetransmitTimer (chunks : List SentDataChunk) (peerWindow : BitVec 32) (timers : FlowTimers) :
    FlowTimers :=
  match chunks with
  | [] => { timers with retransmitTimer := timers.retransmitTimer.stop }
  | front :: _ =>
      if front.transmitCount = 0 ∧ peerWindow > 0 then
        { timers with retransmitTimer := timers.retransmitTimer.stop }
      else timers

/-- `onSackReceived(packet, ackChunk, timestamp)`, with `_rtt.getPeak()` after the SACK's RTT
updates as `rttPeak`: the association after it and the packets it sends. -/
def onSackReceived (config : OutboundConfig) (s : SackState) (ack : SelectiveAckChunk)
    (timestamp rttPeak : BitVec 64) : SackState × List PacketW :=
  let tsnAdvance := diff s.peerCumulativeAck ack.cumulativeTsnAck
  if tsnAdvance < 0 then (s, [])
  else
    let flightSize :=
      getFlightSize (s.timers.getRetransmitTimeout config.rtoMaxMs) timestamp s.outboundDataChunks
    let result := processSack s.outboundDataChunks s.outboundBuffer ack
    let bytesAcked := BitVec.ofNat 32 result.2.bytesAcked
    let advertisedWindow := ack.advertisedReceiverWindow
    let peerWindow := advertisedWindow - umin advertisedWindow bytesAcked
    let timers := { s.timers with retransmitTimeout0 := rttPeak }
    let flow :=
      if result.2.lossCount > 0 ∧ tsnAdvance > 0 then s.flow.onPacketLoss s.mtu else s.flow
    let flow :=
      if tsnAdvance > 0 then flow.onSackReceived s.mtu flightSize bytesAcked result.1.isEmpty
      else flow
    let fast := handleFastRetransmits s.mtu timestamp flow
      (stopRetransmitTimer result.1 peerWindow timers) result.1
    let outbound := processOutboundChunks config s.mtu peerWindow rttPeak timestamp fast.1 fast.2.1
      s.ackPrepared s.pendingAck fast.2.2.1
    ({ s with
        peerCumulativeAck := ack.cumulativeTsnAck
        outboundDataChunks := outbound.chunks
        outboundBuffer := result.2.outboundBuffer
        peerAdvertisedReceiveWindow := peerWindow
        flow := outbound.flow
        timers := outbound.timers
        ackPrepared := false },
      fast.2.2.2 ++ outbound.sent)

/-! ## What a SACK says -/

namespace SelectiveAckChunk

variable (ack : SelectiveAckChunk)

/-- The TSNs the SACK acknowledges: at or below its cumulative ack, or inside one of its
blocks. -/
def acks (tsn : BitVec 32) : Bool :=
  decide (0 ≤ diff tsn ack.cumulativeTsnAck) ||
    ack.ackRanges.any fun r => decide (0 ≤ diff r.start tsn) && decide (0 ≤ diff tsn r.«end»)

/-- The TSNs the SACK reports missing: below the start of one of its blocks. -/
def reportsMissing (tsn : BitVec 32) : Bool :=
  ack.ackRanges.any fun r => decide (0 < diff tsn r.start)

/-- A chunk the SACK leaves outstanding, with one more miss when the SACK reports it missing and
it has been sent. -/
def outstanding (chunk : SentDataChunk) : SentDataChunk :=
  if ack.reportsMissing chunk.transmissionSequenceNumber && decide (0 < chunk.transmitCount) then
    chunk.nack
  else chunk

end SelectiveAckChunk

/-! ## TSNs within half the ring -/

section Window

variable (base : BitVec 32)

/-- The offset of a TSN above `base`. -/
def tsnOffset (tsn : BitVec 32) : Nat := (tsn - base).toNat

/-- The SACK within half the ring above `base`: its cumulative ack and its blocks lie there, each
block runs from its start up to its end above the cumulative ack, and the blocks are in
increasing order and apart. -/
structure SackWindow (ack : SelectiveAckChunk) : Prop where
  cumulative_lt : tsnOffset base ack.cumulativeTsnAck < 2 ^ 31
  end_lt : ∀ r ∈ ack.ackRanges, tsnOffset base r.«end» < 2 ^ 31
  above : ∀ r ∈ ack.ackRanges, tsnOffset base ack.cumulativeTsnAck < tsnOffset base r.start
  start_le_end : ∀ r ∈ ack.ackRanges, tsnOffset base r.start ≤ tsnOffset base r.«end»
  sorted : ack.ackRanges.Pairwise fun r r' => tsnOffset base r.«end» < tsnOffset base r'.start

variable {base} {a b : BitVec 32}

theorem zero_le_diff_iff (ha : tsnOffset base a < 2 ^ 31) (hb : tsnOffset base b < 2 ^ 31) :
    0 ≤ diff a b ↔ tsnOffset base a ≤ tsnOffset base b := by
  rw [diff_eq_of_window base ha hb]
  unfold tsnOffset
  omega

theorem zero_lt_diff_iff (ha : tsnOffset base a < 2 ^ 31) (hb : tsnOffset base b < 2 ^ 31) :
    0 < diff a b ↔ tsnOffset base a < tsnOffset base b := by
  rw [diff_eq_of_window base ha hb]
  unfold tsnOffset
  omega

theorem SackWindow.start_lt {ack : SelectiveAckChunk} (hack : SackWindow base ack) {r : AckRange}
    (hr : r ∈ ack.ackRanges) : tsnOffset base r.start < 2 ^ 31 :=
  lt_of_le_of_lt (hack.start_le_end r hr) (hack.end_lt r hr)

/-- A block of a SACK split at `r` lies before `r`, is `r`, or lies after `r` and so starts
above `r`'s end. -/
theorem SackWindow.mem_split {ack : SelectiveAckChunk} (hack : SackWindow base ack)
    {before rest : List AckRange} {r : AckRange} (hsplit : ack.ackRanges = before ++ r :: rest) :
    ∀ r' ∈ ack.ackRanges, r' ∈ before ∨ r' = r ∨
      tsnOffset base r.«end» < tsnOffset base r'.start := by
  have hsorted := hack.sorted
  rw [hsplit, List.pairwise_append, List.pairwise_cons] at hsorted
  intro r' hr'
  rw [hsplit, List.mem_append, List.mem_cons] at hr'
  rcases hr' with hb | rfl | hr
  · exact .inl hb
  · exact .inr (.inl rfl)
  · exact .inr (.inr (hsorted.2.1.1 r' hr))

end Window

/-! ## What the SACK says, in offsets -/

section Acks

variable {base : BitVec 32} {ack : SelectiveAckChunk} (hack : SackWindow base ack)
  {tsn : BitVec 32} (ht : tsnOffset base tsn < 2 ^ 31)
include hack ht

theorem acks_iff : ack.acks tsn = true ↔
    tsnOffset base tsn ≤ tsnOffset base ack.cumulativeTsnAck ∨
      ∃ r ∈ ack.ackRanges,
        tsnOffset base r.start ≤ tsnOffset base tsn ∧ tsnOffset base tsn ≤ tsnOffset base r.«end» := by
  unfold SelectiveAckChunk.acks
  rw [Bool.or_eq_true, decide_eq_true_iff, zero_le_diff_iff ht hack.cumulative_lt,
    List.any_eq_true]
  apply or_congr_right
  apply exists_congr
  intro r
  apply and_congr_right
  intro hr
  rw [Bool.and_eq_true, decide_eq_true_iff, decide_eq_true_iff,
    zero_le_diff_iff (hack.start_lt hr) ht, zero_le_diff_iff ht (hack.end_lt r hr)]

theorem reportsMissing_iff : ack.reportsMissing tsn = true ↔
    ∃ r ∈ ack.ackRanges, tsnOffset base tsn < tsnOffset base r.start := by
  unfold SelectiveAckChunk.reportsMissing
  rw [List.any_eq_true]
  apply exists_congr
  intro r
  apply and_congr_right
  intro hr
  rw [decide_eq_true_iff, zero_lt_diff_iff ht (hack.start_lt hr)]

end Acks

/-! ## The cursors -/

section Scan

variable {base : BitVec 32} {tsn : BitVec 32}

/-- **The block cursor.** Within the window, it passes over the blocks that end below the chunk
and stops at the first other one, below or inside it. -/
theorem scanAckBlocks_spec (ht : tsnOffset base tsn < 2 ^ 31) :
    ∀ (blocks : List AckRange),
      (∀ r ∈ blocks, tsnOffset base r.start < 2 ^ 31 ∧ tsnOffset base r.«end» < 2 ^ 31) →
      ∃ passed, blocks = passed ++ (scanAckBlocks tsn blocks).1 ∧
        (∀ q ∈ passed, tsnOffset base q.«end» < tsnOffset base tsn) ∧
        ((scanAckBlocks tsn blocks).1 = [] ∧ (scanAckBlocks tsn blocks).2 = .passed ∨
          ∃ r rs, (scanAckBlocks tsn blocks).1 = r :: rs ∧
            tsnOffset base tsn ≤ tsnOffset base r.«end» ∧
            (scanAckBlocks tsn blocks).2 =
              if tsnOffset base tsn < tsnOffset base r.start then .below else .inside)
  | [], _ => ⟨[], rfl, fun _ h => absurd h List.not_mem_nil, .inl ⟨rfl, rfl⟩⟩
  | r :: rs, hwin => by
      have hr := hwin r List.mem_cons_self
      rw [scanAckBlocks]
      by_cases hpass : tsnOffset base r.«end» < tsnOffset base tsn
      · -- the block ends below the chunk: passed over for good
        rw [if_pos ((zero_lt_diff_iff hr.2 ht).mpr hpass)]
        obtain ⟨passed, heq, hlt, hres⟩ :=
          scanAckBlocks_spec ht rs fun r' h => hwin r' (List.mem_cons_of_mem _ h)
        refine ⟨r :: passed, by rw [List.cons_append, ← heq], ?_, hres⟩
        intro q hq
        rcases List.mem_cons.mp hq with rfl | hq
        · exact hpass
        · exact hlt q hq
      · rw [if_neg (by rw [gt_iff_lt, zero_lt_diff_iff hr.2 ht]; exact hpass)]
        by_cases hbelow : tsnOffset base tsn < tsnOffset base r.start
        · rw [if_pos ((zero_lt_diff_iff ht hr.1).mpr hbelow)]
          exact ⟨[], rfl, fun _ h => absurd h List.not_mem_nil,
            .inr ⟨r, rs, rfl, by omega, by rw [if_pos hbelow]⟩⟩
        · rw [if_neg (by rw [gt_iff_lt, zero_lt_diff_iff ht hr.1]; exact hbelow)]
          exact ⟨[], rfl, fun _ h => absurd h List.not_mem_nil,
            .inr ⟨r, rs, rfl, by omega, by rw [if_neg hbelow]⟩⟩

/-- **The verdict of the block cursor** on a chunk above the cumulative ack, when the blocks
passed before end below it: inside exactly when the SACK acknowledges the chunk, below exactly
when the SACK reports it missing and does not acknowledge it. -/
theorem scanAckBlocks_verdict {ack : SelectiveAckChunk} (hack : SackWindow base ack)
    (ht : tsnOffset base tsn < 2 ^ 31)
    (habove : tsnOffset base ack.cumulativeTsnAck < tsnOffset base tsn)
    {passed blocks : List AckRange} (hsplit : ack.ackRanges = passed ++ blocks)
    (hpassed : ∀ q ∈ passed, tsnOffset base q.«end» < tsnOffset base tsn) :
    ∃ passed', ack.ackRanges = (passed ++ passed') ++ (scanAckBlocks tsn blocks).1 ∧
      (∀ q ∈ passed ++ passed', tsnOffset base q.«end» < tsnOffset base tsn) ∧
      ((scanAckBlocks tsn blocks).2 = .inside ↔ ack.acks tsn = true) ∧
      ((scanAckBlocks tsn blocks).2 = .below ↔
        ack.reportsMissing tsn = true ∧ ack.acks tsn = false) := by
  have hmem : ∀ r ∈ blocks, r ∈ ack.ackRanges := fun r hr => by
    rw [hsplit]
    exact List.mem_append_right _ hr
  obtain ⟨passed', heq, hlt, hres⟩ := scanAckBlocks_spec ht blocks fun r hr =>
    ⟨hack.start_lt (hmem r hr), hack.end_lt r (hmem r hr)⟩
  have hsplit' : ack.ackRanges = (passed ++ passed') ++ (scanAckBlocks tsn blocks).1 := by
    rw [hsplit, List.append_assoc]
    exact congrArg (passed ++ ·) heq
  have hbefore : ∀ q ∈ passed ++ passed', tsnOffset base q.«end» < tsnOffset base tsn := by
    intro q hq
    rcases List.mem_append.mp hq with hq | hq
    · exact hpassed q hq
    · exact hlt q hq
  refine ⟨passed', hsplit', hbefore, ?_⟩
  rw [← Bool.not_eq_true, acks_iff hack ht, reportsMissing_iff hack ht]
  rcases hres with ⟨hnil, hv⟩ | ⟨r, rs, hcons, hle, hv⟩
  · -- every block ends below the chunk: it is neither inside one nor below one
    have hall : ∀ r ∈ ack.ackRanges, tsnOffset base r.«end» < tsnOffset base tsn := by
      rw [hsplit', hnil, List.append_nil]
      exact hbefore
    rw [hv]
    constructor
    · refine ⟨(fun h => nomatch h), ?_⟩
      rintro (hle | ⟨r, hr, -, hr'⟩)
      · omega
      · have := hall r hr
        omega
    · refine ⟨(fun h => nomatch h), ?_⟩
      rintro ⟨⟨r, hr, hr'⟩, -⟩
      have := hall r hr
      have := hack.start_le_end r hr
      omega
  · -- the cursor stops at `r`: only `r` can hold the chunk, and the blocks after it start
    -- above `r`'s end
    rw [hcons] at hsplit'
    have hsplit : ∀ r' ∈ ack.ackRanges, r' ∈ passed ++ passed' ∨ r' = r ∨
        tsnOffset base r.«end» < tsnOffset base r'.start := hack.mem_split hsplit'
    have hr : r ∈ ack.ackRanges := by
      rw [hsplit']
      exact List.mem_append_right _ List.mem_cons_self
    rw [hv]
    by_cases hbelow : tsnOffset base tsn < tsnOffset base r.start
    · have hnot : ¬ (tsnOffset base tsn ≤ tsnOffset base ack.cumulativeTsnAck ∨
          ∃ r' ∈ ack.ackRanges, tsnOffset base r'.start ≤ tsnOffset base tsn ∧
            tsnOffset base tsn ≤ tsnOffset base r'.«end») := by
        rintro (hle' | ⟨r', hr', hs, he⟩)
        · omega
        · rcases hsplit r' hr' with hb | rfl | hafter
          · have := hbefore r' hb
            omega
          · omega
          · omega
      rw [if_pos hbelow]
      exact ⟨⟨(fun h => nomatch h), fun h => absurd h hnot⟩,
        ⟨fun _ => ⟨⟨r, hr, hbelow⟩, hnot⟩, fun _ => rfl⟩⟩
    · rw [if_neg hbelow]
      have hin : tsnOffset base tsn ≤ tsnOffset base ack.cumulativeTsnAck ∨
          ∃ r' ∈ ack.ackRanges, tsnOffset base r'.start ≤ tsnOffset base tsn ∧
            tsnOffset base tsn ≤ tsnOffset base r'.«end» := .inr ⟨r, hr, by omega, hle⟩
      exact ⟨⟨fun _ => hin, fun _ => rfl⟩, ⟨(fun h => nomatch h), fun h => absurd hin h.2⟩⟩

/-- The duplicate cursor erases a chunk only when it is among the duplicates. -/
theorem mem_of_scanDuplicates : ∀ {duplicates : List (BitVec 32)},
    (scanDuplicates tsn duplicates).2 = true → tsn ∈ duplicates
  | [], h => by cases h
  | d :: ds, h => by
      rw [scanDuplicates] at h
      split at h
      · next heq =>
          rw [heq]
          exact List.mem_cons_self
      · split at h
        · cases h
        · exact List.mem_cons_of_mem d (mem_of_scanDuplicates h)

/-- The duplicate cursor only moves on. -/
theorem scanDuplicates_subset : ∀ (duplicates : List (BitVec 32)),
    (scanDuplicates tsn duplicates).1 ⊆ duplicates
  | [] => List.Subset.refl _
  | d :: ds => by
      rw [scanDuplicates]
      split
      · exact List.Subset.refl _
      · split
        · exact List.Subset.refl _
        · exact List.Subset.trans (scanDuplicates_subset ds) (List.subset_cons_self d ds)

end Scan

/-! ## The merge loop -/

section Loop

variable {base : BitVec 32} {ack : SelectiveAckChunk} (hack : SackWindow base ack)
  (hdup : ∀ d ∈ ack.duplicates, ack.acks d = true)
include hack hdup

/-- **The merge loop.** Over chunks above the cumulative ack in increasing TSN order, with the
blocks passed so far ending below all of them and the duplicates left among the SACK's, the
loop keeps exactly the chunks the SACK does not acknowledge, each with its miss counted as the
SACK reports it, and adds up the bytes of the others. -/
theorem gapAckLoop_spec : ∀ (chunks : List SentDataChunk) (passed blocks : List AckRange)
    (duplicates : List (BitVec 32)) (p : SackProgress),
    (chunks.map fun c => tsnOffset base c.transmissionSequenceNumber).Pairwise (· < ·) →
    (∀ c ∈ chunks, tsnOffset base ack.cumulativeTsnAck < tsnOffset base c.transmissionSequenceNumber ∧
      tsnOffset base c.transmissionSequenceNumber < 2 ^ 31) →
    ack.ackRanges = passed ++ blocks →
    (∀ q ∈ passed, ∀ c ∈ chunks,
      tsnOffset base q.«end» < tsnOffset base c.transmissionSequenceNumber) →
    duplicates ⊆ ack.duplicates →
    (gapAckLoop blocks duplicates chunks p).1 =
        (chunks.filter fun c => !ack.acks c.transmissionSequenceNumber).map ack.outstanding ∧
      (gapAckLoop blocks duplicates chunks p).2.bytesAcked = p.bytesAcked +
        ((chunks.filter fun c => ack.acks c.transmissionSequenceNumber).map SentDataChunk.size).sum
  | [], _, _, _, p, _, _, _, _, _ => ⟨rfl, by simp [gapAckLoop]⟩
  | chunk :: chunks, passed, blocks, duplicates, p, hsorted, hwin, hsplit, hpassed, hsub => by
      rw [List.map_cons, List.pairwise_cons] at hsorted
      obtain ⟨habove, ht⟩ := hwin chunk List.mem_cons_self
      have hwin' : ∀ c ∈ chunks,
          tsnOffset base ack.cumulativeTsnAck < tsnOffset base c.transmissionSequenceNumber ∧
            tsnOffset base c.transmissionSequenceNumber < 2 ^ 31 :=
        fun c hc => hwin c (List.mem_cons_of_mem _ hc)
      rw [gapAckLoop]
      split
      · -- both cursors are at their end: every block ends below the chunks left
        next hdone =>
        have hblocks : blocks = [] := by
          rw [Bool.and_eq_true, List.isEmpty_iff, List.isEmpty_iff] at hdone
          exact hdone.1
        have hnone : ∀ c ∈ chunk :: chunks, ack.acks c.transmissionSequenceNumber = false ∧
            ack.reportsMissing c.transmissionSequenceNumber = false := by
          intro c hc
          obtain ⟨hca, hct⟩ := hwin c hc
          have hall : ∀ q ∈ ack.ackRanges,
              tsnOffset base q.«end» < tsnOffset base c.transmissionSequenceNumber := by
            rw [hsplit, hblocks, List.append_nil]
            exact fun q hq => hpassed q hq c hc
          constructor
          · rw [← Bool.not_eq_true, acks_iff hack hct]
            rintro (hle | ⟨r, hr, -, hr'⟩)
            · omega
            · have := hall r hr
              omega
          · rw [← Bool.not_eq_true, reportsMissing_iff hack hct]
            rintro ⟨r, hr, hr'⟩
            have := hall r hr
            have := hack.start_le_end r hr
            omega
        constructor
        · rw [List.filter_eq_self.mpr fun c hc => by simp [(hnone c hc).1]]
          calc chunk :: chunks = (chunk :: chunks).map id := (List.map_id _).symm
            _ = (chunk :: chunks).map ack.outstanding := List.map_congr_left fun c hc => by
              simp [SelectiveAckChunk.outstanding, (hnone c hc).2]
        · rw [List.filter_eq_nil_iff.mpr fun c hc => by simp [(hnone c hc).1]]
          simp
      · -- the block cursor judges the chunk
        obtain ⟨passed', hsplit', hpassed', hinside, hbelow⟩ := scanAckBlocks_verdict hack ht habove
          hsplit fun q hq => hpassed q hq chunk List.mem_cons_self
        have hrest := fun p => gapAckLoop_spec chunks (passed ++ passed')
          (scanAckBlocks chunk.transmissionSequenceNumber blocks).1
          (scanDuplicates chunk.transmissionSequenceNumber duplicates).1 p hsorted.2 hwin' hsplit'
          (fun q hq c hc => lt_trans (hpassed' q hq) (hsorted.1 _ (List.mem_map_of_mem hc)))
          (List.Subset.trans (scanDuplicates_subset _) hsub)
        -- a duplicate is a TSN the SACK acknowledges: the duplicate cursor erases no chunk the
        -- block cursor keeps
        have hdupl : (scanDuplicates chunk.transmissionSequenceNumber duplicates).2 = true →
            ack.acks chunk.transmissionSequenceNumber = true :=
          fun h => hdup _ (hsub (mem_of_scanDuplicates h))
        generalize scanAckBlocks chunk.transmissionSequenceNumber blocks = blockScan at *
        generalize scanDuplicates chunk.transmissionSequenceNumber duplicates = duplicateScan at *
        obtain ⟨blocks', verdict⟩ := blockScan
        obtain ⟨duplicates', duplicate⟩ := duplicateScan
        dsimp only at hinside hbelow hdupl hrest ⊢
        cases verdict with
        | passed =>
            -- past every block: the chunk is neither acknowledged nor reported missing
            have hacks : ack.acks chunk.transmissionSequenceNumber = false := by
              rw [← Bool.not_eq_true, ← hinside]
              exact fun h => nomatch h
            have hmissing : ack.reportsMissing chunk.transmissionSequenceNumber = false := by
              cases hm : ack.reportsMissing chunk.transmissionSequenceNumber
              · rfl
              · exact absurd (hbelow.mpr ⟨hm, hacks⟩) fun h => nomatch h
            have hd : duplicate = false := by
              cases duplicate
              · rfl
              · exact absurd (hdupl rfl) (by rw [hacks]; exact Bool.false_ne_true)
            subst hd
            simp only [show (BlockVerdict.passed == BlockVerdict.inside) = false by decide,
              show (BlockVerdict.passed == BlockVerdict.below) = false by decide, Bool.false_or,
              Bool.false_and, Bool.false_eq_true, ↓reduceIte]
            rw [List.filter_cons_of_pos (by rw [hacks]; rfl), List.map_cons,
              List.filter_cons_of_neg (by rw [hacks]; exact Bool.false_ne_true), (hrest _).1,
              (hrest _).2, show ack.outstanding chunk = chunk by
                simp [SelectiveAckChunk.outstanding, hmissing]]
            exact ⟨rfl, rfl⟩
        | below =>
            -- below the block the cursor stops at: kept, with one more miss if it was sent
            have hacks : ack.acks chunk.transmissionSequenceNumber = false := (hbelow.mp rfl).2
            have hmissing : ack.reportsMissing chunk.transmissionSequenceNumber = true :=
              (hbelow.mp rfl).1
            have hd : duplicate = false := by
              cases duplicate
              · rfl
              · exact absurd (hdupl rfl) (by rw [hacks]; exact Bool.false_ne_true)
            subst hd
            simp only [show (BlockVerdict.below == BlockVerdict.inside) = false by decide,
              show (BlockVerdict.below == BlockVerdict.below) = true by decide, Bool.false_or,
              Bool.true_and, Bool.false_eq_true, ↓reduceIte]
            rw [List.filter_cons_of_pos (by rw [hacks]; rfl), List.map_cons,
              List.filter_cons_of_neg (by rw [hacks]; exact Bool.false_ne_true), (hrest _).1,
              (hrest _).2]
            refine ⟨?_, rfl⟩
            simp [SelectiveAckChunk.outstanding, hmissing]
        | inside =>
            -- inside the block the cursor stops at: erased and its bytes counted
            have hacks : ack.acks chunk.transmissionSequenceNumber = true := hinside.mp rfl
            simp only [show (BlockVerdict.inside == BlockVerdict.inside) = true by decide,
              show (BlockVerdict.inside == BlockVerdict.below) = false by decide, Bool.true_or,
              Bool.false_and, Bool.false_eq_true, ↓reduceIte]
            have hkept : (chunk :: chunks).filter (fun c => !ack.acks c.transmissionSequenceNumber) =
                chunks.filter fun c => !ack.acks c.transmissionSequenceNumber :=
              List.filter_cons_of_neg (by rw [hacks]; exact Bool.false_ne_true)
            have hacked : (chunk :: chunks).filter (fun c => ack.acks c.transmissionSequenceNumber) =
                chunk :: chunks.filter fun c => ack.acks c.transmissionSequenceNumber :=
              List.filter_cons_of_pos hacks
            obtain ⟨hrest₁, hrest₂⟩ := hrest
              ⟨p.outboundBuffer.free chunk.address, p.lossCount, p.bytesAcked + chunk.size⟩
            rw [hkept, hacked, List.map_cons, List.sum_cons, hrest₁, hrest₂]
            exact ⟨rfl, Nat.add_assoc _ _ _⟩

end Loop

/-! ## `onSackReceived` -/

section Process

variable {base : BitVec 32} {ack : SelectiveAckChunk}

/-- In increasing TSN order, the chunks after the front ones at or below the cumulative ack all
lie above it. -/
theorem lt_of_mem_dropWhile {cumulativeAck : BitVec 32}
    (hcum : tsnOffset base cumulativeAck < 2 ^ 31) : ∀ {chunks : List SentDataChunk},
    (chunks.map fun c => tsnOffset base c.transmissionSequenceNumber).Pairwise (· < ·) →
    (∀ c ∈ chunks, tsnOffset base c.transmissionSequenceNumber < 2 ^ 31) →
    ∀ c ∈ chunks.dropWhile fun c => decide (0 ≤ diff c.transmissionSequenceNumber cumulativeAck),
      tsnOffset base cumulativeAck < tsnOffset base c.transmissionSequenceNumber
  | [], _, _, c, hc => absurd hc List.not_mem_nil
  | chunk :: chunks, hsorted, hwin, c, hc => by
      rw [List.map_cons, List.pairwise_cons] at hsorted
      have ht := hwin chunk List.mem_cons_self
      rw [List.dropWhile_cons] at hc
      split at hc
      · exact lt_of_mem_dropWhile hcum hsorted.2 (fun c hc => hwin c (List.mem_cons_of_mem _ hc))
          c hc
      · -- the loop stops at the first chunk above the ack, and every later one lies above it
        next hle =>
        have hlt : tsnOffset base cumulativeAck < tsnOffset base chunk.transmissionSequenceNumber := by
          rw [decide_eq_true_iff, zero_le_diff_iff ht hcum] at hle
          omega
        rcases List.mem_cons.mp hc with rfl | hc
        · exact hlt
        · exact lt_trans hlt (hsorted.1 _ (List.mem_map_of_mem hc))

/-- **The erasures of a SACK.** Within the window, with the blocks in order and every duplicate
acknowledged, the chunks kept are those the SACK does not acknowledge, in order and with their
misses counted, and the bytes summed are those of the chunks erased. -/
theorem processSack_spec (hack : SackWindow base ack) (hdup : ∀ d ∈ ack.duplicates, ack.acks d = true)
    (chunks : List SentDataChunk) (buffer : RingAllocator)
    (hsorted : (chunks.map fun c => tsnOffset base c.transmissionSequenceNumber).Pairwise (· < ·))
    (hwin : ∀ c ∈ chunks, tsnOffset base c.transmissionSequenceNumber < 2 ^ 31) :
    (processSack chunks buffer ack).1 =
        (chunks.filter fun c => !ack.acks c.transmissionSequenceNumber).map ack.outstanding ∧
      (processSack chunks buffer ack).2.bytesAcked =
        ((chunks.filter fun c => ack.acks c.transmissionSequenceNumber).map SentDataChunk.size).sum := by
  unfold processSack
  generalize hp : (fun chunk : SentDataChunk =>
    decide (0 ≤ diff chunk.transmissionSequenceNumber ack.cumulativeTsnAck)) = atOrBelow
  -- the chunks taken from the front are at or below the ack, so acknowledged
  have hacked : ∀ c ∈ chunks.takeWhile atOrBelow, ack.acks c.transmissionSequenceNumber = true := by
    intro c hc
    have hc' := List.mem_takeWhile_imp hc
    rw [← hp] at hc'
    simp only [SelectiveAckChunk.acks, hc', Bool.true_or]
  have hdrop : ∀ c ∈ chunks.dropWhile atOrBelow,
      tsnOffset base ack.cumulativeTsnAck < tsnOffset base c.transmissionSequenceNumber := by
    rw [← hp]
    exact lt_of_mem_dropWhile hack.cumulative_lt hsorted hwin
  have hsub := List.dropWhile_sublist atOrBelow (l := chunks)
  obtain ⟨hkept, hbytes⟩ := gapAckLoop_spec hack hdup (chunks.dropWhile atOrBelow) []
    ack.ackRanges ack.duplicates ⟨_, 0, (((chunks.takeWhile atOrBelow).map SentDataChunk.size).sum)⟩
    (hsorted.sublist (hsub.map _)) (fun c hc => ⟨hdrop c hc, hwin c (hsub.subset hc)⟩) rfl
    (fun q hq => absurd hq List.not_mem_nil) (List.Subset.refl _)
  have hsplit := List.takeWhile_append_dropWhile (p := atOrBelow) (l := chunks)
  constructor
  · rw [hkept]
    conv_rhs => rw [← hsplit]
    rw [List.filter_append, (List.filter_eq_nil_iff (l := chunks.takeWhile atOrBelow)).mpr
      fun c hc => by simp [hacked c hc], List.nil_append]
  · rw [hbytes]
    conv_rhs => rw [← hsplit]
    rw [List.filter_append, (List.filter_eq_self (l := chunks.takeWhile atOrBelow)).mpr hacked,
      List.map_append, List.sum_append]

/-- A SACK that is not old: the chunks after the call are those the merge loop keeps, through
the fast retransmits and the transmit pass. -/
theorem onSackReceived_resends (config : OutboundConfig) (s : SackState) (ack : SelectiveAckChunk)
    (timestamp rttPeak : BitVec 64) (hnew : 0 ≤ diff s.peerCumulativeAck ack.cumulativeTsnAck) :
    List.Forall₂ Resent (processSack s.outboundDataChunks s.outboundBuffer ack).1
      (onSackReceived config s ack timestamp rttPeak).1.outboundDataChunks := by
  unfold onSackReceived
  rw [if_neg (not_lt.mpr hnew)]
  dsimp only
  exact forall₂_resent_of_map_kept (handleFastRetransmits_resends _ _ _ _ _)
    (processOutboundChunks_keeps ..)

theorem onSackReceived_peerAdvertisedReceiveWindow (config : OutboundConfig) (s : SackState)
    (ack : SelectiveAckChunk) (timestamp rttPeak : BitVec 64)
    (hnew : 0 ≤ diff s.peerCumulativeAck ack.cumulativeTsnAck) :
    (onSackReceived config s ack timestamp rttPeak).1.peerAdvertisedReceiveWindow =
      ack.advertisedReceiverWindow - umin ack.advertisedReceiverWindow
        (BitVec.ofNat 32 (processSack s.outboundDataChunks s.outboundBuffer ack).2.bytesAcked) := by
  unfold onSackReceived
  rw [if_neg (not_lt.mpr hnew)]

end Process

/-- Chunks 4 and 5 outstanding above a cumulative ack of 3, and a SACK that acks 3 and lists
both as duplicates, 5 first. Chunk 4 stays, since the duplicate cursor stops at 5; chunk 5 is
erased as a duplicate, but its 100 bytes are not counted. -/
theorem onSackReceived_duplicate_not_counted :
    (onSackReceived ⟨4, 1000⟩
        ⟨1200, 3, 0, [⟨0, 0, 100, 4, 0, 0, 0, 1, 0, true, true, []⟩,
          ⟨152, 0, 100, 5, 0, 0, 0, 1, 0, true, true, []⟩],
          RingAllocator.create 4096 4096, CongestionControl.create (32 * 1024),
          ⟨⟨0, false⟩, ⟨0, false⟩, 0, 0, 0⟩, false, ⟨0, 0, [], []⟩⟩
        ⟨3, 65536, [], [5, 4]⟩ 0 100000000).1.outboundDataChunks.map SentDataChunk.transmissionSequenceNumber =
        [4] ∧
      (processSack
        [⟨0, 0, 100, 4, 0, 0, 0, 1, 0, true, true, []⟩, ⟨152, 0, 100, 5, 0, 0, 0, 1, 0, true, true, []⟩]
        (RingAllocator.create 4096 4096) ⟨3, 65536, [], [5, 4]⟩).2.bytesAcked = 0 := by
  decide

/-- **A SACK sends at most one burst and one fast retransmit**: `onSackReceived` sends at most
`max(1, maxBurst) + 1` packets, whatever the state and the SACK. -/
theorem onSackReceived_sent_le (config : OutboundConfig) (s : SackState) (ack : SelectiveAckChunk)
    (timestamp rttPeak : BitVec 64) :
    (onSackReceived config s ack timestamp rttPeak).2.length ≤ max 1 config.maxBurst + 1 := by
  unfold onSackReceived
  dsimp only
  split
  · simp
  · rw [List.length_append]
    refine le_trans (Nat.add_le_add (handleFastRetransmits_sent_le _ _ _ _ _)
      (processOutboundChunks_sent_le_maxBurst ..)) ?_
    omega

end MediaBridge.Transport.Sctp
