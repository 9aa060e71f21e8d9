import MediaBridge.Transport.SctpReassembly
import MediaBridge.Transport.SctpSend

set_option autoImplicit false

/-! # The SACK a receiver writes: `SctpAssociationImpl::prepareSack`

After the DATA chunks of a packet are stored, `prepareSack` walks `_inboundDataChunks` in TSN
order from its start: while a chunk is at or below the TSN after the cumulative ack, the ack
moves onto it when it is that TSN. The chunks from where the walk stops on lie above the ack
with a hole before them. They should be reported as gap-ack blocks, one for each maximal run of
consecutive TSNs, which `SackBuilder::addAck` writes as two 16-bit offsets from the ack and
`SelectiveAckChunk::getAck` reads back.

The ack loop is right: within half the ring it stops at the end of the run of stored TSNs after
the old ack (`prepareSack_cumulativeAck`). The block loop is not. It counts `nextTsn` up by one
per chunk from the first chunk after the hole and closes a block whenever a chunk's TSN is not
`nextTsn`, but it never moves `nextTsn` to the chunk that opens a new block. From the second run
on, every chunk closes a block of its own whose end is the count, below its start: with TSNs 5
and 7 stored above an ack of 3 the SACK reports (5, 5) and (7, 6)
(`prepareSack_gap_block_reversed`).
-/

namespace MediaBridge.Transport.Sctp

/-- `SelectiveAckChunk::HEADER_SIZE`: the chunk header, the cumulative TSN ack, the advertised
receiver window and the two counts. -/
def SelectiveAckChunk.HEADER_SIZE : Nat := 16

/-- `AckRange`: a gap-ack block as `getAck` decodes it, both ends inclusive. -/
structure AckRange where
  start : BitVec 32
  «end» : BitVec 32
  deriving DecidableEq, Repr

/-- A `SelectiveAckChunk`: the cumulative TSN ack, the advertised receiver window, the gap-ack
blocks as the two 16-bit offsets from the ack they are written with (`RawGapAckBlock`), and the
duplicate TSNs. -/
structure SelectiveAckChunk where
  cumulativeTsnAck : BitVec 32
  advertisedReceiverWindow : BitVec 32
  gapAckBlocks : List (BitVec 16 × BitVec 16)
  duplicates : List (BitVec 32)
  deriving DecidableEq, Repr

namespace SelectiveAckChunk

variable (ack : SelectiveAckChunk)

/-- `getAck(index)` for the block at that index: both offsets added to the cumulative ack. -/
def getAck (block : BitVec 16 × BitVec 16) : AckRange :=
  ⟨block.1.setWidth 32 + ack.cumulativeTsnAck, block.2.setWidth 32 + ack.cumulativeTsnAck⟩

/-- The blocks decoded with `getAck`, in order. -/
def ackRanges : List AckRange := ack.gapAckBlocks.map ack.getAck

end SelectiveAckChunk

/-- `SackBuilder::addAck(startTsn, endTsn)` on a builder over `areaSize` bytes: a block for the
TSNs from `startTsn` up to `endTsn` exclusive, left out when the area has no room for it. -/
def addAck (areaSize : Nat) (ack : SelectiveAckChunk) (startTsn endTsn : BitVec 32) :
    SelectiveAckChunk :=
  if ack.gapAckBlocks.length + 1 > areaSize / 4 then ack
  else
    { ack with
      gapAckBlocks := ack.gapAckBlocks ++
        [((startTsn - ack.cumulativeTsnAck).setWidth 16,
          (endTsn - 1 - ack.cumulativeTsnAck).setWidth 16)] }

/-- The ack loop of `prepareSack` with where it stops: the cumulative ack, and the entries from
`it`, the first one above the TSN after the ack. Its ack is `prepareSackLoop` (`ackLoop_fst`). -/
def ackLoop : List (BitVec 32 × ReceivedDataChunk) → BitVec 32 →
    BitVec 32 × List (BitVec 32 × ReceivedDataChunk)
  | [], cumulativeAck => (cumulativeAck, [])
  | (tsn, chunk) :: rest, cumulativeAck =>
      if 0 ≤ diff chunk.transmissionSequenceNumber (cumulativeAck + 1) then
        ackLoop rest
          (if chunk.transmissionSequenceNumber = cumulativeAck + 1 then cumulativeAck + 1
            else cumulativeAck)
      else (cumulativeAck, (tsn, chunk) :: rest)

/-- The block loop of `prepareSack` over the entries after `it`, with `blockStart` and
`nextTsn`. The source's `blockEnd` is `nextTsn` whenever a block is added, so it is left out. -/
def gapBlockLoop (areaSize : Nat) :
    List (BitVec 32 × ReceivedDataChunk) → BitVec 32 → BitVec 32 → SelectiveAckChunk →
      SelectiveAckChunk
  | [], blockStart, nextTsn, ack => addAck areaSize ack blockStart nextTsn
  | (_, chunk) :: rest, blockStart, nextTsn, ack =>
      if chunk.transmissionSequenceNumber ≠ nextTsn then
        -- a new block opens at the chunk, but `nextTsn` only counts on
        gapBlockLoop areaSize rest chunk.transmissionSequenceNumber (nextTsn + 1)
          (addAck areaSize ack blockStart nextTsn)
      else gapBlockLoop areaSize rest blockStart (nextTsn + 1) ack

/-- `prepareSack(timestamp)` with the current MTU and `_local.advertisedReceiveWindow`: the
receive side with its new cumulative ack, and the SACK left in `_ack.pendingAck`. -/
def prepareSack (mtu : Nat) (advertisedReceiveWindow : BitVec 32) (s : InboundState) :
    InboundState × SelectiveAckChunk :=
  let stop := ackLoop s.inboundDataChunks s.cumulativeAck
  let areaSize := min 2048 (mtu - SctpPacketW.HEADER_SIZE - SelectiveAckChunk.HEADER_SIZE)
  let ack : SelectiveAckChunk := ⟨stop.1, 0, [], []⟩
  let ack := match stop.2 with
    | [] => ack
    | (_, chunk) :: rest =>
        gapBlockLoop areaSize rest chunk.transmissionSequenceNumber
          (chunk.transmissionSequenceNumber + 1) ack
  ({ s with cumulativeAck := stop.1 }, { ack with advertisedReceiverWindow := advertisedReceiveWindow })

theorem ackLoop_fst : ∀ (chunks : List (BitVec 32 × ReceivedDataChunk)) (cumulativeAck : BitVec 32),
    (ackLoop chunks cumulativeAck).1 = prepareSackLoop chunks cumulativeAck
  | [], _ => rfl
  | (tsn, chunk) :: rest, cumulativeAck => by
      rw [ackLoop, prepareSackLoop_cons]
      split
      · exact ackLoop_fst rest _
      · rfl

/-! ## The cumulative ack -/

/-- `c'` ends the run of offsets after `c`: every offset from `c + 1` to `c'` is in the list and
`c' + 1` is not. -/
structure RunEnd (offsets : List Nat) (c c' : Nat) : Prop where
  le : c ≤ c'
  mem : ∀ k, c < k → k ≤ c' → k ∈ offsets
  not_mem : c' + 1 ∉ offsets

/-- Nothing is stored right after `c`: the run ends at `c`. -/
theorem RunEnd.of_forall_lt {offsets : List Nat} {c : Nat} (h : ∀ o ∈ offsets, c + 1 < o) :
    RunEnd offsets c c :=
  ⟨le_refl c, fun _ hk hk' => absurd (Nat.lt_of_lt_of_le hk hk') (Nat.lt_irrefl c),
    fun hmem => Nat.lt_irrefl _ (h _ hmem)⟩

/-- An offset at or below `c` does not change the run after `c`. -/
theorem RunEnd.cons_of_le {offsets : List Nat} {o c c' : Nat} (h : RunEnd offsets c c')
    (ho : o ≤ c) : RunEnd (o :: offsets) c c' where
  le := h.le
  mem k hk hk' := List.mem_cons_of_mem o (h.mem k hk hk')
  not_mem hmem := by
    rcases List.mem_cons.mp hmem with hoc | hmem
    · have := h.le
      omega
    · exact h.not_mem hmem

/-- The offset right after `c` extends the run that follows it. -/
theorem RunEnd.cons_succ {offsets : List Nat} {c c' : Nat} (h : RunEnd offsets (c + 1) c') :
    RunEnd ((c + 1) :: offsets) c c' where
  le := Nat.le_of_succ_le h.le
  mem k hk hk' := by
    by_cases hkc : k = c + 1
    · rw [hkc]
      exact List.mem_cons_self
    · exact List.mem_cons_of_mem _ (h.mem k (by omega) hk')
  not_mem hmem := by
    rcases List.mem_cons.mp hmem with hoc | hmem
    · have := h.le
      omega
    · exact h.not_mem hmem

section Window

variable (base : BitVec 32)

/-- Within half the ring above `base`, `diff` is the difference of the offsets from `base`. -/
theorem diff_eq_of_window {a b : BitVec 32} (ha : (a - base).toNat < 2 ^ 31)
    (hb : (b - base).toNat < 2 ^ 31) : diff a b = ((b - base).toNat : Int) - (a - base).toNat := by
  unfold diff
  exact SerialNumber.toInt_sub_of_window (by omega) (by omega)

theorem toNat_add_one_sub {c : BitVec 32} (h : (c - base).toNat + 1 < 2 ^ 32) :
    (c + 1 - base).toNat = (c - base).toNat + 1 := by
  have hsplit : c + 1 - base = (c - base) + 1 := by abel
  rw [hsplit, BitVec.toNat_add, show (1 : BitVec 32).toNat = 1 by decide, Nat.mod_eq_of_lt h]

theorem eq_iff_toNat_sub_eq {a b : BitVec 32} : a = b ↔ (a - base).toNat = (b - base).toNat := by
  rw [BitVec.toNat_inj, sub_left_inj]

end Window

section AckLoop

variable (base : BitVec 32)

/-- The offsets from `base` of the stored chunks' TSNs. -/
def tsnOffsets (chunks : List (BitVec 32 × ReceivedDataChunk)) : List Nat :=
  chunks.map fun e => (e.2.transmissionSequenceNumber - base).toNat

@[simp] theorem tsnOffsets_cons (e : BitVec 32 × ReceivedDataChunk)
    (chunks : List (BitVec 32 × ReceivedDataChunk)) :
    tsnOffsets base (e :: chunks) =
      (e.2.transmissionSequenceNumber - base).toNat :: tsnOffsets base chunks := rfl

/-- **The ack loop ends the run.** Over chunks in increasing TSN order within half the ring
above `base`, the loop moves the ack to the end of the run of stored TSNs after it. -/
theorem ackLoop_runEnd : ∀ (chunks : List (BitVec 32 × ReceivedDataChunk)) (cumulativeAck : BitVec 32),
    (tsnOffsets base chunks).Pairwise (· < ·) →
    (∀ o ∈ tsnOffsets base chunks, o + 1 < 2 ^ 31) → (cumulativeAck - base).toNat + 1 < 2 ^ 31 →
    RunEnd (tsnOffsets base chunks) (cumulativeAck - base).toNat
        ((ackLoop chunks cumulativeAck).1 - base).toNat ∧
      ((ackLoop chunks cumulativeAck).1 - base).toNat + 1 < 2 ^ 31
  | [], _, _, _, hack => ⟨RunEnd.of_forall_lt (fun _ h => absurd h List.not_mem_nil), hack⟩
  | (tsn, chunk) :: rest, cumulativeAck, hsorted, hwin, hack => by
      rw [tsnOffsets_cons, List.pairwise_cons] at hsorted
      dsimp only at hsorted
      have ho : (chunk.transmissionSequenceNumber - base).toNat + 1 < 2 ^ 31 := hwin _ (by simp)
      have hwin' : ∀ o ∈ tsnOffsets base rest, o + 1 < 2 ^ 31 :=
        fun o h => hwin o (List.mem_cons_of_mem _ h)
      have hnext : (cumulativeAck + 1 - base).toNat = (cumulativeAck - base).toNat + 1 :=
        toNat_add_one_sub base (by omega)
      have hdiff : diff chunk.transmissionSequenceNumber (cumulativeAck + 1) =
          ((cumulativeAck - base).toNat + 1 : Int) - (chunk.transmissionSequenceNumber - base).toNat := by
        rw [diff_eq_of_window base (by omega) (by omega), hnext]
        push_cast
        rfl
      rw [tsnOffsets_cons, ackLoop, hdiff]
      dsimp only
      by_cases hle : (chunk.transmissionSequenceNumber - base).toNat ≤ (cumulativeAck - base).toNat + 1
      · rw [if_pos (by omega)]
        by_cases heq : chunk.transmissionSequenceNumber = cumulativeAck + 1
        · -- the chunk is the TSN after the ack: the ack moves onto it
          have ho' : (chunk.transmissionSequenceNumber - base).toNat = (cumulativeAck - base).toNat + 1 := by
            rw [heq, hnext]
          rw [if_pos heq]
          obtain ⟨hrun, hend⟩ := ackLoop_runEnd rest (cumulativeAck + 1) hsorted.2 hwin' (by omega)
          rw [hnext] at hrun
          rw [ho']
          exact ⟨hrun.cons_succ, hend⟩
        · -- the chunk is at or below the ack already
          have ho' : (chunk.transmissionSequenceNumber - base).toNat ≤ (cumulativeAck - base).toNat := by
            have hne := mt (eq_iff_toNat_sub_eq base).mpr heq
            rw [hnext] at hne
            omega
          rw [if_neg heq]
          obtain ⟨hrun, hend⟩ := ackLoop_runEnd rest cumulativeAck hsorted.2 hwin' hack
          exact ⟨hrun.cons_of_le ho', hend⟩
      · -- every stored chunk from this one on lies above the TSN after the ack
        rw [if_neg (by omega)]
        refine ⟨RunEnd.of_forall_lt ?_, hack⟩
        intro o hmem
        rcases List.mem_cons.mp hmem with rfl | hmem
        · omega
        · have := hsorted.1 o hmem
          omega

end AckLoop

/-- **The cumulative ack of `prepareSack`.** When the stored chunks are in increasing TSN
order within half the ring above `base`, the new cumulative ack is the end of the run of stored
TSNs after the old one: every TSN up to it is stored, the one after it is not, and no larger TSN
has every TSN before it stored. -/
theorem prepareSack_cumulativeAck (mtu : Nat) (advertisedReceiveWindow base : BitVec 32)
    (s : InboundState) (hsorted : (tsnOffsets base s.inboundDataChunks).Pairwise (· < ·))
    (hwin : ∀ o ∈ tsnOffsets base s.inboundDataChunks, o + 1 < 2 ^ 31)
    (hack : (s.cumulativeAck - base).toNat + 1 < 2 ^ 31) :
    RunEnd (tsnOffsets base s.inboundDataChunks) (s.cumulativeAck - base).toNat
      ((prepareSack mtu advertisedReceiveWindow s).1.cumulativeAck - base).toNat :=
  (ackLoop_runEnd base s.inboundDataChunks s.cumulativeAck hsorted hwin hack).1

/-- TSNs 4, 5 and 7 stored above a cumulative ack of 3: the ack runs to 5. -/
theorem prepareSack_cumulativeAck_four_five_seven :
    let s : InboundState := ⟨[(4, ⟨4, 0, 0, 0, true, true, []⟩), (5, ⟨5, 0, 0, 0, true, true, []⟩),
      (7, ⟨7, 0, 0, 0, true, true, []⟩)], 3⟩
    (tsnOffsets 0 s.inboundDataChunks).Pairwise (· < ·) ∧
      (∀ o ∈ tsnOffsets 0 s.inboundDataChunks, o + 1 < 2 ^ 31) ∧
      (s.cumulativeAck - 0).toNat + 1 < 2 ^ 31 ∧
      RunEnd (tsnOffsets 0 s.inboundDataChunks) (s.cumulativeAck - 0).toNat
        ((prepareSack 1024 0 s).1.cumulativeAck - 0).toNat := by
  intro s
  have hsorted : (tsnOffsets 0 s.inboundDataChunks).Pairwise (· < ·) := by decide
  have hwin : ∀ o ∈ tsnOffsets 0 s.inboundDataChunks, o + 1 < 2 ^ 31 := by decide
  have hack : (s.cumulativeAck - 0).toNat + 1 < 2 ^ 31 := by decide
  exact ⟨hsorted, hwin, hack, prepareSack_cumulativeAck 1024 0 0 s hsorted hwin hack⟩

/-! ## The gap-ack blocks -/

/-- With TSNs 5 and 7 stored above a cumulative ack of 3, the SACK acks 3 and then the block
(5, 5), right, and the block (7, 6), whose end is below its start: the run of TSN 7 is (7, 7). -/
theorem prepareSack_gap_block_reversed :
    (prepareSack 1024 0 ⟨[(5, ⟨5, 0, 0, 0, true, true, []⟩), (7, ⟨7, 0, 0, 0, true, true, []⟩)],
        3⟩).2.cumulativeTsnAck = 3 ∧
      (prepareSack 1024 0 ⟨[(5, ⟨5, 0, 0, 0, true, true, []⟩), (7, ⟨7, 0, 0, 0, true, true, []⟩)],
        3⟩).2.ackRanges = [⟨5, 5⟩, ⟨7, 6⟩] := by
  decide

end MediaBridge.Transport.Sctp
