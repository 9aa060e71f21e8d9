import Mathlib.Data.BitVec

set_option autoImplicit false

/-! # SCTP congestion control: `SctpAssociationImpl::CongestionControl`

The sender's window follows RFC 4960 section 7.2: below the slow start threshold every SACK
that advances the cumulative ack grows the window by at most one MTU; at or above it the acked
bytes are summed in `_partialBytesAcked`, and once the sum reaches the window the window grows
by one MTU and the sum is reduced. A loss or a timeout cuts the window and clears the sum, and
an idle period halves the window.

The window is a `uint32_t` and the sum a `size_t`: `BitVec 32` and `BitVec 64` here, with the
source's conversions between them. The source grows the window before it reduces the sum, and
reduces the sum by the grown window: when the sum is at least the old window but below the old
window plus one MTU, the `size_t` subtraction wraps (`partialBytesAcked_onSackReceived`), and a
short run from a fresh association reaches that case (`onSackReceived_partialBytesAcked_wraps`).

The timestamps the operations take are not read by them and are left out, as are the timers and
the retransmit timeout.
-/

namespace MediaBridge.Transport.Sctp

/-- `std::min` on unsigned words. -/
def umin {w : Nat} (a b : BitVec w) : BitVec w := if b < a then b else a

/-- `std::max` on unsigned words. -/
def umax {w : Nat} (a b : BitVec w) : BitVec w := if a < b then b else a

/-- The fields of `SctpAssociationImpl::CongestionControl` its window operations read and write. -/
structure CongestionControl where
  congestionWindow : BitVec 32
  slowStartThreshold : BitVec 64
  inFastRecovery : Bool
  partialBytesAcked : BitVec 64
  deriving DecidableEq, Repr

namespace CongestionControl

/-- `CongestionControl(config, logId)`, with `config.flow.slowStartThreshold`. -/
def create (slowStartThreshold : BitVec 64) : CongestionControl where
  congestionWindow := 4 * 1500
  slowStartThreshold := slowStartThreshold
  inFastRecovery := false
  partialBytesAcked := 0

variable (s : CongestionControl)

/-- `reset(mtu, slowStartThreshold_)`. -/
def reset (mtu : BitVec 32) (slowStartThreshold : BitVec 64) : CongestionControl :=
  { s with
    congestionWindow := umin (4 * mtu) (umax (2 * mtu) 4380)
    slowStartThreshold := slowStartThreshold }

/-- `onIdle(timestamp, mtu)`. -/
def onIdle (mtu : BitVec 32) : CongestionControl :=
  if s.inFastRecovery then s
  else { s with congestionWindow := umax (s.congestionWindow / 2) (4 * mtu) }

/-- The window update of `onSackReceived` when the whole window was in flight: slow start
below the threshold, congestion avoidance at or above it. -/
def growWindow (mtu bytesAcked : BitVec 32) : CongestionControl :=
  if s.congestionWindow.setWidth 64 < s.slowStartThreshold then
    { s with
      congestionWindow := s.congestionWindow + umin bytesAcked mtu
      partialBytesAcked := 0 }
  else
    let partialBytesAcked := s.partialBytesAcked + bytesAcked.setWidth 64
    if partialBytesAcked ≥ s.congestionWindow.setWidth 64 then
      -- the window grows first, and the grown window is taken off the sum
      let congestionWindow := s.congestionWindow + mtu
      { s with
        congestionWindow := congestionWindow
        partialBytesAcked := partialBytesAcked - congestionWindow.setWidth 64 }
    else { s with partialBytesAcked := partialBytesAcked }

/-- `onSackReceived(timestamp, mtu, flightSizeBeforeAck, bytesAcked, allPendingDataAcked)`. -/
def onSackReceived (mtu flightSizeBeforeAck bytesAcked : BitVec 32) (allPendingDataAcked : Bool) :
    CongestionControl :=
  if s.inFastRecovery then s
  else
    let s := if flightSizeBeforeAck ≥ s.congestionWindow then s.growWindow mtu bytesAcked else s
    if allPendingDataAcked then { s with partialBytesAcked := 0 } else s

/-- `onPacketLoss(timestamp, mtu)`. -/
def onPacketLoss (mtu : BitVec 32) : CongestionControl :=
  let s := { s with
    partialBytesAcked := 0
    slowStartThreshold := (umax (s.congestionWindow / 2) (4 * mtu)).setWidth 64 }
  { s with congestionWindow := s.slowStartThreshold.setWidth 32 }

/-- `onTransmitTimeout(timestamp, mtu)`. -/
def onTransmitTimeout (mtu : BitVec 32) : CongestionControl :=
  { s with
    partialBytesAcked := 0
    slowStartThreshold := (umax (s.congestionWindow / 2) (4 * mtu)).setWidth 64
    congestionWindow := mtu }

/-! ## Congestion avoidance -/

/-- **The sum after a SACK in congestion avoidance**, when neither the sum nor the grown window
overflows: below the window it is the sum; from the window up to the window plus one MTU the
subtraction of the grown window wraps around `2^64`; above that it is the sum less the grown
window. -/
theorem partialBytesAcked_onSackReceived {mtu flightSizeBeforeAck bytesAcked : BitVec 32}
    (hfast : s.inFastRecovery = false) (hflight : s.congestionWindow ≤ flightSizeBeforeAck)
    (hthreshold : s.slowStartThreshold.toNat ≤ s.congestionWindow.toNat)
    (hsum : s.partialBytesAcked.toNat + bytesAcked.toNat < 2 ^ 64)
    (hwindow : s.congestionWindow.toNat + mtu.toNat < 2 ^ 32) :
    (s.onSackReceived mtu flightSizeBeforeAck bytesAcked false).partialBytesAcked.toNat =
      if s.partialBytesAcked.toNat + bytesAcked.toNat < s.congestionWindow.toNat then
        s.partialBytesAcked.toNat + bytesAcked.toNat
      else if s.partialBytesAcked.toNat + bytesAcked.toNat < s.congestionWindow.toNat + mtu.toNat then
        2 ^ 64 + (s.partialBytesAcked.toNat + bytesAcked.toNat) -
          (s.congestionWindow.toNat + mtu.toNat)
      else
        s.partialBytesAcked.toNat + bytesAcked.toNat - (s.congestionWindow.toNat + mtu.toNat) := by
  have hcw : (s.congestionWindow.setWidth 64).toNat = s.congestionWindow.toNat := by
    rw [BitVec.toNat_setWidth]
    exact Nat.mod_eq_of_lt (by have := s.congestionWindow.isLt; omega)
  have hba : (bytesAcked.setWidth 64).toNat = bytesAcked.toNat := by
    rw [BitVec.toNat_setWidth]
    exact Nat.mod_eq_of_lt (by have := bytesAcked.isLt; omega)
  have hpba : (s.partialBytesAcked + bytesAcked.setWidth 64).toNat =
      s.partialBytesAcked.toNat + bytesAcked.toNat := by
    rw [BitVec.toNat_add, hba, Nat.mod_eq_of_lt hsum]
  have hgrown : ((s.congestionWindow + mtu).setWidth 64).toNat =
      s.congestionWindow.toNat + mtu.toNat := by
    rw [BitVec.toNat_setWidth, BitVec.toNat_add, Nat.mod_eq_of_lt hwindow]
    exact Nat.mod_eq_of_lt (by omega)
  -- the call is congestion avoidance: not in fast recovery, the window in flight, at or above
  -- the threshold
  have havoid : ¬ s.congestionWindow.setWidth 64 < s.slowStartThreshold := by
    rw [BitVec.lt_def, hcw]
    omega
  unfold onSackReceived growWindow
  rw [if_neg (by rw [hfast]; decide), if_pos hflight, if_neg havoid]
  dsimp only
  rw [if_neg Bool.false_ne_true]
  by_cases hreach : s.partialBytesAcked + bytesAcked.setWidth 64 ≥ s.congestionWindow.setWidth 64
  · have hle : s.congestionWindow.toNat ≤ s.partialBytesAcked.toNat + bytesAcked.toNat := by
      rw [ge_iff_le, BitVec.le_def, hcw, hpba] at hreach
      exact hreach
    rw [if_pos hreach, if_neg (by omega)]
    dsimp only
    rw [BitVec.toNat_sub, hpba, hgrown]
    split
    · -- the grown window is above the sum: the subtraction wraps
      rw [Nat.mod_eq_of_lt (by omega)]
      omega
    · rw [show 2 ^ 64 - (s.congestionWindow.toNat + mtu.toNat) +
          (s.partialBytesAcked.toNat + bytesAcked.toNat) =
          (s.partialBytesAcked.toNat + bytesAcked.toNat - (s.congestionWindow.toNat + mtu.toNat)) +
            2 ^ 64 by omega, Nat.add_mod_right, Nat.mod_eq_of_lt (by omega)]
  · have hlt : s.partialBytesAcked.toNat + bytesAcked.toNat < s.congestionWindow.toNat := by
      rw [ge_iff_le, BitVec.le_def, hcw, hpba] at hreach
      omega
    rw [if_neg hreach, if_pos hlt]
    exact hpba

/-- From a fresh association with the default threshold, one reset, one loss and one SACK that
acks a whole window in congestion avoidance: before the SACK the sum is below the window, after
it the sum has wrapped to `2^64 - 1200`, far above the window. -/
theorem onSackReceived_partialBytesAcked_wraps :
    (((create (32 * 1024)).reset 1200 (32 * 1024)).onPacketLoss 1200).partialBytesAcked.toNat <
        (((create (32 * 1024)).reset 1200 (32 * 1024)).onPacketLoss 1200).congestionWindow.toNat ∧
      ((((create (32 * 1024)).reset 1200 (32 * 1024)).onPacketLoss 1200).onSackReceived
        1200 4800 4800 false).congestionWindow.toNat = 6000 ∧
      ((((create (32 * 1024)).reset 1200 (32 * 1024)).onPacketLoss 1200).onSackReceived
        1200 4800 4800 false).partialBytesAcked.toNat = 2 ^ 64 - 1200 := by
  decide

end CongestionControl

end MediaBridge.Transport.Sctp
