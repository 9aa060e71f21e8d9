import MediaBridge.Math.Fields
import MediaBridge.Lib.Run

set_option autoImplicit false

/-! # `transport/RtpReceiveState`: extending 16-bit sequence numbers

Per inbound SSRC, `onRtpReceived` keeps the highest sequence number seen, extended to 32 bits
(`ReceiveCounters::extendedSequenceNumber`): a packet whose 16-bit number is ahead of the
stored one's low half (as an `int16_t` difference) advances it. `toExtendedSequenceNumber`
then places a packet relative to it. `TransportImpl::onRtpReceived` calls the two in that
order for every packet.

The abstract view is `unwrapStep`: each number is placed at its signed distance, in
`[-2^15, 2^15)`, from the highest value placed before it, over the integers. The receive
state refines it modulo `2^32` (`receive_refines_unwrap`): the value returned is the
unwrapped value modulo `2^32`, the stored number the unwrapped maximum modulo `2^32`. The
two differ as integers: a packet placed before the first one across `0` has a negative
unwrapped value, returned as a large unsigned one (`receive_below_initial`).

Only the counters the sequence-number logic reads are modelled; the packet must parse as an
RTP header (the source returns early otherwise), so a call is its 16-bit sequence number.
-/

namespace MediaBridge.Transport

open MediaBridge.Math Run

/-! ## The model -/

/-- The sequence-number part of `RtpReceiveState::ReceiveCounters` (all `uint32_t`). -/
structure ReceiveCounters where
  extendedSequenceNumber : BitVec 32
  packets : BitVec 32
  lostPackets : BitVec 32
  initialSequenceNumber : BitVec 32
  deriving DecidableEq, Repr

/-- The constructor's counters, all zero. -/
def ReceiveCounters.initial : ReceiveCounters := ⟨0, 0, 0, 0⟩

/-- `onRtpReceived`, on the counters. The first packet sets the extended number; a later one
advances it by the `int16_t` difference when that is positive and counts the packets it
skipped as lost, or takes one back from the lost count when it is late. -/
def onRtpReceived (c : ReceiveCounters) (sequenceNumber : BitVec 16) : ReceiveCounters :=
  let c :=
    if c.packets ≠ 0 then
      let prevSeq16 := c.extendedSequenceNumber.setWidth 16
      let diff := sequenceNumber - prevSeq16
      let c := if diff.toInt > 0 then
          { c with extendedSequenceNumber := c.extendedSequenceNumber + diff.signExtend 32 }
        else c
      if diff.toInt > 1 then { c with lostPackets := c.lostPackets + (diff.signExtend 32 - 1) }
      else if diff.toInt < 0 ∧ c.lostPackets ≠ 0 then { c with lostPackets := c.lostPackets - 1 }
      else c
    else
      { c with extendedSequenceNumber := sequenceNumber.setWidth 32,
               initialSequenceNumber := sequenceNumber.setWidth 32 }
  { c with packets := c.packets + 1 }

/-- `getExtendedSequenceNumber`. -/
def getExtendedSequenceNumber (c : ReceiveCounters) : BitVec 32 := c.extendedSequenceNumber

/-- `toExtendedSequenceNumber`: the stored number plus the `int16_t` advance to the packet. -/
def toExtendedSequenceNumber (c : ReceiveCounters) (sequenceNumber : BitVec 16) : BitVec 32 :=
  let advance := sequenceNumber - c.extendedSequenceNumber.setWidth 16
  c.extendedSequenceNumber + advance.signExtend 32

/-- One packet as `TransportImpl` handles it: record it, then extend its number. -/
def receiveStep (c : ReceiveCounters) (sequenceNumber : BitVec 16) : ReceiveCounters × BitVec 32 :=
  let c := onRtpReceived c sequenceNumber
  (c, toExtendedSequenceNumber c sequenceNumber)

/-! ## The unwrapping it implements -/

/-- The value of `s` placed after the highest value `m` seen: `m` plus the signed distance
from `m` to `s` on the 16-bit ring. -/
def unwrap (m : Int) (s : BitVec 16) : Int := m + ((s.toNat : Int) - m).bmod (2 ^ 16)

/-- Unwrapping as a step on the highest value seen (none before the first packet, which is
placed at its own number). -/
def unwrapStep : Option Int → BitVec 16 → Option Int × Int
  | none, s => (some s.toNat, s.toNat)
  | some m, s => (some (max m (unwrap m s)), unwrap m s)

/-- The receive counters stand for the highest unwrapped value `m`: they have seen a packet
and store `m` modulo `2^32`. -/
def Unwraps (c : ReceiveCounters) : Option Int → Prop
  | none => c.packets = 0
  | some m => c.packets ≠ 0 ∧ (c.extendedSequenceNumber.toNat : Int) = m % 2 ^ 32

/-! ## Arithmetic of one packet -/

/-- The low half of a number stored modulo `2^32` is the number modulo `2^16`. -/
theorem setWidth_toNat_of_emod {e : BitVec 32} {m : Int} (h : (e.toNat : Int) = m % 2 ^ 32) :
    ((e.setWidth 16).toNat : Int) = m % 2 ^ 16 := by
  rw [BitVec.toNat_setWidth]
  push_cast
  rw [h]
  omega

/-- The `int16_t` difference to a stored number is the signed distance to the value it
stands for. -/
theorem diff_toInt_of_emod {e : BitVec 32} {m : Int} (h : (e.toNat : Int) = m % 2 ^ 32)
    (s : BitVec 16) :
    (s - e.setWidth 16).toInt = ((s.toNat : Int) - m).bmod (2 ^ 16) := by
  rw [sub_toInt (by omega), setWidth_toNat_of_emod h, Int.bmod_def, Int.bmod_def]
  have : ((s.toNat : Int) - m % 2 ^ 16) % ((2 ^ 16 : Nat) : Int) =
      ((s.toNat : Int) - m) % ((2 ^ 16 : Nat) : Int) := by
    push_cast; omega
  rw [this]

/-- Adding a sign-extended difference adds its signed value modulo `2^32`. -/
theorem add_signExtend_toNat (e : BitVec 32) (d : BitVec 16) :
    ((e + d.signExtend 32).toNat : Int) % 2 ^ 32 = ((e.toNat : Int) + d.toInt) % 2 ^ 32 := by
  have hd : ((d.signExtend 32).toNat : Int) % 2 ^ 32 = d.toInt % 2 ^ 32 := by
    rw [← BitMask.toInt_emod, BitVec.toInt_signExtend_of_le (by omega)]
  rw [BitVec.toNat_add]
  push_cast
  norm_num at hd ⊢
  omega

theorem toNat_emod_self (e : BitVec 32) : (e.toNat : Int) % 2 ^ 32 = e.toNat :=
  Int.emod_eq_of_lt (by omega) (by exact_mod_cast e.isLt)

/-- The unwrapped value is congruent to the packet's number, so the distance from it to the
packet is zero. -/
theorem bmod_sub_unwrap (m : Int) (s : BitVec 16) :
    ((s.toNat : Int) - unwrap m s).bmod (2 ^ 16) = 0 := by
  have hb : ((s.toNat : Int) - m).bmod (2 ^ 16) % ((2 ^ 16 : Nat) : Int) =
      ((s.toNat : Int) - m) % ((2 ^ 16 : Nat) : Int) := Int.bmod_emod
  have h0 : ((s.toNat : Int) - unwrap m s) % ((2 ^ 16 : Nat) : Int) = 0 := by
    simp only [unwrap]
    generalize ((s.toNat : Int) - m).bmod (2 ^ 16) = b at hb
    push_cast at hb ⊢
    omega
  rw [Int.bmod_def, h0]
  rfl

theorem signExtend_setWidth_self (x : BitVec 16) : (x.signExtend 32).setWidth 16 = x := by
  ext i hi
  simp [BitVec.getLsbD_signExtend, hi]
  omega

/-- The low half of `toExtendedSequenceNumber` is the packet's own number. -/
theorem toExtendedSequenceNumber_setWidth (c : ReceiveCounters) (s : BitVec 16) :
    (toExtendedSequenceNumber c s).setWidth 16 = s := by
  simp only [toExtendedSequenceNumber]
  rw [BitVec.setWidth_add _ _ (by omega), signExtend_setWidth_self]
  abel

/-! ## The simulation -/

/-- **The first packet** sets the stored number to its own. -/
theorem receiveStep_first (c : ReceiveCounters) (s : BitVec 16) (hc : Unwraps c none) :
    Unwraps (receiveStep c s).1 (unwrapStep none s).1 ∧
      ((receiveStep c s).2.toNat : Int) = (unwrapStep none s).2 % 2 ^ 32 := by
  simp only [Unwraps] at hc
  have hstate : onRtpReceived c s = { c with
      extendedSequenceNumber := s.setWidth 32
      initialSequenceNumber := s.setWidth 32
      packets := c.packets + 1 } := by
    simp [onRtpReceived, hc]
  have hlt : s.toNat < 2 ^ 32 := Nat.lt_of_lt_of_le s.isLt (by decide)
  have hs32 : ((s.setWidth 32).toNat : Int) = (s.toNat : Int) % 2 ^ 32 := by
    rw [BitVec.toNat_setWidth, Nat.mod_eq_of_lt hlt, Int.emod_eq_of_lt (by omega)
      (by exact_mod_cast hlt)]
  have hret : toExtendedSequenceNumber (onRtpReceived c s) s = s.setWidth 32 := by
    rw [hstate]
    simp only [toExtendedSequenceNumber]
    rw [BitVec.setWidth_setWidth_of_le _ (by omega), BitVec.setWidth_eq, BitVec.sub_self]
    simp
  refine ⟨⟨?_, ?_⟩, ?_⟩
  · simp [receiveStep, hstate, hc]
  · simp only [receiveStep, hstate]
    exact hs32
  · simp only [receiveStep, unwrapStep]
    rw [hret, hs32]

/-- **Step lemma.** After a first packet, one more packet keeps the refinement: the stored
number becomes the new maximum and the returned number is the packet's unwrapped value,
both modulo `2^32`, as long as the packet counter does not wrap. -/
theorem receiveStep_next (c : ReceiveCounters) (m : Int) (s : BitVec 16) (hc : Unwraps c (some m))
    (hwrap : c.packets + 1 ≠ 0) :
    Unwraps (receiveStep c s).1 (unwrapStep (some m) s).1 ∧
      ((receiveStep c s).2.toNat : Int) = (unwrapStep (some m) s).2 % 2 ^ 32 := by
  obtain ⟨hp, he⟩ := hc
  set d := (s - c.extendedSequenceNumber.setWidth 16).toInt with hd
  have hdm : d = ((s.toNat : Int) - m).bmod (2 ^ 16) := diff_toInt_of_emod he s
  -- the stored number after the packet: advanced by `d` exactly when `d > 0`
  have hstore : ((onRtpReceived c s).extendedSequenceNumber.toNat : Int) =
      max m (unwrap m s) % 2 ^ 32 := by
    by_cases hpos : d > 0
    · have hext : (onRtpReceived c s).extendedSequenceNumber =
          c.extendedSequenceNumber + (s - c.extendedSequenceNumber.setWidth 16).signExtend 32 := by
        simp only [onRtpReceived, hp, ne_eq, not_false_eq_true, if_true]
        rw [if_pos hpos]
        split_ifs <;> rfl
      have hmax : max m (unwrap m s) = m + d := by
        rw [unwrap, ← hdm]; omega
      rw [hext, ← toNat_emod_self, add_signExtend_toNat, he, hmax, ← hd, Int.emod_add_emod]
    · have hext : (onRtpReceived c s).extendedSequenceNumber = c.extendedSequenceNumber := by
        simp only [onRtpReceived, hp, ne_eq, not_false_eq_true, if_true]
        rw [if_neg hpos]
        split_ifs <;> rfl
      have hmax : max m (unwrap m s) = m := by
        rw [unwrap, ← hdm]; omega
      rw [hext, he, hmax]
  have hpk : (onRtpReceived c s).packets = c.packets + 1 := by
    simp only [onRtpReceived, hp, ne_eq, not_false_eq_true, if_true]
    split_ifs <;> rfl
  refine ⟨⟨by simpa [receiveStep, hpk] using hwrap, hstore⟩, ?_⟩
  -- the returned number: the new maximum plus the signed distance from it
  have hret := diff_toInt_of_emod hstore s
  simp only [receiveStep, toExtendedSequenceNumber, unwrapStep]
  rw [← toNat_emod_self, add_signExtend_toNat, hstore, hret, Int.emod_add_emod]
  congr 1
  -- either the packet is the new maximum, at distance zero, or the maximum stays
  rcases max_choice m (unwrap m s) with h | h
  · rw [h]
    rfl
  · rw [h, bmod_sub_unwrap, add_zero]

theorem receiveStep_packets (c : ReceiveCounters) (s : BitVec 16) :
    (receiveStep c s).1.packets = c.packets + 1 := by
  simp only [receiveStep, onRtpReceived]
  split_ifs <;> rfl

/-- **Run lemma.** From counters that stand for `m`, a run of packets that does not wrap the
packet counter ends in counters that stand for the final maximum, and returns every packet's
unwrapped value modulo `2^32`. -/
theorem receive_run (xs : List (BitVec 16)) : ∀ (c : ReceiveCounters) (m : Option Int),
    Unwraps c m → c.packets.toNat + xs.length < 2 ^ 32 →
      Unwraps (run receiveStep c xs).1 (run unwrapStep m xs).1 ∧
        (run receiveStep c xs).2.map (fun e => (e.toNat : Int)) =
          (run unwrapStep m xs).2.map (· % 2 ^ 32) := by
  induction xs with
  | nil => intro c m hc _; exact ⟨hc, rfl⟩
  | cons x xs ih =>
      intro c m hc hlen
      have hpk : ((receiveStep c x).1.packets).toNat = c.packets.toNat + 1 := by
        rw [receiveStep_packets, BitVec.toNat_add]
        simp only [List.length_cons] at hlen
        rw [show (1 : BitVec 32).toNat = 1 from rfl, Nat.mod_eq_of_lt (by omega)]
      -- one step, by whether a packet was seen before
      have hstep : Unwraps (receiveStep c x).1 (unwrapStep m x).1 ∧
          ((receiveStep c x).2.toNat : Int) = (unwrapStep m x).2 % 2 ^ 32 := by
        cases m with
        | none => exact receiveStep_first c x hc
        | some m =>
            refine receiveStep_next c m x hc ?_
            rw [← receiveStep_packets c x]
            intro h0
            rw [h0] at hpk
            simp at hpk
      obtain ⟨h1, h2⟩ := ih _ _ hstep.1 (by simp only [List.length_cons] at hlen; omega)
      exact ⟨h1, by simp [h2, hstep.2]⟩

/-- The maximum is never negative: it starts at the first packet's number and only grows. -/
theorem unwrapStep_max_nonneg (m : Option Int) (s : BitVec 16) (hm : ∀ M, m = some M → 0 ≤ M) :
    ∀ M, (unwrapStep m s).1 = some M → 0 ≤ M ∧ ∀ M0, m = some M0 → M0 ≤ M := by
  intro M hM
  cases m with
  | none =>
      simp only [unwrapStep, Option.some.injEq] at hM
      subst hM
      exact ⟨by omega, by simp⟩
  | some m0 =>
      simp only [unwrapStep, Option.some.injEq] at hM
      subst hM
      have := hm m0 rfl
      refine ⟨by omega, ?_⟩
      rintro M0 ⟨⟩
      omega

/-- After a packet, a maximum is known. -/
theorem run_unwrapStep_ne_none (ys : List (BitVec 16)) (hne : ys ≠ []) (m : Option Int) :
    (run unwrapStep m ys).1 ≠ none := by
  cases ys with
  | nil => exact absurd rfl hne
  | cons y ys =>
      have hsome : ∀ (m : Option Int) (s : BitVec 16), ((unwrapStep m s).1).isSome = true := by
        intro m s; cases m <;> rfl
      have h := run_inv unwrapStep (fun m s (_ : m.isSome = true) => hsome m s)
        (unwrapStep m y).1 ys (hsome m y)
      rw [run_cons_fst]
      exact Option.isSome_iff_ne_none.mp h

/-- **`RtpReceiveState` extends sequence numbers by unwrapping, modulo `2^32`**, at the
packet that follows the packets `ys` on fresh counters:

* the number returned by `toExtendedSequenceNumber` is the packet's unwrapped value modulo
  `2^32`, and its low 16 bits are the packet's;
* `getExtendedSequenceNumber` is the unwrapped maximum modulo `2^32`, and does not decrease
  while that maximum is below `2^32`. -/
def ExtendsByUnwrapping (ys : List (BitVec 16)) (x : BitVec 16) : Prop :=
  let c := (run receiveStep ReceiveCounters.initial ys).1
  let m := (run unwrapStep none ys).1
  let r := receiveStep c x
  let u := unwrapStep m x
  ((r.2.toNat : Int) = u.2 % 2 ^ 32 ∧ r.2.setWidth 16 = x) ∧
  ∃ M, u.1 = some M ∧ ((getExtendedSequenceNumber r.1).toNat : Int) = M % 2 ^ 32 ∧
    (M < 2 ^ 32 → ys ≠ [] → (getExtendedSequenceNumber c).toNat ≤ (getExtendedSequenceNumber r.1).toNat)

theorem receive_refines_unwrap (ys : List (BitVec 16)) (x : BitVec 16)
    (hlen : ys.length + 1 < 2 ^ 32) : ExtendsByUnwrapping ys x := by
  have hinit : Unwraps ReceiveCounters.initial none := rfl
  have h0 : (ReceiveCounters.initial.packets).toNat = 0 := rfl
  obtain ⟨hc, -⟩ := receive_run ys _ _ hinit (by omega)
  obtain ⟨hr, hout⟩ := receive_run (ys ++ [x]) _ _ hinit (by simp; omega)
  rw [run_concat_fst, run_concat_fst] at hr
  rw [run_concat_snd, run_concat_snd, List.map_append, List.map_append] at hout
  have hx := (List.append_inj_right' hout rfl)
  simp only [List.map_cons, List.map_nil, List.cons.injEq, and_true] at hx
  -- the maximum before the packet is not negative
  have hnn : ∀ M, (run unwrapStep none ys).1 = some M → 0 ≤ M :=
    run_inv unwrapStep (fun m s hm M hM => (unwrapStep_max_nonneg m s hm M hM).1) none ys
      (fun M h => by simp at h)
  refine ⟨⟨hx, toExtendedSequenceNumber_setWidth _ x⟩, ?_⟩
  cases hm : (unwrapStep (run unwrapStep none ys).1 x).1 with
  | none => cases hu : (run unwrapStep none ys).1 <;> simp [hu, unwrapStep] at hm
  | some M =>
      rw [hm] at hr
      obtain ⟨-, hM⟩ := hr
      refine ⟨M, rfl, hM, fun hlt hne => ?_⟩
      -- before the packet the counters stand for a maximum `M0 ≤ M`, both in `[0, 2^32)`
      cases hm0 : (run unwrapStep none ys).1 with
      | none => exact absurd hm0 (run_unwrapStep_ne_none ys hne none)
      | some M0 =>
          rw [hm0] at hc
          obtain ⟨-, hM0⟩ := hc
          have hle := (unwrapStep_max_nonneg _ x hnn M hm).2 M0 hm0
          have hnn0 := hnn M0 hm0
          rw [Int.emod_eq_of_lt hnn0 (lt_of_le_of_lt hle hlt)] at hM0
          rw [Int.emod_eq_of_lt (le_trans hnn0 hle) hlt] at hM
          simp only [getExtendedSequenceNumber]
          omega

theorem receive_refines_unwrap_after_zero :
    [(0 : BitVec 16)].length + 1 < 2 ^ 32 ∧ ExtendsByUnwrapping [0] 0xFFFF :=
  ⟨by decide, receive_refines_unwrap [0] 0xFFFF (by decide)⟩

/-- The packet `0xFFFF` after a first packet `0` is one before it: its unwrapped value is
`-1`, and the receive state returns `0xFFFFFFFF`. -/
theorem receive_below_initial :
    (run receiveStep ReceiveCounters.initial [0, 0xFFFF]).2 = [0, 0xFFFFFFFF] ∧
      (run unwrapStep none [0, 0xFFFF]).2 = [0, -1] := by
  decide

end MediaBridge.Transport
