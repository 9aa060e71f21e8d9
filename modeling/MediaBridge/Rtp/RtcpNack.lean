import MediaBridge.Lib.Run
import MediaBridge.Rtp.RtcpHeader

set_option autoImplicit false

/-! # Generic NACKs: `RtcpNackBuilder` and the side that reads them

A generic NACK (RFC 4585) is an RTCP transport-layer feedback packet: the header, the reporter
and media ssrcs, and feedback control infos of four bytes, each a packet id `pid` and a bitmask
`blp` whose bit `i` asks for `pid + i + 1` too. `RtcpNackBuilder` collects sequence numbers into
at most sixteen such infos: a number equal to a `pid`, or in the sixteen above one, goes into
that info; any other opens a new info, and with sixteen in use it is refused. `build` writes the
packet.

The reading side is `getFeedbackControlInfo`, and `VideoNackReceiveJob::run`, which asks
`sendIfCached` for the `pid` and for one number per set bit of `blp`
(`nackSequenceNumbers`). What a built packet asks for is exactly the numbers the builder
accepted (`appendSequenceNumber_requests`, `requestedBy_build`), and a refused number is not
asked for (`appendSequenceNumber_refused`).
-/

namespace MediaBridge.Rtp

open Buffer

/-- `RtcpPacketType::RTPTRANSPORT_FB`. -/
def RTPTRANSPORT_FB : BitVec 8 := 205

/-- `TransportLayerFeedbackType::PacketNack`. -/
def PacketNack : BitVec 8 := 1

/-! ## What a feedback control info asks for -/

/-- The loop of `VideoNackReceiveJob::run` over the bits of `blp`: while `blp` is not `0`, the
next sequence number, asked for when the low bit is set, and `blp` shifted right. `fuel` bounds
the rounds (a 16-bit `blp` is `0` after sixteen). -/
def blpLoop (sequenceNumber blp : BitVec 16) : Nat → List (BitVec 16)
  | 0 => []
  | fuel + 1 =>
      if blp = 0 then []
      else
        (if blp &&& 1 = 1 then [sequenceNumber + 1] else []) ++
          blpLoop (sequenceNumber + 1) (blp >>> 1) fuel

/-- The sequence numbers `VideoNackReceiveJob::run` passes to `sendIfCached` for one feedback
control info: the `pid`, then one per set bit of the `blp`. -/
def nackSequenceNumbers (pid blp : BitVec 16) : List (BitVec 16) := pid :: blpLoop pid blp 16

/-- The sequence numbers a list of feedback control infos asks for. -/
def requests (fcis : List (BitVec 16 × BitVec 16)) : List (BitVec 16) :=
  fcis.flatMap (fun fci => nackSequenceNumbers fci.1 fci.2)

theorem and_one_eq_one_iff (blp : BitVec 16) : blp &&& 1 = 1 ↔ blp.getLsbD 0 = true := by
  constructor
  · intro h
    have := congrArg (fun b => b.getLsbD 0) h
    simpa using this
  · intro h
    ext i hi
    simp only [BitVec.getElem_and]
    by_cases hi0 : i = 0
    · subst hi0
      simpa [BitVec.getLsbD_eq_getElem] using h
    · simp [hi0]

theorem getLsbD_of_toNat_lt {w fuel : Nat} {b : BitVec w} (h : b.toNat < 2 ^ fuel) {i : Nat}
    (hi : fuel ≤ i) : b.getLsbD i = false := by
  rw [BitVec.getLsbD]
  exact Nat.testBit_lt_two_pow (Nat.lt_of_lt_of_le h (Nat.pow_le_pow_right (by omega) hi))

/-- **The bits of `blp` the loop reads**: it asks for `sequenceNumber + i + 1` for each set bit
`i`, when `fuel` rounds cover the bits. -/
theorem mem_blpLoop {fuel : Nat} {sequenceNumber blp : BitVec 16} (h : blp.toNat < 2 ^ fuel)
    (x : BitVec 16) :
    x ∈ blpLoop sequenceNumber blp fuel ↔
      ∃ i, blp.getLsbD i = true ∧ x = sequenceNumber + BitVec.ofNat 16 (i + 1) := by
  induction fuel generalizing sequenceNumber blp with
  | zero =>
      have h0 : blp = 0 := BitVec.eq_of_toNat_eq (by simp at h; simp [h])
      subst h0
      simp [blpLoop]
  | succ fuel ih =>
      unfold blpLoop
      split
      · rename_i h0
        subst h0
        simp
      · have hshift : (blp >>> 1).toNat < 2 ^ fuel := by
          rw [BitVec.toNat_ushiftRight, Nat.shiftRight_eq_div_pow, Nat.pow_one]
          rw [Nat.pow_succ] at h
          omega
        rw [List.mem_append, ih hshift]
        -- bit `0` is the number right after, bit `j + 1` is bit `j` of the shifted mask
        constructor
        · rintro (hx | ⟨j, hj, rfl⟩)
          · split at hx
            · rename_i hbit
              rw [List.mem_singleton] at hx
              exact ⟨0, (and_one_eq_one_iff blp).mp hbit, by rw [hx]; rfl⟩
            · cases hx
          · rw [BitVec.getLsbD_ushiftRight] at hj
            refine ⟨1 + j, hj, ?_⟩
            rw [BitVec.add_assoc]
            congr 1
            bv_omega
        · rintro ⟨i, hi, rfl⟩
          cases i with
          | zero =>
              left
              rw [if_pos ((and_one_eq_one_iff blp).mpr hi)]
              exact List.mem_singleton.mpr rfl
          | succ j =>
              right
              refine ⟨j, by rw [BitVec.getLsbD_ushiftRight, Nat.add_comm]; exact hi, ?_⟩
              rw [BitVec.add_assoc]
              congr 1
              bv_omega

theorem mem_nackSequenceNumbers (pid blp x : BitVec 16) :
    x ∈ nackSequenceNumbers pid blp ↔
      x = pid ∨ ∃ i, blp.getLsbD i = true ∧ x = pid + BitVec.ofNat 16 (i + 1) := by
  rw [nackSequenceNumbers, List.mem_cons, mem_blpLoop blp.isLt]

/-! ## `RtcpNackBuilder` -/

/-- `RtcpNackBuilder::maxPids`. -/
def maxPids : Nat := 16

/-- Every set bit of a `blp` asks for a number above its `pid` without going past `0xFFFF`. -/
def NoWrap (fcis : List (BitVec 16 × BitVec 16)) : Prop :=
  ∀ fci ∈ fcis, ∀ i, fci.2.getLsbD i = true → fci.1.toNat + i + 1 < 65536

/-- `RtcpNackBuilder`: the ssrcs of the header, and the used entries of `_pids` with their
`_blps`, `_nextFreePid` of them. -/
structure RtcpNackBuilder where
  reporterSsrc : BitVec 32
  mediaSsrc : BitVec 32
  pids : List (BitVec 16 × BitVec 16)
  pids_length : pids.length ≤ maxPids
  pids_noWrap : NoWrap pids

namespace RtcpNackBuilder

/-- `RtcpNackBuilder(reporterSsrc, mediaSsrc)`. -/
def create (reporterSsrc mediaSsrc : BitVec 32) : RtcpNackBuilder where
  reporterSsrc := reporterSsrc
  mediaSsrc := mediaSsrc
  pids := []
  pids_length := Nat.zero_le _
  pids_noWrap := fun _ h => absurd h List.not_mem_nil

/-- The loop of `appendSequenceNumber` over the used entries: the entries after the first one
that takes the number, `none` if none does. -/
def appendLoop (sequenceNumber : BitVec 16) :
    List (BitVec 16 × BitVec 16) → Option (List (BitVec 16 × BitVec 16))
  | [] => none
  | (pid, blp) :: rest =>
      if sequenceNumber = pid then some ((pid, blp) :: rest)
      else if pid.toNat < sequenceNumber.toNat ∧ sequenceNumber.toNat ≤ pid.toNat + 16 then
        -- `shiftAmount = (sequenceNumber - 1) - _pids[i]`, at most 15
        some ((pid, blp ||| 1#16 <<< (sequenceNumber.toNat - 1 - pid.toNat)) :: rest)
      else (appendLoop sequenceNumber rest).map ((pid, blp) :: ·)

theorem appendLoop_length {sequenceNumber : BitVec 16} {l l' : List (BitVec 16 × BitVec 16)}
    (h : appendLoop sequenceNumber l = some l') : l'.length = l.length := by
  induction l generalizing l' with
  | nil => cases h
  | cons fci rest ih =>
      obtain ⟨pid, blp⟩ := fci
      unfold appendLoop at h
      split at h
      · cases h; rfl
      · split at h
        · cases h; rfl
        · cases hr : appendLoop sequenceNumber rest with
          | none => rw [hr] at h; cases h
          | some r =>
              rw [hr] at h
              cases h
              simp [ih hr]

/-- The bits of a `blp` with bit `shiftAmount` set. -/
theorem getLsbD_or_shift (blp : BitVec 16) {sh : Nat} (hsh : sh < 16) (i : Nat) :
    (blp ||| 1#16 <<< sh).getLsbD i = (blp.getLsbD i || decide (i = sh)) := by
  simp only [BitVec.getLsbD_or, BitVec.getLsbD_shiftLeft, BitVec.getLsbD_one]
  cases blp.getLsbD i
  · rcases Nat.lt_trichotomy i sh with hlt | rfl | hgt
    · simp [hlt, Nat.ne_of_lt hlt]
    · simp [hsh]
    · simp [Nat.not_lt_of_gt hgt, Nat.ne_of_gt hgt]
      omega
  · simp

/-- **What the loop asks for**: the entries it returns ask for what the old ones asked for and
the number, and keep the bits below `0xFFFF`. -/
theorem appendLoop_requests {sequenceNumber : BitVec 16} {l l' : List (BitVec 16 × BitVec 16)}
    (h : appendLoop sequenceNumber l = some l') (hl : NoWrap l) :
    (∀ x, x ∈ requests l' ↔ x ∈ requests l ∨ x = sequenceNumber) ∧ NoWrap l' := by
  induction l generalizing l' with
  | nil => cases h
  | cons fci rest ih =>
      obtain ⟨pid, blp⟩ := fci
      have hrest : NoWrap rest := fun f hf => hl f (List.mem_cons_of_mem _ hf)
      unfold appendLoop at h
      split at h
      · -- the number is this `pid`
        rename_i heq
        cases h
        refine ⟨fun x => ⟨.inl, ?_⟩, hl⟩
        rintro (hx | rfl)
        · exact hx
        · rw [heq]
          simp [requests, nackSequenceNumbers]
      · split at h
        · -- the number is within sixteen above this `pid`: one more bit
          rename_i hne hwin
          cases h
          have hsh : sequenceNumber.toNat - 1 - pid.toNat < 16 := by omega
          have hbits := getLsbD_or_shift blp hsh
          have hhit : pid + BitVec.ofNat 16 (sequenceNumber.toNat - 1 - pid.toNat + 1) =
              sequenceNumber := by
            bv_omega
          refine ⟨fun x => ?_, ?_⟩
          · simp only [requests, List.flatMap_cons, List.mem_append]
            rw [mem_nackSequenceNumbers, mem_nackSequenceNumbers]
            simp only [hbits, Bool.or_eq_true, decide_eq_true_eq]
            constructor
            · rintro ((rfl | ⟨i, (hi | rfl), rfl⟩) | hx)
              · exact .inl (.inl (.inl rfl))
              · exact .inl (.inl (.inr ⟨i, hi, rfl⟩))
              · exact .inr hhit
              · exact .inl (.inr hx)
            · rintro ((hx | hx) | rfl)
              · rcases hx with rfl | ⟨i, hi, rfl⟩
                · exact .inl (.inl rfl)
                · exact .inl (.inr ⟨i, .inl hi, rfl⟩)
              · exact .inr hx
              · exact .inl (.inr ⟨_, .inr rfl, hhit.symm⟩)
          · intro f hf i hi
            rcases List.mem_cons.mp hf with rfl | hf
            · rw [hbits, Bool.or_eq_true, decide_eq_true_eq] at hi
              rcases hi with hi | rfl
              · exact hl (pid, blp) List.mem_cons_self i hi
              · have := sequenceNumber.isLt
                dsimp only
                omega
            · exact hrest f hf i hi
        · -- the number goes further down the list
          cases hr : appendLoop sequenceNumber rest with
          | none => rw [hr] at h; cases h
          | some r =>
              rw [hr] at h
              cases h
              obtain ⟨hreq, hnw⟩ := ih hr hrest
              refine ⟨fun x => ?_, ?_⟩
              · simp only [requests, List.flatMap_cons, List.mem_append] at hreq ⊢
                rw [hreq]
                tauto
              · intro f hf
                rcases List.mem_cons.mp hf with rfl | hf
                · exact hl _ List.mem_cons_self
                · exact hnw f hf

/-- A number no entry takes is not asked for by any. -/
theorem not_mem_requests_of_appendLoop {sequenceNumber : BitVec 16} {l : List (BitVec 16 × BitVec 16)}
    (h : appendLoop sequenceNumber l = none) (hl : NoWrap l) : sequenceNumber ∉ requests l := by
  induction l with
  | nil => simp [requests]
  | cons fci rest ih =>
      obtain ⟨pid, blp⟩ := fci
      have hrest : NoWrap rest := fun f hf => hl f (List.mem_cons_of_mem _ hf)
      unfold appendLoop at h
      have hpid : sequenceNumber ≠ pid := by
        intro heq
        rw [if_pos heq] at h
        cases h
      rw [if_neg hpid] at h
      by_cases hwin : pid.toNat < sequenceNumber.toNat ∧ sequenceNumber.toNat ≤ pid.toNat + 16
      · rw [if_pos hwin] at h; cases h
      · rw [if_neg hwin] at h
        have hr : appendLoop sequenceNumber rest = none := by
          cases hr : appendLoop sequenceNumber rest with
          | none => rfl
          | some r => rw [hr] at h; cases h
        simp only [requests, List.flatMap_cons, List.mem_append, not_or]
        refine ⟨?_, ih hr hrest⟩
        rw [mem_nackSequenceNumbers]
        rintro (heq | ⟨i, hi, heq⟩)
        · exact hpid heq
        · -- a bit of this `blp` asks for a number within sixteen above the `pid`
          have hnw := hl (pid, blp) List.mem_cons_self i hi
          have hi16 : i < 16 := by
            by_contra hge
            rw [getLsbD_of_toNat_lt blp.isLt (by omega)] at hi
            cases hi
          have : sequenceNumber.toNat = pid.toNat + i + 1 := by
            rw [heq, BitVec.toNat_add, BitVec.toNat_ofNat]
            dsimp only at hnw
            omega
          exact hwin ⟨by omega, by omega⟩

/-- `appendSequenceNumber(sequenceNumber)`: the builder after, and whether the number was
taken. -/
def appendSequenceNumber (b : RtcpNackBuilder) (sequenceNumber : BitVec 16) : RtcpNackBuilder × Bool :=
  match h : appendLoop sequenceNumber b.pids with
  | some pids =>
      ({ b with
          pids := pids
          pids_length := by rw [appendLoop_length h]; exact b.pids_length
          pids_noWrap := (appendLoop_requests h b.pids_noWrap).2 }, true)
  | none =>
      if hfull : b.pids.length ≥ maxPids then (b, false)
      else
        ({ b with
            pids := b.pids ++ [(sequenceNumber, 0)]
            pids_length := by rw [List.length_append, List.length_singleton]; omega
            pids_noWrap := by
              intro f hf i hi
              rcases List.mem_append.mp hf with hf | hf
              · exact b.pids_noWrap f hf i hi
              · rw [List.mem_singleton] at hf
                subst hf
                simp at hi }, true)

/-- **A taken number is asked for**, together with what was before. -/
theorem appendSequenceNumber_requests {b : RtcpNackBuilder} {sequenceNumber : BitVec 16}
    (h : (b.appendSequenceNumber sequenceNumber).2 = true) (x : BitVec 16) :
    x ∈ requests (b.appendSequenceNumber sequenceNumber).1.pids ↔ x ∈ requests b.pids ∨ x = sequenceNumber := by
  revert h
  unfold appendSequenceNumber
  split
  · rename_i pids hloop
    intro _
    exact (appendLoop_requests hloop b.pids_noWrap).1 x
  · split
    · intro h
      cases h
    · intro _
      simp [requests, nackSequenceNumbers, blpLoop]

/-- **A refused number**: the builder is full, stays as it was, and does not ask for it. -/
theorem appendSequenceNumber_refused {b : RtcpNackBuilder} {sequenceNumber : BitVec 16}
    (h : (b.appendSequenceNumber sequenceNumber).2 = false) :
    (b.appendSequenceNumber sequenceNumber).1 = b ∧ b.pids.length = maxPids ∧
      sequenceNumber ∉ requests b.pids := by
  revert h
  unfold appendSequenceNumber
  split
  · intro h
    cases h
  · rename_i hloop
    split
    · rename_i hfull
      intro _
      exact ⟨rfl, Nat.le_antisymm b.pids_length hfull, not_mem_requests_of_appendLoop hloop b.pids_noWrap⟩
    · intro h
      cases h

/-- `build()`: the header (version 2, format `PacketNack`, the length counting the two ssrc words
and one word per info), the two ssrcs, and the infos, `pid` and `blp` high byte first. -/
def build (b : RtcpNackBuilder) : Bytes :=
  [(2 : BitVec 8) <<< 6 ||| PacketNack, RTPTRANSPORT_FB] ++ be16Bytes (2 + b.pids.length) ++
    be32Bytes b.reporterSsrc.toNat ++ be32Bytes b.mediaSsrc.toNat ++
    b.pids.flatMap (fun fci => be16Bytes fci.1.toNat ++ be16Bytes fci.2.toNat)

end RtcpNackBuilder

/-! ## Reading a NACK -/

/-- `getNumFeedbackControlInfos`: the bytes of the packet after the 12 of `RtcpFeedback`, in
words. -/
def getNumFeedbackControlInfos (p : Bytes) : Nat := (RtcpHeader.size p 0 - 12) / 4

/-- `getFeedbackControlInfo(rtcpFeedback, index, numFeedbackControlInfos, outPid, outBlp)`; an
index out of range is an assertion and leaves the outputs unwritten (`none`). -/
def getFeedbackControlInfo (p : Bytes) (index numFeedbackControlInfos : Nat) :
    Option (BitVec 16 × BitVec 16) :=
  if index ≥ numFeedbackControlInfos then none
  else some (BitVec.ofNat 16 (be16 p (12 + index * 4)), BitVec.ofNat 16 (be16 p (12 + index * 4 + 2)))

/-- The sequence numbers the jobs that `EngineMixer` posts for a NACK ask for: one
`VideoNackReceiveJob` per feedback control info. -/
def requestedBy (p : Bytes) : List (BitVec 16) :=
  (List.range (getNumFeedbackControlInfos p)).flatMap (fun index =>
    match getFeedbackControlInfo p index (getNumFeedbackControlInfos p) with
    | some (pid, blp) => nackSequenceNumbers pid blp
    | none => [])

namespace RtcpNackBuilder

/-- The first twelve bytes of a built packet. -/
theorem build_eq (b : RtcpNackBuilder) :
    ∃ header : Bytes, header.length = 12 ∧
      (∀ q, RtcpHeader.length (header ++ q) 0 = 2 + b.pids.length) ∧
      b.build = header ++ b.pids.flatMap (fun fci => be16Bytes fci.1.toNat ++ be16Bytes fci.2.toNat) := by
  refine ⟨[(2 : BitVec 8) <<< 6 ||| PacketNack, RTPTRANSPORT_FB] ++ be16Bytes (2 + b.pids.length) ++
    be32Bytes b.reporterSsrc.toNat ++ be32Bytes b.mediaSsrc.toNat, by simp, fun q => ?_, rfl⟩
  have hlen := b.pids_length
  have h := be16_be16Bytes [(2 : BitVec 8) <<< 6 ||| PacketNack, RTPTRANSPORT_FB] (be32Bytes b.reporterSsrc.toNat ++
    be32Bytes b.mediaSsrc.toNat ++ q) (2 + b.pids.length)
  simp only [List.append_assoc] at h ⊢
  unfold RtcpHeader.length
  rw [Nat.mod_eq_of_lt (by unfold maxPids at hlen; omega)] at h
  exact h

/-- Every info takes four bytes. -/
theorem length_flatMap_fcis (fcis : List (BitVec 16 × BitVec 16)) :
    (fcis.flatMap (fun fci => be16Bytes fci.1.toNat ++ be16Bytes fci.2.toNat)).length = fcis.length * 4 := by
  induction fcis with
  | nil => rfl
  | cons fci fcis ih =>
      rw [List.flatMap_cons, List.length_append, ih, List.length_append, length_be16Bytes,
        length_be16Bytes, List.length_cons]
      omega

/-- Reading back the infos written one after another. -/
theorem be16_flatMap (header : Bytes) (fcis : List (BitVec 16 × BitVec 16)) {index : Nat}
    (hi : index < fcis.length) :
    BitVec.ofNat 16 (be16 (header ++ fcis.flatMap (fun fci => be16Bytes fci.1.toNat ++ be16Bytes fci.2.toNat))
        (header.length + index * 4)) = fcis[index].1 ∧
      BitVec.ofNat 16 (be16 (header ++ fcis.flatMap (fun fci => be16Bytes fci.1.toNat ++ be16Bytes fci.2.toNat))
        (header.length + index * 4 + 2)) = fcis[index].2 := by
  generalize hf : fcis[index] = fci
  obtain ⟨pid, blp⟩ := fci
  -- the infos before take four bytes each
  have hbefore : (header ++ (fcis.take index).flatMap
      (fun fci => be16Bytes fci.1.toNat ++ be16Bytes fci.2.toNat)).length = header.length + index * 4 := by
    rw [List.length_append, length_flatMap_fcis, List.length_take, Nat.min_eq_left (Nat.le_of_lt hi)]
  have hflat : fcis.flatMap (fun fci => be16Bytes fci.1.toNat ++ be16Bytes fci.2.toNat) =
      (fcis.take index).flatMap (fun fci => be16Bytes fci.1.toNat ++ be16Bytes fci.2.toNat) ++
        (be16Bytes pid.toNat ++ (be16Bytes blp.toNat ++
          (fcis.drop (index + 1)).flatMap (fun fci => be16Bytes fci.1.toNat ++ be16Bytes fci.2.toNat))) := by
    conv_lhs => rw [← List.take_append_drop index fcis, ← List.getElem_cons_drop hi, hf]
    simp
  have hpid := be16_be16Bytes (header ++ (fcis.take index).flatMap
    (fun fci => be16Bytes fci.1.toNat ++ be16Bytes fci.2.toNat)) (be16Bytes blp.toNat ++
      (fcis.drop (index + 1)).flatMap (fun fci => be16Bytes fci.1.toNat ++ be16Bytes fci.2.toNat)) pid.toNat
  have hblp := be16_be16Bytes (header ++ (fcis.take index).flatMap
    (fun fci => be16Bytes fci.1.toNat ++ be16Bytes fci.2.toNat) ++ be16Bytes pid.toNat)
      ((fcis.drop (index + 1)).flatMap (fun fci => be16Bytes fci.1.toNat ++ be16Bytes fci.2.toNat)) blp.toNat
  simp only [List.append_assoc, List.length_append, length_be16Bytes] at hpid hblp hbefore
  rw [hflat]
  rw [Nat.mod_eq_of_lt pid.isLt] at hpid
  rw [Nat.mod_eq_of_lt blp.isLt] at hblp
  constructor
  · rw [← hbefore, hpid, BitVec.ofNat_toNat, BitVec.setWidth_eq]
  · rw [← hbefore, Nat.add_assoc, hblp, BitVec.ofNat_toNat, BitVec.setWidth_eq]

/-- The header's length field counts the words of the packet. -/
theorem size_build (b : RtcpNackBuilder) : RtcpHeader.size b.build 0 = b.build.length := by
  obtain ⟨header, hlen, hfield, hbuild⟩ := b.build_eq
  rw [RtcpHeader.size, hbuild, hfield, List.length_append, hlen, length_flatMap_fcis]
  omega

theorem isValid_build (b : RtcpNackBuilder) : RtcpHeader.isValid b.build 0 = true := by
  have h0 : byteAt b.build 0 = (2 : BitVec 8) <<< 6 ||| PacketNack := rfl
  have hv : RtcpHeader.version b.build 0 = 2 := by
    rw [RtcpHeader.version, h0]
    decide
  have hp : RtcpHeader.padding b.build 0 = false := by
    rw [RtcpHeader.padding, h0]
    decide
  rw [RtcpHeader.isValid, if_neg (by rw [hv]; decide), hp]
  rfl

theorem getNumFeedbackControlInfos_build (b : RtcpNackBuilder) :
    getNumFeedbackControlInfos b.build = b.pids.length := by
  obtain ⟨header, hlen, hfield, hbuild⟩ := b.build_eq
  rw [getNumFeedbackControlInfos, RtcpHeader.size, hbuild, hfield]
  omega

theorem getFeedbackControlInfo_build (b : RtcpNackBuilder) {index : Nat} (hi : index < b.pids.length) :
    getFeedbackControlInfo b.build index b.pids.length = some b.pids[index] := by
  obtain ⟨header, hlen, -, hbuild⟩ := b.build_eq
  obtain ⟨hpid, hblp⟩ := be16_flatMap header b.pids hi
  rw [getFeedbackControlInfo, if_neg (by omega), hbuild, ← hlen, hpid, hblp]

/-- **The round trip**: the jobs posted for a built NACK ask for exactly what its infos ask
for. -/
theorem requestedBy_build (b : RtcpNackBuilder) (x : BitVec 16) :
    x ∈ requestedBy b.build ↔ x ∈ requests b.pids := by
  unfold requestedBy requests
  rw [getNumFeedbackControlInfos_build, List.mem_flatMap, List.mem_flatMap]
  constructor
  · rintro ⟨index, hindex, hx⟩
    have hi := List.mem_range.mp hindex
    rw [getFeedbackControlInfo_build b hi] at hx
    exact ⟨b.pids[index], List.getElem_mem hi, hx⟩
  · rintro ⟨fci, hfci, hx⟩
    obtain ⟨index, hi, rfl⟩ := List.mem_iff_getElem.mp hfci
    refine ⟨index, List.mem_range.mpr hi, ?_⟩
    rw [getFeedbackControlInfo_build b hi]
    exact hx

/-! ## Runs of `appendSequenceNumber` -/

/-- **Over a run of appends**, the entries ask for what they asked for before and the numbers
whose append returned `true`. -/
theorem requests_run (b : RtcpNackBuilder) (seqs : List (BitVec 16)) (x : BitVec 16) :
    x ∈ requests (Run.run appendSequenceNumber b seqs).1.pids ↔
      x ∈ requests b.pids ∨ (x, true) ∈ seqs.zip (Run.run appendSequenceNumber b seqs).2 := by
  induction seqs generalizing b with
  | nil => simp
  | cons s rest ih =>
      rw [Run.run_cons_fst, Run.run_cons_snd, List.zip_cons_cons, List.mem_cons, ih]
      -- the first append either takes `s` or refuses it and leaves the builder
      cases hs : (b.appendSequenceNumber s).2 with
      | true =>
          rw [appendSequenceNumber_requests hs]
          simp only [Prod.mk.injEq, and_true]
          tauto
      | false =>
          obtain ⟨hb, -, -⟩ := appendSequenceNumber_refused hs
          rw [hb]
          simp

/-- The bytes `build` writes: the 12 of the header and ssrcs and four per entry, with the
header's length field counting the two ssrc words and the entries. -/
theorem build_layout (b : RtcpNackBuilder) :
    RtcpHeader.length b.build 0 = 2 + b.pids.length ∧ b.build.length = 12 + 4 * b.pids.length := by
  obtain ⟨header, hlen, hfield, hbuild⟩ := b.build_eq
  refine ⟨by rw [hbuild]; exact hfield _, ?_⟩
  rw [hbuild, List.length_append, hlen, length_flatMap_fcis]
  omega

/-- For numbers appended to a fresh builder, the numbers the jobs for the built NACK ask for are
exactly those whose append returned `true`; the length field is two more than the number of
entries, the packet is 12 bytes and four per entry, at most 128, and there are at most `maxPids`
entries. -/
theorem build_requests_accepted (reporterSsrc mediaSsrc : BitVec 32) (seqs : List (BitVec 16)) :
    (∀ x, x ∈ requestedBy (Run.run appendSequenceNumber (create reporterSsrc mediaSsrc) seqs).1.build ↔
      (x, true) ∈ seqs.zip (Run.run appendSequenceNumber (create reporterSsrc mediaSsrc) seqs).2) ∧
    RtcpHeader.length (Run.run appendSequenceNumber (create reporterSsrc mediaSsrc) seqs).1.build 0 =
      2 + (Run.run appendSequenceNumber (create reporterSsrc mediaSsrc) seqs).1.pids.length ∧
    (Run.run appendSequenceNumber (create reporterSsrc mediaSsrc) seqs).1.build.length =
      12 + 4 * (Run.run appendSequenceNumber (create reporterSsrc mediaSsrc) seqs).1.pids.length ∧
    (Run.run appendSequenceNumber (create reporterSsrc mediaSsrc) seqs).1.build.length ≤ 128 ∧
    (Run.run appendSequenceNumber (create reporterSsrc mediaSsrc) seqs).1.pids.length ≤ maxPids := by
  set b := (Run.run appendSequenceNumber (create reporterSsrc mediaSsrc) seqs).1 with hb
  obtain ⟨hfield, hsize⟩ := build_layout b
  have hmax : b.pids.length ≤ maxPids := b.pids_length
  refine ⟨fun x => ?_, hfield, hsize, ?_, hmax⟩
  · -- a fresh builder asks for nothing
    rw [requestedBy_build, hb, requests_run]
    simp [create, requests]
  · rw [hsize]
    unfold maxPids at hmax
    omega

end RtcpNackBuilder

end MediaBridge.Rtp
