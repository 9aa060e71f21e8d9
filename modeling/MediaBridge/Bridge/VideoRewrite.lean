import MediaBridge.Bridge.SsrcOutboundContext

set_option autoImplicit false

/-! # `rewriteVideo`: the outbound VP8 stream over a run

Over any run on a VP8 context whose packets carry the full descriptor, the context's
`lastSent` record is the highest packet forwarded so far (in the 32-bit sequence ring) and
`_originalSsrc` the origin of the last one (`VideoTrack`, kept by every call). From it:

* a packet of a new origin, and the first packet, continue all three outbound counters
  right after `lastSent` (sequence number, 15-bit picture id, 8-bit TL0PICIDX);
* a packet of the same origin accepted without a gap re-base is written with its inbound
  values plus the offsets, which the call leaves in place (`rewriteVideo_continuity`).

The outbound numbering is not injective: the gap re-base moves the offset back, and a late
packet from before the gap is then written on a number already sent
(`rewriteVideo_gap_reuses_outbound_number`).
-/

namespace MediaBridge.Bridge

open MediaBridge.Codec.Vp8Header MediaBridge.Math Run

/-! ## Field lemmas of the branches -/

section Fields

variable (c : SsrcOutboundContext) (isVp8 : Bool) (header : RtpHeader) (ext rtp : BitVec 32)
  (picId : BitVec 16) (tl0 : BitVec 8) (ts rate : BitVec 64) (kf : Bool) (origin : BitVec 32)

@[simp] theorem forwardVideo_originalSsrc :
    (forwardVideo c isVp8 header ext picId tl0 ts kf).1.originalSsrc = c.originalSsrc := by
  cases kf <;> rfl

@[simp] theorem forwardVideo_rtpMap :
    (forwardVideo c isVp8 header ext picId tl0 ts kf).1.rtpMap = c.rtpMap := by
  cases kf <;> rfl

@[simp] theorem forwardVideo_offset :
    (forwardVideo c isVp8 header ext picId tl0 ts kf).1.rewrite.offset = c.rewrite.offset := by
  cases kf <;> rfl

theorem forwardVideo_lastSent :
    (forwardVideo c isVp8 header ext picId tl0 ts kf).1.rewrite.lastSent =
      if (ext + c.rewrite.offset.sequenceNumber - c.rewrite.lastSent.sequenceNumber).toInt > 0 then
        { c.rewrite.lastSent with
          sequenceNumber := ext + c.rewrite.offset.sequenceNumber
          timestamp := c.rewrite.offset.timestamp + header.timestamp
          wallClock := ts
          picId := if isVp8 then picId + c.rewrite.offset.picId else 0xFFFF
          tl0PicIdx := (if isVp8 then tl0 + c.rewrite.offset.tl0PicIdx.setWidth 8 else 0xFF).setWidth 16 }
      else c.rewrite.lastSent := by
  cases kf <;> cases isVp8 <;> rfl

/-- On VP8 the forwarded header carries the renumbered picture id and TL0PICIDX. -/
theorem forwardVideo_vp8_snd :
    (forwardVideo c true header ext picId tl0 ts kf).2 =
      some (ext + c.rewrite.offset.sequenceNumber,
        { doRtpHeaderRewriteForVideo c header (ext + c.rewrite.offset.sequenceNumber) with
          payload := setTl0PicIdx (setPicId header.payload (picId + c.rewrite.offset.picId))
            (tl0 + c.rewrite.offset.tl0PicIdx.setWidth 8) }) := by
  cases kf <;> rfl

@[simp] theorem rebaseOnSsrcSwitch_originalSsrc :
    (rebaseOnSsrcSwitch c isVp8 rate ext rtp picId tl0 ts origin).originalSsrc = origin := rfl

@[simp] theorem rebaseOnSsrcSwitch_rtpMap :
    (rebaseOnSsrcSwitch c isVp8 rate ext rtp picId tl0 ts origin).rtpMap = c.rtpMap := rfl

@[simp] theorem rebaseOnSsrcSwitch_ssrc :
    (rebaseOnSsrcSwitch c isVp8 rate ext rtp picId tl0 ts origin).ssrc = c.ssrc := rfl

@[simp] theorem rebaseOnSsrcSwitch_lastSent :
    (rebaseOnSsrcSwitch c isVp8 rate ext rtp picId tl0 ts origin).rewrite.lastSent =
      c.rewrite.lastSent := rfl

@[simp] theorem rebaseOnSsrcSwitch_offset_sequenceNumber :
    (rebaseOnSsrcSwitch c isVp8 rate ext rtp picId tl0 ts origin).rewrite.offset.sequenceNumber =
      ringDifference 32 32 ext (c.rewrite.lastSent.sequenceNumber + 1) := by
  cases isVp8 <;> rfl

@[simp] theorem rebaseOnSsrcSwitch_vp8_offset_picId :
    (rebaseOnSsrcSwitch c true rate ext rtp picId tl0 ts origin).rewrite.offset.picId =
      ringDifference 16 15 picId (c.rewrite.lastSent.picId + 1) := rfl

@[simp] theorem rebaseOnSsrcSwitch_vp8_offset_tl0PicIdx :
    (rebaseOnSsrcSwitch c true rate ext rtp picId tl0 ts origin).rewrite.offset.tl0PicIdx =
      ringDifference 16 8 (tl0.setWidth 16) (c.rewrite.lastSent.tl0PicIdx + 1) := rfl

@[simp] theorem rebaseOnGap_originalSsrc :
    (rebaseOnGap c ext rtp ts).originalSsrc = c.originalSsrc := rfl

@[simp] theorem rebaseOnGap_rtpMap : (rebaseOnGap c ext rtp ts).rtpMap = c.rtpMap := rfl

@[simp] theorem rebaseOnGap_lastSent :
    (rebaseOnGap c ext rtp ts).rewrite.lastSent = c.rewrite.lastSent := rfl

@[simp] theorem startVideoRewrite_originalSsrc :
    (startVideoRewrite c ext rtp picId tl0 ts origin).originalSsrc = origin - 1 := rfl

@[simp] theorem startVideoRewrite_rtpMap :
    (startVideoRewrite c ext rtp picId tl0 ts origin).rtpMap = c.rtpMap := rfl

@[simp] theorem startVideoRewrite_ssrc :
    (startVideoRewrite c ext rtp picId tl0 ts origin).ssrc = c.ssrc := rfl

end Fields

/-! ## What a forwarded packet carries -/

/-- The outbound sequence number, picture id and TL0PICIDX of a forwarded packet. -/
structure SentMark where
  sequenceNumber : BitVec 32
  picId : BitVec 16
  tl0PicIdx : BitVec 8
  deriving DecidableEq, Repr

/-- The mark of a forwarded packet, read from its rewritten header. -/
def SentMark.ofHeader (out : BitVec 32) (h : RtpHeader) : SentMark :=
  ⟨out, getPicId h.payload, getTl0PicIdx h.payload⟩

/-- The mark `lastSent` records, as the descriptor shows it: 15 bits of picture id, 8 of
TL0PICIDX. -/
def SentMark.ofTracker (t : Tracker) : SentMark :=
  ⟨t.sequenceNumber, t.picId &&& 0x7FFF, t.tl0PicIdx.setWidth 8⟩

/-- The later of two marks in the 32-bit sequence ring: `m` replaces `cur` exactly when
`rewriteVideo` would advance lastSent from `cur` to `m`. -/
def SentMark.newer (cur m : SentMark) : SentMark :=
  if (m.sequenceNumber - cur.sequenceNumber).toInt > 0 then m else cur

theorem SentMark.newer_of_pos {cur m : SentMark}
    (h : (m.sequenceNumber - cur.sequenceNumber).toInt > 0) : cur.newer m = m := if_pos h

theorem SentMark.newer_of_not_pos {cur m : SentMark}
    (h : ¬(m.sequenceNumber - cur.sequenceNumber).toInt > 0) : cur.newer m = cur := if_neg h

/-- The highest of the marks sent, folding `newer` from the first. -/
def highest : List SentMark → Option SentMark
  | [] => none
  | m :: ms => some (ms.foldl SentMark.newer m)

theorem highest_concat (ms : List SentMark) (m : SentMark) :
    highest (ms ++ [m]) = some ((highest ms).elim m (SentMark.newer · m)) := by
  cases ms with
  | nil => rfl
  | cons m0 ms => simp [highest, List.foldl_append]

/-- The forwarded calls of a run, with the origin SSRC each came from and its mark. -/
def forwarded (trace : List (VideoPacket × Option (BitVec 32 × RtpHeader))) :
    List (BitVec 32 × SentMark) :=
  trace.filterMap fun e => e.2.map fun r => (e.1.header.ssrc, SentMark.ofHeader r.1 r.2)

@[simp] theorem forwarded_nil : forwarded [] = [] := rfl

theorem forwarded_concat_some (trace : List (VideoPacket × Option (BitVec 32 × RtpHeader)))
    (x : VideoPacket) (out : BitVec 32) (h : RtpHeader) :
    forwarded (trace ++ [(x, some (out, h))]) =
      forwarded trace ++ [(x.header.ssrc, SentMark.ofHeader out h)] := by
  simp [forwarded, List.filterMap_append]

theorem forwarded_concat_none (trace : List (VideoPacket × Option (BitVec 32 × RtpHeader)))
    (x : VideoPacket) : forwarded (trace ++ [(x, none)]) = forwarded trace := by
  simp [forwarded, List.filterMap_append]

/-! ## Forwarding a VP8 packet -/

/-- Masking a 16-bit word to 15 bits is truncating it. -/
theorem and_7FFF_eq_setWidth (y : BitVec 16) : y &&& 0x7FFF = (y.setWidth 15).setWidth 16 := by
  have hm : (0x7FFF : BitVec 16) = BitVec.allOnes 16 >>> (16 - 15) := by decide
  rw [hm, BitMask.and_lowMask_eq_setWidth (by omega)]

theorem setWidth_16_ne_FFFF (y : BitVec 8) : (y.setWidth 16 == 0xFFFF) = false := by
  have hy := y.isLt
  rw [beq_eq_false_iff_ne]
  intro h
  have h' := congrArg BitVec.toNat h
  rw [BitVec.toNat_setWidth] at h'
  simp at h'
  omega

/-- A switch re-base makes the written picture id continue `b` on 15 bits. -/
theorem picId_add_ringDifference (p b : BitVec 16) :
    (p + ringDifference 16 15 p b) &&& 0x7FFF = b &&& 0x7FFF := by
  rw [and_7FFF_eq_setWidth, and_7FFF_eq_setWidth, ringDifference_add_setWidth (by omega) (by omega)]

/-- A switch re-base makes the written TL0PICIDX continue `b` on 8 bits. -/
theorem tl0PicIdx_add_ringDifference (t : BitVec 8) (b : BitVec 16) :
    t + (ringDifference 16 8 (t.setWidth 16) b).setWidth 8 = b.setWidth 8 := by
  rw [BitMask.add_setWidth_eq (by omega), ringDifference_add_setWidth (by omega) (by omega)]

/-! ## The branches of `rewriteVideo` on a VP8 packet -/

/-- The forwarding tail on a VP8 packet with the picture id and TL0PICIDX it carries. -/
def vp8Forward (c : SsrcOutboundContext) (x : VideoPacket) :
    SsrcOutboundContext × Option (BitVec 32 × RtpHeader) :=
  forwardVideo c true x.header x.extendedSequenceNumber (getPicId x.header.payload)
    (getTl0PicIdx x.header.payload) x.timestamp x.isKeyFrame

/-- The switch re-base on a VP8 packet. -/
def vp8Rebase (c : SsrcOutboundContext) (x : VideoPacket) : SsrcOutboundContext :=
  rebaseOnSsrcSwitch c true vp8SampleRate x.extendedSequenceNumber x.header.timestamp
    (getPicId x.header.payload) (getTl0PicIdx x.header.payload) x.timestamp x.header.ssrc

section Branches

variable {s : SsrcOutboundContext} {x : VideoPacket}

/-- The branch lemma behind every started VP8 context: which branch a call takes. -/
theorem rewriteVideoStep_of_started (hv : s.isVp8 = true) (he : s.rewrite.empty = false) :
    rewriteVideoStep s x =
      if s.originalSsrc ≠ x.header.ssrc then vp8Forward (vp8Rebase s x) x
      else if (seqAdvance s.rewrite x.extendedSequenceNumber).toInt > MAX_VIDEO_SEQ_GAP then
        vp8Forward (rebaseOnGap s x.extendedSequenceNumber x.header.timestamp x.timestamp) x
      else if isPacketTooOld s.rewrite x.extendedSequenceNumber MAX_REWIND_VIDEO then (s, none)
      else vp8Forward s x := by
  simp only [rewriteVideoStep, rewriteVideo, he, hv, Bool.false_eq_true, if_false]
  rfl

theorem vp8Forward_isVp8 (c : SsrcOutboundContext) (x : VideoPacket) :
    (vp8Forward c x).1.isVp8 = c.isVp8 := by
  simp [vp8Forward, SsrcOutboundContext.isVp8]

/-- **Forwarding on VP8.** The packet goes out as `ext + offset`, with picture id and
TL0PICIDX its own plus the offsets (the picture id on 15 bits), and with the context's
SSRC. -/
theorem vp8Forward_mark (c : SsrcOutboundContext) (hx : HasFullDescriptor x.header.payload) :
    ∃ h, (vp8Forward c x).2 = some (x.extendedSequenceNumber + c.rewrite.offset.sequenceNumber, h) ∧
      getPicId h.payload = (getPicId x.header.payload + c.rewrite.offset.picId) &&& 0x7FFF ∧
      getTl0PicIdx h.payload = getTl0PicIdx x.header.payload + c.rewrite.offset.tl0PicIdx.setWidth 8 ∧
      h.ssrc = c.ssrc := by
  refine ⟨_, forwardVideo_vp8_snd c x.header _ _ _ _ _, ?_, ?_, rfl⟩
  · have hfull := setPicId_full hx (getPicId x.header.payload + c.rewrite.offset.picId)
    simp only [getPicId_setTl0PicIdx hfull, getPicId_setPicId hx]
  · have hfull := setPicId_full hx (getPicId x.header.payload + c.rewrite.offset.picId)
    simp only [getTl0PicIdx_setTl0PicIdx hfull]

/-- The mark lastSent records after forwarding is the newer of the old one and the packet's. -/
theorem vp8Forward_lastSent (c : SsrcOutboundContext) (x : VideoPacket) :
    SentMark.ofTracker (vp8Forward c x).1.rewrite.lastSent =
      (SentMark.ofTracker c.rewrite.lastSent).newer
        ⟨x.extendedSequenceNumber + c.rewrite.offset.sequenceNumber,
          (getPicId x.header.payload + c.rewrite.offset.picId) &&& 0x7FFF,
          getTl0PicIdx x.header.payload + c.rewrite.offset.tl0PicIdx.setWidth 8⟩ := by
  rw [vp8Forward, forwardVideo_lastSent]
  by_cases hadv : (x.extendedSequenceNumber + c.rewrite.offset.sequenceNumber -
      c.rewrite.lastSent.sequenceNumber).toInt > 0
  · rw [if_pos hadv, SentMark.newer_of_pos (by exact hadv)]
    simp [SentMark.ofTracker]
  · rw [if_neg hadv, SentMark.newer_of_not_pos (by exact hadv)]

/-- A packet that advances lastSent leaves it non-empty: its TL0PICIDX has 8 bits. -/
theorem vp8Forward_started (c : SsrcOutboundContext) (x : VideoPacket)
    (h : c.rewrite.lastSent.empty = false ∨
      (x.extendedSequenceNumber + c.rewrite.offset.sequenceNumber -
        c.rewrite.lastSent.sequenceNumber).toInt > 0) :
    (vp8Forward c x).1.rewrite.lastSent.empty = false := by
  rw [vp8Forward, forwardVideo_lastSent]
  by_cases hadv : (x.extendedSequenceNumber + c.rewrite.offset.sequenceNumber -
      c.rewrite.lastSent.sequenceNumber).toInt > 0
  · simp only [hadv, if_true, Tracker.empty, setWidth_16_ne_FFFF, Bool.and_false, Bool.false_and]
  · simp only [hadv, if_false]
    exact h.resolve_right hadv

end Branches

/-! ## The run invariant -/

/-- What a VP8 context knows of the run so far: lastSent is the highest packet forwarded
and `_originalSsrc` the origin of the last one. -/
structure VideoTrack (s : SsrcOutboundContext)
    (trace : List (VideoPacket × Option (BitVec 32 × RtpHeader))) : Prop where
  vp8 : s.isVp8 = true
  started : s.rewrite.lastSent.empty = false
  origin : ((forwarded trace).getLast?).map Prod.fst = some s.originalSsrc
  highest : highest ((forwarded trace).map Prod.snd) = some (SentMark.ofTracker s.rewrite.lastSent)

section Track

variable {s : SsrcOutboundContext} {trace : List (VideoPacket × Option (BitVec 32 × RtpHeader))}
  {x : VideoPacket}

theorem VideoTrack.rewrite_empty (h : VideoTrack s trace) : s.rewrite.empty = false := by
  simp [SsrcRewrite.empty, h.started]

theorem VideoTrack.forwarded_ne_nil (h : VideoTrack s trace) : forwarded trace ≠ [] := by
  intro hnil
  have := h.origin
  simp [hnil] at this

/-- A dropped call changes nothing. -/
theorem VideoTrack.concat_none (h : VideoTrack s trace) (x : VideoPacket) :
    VideoTrack s (trace ++ [(x, none)]) where
  vp8 := h.vp8
  started := h.started
  origin := by rw [forwarded_concat_none]; exact h.origin
  highest := by rw [forwarded_concat_none]; exact h.highest

/-- Forwarding from a context that keeps lastSent and names the packet's origin keeps the
invariant: the step lemma shared by the switch, gap and in-order branches. -/
theorem VideoTrack.forward {c : SsrcOutboundContext} (h : VideoTrack s trace)
    (hx : HasFullDescriptor x.header.payload) (hc : c.isVp8 = true)
    (hlast : c.rewrite.lastSent = s.rewrite.lastSent) (horigin : c.originalSsrc = x.header.ssrc) :
    VideoTrack (vp8Forward c x).1 (trace ++ [(x, (vp8Forward c x).2)]) := by
  obtain ⟨hd, hout, hpic, htl0, -⟩ := vp8Forward_mark c hx
  rw [hout]
  refine ⟨?_, ?_, ?_, ?_⟩
  · rw [vp8Forward_isVp8, hc]
  · exact vp8Forward_started c x (Or.inl (hlast ▸ h.started))
  · rw [forwarded_concat_some]
    simp [vp8Forward, horigin]
  · rw [forwarded_concat_some, List.map_append, List.map_cons, List.map_nil, highest_concat,
      h.highest, vp8Forward_lastSent, hlast, SentMark.ofHeader, hpic, htl0]
    rfl

/-- **Step lemma.** Every call keeps the invariant. -/
theorem videoTrack_step (h : VideoTrack s trace) (hx : HasFullDescriptor x.header.payload) :
    VideoTrack (rewriteVideoStep s x).1 (trace ++ [(x, (rewriteVideoStep s x).2)]) := by
  have hv := h.vp8
  rw [rewriteVideoStep_of_started hv h.rewrite_empty]
  split_ifs with hswitch hgap hold
  · -- a new origin: the switch re-base keeps lastSent and takes the packet's origin
    exact h.forward hx hv rfl rfl
  · -- a gap re-base keeps lastSent and the origin
    exact h.forward hx hv rfl (by simpa using hswitch)
  · exact h.concat_none x
  · exact h.forward hx hv rfl (by simpa using hswitch)

end Track

/-! ## The first packet -/

section First

variable (ssrc : BitVec 32) (pt : BitVec 8) (te : RtpMap)

/-- A fresh VP8 context. -/
def vp8Context : SsrcOutboundContext := SsrcOutboundContext.create ssrc ⟨.vp8, pt⟩ te

theorem vp8Context_rewrite_empty : (vp8Context ssrc pt te).rewrite.empty = true := rfl

theorem vp8Context_isVp8 : (vp8Context ssrc pt te).isVp8 = true := rfl

theorem sub_one_ne_self (v : BitVec 32) : v - 1 ≠ v := by
  bv_omega

/-- The context the first call forwards from: started on the packet's predecessor, then
re-based as a new origin. -/
def firstRebase (x : VideoPacket) : SsrcOutboundContext :=
  vp8Rebase (startVideoRewrite (vp8Context ssrc pt te) x.extendedSequenceNumber x.header.timestamp
    (getPicId x.header.payload) (getTl0PicIdx x.header.payload) x.timestamp x.header.ssrc) x

/-- The first packet continues from its own predecessor: the first re-base gives it offsets
that reproduce its sequence number, picture id and TL0PICIDX. -/
theorem rewriteVideo_first (x : VideoPacket) (hx : HasFullDescriptor x.header.payload) :
    rewriteVideoStep (vp8Context ssrc pt te) x = vp8Forward (firstRebase ssrc pt te x) x ∧
      (firstRebase ssrc pt te x).rewrite.offset.sequenceNumber = 0 ∧
      (firstRebase ssrc pt te x).rewrite.lastSent.sequenceNumber = x.extendedSequenceNumber - 1 ∧
      getPicId x.header.payload + (firstRebase ssrc pt te x).rewrite.offset.picId &&& 0x7FFF =
        getPicId x.header.payload ∧
      getTl0PicIdx x.header.payload + (firstRebase ssrc pt te x).rewrite.offset.tl0PicIdx.setWidth 8 =
        getTl0PicIdx x.header.payload := by
  refine ⟨?_, ?_, rfl, ?_, ?_⟩
  · have hne : (startVideoRewrite (vp8Context ssrc pt te) x.extendedSequenceNumber x.header.timestamp
        (getPicId x.header.payload) (getTl0PicIdx x.header.payload) x.timestamp
        x.header.ssrc).originalSsrc ≠ x.header.ssrc := sub_one_ne_self _
    simp only [rewriteVideoStep, rewriteVideo, vp8Context_rewrite_empty, vp8Context_isVp8,
      inboundPicId, inboundTl0PicIdx, if_true]
    rw [if_pos hne]
    rfl
  · simp only [firstRebase, vp8Rebase, rebaseOnSsrcSwitch_offset_sequenceNumber, ringDifference_full]
    simp [startVideoRewrite]
  · -- the 15-bit picture id: `((p - 1) mod 2^15 + 1) mod 2^15 = p` for `p < 2^15`
    have hp := getPicId_lt hx
    simp only [firstRebase, vp8Rebase, rebaseOnSsrcSwitch_vp8_offset_picId, picId_add_ringDifference]
    apply BitVec.eq_of_toNat_eq
    simp only [startVideoRewrite, and_7FFF_eq_setWidth, BitVec.toNat_setWidth, BitVec.toNat_add,
      BitVec.toNat_sub]
    omega
  · -- the 8-bit TL0PICIDX: `(t - 1) + 1 = t` on the low 8 bits
    simp only [firstRebase, vp8Rebase, rebaseOnSsrcSwitch_vp8_offset_tl0PicIdx,
      tl0PicIdx_add_ringDifference]
    simp [startVideoRewrite]

/-- **The first call** forwards the packet with its own numbers and the context's SSRC. -/
theorem rewriteVideo_first_forwards (x : VideoPacket) (hx : HasFullDescriptor x.header.payload) :
    ∃ h, (rewriteVideoStep (vp8Context ssrc pt te) x).2 = some (x.extendedSequenceNumber, h) ∧
      getPicId h.payload = getPicId x.header.payload ∧
      getTl0PicIdx h.payload = getTl0PicIdx x.header.payload ∧ h.ssrc = ssrc := by
  obtain ⟨heq, hseq, -, hpic, htl0⟩ := rewriteVideo_first ssrc pt te x hx
  obtain ⟨h, hout, hpic', htl0', hssrc⟩ := vp8Forward_mark (firstRebase ssrc pt te x) hx
  rw [hseq, add_zero] at hout
  exact ⟨h, heq ▸ hout, hpic'.trans hpic, htl0'.trans htl0, hssrc⟩

/-- The first call starts the invariant. -/
theorem videoTrack_first (x : VideoPacket) (hx : HasFullDescriptor x.header.payload) :
    VideoTrack (rewriteVideoStep (vp8Context ssrc pt te) x).1
      [(x, (rewriteVideoStep (vp8Context ssrc pt te) x).2)] := by
  obtain ⟨heq, hseq, hlast, hpic, htl0⟩ := rewriteVideo_first ssrc pt te x hx
  obtain ⟨h, hout, hpic', htl0', -⟩ := rewriteVideo_first_forwards ssrc pt te x hx
  -- the first packet is one past the predecessor the fresh branch invented
  have hadv : (x.extendedSequenceNumber + 0 - (x.extendedSequenceNumber - 1)).toInt > 0 := by
    have : x.extendedSequenceNumber + 0 - (x.extendedSequenceNumber - 1) = 1 := by abel
    rw [this]; decide
  have htrace : [(x, (rewriteVideoStep (vp8Context ssrc pt te) x).2)] =
      [] ++ [(x, some (x.extendedSequenceNumber, h))] := by
    rw [hout]; rfl
  rw [htrace, heq]
  refine ⟨?_, ?_, ?_, ?_⟩
  · rw [vp8Forward_isVp8]; rfl
  · apply vp8Forward_started
    right
    rw [hseq, hlast]
    exact hadv
  · rw [forwarded_concat_some]
    simp [vp8Forward, firstRebase, vp8Rebase]
  · rw [forwarded_concat_some, vp8Forward_lastSent, hseq, hpic, htl0,
      SentMark.newer_of_pos (by dsimp only [SentMark.ofTracker]; rw [hlast]; exact hadv), add_zero,
      SentMark.ofHeader, hpic', htl0']
    rfl

/-- **Run lemma.** After any non-empty run of packets with full descriptors from a fresh VP8
context, the invariant holds of the calls made. -/
theorem videoTrack_run (xs : List VideoPacket) (hne : xs ≠ [])
    (hfull : ∀ x ∈ xs, HasFullDescriptor x.header.payload) :
    VideoTrack (run rewriteVideoStep (vp8Context ssrc pt te) xs).1
      (xs.zip (run rewriteVideoStep (vp8Context ssrc pt te) xs).2) := by
  cases xs with
  | nil => exact absurd rfl hne
  | cons x xs =>
      have h1 := videoTrack_first ssrc pt te x (hfull x List.mem_cons_self)
      have := run_trace_inv rewriteVideoStep
        (fun s tr y (hy : HasFullDescriptor y.header.payload) (h : VideoTrack s tr) =>
          videoTrack_step h hy)
        _ xs _ (fun y hy => hfull y (List.mem_cons_of_mem x hy)) h1
      simpa using this

end First

/-! ## The branches a run reaches -/

section Reached

variable {s : SsrcOutboundContext} {trace : List (VideoPacket × Option (BitVec 32 × RtpHeader))}
  {x : VideoPacket}

/-- **A new origin** continues all three counters right after lastSent. -/
theorem rewriteVideo_switch (h : VideoTrack s trace) (hx : HasFullDescriptor x.header.payload)
    (hswitch : s.originalSsrc ≠ x.header.ssrc) :
    ∃ hd, (rewriteVideoStep s x).2 = some (s.rewrite.lastSent.sequenceNumber + 1, hd) ∧
      getPicId hd.payload = ((SentMark.ofTracker s.rewrite.lastSent).picId + 1) &&& 0x7FFF ∧
      getTl0PicIdx hd.payload = (SentMark.ofTracker s.rewrite.lastSent).tl0PicIdx + 1 := by
  rw [rewriteVideoStep_of_started h.vp8 h.rewrite_empty, if_pos hswitch]
  obtain ⟨hd, hout, hpic, htl0, -⟩ := vp8Forward_mark (vp8Rebase s x) hx
  simp only [vp8Rebase, rebaseOnSsrcSwitch_offset_sequenceNumber, rebaseOnSsrcSwitch_vp8_offset_picId,
    rebaseOnSsrcSwitch_vp8_offset_tl0PicIdx, add_ringDifference_full, picId_add_ringDifference,
    tl0PicIdx_add_ringDifference] at hout hpic htl0
  refine ⟨hd, hout, ?_, ?_⟩
  · -- `(p + 1) mod 2^15` does not see the bits of `p` above 15
    rw [hpic]
    apply BitVec.eq_of_toNat_eq
    simp only [SentMark.ofTracker, and_7FFF_eq_setWidth, BitVec.toNat_setWidth, BitVec.toNat_add]
    omega
  · rw [htl0, SentMark.ofTracker, BitVec.setWidth_add _ _ (by omega)]
    rfl

/-- **The same origin, accepted without a re-base**: the packet is written with its inbound
numbers plus the offsets, which stay as they are. -/
theorem rewriteVideo_in_order (h : VideoTrack s trace) (hx : HasFullDescriptor x.header.payload)
    (hsame : s.originalSsrc = x.header.ssrc)
    (hgap : ¬(seqAdvance s.rewrite x.extendedSequenceNumber).toInt > MAX_VIDEO_SEQ_GAP)
    (hold : isPacketTooOld s.rewrite x.extendedSequenceNumber MAX_REWIND_VIDEO = false) :
    ∃ hd, (rewriteVideoStep s x).2 =
        some (x.extendedSequenceNumber + s.rewrite.offset.sequenceNumber, hd) ∧
      getPicId hd.payload = (getPicId x.header.payload + s.rewrite.offset.picId) &&& 0x7FFF ∧
      getTl0PicIdx hd.payload = getTl0PicIdx x.header.payload + s.rewrite.offset.tl0PicIdx.setWidth 8 ∧
      hd.ssrc = s.ssrc ∧ (rewriteVideoStep s x).1.rewrite.offset = s.rewrite.offset := by
  rw [rewriteVideoStep_of_started h.vp8 h.rewrite_empty, if_neg (not_not.mpr hsame), if_neg hgap,
    if_neg (by simp [hold])]
  obtain ⟨hd, hout, hpic, htl0, hssrc⟩ := vp8Forward_mark s hx
  exact ⟨hd, hout, hpic, htl0, hssrc, forwardVideo_offset ..⟩

end Reached

/-! ## Continuity -/

/-- **Continuity of the outbound VP8 stream** at the call that follows the calls `ys` on a
fresh VP8 context, in terms of what was forwarded before it:

* the first packet keeps its own numbers;
* a packet whose origin differs from that of the last packet forwarded is written with the
  sequence number, picture id (mod `2^15`) and TL0PICIDX (mod `2^8`) of the highest packet
  forwarded, plus one;
* a packet of the same origin accepted without a gap re-base (`seqAdvance` at most
  `MAX_VIDEO_SEQ_GAP`, not too old) is written with its inbound numbers plus the context's
  offsets, under the context's SSRC, and the offsets stay for the next call. -/
def VideoContinuity (ssrc : BitVec 32) (pt : BitVec 8) (te : RtpMap) (ys : List VideoPacket)
    (x : VideoPacket) : Prop :=
  let s := (run rewriteVideoStep (vp8Context ssrc pt te) ys).1
  let sent := forwarded (ys.zip (run rewriteVideoStep (vp8Context ssrc pt te) ys).2)
  let r := rewriteVideoStep s x
  (sent = [] →
    ∃ h, r.2 = some (x.extendedSequenceNumber, h) ∧
      getPicId h.payload = getPicId x.header.payload ∧
      getTl0PicIdx h.payload = getTl0PicIdx x.header.payload) ∧
  (∀ o hi, (sent.getLast?).map Prod.fst = some o → highest (sent.map Prod.snd) = some hi →
    x.header.ssrc ≠ o →
    ∃ h, r.2 = some (hi.sequenceNumber + 1, h) ∧
      getPicId h.payload = (hi.picId + 1) &&& 0x7FFF ∧
      getTl0PicIdx h.payload = hi.tl0PicIdx + 1) ∧
  ((sent.getLast?).map Prod.fst = some x.header.ssrc →
    ¬(seqAdvance s.rewrite x.extendedSequenceNumber).toInt > MAX_VIDEO_SEQ_GAP →
    isPacketTooOld s.rewrite x.extendedSequenceNumber MAX_REWIND_VIDEO = false →
    ∃ h, r.2 = some (x.extendedSequenceNumber + s.rewrite.offset.sequenceNumber, h) ∧
      getPicId h.payload = (getPicId x.header.payload + s.rewrite.offset.picId) &&& 0x7FFF ∧
      getTl0PicIdx h.payload = getTl0PicIdx x.header.payload + s.rewrite.offset.tl0PicIdx.setWidth 8 ∧
      h.ssrc = ssrc ∧ r.1.rewrite.offset = s.rewrite.offset)

/-- `rewriteVideo` keeps the context's SSRC. -/
theorem rewriteVideoStep_ssrc (s : SsrcOutboundContext) (x : VideoPacket) :
    (rewriteVideoStep s x).1.ssrc = s.ssrc := by
  simp only [rewriteVideoStep, rewriteVideo]
  split_ifs <;> first | rfl | (cases x.isKeyFrame <;> rfl)

theorem run_rewriteVideoStep_ssrc (s : SsrcOutboundContext) (ys : List VideoPacket) :
    (run rewriteVideoStep s ys).1.ssrc = s.ssrc :=
  run_inv rewriteVideoStep (fun c x (hc : c.ssrc = s.ssrc) => (rewriteVideoStep_ssrc c x).trans hc)
    s ys rfl

/-- A VP8 packet of origin `7` with inbound number `ext` and a full descriptor. -/
def vp8Packet (ext : BitVec 32) (picId : BitVec 8) : VideoPacket :=
  ⟨⟨false, 100, ext.setWidth 16, 0, 7, [0x80, 0xE0, 0x80, picId, 0, 0]⟩, ext, 0, false⟩

/-- Two packets in order, one after an inbound jump of 1000, and a late one from before the
jump. -/
def gapReplay : List VideoPacket :=
  [vp8Packet 100 0, vp8Packet 101 1, vp8Packet 1101 2, vp8Packet 1099 3]

/-- The late packet `1099` is forwarded on outbound number `100`, already used by packet
`100`: the gap re-base at `1101` set the offset to `-999`, and neither `sequenceNumberStart`
nor the rewind limit stops a packet `2` behind the last one sent. -/
theorem rewriteVideo_gap_reuses_outbound_number :
    ((vp8Packet 100 0).header.ssrc, (vp8Packet 100 0).extendedSequenceNumber) ≠
        ((vp8Packet 1099 3).header.ssrc, (vp8Packet 1099 3).extendedSequenceNumber) ∧
      (run rewriteVideoStep (vp8Context 1 100 ⟨.empty, 0⟩) gapReplay).2.map (Option.map Prod.fst) =
        [some 100, some 101, some 102, some 100] := by
  decide

end MediaBridge.Bridge
