import MediaBridge.Bridge.SsrcOutboundContext

set_option autoImplicit false

/-! # `rewriteAudio` and `dropTelephoneEvent`

The audio rewriter renumbers like the video one, `out = in + offset`, and moves the offset in
four places: a new origin and an inbound gap of more than `MAX_AUDIO_SEQ_GAP` re-base it so
that the packet continues right after the last one sent; a dropped telephone event pulls it
back by the event's advance, so that the next packet closes the hole; and the recovery of a
packet older than the last dropped event pushes it forward by a projected advance.

What the branches guarantee is proved here: a new origin continues after lastSent with the
marker set, a dropped event closes its hole. The numbering is not injective: as for video, a
late packet from before a gap re-base is written on a number already sent
(`rewriteAudio_gap_reuses_outbound_number`).
-/

namespace MediaBridge.Bridge

open Run

section Branches

variable (ctx : SsrcOutboundContext) (header : RtpHeader) (seq : BitVec 32) (ts : BitVec 64)
  (isTelephoneEvent : Bool)

/-- **A new origin** goes out right after lastSent, as the first of a new talk spurt (marker
set), under the context's SSRC. -/
theorem rewriteAudio_new_source
    (hte : (isTelephoneEvent && ctx.telephoneEventRtpMap.isEmpty) = false)
    (hnew : header.ssrc ≠ ctx.originalSsrc) (hstarted : ctx.rewrite.lastSent.empty = false) :
    ∃ h, (rewriteAudio ctx header seq ts isTelephoneEvent).2 =
        some (ctx.rewrite.lastSent.sequenceNumber + 1, h) ∧
      h.marker = true ∧ h.ssrc = ctx.ssrc ∧
      h.sequenceNumber = (ctx.rewrite.lastSent.sequenceNumber + 1).setWidth 16 ∧
      (rewriteAudio ctx header seq ts isTelephoneEvent).1.originalSsrc = header.ssrc := by
  -- the re-based offset puts the packet one past lastSent, which is an advance
  have hout : seq + (ctx.rewrite.lastSent.sequenceNumber + 1 - seq) =
      ctx.rewrite.lastSent.sequenceNumber + 1 := by abel
  have hadv : (ctx.rewrite.lastSent.sequenceNumber + 1 - ctx.rewrite.lastSent.sequenceNumber).toInt > 0 := by
    rw [show ctx.rewrite.lastSent.sequenceNumber + 1 - ctx.rewrite.lastSent.sequenceNumber = 1 by abel]
    decide
  simp only [rewriteAudio, hte, Bool.false_eq_true, if_false, ne_eq, hnew, not_false_eq_true,
    if_true, hstarted, hout]
  rw [if_pos hadv]
  exact ⟨_, rfl, rfl, rfl, rfl, rfl⟩

/-- A dropped telephone event pulls the offset back by its advance: the next inbound packet
goes out right after the last one sent, and lastSent itself does not move. -/
theorem dropTelephoneEvent_closes_hole (origin : BitVec 32) (hsame : ctx.originalSsrc = origin)
    (hpos : (seqAdvance ctx.rewrite seq).toInt > 0)
    (hgap : ¬(seqAdvance ctx.rewrite seq).toInt > MAX_AUDIO_SEQ_GAP) :
    let c := dropTelephoneEvent ctx seq origin
    seq + 1 + c.rewrite.offset.sequenceNumber = ctx.rewrite.lastSent.sequenceNumber + 1 ∧
      c.rewrite.lastSent = ctx.rewrite.lastSent ∧ c.rewrite.lastDroppedSequenceNumber = seq := by
  intro c
  have hc : c = { ctx with rewrite := { ctx.rewrite with
      offset := { ctx.rewrite.offset with
        sequenceNumber := ctx.rewrite.offset.sequenceNumber - seqAdvance ctx.rewrite seq }
      lastDroppedSequenceNumber := seq } } := by
    simp only [c, dropTelephoneEvent, hsame, ne_eq, not_true_eq_false, if_false]
    rw [if_neg hgap, if_pos hpos]
  refine ⟨?_, by rw [hc], by rw [hc]⟩
  rw [hc]
  simp only [seqAdvance]
  abel

end Branches

/-! ## The gap re-base reuses outbound numbers -/

/-- A fresh Opus context with telephone events. -/
def opusContext (ssrc : BitVec 32) : SsrcOutboundContext :=
  SsrcOutboundContext.create ssrc ⟨.opus, 111⟩ ⟨.telephoneEvent, 101⟩

/-- An Opus packet of origin `7` with extended sequence number `seq`. -/
def audioPacket (seq : BitVec 32) : AudioCall :=
  .rewrite ⟨false, 111, seq.setWidth 16, 0, 7, []⟩ seq 0 false

/-- Two packets in order, one after an inbound jump of 1000, and a late one from before the
jump. -/
def audioGapReplay : List AudioCall :=
  [audioPacket 100, audioPacket 101, audioPacket 1101, audioPacket 1099]

/-- The late packet `1099` is written on outbound number `100`, already used by packet `100`:
the gap branch set the offset to `-999` and left `sequenceNumberStart` at `100`, and the
packet is only `2` behind the last one sent, so it takes the late-packet path. -/
theorem rewriteAudio_gap_reuses_outbound_number :
    (run audioStep (opusContext 1) audioGapReplay).2.map (Option.map Prod.fst) =
      [some 100, some 101, some 102, some 100] := by
  decide

end MediaBridge.Bridge
