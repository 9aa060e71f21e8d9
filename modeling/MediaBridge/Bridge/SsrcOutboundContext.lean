import MediaBridge.Math.Fields
import MediaBridge.Codec.Vp8Header
import MediaBridge.Lib.Run

set_option autoImplicit false

/-! # `bridge/engine/SsrcOutboundContext`: rewriting forwarded RTP streams

An outbound context owns one outbound SSRC. Every forwarded packet, whichever sender it came
from, is renumbered onto the context's own sequence (and, for VP8, picture id and TL0PICIDX
sequences) so that the receiver sees one continuous stream. The renumbering is an offset
`out = in + offset`, fixed at a *re-base*: the first packet, a change of origin SSRC, or an
inbound jump larger than the gap limit. `isPacketTooOld` drops packets from before the last
origin switch and packets too far behind the last one sent.

Words are `BitVec`s of the source's widths: `uint32_t`/`int32_t` are `BitVec 32` (an
`int32_t` comparison reads the bits with `toInt`), `uint16_t`/`int16_t` are `BitVec 16`,
`uint8_t` is `BitVec 8`, wall clocks are `BitVec 64`.

The state is the part of the class the rewriters read and write. The header-extension
rewrites (`doRtpHeaderExtensionRewriteForAudio/Video`, which only renumber extension ids)
and the logging are not modelled; the header is the fixed RTP header and the payload.
-/

namespace MediaBridge.Bridge

open Buffer MediaBridge.Codec MediaBridge.Codec.Vp8Header MediaBridge.Math

/-! ## Constants -/

/-- `MAX_AUDIO_SEQ_GAP`. -/
def MAX_AUDIO_SEQ_GAP : Int := 256
/-- `MAX_VIDEO_SEQ_GAP`: above it the outbound sequence is kept monotone. -/
def MAX_VIDEO_SEQ_GAP : Int := 512
/-- `MAX_REWIND_AUDIO`. -/
def MAX_REWIND_AUDIO : Int := 512
/-- `MAX_REWIND_VIDEO`. -/
def MAX_REWIND_VIDEO : Int := 1024 * 3

/-- `codec::Opus::sampleRate`. -/
def opusSampleRate : BitVec 64 := 48000
/-- `codec::Opus::packetsPerSecond`. -/
def opusPacketsPerSecond : BitVec 32 := 50
/-- `codec::Vp8::sampleRate`. -/
def vp8SampleRate : BitVec 64 := 90000
/-- `utils::Time::sec`, in nanoseconds. -/
def timeSec : BitVec 64 := 1000000000

/-! ## Data -/

/-- `bridge::RtpMap::Format`. -/
inductive Format where
  | vp8 | h264 | rtx | opus | telephoneEvent | empty
  deriving DecidableEq, Repr

/-- The part of `bridge::RtpMap` the rewriters read. -/
structure RtpMap where
  format : Format
  payloadType : BitVec 8
  deriving DecidableEq, Repr

def RtpMap.isEmpty (m : RtpMap) : Bool := m.format == .empty

/-- The fields of `rtp::RtpHeader` the rewriters read or write, and the payload. -/
structure RtpHeader where
  marker : Bool
  payloadType : BitVec 7
  sequenceNumber : BitVec 16
  timestamp : BitVec 32
  ssrc : BitVec 32
  payload : Bytes
  deriving DecidableEq, Repr

/-- `SsrcRewrite::Tracker`: the last packet sent. -/
structure Tracker where
  ssrc : BitVec 32
  sequenceNumber : BitVec 32
  timestamp : BitVec 32
  wallClock : BitVec 64
  picId : BitVec 16
  tl0PicIdx : BitVec 16
  lastOriginalSequenceNumber : BitVec 32
  deriving DecidableEq, Repr

/-- The default `Tracker`: every field `~0` (`wallClock = ~0u`, a 32-bit all-ones value). -/
def Tracker.initial : Tracker where
  ssrc := BitVec.allOnes 32
  sequenceNumber := BitVec.allOnes 32
  timestamp := BitVec.allOnes 32
  wallClock := 0xFFFFFFFF
  picId := 0xFFFF
  tl0PicIdx := 0xFFFF
  lastOriginalSequenceNumber := BitVec.allOnes 32

/-- `Tracker::empty`. -/
def Tracker.empty (t : Tracker) : Bool :=
  t.ssrc == BitVec.allOnes 32 && t.sequenceNumber == BitVec.allOnes 32 && t.picId == 0xFFFF &&
    t.tl0PicIdx == 0xFFFF && t.timestamp == BitVec.allOnes 32 && t.wallClock == 0xFFFFFFFF &&
    t.lastOriginalSequenceNumber == BitVec.allOnes 32

/-- `SsrcRewrite::Offset` (signed fields). -/
structure Offset where
  sequenceNumber : BitVec 32
  timestamp : BitVec 32
  picId : BitVec 16
  tl0PicIdx : BitVec 16
  deriving DecidableEq, Repr

def Offset.initial : Offset := ⟨0, 0, 0, 0⟩

/-- `Offset::empty`. -/
def Offset.empty (o : Offset) : Bool :=
  o.sequenceNumber == 0 && o.picId == 0 && o.timestamp == 0 && o.tl0PicIdx == 0

/-- `SsrcOutboundContext::SsrcRewrite`. -/
structure SsrcRewrite where
  sequenceNumberStart : BitVec 32
  lastSent : Tracker
  offset : Offset
  /-- `telephoneEvents.lastDroppedSequenceNumber`. -/
  lastDroppedSequenceNumber : BitVec 32
  deriving DecidableEq, Repr

def SsrcRewrite.initial : SsrcRewrite := ⟨0, Tracker.initial, Offset.initial, 0⟩

/-- `SsrcRewrite::empty`. -/
def SsrcRewrite.empty (r : SsrcRewrite) : Bool := r.lastSent.empty && r.offset.empty

/-- The outbound context: its constant configuration and the rewriters' state. -/
structure SsrcOutboundContext where
  ssrc : BitVec 32
  rtpMap : RtpMap
  telephoneEventRtpMap : RtpMap
  lastKeyFrameSequenceNumber : BitVec 32
  rewrite : SsrcRewrite
  /-- `_originalSsrc`: the origin SSRC of the stream being forwarded. -/
  originalSsrc : BitVec 32
  deriving DecidableEq, Repr

/-- The constructor. -/
def SsrcOutboundContext.create (ssrc : BitVec 32) (rtpMap telephoneEventRtpMap : RtpMap) :
    SsrcOutboundContext where
  ssrc := ssrc
  rtpMap := rtpMap
  telephoneEventRtpMap := telephoneEventRtpMap
  lastKeyFrameSequenceNumber := 0
  rewrite := SsrcRewrite.initial
  originalSsrc := BitVec.allOnes 32

/-! ## Shared pieces -/

/-- The RTP timestamp the stream would have reached at wall clock `timestamp`:
`lastSent.timestamp + (timestamp - lastSent.wallClock) * rate / sec`. The source computes
the product and quotient in 64 bits (signed `diff` times the rate, then divided by the
unsigned `sec`, which makes the division unsigned) and stores the sum in 32 bits. -/
def projectedRtpTimestamp (lastSent : Tracker) (timestamp rate : BitVec 64) : BitVec 32 :=
  lastSent.timestamp + (((timestamp - lastSent.wallClock) * rate) / timeSec).setWidth 32

/-- `isPacketTooOld`: older than the last origin switch, or `rewindLimit` or more behind
the last packet sent. -/
def isPacketTooOld (r : SsrcRewrite) (sequenceNumber : BitVec 32) (rewindLimit : Int) : Bool :=
  decide ((sequenceNumber - r.sequenceNumberStart).toInt < 1) ||
    decide ((sequenceNumber + r.offset.sequenceNumber - r.lastSent.sequenceNumber).toInt
      ≤ -rewindLimit)

/-- The inbound advance over the last packet sent, under the current offset. -/
def seqAdvance (r : SsrcRewrite) (sequenceNumber : BitVec 32) : BitVec 32 :=
  sequenceNumber + r.offset.sequenceNumber - r.lastSent.sequenceNumber

/-! ## Audio -/

/-- `doRtpHeaderRewriteForAudio` (without the extension-id rewrite). -/
def doRtpHeaderRewriteForAudio (ctx : SsrcOutboundContext) (header : RtpHeader)
    (newSequenceNumber : BitVec 32) (isTelephoneEvent : Bool) : RtpHeader :=
  { header with
    sequenceNumber := newSequenceNumber.setWidth 16
    ssrc := ctx.ssrc
    timestamp := ctx.rewrite.offset.timestamp + header.timestamp
    payloadType := (if isTelephoneEvent then ctx.telephoneEventRtpMap.payloadType
      else ctx.rtpMap.payloadType).setWidth 7 }

/-- `dropTelephoneEvent`: close the hole a dropped telephone event leaves by pulling the
offset back over it. -/
def dropTelephoneEvent (ctx : SsrcOutboundContext) (sequenceNumber originSsrc : BitVec 32) :
    SsrcOutboundContext :=
  if ctx.originalSsrc ≠ originSsrc then ctx
  else
    let adv := seqAdvance ctx.rewrite sequenceNumber
    if adv.toInt > MAX_AUDIO_SEQ_GAP then ctx
    else if adv.toInt > 0 then
      { ctx with rewrite := { ctx.rewrite with
          offset := { ctx.rewrite.offset with
            sequenceNumber := ctx.rewrite.offset.sequenceNumber - adv }
          lastDroppedSequenceNumber := sequenceNumber } }
    else ctx

/-- The lastSent record after forwarding a packet. -/
def Tracker.sent (t : Tracker) (sequenceNumber timestamp : BitVec 32) (wallClock : BitVec 64)
    (original : BitVec 32) : Tracker :=
  { t with sequenceNumber := sequenceNumber, timestamp := timestamp, wallClock := wallClock,
           lastOriginalSequenceNumber := original }

/-- `rewriteAudio`: `some (n, header')` when the packet is forwarded (the source returns
`true`), with `n` the 32-bit outbound sequence number the header is rewritten with
(`newSequenceNumber`, or `correctedSeq`); `none` when it is dropped. -/
def rewriteAudio (ctx : SsrcOutboundContext) (header : RtpHeader) (sequenceNumber : BitVec 32)
    (timestamp : BitVec 64) (isTelephoneEvent : Bool) :
    SsrcOutboundContext × Option (BitVec 32 × RtpHeader) :=
  let currentSsrc := header.ssrc
  if isTelephoneEvent && ctx.telephoneEventRtpMap.isEmpty then
    (dropTelephoneEvent ctx sequenceNumber currentSsrc, none)
  else
    let newSource := currentSsrc ≠ ctx.originalSsrc
    let adv := seqAdvance ctx.rewrite sequenceNumber
    -- the three ways in: a new source re-bases, a large gap re-bases, else the age check
    let entry : Option (SsrcOutboundContext × RtpHeader) :=
      if newSource then
        let r := ctx.rewrite
        let lastSent := if r.lastSent.empty then
            { r.lastSent with
              wallClock := timestamp
              timestamp := header.timestamp
              sequenceNumber := sequenceNumber - 1
              lastOriginalSequenceNumber := sequenceNumber - 1 }
          else r.lastSent
        let projected := projectedRtpTimestamp lastSent timestamp opusSampleRate
        some ({ ctx with rewrite := { r with
            lastSent := lastSent
            offset := { r.offset with timestamp := projected - header.timestamp,
                                      sequenceNumber := lastSent.sequenceNumber + 1 - sequenceNumber }
            sequenceNumberStart := sequenceNumber } },
          { header with marker := true })
      else if adv.toInt > MAX_AUDIO_SEQ_GAP then
        let r := ctx.rewrite
        let projected := projectedRtpTimestamp r.lastSent timestamp opusSampleRate
        some ({ ctx with rewrite := { r with
            offset := { r.offset with sequenceNumber := r.lastSent.sequenceNumber + 1 - sequenceNumber,
                                      timestamp := projected - header.timestamp } } }, header)
      else if isPacketTooOld ctx.rewrite sequenceNumber MAX_REWIND_AUDIO then none
      else some (ctx, header)
    match entry with
    | none => (ctx, none)
    | some (ctx, header) =>
        let r := ctx.rewrite
        let newSequenceNumber := sequenceNumber + r.offset.sequenceNumber
        let ctx := { ctx with originalSsrc := currentSsrc }
        if (newSequenceNumber - r.lastSent.sequenceNumber).toInt > 0 then
          let header' := doRtpHeaderRewriteForAudio ctx header newSequenceNumber isTelephoneEvent
          let lastSent := r.lastSent.sent newSequenceNumber header'.timestamp timestamp sequenceNumber
          ({ ctx with rewrite := { r with lastSent := lastSent } }, some (newSequenceNumber, header'))
        else if r.lastDroppedSequenceNumber > sequenceNumber then
          -- older than the last dropped telephone event: project from the RTP timestamp
          let canBeCalculated := r.lastSent.lastOriginalSequenceNumber < sequenceNumber
          let projectedAdvance :=
            (header.timestamp - r.lastSent.timestamp) / (opusSampleRate.setWidth 32 / opusPacketsPerSecond)
          if canBeCalculated ∧ projectedAdvance.toInt > 0 ∧ projectedAdvance.toInt < 60 then
            let correctedSeq := r.lastSent.sequenceNumber + projectedAdvance
            let header' := doRtpHeaderRewriteForAudio ctx header correctedSeq isTelephoneEvent
            let lastSent := r.lastSent.sent correctedSeq header'.timestamp timestamp sequenceNumber
            let offset := { r.offset with sequenceNumber := r.offset.sequenceNumber + projectedAdvance }
            ({ ctx with rewrite := { r with lastSent := lastSent, offset := offset } },
              some (correctedSeq, header'))
          else (ctx, none)
        else
          -- a late packet within the rewind limit
          (ctx, some (newSequenceNumber,
            doRtpHeaderRewriteForAudio ctx header newSequenceNumber isTelephoneEvent))

/-! ## Video -/

/-- `doRtpHeaderRewriteForVideo` (without the extension-id rewrite). -/
def doRtpHeaderRewriteForVideo (ctx : SsrcOutboundContext) (header : RtpHeader)
    (newSequenceNumber : BitVec 32) : RtpHeader :=
  { header with
    sequenceNumber := newSequenceNumber.setWidth 16
    ssrc := ctx.ssrc
    timestamp := ctx.rewrite.offset.timestamp + header.timestamp
    payloadType := ctx.rtpMap.payloadType.setWidth 7 }

/-- The branch of `rewriteVideo` that starts the rewrite on a fresh context: the last packet
sent is taken to be the predecessor of this one. -/
def startVideoRewrite (ctx : SsrcOutboundContext) (extendedSequenceNumber rtpTimestamp : BitVec 32)
    (picId : BitVec 16) (tl0PicIdx : BitVec 8) (timestamp : BitVec 64) (originSsrc : BitVec 32) :
    SsrcOutboundContext :=
  { ctx with
    originalSsrc := originSsrc - 1
    rewrite := { ctx.rewrite with lastSent := { ctx.rewrite.lastSent with
      sequenceNumber := extendedSequenceNumber - 1
      picId := (picId - 1) &&& 0x7FFF
      tl0PicIdx := tl0PicIdx.setWidth 16 - 1
      timestamp := rtpTimestamp
      wallClock := timestamp } } }

/-- The re-base on a new origin SSRC: the packet continues the outbound sequences right
after the last packet sent. -/
def rebaseOnSsrcSwitch (ctx : SsrcOutboundContext) (isVp8 : Bool) (sampleRate : BitVec 64)
    (extendedSequenceNumber rtpTimestamp : BitVec 32) (picId : BitVec 16) (tl0PicIdx : BitVec 8)
    (timestamp : BitVec 64) (originSsrc : BitVec 32) : SsrcOutboundContext :=
  let r := ctx.rewrite
  let offset := { r.offset with
    sequenceNumber := ringDifference 32 32 extendedSequenceNumber (r.lastSent.sequenceNumber + 1)
    timestamp := ringDifference 32 32 rtpTimestamp (projectedRtpTimestamp r.lastSent timestamp sampleRate) }
  let offset := if isVp8 then { offset with
      picId := ringDifference 16 15 picId (r.lastSent.picId + 1)
      tl0PicIdx := ringDifference 16 8 (tl0PicIdx.setWidth 16) (r.lastSent.tl0PicIdx + 1) }
    else offset
  { ctx with originalSsrc := originSsrc,
             rewrite := { r with offset := offset, sequenceNumberStart := extendedSequenceNumber } }

/-- The re-base on an inbound jump of more than `MAX_VIDEO_SEQ_GAP`: the outbound sequence
continues right after the last packet sent. The start of the stream is not moved. -/
def rebaseOnGap (ctx : SsrcOutboundContext) (extendedSequenceNumber rtpTimestamp : BitVec 32)
    (timestamp : BitVec 64) : SsrcOutboundContext :=
  let r := ctx.rewrite
  { ctx with rewrite := { r with offset := { r.offset with
      sequenceNumber := ringDifference 32 32 extendedSequenceNumber (r.lastSent.sequenceNumber + 1)
      timestamp := ringDifference 32 32 rtpTimestamp
        (projectedRtpTimestamp r.lastSent timestamp vp8SampleRate) } } }

/-- The forwarding tail of `rewriteVideo`: renumber the packet with the current offsets and
advance the last-sent record when the packet is newer than it. The packet is forwarded. -/
def forwardVideo (ctx : SsrcOutboundContext) (isVp8 : Bool) (header : RtpHeader)
    (extendedSequenceNumber : BitVec 32) (picId : BitVec 16) (tl0PicIdx : BitVec 8)
    (timestamp : BitVec 64) (isKeyFrame : Bool) :
    SsrcOutboundContext × Option (BitVec 32 × RtpHeader) :=
  let r := ctx.rewrite
  let out := extendedSequenceNumber + r.offset.sequenceNumber
  let header := doRtpHeaderRewriteForVideo ctx header out
  let newPicId : BitVec 16 := if isVp8 then picId + r.offset.picId else 0xFFFF
  let newTl0PicIdx : BitVec 8 := if isVp8 then tl0PicIdx + r.offset.tl0PicIdx.setWidth 8 else 0xFF
  let header := if isVp8 then
      { header with payload := setTl0PicIdx (setPicId header.payload newPicId) newTl0PicIdx }
    else header
  let lastSent := if (out - r.lastSent.sequenceNumber).toInt > 0 then
      { r.lastSent with sequenceNumber := out, timestamp := header.timestamp, wallClock := timestamp,
                        picId := newPicId, tl0PicIdx := newTl0PicIdx.setWidth 16 }
    else r.lastSent
  let ctx := { ctx with rewrite := { r with lastSent := lastSent } }
  let ctx := if isKeyFrame then { ctx with lastKeyFrameSequenceNumber := out } else ctx
  (ctx, some (out, header))

/-- `isVp8`. -/
def SsrcOutboundContext.isVp8 (ctx : SsrcOutboundContext) : Bool := ctx.rtpMap.format == .vp8

/-- The sample rate of the video clock. -/
def videoSampleRate (isVp8 : Bool) : BitVec 64 := if isVp8 then vp8SampleRate else 90000

/-- The inbound picture id `rewriteVideo` reads (`0` unless VP8). -/
def inboundPicId (isVp8 : Bool) (header : RtpHeader) : BitVec 16 :=
  if isVp8 then getPicId header.payload else 0

/-- The inbound TL0PICIDX `rewriteVideo` reads (`0` unless VP8). -/
def inboundTl0PicIdx (isVp8 : Bool) (header : RtpHeader) : BitVec 8 :=
  if isVp8 then getTl0PicIdx header.payload else 0

/-- `rewriteVideo`: `some (outExtendedSequenceNumber, header')` when the packet is forwarded
(the source returns `true`), `none` when it is dropped. -/
def rewriteVideo (ctx : SsrcOutboundContext) (header : RtpHeader) (extendedSequenceNumber : BitVec 32)
    (timestamp : BitVec 64) (isKeyFrame : Bool) :
    SsrcOutboundContext × Option (BitVec 32 × RtpHeader) :=
  let isVp8 := ctx.isVp8
  let picId := inboundPicId isVp8 header
  let tl0PicIdx := inboundTl0PicIdx isVp8 header
  -- `seqAdvance` is read before the fresh-context branch writes lastSent
  let adv := seqAdvance ctx.rewrite extendedSequenceNumber
  let ctx := if ctx.rewrite.empty then
      startVideoRewrite ctx extendedSequenceNumber header.timestamp picId tl0PicIdx timestamp header.ssrc
    else ctx
  if ctx.originalSsrc ≠ header.ssrc then
    forwardVideo (rebaseOnSsrcSwitch ctx isVp8 (videoSampleRate isVp8) extendedSequenceNumber
        header.timestamp picId tl0PicIdx timestamp header.ssrc)
      isVp8 header extendedSequenceNumber picId tl0PicIdx timestamp isKeyFrame
  else if adv.toInt > MAX_VIDEO_SEQ_GAP then
    forwardVideo (rebaseOnGap ctx extendedSequenceNumber header.timestamp timestamp)
      isVp8 header extendedSequenceNumber picId tl0PicIdx timestamp isKeyFrame
  else if isPacketTooOld ctx.rewrite extendedSequenceNumber MAX_REWIND_VIDEO then (ctx, none)
  else forwardVideo ctx isVp8 header extendedSequenceNumber picId tl0PicIdx timestamp isKeyFrame

/-! ## Calls -/

/-- One call of `rewriteVideo`. -/
structure VideoPacket where
  header : RtpHeader
  extendedSequenceNumber : BitVec 32
  timestamp : BitVec 64
  isKeyFrame : Bool
  deriving DecidableEq, Repr

/-- `rewriteVideo` as a step on the context. -/
def rewriteVideoStep (ctx : SsrcOutboundContext) (p : VideoPacket) :
    SsrcOutboundContext × Option (BitVec 32 × RtpHeader) :=
  rewriteVideo ctx p.header p.extendedSequenceNumber p.timestamp p.isKeyFrame

/-- A call on an audio context: a packet to `rewriteAudio`, or a telephone event dropped
elsewhere and reported to `dropTelephoneEvent`. -/
inductive AudioCall where
  | rewrite (header : RtpHeader) (sequenceNumber : BitVec 32) (timestamp : BitVec 64)
      (isTelephoneEvent : Bool)
  | dropTelephoneEvent (sequenceNumber originSsrc : BitVec 32)
  deriving DecidableEq, Repr

/-- An audio call as a step on the context; `dropTelephoneEvent` forwards nothing. -/
def audioStep (ctx : SsrcOutboundContext) : AudioCall →
    SsrcOutboundContext × Option (BitVec 32 × RtpHeader)
  | .rewrite header sequenceNumber timestamp isTelephoneEvent =>
      rewriteAudio ctx header sequenceNumber timestamp isTelephoneEvent
  | .dropTelephoneEvent sequenceNumber originSsrc =>
      (dropTelephoneEvent ctx sequenceNumber originSsrc, none)

end MediaBridge.Bridge
