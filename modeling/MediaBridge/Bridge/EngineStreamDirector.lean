import MediaBridge.Lib.FiniteMap
import Mathlib.Data.BitVec

set_option autoImplicit false

/-! # `EngineStreamDirector`: which video a viewer gets

The director keeps, per endpoint, its simulcast streams (up to three levels of one video,
each with an ssrc and a feedback ssrc, and a highest active level) and the qualities it may
receive: `pinQualityLevel` for the endpoint it pins, `unpinQualityLevel` for the others.
Pins are kept twice: `_pinMap` from an endpoint to its target, and `_reversePinMap`
counting, per target, the endpoints pinning it.

Two decisions are made from this state. `shouldForwardSsrc(viewer, ssrc)` decides, per
viewer, whether a packet is sent to it. `isSsrcUsed(ssrc, sender, ...)` is the filter
`EngineMixer::markSsrcsInUse` applies first, dropping packets no viewer is expected to want.

The maps of the source (`concurrency::MpmcHashmap32`) are `FiniteMap.Map`s: `emplace`
inserts only an absent key, `erase` removes one, an entry changed in place is `insert`ed
again, and loops over a map run over its entries (the order of the entries is not the
source's, and no loop here depends on it). Their capacity, `maxParticipants` (2048), is left
out: the source's `emplace` into a full map inserts nothing, which the model's never does, so
what is proved here of runs holds of the source while every map has room. A state is changed by the calls of `DirectorCall`, one at a time (`apply`, `runCalls`).
-/

namespace MediaBridge.Bridge

open FiniteMap

/-! ## Qualities and streams -/

/-- `EngineStreamDirector::QualityLevel`; `dropQuality` is numerically above the others. -/
inductive QualityLevel where
  | lowQuality
  | midQuality
  | highQuality
  | dropQuality
  deriving DecidableEq, Repr

namespace QualityLevel

/-- The enum's value. -/
def toNat : QualityLevel → Nat
  | lowQuality => 0
  | midQuality => 1
  | highQuality => 2
  | dropQuality => 3

/-- `static_cast<QualityLevel>` of a simulcast level index. -/
def ofLevel (i : Fin 3) : QualityLevel :=
  match i with
  | 0 => lowQuality
  | 1 => midQuality
  | 2 => highQuality

/-- `std::max`. -/
def max (a b : QualityLevel) : QualityLevel := if a.toNat < b.toNat then b else a

/-- `std::min`. -/
def min (a b : QualityLevel) : QualityLevel := if b.toNat < a.toNat then b else a

end QualityLevel

open QualityLevel

/-- `SimulcastLevel`. -/
structure SimulcastLevel where
  ssrc : BitVec 32
  feedbackSsrc : BitVec 32
  mediaActive : Bool
  deriving DecidableEq, Repr

/-- `SimulcastStream::VideoContentType`. -/
inductive VideoContentType where
  | VIDEO
  | SLIDES
  deriving DecidableEq, Repr

/-- `SimulcastStream`: always three level slots, of which the first `numLevels` are used;
the highest active level is a level index. -/
structure SimulcastStream where
  numLevels : Nat
  highestActiveLevel : Fin 3
  levels : List SimulcastLevel
  levels_length : levels.length = 3
  contentType : VideoContentType

namespace SimulcastStream

/-- `levels[i]`. -/
def level (s : SimulcastStream) (i : Fin 3) : SimulcastLevel :=
  s.levels.get ⟨i, by rw [s.levels_length]; exact i.isLt⟩

/-- `getLevels()`: the used levels, at most three. -/
def getLevels (s : SimulcastStream) : List SimulcastLevel := s.levels.take s.numLevels

/-- `getMainSsrcFor(feedbackSsrc)`. -/
def getMainSsrcFor (s : SimulcastStream) (feedbackSsrc : BitVec 32) : Option (BitVec 32) :=
  (s.getLevels.find? (fun l => l.feedbackSsrc == feedbackSsrc)).map SimulcastLevel.ssrc

def isSendingVideo (s : SimulcastStream) : Bool := s.numLevels > 0 && s.contentType == .VIDEO

def isSendingSlides (s : SimulcastStream) : Bool := s.numLevels > 0 && s.contentType == .SLIDES

/-- The used level with main ssrc `ssrc`, the first one the loops over `getLevels()` find. -/
def levelIndexOf (s : SimulcastStream) (ssrc : BitVec 32) : Option Nat :=
  s.getLevels.findIdx? (fun l => l.ssrc == ssrc)

/-- `ssrc` is the main ssrc of one of the three level slots (`highestActiveQuality` looks at
all three). -/
def hasLevelSsrc (s : SimulcastStream) (ssrc : BitVec 32) : Bool :=
  ssrc == (s.level 0).ssrc || ssrc == (s.level 1).ssrc || ssrc == (s.level 2).ssrc

/-- `simulcastLevel.mediaActive = active` on level `i`. -/
def setMediaActive (s : SimulcastStream) (i : Nat) (active : Bool) : SimulcastStream :=
  { s with
    levels := s.levels.set i { s.levels.getD i ⟨0, 0, false⟩ with mediaActive := active }
    levels_length := by rw [List.length_set, s.levels_length] }

/-- The stream `addParticipant(endpointIdHash)` stores: all zero bytes. -/
def zero : SimulcastStream where
  numLevels := 0
  highestActiveLevel := 0
  levels := [⟨0, 0, false⟩, ⟨0, 0, false⟩, ⟨0, 0, false⟩]
  levels_length := rfl
  contentType := .VIDEO

end SimulcastStream

/-- `EngineStreamDirector::ParticipantStreams`. -/
structure ParticipantStreams where
  primary : SimulcastStream
  secondary : Option SimulcastStream
  pinQualityLevel : QualityLevel
  unpinQualityLevel : QualityLevel
  lowEstimateTimestamp : BitVec 64
  /-- Min of the incoming estimate and `_maxDefaultLevelBandwidthKbps` (kbps, 32 bits). -/
  defaultLevelBandwidthLimit : Nat
  /-- Max of the incoming estimate and `defaultLevelBandwidthLimit` (kbps, 32 bits). -/
  estimatedUplinkBandwidth : Nat

/-- `ParticipantStreams(primary, secondary, maxDefaultLevelBandwidthKbps)`. -/
def ParticipantStreams.create (primary : SimulcastStream) (secondary : Option SimulcastStream)
    (maxDefaultLevelBandwidthKbps : Nat) : ParticipantStreams where
  primary := primary
  secondary := secondary
  pinQualityLevel := highQuality
  unpinQualityLevel := lowQuality
  lowEstimateTimestamp := 0
  defaultLevelBandwidthLimit := maxDefaultLevelBandwidthKbps
  estimatedUplinkBandwidth := 0

/-- `EngineStreamDirector::ConfigRow`, without the two margins only asserts read. -/
structure ConfigRow where
  baseRate : BitVec 64
  pinnedQuality : QualityLevel
  unpinnedQuality : QualityLevel
  overheadBitrate : BitVec 64

def LOW_QUALITY_BITRATE : BitVec 64 := 160
def MID_QUALITY_BITRATE : BitVec 64 := 520
def HIGH_QUALITY_BITRATE : BitVec 64 := 2600

/-- `configLadder`, from the best configuration down. -/
def configLadder : List ConfigRow :=
  [⟨HIGH_QUALITY_BITRATE - MID_QUALITY_BITRATE, highQuality, midQuality, MID_QUALITY_BITRATE⟩,
   ⟨MID_QUALITY_BITRATE - MID_QUALITY_BITRATE, midQuality, midQuality, MID_QUALITY_BITRATE⟩,
   ⟨MID_QUALITY_BITRATE - LOW_QUALITY_BITRATE, midQuality, lowQuality, LOW_QUALITY_BITRATE⟩,
   ⟨LOW_QUALITY_BITRATE - LOW_QUALITY_BITRATE, lowQuality, lowQuality, LOW_QUALITY_BITRATE⟩,
   ⟨LOW_QUALITY_BITRATE, lowQuality, dropQuality, 0⟩,
   ⟨0, dropQuality, dropQuality, 0⟩]

/-- `timeBeforeScaleUpMs * utils::Time::ms`, in nanoseconds. -/
def timeBeforeScaleUp : BitVec 64 := 5000 * 1000000

/-- `utils::Time::diffGE(a, b, value)`: `b - a`, as a signed 64-bit difference, is at least
`value`. -/
def Time.diffGE (a b value : BitVec 64) : Bool := decide ((b - a).toInt ≥ value.toInt)

/-! ## The director -/

/-- The state of `EngineStreamDirector` that its decisions read. -/
structure EngineStreamDirector where
  participantStreams : Map Nat ParticipantStreams
  pinMap : Map Nat Nat
  reversePinMap : Map Nat Nat
  lowQualitySsrcs : Map (BitVec 32) Nat
  midQualitySsrcs : Map (BitVec 32) Nat
  maxDefaultLevelBandwidthKbps : Nat
  lastN : Nat
  slidesBitrateKbps : Nat
  slidesSsrc : Nat

namespace EngineStreamDirector

/-- `EngineStreamDirector(logInstanceId, config, lastN)`. -/
def create (maxDefaultLevelBandwidthKbps lastN : Nat) : EngineStreamDirector where
  participantStreams := ∅
  pinMap := ∅
  reversePinMap := ∅
  lowQualitySsrcs := ∅
  midQualitySsrcs := ∅
  maxDefaultLevelBandwidthKbps := maxDefaultLevelBandwidthKbps
  lastN := lastN
  slidesBitrateKbps := 0
  slidesSsrc := 0

variable (d : EngineStreamDirector)

def makeParticipantStreams (primary : SimulcastStream) (secondary : Option SimulcastStream) :
    ParticipantStreams :=
  ParticipantStreams.create primary secondary d.maxDefaultLevelBandwidthKbps

def setSlidesSsrcAndBitrate (slidesSsrc bwKbps : Nat) : EngineStreamDirector :=
  { d with slidesSsrc := slidesSsrc, slidesBitrateKbps := bwKbps }

/-- `addParticipant(endpointIdHash)`: an endpoint without video. -/
def addParticipant (endpointIdHash : Nat) : EngineStreamDirector :=
  if endpointIdHash ∈ d.participantStreams then d
  else
    { d with
      participantStreams := emplace d.participantStreams endpointIdHash
        (d.makeParticipantStreams SimulcastStream.zero none) }

/-- The ssrc maps and slides of one stream added by `addParticipant`: its low level, its mid
level if it has one, and the slides ssrc if it sends slides. -/
def addStreamSsrcs (endpointIdHash : Nat) (s : SimulcastStream) : EngineStreamDirector :=
  let d := { d with lowQualitySsrcs := emplace d.lowQualitySsrcs (s.level 0).ssrc endpointIdHash }
  let d := if s.numLevels > 1 then
      { d with midQualitySsrcs := emplace d.midQualitySsrcs (s.level 1).ssrc endpointIdHash }
    else d
  if s.isSendingSlides then d.setSlidesSsrcAndBitrate (s.level 0).ssrc.toNat 0 else d

/-- `addParticipant(endpointIdHash, primary, secondary)`. -/
def addParticipantWithStreams (endpointIdHash : Nat) (primary : SimulcastStream)
    (secondary : Option SimulcastStream) : EngineStreamDirector :=
  if endpointIdHash ∈ d.participantStreams then d
  else
    let d := d.addStreamSsrcs endpointIdHash primary
    let d := { d with
      participantStreams := emplace d.participantStreams endpointIdHash
        (d.makeParticipantStreams primary secondary) }
    match secondary with
    | some s => d.addStreamSsrcs endpointIdHash s
    | none => d

/-- What `removeParticipant` undoes for one stream with levels. -/
def removeStreamSsrcs (s : SimulcastStream) : EngineStreamDirector :=
  if s.numLevels > 0 then
    { d with
      lowQualitySsrcs := d.lowQualitySsrcs.erase (s.level 0).ssrc
      midQualitySsrcs := d.midQualitySsrcs.erase (s.level 1).ssrc
      slidesBitrateKbps := if s.isSendingSlides then 0 else d.slidesBitrateKbps }
  else d

/-- `removeParticipant(endpointIdHash)`. -/
def removeParticipant (endpointIdHash : Nat) : EngineStreamDirector :=
  match d.participantStreams.lookup endpointIdHash with
  | none => d
  | some ps =>
      let d := d.removeStreamSsrcs ps.primary
      let d := match ps.secondary with
        | some s => d.removeStreamSsrcs s
        | none => d
      { d with participantStreams := d.participantStreams.erase endpointIdHash }

/-! ## Pins -/

/-- Taking one pin off a target's count, as `removeParticipantPins` and `unpinOldTarget`
both write it: erase the count and put it back one lower, unless it was already `0`. -/
def decrementPinCount (reversePinMap : Map Nat Nat) (pinTarget : Nat) : Map Nat Nat :=
  match reversePinMap.lookup pinTarget with
  | some count =>
      let reversePinMap := reversePinMap.erase pinTarget
      if count > 0 then emplace reversePinMap pinTarget (count - 1) else reversePinMap
  | none => reversePinMap

/-- `removeParticipantPins(endpointIdHash)`. The final loop erases the key
`pinMapEntry.second`, the endpoint itself, for every entry that pins it. -/
def removeParticipantPins (endpointIdHash : Nat) : EngineStreamDirector :=
  let reversePinMap := match d.pinMap.lookup endpointIdHash with
    | some pinTarget =>
        if pinTarget ≠ 0 then decrementPinCount d.reversePinMap pinTarget else d.reversePinMap
    | none => d.reversePinMap
  let pinMap := d.pinMap.erase endpointIdHash
  let reversePinMap := reversePinMap.erase endpointIdHash
  let pinMap := pinMap.entries.foldl
    (fun m pinMapEntry => if pinMapEntry.2 = endpointIdHash then m.erase pinMapEntry.2 else m)
    pinMap
  { d with pinMap := pinMap, reversePinMap := reversePinMap }

/-- `unpinOldTarget(endpointIdHash, targetEndpointIdHash)`: the state and the old target. -/
def unpinOldTarget (endpointIdHash targetEndpointIdHash : Nat) : EngineStreamDirector × Nat :=
  match d.pinMap.lookup endpointIdHash with
  | none => (d, 0)
  | some oldTarget =>
      if oldTarget = targetEndpointIdHash then (d, oldTarget)
      else
        let d := { d with pinMap := d.pinMap.erase endpointIdHash }
        if oldTarget = 0 then (d, 0)
        else ({ d with reversePinMap := decrementPinCount d.reversePinMap oldTarget }, oldTarget)

/-- Adding one pin to a target's count, as `pin` writes it: take the count out if there is
one, and put it back one higher. -/
def incrementPinCount (reversePinMap : Map Nat Nat) (targetEndpointIdHash : Nat) : Map Nat Nat :=
  match reversePinMap.lookup targetEndpointIdHash with
  | some count => emplace (reversePinMap.erase targetEndpointIdHash) targetEndpointIdHash (count + 1)
  | none => emplace reversePinMap targetEndpointIdHash 1

/-- `pin(endpointIdHash, targetEndpointIdHash)`: the state and the old target. -/
def pin (endpointIdHash targetEndpointIdHash : Nat) : EngineStreamDirector × Nat :=
  let (d, oldTarget) := d.unpinOldTarget endpointIdHash targetEndpointIdHash
  if oldTarget = targetEndpointIdHash then (d, oldTarget)
  else if targetEndpointIdHash ≠ 0 then
    ({ d with
        reversePinMap := incrementPinCount d.reversePinMap targetEndpointIdHash
        pinMap := emplace d.pinMap endpointIdHash targetEndpointIdHash }, oldTarget)
  else (d, oldTarget)

def getPinTarget (endpointIdHash : Nat) : Nat := (d.pinMap.lookup endpointIdHash).getD 0

/-- `isPinned(endpointIdHash)`: the target has an entry in `_reversePinMap`. -/
def isPinned (endpointIdHash : Nat) : Bool := decide (endpointIdHash ∈ d.reversePinMap)

/-! ## Uplink estimates and active levels -/

/-- `getVideoQualityLimits`: the pinned and unpinned qualities of the best configuration whose
cost fits the endpoint's uplink estimate. Costs are `unsigned long` arithmetic. -/
def getVideoQualityLimits (participantStreams : ParticipantStreams) :
    QualityLevel × QualityLevel :=
  let sendingVideo := participantStreams.primary.isSendingVideo ||
    (participantStreams.secondary.map SimulcastStream.isSendingVideo).getD false
  let sendingSlides := participantStreams.primary.isSendingSlides ||
    (participantStreams.secondary.map SimulcastStream.isSendingSlides).getD false
  let streams : BitVec 64 :=
    BitVec.ofNat 64 (Nat.min (Nat.max 1 d.lowQualitySsrcs.entries.length) d.lastN) -
      (if sendingVideo then 1 else 0)
  let maxReceivingVideoStreams : BitVec 64 := if 1 < streams then streams else 1
  let estimatedUplinkBandwidth :=
    if participantStreams.estimatedUplinkBandwidth ≠ 0 then participantStreams.estimatedUplinkBandwidth
    else d.maxDefaultLevelBandwidthKbps
  let allocationBitrateKbpsForSlides : BitVec 64 :=
    if sendingSlides then 0 else BitVec.ofNat 64 d.slidesBitrateKbps
  -- (bestConfigId, bestConfigCost, configId)
  let best := configLadder.foldl
    (fun (acc : Nat × BitVec 64 × Nat) config =>
      let configCost := config.baseRate + maxReceivingVideoStreams * config.overheadBitrate +
        allocationBitrateKbpsForSlides
      let configIsBetter := acc.2.1 == 0 || acc.2.1 < configCost
      if configIsBetter && decide (configCost.toNat ≤ estimatedUplinkBandwidth) then
        (acc.2.2, configCost, acc.2.2 + 1)
      else (acc.1, acc.2.1, acc.2.2 + 1))
    (0, 0, 0)
  let row := configLadder.getD best.1 ⟨0, dropQuality, dropQuality, 0⟩
  (row.pinnedQuality, row.unpinnedQuality)

/-- `setUplinkEstimateKbps(endpointIdHash, uplinkEstimateKbps, timestamp)`: the state and
whether the pinned quality changed. A lower pinned quality is taken at once, a higher one
only `timeBeforeScaleUpMs` after the last low estimate. -/
def setUplinkEstimateKbps (endpointIdHash uplinkEstimateKbps : Nat) (timestamp : BitVec 64) :
    EngineStreamDirector × Bool :=
  match d.participantStreams.lookup endpointIdHash with
  | none => (d, false)
  | some ps =>
      let ps := { ps with
        defaultLevelBandwidthLimit := Nat.min uplinkEstimateKbps d.maxDefaultLevelBandwidthKbps }
      let ps := { ps with
        estimatedUplinkBandwidth := Nat.max uplinkEstimateKbps ps.defaultLevelBandwidthLimit }
      let (desiredPinQuality, unpinnedQuality) := d.getVideoQualityLimits ps
      let ps := { ps with unpinQualityLevel := unpinnedQuality }
      let update := fun (ps : ParticipantStreams) =>
        { d with participantStreams := d.participantStreams.insert endpointIdHash ps }
      if desiredPinQuality = ps.pinQualityLevel then
        (update { ps with lowEstimateTimestamp := timestamp }, false)
      else if desiredPinQuality.toNat < ps.pinQualityLevel.toNat then
        (update { ps with pinQualityLevel := desiredPinQuality, lowEstimateTimestamp := timestamp },
          true)
      else if Time.diffGE ps.lowEstimateTimestamp timestamp timeBeforeScaleUp then
        (update { ps with pinQualityLevel := desiredPinQuality, lowEstimateTimestamp := timestamp },
          true)
      else (update ps, false)

/-- `setHighestActiveIndex(endpointIdHash, simulcastStream)`: the highest active level among
levels 2 and 1 (else 0), and whether the caller should treat it as a change. -/
def setHighestActiveIndex (endpointIdHash : Nat) (s : SimulcastStream) : SimulcastStream × Bool :=
  let oldHighestActiveIndex := s.highestActiveLevel
  let highestActiveLevel : Fin 3 :=
    if (s.level 2).mediaActive then 2 else if (s.level 1).mediaActive then 1 else 0
  let s := { s with highestActiveLevel := highestActiveLevel }
  if highestActiveLevel > oldHighestActiveIndex ∧ endpointIdHash ∈ d.reversePinMap then (s, true)
  else (s, oldHighestActiveIndex ≠ highestActiveLevel)

/-- `streamActiveStateChanged(endpointIdHash, ssrc, active)`: the first level with this ssrc,
in the primary stream and then the secondary, is marked. -/
def streamActiveStateChanged (endpointIdHash : Nat) (ssrc : BitVec 32) (active : Bool) :
    EngineStreamDirector :=
  match d.participantStreams.lookup endpointIdHash with
  | none => d
  | some ps =>
      let update := fun (ps : ParticipantStreams) =>
        { d with participantStreams := d.participantStreams.insert endpointIdHash ps }
      match ps.primary.levelIndexOf ssrc with
      | some i =>
          update { ps with
            primary := (d.setHighestActiveIndex endpointIdHash (ps.primary.setMediaActive i active)).1 }
      | none =>
          match ps.secondary with
          | some secondary =>
              match secondary.levelIndexOf ssrc with
              | some i =>
                  update { ps with
                    secondary := some (d.setHighestActiveIndex endpointIdHash
                      (secondary.setMediaActive i active)).1 }
              | none => d
          | none => d

/-! ## Decisions -/

/-- `highestActiveQuality(endpointIdHash, ssrc)`: the highest active level of the stream of
the endpoint that has `ssrc` in one of its three level slots. -/
def highestActiveQuality (endpointIdHash : Nat) (ssrc : BitVec 32) : QualityLevel :=
  match d.participantStreams.lookup endpointIdHash with
  | none => dropQuality
  | some ps =>
      if ps.primary.hasLevelSsrc ssrc then ofLevel ps.primary.highestActiveLevel
      else
        match ps.secondary with
        | some secondary =>
            if secondary.hasLevelSsrc ssrc then ofLevel secondary.highestActiveLevel
            else dropQuality
        | none => dropQuality

/-- `isSsrcFromParticipant(endpointIdHash, ssrc)`. -/
def isSsrcFromParticipant (endpointIdHash : Nat) (ssrc : BitVec 32) : Bool :=
  match d.participantStreams.lookup endpointIdHash with
  | none => false
  | some ps =>
      ps.primary.getLevels.any (fun l => l.ssrc == ssrc) ||
        (ps.secondary.map (fun s => s.getLevels.any (fun l => l.ssrc == ssrc))).getD false

/-- `getQualityLevel(ssrc)`: by the ssrc maps, high when in neither. -/
def getQualityLevel (ssrc : BitVec 32) : QualityLevel :=
  if ssrc ∈ d.lowQualitySsrcs then lowQuality
  else if ssrc ∈ d.midQualitySsrcs then midQuality
  else highQuality

/-- `getCurrentQualityAndEndpointId(ssrc)`: the quality and the sending endpoint (`0` for
high quality, which has no map). -/
def getCurrentQualityAndEndpointId (ssrc : BitVec 32) : QualityLevel × Nat :=
  match d.lowQualitySsrcs.lookup ssrc with
  | some e => (lowQuality, e)
  | none =>
      match d.midQualitySsrcs.lookup ssrc with
      | some e => (midQuality, e)
      | none => (highQuality, 0)

/-- `isContentSlides(ssrc, senderEndpointIdHash)`: a one-level slides stream of this ssrc. -/
def isContentSlides (ssrc : BitVec 32) (senderEndpointIdHash : Nat) : Bool :=
  match d.participantStreams.lookup senderEndpointIdHash with
  | none => false
  | some ps =>
      let isSlides := fun (s : SimulcastStream) =>
        s.contentType == .SLIDES && s.numLevels == 1 && (s.level 0).ssrc == ssrc
      isSlides ps.primary || (ps.secondary.map isSlides).getD false

/-- `isUsedForUnpinnedVideo`: a low or mid level of a sender in the last-N list that some
other endpoint receives unpinned. -/
def isUsedForUnpinnedVideo (quality highestAvailableQuality : QualityLevel)
    (senderEndpointIdHash : Nat) (isSenderInLastNList : Bool) : Bool :=
  if quality = highQuality then false
  else if !isSenderInLastNList then false
  else d.participantStreams.entries.any (fun participant =>
    participant.1 != senderEndpointIdHash &&
      quality == QualityLevel.min participant.2.unpinQualityLevel highestAvailableQuality)

/-- `isUsedForPinnedVideo`: a level some endpoint pinning the sender receives at its pinned
quality. A zero count in `_reversePinMap` returns at once. -/
def isUsedForPinnedVideo (quality highestAvailableQuality : QualityLevel)
    (senderEndpointIdHash : Nat) : Bool :=
  if d.reversePinMap.lookup senderEndpointIdHash = some 0 then false
  else d.pinMap.entries.any (fun pinMapEntry =>
    if pinMapEntry.1 = senderEndpointIdHash ∨ pinMapEntry.2 ≠ senderEndpointIdHash then false
    else
      match d.participantStreams.lookup pinMapEntry.1 with
      | some participant =>
          quality == QualityLevel.min participant.pinQualityLevel highestAvailableQuality
      | none => false)

def isUsedForRecordingSlides (ssrc : BitVec 32) (senderEndpointIdHash numRecordingStreams : Nat) :
    Bool :=
  numRecordingStreams != 0 && d.isContentSlides ssrc senderEndpointIdHash

/-- `isSsrcUsed(ssrc, senderEndpointIdHash, hasRecentActivity, isSenderInLastNList,
numRecordingStreams)`: the filter of incoming video packets. -/
def isSsrcUsed (ssrc : BitVec 32) (senderEndpointIdHash : Nat) (hasRecentActivity : Bool)
    (isSenderInLastNList : Bool) (numRecordingStreams : Nat) : Bool :=
  match d.participantStreams.lookup senderEndpointIdHash with
  | none => false
  | some participantsStreams =>
      -- a feedback (retransmission) ssrc is judged by its main ssrc
      let mainSsrc := match participantsStreams.primary.getMainSsrcFor ssrc with
        | some m => some m
        | none => participantsStreams.secondary.bind (fun s => s.getMainSsrcFor ssrc)
      let ssrc := mainSsrc.getD ssrc
      let quality := d.getQualityLevel ssrc
      let highestAvailableQuality :=
        if hasRecentActivity then
          QualityLevel.max (d.highestActiveQuality senderEndpointIdHash ssrc) quality
        else d.highestActiveQuality senderEndpointIdHash ssrc
      if highestAvailableQuality = dropQuality then false
      else if d.isUsedForUnpinnedVideo quality highestAvailableQuality senderEndpointIdHash
          isSenderInLastNList then true
      else if d.isUsedForPinnedVideo quality highestAvailableQuality senderEndpointIdHash then true
      else d.isUsedForRecordingSlides ssrc senderEndpointIdHash numRecordingStreams

/-- The `assignedQuality` of `shouldForwardSsrc`: the pinned quality for an ssrc of the
pinned endpoint, unless slides have a bitrate; the unpinned quality otherwise. -/
def assignedQuality (toEndpointIdHash : Nat) (viewer : ParticipantStreams) (ssrc : BitVec 32) :
    QualityLevel :=
  let fromPinnedEndpoint := match d.pinMap.lookup toEndpointIdHash with
    | some pinTarget => d.isSsrcFromParticipant pinTarget ssrc
    | none => false
  if fromPinnedEndpoint && d.slidesBitrateKbps == 0 then viewer.pinQualityLevel
  else viewer.unpinQualityLevel

/-- `shouldForwardSsrc(toEndpointIdHash, ssrc)`: the viewer gets the level of its assigned
quality, or a lower one when that is the sender's highest active level. A pinned sender is
assigned the unpinned quality while slides have a bitrate. -/
def shouldForwardSsrc (toEndpointIdHash : Nat) (ssrc : BitVec 32) : Bool :=
  match d.participantStreams.lookup toEndpointIdHash with
  | none => false
  | some viewer =>
      if d.isSsrcFromParticipant toEndpointIdHash ssrc then false
      else if ssrc.toNat = d.slidesSsrc then true
      else
        let assignedQuality := d.assignedQuality toEndpointIdHash viewer ssrc
        let (quality, fromEndpointId) := d.getCurrentQualityAndEndpointId ssrc
        if assignedQuality = dropQuality then false
        else if quality = assignedQuality then true
        else if quality.toNat > assignedQuality.toNat then false
        else quality = d.highestActiveQuality fromEndpointId ssrc

/-! ## Runs -/

/-- The calls that change the director. -/
inductive DirectorCall where
  | addParticipant (endpointIdHash : Nat)
  | addParticipantWithStreams (endpointIdHash : Nat) (primary : SimulcastStream)
      (secondary : Option SimulcastStream)
  | removeParticipant (endpointIdHash : Nat)
  | removeParticipantPins (endpointIdHash : Nat)
  | pin (endpointIdHash targetEndpointIdHash : Nat)
  | setUplinkEstimateKbps (endpointIdHash uplinkEstimateKbps : Nat) (timestamp : BitVec 64)
  | streamActiveStateChanged (endpointIdHash : Nat) (ssrc : BitVec 32) (active : Bool)
  | setSlidesSsrcAndBitrate (slidesSsrc bwKbps : Nat)

/-- One call. -/
def apply : DirectorCall → EngineStreamDirector
  | .addParticipant e => d.addParticipant e
  | .addParticipantWithStreams e primary secondary => d.addParticipantWithStreams e primary secondary
  | .removeParticipant e => d.removeParticipant e
  | .removeParticipantPins e => d.removeParticipantPins e
  | .pin e t => (d.pin e t).1
  | .setUplinkEstimateKbps e kbps timestamp => (d.setUplinkEstimateKbps e kbps timestamp).1
  | .streamActiveStateChanged e ssrc active => d.streamActiveStateChanged e ssrc active
  | .setSlidesSsrcAndBitrate ssrc kbps => d.setSlidesSsrcAndBitrate ssrc kbps

/-- The calls in order. -/
def runCalls (calls : List DirectorCall) : EngineStreamDirector := calls.foldl apply d

end EngineStreamDirector

end MediaBridge.Bridge
