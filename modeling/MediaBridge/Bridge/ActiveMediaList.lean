import MediaBridge.Bridge.EngineStreamDirector
import MediaBridge.Lib.BoundedMap
import MediaBridge.Lib.Run
import MediaBridge.Memory.List

set_option autoImplicit false

/-! # `ActiveMediaList`: which endpoints get a rewritten ssrc

A mixer forwards the audio of at most `_maxSpeakers` endpoints and the video of at most
`_maxActiveListSize = defaultLastN + 1` endpoints, under ssrcs of its own. The audio ssrcs are a
queue `_audioSsrcs`; an endpoint holding one is in `_audioSsrcRewriteMap` and in the list
`_activeAudioList`, least recently active at the head. The video ssrcs come in simulcast groups
of three ssrc pairs, a queue `_videoSsrcs`; an endpoint holding a group is in
`_videoSsrcRewriteMap`, and each main ssrc of its group maps back to it in
`_reverseVideoSsrcRewriteMap`. The endpoints shown in video are the list `_activeVideoList`, and
`_activeVideoListLookupMap` keeps, per endpoint, a pointer to its entry in that list; an
endpoint that is not sending video takes a place in the list without a group.

Endpoints join on `addAudioParticipant`/`addVideoParticipant` (and their barbell variants, for
endpoints of a remote bridge), leave on `removeAudioParticipant`/`removeVideoParticipant`, and
`process` moves the loudest speakers to the tail of the audio list, evicting the head when all
ssrcs are in use, and moves a new dominant speaker into the video list, evicting its head when
it is full.

The model keeps the fields these operations read and write. The hash maps
(`concurrency::MpmcHashmap32`) are `BoundedMap`s with the source's capacities, whose `emplace`
is refused silently on a full map; the queues (`concurrency::MpmcQueue`) are lists, first
element first, whose capacity of 64 is never reached by the at most 32 ssrcs or groups they
hold; the lists are `memory::List`s (`Memory.PoolList`), and a pointer to a list entry is the
entry's pool node, `none` for `nullptr`. Audio levels are not modelled: `onNewAudioLevel` only
queues a level, and `process` is given what its level computations decide, the speakers in the
order the ranking yields them and whether the dominant speaker switches. The screen share
mapping, `_ssrcMapRevision` and the feedback ssrc map are not read by these operations and are
left out. `checkInvariant` is the source's debug check, as a `Bool`.
-/

namespace MediaBridge.Bridge

open Memory

/-- `SsrcRewrite::ssrcArraySize`. -/
def ssrcArraySize : Nat := 32

/-- `api::SsrcPair`. -/
structure SsrcPair where
  main : BitVec 32
  feedback : BitVec 32
  deriving DecidableEq, Repr

/-- `api::SimulcastGroup`, a `SimulcastLevelArray<3>`: at most three ssrc pairs. -/
structure SimulcastGroup where
  pairs : List SsrcPair
  pairs_length : pairs.length ≤ 3
  deriving DecidableEq

/-- The main ssrcs of a group, which `_reverseVideoSsrcRewriteMap` maps back. -/
def SimulcastGroup.mains (g : SimulcastGroup) : List (BitVec 32) := g.pairs.map SsrcPair.main

namespace SimulcastStream

/-- `operator==(SimulcastStream, SimulcastStream)`: the level counts and the ssrcs and feedback
ssrcs of the used levels agree; the content type is not compared. -/
def equals (a b : SimulcastStream) : Bool :=
  a.numLevels == b.numLevels &&
    ((a.levels.zip b.levels).take a.numLevels).all fun x =>
      x.1.ssrc == x.2.ssrc && x.1.feedbackSsrc == x.2.feedbackSsrc

end SimulcastStream

/-- `utils::Optional<SimulcastStream>::operator==`. -/
def optionalEquals : Option SimulcastStream → Option SimulcastStream → Bool
  | none, none => true
  | some a, some b => a.equals b
  | _, _ => false

/-- `ActiveMediaList::VideoParticipant`, its streams. -/
structure VideoParticipant where
  simulcastStream : SimulcastStream
  secondarySimulcastStream : Option SimulcastStream

namespace VideoParticipant

/-- The test of `onVideoParticipantAdded` and `updateActiveVideoList` for taking a group. -/
def isSendingVideo (p : VideoParticipant) : Bool :=
  p.simulcastStream.isSendingVideo ||
    match p.secondarySimulcastStream with
    | some s => s.isSendingVideo
    | none => false

/-- The test of `addBarbellVideoParticipant` for "nothing has changed". -/
def sameStreams (p q : VideoParticipant) : Bool :=
  p.simulcastStream.equals q.simulcastStream &&
    optionalEquals p.secondarySimulcastStream q.secondarySimulcastStream

end VideoParticipant

/-- The state of `ActiveMediaList` that its participant operations and `process` use. The
audio participants' levels are not modelled, so `_audioParticipants` maps to `Unit`. -/
structure ActiveMediaList where
  maxActiveListSize : Nat
  audioLastN : Nat
  maxSpeakers : Nat
  audioParticipants : BoundedMap Nat Unit
  audioSsrcs : List (BitVec 32)
  audioSsrcRewriteMap : BoundedMap Nat (BitVec 32)
  activeAudioList : PoolList Nat 32
  dominantSpeaker : Nat
  videoParticipants : BoundedMap Nat VideoParticipant
  videoSsrcs : List SimulcastGroup
  videoSsrcRewriteMap : BoundedMap Nat SimulcastGroup
  reverseVideoSsrcRewriteMap : BoundedMap (BitVec 32) Nat
  activeVideoList : PoolList Nat 32
  activeVideoListLookupMap : BoundedMap Nat (Option (Fin 32))

namespace ActiveMediaList

/-- `ActiveMediaList::maxParticipants`. -/
def maxParticipants : Nat := 2048

/-- The constructor. Groups of one ssrc pair are the screen share and do not enter
`_videoSsrcs`; without video groups the video maps have no capacity. -/
def create (audioSsrcs : List (BitVec 32)) (videoSsrcs : List SimulcastGroup)
    (defaultLastN audioLastN : Nat) : ActiveMediaList where
  maxActiveListSize := defaultLastN + 1
  audioLastN := audioLastN
  maxSpeakers := audioSsrcs.length
  audioParticipants := BoundedMap.empty maxParticipants
  audioSsrcs := audioSsrcs
  audioSsrcRewriteMap := BoundedMap.empty (ssrcArraySize * 2)
  activeAudioList := PoolList.empty
  dominantSpeaker := 0
  videoParticipants := BoundedMap.empty (if videoSsrcs.isEmpty then 0 else maxParticipants)
  videoSsrcs := videoSsrcs.filter fun g => g.pairs.length != 1
  videoSsrcRewriteMap := BoundedMap.empty (if videoSsrcs.isEmpty then 0 else ssrcArraySize * 2)
  reverseVideoSsrcRewriteMap :=
    BoundedMap.empty (if videoSsrcs.isEmpty then 0 else ssrcArraySize * 2)
  activeVideoList := PoolList.empty
  activeVideoListLookupMap := BoundedMap.empty (if videoSsrcs.isEmpty then 0 else 32)

variable (s : ActiveMediaList)

/-! ## Audio -/

/-- The free audio ssrc at the front of the queue goes to the endpoint, which `push` links into
the active audio list: the shared end of `onAudioParticipantAdded` (to the head) and of
`updateActiveAudioList` (to the tail). `false` when no ssrc is free. -/
def takeAudioSsrc (endpointIdHash : Nat) (push : PoolList Nat 32 → Nat → PoolList Nat 32 × Bool) :
    ActiveMediaList × Bool :=
  match s.audioSsrcs with
  | [] => (s, false)
  | ssrc :: rest =>
      ({ s with
          audioSsrcs := rest
          audioSsrcRewriteMap := s.audioSsrcRewriteMap.emplace endpointIdHash ssrc
          activeAudioList := (push s.activeAudioList endpointIdHash).1 }, true)

/-- `onAudioParticipantAdded`: the first audio endpoint becomes the dominant speaker. -/
def onAudioParticipantAdded (endpointIdHash : Nat) : ActiveMediaList × Bool :=
  let s := if s.dominantSpeaker = 0 then { s with dominantSpeaker := endpointIdHash } else s
  s.takeAudioSsrc endpointIdHash PoolList.pushToHead

def addAudioParticipant (endpointIdHash : Nat) : ActiveMediaList × Bool :=
  if s.audioParticipants.contains endpointIdHash then (s, false)
  else
    { s with audioParticipants := s.audioParticipants.emplace endpointIdHash () }
      |>.onAudioParticipantAdded endpointIdHash

/-- `addBarbellAudioParticipant`: it stores the participant with the remote side's noise and
recent levels, which are not modelled, and is otherwise `addAudioParticipant`. -/
def addBarbellAudioParticipant (endpointIdHash : Nat) : ActiveMediaList × Bool :=
  s.addAudioParticipant endpointIdHash

def removeAudioParticipant (endpointIdHash : Nat) : ActiveMediaList × Bool :=
  let s := { s with audioParticipants := s.audioParticipants.erase endpointIdHash }
  match s.audioSsrcRewriteMap.lookup endpointIdHash with
  | none => (s, false)
  | some ssrc =>
      ({ s with
          audioSsrcRewriteMap := s.audioSsrcRewriteMap.erase endpointIdHash
          audioSsrcs := s.audioSsrcs ++ [ssrc]
          activeAudioList := (s.activeAudioList.remove endpointIdHash).1 }, true)

/-- `updateActiveAudioList`: an endpoint holding an ssrc moves to the tail; another takes a free
ssrc, after the head gives its ssrc back when all are in use. The `false` returns after a failed
list operation are the source's `assert(false)` branches. -/
def updateActiveAudioList (endpointIdHash : Nat) : ActiveMediaList × Bool :=
  if s.audioSsrcRewriteMap.contains endpointIdHash then
    match s.activeAudioList.remove endpointIdHash with
    | (l, true) => ({ s with activeAudioList := (l.pushToTail endpointIdHash).1 }, false)
    | (_, false) => (s, false)
  else if s.audioSsrcRewriteMap.size = s.maxSpeakers then
    match s.activeAudioList.popFromHead with
    | none => (s, false)
    | some (removedEndpointIdHash, l) =>
        let s := { s with activeAudioList := l }
        match s.audioSsrcRewriteMap.lookup removedEndpointIdHash with
        | none => (s, false)
        | some ssrc =>
            { s with
                audioSsrcRewriteMap := s.audioSsrcRewriteMap.erase removedEndpointIdHash
                audioSsrcs := s.audioSsrcs ++ [ssrc] }.takeAudioSsrc endpointIdHash PoolList.pushToTail
  else s.takeAudioSsrc endpointIdHash PoolList.pushToTail

/-! ## Video -/

/-- `addToVideoRewriteMap`. -/
def addToVideoRewriteMap (endpointIdHash : Nat) (simulcastGroup : SimulcastGroup) : ActiveMediaList :=
  { s with
    videoSsrcRewriteMap := s.videoSsrcRewriteMap.emplace endpointIdHash simulcastGroup
    reverseVideoSsrcRewriteMap := simulcastGroup.pairs.foldl
      (fun m ssrcPair => m.emplace ssrcPair.main endpointIdHash) s.reverseVideoSsrcRewriteMap }

/-- `removeFromRewriteMap`: the group goes back to the queue. -/
def removeFromRewriteMap (endpointIdHash : Nat) : ActiveMediaList :=
  match s.videoSsrcRewriteMap.lookup endpointIdHash with
  | none => s
  | some simulcastGroup =>
      { s with
        videoSsrcRewriteMap := s.videoSsrcRewriteMap.erase endpointIdHash
        reverseVideoSsrcRewriteMap := simulcastGroup.pairs.foldl
          (fun m ssrcPair => m.erase ssrcPair.main) s.reverseVideoSsrcRewriteMap
        videoSsrcs := s.videoSsrcs ++ [simulcastGroup] }

/-- An endpoint sending video takes the group at the front of the queue; `none` when none is
left, the source's `assert(false)`. -/
def takeVideoGroup (endpointIdHash : Nat) (sending : Bool) : Option ActiveMediaList :=
  if sending then
    match s.videoSsrcs with
    | [] => none
    | simulcastGroup :: rest =>
        some ({ s with videoSsrcs := rest }.addToVideoRewriteMap endpointIdHash simulcastGroup)
  else some s

/-- `push` links the endpoint into the active video list and the lookup map records the entry
`entry` reads back (the head after `pushToHead`, the tail after `pushToTail`). -/
def linkVideoEntry (endpointIdHash : Nat) (push : PoolList Nat 32 → Nat → PoolList Nat 32 × Bool)
    (entry : PoolList Nat 32 → Option (Fin 32)) : ActiveMediaList :=
  let l := (push s.activeVideoList endpointIdHash).1
  { s with
    activeVideoList := l
    activeVideoListLookupMap := s.activeVideoListLookupMap.emplace endpointIdHash (entry l) }

/-- The end of `updateActiveVideoList`: a group if the endpoint sends video, and an entry at
the tail. -/
def enterActiveVideoList (endpointIdHash : Nat) (videoParticipant : VideoParticipant) :
    ActiveMediaList × Bool :=
  match s.takeVideoGroup endpointIdHash videoParticipant.isSendingVideo with
  | none => (s, false)
  | some s => (s.linkVideoEntry endpointIdHash PoolList.pushToTail PoolList.tail, true)

/-- `updateActiveVideoList`: a video participant in the list moves to the tail; another enters
at the tail, after the head leaves with its group when the list is full. The search of the
list from the tail is membership of the data. -/
def updateActiveVideoList (endpointIdHash : Nat) : ActiveMediaList × Bool :=
  match s.videoParticipants.lookup endpointIdHash with
  | none => (s, false)
  | some videoParticipant =>
      if endpointIdHash ∈ s.activeVideoList.data then
        ({ s with
            activeVideoList := (s.activeVideoList.remove endpointIdHash).1
            activeVideoListLookupMap := s.activeVideoListLookupMap.erase endpointIdHash
          }.linkVideoEntry endpointIdHash PoolList.pushToTail PoolList.tail, true)
      else if s.activeVideoListLookupMap.size = s.maxActiveListSize then
        match s.activeVideoList.popFromHead with
        | none => (s, false)
        | some (removedEndpointIdHash, l) =>
            let s := { s with
              activeVideoList := l
              activeVideoListLookupMap := s.activeVideoListLookupMap.erase removedEndpointIdHash }
            let s := if removedEndpointIdHash ≠ 0 then s.removeFromRewriteMap removedEndpointIdHash
              else s
            s.enterActiveVideoList endpointIdHash videoParticipant
      else s.enterActiveVideoList endpointIdHash videoParticipant

/-- `onVideoParticipantAdded`: a new video participant enters the list at the head unless the
list is full; then the dominant speaker, if it is this endpoint, goes to the tail. -/
def onVideoParticipantAdded (endpointIdHash : Nat) (videoParticipant : VideoParticipant) :
    ActiveMediaList × Bool :=
  if s.activeVideoListLookupMap.size = s.maxActiveListSize then
    if endpointIdHash ≠ s.dominantSpeaker then (s, true)
    else s.updateActiveVideoList s.dominantSpeaker
  else
    match s.takeVideoGroup endpointIdHash videoParticipant.isSendingVideo with
    | none => (s, false)
    | some s =>
        let s := s.linkVideoEntry endpointIdHash PoolList.pushToHead PoolList.head
        if endpointIdHash ≠ s.dominantSpeaker then (s, true)
        else s.updateActiveVideoList s.dominantSpeaker

/-- The participant is stored and `onVideoParticipantAdded` runs: the shared end of
`addVideoParticipant` and `addBarbellVideoParticipant`, which differ only in the participant's
`isLocal`, not modelled. -/
def storeVideoParticipant (endpointIdHash : Nat) (videoParticipant : VideoParticipant) :
    ActiveMediaList × Bool :=
  { s with videoParticipants := s.videoParticipants.emplace endpointIdHash videoParticipant }
    |>.onVideoParticipantAdded endpointIdHash videoParticipant

def addVideoParticipant (endpointIdHash : Nat) (videoParticipant : VideoParticipant) :
    ActiveMediaList × Bool :=
  if s.videoParticipants.contains endpointIdHash then (s, false)
  else s.storeVideoParticipant endpointIdHash videoParticipant

def removeVideoParticipant (endpointIdHash : Nat) : ActiveMediaList × Bool :=
  if !s.videoParticipants.contains endpointIdHash then (s, false)
  else
    let s := { s with videoParticipants := s.videoParticipants.erase endpointIdHash }
      |>.removeFromRewriteMap endpointIdHash
    ({ s with
        activeVideoList := (s.activeVideoList.remove endpointIdHash).1
        activeVideoListLookupMap := s.activeVideoListLookupMap.erase endpointIdHash }, true)

/-- `addBarbellVideoParticipant`: a known endpoint with changed streams is removed and added
again. -/
def addBarbellVideoParticipant (endpointIdHash : Nat) (videoParticipant : VideoParticipant) :
    ActiveMediaList × Bool :=
  match s.videoParticipants.lookup endpointIdHash with
  | some stored =>
      if stored.sameStreams videoParticipant then (s, false)
      else (s.removeVideoParticipant endpointIdHash).1.storeVideoParticipant endpointIdHash
        videoParticipant
  | none => s.storeVideoParticipant endpointIdHash videoParticipant

/-! ## `process` -/

/-- `process(timestamp, ...)` after `updateLevels` and `rankSpeakers`: `speakers` are the
ranked audio participants in the order the heap yields them (none when the interval has not
passed or nobody speaks), and `switchDominant` says whether the score and time conditions for
a switch to the top speaker hold. The result is the state with `outDominantSpeakerChanged`,
`outVideoMapChanged` and `outAudioMapChanged`. -/
def process (speakers : List Nat) (switchDominant : Bool) : ActiveMediaList × Bool × Bool × Bool :=
  -- `rankSpeakers` ranks only stored audio participants
  let speakers := speakers.filter fun e => s.audioParticipants.contains e
  match speakers with
  | [] => (s, false, false, false)
  | nominatedSpeaker :: _ =>
      let r := Run.run updateActiveAudioList s (speakers.take s.audioLastN)
      let s := r.1
      let outAudioMapChanged := r.2.any id
      if switchDominant && nominatedSpeaker ≠ s.dominantSpeaker then
        let v := { s with dominantSpeaker := nominatedSpeaker }.updateActiveVideoList nominatedSpeaker
        (v.1, true, v.2, outAudioMapChanged)
      else (s, false, false, outAudioMapChanged)

/-! ## The debug check -/

/-- `checkInvariant()`: every audio list entry holds an audio ssrc and there are as many entries
as ssrcs held; every video list entry is a video participant whose lookup entry is that list
entry, with as many lookup entries as list entries; three reverse entries per group held; and
every endpoint holding a group is a video participant in the video list. -/
def checkInvariant : Bool :=
  s.activeAudioList.data.all (fun e => s.audioSsrcRewriteMap.contains e) &&
  s.activeAudioList.length == s.audioSsrcRewriteMap.size &&
  s.activeVideoList.entries.all (fun x =>
    s.videoParticipants.contains x.2 && s.activeVideoListLookupMap.lookup x.2 == some (some x.1)) &&
  s.activeVideoListLookupMap.size == s.activeVideoList.length &&
  s.videoSsrcRewriteMap.size * 3 == s.reverseVideoSsrcRewriteMap.size &&
  s.videoSsrcRewriteMap.keys.all (fun e =>
    s.videoParticipants.contains e && s.activeVideoList.data.contains e)

/-! ## Calls -/

/-- The public operations, with `process` given the outcome of its level computations. -/
inductive MediaListCall where
  | addAudioParticipant (endpointIdHash : Nat)
  | addBarbellAudioParticipant (endpointIdHash : Nat)
  | removeAudioParticipant (endpointIdHash : Nat)
  | addVideoParticipant (endpointIdHash : Nat) (videoParticipant : VideoParticipant)
  | addBarbellVideoParticipant (endpointIdHash : Nat) (videoParticipant : VideoParticipant)
  | removeVideoParticipant (endpointIdHash : Nat)
  | onNewAudioLevel (endpointIdHash : Nat) (level : Nat)
  | process (speakers : List Nat) (switchDominant : Bool)

/-- The endpoint a call names, if one. -/
def MediaListCall.endpoint? : MediaListCall → Option Nat
  | .addAudioParticipant e | .addBarbellAudioParticipant e | .removeAudioParticipant e
  | .addVideoParticipant e _ | .addBarbellVideoParticipant e _ | .removeVideoParticipant e
  | .onNewAudioLevel e _ => some e
  | .process _ _ => none

/-- One call; `onNewAudioLevel` only queues a level for `process`. -/
def apply : MediaListCall → ActiveMediaList
  | .addAudioParticipant e => (s.addAudioParticipant e).1
  | .addBarbellAudioParticipant e => (s.addBarbellAudioParticipant e).1
  | .removeAudioParticipant e => (s.removeAudioParticipant e).1
  | .addVideoParticipant e p => (s.addVideoParticipant e p).1
  | .addBarbellVideoParticipant e p => (s.addBarbellVideoParticipant e p).1
  | .removeVideoParticipant e => (s.removeVideoParticipant e).1
  | .onNewAudioLevel _ _ => s
  | .process speakers switchDominant => (s.process speakers switchDominant).1

def runCalls (calls : List MediaListCall) : ActiveMediaList := calls.foldl apply s

end ActiveMediaList

end MediaBridge.Bridge
