import MediaBridge.Bridge.ActiveMediaListRuns
import MediaBridge.Memory.PartialSortExtractor
import MediaBridge.Utils.Time
import Mathlib.Algebra.Order.Ring.Rat

set_option autoImplicit false

/-! # `ActiveMediaList`: audio levels, active talkers and the dominant speaker

`ActiveMediaList.lean` models what `process` does once its level computations have decided,
from the speakers in ranked order and whether the dominant speaker switches. This module models
those computations. Each audio participant keeps its recent levels (`AudioParticipant`): the
latest level, a peak that decays towards the noise level, a noise level that creeps up while
no new minimum comes, a ring of the last five levels and the push-to-talk flag. Levels arrive
through a queue (`onNewAudioLevel`); every `process` call at least `INTERVAL_MS` after the last
one applies them (`updateLevels`), ranks the unmuted participants by their score, the peak
above the noise (`rankSpeakers`), pops up to `_audioLastN` of them off a heap
(`PartialSortExtractor`) into the audio list and into the published active talker snapshot,
and lets the top speaker become the dominant speaker when the last switch is more than
`minSpotlightDuration` old and the top speaker has been nominated that long or the dominant
speaker has gone quiet.

`LevelledMediaList` is the `ActiveMediaList` state with these fields. Its participant map
`participantLevels` holds the values of `_audioParticipants`, whose keys the model of
`ActiveMediaList` keeps as `audioParticipants`; every call changes both alike
(`MapsAgree`). Floating-point levels are rationals. A snapshot entry's `isPtt` is what the
source writes: `curParticipant != _audioParticipants.end() ? false : curParticipant->second.ptt`
is `false` for every participant found, and the other branch would read through `end()`; no
ranked participant takes it.
-/

namespace MediaBridge.Bridge

open Memory

/-- A `float` converted to `uint8_t`: its integer part. The conversion is undefined outside
`[0, 256)`, where no level or score of the source lies. -/
def toUint8 (x : ℚ) : Nat := x.floor.toNat % 256

/-! ## One participant's levels -/

/-- `AudioParticipant::History`: the last five levels, in a ring. -/
structure History where
  levels : List Nat
  index : Nat
  totalLevel : Nat
  nonZeroLevels : Nat
  timestamp : BitVec 64
  deriving DecidableEq

namespace History

/-- `_levels.size()`. -/
def size : Nat := 5

/-- The history of a new participant: five zero levels. -/
def empty : History := ⟨List.replicate size 0, 0, 0, 0, 0⟩

/-- `update(level, timestamp)`: the level replaces the oldest one. -/
def update (h : History) (level : Nat) (timestamp : BitVec 64) : History :=
  let index := (h.index + 1) % size
  let removedItem := h.levels.getD index 0
  { levels := h.levels.set index level
    index := index
    totalLevel := h.totalLevel + level - removedItem
    nonZeroLevels :=
      h.nonZeroLevels + (if level > 0 then 1 else 0) - (if removedItem > 0 then 1 else 0)
    timestamp := timestamp }

/-- `fill(level)`: every level the same. -/
def fill (h : History) (level : Nat) : History :=
  { h with
    levels := List.replicate size level
    nonZeroLevels := if level > 0 then size else 0
    totalLevel := level * size }

def average (h : History) : ℚ := (h.totalLevel : ℚ) / size

def allNonZero (h : History) : Bool := h.nonZeroLevels == size

def getUpdateTime (h : History) : BitVec 64 := h.timestamp

end History

/-- `ActiveMediaList::AudioParticipant`, the fields the level computations use. -/
structure AudioParticipant where
  history : History
  audioLevel : ℚ
  maxRecentLevel : ℚ
  noiseLevel : ℚ
  ptt : Bool
  deriving DecidableEq

namespace AudioParticipant

def MAX_LEVEL_DECAY : ℚ := 0.006
def NOISE_RAMPUP : ℚ := 0.01
def MIN_NOISE : ℚ := 7

/-- `AudioParticipant(id)`: a local participant, silent, with noise level `50`. -/
def create : AudioParticipant := ⟨History.empty, 0, 0, 50, false⟩

/-- `AudioParticipant(id, noiseLevel, recentLevel)`: a participant of a remote bridge, with
the levels that bridge reported. -/
def createBarbell (noiseLevel recentLevel : ℚ) : AudioParticipant :=
  ⟨History.empty.fill (toUint8 noiseLevel), recentLevel, recentLevel, noiseLevel, false⟩

/-- `getScore()`: how far the peak stands above the noise. -/
def getScore (p : AudioParticipant) : ℚ := max 0 (p.maxRecentLevel - p.noiseLevel)

/-- `getInstantScore()`: how far the latest level stands above the noise. -/
def getInstantScore (p : AudioParticipant) : ℚ := max 0 (p.audioLevel - p.noiseLevel)

/-- `onNewLevel(level, timestamp)`: a level of `0` is a muted participant. -/
def onNewLevel (p : AudioParticipant) (level : Nat) (timestamp : BitVec 64) :
    AudioParticipant :=
  { p with
    audioLevel := level
    maxRecentLevel := if level = 0 then 0 else max p.maxRecentLevel level
    history := p.history.update level timestamp }

/-- The first loop of `updateLevels`, on one participant: the peak decays towards the noise,
the noise creeps up while every recent level is nonzero, and a participant heard of no level
for 200 ms is taken as muted. -/
def decay (timestamp : BitVec 64) (p : AudioParticipant) : AudioParticipant :=
  let p :=
    if p.maxRecentLevel > p.noiseLevel then
      { p with
        maxRecentLevel := p.maxRecentLevel - (p.maxRecentLevel - p.noiseLevel) * MAX_LEVEL_DECAY }
    else p
  let audioOutage := Time.diffGT p.history.getUpdateTime timestamp (Time.ms * 200)
  let p :=
    if p.history.allNonZero && !audioOutage then
      { p with noiseLevel := max (p.noiseLevel + NOISE_RAMPUP) MIN_NOISE }
    else p
  if audioOutage then { p with maxRecentLevel := 0, audioLevel := 0 } else p

/-- The second loop of `updateLevels`, on the participant a queued level is for. -/
def applyLevel (timestamp : BitVec 64) (level : Nat) (ptt : Bool) (p : AudioParticipant) :
    AudioParticipant :=
  let p := { p with ptt := ptt }.onNewLevel level timestamp
  if p.history.allNonZero then { p with noiseLevel := min p.noiseLevel p.history.average }
  else p

end AudioParticipant

/-- `ActiveMediaList::AudioLevelEntry`, a queued level. -/
structure AudioLevelEntry where
  participant : Nat
  level : Nat
  ptt : Bool
  deriving DecidableEq

/-- `ActiveMediaList::AudioParticipantScore`, what the heap orders by `score`. -/
structure AudioParticipantScore where
  participant : Nat
  score : ℚ
  noiseLevel : ℚ
  deriving DecidableEq

/-- `bridge::ActiveTalker`, an entry of the published snapshot. -/
structure ActiveTalker where
  endpointHashId : Nat
  isPtt : Bool
  score : Nat
  noiseLevel : Nat
  deriving DecidableEq

/-! ## The state -/

/-- `ActiveMediaList` with the level computations' fields. -/
structure LevelledMediaList extends ActiveMediaList where
  /-- The values of `_audioParticipants`. -/
  participantLevels : BoundedMap Nat AudioParticipant
  incomingAudioLevels : List AudioLevelEntry
  activeTalkerSilenceThresholdDb : Nat
  lastRunTimestamp : BitVec 64
  dominationTimestamp : BitVec 64
  nominationTimestamp : BitVec 64
  nominatedSpeaker : Nat
  /-- The last snapshot `_activeTalkerSnapshot` published. -/
  activeTalkerSnapshot : List ActiveTalker

namespace LevelledMediaList

/-- `INTERVAL_MS * utils::Time::ms`. -/
def interval : BitVec 64 := 10 * Time.ms

/-- `minSpotlightDuration`: two seconds. -/
def minSpotlightDuration : BitVec 64 := 2000 * Time.ms

/-- `ActiveTalkersSnapshot::maxSize`: `maxParticipants / 2`. -/
def maxSnapshotSize : Nat := ActiveMediaList.maxParticipants / 2

/-- `_incomingAudioLevels`' capacity. -/
def incomingAudioLevelsCapacity : Nat := 32768

/-- The constructor; `_nominationTimestamp` is not initialised, so its first value is any. -/
def create (audioSsrcs : List (BitVec 32)) (videoSsrcs : List SimulcastGroup)
    (defaultLastN audioLastN activeTalkerSilenceThresholdDb : Nat)
    (nominationTimestamp : BitVec 64) : LevelledMediaList where
  toActiveMediaList := ActiveMediaList.create audioSsrcs videoSsrcs defaultLastN audioLastN
  participantLevels := BoundedMap.empty ActiveMediaList.maxParticipants
  incomingAudioLevels := []
  activeTalkerSilenceThresholdDb := min (max activeTalkerSilenceThresholdDb 6) 60
  lastRunTimestamp := 0
  dominationTimestamp := 0
  nominationTimestamp := nominationTimestamp
  nominatedSpeaker := 0
  activeTalkerSnapshot := []

variable (s : LevelledMediaList)

/-! ## Participants -/

/-- `addAudioParticipant`: a new local participant. -/
def addAudioParticipant (endpointIdHash : Nat) : LevelledMediaList :=
  if s.participantLevels.contains endpointIdHash then s
  else
    { s with
      toActiveMediaList := (s.toActiveMediaList.addAudioParticipant endpointIdHash).1
      participantLevels := s.participantLevels.emplace endpointIdHash AudioParticipant.create }

/-- `addBarbellAudioParticipant`: a participant of a remote bridge, with its levels. -/
def addBarbellAudioParticipant (endpointIdHash : Nat) (noiseLevel recentLevel : ℚ) :
    LevelledMediaList :=
  if s.participantLevels.contains endpointIdHash then s
  else
    { s with
      toActiveMediaList := (s.toActiveMediaList.addBarbellAudioParticipant endpointIdHash).1
      participantLevels := s.participantLevels.emplace endpointIdHash
        (AudioParticipant.createBarbell noiseLevel recentLevel) }

def removeAudioParticipant (endpointIdHash : Nat) : LevelledMediaList :=
  { s with
    toActiveMediaList := (s.toActiveMediaList.removeAudioParticipant endpointIdHash).1
    participantLevels := s.participantLevels.erase endpointIdHash }

/-- `onNewAudioLevel(endpointIdHash, level, ptt)`: a level of the `[0, 127]` scale, queued
upside down; the queue refuses a level when full. -/
def onNewAudioLevel (endpointIdHash level : Nat) (ptt : Bool) : LevelledMediaList :=
  if level < 128 ∧ s.incomingAudioLevels.length < incomingAudioLevelsCapacity then
    { s with incomingAudioLevels := s.incomingAudioLevels ++ [⟨endpointIdHash, 127 - level, ptt⟩] }
  else s

/-! ## `process` -/

/-- `updateLevels(timestamp)`: every participant's levels move on, then the queued levels
arrive, each at its participant if it is still there. -/
def updateLevels (timestamp : BitVec 64) : LevelledMediaList :=
  let levels := s.participantLevels.mapValues fun _ p => p.decay timestamp
  let levels := s.incomingAudioLevels.foldl
    (fun levels entry =>
      levels.modify entry.participant (AudioParticipant.applyLevel timestamp entry.level entry.ptt))
    levels
  { s with participantLevels := levels, incomingAudioLevels := [] }

/-- `rankSpeakers()`: the unmuted participants, in the map's order, with their scores. -/
def rankSpeakers (levels : BoundedMap Nat AudioParticipant) : List AudioParticipantScore :=
  levels.entries.filterMap fun e =>
    if e.2.maxRecentLevel = 0 then none
    else some ⟨e.1, e.2.getScore, max 0 e.2.noiseLevel⟩

/-- The snapshot entry of a speaker popped off the heap. -/
def activeTalkerOf (levels : BoundedMap Nat AudioParticipant) (top : AudioParticipantScore) :
    ActiveTalker :=
  { endpointHashId := top.participant
    isPtt := match levels.lookup top.participant with
      | some _ => false
      | none => false
    score := toUint8 top.score
    noiseLevel := toUint8 top.noiseLevel }

/-- The snapshot loop of `process` over the speakers popped off the heap: those above the
silence threshold, while the snapshot has room. -/
def snapshotLoop (threshold : Nat) (levels : BoundedMap Nat AudioParticipant) :
    List AudioParticipantScore → List ActiveTalker → List ActiveTalker
  | [], snapshot => snapshot
  | top :: rest, snapshot =>
      snapshotLoop threshold levels rest
        (if top.score > threshold ∧ snapshot.length < maxSnapshotSize then
          snapshot ++ [activeTalkerOf levels top]
        else snapshot)

/-- The ranked speakers in the order the heap yields them, top first. -/
def heapOrder (ranked : List AudioParticipantScore) : List AudioParticipantScore :=
  (PartialSortExtractor.extract AudioParticipantScore.score ranked.length ⟨ranked⟩).1

/-- `_nominatedSpeaker` and `_nominationTimestamp` once the top speaker is nominated. -/
def nominate (nominatedSpeaker : Nat) (timestamp : BitVec 64) : LevelledMediaList :=
  if nominatedSpeaker ≠ s.nominatedSpeaker then
    { s with nominationTimestamp := timestamp, nominatedSpeaker := nominatedSpeaker }
  else s

/-- The switch conditions of `process`: the last switch is more than `minSpotlightDuration`
old, and the nominated speaker has been nominated that long or the dominant speaker is quiet. -/
def switchAllowed (timestamp : BitVec 64) : Bool :=
  let dominantSpeakerInstantScore : ℚ :=
    match s.participantLevels.lookup s.dominantSpeaker with
    | some p => p.getInstantScore
    | none => 0
  Time.diffGT s.dominationTimestamp timestamp minSpotlightDuration &&
    (Time.diffGT s.nominationTimestamp timestamp minSpotlightDuration ||
      decide (dominantSpeakerInstantScore < 3))

/-- The audio and the video list move as the `ActiveMediaList` model's `process` moves them,
given the speakers in heap order; a switch sets `_dominationTimestamp`. -/
def moveLists (order : List AudioParticipantScore) (switchDominant : Bool)
    (timestamp : BitVec 64) : LevelledMediaList × Bool × Bool × Bool :=
  let r := s.toActiveMediaList.process (order.map AudioParticipantScore.participant) switchDominant
  let s := { s with toActiveMediaList := r.1 }
  ((if r.2.1 then { s with dominationTimestamp := timestamp } else s), r.2.1, r.2.2.1, r.2.2.2)

/-- `process` once the levels are updated: rank, publish the snapshot, move the lists and
switch the dominant speaker if the top speaker is not silent and the conditions hold. -/
def processSpeakers (timestamp : BitVec 64) : LevelledMediaList × Bool × Bool × Bool :=
  let ranked := rankSpeakers s.participantLevels
  match (PartialSortExtractor.mk ranked).top AudioParticipantScore.score with
  | none => ({ s with activeTalkerSnapshot := [] }, false, false, false)
  | some nominatedSpeaker =>
      let order := heapOrder ranked
      let s := { s with
        activeTalkerSnapshot := snapshotLoop s.activeTalkerSilenceThresholdDb s.participantLevels
          (order.take s.audioLastN) [] }
      if nominatedSpeaker.score = 0 then s.moveLists order false timestamp
      else
        let s := s.nominate nominatedSpeaker.participant timestamp
        s.moveLists order (s.switchAllowed timestamp) timestamp

/-- `process(timestamp, ...)`: the state and `outDominantSpeakerChanged`,
`outVideoMapChanged` and `outAudioMapChanged`; nothing happens within `INTERVAL_MS` of the last
run. -/
def process (timestamp : BitVec 64) : LevelledMediaList × Bool × Bool × Bool :=
  if Time.diffLT s.lastRunTimestamp timestamp interval then (s, false, false, false)
  else ({ s with lastRunTimestamp := timestamp }.updateLevels timestamp).processSpeakers timestamp

/-! ## Calls -/

/-- The public operations of `ActiveMediaList` that the level computations see. -/
inductive LevelledCall where
  | addAudioParticipant (endpointIdHash : Nat)
  | addBarbellAudioParticipant (endpointIdHash : Nat) (noiseLevel recentLevel : ℚ)
  | removeAudioParticipant (endpointIdHash : Nat)
  | addVideoParticipant (endpointIdHash : Nat) (videoParticipant : VideoParticipant)
  | addBarbellVideoParticipant (endpointIdHash : Nat) (videoParticipant : VideoParticipant)
  | removeVideoParticipant (endpointIdHash : Nat)
  | onNewAudioLevel (endpointIdHash level : Nat) (ptt : Bool)
  | process (timestamp : BitVec 64)

/-- The timestamp of a `process` call. -/
def LevelledCall.timestamp? : LevelledCall → Option (BitVec 64)
  | .process timestamp => some timestamp
  | _ => none

/-- One call, with what a `process` call reports: its timestamp and
`outDominantSpeakerChanged`. -/
def step : LevelledCall → LevelledMediaList × Option (BitVec 64 × Bool)
  | .addAudioParticipant e => (s.addAudioParticipant e, none)
  | .addBarbellAudioParticipant e noiseLevel recentLevel =>
      (s.addBarbellAudioParticipant e noiseLevel recentLevel, none)
  | .removeAudioParticipant e => (s.removeAudioParticipant e, none)
  | .addVideoParticipant e p =>
      ({ s with toActiveMediaList := (s.toActiveMediaList.addVideoParticipant e p).1 }, none)
  | .addBarbellVideoParticipant e p =>
      ({ s with toActiveMediaList := (s.toActiveMediaList.addBarbellVideoParticipant e p).1 },
        none)
  | .removeVideoParticipant e =>
      ({ s with toActiveMediaList := (s.toActiveMediaList.removeVideoParticipant e).1 }, none)
  | .onNewAudioLevel e level ptt => (s.onNewAudioLevel e level ptt, none)
  | .process timestamp => ((s.process timestamp).1, some (timestamp, (s.process timestamp).2.1))

end LevelledMediaList

/-! ## What the model's `process` changes -/

namespace ActiveMediaList

variable (s : ActiveMediaList)

/-- `updateActiveAudioList` changes the audio ssrc queue, map and list, and nothing else. -/
theorem updateActiveAudioList_eq_with (e : Nat) :
    ∃ q m l, (s.updateActiveAudioList e).1 =
      { s with audioSsrcs := q, audioSsrcRewriteMap := m, activeAudioList := l } := by
  unfold updateActiveAudioList
  dsimp only
  split
  · split
    · exact ⟨_, _, _, rfl⟩
    · exact ⟨_, _, _, rfl⟩
  · split
    · split
      · exact ⟨_, _, _, rfl⟩
      · split
        · exact ⟨_, _, _, rfl⟩
        · unfold takeAudioSsrc
          split
          · exact ⟨_, _, _, rfl⟩
          · exact ⟨_, _, _, rfl⟩
    · unfold takeAudioSsrc
      split
      · exact ⟨_, _, _, rfl⟩
      · exact ⟨_, _, _, rfl⟩

theorem run_updateActiveAudioList_eq_with (speakers : List Nat) :
    ∃ q m l, (Run.run updateActiveAudioList s speakers).1 =
      { s with audioSsrcs := q, audioSsrcRewriteMap := m, activeAudioList := l } := by
  induction speakers generalizing s with
  | nil => exact ⟨_, _, _, rfl⟩
  | cons e speakers ih =>
      obtain ⟨q, m, l, h⟩ := updateActiveAudioList_eq_with s e
      obtain ⟨q', m', l', h'⟩ := ih (s.updateActiveAudioList e).1
      rw [Run.run_cons_fst, h', h]
      exact ⟨q', m', l', rfl⟩

/-- **What `process` reports as a switch**: the dominant speaker becomes the first ranked
speaker that is an audio participant, and only when the switch conditions hold. Without a
switch the dominant speaker stays. The audio participants stay in either case. -/
theorem process_spec (speakers : List Nat) (switchDominant : Bool) :
    (s.process speakers switchDominant).1.audioParticipants = s.audioParticipants ∧
      ((s.process speakers switchDominant).2.1 = true →
        switchDominant = true ∧ ∃ rest,
          speakers.filter (fun e => s.audioParticipants.contains e) =
            (s.process speakers switchDominant).1.dominantSpeaker :: rest) ∧
      ((s.process speakers switchDominant).2.1 = false →
        (s.process speakers switchDominant).1.dominantSpeaker = s.dominantSpeaker) := by
  unfold ActiveMediaList.process
  dsimp only
  split
  · exact ⟨rfl, fun h => by simp at h, fun _ => rfl⟩
  · rename_i nominated rest hspeakers
    -- the audio half leaves every field but the audio ssrcs and list
    obtain ⟨q, m, l, hrun⟩ := run_updateActiveAudioList_eq_with s
      ((nominated :: rest).take s.audioLastN)
    rw [hspeakers, hrun]
    dsimp only
    split
    · rename_i hswitch
      have hvideo := videoOnly_updateActiveVideoList
        { s with
          audioSsrcs := q, audioSsrcRewriteMap := m, activeAudioList := l,
          dominantSpeaker := nominated } nominated
      have haudio := congrArg AudioView.audioParticipants hvideo.1
      refine ⟨haudio, fun _ => ⟨(Bool.and_eq_true _ _).mp hswitch |>.1, rest, ?_⟩,
        fun h => by simp at h⟩
      rw [hvideo.2.1]
    · exact ⟨rfl, fun h => by simp at h, fun _ => rfl⟩

theorem audioParticipants_addAudioParticipant (e : Nat) :
    (s.addAudioParticipant e).1.audioParticipants =
      if s.audioParticipants.contains e then s.audioParticipants
      else s.audioParticipants.emplace e () := by
  unfold addAudioParticipant onAudioParticipantAdded
  split
  · rfl
  · dsimp only
    -- the first participant becomes the dominant speaker; no step touches the participants
    split_ifs
    · unfold takeAudioSsrc
      split <;> rfl
    · unfold takeAudioSsrc
      split <;> rfl

theorem audioParticipants_removeAudioParticipant (e : Nat) :
    (s.removeAudioParticipant e).1.audioParticipants = s.audioParticipants.erase e := by
  unfold removeAudioParticipant
  dsimp only
  split <;> rfl

end ActiveMediaList

/-! ## The two participant maps agree -/

namespace LevelledMediaList

variable (s : LevelledMediaList)

/-- The participant map with the levels has the keys and the capacity of the model's
participant keys: the source has one map where the model has two. -/
structure MapsAgree : Prop where
  keys_eq : s.participantLevels.keys = s.audioParticipants.keys
  capacity_eq : s.participantLevels.capacity = s.audioParticipants.capacity

variable {s}

theorem MapsAgree.contains_eq (h : MapsAgree s) (e : Nat) :
    s.participantLevels.contains e = s.audioParticipants.contains e := by
  apply Bool.eq_iff_iff.mpr
  rw [BoundedMap.contains_iff, BoundedMap.contains_iff, h.keys_eq]

/-- Emplacing one key into maps that agree keeps them agreeing. -/
theorem MapsAgree.emplace {m : BoundedMap Nat AudioParticipant} {m' : BoundedMap Nat Unit}
    (hk : m.keys = m'.keys) (hc : m.capacity = m'.capacity) (e : Nat) (v : AudioParticipant) :
    (m.emplace e v).keys = (m'.emplace e ()).keys ∧ (m.emplace e v).capacity = (m'.emplace e ()).capacity := by
  rw [BoundedMap.keys_emplace_eq, BoundedMap.keys_emplace_eq, hk, hc]
  exact ⟨rfl, by rw [BoundedMap.capacity_emplace, BoundedMap.capacity_emplace, hc]⟩

theorem keys_updateLevels (t : BitVec 64) :
    (s.updateLevels t).participantLevels.keys = s.participantLevels.keys ∧
      (s.updateLevels t).participantLevels.capacity = s.participantLevels.capacity := by
  -- the first loop maps every value, the second modifies one value per queued level
  obtain ⟨hk, hc⟩ := BoundedMap.keys_foldl_modify
    (s.participantLevels.mapValues fun _ p => p.decay t) s.incomingAudioLevels
    AudioLevelEntry.participant fun entry => AudioParticipant.applyLevel t entry.level entry.ptt
  exact ⟨hk.trans (BoundedMap.keys_mapValues _ _), hc.trans (BoundedMap.capacity_mapValues _ _)⟩

/-- The heap yields its top first. -/
theorem heapOrder_of_top {ranked : List AudioParticipantScore} {x : AudioParticipantScore}
    (hx : (PartialSortExtractor.mk ranked).top AudioParticipantScore.score = some x) :
    ∃ rest, heapOrder ranked = x :: rest := by
  obtain ⟨n, hn⟩ : ∃ n, ranked.length = n + 1 :=
    Nat.exists_eq_add_one_of_ne_zero (List.length_pos_of_mem
      (PartialSortExtractor.top_mem hx)).ne'
  unfold heapOrder
  rw [hn, PartialSortExtractor.extract_succ_of_top hx]
  exact ⟨_, rfl⟩

/-! ## What `process` changes -/

section Process

variable (s : LevelledMediaList)

/-- The lists move, the participants and the levels stay, and the domination timestamp moves
exactly on a switch, which the switch conditions allowed, towards the first speaker in heap
order that is a participant. -/
theorem moveLists_spec (order : List AudioParticipantScore) (switchDominant : Bool)
    (t : BitVec 64) :
    (s.moveLists order switchDominant t).1.audioParticipants = s.audioParticipants ∧
    (s.moveLists order switchDominant t).1.participantLevels = s.participantLevels ∧
    (s.moveLists order switchDominant t).1.dominationTimestamp =
      (if (s.moveLists order switchDominant t).2.1 then t else s.dominationTimestamp) ∧
    ((s.moveLists order switchDominant t).2.1 = true → switchDominant = true ∧ ∃ rest,
      (order.map AudioParticipantScore.participant).filter (fun e => s.audioParticipants.contains e) =
        (s.moveLists order switchDominant t).1.dominantSpeaker :: rest) := by
  obtain ⟨hpart, hswitch, -⟩ := ActiveMediaList.process_spec s.toActiveMediaList
    (order.map AudioParticipantScore.participant) switchDominant
  unfold moveLists
  dsimp only
  split
  · rename_i h
    exact ⟨hpart, rfl, by simp, fun _ => hswitch h⟩
  · rename_i h
    exact ⟨hpart, rfl, by simp, fun h' => absurd h' h⟩

theorem nominate_eq (n : Nat) (t : BitVec 64) :
    ∃ ts n', s.nominate n t = { s with nominationTimestamp := ts, nominatedSpeaker := n' } := by
  unfold nominate
  split
  · exact ⟨_, _, rfl⟩
  · exact ⟨_, _, rfl⟩

theorem diffGT_of_switchAllowed {t : BitVec 64} (h : s.switchAllowed t = true) :
    Time.diffGT s.dominationTimestamp t minSpotlightDuration = true :=
  ((Bool.and_eq_true _ _).mp h).1

/-- The snapshot `process` publishes when the heap has a top. -/
def snapshotAfter : LevelledMediaList :=
  { s with
    activeTalkerSnapshot := snapshotLoop s.activeTalkerSilenceThresholdDb s.participantLevels
      ((heapOrder (rankSpeakers s.participantLevels)).take s.audioLastN) [] }

theorem processSpeakers_of_none {t : BitVec 64}
    (h : (PartialSortExtractor.mk (rankSpeakers s.participantLevels)).top
      AudioParticipantScore.score = none) :
    s.processSpeakers t = ({ s with activeTalkerSnapshot := [] }, false, false, false) := by
  simp only [processSpeakers, h]

theorem processSpeakers_of_some {t : BitVec 64} {x : AudioParticipantScore}
    (h : (PartialSortExtractor.mk (rankSpeakers s.participantLevels)).top
      AudioParticipantScore.score = some x) :
    s.processSpeakers t =
      if x.score = 0 then
        s.snapshotAfter.moveLists (heapOrder (rankSpeakers s.participantLevels)) false t
      else
        (s.snapshotAfter.nominate x.participant t).moveLists
          (heapOrder (rankSpeakers s.participantLevels))
          ((s.snapshotAfter.nominate x.participant t).switchAllowed t) t := by
  simp only [processSpeakers, h, snapshotAfter]

theorem processSpeakers_spec (t : BitVec 64) :
    (s.processSpeakers t).1.audioParticipants = s.audioParticipants ∧
    (s.processSpeakers t).1.participantLevels = s.participantLevels ∧
    (s.processSpeakers t).1.dominationTimestamp =
      (if (s.processSpeakers t).2.1 then t else s.dominationTimestamp) ∧
    ((s.processSpeakers t).2.1 = true →
      Time.diffGT s.dominationTimestamp t minSpotlightDuration = true ∧
      ∃ x rest, (PartialSortExtractor.mk (rankSpeakers s.participantLevels)).top
          AudioParticipantScore.score = some x ∧
        ((heapOrder (rankSpeakers s.participantLevels)).map
          AudioParticipantScore.participant).filter (fun e => s.audioParticipants.contains e) =
            (s.processSpeakers t).1.dominantSpeaker :: rest) := by
  cases hx : (PartialSortExtractor.mk (rankSpeakers s.participantLevels)).top
    AudioParticipantScore.score with
  | none =>
      rw [processSpeakers_of_none s hx]
      exact ⟨rfl, rfl, by simp, fun h => by simp at h⟩
  | some x =>
      rw [processSpeakers_of_some s hx]
      by_cases hz : x.score = 0
      · -- a silent top speaker: the lists move, nobody switches
        rw [if_pos hz]
        obtain ⟨h₁, h₂, h₃, h₄⟩ := moveLists_spec s.snapshotAfter
          (heapOrder (rankSpeakers s.participantLevels)) false t
        exact ⟨h₁, h₂, h₃, fun h => absurd (h₄ h).1 (by decide)⟩
      · rw [if_neg hz]
        obtain ⟨ts, n', hnom⟩ := nominate_eq s.snapshotAfter x.participant t
        rw [hnom]
        obtain ⟨h₁, h₂, h₃, h₄⟩ := moveLists_spec
          { s.snapshotAfter with nominationTimestamp := ts, nominatedSpeaker := n' }
          (heapOrder (rankSpeakers s.participantLevels))
          ({ s.snapshotAfter with nominationTimestamp := ts, nominatedSpeaker := n' }.switchAllowed t)
          t
        refine ⟨h₁, h₂, h₃, fun h => ?_⟩
        obtain ⟨hallowed, rest, hrest⟩ := h₄ h
        -- nominating leaves the domination timestamp as it was
        have hdiff := diffGT_of_switchAllowed _ hallowed
        exact ⟨hdiff, x, rest, rfl, hrest⟩

/-! ### The published snapshot -/

theorem activeTalkerSnapshot_moveLists (order : List AudioParticipantScore)
    (switchDominant : Bool) (t : BitVec 64) :
    (s.moveLists order switchDominant t).1.activeTalkerSnapshot = s.activeTalkerSnapshot := by
  unfold moveLists
  dsimp only
  split <;> rfl

/-- The heap yields every ranked speaker. -/
theorem heapOrder_perm (ranked : List AudioParticipantScore) : (heapOrder ranked).Perm ranked := by
  have hperm := @PartialSortExtractor.extract_perm _ _ _ AudioParticipantScore.score _
    ranked.length ⟨ranked⟩
  have hlen : (PartialSortExtractor.extract AudioParticipantScore.score ranked.length
      ⟨ranked⟩).1.length = ranked.length :=
    (@PartialSortExtractor.length_extract _ _ _ AudioParticipantScore.score _
      ranked.length ⟨ranked⟩).trans (Nat.min_self _)
  -- as many rounds as speakers leave the heap empty
  have hleft : (PartialSortExtractor.extract AudioParticipantScore.score ranked.length
      ⟨ranked⟩).2.heap = [] := by
    have hsum : _ = ranked.length := hperm.length_eq
    rw [List.length_append, hlen] at hsum
    exact List.eq_nil_of_length_eq_zero (by omega)
  rw [hleft, List.append_nil] at hperm
  exact hperm

/-- The heap yields the ranked speakers highest score first. -/
theorem heapOrder_sorted (ranked : List AudioParticipantScore) :
    (heapOrder ranked).Pairwise fun a b => b.score ≤ a.score :=
  (@PartialSortExtractor.extract_sorted _ _ _ AudioParticipantScore.score _
    ranked.length ⟨ranked⟩).1

/-- The snapshot loop keeps, in order, the speakers above the threshold, as many as fit. -/
theorem snapshotLoop_eq (threshold : Nat) (levels : BoundedMap Nat AudioParticipant) :
    ∀ (order : List AudioParticipantScore) (snapshot : List ActiveTalker),
      snapshot.length ≤ maxSnapshotSize →
      snapshotLoop threshold levels order snapshot = snapshot ++
        ((order.filter fun x : AudioParticipantScore => decide (x.score > threshold)).take
          (maxSnapshotSize - snapshot.length)).map (activeTalkerOf levels)
  | [], snapshot, _ => by simp [snapshotLoop]
  | top :: rest, snapshot, hle => by
      rw [snapshotLoop]
      by_cases hgt : top.score > threshold
      · rw [List.filter_cons_of_pos (by simpa using hgt)]
        by_cases hroom : snapshot.length < maxSnapshotSize
        · -- the speaker is added and the room left shrinks by one
          obtain ⟨k, hk⟩ : ∃ k, maxSnapshotSize - snapshot.length = k + 1 :=
            Nat.exists_eq_add_one_of_ne_zero (by omega)
          have hk' : maxSnapshotSize - (snapshot ++ [activeTalkerOf levels top]).length = k := by
            rw [List.length_append, List.length_singleton]
            omega
          rw [if_pos ⟨hgt, hroom⟩, snapshotLoop_eq threshold levels rest _ (by simp; omega), hk',
            hk, List.take_succ_cons, List.map_cons, List.append_assoc, List.singleton_append]
        · -- the snapshot is full: nothing more is added
          have hfull : maxSnapshotSize - snapshot.length = 0 := by omega
          rw [if_neg (fun h => hroom h.2), snapshotLoop_eq threshold levels rest _ hle, hfull]
          simp
      · rw [List.filter_cons_of_neg (by simpa using hgt), if_neg (fun h => hgt h.1)]
        exact snapshotLoop_eq threshold levels rest snapshot hle

/-- The snapshot `processSpeakers` publishes: the speakers above the silence threshold among
the first `audioLastN` the heap yields, as many as fit. -/
theorem activeTalkerSnapshot_processSpeakers (t : BitVec 64) :
    (s.processSpeakers t).1.activeTalkerSnapshot =
      ((((heapOrder (rankSpeakers s.participantLevels)).take s.audioLastN).filter
        fun x : AudioParticipantScore => decide (x.score > s.activeTalkerSilenceThresholdDb)).take maxSnapshotSize).map
          (activeTalkerOf s.participantLevels) := by
  cases hx : (PartialSortExtractor.mk (rankSpeakers s.participantLevels)).top
    AudioParticipantScore.score with
  | none =>
      have hnil : rankSpeakers s.participantLevels = [] := PartialSortExtractor.top_eq_none_iff.mp hx
      rw [processSpeakers_of_none s hx, hnil]
      simp [heapOrder, PartialSortExtractor.extract]
  | some x =>
      have hsnap : s.snapshotAfter.activeTalkerSnapshot = _ :=
        snapshotLoop_eq _ _ _ [] (Nat.zero_le _)
      rw [processSpeakers_of_some s hx]
      split
      · rw [activeTalkerSnapshot_moveLists, hsnap]
        simp
      · obtain ⟨ts, n', hnom⟩ := nominate_eq s.snapshotAfter x.participant t
        rw [hnom, activeTalkerSnapshot_moveLists]
        rw [show ({ s.snapshotAfter with nominationTimestamp := ts, nominatedSpeaker := n' } :
          LevelledMediaList).activeTalkerSnapshot = s.snapshotAfter.activeTalkerSnapshot from rfl,
          hsnap]
        simp

theorem process_spec (t : BitVec 64) :
    (s.process t).1.audioParticipants = s.audioParticipants ∧
    (s.process t).1.participantLevels.keys = s.participantLevels.keys ∧
    (s.process t).1.participantLevels.capacity = s.participantLevels.capacity ∧
    (s.process t).1.dominationTimestamp =
      (if (s.process t).2.1 then t else s.dominationTimestamp) ∧
    ((s.process t).2.1 = true →
      Time.diffGT s.dominationTimestamp t minSpotlightDuration = true ∧
      ∃ x rest, (PartialSortExtractor.mk (rankSpeakers (s.updateLevels t).participantLevels)).top
          AudioParticipantScore.score = some x ∧
        ((heapOrder (rankSpeakers (s.updateLevels t).participantLevels)).map
          AudioParticipantScore.participant).filter (fun e => s.audioParticipants.contains e) =
            (s.process t).1.dominantSpeaker :: rest) := by
  unfold process
  by_cases hskip : Time.diffLT s.lastRunTimestamp t interval = true
  · rw [if_pos hskip]
    exact ⟨rfl, rfl, rfl, by simp, fun h => by simp at h⟩
  · rw [if_neg hskip]
    -- the levels move on first; `processSpeakers` does the rest
    obtain ⟨hk, hc⟩ := @keys_updateLevels { s with lastRunTimestamp := t } t
    obtain ⟨h₁, h₂, h₃, h₄⟩ := processSpeakers_spec ({ s with lastRunTimestamp := t }.updateLevels t) t
    exact ⟨h₁, by rw [h₂]; exact hk, by rw [h₂]; exact hc, h₃, h₄⟩

/-- The snapshot a `process` call publishes when the interval has passed. -/
theorem activeTalkerSnapshot_process {t : BitVec 64}
    (hrun : Time.diffLT s.lastRunTimestamp t interval = false) :
    (s.process t).1.activeTalkerSnapshot =
      ((((heapOrder (rankSpeakers (s.updateLevels t).participantLevels)).take s.audioLastN).filter
        fun x : AudioParticipantScore => decide (x.score > s.activeTalkerSilenceThresholdDb)).take maxSnapshotSize).map
          (activeTalkerOf (s.updateLevels t).participantLevels) := by
  unfold process
  rw [if_neg (by simp [hrun]), activeTalkerSnapshot_processSpeakers]
  rfl

theorem process_snapshot_clears_ptt :
    (((((create [1] [] 2 1 18 0).addAudioParticipant 1).onNewAudioLevel 1 27 true).process
        (20 * Time.ms)).1.participantLevels.lookup 1).map AudioParticipant.ptt = some true ∧
      ((((create [1] [] 2 1 18 0).addAudioParticipant 1).onNewAudioLevel 1 27 true).process
        (20 * Time.ms)).1.activeTalkerSnapshot = [⟨1, false, 50, 50⟩] := by
  decide +kernel

end Process

/-- A ranked speaker is a participant. -/
theorem mem_keys_of_mem_rankSpeakers {levels : BoundedMap Nat AudioParticipant}
    {x : AudioParticipantScore} (hx : x ∈ rankSpeakers levels) : x.participant ∈ levels.keys := by
  obtain ⟨e, he, hex⟩ := List.mem_filterMap.mp hx
  split at hex
  · cases hex
  · cases hex
    exact List.mem_map.mpr ⟨e, he, rfl⟩

/-! ## The participant maps agree on every run -/

theorem mapsAgree_create (audioSsrcs : List (BitVec 32)) (videoSsrcs : List SimulcastGroup)
    (defaultLastN audioLastN activeTalkerSilenceThresholdDb : Nat)
    (nominationTimestamp : BitVec 64) :
    MapsAgree (create audioSsrcs videoSsrcs defaultLastN audioLastN activeTalkerSilenceThresholdDb
      nominationTimestamp) :=
  ⟨rfl, rfl⟩

/-- A call that leaves the model's participants and the levels' keys as they were. -/
theorem MapsAgree.of_eq {s' : LevelledMediaList} (h : MapsAgree s)
    (ha : s'.audioParticipants = s.audioParticipants)
    (hk : s'.participantLevels.keys = s.participantLevels.keys)
    (hc : s'.participantLevels.capacity = s.participantLevels.capacity) : MapsAgree s' :=
  ⟨by rw [ha, hk, h.keys_eq], by rw [ha, hc, h.capacity_eq]⟩

/-- A participant added to both maps, or to neither. -/
theorem MapsAgree.add (h : MapsAgree s) (e : Nat) (v : AudioParticipant) :
    MapsAgree (if s.participantLevels.contains e then s
      else { s with
        toActiveMediaList := (s.toActiveMediaList.addAudioParticipant e).1
        participantLevels := s.participantLevels.emplace e v }) := by
  by_cases hc : s.participantLevels.contains e = true
  · rw [if_pos hc]
    exact h
  · rw [if_neg hc]
    have hnot : s.audioParticipants.contains e = false := by
      rw [← h.contains_eq]
      exact Bool.eq_false_iff.mpr hc
    obtain ⟨hk, hcap⟩ := MapsAgree.emplace h.keys_eq h.capacity_eq e v
    refine ⟨?_, ?_⟩
    · show (s.participantLevels.emplace e v).keys =
        (s.toActiveMediaList.addAudioParticipant e).1.audioParticipants.keys
      rw [ActiveMediaList.audioParticipants_addAudioParticipant, hnot]
      exact hk
    · show (s.participantLevels.emplace e v).capacity =
        (s.toActiveMediaList.addAudioParticipant e).1.audioParticipants.capacity
      rw [ActiveMediaList.audioParticipants_addAudioParticipant, hnot]
      exact hcap

/-- **Every call changes both participant maps alike.** -/
theorem MapsAgree.step (h : MapsAgree s) (c : LevelledCall) : MapsAgree (s.step c).1 := by
  cases c with
  | addAudioParticipant e => exact h.add e AudioParticipant.create
  | addBarbellAudioParticipant e noiseLevel recentLevel =>
      exact h.add e (AudioParticipant.createBarbell noiseLevel recentLevel)
  | removeAudioParticipant e =>
      refine ⟨?_, ?_⟩
      · show (s.participantLevels.erase e).keys =
          (s.toActiveMediaList.removeAudioParticipant e).1.audioParticipants.keys
        rw [ActiveMediaList.audioParticipants_removeAudioParticipant, BoundedMap.keys_erase,
          BoundedMap.keys_erase, h.keys_eq]
      · show (s.participantLevels.erase e).capacity =
          (s.toActiveMediaList.removeAudioParticipant e).1.audioParticipants.capacity
        rw [ActiveMediaList.audioParticipants_removeAudioParticipant, BoundedMap.capacity_erase,
          BoundedMap.capacity_erase, h.capacity_eq]
  | addVideoParticipant e p =>
      exact h.of_eq (congrArg ActiveMediaList.AudioView.audioParticipants
        (ActiveMediaList.videoOnly_addVideoParticipant _ e p).1) rfl rfl
  | addBarbellVideoParticipant e p =>
      exact h.of_eq (congrArg ActiveMediaList.AudioView.audioParticipants
        (ActiveMediaList.videoOnly_addBarbellVideoParticipant _ e p).1) rfl rfl
  | removeVideoParticipant e =>
      exact h.of_eq (congrArg ActiveMediaList.AudioView.audioParticipants
        (ActiveMediaList.videoOnly_removeVideoParticipant _ e).1) rfl rfl
  | onNewAudioLevel e level ptt =>
      show MapsAgree (s.onNewAudioLevel e level ptt)
      unfold onNewAudioLevel
      -- only the queue of levels changes
      split
      · exact ⟨h.keys_eq, h.capacity_eq⟩
      · exact h
  | process t =>
      obtain ⟨h₁, h₂, h₃, -⟩ := process_spec s t
      exact h.of_eq h₁ h₂ h₃

theorem MapsAgree.run (h : MapsAgree s) (calls : List LevelledCall) :
    MapsAgree (Run.run LevelledMediaList.step s calls).1 :=
  Run.run_inv LevelledMediaList.step (P := MapsAgree) (fun _ c h' => h'.step c) s calls h

/-- **A switch goes to the top-ranked speaker**: the new dominant speaker is a ranked
speaker whose score no ranked speaker exceeds. -/
theorem MapsAgree.switch_top (h : MapsAgree s) {t : BitVec 64} (hsw : (s.process t).2.1 = true) :
    ∃ x ∈ rankSpeakers (s.updateLevels t).participantLevels,
      x.participant = (s.process t).1.dominantSpeaker ∧
      ∀ y ∈ rankSpeakers (s.updateLevels t).participantLevels, y.score ≤ x.score := by
  obtain ⟨-, -, -, -, hswitch⟩ := process_spec s t
  obtain ⟨-, x, rest, hx, hfilter⟩ := hswitch hsw
  obtain ⟨rest', horder⟩ := heapOrder_of_top hx
  -- every speaker the heap yields is a participant, so the filter keeps them all
  have hall : ∀ e ∈ (heapOrder (rankSpeakers (s.updateLevels t).participantLevels)).map
      AudioParticipantScore.participant, s.audioParticipants.contains e = true := by
    intro e he
    obtain ⟨y, hy, rfl⟩ := List.mem_map.mp he
    have hyr : y ∈ rankSpeakers (s.updateLevels t).participantLevels :=
      (PartialSortExtractor.extract_perm _ _).subset (List.mem_append_left _ hy)
    have hkey := mem_keys_of_mem_rankSpeakers hyr
    rw [(keys_updateLevels t).1, h.keys_eq] at hkey
    exact (BoundedMap.contains_iff _).mpr hkey
  rw [List.filter_eq_self.mpr (fun e he => hall e he), horder, List.map_cons] at hfilter
  refine ⟨x, PartialSortExtractor.top_mem hx, (List.cons.inj hfilter).1, fun y hy => ?_⟩
  exact PartialSortExtractor.le_top hx hy

/-! ## Switches are `minSpotlightDuration` apart -/

/-- The timestamps of the `process` calls among `reports`. -/
def processTimes (reports : List (Option (BitVec 64 × Bool))) : List (BitVec 64) :=
  reports.filterMap fun r => r.map Prod.fst

/-- The timestamps of the `process` calls that reported `outDominantSpeakerChanged`. -/
def switchTimes (reports : List (Option (BitVec 64 × Bool))) : List (BitVec 64) :=
  reports.filterMap fun r => r.bind fun r => if r.2 then some r.1 else none

@[simp] theorem processTimes_concat (reports : List (Option (BitVec 64 × Bool)))
    (r : Option (BitVec 64 × Bool)) :
    processTimes (reports ++ [r]) = processTimes reports ++ (r.map Prod.fst).toList := by
  cases r <;> simp [processTimes]

@[simp] theorem switchTimes_concat_none (reports : List (Option (BitVec 64 × Bool))) :
    switchTimes (reports ++ [none]) = switchTimes reports := by
  simp [switchTimes]

@[simp] theorem switchTimes_concat_some (reports : List (Option (BitVec 64 × Bool)))
    (t : BitVec 64) (changed : Bool) :
    switchTimes (reports ++ [some (t, changed)]) =
      switchTimes reports ++ (if changed then [t] else []) := by
  cases changed <;> simp [switchTimes]

/-- A call reports what a `process` call reports, with its timestamp, and nothing else. -/
theorem map_fst_step (c : LevelledCall) : (s.step c).2.map Prod.fst = c.timestamp? := by
  cases c <;> rfl

theorem processTimes_run (s : LevelledMediaList) (calls : List LevelledCall) :
    processTimes (Run.run step s calls).2 = calls.filterMap LevelledCall.timestamp? := by
  induction calls using List.reverseRecOn with
  | nil => rfl
  | append_singleton calls c ih =>
      rw [Run.run_concat_snd, processTimes_concat, ih, map_fst_step, List.filterMap_append]
      cases hc : c.timestamp? <;> simp [hc]

/-- A call other than `process` reports nothing and leaves the domination timestamp. -/
theorem step_of_timestamp_none {c : LevelledCall} (hc : c.timestamp? = none) :
    (s.step c).2 = none ∧ (s.step c).1.dominationTimestamp = s.dominationTimestamp := by
  cases c with
  | process t => cases hc
  | addAudioParticipant e =>
      refine ⟨rfl, ?_⟩
      show (s.addAudioParticipant e).dominationTimestamp = _
      unfold addAudioParticipant
      split <;> rfl
  | addBarbellAudioParticipant e noiseLevel recentLevel =>
      refine ⟨rfl, ?_⟩
      show (s.addBarbellAudioParticipant e noiseLevel recentLevel).dominationTimestamp = _
      unfold addBarbellAudioParticipant
      split <;> rfl
  | onNewAudioLevel e level ptt =>
      refine ⟨rfl, ?_⟩
      show (s.onNewAudioLevel e level ptt).dominationTimestamp = _
      unfold onNewAudioLevel
      split <;> rfl
  | removeAudioParticipant e => exact ⟨rfl, rfl⟩
  | addVideoParticipant e p => exact ⟨rfl, rfl⟩
  | addBarbellVideoParticipant e p => exact ⟨rfl, rfl⟩
  | removeVideoParticipant e => exact ⟨rfl, rfl⟩

theorem eq_process_of_timestamp {c : LevelledCall} {t : BitVec 64} (hc : c.timestamp? = some t) :
    c = .process t := by
  cases c <;> simp_all [LevelledCall.timestamp?]

/-- What carries the spacing of the switches over a run: the switches reported so far are
`minSpotlightDuration` apart and none is after the domination timestamp, which is still its
initial `0` or the timestamp of a `process` call made so far. -/
structure SwitchesApart (s : LevelledMediaList) (reports : List (Option (BitVec 64 × Bool))) :
    Prop where
  apart : (switchTimes reports).Pairwise fun a b => a.toNat + minSpotlightDuration.toNat < b.toNat
  le_domination : ∀ a ∈ switchTimes reports, a.toNat ≤ s.dominationTimestamp.toNat
  domination_seen : s.dominationTimestamp = 0 ∨ s.dominationTimestamp ∈ processTimes reports

theorem switchesApart_create (audioSsrcs : List (BitVec 32)) (videoSsrcs : List SimulcastGroup)
    (defaultLastN audioLastN activeTalkerSilenceThresholdDb : Nat)
    (nominationTimestamp : BitVec 64) :
    SwitchesApart (create audioSsrcs videoSsrcs defaultLastN audioLastN
      activeTalkerSilenceThresholdDb nominationTimestamp) [] :=
  ⟨List.Pairwise.nil, fun _ ha => absurd ha List.not_mem_nil, Or.inl rfl⟩

/-- A `process` call no earlier than the `process` calls before it keeps the switches apart:
a switch needs `diffGT` past the domination timestamp, which is no later than this call. -/
theorem SwitchesApart.process {reports : List (Option (BitVec 64 × Bool))}
    (h : SwitchesApart s reports) (t : BitVec 64)
    (hmono : ∀ b ∈ processTimes reports, b.toNat ≤ t.toNat) :
    SwitchesApart (s.process t).1 (reports ++ [some (t, (s.process t).2.1)]) := by
  obtain ⟨-, -, -, hdom, hswitch⟩ := process_spec s t
  have hdom_le : s.dominationTimestamp.toNat ≤ t.toNat := by
    rcases h.domination_seen with h0 | hseen
    · rw [h0]
      exact Nat.zero_le _
    · exact hmono _ hseen
  cases hc : (s.process t).2.1 with
  | false =>
      rw [hc, if_neg Bool.false_ne_true] at hdom
      refine ⟨?_, ?_, ?_⟩
      · simpa using h.apart
      · simpa [hdom] using h.le_domination
      · rw [hdom, processTimes_concat]
        rcases h.domination_seen with h0 | hseen
        · exact Or.inl h0
        · exact Or.inr (List.mem_append_left _ hseen)
  | true =>
      rw [hc, if_pos rfl] at hdom
      -- the domination timestamp plus the spotlight duration is before `t`
      have hlt := Time.add_lt_of_diffGT (hswitch hc).1 hdom_le (by decide)
      refine ⟨?_, ?_, ?_⟩
      · rw [switchTimes_concat_some, if_pos rfl]
        refine List.pairwise_append.mpr ⟨h.apart, List.pairwise_singleton _ _, ?_⟩
        intro a ha b hb
        rw [List.mem_singleton.mp hb]
        have := h.le_domination a ha
        omega
      · rw [hdom, switchTimes_concat_some, if_pos rfl]
        intro a ha
        rcases List.mem_append.mp ha with ha | ha
        · have := h.le_domination a ha
          omega
        · rw [List.mem_singleton.mp ha]
      · right
        rw [hdom, processTimes_concat]
        simp

theorem SwitchesApart.step {reports : List (Option (BitVec 64 × Bool))}
    (h : SwitchesApart s reports) (c : LevelledCall)
    (hmono : ∀ t, c.timestamp? = some t → ∀ b ∈ processTimes reports, b.toNat ≤ t.toNat) :
    SwitchesApart (s.step c).1 (reports ++ [(s.step c).2]) := by
  cases hc : c.timestamp? with
  | none =>
      obtain ⟨hr, hd⟩ := step_of_timestamp_none hc
      rw [hr]
      refine ⟨?_, ?_, ?_⟩
      · simpa using h.apart
      · simpa [hd] using h.le_domination
      · simpa [hd] using h.domination_seen
  | some t =>
      rw [eq_process_of_timestamp hc]
      exact h.process t (hmono t hc)

/-- **Run lemma**: over calls whose `process` timestamps do not go back, the switches stay
`minSpotlightDuration` apart. -/
theorem switchesApart_run {s : LevelledMediaList} (h : SwitchesApart s []) (calls : List LevelledCall)
    (hmono : (calls.filterMap LevelledCall.timestamp?).Pairwise fun a b => a.toNat ≤ b.toNat) :
    SwitchesApart (Run.run step s calls).1 (Run.run step s calls).2 := by
  induction calls using List.reverseRecOn with
  | nil => exact h
  | append_singleton calls c ih =>
      rw [List.filterMap_append, List.pairwise_append] at hmono
      obtain ⟨hpre, -, hlast⟩ := hmono
      rw [Run.run_concat_fst, Run.run_concat_snd]
      refine (ih hpre).step c fun t ht b hb => ?_
      rw [processTimes_run] at hb
      exact hlast b hb t (by simp [ht])

/-- From the model's initial state, over any calls whose `process` timestamps do not go back,
the `process` calls that report a new dominant speaker are more than `minSpotlightDuration`
apart, and a `process` call reports a change only to a speaker that ranks highest by score. -/
theorem dominant_switches_spaced_to_top (audioSsrcs : List (BitVec 32))
    (videoSsrcs : List SimulcastGroup) (defaultLastN audioLastN activeTalkerSilenceThresholdDb : Nat)
    (nominationTimestamp : BitVec 64) (calls : List LevelledCall)
    (hmono : (calls.filterMap LevelledCall.timestamp?).Pairwise fun a b => a.toNat ≤ b.toNat) :
    let r := Run.run step (create audioSsrcs videoSsrcs defaultLastN audioLastN
      activeTalkerSilenceThresholdDb nominationTimestamp) calls
    (switchTimes r.2).Pairwise (fun a b => a.toNat + minSpotlightDuration.toNat < b.toNat) ∧
    ∀ t, (r.1.process t).2.1 = true →
      ∃ x ∈ rankSpeakers (r.1.updateLevels t).participantLevels,
        x.participant = (r.1.process t).1.dominantSpeaker ∧
        ∀ y ∈ rankSpeakers (r.1.updateLevels t).participantLevels, y.score ≤ x.score := by
  intro r
  have hagree : MapsAgree r.1 := (mapsAgree_create audioSsrcs videoSsrcs defaultLastN audioLastN
    activeTalkerSilenceThresholdDb nominationTimestamp).run calls
  have hapart : SwitchesApart r.1 r.2 := switchesApart_run (switchesApart_create audioSsrcs
    videoSsrcs defaultLastN audioLastN activeTalkerSilenceThresholdDb nominationTimestamp) calls hmono
  exact ⟨hapart.apart, fun t hsw => hagree.switch_top hsw⟩

theorem dominant_switches_spaced_to_top_on_calls :
    ([LevelledCall.addAudioParticipant 1, .onNewAudioLevel 1 27 false, .process (3 * Time.sec),
      .process (6 * Time.sec)].filterMap LevelledCall.timestamp?).Pairwise
        (fun a b => a.toNat ≤ b.toNat) ∧
    let r := Run.run step (create [1] [] 2 1 18 0) [LevelledCall.addAudioParticipant 1,
      .onNewAudioLevel 1 27 false, .process (3 * Time.sec), .process (6 * Time.sec)]
    (switchTimes r.2).Pairwise (fun a b => a.toNat + minSpotlightDuration.toNat < b.toNat) ∧
    ∀ t, (r.1.process t).2.1 = true →
      ∃ x ∈ rankSpeakers (r.1.updateLevels t).participantLevels,
        x.participant = (r.1.process t).1.dominantSpeaker ∧
        ∀ y ∈ rankSpeakers (r.1.updateLevels t).participantLevels, y.score ≤ x.score :=
  ⟨by decide, dominant_switches_spaced_to_top [1] [] 2 1 18 0 _ (by decide)⟩

end LevelledMediaList

end MediaBridge.Bridge
