import MediaBridge.Bridge.VideoMissingPacketsTracker
import MediaBridge.Rtp.RtcpNack
import MediaBridge.Lib.Run

set_option autoImplicit false

/-! # The jobs around `VideoMissingPacketsTracker`

For one inbound video ssrc, `VideoForwarderReceiveJob::run` tracks losses: the first packet
creates the tracker, a key frame resets it, the next packet in order and a packet from the past
are reported as arrived, and a jump forward reports the skipped numbers as missing, or resets
the tracker when 128 or more were skipped. `ProcessMissingVideoPacketsJob::run` asks the tracker
for the numbers to NACK and sends them in one NACK built by `RtcpNackBuilder`.

Over every run of the two jobs the tracker keeps its invariant (`run_wellFormed`). A NACK asks
only for numbers the tracker charged in the same job (`run_nack_sound`), and for every one of
them unless the builder filled all its sixteen infos and refused the rest
(`run_nack_complete_or_full`): those were charged a NACK that was never sent. The assertion
`missingCount < maxMissingPackets` in `process` fails on a reachable state: 128 numbers skipped
in two jumps, 31 ms later (`burst_process_fills`).
-/

namespace MediaBridge.Bridge

open Buffer Memory MediaBridge.Rtp VideoMissingPacketsTracker

/-- The fields of `SsrcInboundContext` the two jobs use. -/
structure SsrcInboundContext where
  lastReceivedExtendedSequenceNumber : BitVec 32
  videoMissingPacketsTracker : Option VideoMissingPacketsTracker

/-- `SsrcInboundContext(...)`: no packet yet, no tracker. -/
def SsrcInboundContext.create : SsrcInboundContext := ⟨0, none⟩

/-! ## `VideoForwarderReceiveJob::run` -/

namespace VideoForwarderReceiveJob

/-- The loop over the skipped numbers, `count` of them from `missingSequenceNumber`; it stops at
the first that `onMissingPacket` refuses. -/
def onMissingPacketsLoop (tracker : VideoMissingPacketsTracker) (missingSequenceNumber : BitVec 32)
    (timestamp : BitVec 64) : Nat → VideoMissingPacketsTracker
  | 0 => tracker
  | count + 1 =>
      match tracker.onMissingPacket missingSequenceNumber timestamp with
      | (tracker, true) => onMissingPacketsLoop tracker (missingSequenceNumber + 1) timestamp count
      | (tracker, false) => tracker

/-- The loss tracking of `VideoForwarderReceiveJob::run` for a packet with extended sequence
number `extendedSequenceNumber`, received at `timestamp`. The RTP sequence number is its low 16
bits. -/
def run (ctx : SsrcInboundContext) (extendedSequenceNumber : BitVec 32) (timestamp : BitVec 64)
    (isKeyFrame : Bool) : SsrcInboundContext :=
  -- the first packet creates the tracker as if the packet before it had arrived
  let (lastReceived, tracker) := match ctx.videoMissingPacketsTracker with
    | none => (extendedSequenceNumber - 1, VideoMissingPacketsTracker.create)
    | some tracker =>
        (ctx.lastReceivedExtendedSequenceNumber, if isKeyFrame then tracker.reset else tracker)
  let sequenceNumber := extendedSequenceNumber.setWidth 16
  let sequenceAdvance := (extendedSequenceNumber - lastReceived).toInt
  if sequenceAdvance = 1 then
    ⟨extendedSequenceNumber, some (tracker.onPacketArrived sequenceNumber).1⟩
  else if sequenceAdvance ≤ 0 then
    ⟨lastReceived, some (tracker.onPacketArrived sequenceNumber).1⟩
  else if (extendedSequenceNumber - lastReceived).toNat ≥ maxMissingPackets then
    ⟨extendedSequenceNumber, some tracker.reset⟩
  else
    ⟨extendedSequenceNumber, some (onMissingPacketsLoop tracker (lastReceived + 1) timestamp
      ((extendedSequenceNumber - lastReceived).toNat - 1))⟩

/-- Entries after the loop: the old ones, and one per skipped number it added. -/
theorem mem_onMissingPacketsLoop {tracker : VideoMissingPacketsTracker} {first : BitVec 32}
    {timestamp : BitVec 64} {count : Nat} {x : BitVec 16 × Entry}
    (h : x ∈ (onMissingPacketsLoop tracker first timestamp count).missingPackets.entries) :
    x ∈ tracker.missingPackets.entries ∨ ∃ i < count,
      x = ((first + BitVec.ofNat 32 i).setWidth 16,
        ⟨timestamp, timestamp - 5 * Time.sec, 0, first + BitVec.ofNat 32 i⟩) := by
  induction count generalizing tracker first with
  | zero => exact .inl h
  | succ count ih =>
      have hfirst : first = first + BitVec.ofNat 32 0 := (BitVec.add_zero first).symm
      -- the number added in this round is `first + 0`
      have hadd : ∀ y, y ∈ (tracker.onMissingPacket first timestamp).1.missingPackets.entries →
          y ∈ tracker.missingPackets.entries ∨ ∃ i < count + 1,
            y = ((first + BitVec.ofNat 32 i).setWidth 16,
              ⟨timestamp, timestamp - 5 * Time.sec, 0, first + BitVec.ofNat 32 i⟩) := by
        intro y hy
        rcases mem_onMissingPacket tracker hy with hy | rfl
        · exact .inl hy
        · exact .inr ⟨0, by omega, by rw [← hfirst]⟩
      unfold onMissingPacketsLoop at h
      split at h
      · rename_i tracker' heq
        have hmem := ih h
        rw [show tracker' = (tracker.onMissingPacket first timestamp).1 by rw [heq]] at hmem
        rcases hmem with hx | ⟨i, hi, rfl⟩
        · exact hadd x hx
        · refine .inr ⟨i + 1, by omega, ?_⟩
          rw [show first + 1 + BitVec.ofNat 32 i = first + BitVec.ofNat 32 (i + 1) by bv_omega]
      · rename_i tracker' heq
        exact hadd x (by rw [heq]; exact h)

/-- **With room and fresh keys, the loop adds every skipped number.** -/
theorem onMissingPacketsLoop_size (tracker : VideoMissingPacketsTracker) (first : BitVec 32)
    (timestamp : BitVec 64) (count : Nat)
    (hroom : tracker.missingPackets.size + count ≤ maxMissingPackets) (hcount : count ≤ 65536)
    (hfresh : ∀ i < count, tracker.missingPackets.contains ((first + BitVec.ofNat 32 i).setWidth 16) = false) :
    (onMissingPacketsLoop tracker first timestamp count).missingPackets.size =
      tracker.missingPackets.size + count := by
  induction count generalizing tracker first with
  | zero => rfl
  | succ count ih =>
      have hfresh0 : tracker.missingPackets.contains (first.setWidth 16) = false := by
        have := hfresh 0 (by omega)
        rwa [BitVec.add_zero] at this
      obtain ⟨hok, hsize⟩ := onMissingPacket_add tracker timestamp (by omega) hfresh0
      -- the keys after this round: the old ones and `first`'s
      have hfresh' : ∀ i < count, (tracker.onMissingPacket first timestamp).1.missingPackets.contains
          ((first + 1 + BitVec.ofNat 32 i).setWidth 16) = false := by
        intro i hi
        rw [Bool.eq_false_iff]
        intro hc
        obtain ⟨⟨k, v⟩, hmem, hk⟩ := List.mem_map.mp ((Map.contains_iff _).mp hc)
        dsimp only at hk
        rcases mem_onMissingPacket tracker hmem with hmem | heq
        · have hold := hfresh (i + 1) (by omega)
          rw [show first + BitVec.ofNat 32 (i + 1) = first + 1 + BitVec.ofNat 32 i by bv_omega] at hold
          rw [← hk, (Map.contains_iff _).mpr (List.mem_map_of_mem hmem)] at hold
          cases hold
        · rw [Prod.mk.injEq] at heq
          rw [heq.1] at hk
          -- `first + 1 + i` and `first` differ below bit 16
          have : (first + 1 + BitVec.ofNat 32 i).setWidth 16 ≠ first.setWidth 16 := by
            bv_omega
          exact this hk.symm
      unfold onMissingPacketsLoop
      split
      · rename_i tracker' heq
        have ht : tracker' = (tracker.onMissingPacket first timestamp).1 := by rw [heq]
        subst ht
        rw [ih _ _ (by omega) (by omega) hfresh', hsize]
        omega
      · rename_i tracker' heq
        rw [heq] at hok
        cases hok

/-- **The first packet** creates the tracker and becomes the last one received. -/
theorem run_first {ctx : SsrcInboundContext} (h : ctx.videoMissingPacketsTracker = none)
    (extendedSequenceNumber : BitVec 32) (timestamp : BitVec 64) (isKeyFrame : Bool) :
    run ctx extendedSequenceNumber timestamp isKeyFrame =
      ⟨extendedSequenceNumber, some VideoMissingPacketsTracker.create⟩ := by
  have hadv : (extendedSequenceNumber - (extendedSequenceNumber - 1)).toInt = 1 := by
    rw [show extendedSequenceNumber - (extendedSequenceNumber - 1) = 1 by bv_omega]
    decide
  have hnone : VideoMissingPacketsTracker.create.missingPackets.getItem (extendedSequenceNumber.setWidth 16) = none := by
    simp [VideoMissingPacketsTracker.create, Map.getItem]
  unfold run
  rw [h]
  dsimp only
  rw [if_pos hadv, onPacketArrived, hnone]

/-- **A jump forward by fewer than `maxMissingPackets`** reports the numbers in between missing. -/
theorem run_loss {ctx : SsrcInboundContext} {tracker : VideoMissingPacketsTracker}
    (h : ctx.videoMissingPacketsTracker = some tracker) {extendedSequenceNumber : BitVec 32}
    (timestamp : BitVec 64)
    (hgap : 1 < (extendedSequenceNumber - ctx.lastReceivedExtendedSequenceNumber).toNat)
    (hroom : (extendedSequenceNumber - ctx.lastReceivedExtendedSequenceNumber).toNat < maxMissingPackets) :
    run ctx extendedSequenceNumber timestamp false =
      ⟨extendedSequenceNumber, some (onMissingPacketsLoop tracker (ctx.lastReceivedExtendedSequenceNumber + 1)
        timestamp ((extendedSequenceNumber - ctx.lastReceivedExtendedSequenceNumber).toNat - 1))⟩ := by
  have hmax : maxMissingPackets = 128 := rfl
  -- a forward jump of fewer than `2 ^ 31` is positive as a signed difference
  have hint : (extendedSequenceNumber - ctx.lastReceivedExtendedSequenceNumber).toInt =
      (extendedSequenceNumber - ctx.lastReceivedExtendedSequenceNumber).toNat :=
    BitVec.toInt_eq_toNat_of_lt (by omega)
  unfold run
  rw [h]
  dsimp only
  rw [if_neg (by omega), if_neg (by omega), if_neg (by omega)]
  rfl

theorem onMissingPacketsLoop_wellFormed {tracker : VideoMissingPacketsTracker} (h : WellFormed tracker)
    (first : BitVec 32) (timestamp : BitVec 64) (count : Nat) :
    WellFormed (onMissingPacketsLoop tracker first timestamp count) := by
  induction count generalizing tracker first with
  | zero => exact h
  | succ count ih =>
      unfold onMissingPacketsLoop
      split
      · rename_i tracker' heq
        have ht : tracker' = (tracker.onMissingPacket first timestamp).1 := by rw [heq]
        subst ht
        exact ih (h.onMissingPacket first timestamp) (first + 1)
      · rename_i tracker' heq
        have ht : tracker' = (tracker.onMissingPacket first timestamp).1 := by rw [heq]
        subst ht
        exact h.onMissingPacket first timestamp

/-- The receive job keeps the tracker's invariant. -/
theorem run_wellFormed {ctx : SsrcInboundContext}
    (h : ∀ t, ctx.videoMissingPacketsTracker = some t → WellFormed t)
    (extendedSequenceNumber : BitVec 32) (timestamp : BitVec 64) (isKeyFrame : Bool) :
    ∀ t, (run ctx extendedSequenceNumber timestamp isKeyFrame).videoMissingPacketsTracker = some t →
      WellFormed t := by
  -- the tracker the branches start from is well formed
  have hstart : ∀ t, (match ctx.videoMissingPacketsTracker with
      | none => (extendedSequenceNumber - 1, VideoMissingPacketsTracker.create)
      | some tracker => (ctx.lastReceivedExtendedSequenceNumber,
          if isKeyFrame then tracker.reset else tracker)).2 = t → WellFormed t := by
    intro t ht
    split at ht
    · subst ht
      exact wellFormed_create
    · rename_i tracker htr
      subst ht
      split
      · exact (h tracker htr).reset
      · exact h tracker htr
  unfold run
  generalize (match ctx.videoMissingPacketsTracker with
      | none => (extendedSequenceNumber - 1, VideoMissingPacketsTracker.create)
      | some tracker => (ctx.lastReceivedExtendedSequenceNumber,
          if isKeyFrame then tracker.reset else tracker)) = start at hstart ⊢
  obtain ⟨lastReceived, tracker⟩ := start
  have ht := hstart tracker rfl
  dsimp only
  intro t
  split
  · intro h'; cases h'; exact ht.onPacketArrived _
  · split
    · intro h'; cases h'; exact ht.onPacketArrived _
    · split
      · intro h'; cases h'; exact ht.reset
      · intro h'; cases h'; exact onMissingPacketsLoop_wellFormed ht _ _ _

end VideoForwarderReceiveJob

/-! ## `ProcessMissingVideoPacketsJob::run` -/

namespace ProcessMissingVideoPacketsJob

/-- The loop over the numbers to NACK: each appended in turn, stopping at the first the builder
refuses. -/
def appendSequenceNumbers (rtcpNackBuilder : RtcpNackBuilder) : List (BitVec 16) → RtcpNackBuilder
  | [] => rtcpNackBuilder
  | sequenceNumber :: rest =>
      match rtcpNackBuilder.appendSequenceNumber sequenceNumber with
      | (rtcpNackBuilder, true) => appendSequenceNumbers rtcpNackBuilder rest
      | (rtcpNackBuilder, false) => rtcpNackBuilder

/-- `ProcessMissingVideoPacketsJob::run` at `timestamp`, with the sender's round trip time
`rttNs`: the context after, the numbers `process` charged, and the NACK sent, if any (a packet
the allocator cannot give is not modelled). -/
def run (ctx : SsrcInboundContext) (reporterSsrc ssrc : BitVec 32) (timestamp : BitVec 64)
    (rttNs : BitVec 32) : SsrcInboundContext × List (BitVec 16) × Option Bytes :=
  match ctx.videoMissingPacketsTracker with
  | none => (ctx, [], none)
  | some tracker =>
      let (tracker, missingSequenceNumbers) := tracker.process timestamp rttNs
      let ctx := { ctx with videoMissingPacketsTracker := some tracker }
      if missingSequenceNumbers.length = 0 then (ctx, [], none)
      else
        (ctx, missingSequenceNumbers,
          some (appendSequenceNumbers (RtcpNackBuilder.create reporterSsrc ssrc) missingSequenceNumbers).build)

/-- Appending never drops what an info already asks for. -/
theorem requests_appendSequenceNumbers_of_mem {b : RtcpNackBuilder} {ss : List (BitVec 16)} {x : BitVec 16}
    (h : x ∈ requests b.pids) : x ∈ requests (appendSequenceNumbers b ss).pids := by
  induction ss generalizing b with
  | nil => exact h
  | cons s rest ih =>
      unfold appendSequenceNumbers
      split
      · rename_i b' heq
        have hok : (b.appendSequenceNumber s).2 = true := by rw [heq]
        have hb : b' = (b.appendSequenceNumber s).1 := by rw [heq]
        subst hb
        exact ih ((RtcpNackBuilder.appendSequenceNumber_requests hok x).mpr (.inl h))
      · rename_i b' heq
        have hno : (b.appendSequenceNumber s).2 = false := by rw [heq]
        have hb : b' = (b.appendSequenceNumber s).1 := by rw [heq]
        rw [hb, (RtcpNackBuilder.appendSequenceNumber_refused hno).1]
        exact h

/-- **The NACK asks only for what was appended.** -/
theorem requests_appendSequenceNumbers {b : RtcpNackBuilder} {ss : List (BitVec 16)} {x : BitVec 16}
    (h : x ∈ requests (appendSequenceNumbers b ss).pids) : x ∈ requests b.pids ∨ x ∈ ss := by
  induction ss generalizing b with
  | nil => exact .inl h
  | cons s rest ih =>
      unfold appendSequenceNumbers at h
      split at h
      · rename_i b' heq
        have hok : (b.appendSequenceNumber s).2 = true := by rw [heq]
        have hb : b' = (b.appendSequenceNumber s).1 := by rw [heq]
        subst hb
        rcases ih h with hx | hx
        · rcases (RtcpNackBuilder.appendSequenceNumber_requests hok x).mp hx with hx | rfl
          · exact .inl hx
          · exact .inr List.mem_cons_self
        · exact .inr (List.mem_cons_of_mem _ hx)
      · rename_i b' heq
        have hno : (b.appendSequenceNumber s).2 = false := by rw [heq]
        have hb : b' = (b.appendSequenceNumber s).1 := by rw [heq]
        rw [hb, (RtcpNackBuilder.appendSequenceNumber_refused hno).1] at h
        exact .inl h

/-- **Every appended number is asked for, unless the builder filled its sixteen infos.** -/
theorem requests_appendSequenceNumbers_or_full {b : RtcpNackBuilder} {ss : List (BitVec 16)} {x : BitVec 16}
    (h : x ∈ ss) :
    x ∈ requests (appendSequenceNumbers b ss).pids ∨ (appendSequenceNumbers b ss).pids.length = maxPids := by
  induction ss generalizing b with
  | nil => cases h
  | cons s rest ih =>
      unfold appendSequenceNumbers
      split
      · rename_i b' heq
        have hok : (b.appendSequenceNumber s).2 = true := by rw [heq]
        have hb : b' = (b.appendSequenceNumber s).1 := by rw [heq]
        subst hb
        rcases List.mem_cons.mp h with rfl | h
        · exact .inl (requests_appendSequenceNumbers_of_mem
            ((RtcpNackBuilder.appendSequenceNumber_requests hok x).mpr (.inr rfl)))
        · exact ih h
      · rename_i b' heq
        have hno : (b.appendSequenceNumber s).2 = false := by rw [heq]
        have hb : b' = (b.appendSequenceNumber s).1 := by rw [heq]
        rw [hb, (RtcpNackBuilder.appendSequenceNumber_refused hno).1]
        exact .inr (RtcpNackBuilder.appendSequenceNumber_refused hno).2.1

/-- What a job run sends: the NACK of the numbers `process` charged. -/
theorem run_nack {ctx : SsrcInboundContext} {reporterSsrc ssrc : BitVec 32} {timestamp : BitVec 64}
    {rttNs : BitVec 32} {nack : Bytes} (h : (run ctx reporterSsrc ssrc timestamp rttNs).2.2 = some nack) :
    nack = (appendSequenceNumbers (RtcpNackBuilder.create reporterSsrc ssrc)
      (run ctx reporterSsrc ssrc timestamp rttNs).2.1).build := by
  revert h
  unfold run
  split
  · intro h
    cases h
  · dsimp only
    split
    · intro h
      cases h
    · intro h
      cases h
      rfl

/-- **A NACK asks only for numbers charged in the same job.** -/
theorem run_nack_sound {ctx : SsrcInboundContext} {reporterSsrc ssrc : BitVec 32} {timestamp : BitVec 64}
    {rttNs : BitVec 32} {nack : Bytes} (h : (run ctx reporterSsrc ssrc timestamp rttNs).2.2 = some nack)
    {x : BitVec 16} (hx : x ∈ requestedBy nack) : x ∈ (run ctx reporterSsrc ssrc timestamp rttNs).2.1 := by
  rw [run_nack h, RtcpNackBuilder.requestedBy_build] at hx
  rcases requests_appendSequenceNumbers hx with hx | hx
  · simp [RtcpNackBuilder.create, requests] at hx
  · exact hx

/-- **A NACK asks for every number charged in the same job, unless it has sixteen infos.** -/
theorem run_nack_complete_or_full {ctx : SsrcInboundContext} {reporterSsrc ssrc : BitVec 32}
    {timestamp : BitVec 64} {rttNs : BitVec 32} {nack : Bytes}
    (h : (run ctx reporterSsrc ssrc timestamp rttNs).2.2 = some nack) {x : BitVec 16}
    (hx : x ∈ (run ctx reporterSsrc ssrc timestamp rttNs).2.1) :
    x ∈ requestedBy nack ∨ getNumFeedbackControlInfos nack = maxPids := by
  rw [run_nack h, RtcpNackBuilder.requestedBy_build, RtcpNackBuilder.getNumFeedbackControlInfos_build]
  exact requests_appendSequenceNumbers_or_full hx

/-- The numbers a job run charges are those `process` returns. -/
theorem run_charged {ctx : SsrcInboundContext} {tracker : VideoMissingPacketsTracker}
    (h : ctx.videoMissingPacketsTracker = some tracker) (reporterSsrc ssrc : BitVec 32) (timestamp : BitVec 64)
    (rttNs : BitVec 32) : (run ctx reporterSsrc ssrc timestamp rttNs).2.1 = (tracker.process timestamp rttNs).2 := by
  unfold run
  rw [h]
  dsimp only
  split
  · rename_i hzero
    exact (List.eq_nil_of_length_eq_zero hzero).symm
  · rfl

/-- The job keeps the tracker's invariant. -/
theorem run_wellFormed {ctx : SsrcInboundContext}
    (h : ∀ t, ctx.videoMissingPacketsTracker = some t → WellFormed t) (reporterSsrc ssrc : BitVec 32)
    (timestamp : BitVec 64) (rttNs : BitVec 32) :
    ∀ t, (run ctx reporterSsrc ssrc timestamp rttNs).1.videoMissingPacketsTracker = some t → WellFormed t := by
  unfold run
  split
  · exact h
  · rename_i tracker htr
    dsimp only
    split <;>
    · intro t ht
      cases ht
      exact (h tracker htr).process timestamp rttNs

end ProcessMissingVideoPacketsJob

/-! ## Runs of the two jobs -/

/-- The jobs that touch the tracker of one inbound ssrc. -/
inductive MissingPacketsJob where
  | receive (extendedSequenceNumber : BitVec 32) (timestamp : BitVec 64) (isKeyFrame : Bool)
  | processMissing (timestamp : BitVec 64) (rttNs : BitVec 32)

namespace MissingPacketsJob

/-- One job on the context: the context after, and for `ProcessMissingVideoPacketsJob` the
numbers charged and the NACK sent. -/
def step (reporterSsrc ssrc : BitVec 32) (ctx : SsrcInboundContext) :
    MissingPacketsJob → SsrcInboundContext × (List (BitVec 16) × Option Bytes)
  | receive extendedSequenceNumber timestamp isKeyFrame =>
      (VideoForwarderReceiveJob.run ctx extendedSequenceNumber timestamp isKeyFrame, [], none)
  | processMissing timestamp rttNs => ProcessMissingVideoPacketsJob.run ctx reporterSsrc ssrc timestamp rttNs

/-- The tracker of the context, if there is one, is well formed. -/
def TrackerWellFormed (ctx : SsrcInboundContext) : Prop :=
  ∀ t, ctx.videoMissingPacketsTracker = some t → WellFormed t

theorem step_wellFormed {ctx : SsrcInboundContext} (h : TrackerWellFormed ctx) (reporterSsrc ssrc : BitVec 32)
    (job : MissingPacketsJob) : TrackerWellFormed (step reporterSsrc ssrc ctx job).1 := by
  cases job with
  | receive extendedSequenceNumber timestamp isKeyFrame =>
      exact VideoForwarderReceiveJob.run_wellFormed h extendedSequenceNumber timestamp isKeyFrame
  | processMissing timestamp rttNs =>
      exact ProcessMissingVideoPacketsJob.run_wellFormed h reporterSsrc ssrc timestamp rttNs

/-- **Over every run of the jobs the tracker keeps its invariant**: its entries are keyed by
their numbers and NACKed at most `maxRetries` times. -/
theorem run_wellFormed (reporterSsrc ssrc : BitVec 32) (jobs : List MissingPacketsJob) :
    TrackerWellFormed (Run.run (step reporterSsrc ssrc) SsrcInboundContext.create jobs).1 :=
  Run.run_inv (step reporterSsrc ssrc) (P := TrackerWellFormed)
    (fun _ job h => step_wellFormed h reporterSsrc ssrc job) SsrcInboundContext.create jobs
    (fun _ h => by cases h)

/-- **Every NACK of a run asks only for numbers charged by its own job, and for all of them
unless it has sixteen infos.** -/
theorem run_nacks (reporterSsrc ssrc : BitVec 32) (ctx : SsrcInboundContext) (jobs : List MissingPacketsJob)
    {o : List (BitVec 16) × Option Bytes} (ho : o ∈ (Run.run (step reporterSsrc ssrc) ctx jobs).2)
    {nack : Bytes} (hnack : o.2 = some nack) :
    (∀ x ∈ requestedBy nack, x ∈ o.1) ∧
      (∀ x ∈ o.1, x ∈ requestedBy nack ∨ getNumFeedbackControlInfos nack = maxPids) := by
  obtain ⟨ctx', job, -, rfl⟩ := Run.mem_run_snd (step reporterSsrc ssrc) ho
  cases job with
  | receive extendedSequenceNumber timestamp isKeyFrame => cases hnack
  | processMissing timestamp rttNs =>
      exact ⟨fun x hx => ProcessMissingVideoPacketsJob.run_nack_sound hnack hx,
        fun x hx => ProcessMissingVideoPacketsJob.run_nack_complete_or_full hnack hx⟩

/-- Packets `0` and `3`, then the job 31 ms later: one NACK, for `1` and `2`. -/
theorem run_nacks_two_lost :
    ∃ o ∈ (Run.run (step 0 0) SsrcInboundContext.create
        [.receive 0 0 false, .receive 3 0 false, .processMissing (31 * Time.ms) 0]).2,
      o.1 = [1, 2] ∧ ∃ nack, o.2 = some nack ∧
        ((∀ x ∈ requestedBy nack, x ∈ o.1) ∧
          (∀ x ∈ o.1, x ∈ requestedBy nack ∨ getNumFeedbackControlInfos nack = maxPids)) := by
  have hne : (Run.run (step 0 0) SsrcInboundContext.create
      [.receive 0 0 false, .receive 3 0 false, .processMissing (31 * Time.ms) 0]).2 ≠ [] := by
    simp
  have ho := List.getLast_mem hne
  have h1 : ((Run.run (step 0 0) SsrcInboundContext.create
      [.receive 0 0 false, .receive 3 0 false, .processMissing (31 * Time.ms) 0]).2.getLast hne).1 =
        [1, 2] := by
    decide +revert
  obtain ⟨nack, hnack⟩ := Option.isSome_iff_exists.mp (show ((Run.run (step 0 0)
    SsrcInboundContext.create [.receive 0 0 false, .receive 3 0 false,
      .processMissing (31 * Time.ms) 0]).2.getLast hne).2.isSome = true by decide +revert)
  exact ⟨_, ho, h1, nack, hnack, run_nacks 0 0 _ _ ho hnack⟩

end MissingPacketsJob

/-! ## The assertion of `process` fails -/

open VideoForwarderReceiveJob in
/-- Packets `0`, `100` and `130` at time `0`: 99 and then 29 numbers skipped. -/
def burst : SsrcInboundContext :=
  (Run.run (MissingPacketsJob.step 0 0) SsrcInboundContext.create
    [.receive 0 0 false, .receive 100 0 false, .receive 130 0 false]).1

open VideoForwarderReceiveJob in
/-- The tracker after `burst`. -/
theorem burst_eq : burst = ⟨130, some (onMissingPacketsLoop (onMissingPacketsLoop
    VideoMissingPacketsTracker.create 1 0 99) 101 0 29)⟩ := by
  have h₁ : run SsrcInboundContext.create 0 0 false = ⟨0, some VideoMissingPacketsTracker.create⟩ :=
    run_first rfl 0 0 false
  have h₂ : run ⟨0, some VideoMissingPacketsTracker.create⟩ 100 0 false =
      ⟨100, some (onMissingPacketsLoop VideoMissingPacketsTracker.create 1 0 99)⟩ :=
    run_loss rfl 0 (by decide) (by decide)
  have h₃ : run ⟨100, some (onMissingPacketsLoop VideoMissingPacketsTracker.create 1 0 99)⟩ 130 0 false =
      ⟨130, some (onMissingPacketsLoop (onMissingPacketsLoop VideoMissingPacketsTracker.create 1 0 99) 101 0 29)⟩ :=
    run_loss rfl 0 (by decide) (by decide)
  show run (run (run SsrcInboundContext.create 0 0 false) 100 0 false) 130 0 false = _
  rw [h₁, h₂, h₃]

open VideoForwarderReceiveJob in
/-- 31 ms after `burst`, the job charges `maxMissingPackets` numbers: the assertion
`missingCount < maxMissingPackets` in `process` fails. -/
theorem burst_process_fills :
    (ProcessMissingVideoPacketsJob.run burst 0 0 (31 * Time.ms) 0).2.1.length = maxMissingPackets := by
  have hempty : VideoMissingPacketsTracker.create.missingPackets.entries = [] := by
    simp [VideoMissingPacketsTracker.create]
  have hsize₀ : VideoMissingPacketsTracker.create.missingPackets.size = 0 := by
    rw [Map.size, hempty]
    rfl
  -- first jump: 99 numbers into the empty tracker
  have hsize₁ := onMissingPacketsLoop_size VideoMissingPacketsTracker.create 1 0 99
    (by rw [hsize₀]; decide) (by omega)
    (fun i _ => by rw [Bool.eq_false_iff, ne_eq, Map.contains_iff, hempty]; simp)
  -- second jump: 29 more, whose keys 101 to 129 are not among 1 to 99
  have hkeys₁ : ∀ x ∈ (onMissingPacketsLoop VideoMissingPacketsTracker.create 1 0 99).missingPackets.entries,
      ∃ j < 99, x.1 = (1 + BitVec.ofNat 32 j).setWidth 16 := by
    intro x hx
    rcases mem_onMissingPacketsLoop hx with hx | ⟨j, hj, rfl⟩
    · rw [hempty] at hx
      cases hx
    · exact ⟨j, hj, rfl⟩
  have hsize₂ := onMissingPacketsLoop_size (onMissingPacketsLoop VideoMissingPacketsTracker.create 1 0 99)
    101 0 29 (by rw [hsize₁, hsize₀]; decide) (by omega)
    (fun i hi => by
      rw [Bool.eq_false_iff, ne_eq, Map.contains_iff]
      intro hmem
      obtain ⟨x, hx, hk⟩ := List.mem_map.mp hmem
      obtain ⟨j, hj, hxj⟩ := hkeys₁ x hx
      rw [hxj] at hk
      revert hk
      bv_omega)
  -- every entry went missing at `0`, was never NACKed, and is due at 31 ms
  have hdue : ∀ x ∈ (onMissingPacketsLoop (onMissingPacketsLoop VideoMissingPacketsTracker.create 1 0 99)
      101 0 29).missingPackets.entries, isDue (31 * Time.ms) (retryDelay 0) x.2 = true ∧ x.2.nacksSent < maxRetries := by
    have hfresh : ∀ n : BitVec 32, isDue (31 * Time.ms) (retryDelay 0)
        ⟨0, 0 - 5 * Time.sec, 0, n⟩ = true ∧ (0 : Nat) < maxRetries := fun _ =>
      ⟨show (Time.diffGT 0 (31 * Time.ms) delayFirstNack &&
        Time.diffGT (0 - 5 * Time.sec) (31 * Time.ms) (retryDelay 0)) = true by decide, by decide⟩
    intro x hx
    rcases mem_onMissingPacketsLoop hx with hx | ⟨i, -, rfl⟩
    · rcases mem_onMissingPacketsLoop hx with hx | ⟨j, -, rfl⟩
      · rw [hempty] at hx
        cases hx
      · exact hfresh _
    · exact hfresh _
  have h128 : (onMissingPacketsLoop (onMissingPacketsLoop VideoMissingPacketsTracker.create 1 0 99)
      101 0 29).missingPackets.entries.length = maxMissingPackets := by
    show Map.size _ = _
    rw [hsize₂, hsize₁, hsize₀]
    rfl
  rw [burst_eq, ProcessMissingVideoPacketsJob.run_charged rfl, process,
    processLoop_all_due hdue (by rw [List.length_nil, Nat.zero_add, h128]), List.nil_append,
    List.length_map, h128]

end MediaBridge.Bridge
