import MediaBridge.Bridge.ActiveMediaListVideo

set_option autoImplicit false

/-! # `ActiveMediaList`: the states the calls reach

`MediaListInv s ssrcs groups` joins the audio and the video invariants. The constructor's state
has it, every call with a nonzero endpoint keeps it, and so does every state the calls reach.
From it follow the conditions of `checkInvariant`, all but one: the reverse map holds three main
ssrcs per held group only where it has room for them, and the source gives it room for 64 while
the constructor's assertions allow a list of up to 30 endpoints holding a group each.
`checkInvariant_eq_false_of_capacity_lt` and `foldl_addVideoParticipant_size` show that the
first `defaultLastN + 1` participants sending video fill it past its capacity when
`3 * (defaultLastN + 1) > 64`.
-/

namespace MediaBridge.Bridge

namespace ActiveMediaList

open Memory

/-- What every call keeps, from a constructor given the audio ssrcs `ssrcs` and whose
non-screen-share groups are `groups`. -/
structure MediaListInv (s : ActiveMediaList) (ssrcs : List (BitVec 32))
    (groups : List SimulcastGroup) : Prop where
  audio : AudioInv s ssrcs
  audioRoom : AudioRoom s
  video : VideoInv s groups
  videoRoom : VideoRoom s

variable {s : ActiveMediaList} {ssrcs : List (BitVec 32)} {groups : List SimulcastGroup}

theorem MediaListInv.of_audio_call {s' : ActiveMediaList} (h : MediaListInv s ssrcs groups)
    (ha : AudioInv s' ssrcs ∧ AudioRoom s') (hv : s'.video = s.video) :
    MediaListInv s' ssrcs groups :=
  ⟨ha.1, ha.2, h.video.of_video hv, h.videoRoom.of_video hv⟩

theorem MediaListInv.of_video_call {s' : ActiveMediaList} (h : MediaListInv s ssrcs groups)
    (hv : VideoInv s' groups ∧ VideoRoom s') (ho : VideoOnly s s') :
    MediaListInv s' ssrcs groups :=
  ⟨h.audio.of_audio ho.1, h.audioRoom.of_audio ho.1, hv.1, hv.2⟩

theorem ReverseRoom.of_video {s' : ActiveMediaList} (h : ReverseRoom s groups)
    (hv : s'.video = s.video) : ReverseRoom s' groups := by
  simp only [video, VideoView.mk.injEq] at hv
  exact ⟨h.1, h.2.1, by rw [hv.1, hv.2.2.2.2.1]; exact h.2.2⟩

theorem ReverseRoom.of_videoOnly {s' : ActiveMediaList} (h : ReverseRoom s groups)
    (ho : VideoOnly s s') : ReverseRoom s' groups :=
  ⟨h.1, h.2.1, by rw [ho.2.2.2.1, ho.2.2.2.2]; exact h.2.2⟩

/-! ## `process` -/

theorem video_run_updateActiveAudioList (speakers : List Nat) :
    (Run.run updateActiveAudioList s speakers).1.video = s.video :=
  Run.run_inv_of updateActiveAudioList (Q := fun _ => True) (P := fun s' => s'.video = s.video)
    (fun s' e _ hs' => (video_updateActiveAudioList s' e).trans hs') s speakers
    (fun _ _ => trivial) rfl

/-- The audio half of `process`: each ranked speaker, an audio participant, moves to the tail of
the audio list or takes an ssrc. The participants stay the same throughout. -/
theorem MediaListInv.run_updateActiveAudioList (h : MediaListInv s ssrcs groups)
    (speakers : List Nat) (hs : ∀ e ∈ speakers, e ∈ s.audioParticipants.keys) :
    MediaListInv (Run.run updateActiveAudioList s speakers).1 ssrcs groups := by
  have := Run.run_inv_of updateActiveAudioList (Q := fun e => e ∈ s.audioParticipants.keys)
    (P := fun s' => MediaListInv s' ssrcs groups ∧ s'.audioParticipants = s.audioParticipants)
    (fun s' e he ⟨h', hp⟩ => by
      obtain ⟨ha, hr⟩ := h'.audio.updateActiveAudioList e h'.audioRoom (hp ▸ he)
      exact ⟨h'.of_audio_call ⟨ha, hr⟩ (video_updateActiveAudioList s' e),
        (audioParticipants_updateActiveAudioList s' e).trans hp⟩)
    s speakers hs ⟨h, rfl⟩
  exact this.1

/-- The dominant speaker is neither an audio nor a video field. -/
theorem MediaListInv.setDominant (h : MediaListInv s ssrcs groups) (n : Nat) :
    MediaListInv { s with dominantSpeaker := n } ssrcs groups :=
  ⟨h.audio.of_audio rfl, h.audioRoom.of_audio rfl, h.video.of_video rfl, h.videoRoom.of_video rfl⟩

theorem MediaListInv.process (h : MediaListInv s ssrcs groups) (speakers : List Nat)
    (switchDominant : Bool) : MediaListInv (s.process speakers switchDominant).1 ssrcs groups := by
  -- `rankSpeakers` ranks stored audio participants only
  have h₁ := h.run_updateActiveAudioList
    ((speakers.filter fun e => s.audioParticipants.contains e).take s.audioLastN)
    fun e he => (BoundedMap.contains_iff _).mp (List.mem_filter.mp (List.mem_of_mem_take he)).2
  unfold ActiveMediaList.process
  dsimp only
  split
  · exact h
  · rename_i nominated _ _
    split
    · -- the switch: the new dominant speaker moves into the video list
      have h₂ := h₁.setDominant nominated
      exact h₂.of_video_call (h₂.video.updateActiveVideoList h₂.videoRoom)
        (videoOnly_updateActiveVideoList _ nominated)
    · exact h₁

/-! ## Runs -/

/-- A call whose endpoint, if it names one, is nonzero: `0` is the source's "no dominant
speaker". -/
def MediaListCall.NonzeroEndpoint (c : MediaListCall) : Prop :=
  ∀ e, c.endpoint? = some e → e ≠ 0

theorem MediaListInv.apply (h : MediaListInv s ssrcs groups) (c : MediaListCall)
    (hc : c.NonzeroEndpoint) : MediaListInv (s.apply c) ssrcs groups := by
  cases c with
  | addAudioParticipant e =>
      exact h.of_audio_call (h.audio.addAudioParticipant e h.audioRoom)
        (video_addAudioParticipant s e)
  | addBarbellAudioParticipant e =>
      exact h.of_audio_call (h.audio.addAudioParticipant e h.audioRoom)
        (video_addAudioParticipant s e)
  | removeAudioParticipant e =>
      exact h.of_audio_call (h.audio.removeAudioParticipant e h.audioRoom)
        (video_removeAudioParticipant s e)
  | addVideoParticipant e p =>
      exact h.of_video_call (h.video.addVideoParticipant h.videoRoom (hc e rfl) p)
        (videoOnly_addVideoParticipant s e p)
  | addBarbellVideoParticipant e p =>
      exact h.of_video_call (h.video.addBarbellVideoParticipant h.videoRoom (hc e rfl) p)
        (videoOnly_addBarbellVideoParticipant s e p)
  | removeVideoParticipant e =>
      obtain ⟨hv, hr, -⟩ := h.video.removeVideoParticipant (e := e) h.videoRoom
      exact h.of_video_call ⟨hv, hr⟩ (videoOnly_removeVideoParticipant s e)
  | onNewAudioLevel e level => exact h
  | process speakers switchDominant => exact h.process speakers switchDominant

theorem MediaListInv.runCalls (h : MediaListInv s ssrcs groups) (calls : List MediaListCall)
    (hc : ∀ c ∈ calls, c.NonzeroEndpoint) : MediaListInv (s.runCalls calls) ssrcs groups := by
  induction calls generalizing s with
  | nil => exact h
  | cons c calls ih =>
      exact ih (h.apply c (hc c List.mem_cons_self)) fun c' hc' => hc c' (List.mem_cons_of_mem _ hc')

theorem ReverseRoom.process (h : ReverseRoom s groups) (speakers : List Nat)
    (switchDominant : Bool) : ReverseRoom (s.process speakers switchDominant).1 groups := by
  have h₁ := h.of_video (video_run_updateActiveAudioList (s := s)
    ((speakers.filter fun e => s.audioParticipants.contains e).take s.audioLastN))
  unfold ActiveMediaList.process
  dsimp only
  split
  · exact h
  · rename_i nominated _ _
    split
    · -- the dominant speaker is not read by `ReverseRoom`
      refine ReverseRoom.of_videoOnly ?_ (videoOnly_updateActiveVideoList _ nominated)
      exact h₁
    · exact h₁

/-- No call changes the list bound or the reverse map's capacity. -/
theorem ReverseRoom.apply (h : ReverseRoom s groups) (c : MediaListCall) :
    ReverseRoom (s.apply c) groups := by
  cases c with
  | addAudioParticipant e => exact h.of_video (video_addAudioParticipant s e)
  | addBarbellAudioParticipant e => exact h.of_video (video_addAudioParticipant s e)
  | removeAudioParticipant e => exact h.of_video (video_removeAudioParticipant s e)
  | addVideoParticipant e p => exact h.of_videoOnly (videoOnly_addVideoParticipant s e p)
  | addBarbellVideoParticipant e p =>
      exact h.of_videoOnly (videoOnly_addBarbellVideoParticipant s e p)
  | removeVideoParticipant e => exact h.of_videoOnly (videoOnly_removeVideoParticipant s e)
  | onNewAudioLevel e level => exact h
  | process speakers switchDominant => exact h.process speakers switchDominant

theorem ReverseRoom.runCalls (h : ReverseRoom s groups) (calls : List MediaListCall) :
    ReverseRoom (s.runCalls calls) groups := by
  induction calls generalizing s with
  | nil => exact h
  | cons c calls ih => exact ih (h.apply c)

/-! ## The constructor -/

/-- The constructor's state, for at most 32 audio ssrcs, at most 32 groups and at least as many
non-screen-share groups as places in the video list. -/
theorem MediaListInv.create (audioSsrcs : List (BitVec 32)) (videoSsrcs : List SimulcastGroup)
    (defaultLastN audioLastN : Nat) (ha : audioSsrcs.length ≤ ssrcArraySize)
    (hv : videoSsrcs.length ≤ ssrcArraySize)
    (hg : defaultLastN + 1 ≤ (videoSsrcs.filter fun g => g.pairs.length != 1).length) :
    MediaListInv (create audioSsrcs videoSsrcs defaultLastN audioLastN) audioSsrcs
      (videoSsrcs.filter fun g => g.pairs.length != 1) := by
  have hne : videoSsrcs.isEmpty = false := by
    cases videoSsrcs with
    | nil => simp at hg
    | cons g gs => rfl
  have hfilter := (List.filter_sublist (p := fun g : SimulcastGroup => g.pairs.length != 1)
    (l := videoSsrcs)).length_le
  unfold ssrcArraySize at ha hv
  -- every map and list starts empty; what is left is arithmetic on the bounds
  refine ⟨⟨?_, ?_, ?_, rfl, ha, ?_⟩, ?_, ⟨?_, ?_, ?_, ?_, ?_, ?_, hg, ?_, ?_, ?_, ?_, ?_⟩, ?_⟩ <;>
    simp [ActiveMediaList.create, hne, AudioRoom, VideoRoom, BoundedMap.keys, BoundedMap.values,
      BoundedMap.size, PoolList.data, PoolList.length, PoolList.entries_empty, maxParticipants, ssrcArraySize] <;>
    omega

/-! ## What a reachable state satisfies -/

/-- The reverse map holds three main ssrcs per held group. -/
theorem VideoInv.reverse_size (h : VideoInv s groups) (hroom : ReverseRoom s groups) :
    s.reverseVideoSsrcRewriteMap.size = 3 * s.videoSsrcRewriteMap.size := by
  have hheld3 : ∀ x ∈ s.videoSsrcRewriteMap.entries, x.2.pairs.length = 3 := fun x hx =>
    hroom.2.1 x.2 (h.groups_perm.subset (List.mem_append_right _ (List.mem_map_of_mem hx)))
  have := (h.reverse_perm hroom).length_eq
  rwa [length_flatMap_reverseEntries hheld3] at this

/-- The conditions of `checkInvariant`. -/
theorem MediaListInv.checkInvariant (h : MediaListInv s ssrcs groups)
    (hroom : ReverseRoom s groups) : s.checkInvariant = true := by
  unfold ActiveMediaList.checkInvariant
  simp only [Bool.and_eq_true, List.all_eq_true, beq_iff_eq, List.contains_iff_mem]
  refine ⟨⟨⟨⟨⟨?_, ?_⟩, ?_⟩, ?_⟩, ?_⟩, ?_⟩
  · -- every audio list entry holds an ssrc
    exact fun e he => (BoundedMap.contains_iff _).mpr (h.audio.list_perm.mem_iff.mp he)
  · exact h.audio.length_eq
  · -- every video list entry is a participant whose lookup entry is that entry
    intro x hx
    refine ⟨(BoundedMap.contains_iff _).mpr (h.video.list_participants x.2 ?_), ?_⟩
    · exact List.mem_map_of_mem hx
    · exact h.video.lookup_of_mem hx
  · exact h.video.lookup_size
  · rw [h.video.reverse_size hroom, Nat.mul_comm]
  · intro e he
    have hin := h.video.keys_list e he
    exact ⟨(BoundedMap.contains_iff _).mpr (h.video.list_participants e hin), hin⟩

/-- Every state the calls reach from the constructor keeps the conditions of `checkInvariant`
and loses and shares no ssrc and no group, when the groups other than the screen share have
three ssrc pairs with distinct main ssrcs and the reverse map has room for the main ssrcs of a
full list. -/
theorem create_runCalls_checkInvariant (audioSsrcs : List (BitVec 32))
    (videoSsrcs : List SimulcastGroup) (defaultLastN audioLastN : Nat) (calls : List MediaListCall)
    (ha : audioSsrcs.length ≤ ssrcArraySize) (hv : videoSsrcs.length ≤ ssrcArraySize)
    (hg : defaultLastN + 1 ≤ (videoSsrcs.filter fun g => g.pairs.length != 1).length)
    (h3 : ∀ g ∈ videoSsrcs, g.pairs.length ≠ 1 → g.pairs.length = 3)
    (hnd : ((videoSsrcs.filter fun g => g.pairs.length != 1).flatMap SimulcastGroup.mains).Nodup)
    (hroom : 3 * (defaultLastN + 1) ≤ ssrcArraySize * 2) (hc : ∀ c ∈ calls, c.NonzeroEndpoint) :
    ((create audioSsrcs videoSsrcs defaultLastN audioLastN).runCalls calls).checkInvariant = true ∧
      (((create audioSsrcs videoSsrcs defaultLastN audioLastN).runCalls calls).audioSsrcs ++
        ((create audioSsrcs videoSsrcs defaultLastN audioLastN).runCalls calls).audioSsrcRewriteMap.values).Perm
        audioSsrcs ∧
      (((create audioSsrcs videoSsrcs defaultLastN audioLastN).runCalls calls).videoSsrcs ++
        ((create audioSsrcs videoSsrcs defaultLastN audioLastN).runCalls calls).videoSsrcRewriteMap.values).Perm
        (videoSsrcs.filter fun g => g.pairs.length != 1) := by
  have hinv := (MediaListInv.create audioSsrcs videoSsrcs defaultLastN audioLastN ha hv hg).runCalls
    calls hc
  have hne : videoSsrcs.isEmpty = false := by
    cases videoSsrcs with
    | nil => simp at hg
    | cons g gs => rfl
  have hroom₀ : ReverseRoom (create audioSsrcs videoSsrcs defaultLastN audioLastN)
      (videoSsrcs.filter fun g => g.pairs.length != 1) := by
    refine ⟨hnd, fun g hg' => ?_, ?_⟩
    · obtain ⟨hmem, hne1⟩ := List.mem_filter.mp hg'
      exact h3 g hmem (by simpa using hne1)
    · simpa [ActiveMediaList.create, hne] using hroom
  exact ⟨hinv.checkInvariant (hroom₀.runCalls calls), hinv.audio.ssrcs_perm, hinv.video.groups_perm⟩

/-- One audio ssrc and one group of three ssrc pairs, with a list of one: a speaker joins,
talks and leaves. -/
theorem create_runCalls_checkInvariant_one_group :
    let groups : List SimulcastGroup := [⟨[⟨1, 2⟩, ⟨3, 4⟩, ⟨5, 6⟩], by decide⟩]
    let calls : List MediaListCall :=
      [.addAudioParticipant 1, .onNewAudioLevel 1 50, .removeAudioParticipant 1]
    [(7 : BitVec 32)].length ≤ ssrcArraySize ∧ groups.length ≤ ssrcArraySize ∧
      0 + 1 ≤ (groups.filter fun g => g.pairs.length != 1).length ∧
      (∀ g ∈ groups, g.pairs.length ≠ 1 → g.pairs.length = 3) ∧
      ((groups.filter fun g => g.pairs.length != 1).flatMap SimulcastGroup.mains).Nodup ∧
      3 * (0 + 1) ≤ ssrcArraySize * 2 ∧ (∀ c ∈ calls, c.NonzeroEndpoint) ∧
      (((create [7] groups 0 1).runCalls calls).checkInvariant = true ∧
        (((create [7] groups 0 1).runCalls calls).audioSsrcs ++
          ((create [7] groups 0 1).runCalls calls).audioSsrcRewriteMap.values).Perm [7] ∧
        (((create [7] groups 0 1).runCalls calls).videoSsrcs ++
          ((create [7] groups 0 1).runCalls calls).videoSsrcRewriteMap.values).Perm
          (groups.filter fun g => g.pairs.length != 1)) := by
  intro groups calls
  have ha : [(7 : BitVec 32)].length ≤ ssrcArraySize := by decide
  have hv : groups.length ≤ ssrcArraySize := by decide
  have hg : 0 + 1 ≤ (groups.filter fun g => g.pairs.length != 1).length := by decide
  have h3 : ∀ g ∈ groups, g.pairs.length ≠ 1 → g.pairs.length = 3 := by decide
  have hnd : ((groups.filter fun g => g.pairs.length != 1).flatMap SimulcastGroup.mains).Nodup := by
    decide
  have hroom : 3 * (0 + 1) ≤ ssrcArraySize * 2 := by decide
  -- every call names endpoint `1`
  have hc : ∀ c ∈ calls, c.NonzeroEndpoint := by
    intro c hc e he
    simp only [calls, List.mem_cons, List.not_mem_nil, or_false] at hc
    rcases hc with rfl | rfl | rfl <;>
      · simp only [MediaListCall.endpoint?, Option.some.injEq] at he
        omega
  exact ⟨ha, hv, hg, h3, hnd, hroom, hc,
    create_runCalls_checkInvariant [7] groups 0 1 calls ha hv hg h3 hnd hroom hc⟩

/-! ## A full list past the reverse map's capacity -/

/-- `checkInvariant` fails once three main ssrcs per held group are more than the reverse map
has room for. -/
theorem checkInvariant_eq_false_of_capacity_lt
    (hc : s.reverseVideoSsrcRewriteMap.capacity < 3 * s.videoSsrcRewriteMap.size) :
    s.checkInvariant = false := by
  have hle := s.reverseVideoSsrcRewriteMap.size_le
  have hne : (s.videoSsrcRewriteMap.size * 3 == s.reverseVideoSsrcRewriteMap.size) = false := by
    rw [beq_eq_false_iff_ne]
    omega
  unfold ActiveMediaList.checkInvariant
  rw [hne]
  simp

/-- A new participant with a free place in the list, not the dominant speaker, joins the list
at its head and, when it sends video, takes a group; nothing else moves. -/
theorem VideoInv.storeVideoParticipant_joins {e : Nat} (h : VideoInv s groups) (hr : VideoRoom s)
    (hnew : e ∉ s.videoParticipants.keys) (he0 : e ≠ 0) (hdom : e ≠ s.dominantSpeaker)
    (hlt : s.activeVideoList.length < s.maxActiveListSize) (p : VideoParticipant) :
    Joined { s with videoParticipants := s.videoParticipants.emplace e p }
      (s.storeVideoParticipant e p).1 groups p.isSendingVideo := by
  have hnot : e ∉ s.activeVideoList.data := fun hx => hnew (h.list_participants e hx)
  have hs : s.videoParticipants.size < s.videoParticipants.capacity := by
    unfold VideoRoom at hr
    omega
  have hkeys := BoundedMap.keys_emplace p hnew hs
  obtain ⟨s', htake, hj⟩ := (h.emplaceParticipant he0 p).join PoolList.linksNew_pushToHead
    (by dsimp only; rw [hkeys]; exact List.mem_cons_self) hnot hlt p.isSendingVideo
  have hfree : s.activeVideoListLookupMap.size ≠ s.maxActiveListSize := by
    rw [h.lookup_size]
    omega
  have hd : (s'.linkVideoEntry e PoolList.pushToHead PoolList.head).dominantSpeaker =
      s.dominantSpeaker := (videoOnly_takeVideoGroup _ e htake).2.1
  unfold ActiveMediaList.storeVideoParticipant ActiveMediaList.onVideoParticipantAdded
  dsimp only
  rw [if_neg hfree, htake]
  dsimp only
  rw [if_pos (by rw [hd]; exact hdom)]
  exact hj

/-- Fresh, distinct, nonzero endpoints sending video, no more than the free places of the list
and none of them the dominant speaker: each joins the list and takes a group. -/
theorem VideoInv.foldl_addVideoParticipant_size (p : VideoParticipant)
    (hp : p.isSendingVideo = true) :
    ∀ (es : List Nat) (s : ActiveMediaList), VideoInv s groups → VideoRoom s → es.Nodup →
      (∀ e ∈ es, e ≠ 0 ∧ e ∉ s.videoParticipants.keys ∧ e ≠ s.dominantSpeaker) →
      s.activeVideoList.length + es.length ≤ s.maxActiveListSize →
      (es.foldl (fun s e => (s.addVideoParticipant e p).1) s).videoSsrcRewriteMap.size =
        s.videoSsrcRewriteMap.size + es.length := by
  intro es
  induction es with
  | nil => intro s _ _ _ _ _; rfl
  | cons e es ih =>
      intro s h hr hnd hes hlen
      rw [List.nodup_cons] at hnd
      obtain ⟨he0, hnew, hdom⟩ := hes e List.mem_cons_self
      rw [List.length_cons] at hlen
      have hj := h.storeVideoParticipant_joins hr hnew he0 hdom (by omega) p
      have hs : s.videoParticipants.size < s.videoParticipants.capacity := by
        unfold VideoRoom at hr
        omega
      have hadd : s.addVideoParticipant e p = s.storeVideoParticipant e p := by
        unfold ActiveMediaList.addVideoParticipant
        rw [if_neg (fun hc => hnew ((BoundedMap.contains_iff _).mp hc))]
      have hkeys : (s.storeVideoParticipant e p).1.videoParticipants.keys =
          e :: s.videoParticipants.keys := by
        rw [hj.participants_eq]
        exact BoundedMap.keys_emplace p hnew hs
      have hdom' := (videoOnly_storeVideoParticipant s e p).2.1
      -- the participant map gained `e`, the list one entry, the rewrite map one group
      have hroom : VideoRoom (s.storeVideoParticipant e p).1 := hj.room (by
        unfold VideoRoom at hr
        have hsize : (s.videoParticipants.emplace e p).size = s.videoParticipants.size + 1 := by
          rw [← BoundedMap.length_keys, BoundedMap.keys_emplace p hnew hs, List.length_cons,
            BoundedMap.length_keys]
        dsimp only
        rw [hsize, BoundedMap.capacity_emplace]
        omega)
      have hfresh : ∀ e' ∈ es, e' ≠ 0 ∧ e' ∉ (s.storeVideoParticipant e p).1.videoParticipants.keys ∧
          e' ≠ (s.storeVideoParticipant e p).1.dominantSpeaker := by
        intro e' he'
        obtain ⟨he'0, hnew', hdom''⟩ := hes e' (List.mem_cons_of_mem _ he')
        refine ⟨he'0, ?_, by rw [hdom']; exact hdom''⟩
        rw [hkeys, List.mem_cons]
        rintro (rfl | hk)
        · exact hnd.1 he'
        · exact hnew' hk
      have hlen' : (s.storeVideoParticipant e p).1.activeVideoList.length + es.length ≤
          (s.storeVideoParticipant e p).1.maxActiveListSize := by
        rw [hj.length_eq, hj.maxActive_eq]
        dsimp only
        omega
      rw [List.foldl_cons, hadd, ih _ hj.inv hroom hnd.2 hfresh hlen', hj.size_eq, hp, if_pos rfl,
        List.length_cons]
      dsimp only
      omega

theorem videoOnly_foldl_addVideoParticipant (p : VideoParticipant) :
    ∀ (es : List Nat) (s : ActiveMediaList),
      VideoOnly s (es.foldl (fun s e => (s.addVideoParticipant e p).1) s) := by
  intro es
  induction es with
  | nil => exact VideoOnly.refl
  | cons e es ih => exact fun s => (videoOnly_addVideoParticipant s e p).trans (ih _)

/-- From the constructor, `defaultLastN + 1` distinct nonzero endpoints sending video fill the
list and hold a group each; when three main ssrcs per group are more than the reverse map's
room, `checkInvariant` fails. -/
theorem create_addVideoParticipants_checkInvariant (audioSsrcs : List (BitVec 32))
    (videoSsrcs : List SimulcastGroup) (defaultLastN audioLastN : Nat) (es : List Nat)
    (p : VideoParticipant) (hp : p.isSendingVideo = true) (ha : audioSsrcs.length ≤ ssrcArraySize)
    (hv : videoSsrcs.length ≤ ssrcArraySize)
    (hg : defaultLastN + 1 ≤ (videoSsrcs.filter fun g => g.pairs.length != 1).length)
    (hnd : es.Nodup) (hes : ∀ e ∈ es, e ≠ 0) (hlen : es.length = defaultLastN + 1)
    (hcap : ssrcArraySize * 2 < 3 * (defaultLastN + 1)) :
    ((create audioSsrcs videoSsrcs defaultLastN audioLastN).runCalls
      (es.map fun e => .addVideoParticipant e p)).checkInvariant = false := by
  have hinv := MediaListInv.create audioSsrcs videoSsrcs defaultLastN audioLastN ha hv hg
  have hne : videoSsrcs.isEmpty = false := by
    cases videoSsrcs with
    | nil => simp at hg
    | cons g gs => rfl
  have hrun : (create audioSsrcs videoSsrcs defaultLastN audioLastN).runCalls
      (es.map fun e => .addVideoParticipant e p) =
      es.foldl (fun s e => (s.addVideoParticipant e p).1)
        (create audioSsrcs videoSsrcs defaultLastN audioLastN) := by
    unfold ActiveMediaList.runCalls
    rw [List.foldl_map]
    rfl
  -- every endpoint joins the empty list and takes a group
  have hsize := VideoInv.foldl_addVideoParticipant_size p hp es _ hinv.video hinv.videoRoom hnd
    (fun e he => ⟨hes e he, by simp [ActiveMediaList.create, BoundedMap.keys],
      by simpa [ActiveMediaList.create] using hes e he⟩)
    (by simp [ActiveMediaList.create, PoolList.length, PoolList.entries_empty, hlen])
  have hcap' := (videoOnly_foldl_addVideoParticipant p es
    (create audioSsrcs videoSsrcs defaultLastN audioLastN)).2.2.2.2
  rw [hrun]
  apply checkInvariant_eq_false_of_capacity_lt
  rw [hsize, hcap']
  simp only [ActiveMediaList.create, hne, BoundedMap.capacity_empty, BoundedMap.size,
    BoundedMap.entries_empty]
  simpa [ssrcArraySize, hlen] using hcap

/-- The group of three ssrc pairs with main ssrcs `6i`, `6i + 2`, `6i + 4`, each with the
feedback ssrc one above. -/
def tripleGroup (i : Nat) : SimulcastGroup where
  pairs := [⟨BitVec.ofNat 32 (6 * i), BitVec.ofNat 32 (6 * i + 1)⟩,
    ⟨BitVec.ofNat 32 (6 * i + 2), BitVec.ofNat 32 (6 * i + 3)⟩,
    ⟨BitVec.ofNat 32 (6 * i + 4), BitVec.ofNat 32 (6 * i + 5)⟩]
  pairs_length := by simp

/-- A camera stream of three active levels. -/
def cameraStream : SimulcastStream where
  numLevels := 3
  highestActiveLevel := Fin.last 2
  levels := [⟨1, 2, true⟩, ⟨3, 4, true⟩, ⟨5, 6, true⟩]
  levels_length := rfl
  contentType := .VIDEO

/-- A mixer with `defaultLastN = 21`, one audio ssrc and 24 groups of three: after 22 endpoints
join with a camera stream, the debug check fails. -/
theorem lastN21_camera_participants_checkInvariant :
    ((create [1] ((List.range 24).map tripleGroup) 21 1).runCalls
      ((List.range' 1 22).map fun e => .addVideoParticipant e ⟨cameraStream, none⟩)).checkInvariant =
      false :=
  create_addVideoParticipants_checkInvariant [1] ((List.range 24).map tripleGroup) 21 1
    (List.range' 1 22) ⟨cameraStream, none⟩ rfl (by decide) (by simp [ssrcArraySize])
    (by rw [List.filter_eq_self.mpr (by simp [tripleGroup])]; simp) List.nodup_range'
    (fun e he => by rw [List.mem_range'_1] at he; omega) (by simp) (by decide)

end ActiveMediaList

end MediaBridge.Bridge
