import MediaBridge.Bridge.ActiveMediaList

set_option autoImplicit false

/-! # `ActiveMediaList`: audio ssrcs are neither lost nor shared

The audio side moves ssrcs between the queue `_audioSsrcs` and the map `_audioSsrcRewriteMap`,
and endpoints into and out of `_activeAudioList`. `AudioInv s ssrcs` is what holds after every
call from a constructor given the ssrcs `ssrcs`: the list holds exactly the endpoints of the
map, the queue and the map's values together are `ssrcs`, and every endpoint holding an ssrc is
an audio participant. `AudioRoom` is the count that keeps the participant map from filling up
while an ssrc is free: a new participant that would get an ssrc is always stored, so it cannot
be added twice.

Each operation has one lemma that follows its branches; `takeAudioSsrc`, the end two of them
share, has its own. No audio operation touches a video field (`video_*`).
-/

namespace MediaBridge.Bridge

namespace ActiveMediaList

open Memory

/-! ## The audio and the video fields -/

/-- The fields the audio operations read and write. -/
structure AudioView where
  maxSpeakers : Nat
  audioParticipants : BoundedMap Nat Unit
  audioSsrcs : List (BitVec 32)
  audioSsrcRewriteMap : BoundedMap Nat (BitVec 32)
  activeAudioList : PoolList Nat 32

/-- The fields the video operations read and write, apart from the dominant speaker. -/
structure VideoView where
  maxActiveListSize : Nat
  videoParticipants : BoundedMap Nat VideoParticipant
  videoSsrcs : List SimulcastGroup
  videoSsrcRewriteMap : BoundedMap Nat SimulcastGroup
  reverseVideoSsrcRewriteMap : BoundedMap (BitVec 32) Nat
  activeVideoList : PoolList Nat 32
  activeVideoListLookupMap : BoundedMap Nat (Option (Fin 32))

def audio (s : ActiveMediaList) : AudioView :=
  ⟨s.maxSpeakers, s.audioParticipants, s.audioSsrcs, s.audioSsrcRewriteMap, s.activeAudioList⟩

def video (s : ActiveMediaList) : VideoView :=
  ⟨s.maxActiveListSize, s.videoParticipants, s.videoSsrcs, s.videoSsrcRewriteMap,
    s.reverseVideoSsrcRewriteMap, s.activeVideoList, s.activeVideoListLookupMap⟩

variable (s : ActiveMediaList) (e : Nat)

theorem video_takeAudioSsrc (push : PoolList Nat 32 → Nat → PoolList Nat 32 × Bool) :
    (s.takeAudioSsrc e push).1.video = s.video := by
  unfold takeAudioSsrc
  split <;> rfl

theorem video_onAudioParticipantAdded : (s.onAudioParticipantAdded e).1.video = s.video := by
  unfold onAudioParticipantAdded
  rw [video_takeAudioSsrc]
  split <;> rfl

theorem video_addAudioParticipant : (s.addAudioParticipant e).1.video = s.video := by
  unfold addAudioParticipant
  split
  · rfl
  · rw [video_onAudioParticipantAdded]
    rfl

theorem video_removeAudioParticipant : (s.removeAudioParticipant e).1.video = s.video := by
  unfold removeAudioParticipant
  dsimp only
  split <;> rfl

theorem video_updateActiveAudioList : (s.updateActiveAudioList e).1.video = s.video := by
  unfold updateActiveAudioList
  dsimp only
  split
  · split <;> rfl
  · split
    · split
      · rfl
      · split
        · rfl
        · rw [video_takeAudioSsrc]
          rfl
    · exact video_takeAudioSsrc s e _

theorem audioParticipants_updateActiveAudioList :
    (s.updateActiveAudioList e).1.audioParticipants = s.audioParticipants := by
  unfold updateActiveAudioList
  dsimp only
  split
  · split <;> rfl
  · split
    · split
      · rfl
      · split
        · rfl
        · unfold takeAudioSsrc
          split <;> rfl
    · unfold takeAudioSsrc
      split <;> rfl

/-! ## The invariant -/

/-- What holds of the audio fields after every call, for a constructor given `ssrcs`. -/
structure AudioInv (s : ActiveMediaList) (ssrcs : List (BitVec 32)) : Prop where
  /-- The active audio list holds exactly the endpoints with an ssrc. -/
  list_perm : s.activeAudioList.data.Perm s.audioSsrcRewriteMap.keys
  /-- No ssrc is lost or shared. -/
  ssrcs_perm : (s.audioSsrcs ++ s.audioSsrcRewriteMap.values).Perm ssrcs
  keys_participants : ∀ e ∈ s.audioSsrcRewriteMap.keys, e ∈ s.audioParticipants.keys
  maxSpeakers_eq : s.maxSpeakers = ssrcs.length
  ssrcs_length : ssrcs.length ≤ 32
  ssrcs_le_capacity : ssrcs.length ≤ s.audioSsrcRewriteMap.capacity

/-- While an ssrc is free, the participant map has room for one more participant per free
ssrc. -/
def AudioRoom (s : ActiveMediaList) : Prop :=
  s.audioParticipants.size + s.audioSsrcs.length ≤ s.audioParticipants.capacity

variable {s} {ssrcs : List (BitVec 32)}

theorem AudioInv.of_audio {s' : ActiveMediaList} (h : AudioInv s ssrcs) (he : s'.audio = s.audio) :
    AudioInv s' ssrcs := by
  simp only [audio, AudioView.mk.injEq] at he
  obtain ⟨h₁, h₂, h₃, h₄, h₅⟩ := he
  exact ⟨h₅ ▸ h₄ ▸ h.list_perm, h₃ ▸ h₄ ▸ h.ssrcs_perm, h₄ ▸ h₂ ▸ h.keys_participants,
    h₁ ▸ h.maxSpeakers_eq, h.ssrcs_length, h₄ ▸ h.ssrcs_le_capacity⟩

theorem AudioRoom.of_audio {s' : ActiveMediaList} (h : AudioRoom s) (he : s'.audio = s.audio) :
    AudioRoom s' := by
  simp only [audio, AudioView.mk.injEq] at he
  obtain ⟨-, h₂, h₃, -, -⟩ := he
  unfold AudioRoom
  rw [h₂, h₃]
  exact h

theorem AudioInv.size_add_length (h : AudioInv s ssrcs) :
    s.audioSsrcRewriteMap.size + s.audioSsrcs.length = ssrcs.length := by
  have := h.ssrcs_perm.length_eq
  rw [List.length_append, BoundedMap.length_values] at this
  omega

theorem AudioInv.length_eq (h : AudioInv s ssrcs) :
    s.activeAudioList.length = s.audioSsrcRewriteMap.size := by
  have := h.list_perm.length_eq
  rwa [PoolList.length_data, BoundedMap.length_keys] at this

/-! ## The shared end: taking a free ssrc -/

theorem AudioInv.takeAudioSsrc {push : PoolList Nat 32 → Nat → PoolList Nat 32 × Bool}
    {entry : PoolList Nat 32 → Option (Fin 32)} (h : AudioInv s ssrcs) (hp : PoolList.LinksNew push entry)
    (he : e ∉ s.audioSsrcRewriteMap.keys) (hpart : e ∈ s.audioParticipants.keys) :
    AudioInv (s.takeAudioSsrc e push).1 ssrcs := by
  unfold ActiveMediaList.takeAudioSsrc
  split
  · exact h
  · rename_i ssrc rest hq
    have hlen := h.size_add_length
    rw [hq, List.length_cons] at hlen
    -- a free ssrc means the map and the list have room
    have hs : s.audioSsrcRewriteMap.size < s.audioSsrcRewriteMap.capacity := by
      have := h.ssrcs_le_capacity
      omega
    have hl : s.activeAudioList.length < 32 := by
      have := h.ssrcs_length
      rw [h.length_eq]
      omega
    refine ⟨?_, ?_, ?_, h.maxSpeakers_eq, h.ssrcs_length, ?_⟩
    · dsimp only
      rw [BoundedMap.keys_emplace ssrc he hs]
      exact (hp.data_perm e hl).trans (h.list_perm.cons e)
    · dsimp only
      rw [BoundedMap.values_emplace ssrc he hs]
      have := h.ssrcs_perm
      rw [hq] at this
      exact List.perm_middle.trans this
    · dsimp only
      rw [BoundedMap.keys_emplace ssrc he hs]
      intro k hk
      rcases List.mem_cons.mp hk with rfl | hk
      · exact hpart
      · exact h.keys_participants k hk
    · dsimp only
      rw [BoundedMap.capacity_emplace]
      exact h.ssrcs_le_capacity

/-- Taking a free ssrc keeps the room of a state one over it. -/
theorem takeAudioSsrc_room (push : PoolList Nat 32 → Nat → PoolList Nat 32 × Bool)
    (h : s.audioParticipants.size + s.audioSsrcs.length ≤ s.audioParticipants.capacity + 1) :
    AudioRoom (s.takeAudioSsrc e push).1 := by
  unfold ActiveMediaList.takeAudioSsrc
  split
  · rename_i hq
    unfold AudioRoom
    rw [hq, List.length_nil, Nat.add_zero]
    exact s.audioParticipants.size_le
  · rename_i ssrc rest hq
    unfold AudioRoom
    dsimp only
    rw [hq, List.length_cons] at h
    omega

/-- With no free ssrc, `onAudioParticipantAdded` names at most the dominant speaker. -/
theorem audio_onAudioParticipantAdded_of_nil (hq : s.audioSsrcs = []) :
    (s.onAudioParticipantAdded e).1.audio = s.audio := by
  unfold ActiveMediaList.onAudioParticipantAdded ActiveMediaList.takeAudioSsrc
  dsimp only
  split <;> split
  all_goals first
    | rfl
    | (exfalso; simp_all)

/-! ## The operations -/

theorem AudioInv.onAudioParticipantAdded (h : AudioInv s ssrcs)
    (he : e ∉ s.audioSsrcRewriteMap.keys) (hpart : e ∈ s.audioParticipants.keys) :
    AudioInv (s.onAudioParticipantAdded e).1 ssrcs := by
  unfold ActiveMediaList.onAudioParticipantAdded
  dsimp only
  split
  · -- the dominant speaker is not an audio field
    have h' : AudioInv { s with dominantSpeaker := e } ssrcs := h.of_audio rfl
    exact h'.takeAudioSsrc e PoolList.linksNew_pushToHead he hpart
  · exact h.takeAudioSsrc e PoolList.linksNew_pushToHead he hpart

theorem AudioInv.addAudioParticipant (h : AudioInv s ssrcs) (hr : AudioRoom s) :
    AudioInv (s.addAudioParticipant e).1 ssrcs ∧ AudioRoom (s.addAudioParticipant e).1 := by
  unfold ActiveMediaList.addAudioParticipant
  split
  · exact ⟨h, hr⟩
  · rename_i hc
    have hnotpart : e ∉ s.audioParticipants.keys := fun hk => hc ((BoundedMap.contains_iff _).mpr hk)
    have he : e ∉ s.audioSsrcRewriteMap.keys := fun hk => hnotpart (h.keys_participants e hk)
    set s₁ : ActiveMediaList := { s with audioParticipants := s.audioParticipants.emplace e () }
    -- storing the participant keeps the invariant
    have h₁ : AudioInv s₁ ssrcs :=
      ⟨h.list_perm, h.ssrcs_perm,
        fun k hk => BoundedMap.keys_subset_emplace _ _ _ (h.keys_participants k hk),
        h.maxSpeakers_eq, h.ssrcs_length, h.ssrcs_le_capacity⟩
    have hsize : s₁.audioParticipants.size ≤ s.audioParticipants.size + 1 := by
      rcases s.audioParticipants.entries_emplace_cases e () with he' | he'
      · exact Nat.le_of_eq (by simp only [s₁, BoundedMap.size, he', List.length_cons])
      · simp only [s₁, he']
        omega
    refine ⟨?_, ?_⟩
    · by_cases hq : s.audioSsrcs = []
      · -- no ssrc is free: nothing but the participant and the dominant speaker changes
        exact h₁.of_audio (audio_onAudioParticipantAdded_of_nil e (show s₁.audioSsrcs = [] from hq))
      · -- an ssrc is free, so the participant map had room and stored it
        have hs : s.audioParticipants.size < s.audioParticipants.capacity := by
          have : s.audioSsrcs.length ≠ 0 := fun h0 => hq (List.length_eq_zero_iff.mp h0)
          unfold AudioRoom at hr
          omega
        have hpart : e ∈ s₁.audioParticipants.keys := by
          simp only [s₁]
          rw [BoundedMap.keys_emplace () hnotpart hs]
          exact List.mem_cons_self
        exact h₁.onAudioParticipantAdded e he hpart
    · have hroom₁ :
          s₁.audioParticipants.size + s₁.audioSsrcs.length ≤ s₁.audioParticipants.capacity + 1 := by
        have hcap : s₁.audioParticipants.capacity = s.audioParticipants.capacity :=
          BoundedMap.capacity_emplace _ _ _
        have hq₁ : s₁.audioSsrcs.length = s.audioSsrcs.length := rfl
        unfold AudioRoom at hr
        omega
      unfold ActiveMediaList.onAudioParticipantAdded
      dsimp only
      split
      · exact takeAudioSsrc_room e _ hroom₁
      · exact takeAudioSsrc_room e _ hroom₁

theorem AudioInv.removeAudioParticipant (h : AudioInv s ssrcs) (hr : AudioRoom s) :
    AudioInv (s.removeAudioParticipant e).1 ssrcs ∧ AudioRoom (s.removeAudioParticipant e).1 := by
  unfold ActiveMediaList.removeAudioParticipant
  dsimp only
  split
  · rename_i hl
    -- no ssrc: only the participant goes
    have he : e ∉ s.audioSsrcRewriteMap.keys := (BoundedMap.lookup_eq_none_iff _).mp hl
    refine ⟨⟨h.list_perm, h.ssrcs_perm, ?_, h.maxSpeakers_eq, h.ssrcs_length,
      h.ssrcs_le_capacity⟩, ?_⟩
    · intro k hk
      exact BoundedMap.mem_keys_erase.mpr ⟨fun hke => he (hke ▸ hk), h.keys_participants k hk⟩
    · unfold AudioRoom at hr ⊢
      have := s.audioParticipants.size_erase_le e
      have hc := s.audioParticipants.capacity_erase e
      dsimp only
      omega
  · rename_i ssrc hl
    have he : e ∈ s.audioSsrcRewriteMap.keys := BoundedMap.mem_keys_of_lookup hl
    have hdata : e ∈ s.activeAudioList.data := h.list_perm.mem_iff.mpr he
    refine ⟨⟨?_, ?_, ?_, h.maxSpeakers_eq, h.ssrcs_length, h.ssrcs_le_capacity⟩, ?_⟩
    · -- both sides lose `e`
      dsimp only
      have hl' := (PoolList.data_perm_remove hdata).symm.trans
        (h.list_perm.trans (BoundedMap.keys_perm_erase he))
      exact hl'.cons_inv
    · dsimp only
      rw [List.append_assoc, List.singleton_append]
      exact ((BoundedMap.values_perm_erase hl).symm.append_left _).trans h.ssrcs_perm
    · intro k hk
      obtain ⟨hke, hk⟩ := BoundedMap.mem_keys_erase.mp hk
      exact BoundedMap.mem_keys_erase.mpr ⟨hke, h.keys_participants k hk⟩
    · -- one participant less, one ssrc more
      have hsz := BoundedMap.size_erase (h.keys_participants e he)
      have hc := s.audioParticipants.capacity_erase e
      unfold AudioRoom at hr ⊢
      dsimp only
      rw [List.length_append, List.length_singleton]
      omega

theorem AudioInv.updateActiveAudioList (h : AudioInv s ssrcs) (hr : AudioRoom s)
    (hpart : e ∈ s.audioParticipants.keys) :
    AudioInv (s.updateActiveAudioList e).1 ssrcs ∧ AudioRoom (s.updateActiveAudioList e).1 := by
  unfold ActiveMediaList.updateActiveAudioList
  dsimp only
  split
  · -- already holding an ssrc: the endpoint moves to the tail
    rename_i hc
    have he : e ∈ s.audioSsrcRewriteMap.keys := (BoundedMap.contains_iff _).mp hc
    have hdata : e ∈ s.activeAudioList.data := h.list_perm.mem_iff.mpr he
    rw [PoolList.remove_eq_of_mem hdata]
    dsimp only
    have hlen : (s.activeAudioList.remove e).1.length < 32 := by
      have := (PoolList.data_perm_remove hdata).length_eq
      have := h.ssrcs_length
      have := h.size_add_length
      rw [PoolList.length_data, List.length_cons, PoolList.length_data, h.length_eq] at *
      omega
    have hp := PoolList.linksNew_pushToTail.data_perm e hlen
    refine ⟨⟨?_, h.ssrcs_perm, h.keys_participants, h.maxSpeakers_eq, h.ssrcs_length,
      h.ssrcs_le_capacity⟩, hr⟩
    exact hp.trans ((PoolList.data_perm_remove hdata).symm.trans h.list_perm)
  · rename_i hc
    have he : e ∉ s.audioSsrcRewriteMap.keys := fun hk => hc ((BoundedMap.contains_iff _).mpr hk)
    split
    · -- every ssrc is in use: the head gives its ssrc back first
      rename_i hfull
      have hq : s.audioSsrcs = [] := by
        have := h.size_add_length
        rw [h.maxSpeakers_eq] at hfull
        exact List.length_eq_zero_iff.mp (by omega)
      split
      · exact ⟨h, hr⟩
      · rename_i removed l hpop
        obtain ⟨n, hn⟩ := PoolList.entries_of_popFromHead hpop
        have hrem : removed ∈ s.audioSsrcRewriteMap.keys :=
          h.list_perm.mem_iff.mp (by rw [PoolList.data, hn]; exact List.mem_cons_self)
        have hdata : s.activeAudioList.data = removed :: l.data := by
          rw [PoolList.data, hn]
          rfl
        split
        · rename_i hl
          exact absurd hrem ((BoundedMap.lookup_eq_none_iff _).mp hl)
        · rename_i ssrc hl
          -- the state after the head gave its ssrc back
          set s₂ : ActiveMediaList := { s with
            activeAudioList := l
            audioSsrcRewriteMap := s.audioSsrcRewriteMap.erase removed
            audioSsrcs := s.audioSsrcs ++ [ssrc] }
          have h₂ : AudioInv s₂ ssrcs := by
            refine ⟨?_, ?_, ?_, h.maxSpeakers_eq, h.ssrcs_length, h.ssrcs_le_capacity⟩
            · have := (hdata ▸ h.list_perm).trans (BoundedMap.keys_perm_erase hrem)
              exact this.cons_inv
            · simp only [s₂, hq, List.nil_append, List.singleton_append]
              have := h.ssrcs_perm
              rw [hq, List.nil_append] at this
              exact (BoundedMap.values_perm_erase hl).symm.trans this
            · intro k hk
              exact h.keys_participants k (BoundedMap.mem_keys_erase.mp hk).2
          have he₂ : e ∉ s₂.audioSsrcRewriteMap.keys := fun hk =>
            he (BoundedMap.mem_keys_erase.mp hk).2
          refine ⟨h₂.takeAudioSsrc e PoolList.linksNew_pushToTail he₂ hpart, ?_⟩
          apply takeAudioSsrc_room
          simp only [s₂, hq, List.nil_append, List.length_singleton]
          exact Nat.add_le_add_right s.audioParticipants.size_le 1
    · exact ⟨h.takeAudioSsrc e PoolList.linksNew_pushToTail he hpart,
        takeAudioSsrc_room e _ (Nat.le_succ_of_le hr)⟩

end ActiveMediaList

end MediaBridge.Bridge
