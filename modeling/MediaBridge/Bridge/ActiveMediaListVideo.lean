import MediaBridge.Bridge.ActiveMediaListAudio

set_option autoImplicit false

/-! # `ActiveMediaList`: the active video list and its groups

`VideoInv s groups` is what holds of the video fields after every call, from a constructor
whose non-screen-share groups are `groups`: the lookup map holds, per endpoint of the active
video list, exactly that endpoint's list entry; the list holds video participants only and at
most `_maxActiveListSize` of them; every endpoint holding a group is in the list; and the free
groups with the groups held are `groups`. Where the groups have three ssrc pairs each, no main
ssrc twice, and the reverse map has room for the mains of a full list (`ReverseRoom`), the
reverse map holds exactly the main ssrcs of the held groups. `VideoRoom` is the count that keeps
the participant map from filling up while the list has a free place, so that a participant that
could enter the list is always stored.

The lemmas follow the operations: `join` is a participant entering the list (a group if it sends
video, then an entry at the head or the tail), `evict` the head leaving a full list, and each
public operation has one lemma built from them. No video operation touches an audio field, the
dominant speaker or `_audioLastN` (`VideoOnly`).
-/

namespace MediaBridge.Bridge

namespace ActiveMediaList

open Memory

variable (s : ActiveMediaList) (e : Nat)

/-! ## The reverse map's folds

A group's main ssrcs enter and leave the reverse map one pair at a time; as folds over the
mains they are `BoundedMap`'s folds. -/

theorem foldl_emplace_mains (g : SimulcastGroup) (m : BoundedMap (BitVec 32) Nat) :
    g.pairs.foldl (fun m ssrcPair => m.emplace ssrcPair.main e) m =
      g.mains.foldl (fun m k => m.emplace k e) m := by
  rw [SimulcastGroup.mains, List.foldl_map]

theorem foldl_erase_mains (g : SimulcastGroup) (m : BoundedMap (BitVec 32) Nat) :
    g.pairs.foldl (fun m ssrcPair => m.erase ssrcPair.main) m =
      g.mains.foldl (fun m k => m.erase k) m := by
  rw [SimulcastGroup.mains, List.foldl_map]

@[simp] theorem capacity_reverse_addToVideoRewriteMap (g : SimulcastGroup) :
    (s.addToVideoRewriteMap e g).reverseVideoSsrcRewriteMap.capacity =
      s.reverseVideoSsrcRewriteMap.capacity := by
  dsimp only [addToVideoRewriteMap]
  rw [foldl_emplace_mains, BoundedMap.capacity_foldl_emplace]

@[simp] theorem capacity_reverse_removeFromRewriteMap :
    (s.removeFromRewriteMap e).reverseVideoSsrcRewriteMap.capacity =
      s.reverseVideoSsrcRewriteMap.capacity := by
  unfold removeFromRewriteMap
  split
  · rfl
  · dsimp only
    rw [foldl_erase_mains, BoundedMap.capacity_foldl_erase]

/-! ## What the video operations leave alone -/

/-- `s'` differs from `s` at most in the contents of its video fields: the audio fields, the
dominant speaker, `_audioLastN`, the list bound and the reverse map's capacity are the same. -/
def VideoOnly (s s' : ActiveMediaList) : Prop :=
  s'.audio = s.audio ∧ s'.dominantSpeaker = s.dominantSpeaker ∧ s'.audioLastN = s.audioLastN ∧
    s'.maxActiveListSize = s.maxActiveListSize ∧
    s'.reverseVideoSsrcRewriteMap.capacity = s.reverseVideoSsrcRewriteMap.capacity

theorem VideoOnly.refl (s : ActiveMediaList) : VideoOnly s s := ⟨rfl, rfl, rfl, rfl, rfl⟩

theorem VideoOnly.trans {s s' s'' : ActiveMediaList} (h₁ : VideoOnly s s') (h₂ : VideoOnly s' s'') :
    VideoOnly s s'' :=
  ⟨h₂.1.trans h₁.1, h₂.2.1.trans h₁.2.1, h₂.2.2.1.trans h₁.2.2.1, h₂.2.2.2.1.trans h₁.2.2.2.1,
    h₂.2.2.2.2.trans h₁.2.2.2.2⟩

theorem videoOnly_removeFromRewriteMap : VideoOnly s (s.removeFromRewriteMap e) := by
  refine ⟨?_, ?_, ?_, ?_, capacity_reverse_removeFromRewriteMap s e⟩ <;>
    (unfold removeFromRewriteMap; split <;> rfl)

theorem videoOnly_takeVideoGroup {sending : Bool} {s' : ActiveMediaList}
    (h : s.takeVideoGroup e sending = some s') : VideoOnly s s' := by
  unfold takeVideoGroup at h
  split at h
  · split at h
    · cases h
    · cases h
      exact ⟨rfl, rfl, rfl, rfl, capacity_reverse_addToVideoRewriteMap _ e _⟩
  · cases h
    exact VideoOnly.refl _

theorem videoOnly_enterActiveVideoList (p : VideoParticipant) :
    VideoOnly s (s.enterActiveVideoList e p).1 := by
  unfold enterActiveVideoList
  split
  · exact VideoOnly.refl _
  · rename_i s' hs'
    exact (videoOnly_takeVideoGroup s e hs').trans ⟨rfl, rfl, rfl, rfl, rfl⟩

theorem videoOnly_updateActiveVideoList : VideoOnly s (s.updateActiveVideoList e).1 := by
  unfold updateActiveVideoList
  dsimp only
  split
  · exact VideoOnly.refl _
  · split
    · exact VideoOnly.refl _
    · split
      · split
        · exact VideoOnly.refl _
        · rename_i removed l _
          refine VideoOnly.trans ?_ (videoOnly_enterActiveVideoList _ e _)
          split
          · exact videoOnly_removeFromRewriteMap _ removed
          · exact VideoOnly.refl _
      · exact videoOnly_enterActiveVideoList s e _

theorem videoOnly_onVideoParticipantAdded (p : VideoParticipant) :
    VideoOnly s (s.onVideoParticipantAdded e p).1 := by
  unfold onVideoParticipantAdded
  dsimp only
  split
  · split
    · exact VideoOnly.refl _
    · exact videoOnly_updateActiveVideoList s _
  · split
    · exact VideoOnly.refl _
    · rename_i s' hs'
      have h₁ : VideoOnly s (s'.linkVideoEntry e PoolList.pushToHead PoolList.head) :=
        (videoOnly_takeVideoGroup s e hs').trans ⟨rfl, rfl, rfl, rfl, rfl⟩
      split
      · exact h₁
      · exact h₁.trans (videoOnly_updateActiveVideoList _ _)

theorem videoOnly_storeVideoParticipant (p : VideoParticipant) :
    VideoOnly s (s.storeVideoParticipant e p).1 := by
  have h₁ : VideoOnly s { s with videoParticipants := s.videoParticipants.emplace e p } :=
    ⟨rfl, rfl, rfl, rfl, rfl⟩
  exact h₁.trans (videoOnly_onVideoParticipantAdded _ e p)

theorem videoOnly_addVideoParticipant (p : VideoParticipant) :
    VideoOnly s (s.addVideoParticipant e p).1 := by
  unfold addVideoParticipant
  split
  · exact VideoOnly.refl _
  · exact videoOnly_storeVideoParticipant s e p

theorem videoOnly_removeVideoParticipant : VideoOnly s (s.removeVideoParticipant e).1 := by
  unfold removeVideoParticipant
  dsimp only
  split
  · exact VideoOnly.refl _
  · have h₁ : VideoOnly s { s with videoParticipants := s.videoParticipants.erase e } :=
      ⟨rfl, rfl, rfl, rfl, rfl⟩
    exact h₁.trans ((videoOnly_removeFromRewriteMap _ e).trans ⟨rfl, rfl, rfl, rfl, rfl⟩)

theorem videoOnly_addBarbellVideoParticipant (p : VideoParticipant) :
    VideoOnly s (s.addBarbellVideoParticipant e p).1 := by
  unfold addBarbellVideoParticipant
  split
  · split
    · exact VideoOnly.refl _
    · exact (videoOnly_removeVideoParticipant s e).trans (videoOnly_storeVideoParticipant _ e p)
  · exact videoOnly_storeVideoParticipant s e p

/-! ## The invariant -/

/-- The lookup map entry of an active video list entry. -/
def lookupEntry (x : Fin 32 × Nat) : Nat × Option (Fin 32) := (x.2, some x.1)

/-- The reverse map entries of a held group: each main ssrc of the group back to the endpoint. -/
def reverseEntries (x : Nat × SimulcastGroup) : List (BitVec 32 × Nat) :=
  x.2.mains.map fun m => (m, x.1)

/-- Groups the reverse map can mirror: three ssrc pairs each, no main ssrc in two of them, and
room in the reverse map for the main ssrcs of a full list. -/
def ReverseRoom (s : ActiveMediaList) (groups : List SimulcastGroup) : Prop :=
  (groups.flatMap SimulcastGroup.mains).Nodup ∧ (∀ g ∈ groups, g.pairs.length = 3) ∧
    3 * s.maxActiveListSize ≤ s.reverseVideoSsrcRewriteMap.capacity

/-- What holds of the video fields after every call, for a constructor whose non-screen-share
groups are `groups`. -/
structure VideoInv (s : ActiveMediaList) (groups : List SimulcastGroup) : Prop where
  /-- The lookup map points every endpoint of the list at its own entry, and at nothing else. -/
  lookup_perm : s.activeVideoListLookupMap.entries.Perm (s.activeVideoList.entries.map lookupEntry)
  list_participants : ∀ e ∈ s.activeVideoList.data, e ∈ s.videoParticipants.keys
  keys_list : ∀ e ∈ s.videoSsrcRewriteMap.keys, e ∈ s.activeVideoList.data
  /-- No group is lost or shared. -/
  groups_perm : (s.videoSsrcs ++ s.videoSsrcRewriteMap.values).Perm groups
  list_length : s.activeVideoList.length ≤ s.maxActiveListSize
  nonzero : 0 ∉ s.videoParticipants.keys
  groups_length : s.maxActiveListSize ≤ groups.length
  maxActive_pos : 0 < s.maxActiveListSize
  maxActive_le : s.maxActiveListSize ≤ 32
  lookup_capacity : s.maxActiveListSize ≤ s.activeVideoListLookupMap.capacity
  rewrite_capacity : s.maxActiveListSize ≤ s.videoSsrcRewriteMap.capacity
  /-- Where the groups allow it, the reverse map holds exactly the main ssrcs of the held groups. -/
  reverse_perm : ReverseRoom s groups →
    s.reverseVideoSsrcRewriteMap.entries.Perm (s.videoSsrcRewriteMap.entries.flatMap reverseEntries)

/-- While the list has free places, the participant map has room for one more participant per
free place. -/
def VideoRoom (s : ActiveMediaList) : Prop :=
  s.videoParticipants.size + s.maxActiveListSize ≤
    s.videoParticipants.capacity + s.activeVideoList.length

variable {s e} {groups : List SimulcastGroup}

theorem VideoInv.of_video {s' : ActiveMediaList} (h : VideoInv s groups) (he : s'.video = s.video) :
    VideoInv s' groups := by
  simp only [video, VideoView.mk.injEq] at he
  obtain ⟨h₁, h₂, h₃, h₄, h₅, h₆, h₇⟩ := he
  refine ⟨h₆ ▸ h₇ ▸ h.lookup_perm, h₂ ▸ h₆ ▸ h.list_participants, h₄ ▸ h₆ ▸ h.keys_list,
    h₃ ▸ h₄ ▸ h.groups_perm, h₁ ▸ h₆ ▸ h.list_length, h₂ ▸ h.nonzero, h₁ ▸ h.groups_length,
    h₁ ▸ h.maxActive_pos, h₁ ▸ h.maxActive_le, h₁ ▸ h₇ ▸ h.lookup_capacity,
    h₁ ▸ h₄ ▸ h.rewrite_capacity, fun hroom => ?_⟩
  rw [h₄, h₅]
  exact h.reverse_perm ⟨hroom.1, hroom.2.1, h₁ ▸ h₅ ▸ hroom.2.2⟩

theorem VideoRoom.of_video {s' : ActiveMediaList} (h : VideoRoom s) (he : s'.video = s.video) :
    VideoRoom s' := by
  simp only [video, VideoView.mk.injEq] at he
  obtain ⟨h₁, h₂, -, -, -, h₆, -⟩ := he
  unfold VideoRoom
  rw [h₁, h₂, h₆]
  exact h

theorem VideoInv.lookup_keys_perm (h : VideoInv s groups) :
    s.activeVideoListLookupMap.keys.Perm s.activeVideoList.data := by
  have := h.lookup_perm.map Prod.fst
  rw [List.map_map] at this
  exact this

theorem VideoInv.data_nodup (h : VideoInv s groups) : s.activeVideoList.data.Nodup :=
  h.lookup_keys_perm.nodup_iff.mp s.activeVideoListLookupMap.keys_nodup

theorem VideoInv.lookup_size (h : VideoInv s groups) :
    s.activeVideoListLookupMap.size = s.activeVideoList.length := by
  have := h.lookup_keys_perm.length_eq
  rwa [BoundedMap.length_keys, PoolList.length_data] at this

theorem VideoInv.lookup_of_mem (h : VideoInv s groups) {n : Fin 32}
    (hm : (n, e) ∈ s.activeVideoList.entries) :
    s.activeVideoListLookupMap.lookup e = some (some n) :=
  (BoundedMap.lookup_eq_some_iff _).mpr (h.lookup_perm.mem_iff.mpr (List.mem_map_of_mem hm))

theorem VideoInv.rewrite_size_le (h : VideoInv s groups) :
    s.videoSsrcRewriteMap.size ≤ s.activeVideoList.length := by
  have := (s.videoSsrcRewriteMap.keys_nodup.subperm h.keys_list).length_le
  rw [List.length_map, PoolList.length_data] at this
  exact this

theorem VideoInv.free_length (h : VideoInv s groups) :
    s.videoSsrcs.length + s.videoSsrcRewriteMap.size = groups.length := by
  have := h.groups_perm.length_eq
  rwa [List.length_append, BoundedMap.length_values] at this

/-! ## The reverse map

The reverse map is filled and emptied in step with the rewrite map, a group's main ssrcs at a
time. It mirrors the held groups exactly when their mains are distinct and fit in it. -/

section Reverse

theorem keys_flatMap_reverseEntries (l : List (Nat × SimulcastGroup)) :
    (l.flatMap reverseEntries).map Prod.fst = (l.map Prod.snd).flatMap SimulcastGroup.mains := by
  simp [List.map_flatMap, List.flatMap_map, reverseEntries, Function.comp_def]

theorem length_flatMap_reverseEntries {l : List (Nat × SimulcastGroup)}
    (h : ∀ x ∈ l, x.2.pairs.length = 3) : (l.flatMap reverseEntries).length = 3 * l.length := by
  induction l with
  | nil => rfl
  | cons x l ih =>
      have hx : (reverseEntries x).length = 3 := by
        simp [reverseEntries, SimulcastGroup.mains, h x List.mem_cons_self]
      rw [List.flatMap_cons, List.length_append, hx, ih fun y hy => h y (List.mem_cons_of_mem _ hy),
        List.length_cons]
      omega

/-- Only the mains of held groups are keys of a mirroring reverse map. -/
theorem mem_mains_of_mem_reverse
    (hperm : s.reverseVideoSsrcRewriteMap.entries.Perm
      (s.videoSsrcRewriteMap.entries.flatMap reverseEntries))
    {m : BitVec 32} (hm : m ∈ s.reverseVideoSsrcRewriteMap.keys) :
    m ∈ s.videoSsrcRewriteMap.values.flatMap SimulcastGroup.mains := by
  have := (hperm.map Prod.fst).mem_iff.mp hm
  rwa [keys_flatMap_reverseEntries] at this

/-- The mains of the queued and of the held groups, all distinct. -/
theorem nodup_mains_of_perm (hnd : (groups.flatMap SimulcastGroup.mains).Nodup)
    (hgroups : (s.videoSsrcs ++ s.videoSsrcRewriteMap.values).Perm groups) :
    ((s.videoSsrcs ++ s.videoSsrcRewriteMap.values).flatMap SimulcastGroup.mains).Nodup :=
  (hgroups.flatMap_right SimulcastGroup.mains).nodup_iff.mpr hnd

/-- The group at the front of the queue goes to a fresh endpoint: its mains are not yet in the
reverse map, which has room for them, and so the reverse map mirrors the held groups again. -/
theorem reverse_perm_addToVideoRewriteMap {g : SimulcastGroup} {rest : List SimulcastGroup}
    (hq : s.videoSsrcs = g :: rest) (hroom : ReverseRoom s groups)
    (hgroups : (s.videoSsrcs ++ s.videoSsrcRewriteMap.values).Perm groups)
    (hperm : s.reverseVideoSsrcRewriteMap.entries.Perm
      (s.videoSsrcRewriteMap.entries.flatMap reverseEntries))
    (he : e ∉ s.videoSsrcRewriteMap.keys)
    (hs : s.videoSsrcRewriteMap.size < s.videoSsrcRewriteMap.capacity)
    (hrs : s.videoSsrcRewriteMap.size < s.maxActiveListSize) :
    ({ s with videoSsrcs := rest }.addToVideoRewriteMap e g).reverseVideoSsrcRewriteMap.entries.Perm
      (({ s with videoSsrcs := rest }.addToVideoRewriteMap e g).videoSsrcRewriteMap.entries.flatMap
        reverseEntries) := by
  obtain ⟨hnd, h3, hcap⟩ := hroom
  have hnd' := nodup_mains_of_perm hnd hgroups
  rw [hq, List.cons_append, List.flatMap_cons, List.flatMap_append] at hnd'
  obtain ⟨hgnd, -, hdisj⟩ := List.nodup_append.mp hnd'
  have hfresh : ∀ m ∈ g.mains, m ∉ s.reverseVideoSsrcRewriteMap.keys := fun m hm hk =>
    hdisj m hm m (List.mem_append_right _ (mem_mains_of_mem_reverse hperm hk)) rfl
  -- every held group has three mains, so the reverse map holds three per held group
  have hheld3 : ∀ x ∈ s.videoSsrcRewriteMap.entries, x.2.pairs.length = 3 := fun x hx =>
    h3 x.2 (hgroups.subset (List.mem_append_right _ (List.mem_map_of_mem hx)))
  have hsize : s.reverseVideoSsrcRewriteMap.size = 3 * s.videoSsrcRewriteMap.size := by
    have := hperm.length_eq
    rwa [length_flatMap_reverseEntries hheld3] at this
  have hg3 : g.mains.length = 3 := by
    rw [SimulcastGroup.mains, List.length_map]
    exact h3 g (hgroups.subset (by rw [hq]; exact List.mem_cons_self))
  dsimp only [addToVideoRewriteMap]
  rw [foldl_emplace_mains, BoundedMap.entries_emplace g he hs, List.flatMap_cons]
  refine (BoundedMap.entries_foldl_emplace _ _ _ hgnd hfresh ?_).trans (hperm.append_left _)
  rw [hsize, hg3]
  omega

/-- The group of a leaving endpoint goes back to the queue, and its mains leave the reverse map:
they are no other held group's. -/
theorem reverse_perm_removeFromRewriteMap (hnd : (groups.flatMap SimulcastGroup.mains).Nodup)
    (hgroups : (s.videoSsrcs ++ s.videoSsrcRewriteMap.values).Perm groups)
    (hperm : s.reverseVideoSsrcRewriteMap.entries.Perm
      (s.videoSsrcRewriteMap.entries.flatMap reverseEntries)) :
    (s.removeFromRewriteMap e).reverseVideoSsrcRewriteMap.entries.Perm
      ((s.removeFromRewriteMap e).videoSsrcRewriteMap.entries.flatMap reverseEntries) := by
  unfold removeFromRewriteMap
  split
  · exact hperm
  · rename_i g hl
    dsimp only
    have hvals := BoundedMap.values_perm_erase hl
    have hnd' := nodup_mains_of_perm hnd hgroups
    rw [List.flatMap_append] at hnd'
    have hnd'' := (hvals.flatMap_right SimulcastGroup.mains).nodup_iff.mp
      (List.nodup_append.mp hnd').2.1
    rw [List.flatMap_cons] at hnd''
    have hdisj := (List.nodup_append.mp hnd'').2.2
    rw [foldl_erase_mains, BoundedMap.entries_foldl_erase]
    refine ((hperm.trans ((BoundedMap.perm_erase hl).flatMap_right reverseEntries)).filter _).trans ?_
    rw [List.flatMap_cons, List.filter_append]
    -- the group's own mains are all filtered out, the other held groups' mains all stay
    have hout : (reverseEntries (e, g)).filter (fun y => decide (y.1 ∉ g.mains)) = [] := by
      rw [List.filter_eq_nil_iff]
      intro y hy
      obtain ⟨m, hm, rfl⟩ := List.mem_map.mp hy
      simpa using hm
    have hstay : ((s.videoSsrcRewriteMap.erase e).entries.flatMap reverseEntries).filter
        (fun y => decide (y.1 ∉ g.mains)) =
        (s.videoSsrcRewriteMap.erase e).entries.flatMap reverseEntries := by
      rw [List.filter_eq_self]
      intro y hy
      have hy' : y.1 ∈ (s.videoSsrcRewriteMap.erase e).values.flatMap SimulcastGroup.mains := by
        rw [BoundedMap.values, ← keys_flatMap_reverseEntries]
        exact List.mem_map_of_mem hy
      simpa using fun hm => hdisj y.1 hm y.1 hy' rfl
    rw [hout, hstay, List.nil_append]

end Reverse

/-! ## A participant joins the list -/

/-- Linking an endpoint that is not in the list into a list with a free place keeps the lookup
map pointing at exactly the list's entries. -/
theorem lookup_perm_linkVideoEntry {push : PoolList Nat 32 → Nat → PoolList Nat 32 × Bool}
    {entry : PoolList Nat 32 → Option (Fin 32)} (hp : PoolList.LinksNew push entry)
    (hperm : s.activeVideoListLookupMap.entries.Perm (s.activeVideoList.entries.map lookupEntry))
    (hnot : e ∉ s.activeVideoList.data) (hlen : s.activeVideoList.length < 32)
    (hcap : s.activeVideoList.length < s.activeVideoListLookupMap.capacity) :
    (s.linkVideoEntry e push entry).activeVideoListLookupMap.entries.Perm
      ((s.linkVideoEntry e push entry).activeVideoList.entries.map lookupEntry) := by
  obtain ⟨n, hn, hentry⟩ := hp s.activeVideoList e hlen
  have hkeys : s.activeVideoListLookupMap.keys.Perm s.activeVideoList.data := by
    have := hperm.map Prod.fst
    rwa [List.map_map] at this
  have hsize : s.activeVideoListLookupMap.size = s.activeVideoList.length := by
    have := hkeys.length_eq
    rwa [BoundedMap.length_keys, PoolList.length_data] at this
  have he : e ∉ s.activeVideoListLookupMap.keys := fun hk => hnot (hkeys.mem_iff.mp hk)
  dsimp only [linkVideoEntry]
  rw [BoundedMap.entries_emplace _ he (hsize ▸ hcap), hentry]
  exact (hperm.cons _).trans (hn.map lookupEntry).symm

/-- What a participant joining the list leaves: the invariant, one more list entry, the same
participants and list size, and one more group held if it sends video. -/
structure Joined (s s' : ActiveMediaList) (groups : List SimulcastGroup) (sending : Bool) : Prop where
  inv : VideoInv s' groups
  length_eq : s'.activeVideoList.length = s.activeVideoList.length + 1
  participants_eq : s'.videoParticipants = s.videoParticipants
  maxActive_eq : s'.maxActiveListSize = s.maxActiveListSize
  size_eq : s'.videoSsrcRewriteMap.size = s.videoSsrcRewriteMap.size + if sending then 1 else 0

/-- Joining fills one free place of the room. -/
theorem Joined.room {s' : ActiveMediaList} {sending : Bool} (hj : Joined s s' groups sending)
    (h : s.videoParticipants.size + s.maxActiveListSize ≤
      s.videoParticipants.capacity + s.activeVideoList.length + 1) : VideoRoom s' := by
  unfold VideoRoom
  rw [hj.participants_eq, hj.maxActive_eq, hj.length_eq]
  exact h

/-- A participant outside a list with a free place takes a group if it sends video, and joins
the list through `push`. -/
theorem VideoInv.join {push : PoolList Nat 32 → Nat → PoolList Nat 32 × Bool}
    {entry : PoolList Nat 32 → Option (Fin 32)} (h : VideoInv s groups)
    (hp : PoolList.LinksNew push entry) (hpart : e ∈ s.videoParticipants.keys)
    (hnot : e ∉ s.activeVideoList.data) (hlen : s.activeVideoList.length < s.maxActiveListSize)
    (sending : Bool) :
    ∃ s', s.takeVideoGroup e sending = some s' ∧
      Joined s (s'.linkVideoEntry e push entry) groups sending := by
  have he : e ∉ s.videoSsrcRewriteMap.keys := fun hk => hnot (h.keys_list e hk)
  have hrs : s.videoSsrcRewriteMap.size < s.maxActiveListSize :=
    Nat.lt_of_le_of_lt h.rewrite_size_le hlen
  have hl32 : s.activeVideoList.length < 32 := Nat.lt_of_lt_of_le hlen h.maxActive_le
  have hcap : s.activeVideoList.length < s.activeVideoListLookupMap.capacity :=
    Nat.lt_of_lt_of_le hlen h.lookup_capacity
  have hdata := hp.data_perm e hl32
  have hlength := hp.length_eq e hl32
  -- the list part is the same whichever group is taken
  have hlist : ∀ x ∈ (push s.activeVideoList e).1.data, x ∈ s.videoParticipants.keys := by
    intro x hx
    rcases List.mem_cons.mp (hdata.mem_iff.mp hx) with rfl | hx
    · exact hpart
    · exact h.list_participants x hx
  have hin : ∀ x, x = e ∨ x ∈ s.activeVideoList.data → x ∈ (push s.activeVideoList e).1.data :=
    fun x hx => hdata.mem_iff.mpr (List.mem_cons.mpr hx)
  cases sending with
  | false =>
      refine ⟨s, rfl, ⟨lookup_perm_linkVideoEntry hp h.lookup_perm hnot hl32 hcap, hlist,
        fun x hx => hin x (.inr (h.keys_list x hx)), h.groups_perm, ?_, h.nonzero,
        h.groups_length, h.maxActive_pos, h.maxActive_le, ?_, h.rewrite_capacity, h.reverse_perm⟩,
        hlength, rfl, rfl, rfl⟩
      · dsimp only [linkVideoEntry]
        rw [hlength]
        exact hlen
      · dsimp only [linkVideoEntry]
        rw [BoundedMap.capacity_emplace]
        exact h.lookup_capacity
  | true =>
      -- a group is free: fewer groups are held than places in the list
      obtain ⟨g, rest, hq⟩ : ∃ g rest, s.videoSsrcs = g :: rest := by
        have h₁ := h.free_length
        have h₂ := h.groups_length
        match hq : s.videoSsrcs with
        | [] =>
            rw [hq, List.length_nil] at h₁
            exfalso
            omega
        | g :: rest => exact ⟨g, rest, rfl⟩
      have hrc : s.videoSsrcRewriteMap.size < s.videoSsrcRewriteMap.capacity :=
        Nat.lt_of_lt_of_le hrs h.rewrite_capacity
      have htake : s.takeVideoGroup e true =
          some ({ s with videoSsrcs := rest }.addToVideoRewriteMap e g) := by
        unfold takeVideoGroup
        rw [if_pos rfl]
        split
        · rename_i hq'
          rw [hq] at hq'
          cases hq'
        · rename_i g' rest' hq'
          rw [hq] at hq'
          cases hq'
          rfl
      refine ⟨_, htake, ⟨lookup_perm_linkVideoEntry hp h.lookup_perm hnot hl32 hcap, hlist, ?_, ?_,
        ?_, h.nonzero, h.groups_length, h.maxActive_pos, h.maxActive_le, ?_, ?_, ?_⟩, hlength, rfl, rfl,
        ?_⟩
      · dsimp only [linkVideoEntry, addToVideoRewriteMap]
        rw [BoundedMap.keys_emplace g he hrc]
        intro x hx
        rcases List.mem_cons.mp hx with rfl | hx
        · exact hin x (.inl rfl)
        · exact hin x (.inr (h.keys_list x hx))
      · dsimp only [linkVideoEntry, addToVideoRewriteMap]
        rw [BoundedMap.values_emplace g he hrc]
        have := h.groups_perm
        rw [hq] at this
        exact List.perm_middle.trans this
      · dsimp only [linkVideoEntry, addToVideoRewriteMap]
        rw [hlength]
        exact hlen
      · dsimp only [linkVideoEntry, addToVideoRewriteMap]
        rw [BoundedMap.capacity_emplace]
        exact h.lookup_capacity
      · dsimp only [linkVideoEntry, addToVideoRewriteMap]
        rw [BoundedMap.capacity_emplace]
        exact h.rewrite_capacity
      · intro hroom
        have hroom' : ReverseRoom s groups :=
          ⟨hroom.1, hroom.2.1, by simpa [linkVideoEntry, addToVideoRewriteMap, foldl_emplace_mains] using hroom.2.2⟩
        exact reverse_perm_addToVideoRewriteMap hq hroom' h.groups_perm (h.reverse_perm hroom') he hrc
          hrs
      · dsimp only [linkVideoEntry, addToVideoRewriteMap]
        rw [BoundedMap.size, BoundedMap.entries_emplace g he hrc, List.length_cons]
        rfl

/-! ## A group goes back -/

section RemoveFromRewriteMap

variable (x : Nat)

@[simp] theorem activeVideoList_removeFromRewriteMap :
    (s.removeFromRewriteMap x).activeVideoList = s.activeVideoList := by
  unfold removeFromRewriteMap
  split <;> rfl

@[simp] theorem activeVideoListLookupMap_removeFromRewriteMap :
    (s.removeFromRewriteMap x).activeVideoListLookupMap = s.activeVideoListLookupMap := by
  unfold removeFromRewriteMap
  split <;> rfl

@[simp] theorem videoParticipants_removeFromRewriteMap :
    (s.removeFromRewriteMap x).videoParticipants = s.videoParticipants := by
  unfold removeFromRewriteMap
  split <;> rfl

@[simp] theorem maxActiveListSize_removeFromRewriteMap :
    (s.removeFromRewriteMap x).maxActiveListSize = s.maxActiveListSize := by
  unfold removeFromRewriteMap
  split <;> rfl

@[simp] theorem capacity_removeFromRewriteMap :
    (s.removeFromRewriteMap x).videoSsrcRewriteMap.capacity = s.videoSsrcRewriteMap.capacity := by
  unfold removeFromRewriteMap
  split <;> rfl

theorem keys_removeFromRewriteMap :
    (s.removeFromRewriteMap x).videoSsrcRewriteMap.keys = s.videoSsrcRewriteMap.keys.erase x := by
  unfold removeFromRewriteMap
  split
  · rename_i hl
    exact (List.erase_of_not_mem ((BoundedMap.lookup_eq_none_iff _).mp hl)).symm
  · exact BoundedMap.keys_erase _ x

/-- The group of the endpoint goes back to the queue: none is lost or shared. -/
theorem groups_perm_removeFromRewriteMap
    (h : (s.videoSsrcs ++ s.videoSsrcRewriteMap.values).Perm groups) :
    ((s.removeFromRewriteMap x).videoSsrcs ++ (s.removeFromRewriteMap x).videoSsrcRewriteMap.values).Perm
      groups := by
  unfold removeFromRewriteMap
  split
  · exact h
  · rename_i g hl
    dsimp only
    rw [List.append_assoc, List.singleton_append]
    exact ((BoundedMap.values_perm_erase hl).symm.append_left _).trans h

end RemoveFromRewriteMap

/-! ## The operations -/

/-- Storing a new participant keeps the invariant. -/
theorem VideoInv.emplaceParticipant (h : VideoInv s groups) (he0 : e ≠ 0) (p : VideoParticipant) :
    VideoInv { s with videoParticipants := s.videoParticipants.emplace e p } groups :=
  { h with
    list_participants := fun x hx =>
      BoundedMap.keys_subset_emplace _ _ _ (h.list_participants x hx)
    nonzero := fun h0 => by
      rcases BoundedMap.mem_keys_emplace h0 with h0 | h0
      · exact he0 h0.symm
      · exact h.nonzero h0 }

/-- The head of a full list leaves with its group: the first half of `updateActiveVideoList` for
an endpoint outside the list. -/
theorem VideoInv.evict (h : VideoInv s groups) {removed : Nat} {l : PoolList Nat 32}
    (hpop : s.activeVideoList.popFromHead = some (removed, l)) :
    VideoInv ({ s with
        activeVideoList := l
        activeVideoListLookupMap := s.activeVideoListLookupMap.erase removed
      }.removeFromRewriteMap removed) groups ∧
      l.length + 1 = s.activeVideoList.length ∧ removed ≠ 0 ∧
      ∀ x ∈ l.data, x ∈ s.activeVideoList.data := by
  obtain ⟨n, hn⟩ := PoolList.entries_of_popFromHead hpop
  have hdata : s.activeVideoList.data = removed :: l.data := by
    rw [PoolList.data, hn]
    rfl
  have hmem : removed ∈ s.activeVideoList.data := by
    rw [hdata]
    exact List.mem_cons_self
  have hnd := h.data_nodup
  rw [hdata, List.nodup_cons] at hnd
  have hl : l.length + 1 = s.activeVideoList.length := by
    simp only [PoolList.length, hn, List.length_cons]
  have hsub : ∀ x ∈ l.data, x ∈ s.activeVideoList.data := fun x hx => by
    rw [hdata]
    exact List.mem_cons_of_mem _ hx
  have hne : removed ≠ 0 := fun h0 => h.nonzero (h0 ▸ h.list_participants removed hmem)
  refine ⟨⟨?_, ?_, ?_, ?_, ?_, ?_, ?_, ?_, ?_, ?_, ?_, ?_⟩, hl, hne, hsub⟩
  · -- the lookup map loses the head's entry
    simp only [activeVideoListLookupMap_removeFromRewriteMap, activeVideoList_removeFromRewriteMap]
    have hlk := h.lookup_of_mem (n := n) (e := removed) (by simp [hn])
    have hmap : s.activeVideoList.entries.map lookupEntry =
        lookupEntry (n, removed) :: l.entries.map lookupEntry := by
      rw [hn, List.map_cons]
    have := (BoundedMap.perm_erase hlk).symm.trans (hmap ▸ h.lookup_perm)
    exact this.cons_inv
  · simp only [activeVideoList_removeFromRewriteMap, videoParticipants_removeFromRewriteMap]
    exact fun x hx => h.list_participants x (hsub x hx)
  · simp only [activeVideoList_removeFromRewriteMap]
    intro x hx
    rw [keys_removeFromRewriteMap] at hx
    have hx' := (s.videoSsrcRewriteMap.keys_nodup.mem_erase_iff).mp hx
    have := h.keys_list x hx'.2
    rw [hdata] at this
    rcases List.mem_cons.mp this with rfl | hx''
    · exact absurd rfl hx'.1
    · exact hx''
  · exact groups_perm_removeFromRewriteMap removed h.groups_perm
  · simp only [activeVideoList_removeFromRewriteMap, maxActiveListSize_removeFromRewriteMap]
    have := h.list_length
    simp only [PoolList.length] at this hl ⊢
    omega
  · simp only [videoParticipants_removeFromRewriteMap]
    exact h.nonzero
  · simp only [maxActiveListSize_removeFromRewriteMap]
    exact h.groups_length
  · simp only [maxActiveListSize_removeFromRewriteMap]
    exact h.maxActive_pos
  · simp only [maxActiveListSize_removeFromRewriteMap]
    exact h.maxActive_le
  · simp only [maxActiveListSize_removeFromRewriteMap, activeVideoListLookupMap_removeFromRewriteMap]
    exact h.lookup_capacity
  · simp only [maxActiveListSize_removeFromRewriteMap, capacity_removeFromRewriteMap]
    exact h.rewrite_capacity
  · intro hroom
    have hroom' : ReverseRoom s groups :=
      ⟨hroom.1, hroom.2.1, by simpa using hroom.2.2⟩
    exact reverse_perm_removeFromRewriteMap hroom'.1 h.groups_perm (h.reverse_perm hroom')

/-- An endpoint in the list moves to the tail: its entry is unlinked and a new one is linked
at the tail, and the lookup map follows. -/
theorem VideoInv.moveToTail (h : VideoInv s groups) (hr : VideoRoom s)
    (hin : e ∈ s.activeVideoList.data) :
    VideoInv ({ s with
        activeVideoList := (s.activeVideoList.remove e).1
        activeVideoListLookupMap := s.activeVideoListLookupMap.erase e
      }.linkVideoEntry e PoolList.pushToTail PoolList.tail) groups ∧
    VideoRoom ({ s with
        activeVideoList := (s.activeVideoList.remove e).1
        activeVideoListLookupMap := s.activeVideoListLookupMap.erase e
      }.linkVideoEntry e PoolList.pushToTail PoolList.tail) := by
  obtain ⟨n, hmem, hperm⟩ := PoolList.remove_of_mem hin
  have hdperm : s.activeVideoList.data.Perm (e :: (s.activeVideoList.remove e).1.data) :=
    hperm.map Prod.snd
  have hnot : e ∉ (s.activeVideoList.remove e).1.data :=
    (List.nodup_cons.mp (hdperm.nodup_iff.mp h.data_nodup)).1
  have hlen : (s.activeVideoList.remove e).1.length + 1 = s.activeVideoList.length := by
    have := hperm.length_eq
    simp only [List.length_cons] at this
    exact this.symm
  have hlmax := h.list_length
  have hl32 : (s.activeVideoList.remove e).1.length < 32 := by
    have := h.maxActive_le
    omega
  -- unlinking `e` takes its entry out of the lookup map
  have hperm₁ : (s.activeVideoListLookupMap.erase e).entries.Perm
      ((s.activeVideoList.remove e).1.entries.map lookupEntry) := by
    have hlk := h.lookup_of_mem hmem
    exact ((BoundedMap.perm_erase hlk).symm.trans (h.lookup_perm.trans (hperm.map lookupEntry))).cons_inv
  have hlp := lookup_perm_linkVideoEntry
    (s := { s with
      activeVideoList := (s.activeVideoList.remove e).1
      activeVideoListLookupMap := s.activeVideoListLookupMap.erase e })
    PoolList.linksNew_pushToTail hperm₁ hnot hl32
    (by have := h.lookup_capacity; dsimp only; rw [BoundedMap.capacity_erase]; omega)
  have hdata := PoolList.linksNew_pushToTail.data_perm e hl32
  have hsame : ∀ x, x ∈ ((s.activeVideoList.remove e).1.pushToTail e).1.data ↔
      x ∈ s.activeVideoList.data := fun x => (hdata.trans hdperm.symm).mem_iff
  have hlen' := PoolList.linksNew_pushToTail.length_eq e hl32
  refine ⟨⟨hlp, ?_, ?_, h.groups_perm, ?_, h.nonzero, h.groups_length, h.maxActive_pos,
    h.maxActive_le, ?_, h.rewrite_capacity, h.reverse_perm⟩, ?_⟩
  · exact fun x hx => h.list_participants x ((hsame x).mp hx)
  · exact fun x hx => (hsame x).mpr (h.keys_list x hx)
  · dsimp only [linkVideoEntry]
    omega
  · dsimp only [linkVideoEntry]
    rw [BoundedMap.capacity_emplace, BoundedMap.capacity_erase]
    exact h.lookup_capacity
  · unfold VideoRoom at hr ⊢
    dsimp only [linkVideoEntry]
    omega

theorem VideoInv.updateActiveVideoList (h : VideoInv s groups) (hr : VideoRoom s) :
    VideoInv (s.updateActiveVideoList e).1 groups ∧ VideoRoom (s.updateActiveVideoList e).1 := by
  unfold ActiveMediaList.updateActiveVideoList
  dsimp only
  split
  · exact ⟨h, hr⟩
  · rename_i p hp
    have hpart : e ∈ s.videoParticipants.keys := BoundedMap.mem_keys_of_lookup hp
    split
    · rename_i hin
      exact h.moveToTail hr hin
    · rename_i hnot
      split
      · -- a full list: the head leaves first
        split
        · exact ⟨h, hr⟩
        · rename_i removed l hpop
          obtain ⟨hev, hl, hne, hsub⟩ := h.evict hpop
          rw [if_pos hne]
          have hlt : l.length < s.maxActiveListSize := by
            have := h.list_length
            omega
          obtain ⟨s', htake, hj⟩ := hev.join PoolList.linksNew_pushToTail
            (by simpa using hpart) (by simpa using fun hx => hnot (hsub e hx)) (by simpa using hlt)
            p.isSendingVideo
          unfold ActiveMediaList.enterActiveVideoList
          rw [htake]
          refine ⟨hj.inv, hj.room ?_⟩
          unfold VideoRoom at hr
          simp only [videoParticipants_removeFromRewriteMap, maxActiveListSize_removeFromRewriteMap,
            activeVideoList_removeFromRewriteMap]
          omega
      · -- a free place
        rename_i hfree
        have hlt : s.activeVideoList.length < s.maxActiveListSize := by
          have := h.list_length
          rw [h.lookup_size] at hfree
          omega
        obtain ⟨s', htake, hj⟩ := h.join PoolList.linksNew_pushToTail hpart hnot hlt p.isSendingVideo
        unfold ActiveMediaList.enterActiveVideoList
        rw [htake]
        exact ⟨hj.inv, hj.room (by unfold VideoRoom at hr; omega)⟩

/-- A new participant is stored and enters the list at the head if the list has a free place;
then the dominant speaker, if it is this participant, goes to the tail. -/
theorem VideoInv.storeVideoParticipant (h : VideoInv s groups) (hr : VideoRoom s)
    (hnew : e ∉ s.videoParticipants.keys) (he0 : e ≠ 0) (p : VideoParticipant) :
    VideoInv (s.storeVideoParticipant e p).1 groups ∧ VideoRoom (s.storeVideoParticipant e p).1 := by
  have hnot : e ∉ s.activeVideoList.data := fun hx => hnew (h.list_participants e hx)
  have h₁ := h.emplaceParticipant he0 p
  unfold ActiveMediaList.storeVideoParticipant ActiveMediaList.onVideoParticipantAdded
  dsimp only
  split
  · -- a full list: the participant waits outside it
    rename_i hfull
    have hr₁ : VideoRoom { s with videoParticipants := s.videoParticipants.emplace e p } := by
      unfold VideoRoom
      dsimp only
      rw [BoundedMap.capacity_emplace, ← h.lookup_size, hfull]
      have := (s.videoParticipants.emplace e p).size_le
      rw [BoundedMap.capacity_emplace] at this
      omega
    split
    · exact ⟨h₁, hr₁⟩
    · exact h₁.updateActiveVideoList hr₁
  · -- a free place, so the participant map had room and stored the participant
    rename_i hfree
    have hlt : s.activeVideoList.length < s.maxActiveListSize := by
      have := h.list_length
      rw [h.lookup_size] at hfree
      omega
    have hs : s.videoParticipants.size < s.videoParticipants.capacity := by
      unfold VideoRoom at hr
      omega
    have hkeys := BoundedMap.keys_emplace p hnew hs
    obtain ⟨s', htake, hj⟩ := h₁.join PoolList.linksNew_pushToHead
      (by dsimp only; rw [hkeys]; exact List.mem_cons_self) hnot hlt p.isSendingVideo
    rw [htake]
    dsimp only
    have hr₂ := hj.room (by
      unfold VideoRoom at hr
      have hsize : (s.videoParticipants.emplace e p).size = s.videoParticipants.size + 1 := by
        rw [← BoundedMap.length_keys, hkeys, List.length_cons, BoundedMap.length_keys]
      dsimp only
      rw [hsize, BoundedMap.capacity_emplace]
      omega)
    split
    · exact ⟨hj.inv, hr₂⟩
    · exact hj.inv.updateActiveVideoList hr₂

theorem VideoInv.addVideoParticipant (h : VideoInv s groups) (hr : VideoRoom s) (he0 : e ≠ 0)
    (p : VideoParticipant) :
    VideoInv (s.addVideoParticipant e p).1 groups ∧ VideoRoom (s.addVideoParticipant e p).1 := by
  unfold ActiveMediaList.addVideoParticipant
  split
  · exact ⟨h, hr⟩
  · rename_i hc
    exact h.storeVideoParticipant hr (fun hk => hc ((BoundedMap.contains_iff _).mpr hk)) he0 p

/-- Unlinking an endpoint, in the list or not: the lookup map without its entry matches the
list, and the list keeps every other endpoint. -/
theorem VideoInv.unlink (h : VideoInv s groups) (e : Nat) :
    (s.activeVideoListLookupMap.erase e).entries.Perm
        ((s.activeVideoList.remove e).1.entries.map lookupEntry) ∧
      (∀ x, x ∈ (s.activeVideoList.remove e).1.data ↔ x ∈ s.activeVideoList.data ∧ x ≠ e) ∧
      s.activeVideoList.length ≤ (s.activeVideoList.remove e).1.length + 1 := by
  by_cases hin : e ∈ s.activeVideoList.data
  · obtain ⟨n, hmem, hperm⟩ := PoolList.remove_of_mem hin
    have hdperm : s.activeVideoList.data.Perm (e :: (s.activeVideoList.remove e).1.data) :=
      hperm.map Prod.snd
    have hnd := hdperm.nodup_iff.mp h.data_nodup
    refine ⟨?_, fun x => ?_, ?_⟩
    · have hlk := h.lookup_of_mem hmem
      exact ((BoundedMap.perm_erase hlk).symm.trans (h.lookup_perm.trans (hperm.map lookupEntry))).cons_inv
    · rw [hdperm.mem_iff, List.mem_cons]
      constructor
      · intro hx
        exact ⟨.inr hx, fun hxe => (List.nodup_cons.mp hnd).1 (hxe ▸ hx)⟩
      · rintro ⟨hx | hx, hxe⟩
        · exact absurd hx hxe
        · exact hx
    · have := hperm.length_eq
      simp only [List.length_cons] at this
      exact Nat.le_of_eq this
  · have hk : e ∉ s.activeVideoListLookupMap.keys := fun hk => hin (h.lookup_keys_perm.mem_iff.mp hk)
    rw [PoolList.remove_of_notMem hin, BoundedMap.erase_of_notMem hk]
    refine ⟨h.lookup_perm, fun x => ⟨fun hx => ⟨hx, fun hxe => hin (hxe ▸ hx)⟩, fun hx => hx.1⟩,
      Nat.le_succ _⟩

theorem VideoInv.removeVideoParticipant (h : VideoInv s groups) (hr : VideoRoom s) :
    VideoInv (s.removeVideoParticipant e).1 groups ∧ VideoRoom (s.removeVideoParticipant e).1 ∧
      e ∉ (s.removeVideoParticipant e).1.videoParticipants.keys := by
  unfold ActiveMediaList.removeVideoParticipant
  dsimp only
  split
  · rename_i hc
    have hnot : e ∉ s.videoParticipants.keys := fun hk => by
      rw [(BoundedMap.contains_iff _).mpr hk] at hc
      cases hc
    exact ⟨h, hr, hnot⟩
  · rename_i hc
    have hpart : e ∈ s.videoParticipants.keys :=
      (BoundedMap.contains_iff _).mp (by simpa using hc)
    obtain ⟨hlp, hmem, hge⟩ := h.unlink e
    have hsz := BoundedMap.size_erase hpart
    have hle : (s.activeVideoList.remove e).1.length ≤ s.activeVideoList.length :=
      PoolList.length_remove_le _ _
    refine ⟨⟨?_, ?_, ?_, ?_, ?_, ?_, ?_, ?_, ?_, ?_, ?_, ?_⟩, ?_, ?_⟩ <;>
      simp only [activeVideoList_removeFromRewriteMap, activeVideoListLookupMap_removeFromRewriteMap,
        videoParticipants_removeFromRewriteMap, maxActiveListSize_removeFromRewriteMap,
        capacity_removeFromRewriteMap]
    · exact hlp
    · intro x hx
      obtain ⟨hx, hxe⟩ := (hmem x).mp hx
      exact BoundedMap.mem_keys_erase.mpr ⟨hxe, h.list_participants x hx⟩
    · intro x hx
      rw [keys_removeFromRewriteMap] at hx
      obtain ⟨hxe, hx⟩ := (s.videoSsrcRewriteMap.keys_nodup.mem_erase_iff).mp hx
      exact (hmem x).mpr ⟨h.keys_list x hx, hxe⟩
    · exact groups_perm_removeFromRewriteMap e h.groups_perm
    · exact Nat.le_trans hle h.list_length
    · exact fun h0 => h.nonzero (BoundedMap.mem_keys_erase.mp h0).2
    · exact h.groups_length
    · exact h.maxActive_pos
    · exact h.maxActive_le
    · rw [BoundedMap.capacity_erase]
      exact h.lookup_capacity
    · exact h.rewrite_capacity
    · intro hroom
      have hroom' : ReverseRoom s groups :=
        ⟨hroom.1, hroom.2.1, by simpa using hroom.2.2⟩
      exact reverse_perm_removeFromRewriteMap hroom'.1 h.groups_perm (h.reverse_perm hroom')
    · -- one participant less, at most one list entry less
      unfold VideoRoom at hr ⊢
      simp only [BoundedMap.capacity_erase]
      omega
    · exact fun hk => (BoundedMap.mem_keys_erase.mp hk).1 rfl

theorem VideoInv.addBarbellVideoParticipant (h : VideoInv s groups) (hr : VideoRoom s) (he0 : e ≠ 0)
    (p : VideoParticipant) :
    VideoInv (s.addBarbellVideoParticipant e p).1 groups ∧
      VideoRoom (s.addBarbellVideoParticipant e p).1 := by
  unfold ActiveMediaList.addBarbellVideoParticipant
  split
  · split
    · exact ⟨h, hr⟩
    · -- changed streams: removed, then stored again
      obtain ⟨h₁, hr₁, hnew⟩ := h.removeVideoParticipant (e := e) hr
      exact h₁.storeVideoParticipant hr₁ hnew he0 p
  · rename_i hl
    exact h.storeVideoParticipant hr ((BoundedMap.lookup_eq_none_iff _).mp hl) he0 p

end ActiveMediaList

end MediaBridge.Bridge
