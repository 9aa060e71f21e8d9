import MediaBridge.Bridge.StreamDirectorPins

set_option autoImplicit false

/-! # The early-discard filter against the forwarding decision

`EngineMixer::markSsrcsInUse` drops a sender's video packets unless `isSsrcUsed` says some
viewer may want them; `shouldForwardSsrc` then decides per viewer. The filter is only safe if
it keeps every packet some viewer would be sent.

It does on the two paths it was written for. A viewer served at its unpinned quality
receives a level of a sender in the last-N list (`isSsrcUsed_of_forward_unpinned`), using that
no endpoint is ever assigned the high level unpinned (`UnpinNotHigh`, kept by every call,
`runCalls_unpinNotHigh`). A viewer served at its pinned quality receives a level of the
sender it pins (`isSsrcUsed_of_forward_pinned`), using the pin counts.

While slides have a bitrate, `shouldForwardSsrc` serves a viewer the unpinned quality even
for the sender it pins, but `isSsrcUsed` still checks the pinners at their pinned quality, and
checks unpinned use only for senders in the last-N list. A pinned sender outside that list
then has the level its pinner is sent discarded (`isSsrcUsed_drops_pinned_during_slides`).
-/

namespace MediaBridge.Bridge

open FiniteMap

namespace QualityLevel

theorem toNat_inj {a b : QualityLevel} (h : a.toNat = b.toNat) : a = b := by
  cases a <;> cases b <;> first | rfl | (simp [toNat] at h)

theorem min_eq_right_of_le {a b : QualityLevel} (h : b.toNat ≤ a.toNat) : min a b = b := by
  unfold min
  by_cases hlt : b.toNat < a.toNat
  · rw [if_pos hlt]
  · rw [if_neg hlt]
    exact toNat_inj (by omega)

theorem min_eq_left_of_le {a b : QualityLevel} (h : a.toNat ≤ b.toNat) : min a b = a := by
  unfold min
  rw [if_neg (by omega)]

theorem le_max_right (a b : QualityLevel) : b.toNat ≤ (max a b).toNat := by
  unfold max
  split <;> omega

theorem max_self (a : QualityLevel) : max a a = a := by
  unfold max
  rw [if_neg (Nat.lt_irrefl _)]

theorem max_ne_drop {a b : QualityLevel} (ha : a ≠ dropQuality) (hb : b ≠ dropQuality) :
    max a b ≠ dropQuality := by
  unfold max
  split
  · exact hb
  · exact ha

theorem toNat_le_two {a : QualityLevel} (h : a ≠ dropQuality) : a.toNat ≤ 2 := by
  cases a <;> simp_all [toNat]

end QualityLevel

open QualityLevel

namespace EngineStreamDirector

/-! ## Unpinned video is never the high level -/

/-- No endpoint is assigned the high level for unpinned video. -/
def UnpinNotHigh (d : EngineStreamDirector) : Prop :=
  ∀ e ps, d.participantStreams.lookup e = some ps → ps.unpinQualityLevel ≠ highQuality

/-- No configuration of the ladder, nor the default, has a high unpinned quality. -/
theorem configLadder_unpinned_ne_high (i : Nat) :
    (configLadder.getD i ⟨0, dropQuality, dropQuality, 0⟩).unpinnedQuality ≠ highQuality := by
  have hall : ∀ row ∈ configLadder, row.unpinnedQuality ≠ highQuality := by
    simp [configLadder]
  rw [List.getD_eq_getElem?_getD]
  cases h : configLadder[i]? with
  | none => simp
  | some row => exact hall row (List.mem_of_getElem? h)

theorem getVideoQualityLimits_unpinned_ne_high (d : EngineStreamDirector) (ps : ParticipantStreams) :
    (d.getVideoQualityLimits ps).2 ≠ highQuality := by
  unfold getVideoQualityLimits
  -- reduce to the ladder row; the choice of row is never computed
  dsimp only
  exact configLadder_unpinned_ne_high _

@[simp]
theorem makeParticipantStreams_unpinQualityLevel (d : EngineStreamDirector) (primary : SimulcastStream)
    (secondary : Option SimulcastStream) :
    (d.makeParticipantStreams primary secondary).unpinQualityLevel = lowQuality := rfl

section Invariant

variable {d : EngineStreamDirector}

theorem UnpinNotHigh.of_eq {d' : EngineStreamDirector} (h : UnpinNotHigh d)
    (heq : d'.participantStreams = d.participantStreams) : UnpinNotHigh d' := by
  intro e ps hps
  rw [heq] at hps
  exact h e ps hps

/-- Storing streams with an unpinned quality that is not high keeps the invariant. -/
theorem UnpinNotHigh.insert (h : UnpinNotHigh d) (e : Nat) {ps : ParticipantStreams}
    (hps : ps.unpinQualityLevel ≠ highQuality) :
    UnpinNotHigh { d with participantStreams := d.participantStreams.insert e ps } := by
  intro k ps' hk
  by_cases hke : k = e
  · subst hke
    simp only [AList.lookup_insert, Option.some.injEq] at hk
    rw [← hk]
    exact hps
  · simp only [AList.lookup_insert_ne hke] at hk
    exact h k ps' hk

theorem UnpinNotHigh.emplace (h : UnpinNotHigh d) (e : Nat) {ps : ParticipantStreams}
    (hps : ps.unpinQualityLevel ≠ highQuality) :
    UnpinNotHigh { d with participantStreams := FiniteMap.emplace d.participantStreams e ps } := by
  unfold FiniteMap.emplace
  split
  · exact h
  · exact h.insert e hps

theorem UnpinNotHigh.erase (h : UnpinNotHigh d) (e : Nat) :
    UnpinNotHigh { d with participantStreams := d.participantStreams.erase e } := by
  intro k ps hk
  by_cases hke : k = e
  · subst hke
    simp [AList.lookup_erase] at hk
  · simp only [AList.lookup_erase_ne hke] at hk
    exact h k ps hk

theorem unpinNotHigh_create (maxDefaultLevelBandwidthKbps lastN : Nat) :
    UnpinNotHigh (create maxDefaultLevelBandwidthKbps lastN) := by
  intro e ps h
  simp [create, AList.lookup_empty] at h

end Invariant

/-! ## Each call keeps it -/

variable (d : EngineStreamDirector)

theorem addStreamSsrcs_participantStreams (e : Nat) (s : SimulcastStream) :
    (d.addStreamSsrcs e s).participantStreams = d.participantStreams := by
  unfold addStreamSsrcs setSlidesSsrcAndBitrate
  dsimp only
  split <;> split <;> rfl

theorem removeStreamSsrcs_participantStreams (s : SimulcastStream) :
    (d.removeStreamSsrcs s).participantStreams = d.participantStreams := by
  unfold removeStreamSsrcs
  split <;> rfl

theorem pin_participantStreams (e t : Nat) :
    (d.pin e t).1.participantStreams = d.participantStreams := by
  have hu : (d.unpinOldTarget e t).1.participantStreams = d.participantStreams := by
    unfold unpinOldTarget
    split
    · rfl
    · dsimp only
      split
      · rfl
      · split <;> rfl
  unfold pin
  generalize d.unpinOldTarget e t = r at hu ⊢
  obtain ⟨d₁, old⟩ := r
  dsimp only at hu ⊢
  split
  · exact hu
  · split <;> exact hu

section Calls

variable {d}

theorem addParticipant_unpinNotHigh (h : UnpinNotHigh d) (e : Nat) :
    UnpinNotHigh (d.addParticipant e) := by
  unfold addParticipant
  split
  · exact h
  · exact h.emplace e (by simp)

theorem addParticipantWithStreams_unpinNotHigh (h : UnpinNotHigh d) (e : Nat)
    (primary : SimulcastStream) (secondary : Option SimulcastStream) :
    UnpinNotHigh (d.addParticipantWithStreams e primary secondary) := by
  unfold addParticipantWithStreams
  split
  · exact h
  · dsimp only
    -- the new endpoint is stored between the ssrc maps of its two streams
    have h₁ : UnpinNotHigh { d.addStreamSsrcs e primary with
        participantStreams := FiniteMap.emplace (d.addStreamSsrcs e primary).participantStreams e
          ((d.addStreamSsrcs e primary).makeParticipantStreams primary secondary) } :=
      (h.of_eq (addStreamSsrcs_participantStreams d e primary)).emplace e (by simp)
    cases secondary with
    | none => exact h₁
    | some s => exact h₁.of_eq (addStreamSsrcs_participantStreams _ e s)

theorem removeParticipant_unpinNotHigh (h : UnpinNotHigh d) (e : Nat) :
    UnpinNotHigh (d.removeParticipant e) := by
  unfold removeParticipant
  split
  · exact h
  · rename_i ps _
    dsimp only
    have h₁ := h.of_eq (removeStreamSsrcs_participantStreams d ps.primary)
    cases ps.secondary with
    | none => exact h₁.erase e
    | some s => exact (h₁.of_eq (removeStreamSsrcs_participantStreams _ s)).erase e

/-- Estimates take the unpinned quality from the ladder. -/
theorem setUplinkEstimateKbps_unpinNotHigh (h : UnpinNotHigh d) (e kbps : Nat)
    (timestamp : BitVec 64) : UnpinNotHigh (d.setUplinkEstimateKbps e kbps timestamp).1 := by
  have hq := getVideoQualityLimits_unpinned_ne_high d
  unfold setUplinkEstimateKbps
  split
  · exact h
  · dsimp only
    split <;> (try split) <;> (try split) <;> exact h.insert e (by dsimp only; exact hq _)

/-- Marking a level active or inactive keeps the stored qualities. -/
theorem streamActiveStateChanged_unpinNotHigh (h : UnpinNotHigh d) (e : Nat) (ssrc : BitVec 32)
    (active : Bool) : UnpinNotHigh (d.streamActiveStateChanged e ssrc active) := by
  unfold streamActiveStateChanged
  split
  · exact h
  · rename_i ps hps
    have hu := h e ps hps
    dsimp only
    split
    · exact h.insert e hu
    · split
      · split
        · exact h.insert e hu
        · exact h
      · exact h

/-- **One call keeps `UnpinNotHigh`**: new endpoints start with the low level, and estimates
take the unpinned quality from the ladder. -/
theorem apply_unpinNotHigh (h : UnpinNotHigh d) (c : DirectorCall) : UnpinNotHigh (d.apply c) := by
  cases c with
  | addParticipant e => exact addParticipant_unpinNotHigh h e
  | addParticipantWithStreams e primary secondary =>
      exact addParticipantWithStreams_unpinNotHigh h e primary secondary
  | removeParticipant e => exact removeParticipant_unpinNotHigh h e
  | removeParticipantPins e => exact h.of_eq rfl
  | pin e t => exact h.of_eq (pin_participantStreams d e t)
  | setUplinkEstimateKbps e kbps timestamp => exact setUplinkEstimateKbps_unpinNotHigh h e kbps timestamp
  | streamActiveStateChanged e ssrc active => exact streamActiveStateChanged_unpinNotHigh h e ssrc active
  | setSlidesSsrcAndBitrate ssrc kbps => exact h.of_eq rfl

/-- **Every run keeps `UnpinNotHigh`.** -/
theorem runCalls_unpinNotHigh (h : UnpinNotHigh d) (calls : List DirectorCall) :
    UnpinNotHigh (d.runCalls calls) :=
  List.foldlRecOn calls apply h (fun _ hd' c _ => apply_unpinNotHigh hd' c)

end Calls

/-! ## What the two decisions compute -/

/-- The quality `getQualityLevel` reads is the one `getCurrentQualityAndEndpointId` returns. -/
theorem getQualityLevel_eq (ssrc : BitVec 32) :
    d.getQualityLevel ssrc = (d.getCurrentQualityAndEndpointId ssrc).1 := by
  unfold getQualityLevel getCurrentQualityAndEndpointId
  cases hl : d.lowQualitySsrcs.lookup ssrc with
  | some e => rw [if_pos (AList.lookup_isSome.mp (by rw [hl]; rfl))]
  | none =>
      rw [if_neg (AList.lookup_eq_none.mp hl)]
      cases hm : d.midQualitySsrcs.lookup ssrc with
      | some e => rw [if_pos (AList.lookup_isSome.mp (by rw [hm]; rfl))]
      | none => rw [if_neg (AList.lookup_eq_none.mp hm)]

theorem getQualityLevel_ne_drop (ssrc : BitVec 32) : d.getQualityLevel ssrc ≠ dropQuality := by
  unfold getQualityLevel
  split
  · decide
  · split <;> decide

/-- **What a forwarded packet was**: a viewer was found, the ssrc is not its own, and the
ssrc's quality is the assigned one, or lower and the sender's highest active level. -/
theorem shouldForwardSsrc_true {V : Nat} {x : BitVec 32} (hslides : x.toNat ≠ d.slidesSsrc)
    (h : d.shouldForwardSsrc V x = true) :
    ∃ viewer, d.participantStreams.lookup V = some viewer ∧
      d.assignedQuality V viewer x ≠ dropQuality ∧
      ((d.getCurrentQualityAndEndpointId x).1 = d.assignedQuality V viewer x ∨
        ((d.getCurrentQualityAndEndpointId x).1.toNat < (d.assignedQuality V viewer x).toNat ∧
          (d.getCurrentQualityAndEndpointId x).1 =
            d.highestActiveQuality (d.getCurrentQualityAndEndpointId x).2 x)) := by
  unfold shouldForwardSsrc at h
  cases hv : d.participantStreams.lookup V with
  | none => rw [hv] at h; cases h
  | some viewer =>
      rw [hv] at h
      dsimp only at h
      rw [if_neg (by intro hfrom; rw [if_pos hfrom] at h; cases h), if_neg hslides] at h
      generalize d.getCurrentQualityAndEndpointId x = r at h ⊢
      obtain ⟨q, sender⟩ := r
      dsimp only at h ⊢
      refine ⟨viewer, rfl, ?_⟩
      by_cases hdrop : d.assignedQuality V viewer x = dropQuality
      · rw [if_pos hdrop] at h; cases h
      · rw [if_neg hdrop] at h
        refine ⟨hdrop, ?_⟩
        by_cases heq : q = d.assignedQuality V viewer x
        · exact .inl heq
        · rw [if_neg heq] at h
          by_cases hgt : q.toNat > (d.assignedQuality V viewer x).toNat
          · rw [if_pos hgt] at h; cases h
          · rw [if_neg hgt] at h
            have hlt : q.toNat < (d.assignedQuality V viewer x).toNat :=
              Nat.lt_of_le_of_ne (Nat.le_of_not_lt hgt) (fun h => heq (toNat_inj h))
            exact .inr ⟨hlt, of_decide_eq_true h⟩

/-- The forwarded quality `q` is what a receiver with quality limit `assigned` gets from a
sender whose highest available quality is `max h q`. -/
theorem min_assigned_highestAvailable {q assigned h : QualityLevel}
    (hq : q = assigned ∨ (q.toNat < assigned.toNat ∧ q = h)) :
    QualityLevel.min assigned (QualityLevel.max h q) = q := by
  rcases hq with rfl | ⟨hlt, rfl⟩
  · exact min_eq_left_of_le (le_max_right h q)
  · rw [max_self]
    exact min_eq_right_of_le (Nat.le_of_lt hlt)

/-- `isSsrcUsed` on a main ssrc of a sender, with recent activity: its quality is the ssrc's,
and the highest available quality is the larger of that and the sender's highest active
level. -/
theorem isSsrcUsed_eq {S : Nat} {x : BitVec 32} {ps : ParticipantStreams}
    (hS : d.participantStreams.lookup S = some ps)
    (hmain : ps.primary.getMainSsrcFor x = none)
    (hsec : (ps.secondary.bind fun s => s.getMainSsrcFor x) = none)
    (hactive : d.highestActiveQuality S x ≠ dropQuality) (inLastN : Bool) (n : Nat) :
    d.isSsrcUsed x S true inLastN n =
      (d.isUsedForUnpinnedVideo (d.getQualityLevel x)
          (QualityLevel.max (d.highestActiveQuality S x) (d.getQualityLevel x)) S inLastN ||
        d.isUsedForPinnedVideo (d.getQualityLevel x)
          (QualityLevel.max (d.highestActiveQuality S x) (d.getQualityLevel x)) S ||
        d.isUsedForRecordingSlides x S n) := by
  have hmax := max_ne_drop hactive (getQualityLevel_ne_drop d x)
  unfold isSsrcUsed
  rw [hS]
  -- `x` is no feedback ssrc, so it is judged as itself
  simp only [hmain, hsec, Option.getD_none, if_true]
  rw [if_neg hmax]
  split
  · rename_i hu; rw [hu]; rfl
  · rename_i hu
    rw [Bool.not_eq_true] at hu
    rw [hu, Bool.false_or]
    split
    · rename_i hp; rw [hp]; rfl
    · rename_i hp
      rw [Bool.not_eq_true] at hp
      rw [hp, Bool.false_or]

/-! ## The filter keeps what is forwarded on both intended paths -/

section Refinement

variable {d} {V S : Nat} {x : BitVec 32} {ps : ParticipantStreams}

/-- **A viewer served unpinned** is sent a level that the filter keeps, for a sender in the
last-N list: the viewer is another endpoint that receives this quality unpinned. -/
theorem isSsrcUsed_of_forward_unpinned (hinv : UnpinNotHigh d)
    (hS : d.participantStreams.lookup S = some ps) (hVS : V ≠ S)
    (hmain : ps.primary.getMainSsrcFor x = none)
    (hsec : (ps.secondary.bind fun s => s.getMainSsrcFor x) = none)
    (hactive : d.highestActiveQuality S x ≠ dropQuality)
    (hown : (d.getCurrentQualityAndEndpointId x).1 = highQuality ∨
      (d.getCurrentQualityAndEndpointId x).2 = S)
    (hslides : x.toNat ≠ d.slidesSsrc)
    (hunpinned : ∀ viewer, d.assignedQuality V viewer x = viewer.unpinQualityLevel)
    (hfwd : d.shouldForwardSsrc V x = true) (n : Nat) :
    d.isSsrcUsed x S true true n = true := by
  obtain ⟨viewer, hv, hdrop, hq⟩ := shouldForwardSsrc_true d hslides hfwd
  rw [hunpinned viewer] at hdrop hq
  have hhigh := hinv V viewer hv
  -- the forwarded quality is below high, so the high level's missing map entry plays no part
  have hqhigh : (d.getCurrentQualityAndEndpointId x).1 ≠ highQuality := by
    rcases hq with hq | ⟨hlt, -⟩
    · rw [hq]; exact hhigh
    · intro hh
      rw [hh] at hlt
      have h2 : highQuality.toNat = 2 := rfl
      have := toNat_le_two hdrop
      omega
  have hfrom : (d.getCurrentQualityAndEndpointId x).2 = S := hown.resolve_left hqhigh
  rw [hfrom] at hq
  rw [← getQualityLevel_eq] at hq hqhigh
  rw [isSsrcUsed_eq d hS hmain hsec hactive, Bool.or_assoc, Bool.or_eq_true]
  left
  unfold isUsedForUnpinnedVideo
  rw [if_neg hqhigh, if_neg (by decide)]
  rw [List.any_eq_true]
  refine ⟨⟨V, viewer⟩, List.of_mem_dlookup hv, ?_⟩
  simp only [bne_iff_ne, ne_eq, Bool.and_eq_true, beq_iff_eq]
  exact ⟨hVS, (min_assigned_highestAvailable hq).symm⟩

/-- **A viewer served its pinned quality** is sent a level of the sender it pins that the
filter keeps: the pin counts make the sender's count positive, and the viewer is among its
pinners. -/
theorem isSsrcUsed_of_forward_pinned (hpins : PinCounts d)
    (hS : d.participantStreams.lookup S = some ps) (hVS : V ≠ S)
    (hmain : ps.primary.getMainSsrcFor x = none)
    (hsec : (ps.secondary.bind fun s => s.getMainSsrcFor x) = none)
    (hactive : d.highestActiveQuality S x ≠ dropQuality)
    (hown : (d.getCurrentQualityAndEndpointId x).1 = highQuality ∨
      (d.getCurrentQualityAndEndpointId x).2 = S)
    (hslides : x.toNat ≠ d.slidesSsrc)
    (hpin : d.pinMap.lookup V = some S) (hfromS : d.isSsrcFromParticipant S x = true)
    (hbitrate : d.slidesBitrateKbps = 0)
    (hfwd : d.shouldForwardSsrc V x = true) (inLastN : Bool) (n : Nat) :
    d.isSsrcUsed x S true inLastN n = true := by
  obtain ⟨viewer, hv, hdrop, hq⟩ := shouldForwardSsrc_true d hslides hfwd
  have hassigned : d.assignedQuality V viewer x = viewer.pinQualityLevel := by
    unfold assignedQuality
    rw [hpin]
    dsimp only
    rw [hfromS, hbitrate]
    rfl
  rw [hassigned] at hdrop hq
  -- below the pinned quality the ssrc is a low or mid level, whose map entry is the sender's
  have hq' : (d.getCurrentQualityAndEndpointId x).1 = viewer.pinQualityLevel ∨
      ((d.getCurrentQualityAndEndpointId x).1.toNat < viewer.pinQualityLevel.toNat ∧
        (d.getCurrentQualityAndEndpointId x).1 = d.highestActiveQuality S x) := by
    rcases hq with hq | ⟨hlt, heq⟩
    · exact .inl hq
    · refine .inr ⟨hlt, ?_⟩
      rcases hown with hh | hfrom
      · rw [hh] at hlt
        have h2 : highQuality.toNat = 2 := rfl
        have := toNat_le_two hdrop
        omega
      · rw [hfrom] at heq
        exact heq
  rw [← getQualityLevel_eq] at hq'
  -- the sender's count is positive
  have hcount : d.reversePinMap.lookup S ≠ some 0 := by
    have hS0 := hpins.target_ne_zero V S hpin
    have hpos : 0 < countOf d.reversePinMap S := by
      rw [hpins.count_eq S hS0]
      exact countValue_pos_iff.mpr ⟨V, hpin⟩
    rw [lookup_of_countOf_pos hpos]
    intro h0
    rw [Option.some.injEq] at h0
    omega
  rw [isSsrcUsed_eq d hS hmain hsec hactive, Bool.or_eq_true, Bool.or_eq_true]
  left
  right
  unfold isUsedForPinnedVideo
  rw [if_neg hcount, List.any_eq_true]
  refine ⟨⟨V, S⟩, List.of_mem_dlookup hpin, ?_⟩
  dsimp only
  rw [if_neg (by rintro (h | h) <;> contradiction), hv]
  simp only [beq_iff_eq]
  exact (min_assigned_highestAvailable hq').symm

end Refinement

/-! ## The filter drops a pinned sender's level during slides -/

/-- A sender `1` with three simulcast levels (ssrcs `1`, `3`, `5`, feedback `2`, `4`, `6`)
whose highest active level is the top one. -/
def threeLevelStream : SimulcastStream where
  numLevels := 3
  highestActiveLevel := Fin.last 2
  levels := [⟨1, 2, false⟩, ⟨3, 4, false⟩, ⟨5, 6, false⟩]
  levels_length := rfl
  contentType := .VIDEO

/-- Sender `1`, viewer `2` pinning it, and slides with a bitrate. -/
def pinnedDuringSlides : EngineStreamDirector :=
  (create 0 9).runCalls
    [.addParticipantWithStreams 1 threeLevelStream none, .addParticipant 2, .pin 2 1,
      .setSlidesSsrcAndBitrate 14 1000]

/-- Viewer `2` pins sender `1` and is sent its low level (its unpinned quality while slides
are shown), but the filter, told that `1` is not in the last-N list, discards it. -/
theorem isSsrcUsed_drops_pinned_during_slides :
    pinnedDuringSlides.pinMap.lookup 2 = some 1 ∧
      pinnedDuringSlides.shouldForwardSsrc 2 1 = true ∧
      pinnedDuringSlides.isSsrcUsed 1 1 true false 0 = false := by
  decide

end EngineStreamDirector

end MediaBridge.Bridge
