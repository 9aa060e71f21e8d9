import MediaBridge.Bridge.StreamDirectorForwarding
import MediaBridge.Lib.BestSoFar
import MediaBridge.Lib.Run

set_option autoImplicit false

/-! # Uplink estimates and the quality ladder

`getVideoQualityLimits` walks `configLadder` with a best-so-far loop (`BestSoFar.bestStep`):
a row is taken when nothing is taken yet or it costs more than the row taken, and when its cost
fits the estimate. Down the ladder the costs never rise and, for at least one receiving stream,
only the last row can cost nothing, so the loop picks the first row that fits
(`bestConfigId_eq`): the most expensive one, and the better the estimate the better the row
(`getVideoQualityLimits_mono`). Every row's cost includes the bitrate kept for slides. An
estimate below it fits no row, and the loop keeps its start, row 0: the best qualities
(`getVideoQualityLimits_of_lt_allocation`).

`setUplinkEstimateKbps` takes a desired pinned quality at once when its enum value is lower
than the current one, and otherwise only `timeBeforeScaleUpMs` after the last low estimate
(`setUplinkEstimateKbps_of_lookup`). The enum puts `dropQuality` last, above `highQuality`, so a
fall to `dropQuality` waits like a rise, and a rise out of it does not wait.

Costs are the source's `unsigned long` arithmetic; the bounds `lastN < 2 ^ 32` and
`slidesBitrateKbps < 2 ^ 32` are the source's `uint32_t` fields, under which no cost overflows.
-/

namespace MediaBridge.Bridge

open FiniteMap QualityLevel BestSoFar

namespace QualityLevel

/-- How good a quality is: `dropQuality` is the worst, below `lowQuality`, although the enum
puts it last. -/
def rank : QualityLevel → Nat
  | dropQuality => 0
  | lowQuality => 1
  | midQuality => 2
  | highQuality => 3

end QualityLevel

namespace EngineStreamDirector

variable (d : EngineStreamDirector) (ps : ParticipantStreams)

/-! ## `getVideoQualityLimits` as a loop over the ladder -/

/-- `maxReceivingVideoStreams` of `getVideoQualityLimits`. -/
def maxReceivingVideoStreams : BitVec 64 :=
  let sendingVideo := ps.primary.isSendingVideo ||
    (ps.secondary.map SimulcastStream.isSendingVideo).getD false
  let streams : BitVec 64 :=
    BitVec.ofNat 64 (Nat.min (Nat.max 1 d.lowQualitySsrcs.entries.length) d.lastN) -
      (if sendingVideo then 1 else 0)
  if 1 < streams then streams else 1

/-- `allocationBitrateKbpsForSlides` of `getVideoQualityLimits`. -/
def allocationBitrateKbpsForSlides : BitVec 64 :=
  let sendingSlides := ps.primary.isSendingSlides ||
    (ps.secondary.map SimulcastStream.isSendingSlides).getD false
  if sendingSlides then 0 else BitVec.ofNat 64 d.slidesBitrateKbps

/-- The estimate `getVideoQualityLimits` fits the ladder to: the participant's, or the default
while it has none. -/
def estimatedUplinkBandwidth : Nat :=
  if ps.estimatedUplinkBandwidth ≠ 0 then ps.estimatedUplinkBandwidth
  else d.maxDefaultLevelBandwidthKbps

/-- `configCost` of a ladder row. -/
def configCost (maxReceivingVideoStreams allocationBitrateKbpsForSlides : BitVec 64)
    (config : ConfigRow) : BitVec 64 :=
  config.baseRate + maxReceivingVideoStreams * config.overheadBitrate +
    allocationBitrateKbpsForSlides

/-- `configLadder[i]`, with the source's fallback row. -/
def ladderRow (i : Nat) : ConfigRow := configLadder.getD i ⟨0, dropQuality, dropQuality, 0⟩

/-- `bestConfigId` after the loop over the ladder. -/
def bestConfigId : Nat :=
  (configLadder.foldl
    (bestStep (configCost (d.maxReceivingVideoStreams ps) (d.allocationBitrateKbpsForSlides ps))
      fun configCost => decide (configCost.toNat ≤ d.estimatedUplinkBandwidth ps))
    (0, 0, 0)).1

theorem getVideoQualityLimits_eq :
    d.getVideoQualityLimits ps =
      ((ladderRow (d.bestConfigId ps)).pinnedQuality,
        (ladderRow (d.bestConfigId ps)).unpinnedQuality) := rfl

/-! ## The costs down the ladder -/

section Costs

variable {m a : BitVec 64}

theorem configLadder_bounds :
    ∀ config ∈ configLadder, config.baseRate.toNat ≤ 2080 ∧ config.overheadBitrate.toNat ≤ 520 := by
  decide

/-- For at most `2 ^ 32` streams and slides below `2 ^ 32` kbps, no cost wraps. -/
theorem toNat_configCost (hm : m.toNat ≤ 2 ^ 32) (ha : a.toNat < 2 ^ 32) {config : ConfigRow}
    (hc : config ∈ configLadder) :
    (configCost m a config).toNat =
      config.baseRate.toNat + m.toNat * config.overheadBitrate.toNat + a.toNat := by
  obtain ⟨hb, ho⟩ := configLadder_bounds config hc
  have hmo : m.toNat * config.overheadBitrate.toNat ≤ 2 ^ 32 * 520 := Nat.mul_le_mul hm ho
  unfold configCost
  rw [BitVec.toNat_add, BitVec.toNat_add, BitVec.toNat_mul,
    Nat.mod_eq_of_lt (a := m.toNat * _) (by omega), Nat.mod_eq_of_lt (by omega),
    Nat.mod_eq_of_lt (by omega)]

theorem configLadder_costs (hm : m.toNat ≤ 2 ^ 32) (ha : a.toNat < 2 ^ 32) :
    configLadder.map (fun config => (configCost m a config).toNat) =
      [2080 + m.toNat * 520 + a.toNat, m.toNat * 520 + a.toNat, 360 + m.toNat * 160 + a.toNat,
        m.toNat * 160 + a.toNat, 160 + a.toNat, a.toNat] := by
  rw [List.map_congr_left fun c hc => toNat_configCost hm ha hc]
  simp [configLadder, HIGH_QUALITY_BITRATE, MID_QUALITY_BITRATE, LOW_QUALITY_BITRATE]

/-- For at least one stream the costs never rise down the ladder. At one stream two pairs of
rows cost the same. -/
theorem configLadder_pairwise (hm1 : 1 ≤ m.toNat) (hm : m.toNat ≤ 2 ^ 32)
    (ha : a.toNat < 2 ^ 32) :
    configLadder.Pairwise fun x y => ¬ configCost m a x < configCost m a y := by
  have hp : (configLadder.map fun config => (configCost m a config).toNat).Pairwise (· ≥ ·) := by
    rw [configLadder_costs hm ha]
    simp only [List.pairwise_cons, List.mem_cons, List.not_mem_nil, forall_eq_or_imp,
      IsEmpty.forall_iff, implies_true, and_true, List.Pairwise.nil]
    omega
  rw [List.pairwise_map] at hp
  exact hp.imp fun hxy => by rw [BitVec.lt_def]; omega

/-- Only the last row, with neither base rate nor overhead, can cost nothing. -/
theorem configLadder_cost_ne_zero (hm1 : 1 ≤ m.toNat) (hm : m.toNat ≤ 2 ^ 32)
    (ha : a.toNat < 2 ^ 32) : ∀ config ∈ configLadder.dropLast, configCost m a config ≠ 0 := by
  have hpos : ∀ config ∈ configLadder.dropLast,
      0 < config.baseRate.toNat + config.overheadBitrate.toNat := by
    decide
  intro config hc h0
  have hcost := toNat_configCost hm ha (List.dropLast_subset _ hc)
  have hzero : (configCost m a config).toNat = 0 := by rw [h0]; rfl
  have := hpos config hc
  have : config.overheadBitrate.toNat ≤ m.toNat * config.overheadBitrate.toNat :=
    Nat.le_mul_of_pos_left _ hm1
  omega

end Costs

theorem maxReceivingVideoStreams_bounds (h1 : 1 ≤ d.lastN) (h2 : d.lastN < 2 ^ 32) :
    1 ≤ (d.maxReceivingVideoStreams ps).toNat ∧ (d.maxReceivingVideoStreams ps).toNat ≤ 2 ^ 32 := by
  -- `streams` is at most `lastN` and does not wrap; the clamp keeps it at least 1
  have hk : 1 ≤ Nat.min (Nat.max 1 d.lowQualitySsrcs.entries.length) d.lastN ∧
      Nat.min (Nat.max 1 d.lowQualitySsrcs.entries.length) d.lastN ≤ d.lastN := by
    simp only [Nat.min_def, Nat.max_def]
    split_ifs <;> omega
  have hstreams : ∀ b : Bool, (BitVec.ofNat 64 (Nat.min (Nat.max 1 d.lowQualitySsrcs.entries.length)
      d.lastN) - (if b then 1 else 0)).toNat ≤ 2 ^ 32 := by
    intro b
    cases b <;> simp <;> omega
  have hclamp : ∀ st : BitVec 64, st.toNat ≤ 2 ^ 32 →
      1 ≤ (if 1 < st then st else 1).toNat ∧ (if 1 < st then st else 1).toNat ≤ 2 ^ 32 := by
    intro st hst
    split
    · rename_i hlt
      rw [BitVec.lt_def] at hlt
      simp at hlt
      omega
    · simp
  exact hclamp _ (hstreams _)

theorem allocationBitrateKbpsForSlides_lt (h : d.slidesBitrateKbps < 2 ^ 32) :
    (d.allocationBitrateKbpsForSlides ps).toNat < 2 ^ 32 := by
  unfold allocationBitrateKbpsForSlides
  dsimp only
  split
  · simp
  · rw [BitVec.toNat_ofNat, Nat.mod_eq_of_lt (by omega)]
    exact h

/-! ## The row the loop picks -/

/-- The director's `uint32_t` fields within their type, and a last-N list of at least one. -/
structure LadderBounds (d : EngineStreamDirector) : Prop where
  lastN_pos : 1 ≤ d.lastN
  lastN_lt : d.lastN < 2 ^ 32
  slides_lt : d.slidesBitrateKbps < 2 ^ 32

/-- A row fits when its cost is within the estimate. -/
def fits (config : ConfigRow) : Bool :=
  decide ((configCost (d.maxReceivingVideoStreams ps) (d.allocationBitrateKbpsForSlides ps)
    config).toNat ≤ d.estimatedUplinkBandwidth ps)

theorem ladderRow_of_lt {i : Nat} (h : i < configLadder.length) : ladderRow i = configLadder[i] := by
  rw [ladderRow, List.getD_eq_getElem?_getD, List.getElem?_eq_getElem h, Option.getD_some]

/-- Down the ladder neither quality gets better. -/
theorem ladderRow_rank_antitone :
    ∀ i < 6, ∀ j < 6, i ≤ j → (ladderRow j).pinnedQuality.rank ≤ (ladderRow i).pinnedQuality.rank ∧
      (ladderRow j).unpinnedQuality.rank ≤ (ladderRow i).unpinnedQuality.rank := by
  decide

/-- When the estimate covers the bitrate kept for slides, the last row, which costs only that
bitrate, fits. -/
theorem findIdx?_fits_of_cover
    (hfit : (d.allocationBitrateKbpsForSlides ps).toNat ≤ d.estimatedUplinkBandwidth ps) :
    ∃ i, configLadder.findIdx? (d.fits ps) = some i := by
  have h5 : 5 < configLadder.length := by decide
  have hlast : d.fits ps configLadder[5] = true := by
    simp [fits, configCost, configLadder, hfit]
  cases h : configLadder.findIdx? (d.fits ps) with
  | none => exact absurd hlast (by simp [List.findIdx?_eq_none_iff.mp h _ (List.getElem_mem _)])
  | some i => exact ⟨i, rfl⟩

section Picks

variable {d} (hd : LadderBounds d)
include hd

/-- The loop picks the first row that fits, and row 0 when none does. -/
theorem bestConfigId_eq : d.bestConfigId ps = (configLadder.findIdx? (d.fits ps)).getD 0 := by
  obtain ⟨hm1, hm⟩ := maxReceivingVideoStreams_bounds d ps hd.lastN_pos hd.lastN_lt
  have ha := allocationBitrateKbpsForSlides_lt d ps hd.slides_lt
  unfold bestConfigId
  rw [foldl_bestStep_first _ _ configLadder 0 0 (configLadder_pairwise hm1 hm ha)
    (configLadder_cost_ne_zero hm1 hm ha)]
  change ((configLadder.findIdx? (d.fits ps)).map (0 + ·)).getD 0 = _
  cases configLadder.findIdx? (d.fits ps) <;> simp

/-- The cost of a later row is not above an earlier one's. -/
theorem configCost_getElem_le {i j : Nat} (hij : i ≤ j) (hi : i < configLadder.length)
    (hj : j < configLadder.length) :
    (configCost (d.maxReceivingVideoStreams ps) (d.allocationBitrateKbpsForSlides ps)
        configLadder[j]).toNat ≤
      (configCost (d.maxReceivingVideoStreams ps) (d.allocationBitrateKbpsForSlides ps)
        configLadder[i]).toNat := by
  obtain ⟨hm1, hm⟩ := maxReceivingVideoStreams_bounds d ps hd.lastN_pos hd.lastN_lt
  have ha := allocationBitrateKbpsForSlides_lt d ps hd.slides_lt
  rcases Nat.eq_or_lt_of_le hij with rfl | hlt
  · exact Nat.le_refl _
  · have := List.pairwise_iff_getElem.mp (configLadder_pairwise hm1 hm ha) i j hi hj hlt
    rw [BitVec.lt_def] at this
    omega

/-- When the estimate covers the bitrate kept for slides, `getVideoQualityLimits` gives the
qualities of the most expensive row that fits. -/
theorem getVideoQualityLimits_most_expensive
    (hfit : (d.allocationBitrateKbpsForSlides ps).toNat ≤ d.estimatedUplinkBandwidth ps) :
    ∃ config ∈ configLadder,
      d.getVideoQualityLimits ps = (config.pinnedQuality, config.unpinnedQuality) ∧
      d.fits ps config = true ∧
      ∀ config' ∈ configLadder, d.fits ps config' = true →
        (configCost (d.maxReceivingVideoStreams ps) (d.allocationBitrateKbpsForSlides ps)
          config').toNat ≤
        (configCost (d.maxReceivingVideoStreams ps) (d.allocationBitrateKbpsForSlides ps)
          config).toNat := by
  obtain ⟨i, hi⟩ := findIdx?_fits_of_cover d ps hfit
  obtain ⟨hilt, hfi, hbefore⟩ := List.findIdx?_eq_some_iff_getElem.mp hi
  refine ⟨configLadder[i], List.getElem_mem _, ?_, hfi, ?_⟩
  · rw [getVideoQualityLimits_eq, bestConfigId_eq ps hd, hi, Option.getD_some, ladderRow_of_lt hilt]
  · intro config' hc' hfit'
    obtain ⟨j, hj, rfl⟩ := List.mem_iff_getElem.mp hc'
    -- a row before the first that fits does not fit
    have hij : i ≤ j := Nat.le_of_not_lt fun hji => hbefore j hji hfit'
    exact configCost_getElem_le ps hd hij hilt hj

/-- A better estimate never gets worse qualities, while the estimates cover the bitrate kept
for slides. -/
theorem getVideoQualityLimits_mono {e₁ e₂ : Nat} (he : e₁ ≤ e₂) (he₁ : 0 < e₁)
    (hfit : (d.allocationBitrateKbpsForSlides ps).toNat ≤ e₁) :
    (d.getVideoQualityLimits { ps with estimatedUplinkBandwidth := e₁ }).1.rank ≤
        (d.getVideoQualityLimits { ps with estimatedUplinkBandwidth := e₂ }).1.rank ∧
      (d.getVideoQualityLimits { ps with estimatedUplinkBandwidth := e₁ }).2.rank ≤
        (d.getVideoQualityLimits { ps with estimatedUplinkBandwidth := e₂ }).2.rank := by
  have hest₁ : d.estimatedUplinkBandwidth { ps with estimatedUplinkBandwidth := e₁ } = e₁ := by
    simp [estimatedUplinkBandwidth, Nat.pos_iff_ne_zero.mp he₁]
  have hest₂ : d.estimatedUplinkBandwidth { ps with estimatedUplinkBandwidth := e₂ } = e₂ := by
    simp [estimatedUplinkBandwidth, Nat.pos_iff_ne_zero.mp (Nat.lt_of_lt_of_le he₁ he)]
  -- what fits the smaller estimate fits the larger one, so the first row that fits moves up
  have himp : ∀ config, d.fits { ps with estimatedUplinkBandwidth := e₁ } config = true →
      d.fits { ps with estimatedUplinkBandwidth := e₂ } config = true := by
    intro config h
    simp only [fits, decide_eq_true_eq, hest₁, hest₂] at h ⊢
    exact Nat.le_trans h he
  obtain ⟨i, hi⟩ := findIdx?_fits_of_cover d { ps with estimatedUplinkBandwidth := e₁ }
    (by rw [hest₁]; exact hfit)
  obtain ⟨j, hji, hj⟩ := findIdx?_le_of_imp himp configLadder hi
  have hi6 : i < 6 := (List.findIdx?_eq_some_iff_getElem.mp hi).1
  rw [getVideoQualityLimits_eq, getVideoQualityLimits_eq, bestConfigId_eq _ hd, bestConfigId_eq _ hd,
    hi, hj, Option.getD_some, Option.getD_some]
  exact ladderRow_rank_antitone j (by omega) i hi6 hji

/-- An estimate below the bitrate kept for slides fits no row, and the loop keeps row 0: the
best qualities. -/
theorem getVideoQualityLimits_of_lt_allocation
    (hlt : d.estimatedUplinkBandwidth ps < (d.allocationBitrateKbpsForSlides ps).toNat) :
    d.getVideoQualityLimits ps = (highQuality, midQuality) := by
  obtain ⟨hm1, hm⟩ := maxReceivingVideoStreams_bounds d ps hd.lastN_pos hd.lastN_lt
  have ha := allocationBitrateKbpsForSlides_lt d ps hd.slides_lt
  have hnone : configLadder.findIdx? (d.fits ps) = none := by
    rw [List.findIdx?_eq_none_iff]
    intro config hc
    simp only [fits, decide_eq_false_iff_not, Nat.not_le]
    rw [toNat_configCost hm ha hc]
    omega
  rw [getVideoQualityLimits_eq, bestConfigId_eq ps hd, hnone]
  rfl

end Picks

/-- A new director and a participant sending no video, fresh from its constructor: an estimate
of 500 kbps gets no better qualities than one of 1000 kbps. -/
theorem getVideoQualityLimits_mono_doubled_estimate :
    LadderBounds (create 2500 9) ∧ 500 ≤ 1000 ∧ 0 < 500 ∧
      ((create 2500 9).allocationBitrateKbpsForSlides
        ⟨SimulcastStream.zero, none, highQuality, lowQuality, 0, 2500, 0⟩).toNat ≤ 500 ∧
      (((create 2500 9).getVideoQualityLimits
          ⟨SimulcastStream.zero, none, highQuality, lowQuality, 0, 2500, 500⟩).1.rank ≤
        ((create 2500 9).getVideoQualityLimits
          ⟨SimulcastStream.zero, none, highQuality, lowQuality, 0, 2500, 1000⟩).1.rank ∧
      ((create 2500 9).getVideoQualityLimits
          ⟨SimulcastStream.zero, none, highQuality, lowQuality, 0, 2500, 500⟩).2.rank ≤
        ((create 2500 9).getVideoQualityLimits
          ⟨SimulcastStream.zero, none, highQuality, lowQuality, 0, 2500, 1000⟩).2.rank) := by
  have hd : LadderBounds (create 2500 9) := ⟨by decide, by decide, by decide⟩
  have hfit : ((create 2500 9).allocationBitrateKbpsForSlides
      ⟨SimulcastStream.zero, none, highQuality, lowQuality, 0, 2500, 0⟩).toNat ≤ 500 := by
    decide
  exact ⟨hd, by decide, by decide, hfit,
    getVideoQualityLimits_mono ⟨SimulcastStream.zero, none, highQuality, lowQuality, 0, 2500, 0⟩ hd
      (show 500 ≤ 1000 by decide) (show 0 < 500 by decide) hfit⟩

/-- A director with `lastN` 9 keeping 1000 kbps for slides, and a participant sending neither
video nor slides: at 500 kbps it gets the best qualities, at 1000 kbps none. -/
theorem slides_reserve_inverts_quality :
    ((create 2500 9).setSlidesSsrcAndBitrate 14 1000).getVideoQualityLimits
        { ParticipantStreams.create SimulcastStream.zero none 2500 with
          estimatedUplinkBandwidth := 500 } = (highQuality, midQuality) ∧
    ((create 2500 9).setSlidesSsrcAndBitrate 14 1000).getVideoQualityLimits
        { ParticipantStreams.create SimulcastStream.zero none 2500 with
          estimatedUplinkBandwidth := 1000 } = (dropQuality, dropQuality) := by
  have hd : LadderBounds ((create 2500 9).setSlidesSsrcAndBitrate 14 1000) :=
    ⟨by decide, by decide, by decide⟩
  refine ⟨getVideoQualityLimits_of_lt_allocation _ hd (by decide), ?_⟩
  rw [getVideoQualityLimits_eq, bestConfigId_eq _ hd]
  decide

/-! ## `setUplinkEstimateKbps` -/

/-- The streams with the estimate stored, as `setUplinkEstimateKbps` first writes them. -/
def withUplinkEstimate (uplinkEstimateKbps : Nat) : ParticipantStreams :=
  let ps := { ps with
    defaultLevelBandwidthLimit := Nat.min uplinkEstimateKbps d.maxDefaultLevelBandwidthKbps }
  { ps with estimatedUplinkBandwidth := Nat.max uplinkEstimateKbps ps.defaultLevelBandwidthLimit }

/-- `desiredPinQuality` of `setUplinkEstimateKbps`. -/
def desiredPinQuality (uplinkEstimateKbps : Nat) : QualityLevel :=
  (d.getVideoQualityLimits (d.withUplinkEstimate ps uplinkEstimateKbps)).1

/-- The pinned quality of an endpoint, if it has streams. -/
def pinQualityLevelOf (endpointIdHash : Nat) : Option QualityLevel :=
  (d.participantStreams.lookup endpointIdHash).map ParticipantStreams.pinQualityLevel

theorem rank_lt_iff_toNat_lt {a b : QualityLevel} (ha : a ≠ dropQuality) (hb : b ≠ dropQuality) :
    a.rank < b.rank ↔ a.toNat < b.toNat := by
  cases a <;> cases b <;> simp_all [rank, QualityLevel.toNat]

section Uplink

variable {d ps} {e kbps : Nat} {t : BitVec 64}

/-- A desired pinned quality with a lower enum value than the current one is taken at once. -/
theorem setUplinkEstimateKbps_lowers (h : d.participantStreams.lookup e = some ps)
    (hlt : (d.desiredPinQuality ps kbps).toNat < ps.pinQualityLevel.toNat) :
    (d.setUplinkEstimateKbps e kbps t).2 = true ∧
      (d.setUplinkEstimateKbps e kbps t).1.pinQualityLevelOf e =
        some (d.desiredPinQuality ps kbps) := by
  have hne : d.desiredPinQuality ps kbps ≠ ps.pinQualityLevel := fun heq => by
    rw [heq] at hlt
    exact Nat.lt_irrefl _ hlt
  unfold setUplinkEstimateKbps desiredPinQuality withUplinkEstimate at *
  rw [h]
  dsimp only at hne hlt ⊢
  rw [if_neg hne, if_pos hlt]
  simp [pinQualityLevelOf]

/-- The pinned quality gets a higher enum value only `timeBeforeScaleUpMs` after the last low
estimate. -/
theorem setUplinkEstimateKbps_raise_waits (h : d.participantStreams.lookup e = some ps)
    {q : QualityLevel} (hq : (d.setUplinkEstimateKbps e kbps t).1.pinQualityLevelOf e = some q)
    (hup : ps.pinQualityLevel.toNat < q.toNat) :
    Time.diffGE ps.lowEstimateTimestamp t timeBeforeScaleUp = true := by
  unfold setUplinkEstimateKbps at hq
  rw [h] at hq
  dsimp only at hq
  split_ifs at hq with h₁ h₂ h₃
  · -- the desired quality is the current one
    simp [pinQualityLevelOf] at hq
    rw [← hq] at hup
    exact absurd hup (Nat.lt_irrefl _)
  · -- a lower enum value
    simp only [pinQualityLevelOf, AList.lookup_insert, Option.map_some, Option.some.injEq] at hq
    rw [hq] at h₂
    omega
  · exact h₃
  · simp [pinQualityLevelOf] at hq
    rw [hq] at hup
    exact absurd hup (Nat.lt_irrefl _)

/-- A fall to `dropQuality`, the highest enum value, waits like a rise: before
`timeBeforeScaleUpMs` since the last low estimate the call keeps the pinned quality and returns
`false`. -/
theorem setUplinkEstimateKbps_drop_waits (h : d.participantStreams.lookup e = some ps)
    (hdrop : d.desiredPinQuality ps kbps = dropQuality) (hne : ps.pinQualityLevel ≠ dropQuality)
    (hwait : Time.diffGE ps.lowEstimateTimestamp t timeBeforeScaleUp = false) :
    (d.setUplinkEstimateKbps e kbps t).2 = false ∧
      (d.setUplinkEstimateKbps e kbps t).1.pinQualityLevelOf e = some ps.pinQualityLevel := by
  have hnlt : ¬ (d.desiredPinQuality ps kbps).toNat < ps.pinQualityLevel.toNat := by
    rw [hdrop]
    cases h' : ps.pinQualityLevel <;> simp_all [QualityLevel.toNat]
  unfold setUplinkEstimateKbps desiredPinQuality withUplinkEstimate at *
  rw [h]
  dsimp only at hdrop hnlt ⊢
  rw [if_neg (by rw [hdrop]; exact Ne.symm hne), if_neg hnlt, hwait]
  simp [pinQualityLevelOf]

/-- A rise out of `dropQuality` does not wait: every other quality has a lower enum value. -/
theorem setUplinkEstimateKbps_leaves_drop (h : d.participantStreams.lookup e = some ps)
    (hdrop : ps.pinQualityLevel = dropQuality) (hne : d.desiredPinQuality ps kbps ≠ dropQuality) :
    (d.setUplinkEstimateKbps e kbps t).2 = true ∧
      (d.setUplinkEstimateKbps e kbps t).1.pinQualityLevelOf e =
        some (d.desiredPinQuality ps kbps) := by
  apply setUplinkEstimateKbps_lowers h
  rw [hdrop]
  cases hq : d.desiredPinQuality ps kbps <;> simp_all [QualityLevel.toNat]

end Uplink

/-- An endpoint without video in a director with `lastN` 9: at 1000 kbps its pinned quality
falls at once from high to mid; one second later at 100 kbps the desired quality is
`dropQuality`, and the call keeps mid and returns `false`. -/
theorem uplink_fall_to_drop_waits :
    ((((create 2500 9).addParticipant 1).setUplinkEstimateKbps 1 1000 0).1.participantStreams.lookup
        1).map (fun ps => (ps.pinQualityLevel, ps.lowEstimateTimestamp,
          (((create 2500 9).addParticipant 1).setUplinkEstimateKbps 1 1000 0).1.desiredPinQuality ps
            100)) = some (midQuality, 0, dropQuality) ∧
    ((((create 2500 9).addParticipant 1).setUplinkEstimateKbps 1 1000 0).1.setUplinkEstimateKbps 1 100
        1000000000).2 = false ∧
    ((((create 2500 9).addParticipant 1).setUplinkEstimateKbps 1 1000 0).1.setUplinkEstimateKbps 1 100
        1000000000).1.pinQualityLevelOf 1 = some midQuality := by
  have hfirst : ((((create 2500 9).addParticipant 1).setUplinkEstimateKbps 1 1000 0).1.participantStreams.lookup
        1).map (fun ps => (ps.pinQualityLevel, ps.lowEstimateTimestamp,
          (((create 2500 9).addParticipant 1).setUplinkEstimateKbps 1 1000 0).1.desiredPinQuality ps
            100)) = some (midQuality, 0, dropQuality) := by
    decide
  obtain ⟨ps, hps, hval⟩ := Option.map_eq_some_iff.mp hfirst
  simp only [Prod.mk.injEq] at hval
  obtain ⟨hmid, hlow, hdrop⟩ := hval
  -- one second after the last low estimate is less than `timeBeforeScaleUpMs`
  have hwait := setUplinkEstimateKbps_drop_waits (t := 1000000000) hps hdrop
    (by rw [hmid]; decide) (by rw [hlow]; decide)
  rw [hmid] at hwait
  exact ⟨hfirst, hwait⟩

end EngineStreamDirector

end MediaBridge.Bridge
