import MediaBridge.Bridge.EngineStreamDirector

set_option autoImplicit false

/-! # Pins and their counts

`_reversePinMap` is meant to count, for every target, the endpoints whose `_pinMap` entry
points at it (`PinCounts`). `pin` keeps the count (`pin_pinCounts`): it takes the old pin off
its target's count and adds the new one, and no entry ever points at `0`. Every other call
except `removeParticipantPins` leaves both maps alone, so every run without that call keeps
the counts (`runCalls_pinCounts`), and an endpoint that is pinned is `isPinned`. This holds
while the maps have room: the source's `_reversePinMap` holds at most 2048 targets, and a pin
on a new target once it is full is recorded in `_pinMap` without its count.

`removeParticipantPins(e)` drops `e`'s own pin and `e`'s count, and then means to drop the
pins of the endpoints pinning `e`; its loop erases the key `pinMapEntry.second`, which is `e`
itself and already gone, so it erases nothing (`removeParticipantPins_pinMap`). The pins on
`e` stay while their count is gone (`removeParticipantPins_keeps_pinners`).
-/

namespace MediaBridge.Bridge

open FiniteMap

namespace EngineStreamDirector

/-! ## Counts kept by the maps -/

section Counts

variable {r : Map Nat Nat}

/-- The count of every target after `incrementPinCount`. -/
theorem countOf_incrementPinCount (r : Map Nat Nat) (t k : Nat) :
    countOf (incrementPinCount r t) k = if k = t then countOf r t + 1 else countOf r k := by
  unfold incrementPinCount countOf
  cases hr : r.lookup t with
  | none =>
      by_cases hk : k = t
      · subst hk
        rw [lookup_emplace_of_notMem _ (AList.lookup_eq_none.mp hr)]
        simp
      · rw [lookup_emplace_ne _ hk, if_neg hk]
  | some c =>
      have hnot : t ∉ r.erase t := by simp [AList.mem_erase]
      by_cases hk : k = t
      · subst hk
        rw [lookup_emplace_of_notMem _ hnot]
        simp
      · rw [lookup_emplace_ne _ hk, AList.lookup_erase_ne hk, if_neg hk]

/-- The count of every target after `decrementPinCount` on a positive count. -/
theorem countOf_decrementPinCount {t c : Nat} (hr : r.lookup t = some c) (hc : 0 < c) (k : Nat) :
    countOf (decrementPinCount r t) k = if k = t then c - 1 else countOf r k := by
  have hnot : t ∉ r.erase t := by simp [AList.mem_erase]
  unfold decrementPinCount countOf
  rw [hr]
  dsimp only
  rw [if_pos hc]
  by_cases hk : k = t
  · subst hk
    rw [lookup_emplace_of_notMem _ hnot]
    simp
  · rw [lookup_emplace_ne _ hk, AList.lookup_erase_ne hk, if_neg hk]

/-- A positive `countOf` is a stored count. -/
theorem lookup_of_countOf_pos {t : Nat} (h : 0 < countOf r t) : r.lookup t = some (countOf r t) := by
  unfold countOf at h ⊢
  cases hr : r.lookup t with
  | none => rw [hr] at h; exact absurd h (Nat.lt_irrefl 0)
  | some c => rfl

end Counts

/-! ## The invariant -/

/-- **The pin counts**: for every nonzero target, the count in `_reversePinMap` (`0` when
absent) is the number of endpoints pinning it, and no endpoint pins `0`. -/
structure PinCounts (d : EngineStreamDirector) : Prop where
  count_eq : ∀ t, t ≠ 0 → countOf d.reversePinMap t = countValue d.pinMap t
  target_ne_zero : ∀ e t, d.pinMap.lookup e = some t → t ≠ 0

/-- The two pin maps, all that `PinCounts` reads. -/
def pins (d : EngineStreamDirector) : Map Nat Nat × Map Nat Nat := (d.pinMap, d.reversePinMap)

theorem PinCounts.of_pins {d d' : EngineStreamDirector} (h : PinCounts d) (hp : d'.pins = d.pins) :
    PinCounts d' := by
  simp only [pins, Prod.mk.injEq] at hp
  obtain ⟨hpin, hrev⟩ := hp
  exact ⟨by rw [hpin, hrev]; exact h.count_eq, by rw [hpin]; exact h.target_ne_zero⟩

theorem pinCounts_create (maxDefaultLevelBandwidthKbps lastN : Nat) :
    PinCounts (create maxDefaultLevelBandwidthKbps lastN) where
  count_eq := fun _ _ => rfl
  target_ne_zero := fun e t h => by
    simp [create, AList.lookup_empty] at h

variable (d : EngineStreamDirector)

/-! ## Calls that leave the pins alone -/

theorem addParticipant_pins (e : Nat) : (d.addParticipant e).pins = d.pins := by
  unfold addParticipant
  split <;> rfl

theorem addStreamSsrcs_pins (e : Nat) (s : SimulcastStream) : (d.addStreamSsrcs e s).pins = d.pins := by
  unfold addStreamSsrcs setSlidesSsrcAndBitrate
  dsimp only
  split <;> split <;> rfl

theorem addParticipantWithStreams_pins (e : Nat) (primary : SimulcastStream)
    (secondary : Option SimulcastStream) :
    (d.addParticipantWithStreams e primary secondary).pins = d.pins := by
  unfold addParticipantWithStreams
  split
  · rfl
  · dsimp only
    cases secondary with
    | none => exact addStreamSsrcs_pins d e primary
    | some s =>
        rw [addStreamSsrcs_pins]
        exact addStreamSsrcs_pins d e primary

theorem removeStreamSsrcs_pins (s : SimulcastStream) : (d.removeStreamSsrcs s).pins = d.pins := by
  unfold removeStreamSsrcs
  split <;> rfl

theorem removeParticipant_pins (e : Nat) : (d.removeParticipant e).pins = d.pins := by
  unfold removeParticipant
  split
  · rfl
  · rename_i ps _
    dsimp only
    cases ps.secondary with
    | none => exact removeStreamSsrcs_pins d ps.primary
    | some s =>
        show ((d.removeStreamSsrcs ps.primary).removeStreamSsrcs s).pins = d.pins
        rw [removeStreamSsrcs_pins, removeStreamSsrcs_pins]

theorem setUplinkEstimateKbps_pins (e kbps : Nat) (timestamp : BitVec 64) :
    (d.setUplinkEstimateKbps e kbps timestamp).1.pins = d.pins := by
  unfold setUplinkEstimateKbps
  split
  · rfl
  · dsimp only
    split <;> (try split) <;> (try split) <;> rfl

theorem streamActiveStateChanged_pins (e : Nat) (ssrc : BitVec 32) (active : Bool) :
    (d.streamActiveStateChanged e ssrc active).pins = d.pins := by
  unfold streamActiveStateChanged
  split
  · rfl
  · dsimp only
    split
    · rfl
    · split
      · split <;> rfl
      · rfl

/-! ## `pin` keeps the counts -/

/-- Taking `e`'s pin on `o` off the maps, as `unpinOldTarget` does, keeps the counts. -/
theorem pinCounts_unpin {d : EngineStreamDirector} (h : PinCounts d) {e o : Nat}
    (hl : d.pinMap.lookup e = some o) (ho : o ≠ 0) :
    PinCounts { d with
      pinMap := d.pinMap.erase e
      reversePinMap := decrementPinCount d.reversePinMap o } := by
  -- `e` pins `o`, so the count of `o` is positive
  have hpos : 0 < countOf d.reversePinMap o := by
    rw [h.count_eq o ho]
    exact countValue_pos_iff.mpr ⟨e, hl⟩
  have hr := lookup_of_countOf_pos hpos
  constructor
  · intro k hk
    have herase := countValue_erase_of_lookup k hl
    show countOf (decrementPinCount d.reversePinMap o) k = countValue (d.pinMap.erase e) k
    rw [countOf_decrementPinCount hr hpos]
    by_cases hko : k = o
    · subst hko
      rw [if_pos rfl, h.count_eq k hk]
      simp only [if_true] at herase
      omega
    · rw [if_neg hko, h.count_eq k hk]
      rw [if_neg (Ne.symm hko)] at herase
      omega
  · intro p t hp
    have hpe : p ≠ e := by
      rintro rfl
      simp [AList.lookup_erase] at hp
    rw [AList.lookup_erase_ne hpe] at hp
    exact h.target_ne_zero p t hp

/-- Adding a pin of an endpoint that pins nothing to a nonzero target keeps the counts. -/
theorem pinCounts_addPin {d : EngineStreamDirector} (h : PinCounts d) {e t : Nat}
    (he : e ∉ d.pinMap) (ht : t ≠ 0) :
    PinCounts { d with
      reversePinMap := incrementPinCount d.reversePinMap t
      pinMap := emplace d.pinMap e t } := by
  have hins : emplace d.pinMap e t = d.pinMap.insert e t := by rw [emplace, if_neg he]
  constructor
  · intro k hk
    show countOf (incrementPinCount d.reversePinMap t) k = countValue (emplace d.pinMap e t) k
    rw [countOf_incrementPinCount, hins, countValue_insert_of_notMem t k he]
    by_cases hkt : k = t
    · subst hkt
      rw [if_pos rfl, if_pos rfl, h.count_eq k hk]
    · rw [if_neg hkt, if_neg (Ne.symm hkt), h.count_eq k hk, Nat.add_zero]
  · intro p t' hp
    show t' ≠ 0
    by_cases hpe : p = e
    · subst hpe
      rw [lookup_emplace_of_notMem _ he] at hp
      cases hp
      exact ht
    · rw [lookup_emplace_ne _ hpe] at hp
      exact h.target_ne_zero p t' hp

/-- `unpinOldTarget` keeps the counts, and either returns the new target (and changes
nothing) or leaves the endpoint without a pin. -/
theorem unpinOldTarget_pinCounts {d : EngineStreamDirector} (h : PinCounts d) (e t : Nat) :
    PinCounts (d.unpinOldTarget e t).1 ∧
      ((d.unpinOldTarget e t).2 = t ∨ e ∉ (d.unpinOldTarget e t).1.pinMap) := by
  unfold unpinOldTarget
  cases hl : d.pinMap.lookup e with
  | none => exact ⟨h, .inr (AList.lookup_eq_none.mp hl)⟩
  | some o =>
      dsimp only
      by_cases hot : o = t
      · rw [if_pos hot]
        exact ⟨h, .inl hot⟩
      · have ho : o ≠ 0 := h.target_ne_zero e o hl
        rw [if_neg hot, if_neg ho]
        exact ⟨pinCounts_unpin h hl ho, .inr (by simp [AList.mem_erase])⟩

/-- **`pin` keeps the counts.** -/
theorem pin_pinCounts {d : EngineStreamDirector} (h : PinCounts d) (e t : Nat) :
    PinCounts (d.pin e t).1 := by
  obtain ⟨hu, hcase⟩ := unpinOldTarget_pinCounts h e t
  unfold pin
  generalize d.unpinOldTarget e t = r at hu hcase ⊢
  obtain ⟨d₁, old⟩ := r
  dsimp only at hu hcase ⊢
  by_cases hold : old = t
  · rw [if_pos hold]
    exact hu
  · rw [if_neg hold]
    by_cases ht : t ≠ 0
    · rw [if_pos ht]
      exact pinCounts_addPin hu (hcase.resolve_left hold) ht
    · rw [if_neg ht]
      exact hu

/-! ## Runs -/

/-- The call is `removeParticipantPins`. -/
def DirectorCall.removesPins : DirectorCall → Bool
  | .removeParticipantPins _ => true
  | _ => false

/-- **One call other than `removeParticipantPins` keeps the counts.** -/
theorem apply_pinCounts {d : EngineStreamDirector} (h : PinCounts d) (c : DirectorCall)
    (hc : c.removesPins = false) : PinCounts (d.apply c) := by
  cases c with
  | addParticipant e => exact h.of_pins (addParticipant_pins d e)
  | addParticipantWithStreams e primary secondary =>
      exact h.of_pins (addParticipantWithStreams_pins d e primary secondary)
  | removeParticipant e => exact h.of_pins (removeParticipant_pins d e)
  | removeParticipantPins e => cases hc
  | pin e t => exact pin_pinCounts h e t
  | setUplinkEstimateKbps e kbps timestamp =>
      exact h.of_pins (setUplinkEstimateKbps_pins d e kbps timestamp)
  | streamActiveStateChanged e ssrc active =>
      exact h.of_pins (streamActiveStateChanged_pins d e ssrc active)
  | setSlidesSsrcAndBitrate ssrc kbps => exact h.of_pins rfl

/-- **Every run without `removeParticipantPins` keeps the counts.** -/
theorem runCalls_pinCounts {d : EngineStreamDirector} (h : PinCounts d) (calls : List DirectorCall)
    (hcalls : ∀ c ∈ calls, c.removesPins = false) : PinCounts (d.runCalls calls) :=
  List.foldlRecOn calls apply h (fun _ hd' c hc => apply_pinCounts hd' c (hcalls c hc))

/-- Under the counts, a pinned endpoint is `isPinned`. -/
theorem isPinned_of_lookup {d : EngineStreamDirector} (h : PinCounts d) {e t : Nat}
    (hl : d.pinMap.lookup e = some t) : d.isPinned t = true := by
  have ht := h.target_ne_zero e t hl
  have hpos : 0 < countOf d.reversePinMap t := by
    rw [h.count_eq t ht]
    exact countValue_pos_iff.mpr ⟨e, hl⟩
  have hr := lookup_of_countOf_pos hpos
  unfold isPinned
  exact decide_eq_true (AList.lookup_isSome.mp (by rw [hr]; rfl))

/-- The converse fails: unpinning leaves a zero count behind, so the old target stays
`isPinned` with nobody pinning it. -/
example : ((create 0 9).runCalls [.pin 1 2, .pin 1 0]).isPinned 2 = true ∧
    countValue ((create 0 9).runCalls [.pin 1 2, .pin 1 0]).pinMap 2 = 0 := by
  decide

/-! ## `removeParticipantPins` -/

/-- **The loop of `removeParticipantPins` erases nothing**: the pin map afterwards is the old
one without the endpoint's own pin. -/
theorem removeParticipantPins_pinMap (e : Nat) :
    (d.removeParticipantPins e).pinMap = d.pinMap.erase e := by
  unfold removeParticipantPins
  dsimp only
  -- every round erases `e` from a map that no longer has it
  refine List.foldlRecOn (motive := fun m => m = d.pinMap.erase e) _ _ rfl ?_
  intro m hm entry _
  split
  · rename_i hentry
    rw [hentry, hm]
    exact erase_of_notMem (by simp [AList.mem_erase])
  · exact hm

/-- After `pin(1, 2)` and `removeParticipantPins(2)`. -/
def pinnedTargetRemoved : EngineStreamDirector :=
  (create 0 9).runCalls [.pin 1 2, .removeParticipantPins 2]

/-- Endpoint `1` still pins `2`, but `2` has no count and is not `isPinned`. -/
theorem removeParticipantPins_keeps_pinners :
    pinnedTargetRemoved.pinMap.lookup 1 = some 2 ∧ countValue pinnedTargetRemoved.pinMap 2 = 1 ∧
      countOf pinnedTargetRemoved.reversePinMap 2 = 0 ∧ pinnedTargetRemoved.isPinned 2 = false := by
  decide

end EngineStreamDirector

end MediaBridge.Bridge
