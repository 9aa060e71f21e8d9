import MediaBridge.Memory.Map
import MediaBridge.Utils.Time

set_option autoImplicit false

/-! # `VideoMissingPacketsTracker`: which video packets to NACK

The receive job tells the tracker of every sequence number it skips (`onMissingPacket`) and of
every late arrival (`onPacketArrived`); `ProcessMissingVideoPacketsJob` asks it, now and then,
for the numbers to NACK (`process`). The tracker is a `memory::Map` of at most
`maxMissingPackets` entries keyed by the low 16 bits of the extended sequence number; an entry
records when its number went missing, when it was last NACKed and how often.

Every entry is keyed by its own number and has been NACKed at most `maxRetries` times, in every
state the operations reach (`WellFormed`). `process` NACKs an entry only when it is due: missing
for more than `delayFirstNack` and last NACKed more than `retryDelay` before; it charges the
entry one NACK and stamps it with the time (`process_charged`), and drops an entry instead of
NACKing it a fifth time. The loop stops once it has `maxMissingPackets` numbers
(`process_length_le`), right after its assertion `missingCount < maxMissingPackets` has failed: a
full tracker of due entries NACKs every one of them (`processLoop_all_due`).
-/

namespace MediaBridge.Bridge

open Memory

namespace VideoMissingPacketsTracker

/-- `VideoMissingPacketsTracker::maxMissingPackets`. -/
def maxMissingPackets : Nat := 128

/-- `VideoMissingPacketsTracker::maxRetries`. -/
def maxRetries : Nat := 4

/-- `delayFirstNack`. -/
def delayFirstNack : BitVec 64 := 30 * Time.ms

instance : NeZero maxMissingPackets := ⟨by decide⟩

/-- `VideoMissingPacketsTracker::Entry`; `nacksSent` is a `uint32_t` that never passes
`maxRetries + 1`. -/
structure Entry where
  timestamp : BitVec 64
  lastSentNackTimestamp : BitVec 64
  nacksSent : Nat
  extendedSequenceNumber : BitVec 32

end VideoMissingPacketsTracker

open VideoMissingPacketsTracker

/-- `VideoMissingPacketsTracker`: its map `_missingPackets`. -/
structure VideoMissingPacketsTracker where
  missingPackets : Memory.Map (BitVec 16) Entry maxMissingPackets

namespace VideoMissingPacketsTracker

/-- `VideoMissingPacketsTracker()`. -/
def create : VideoMissingPacketsTracker := ⟨Map.empty maxMissingPackets⟩

variable (t : VideoMissingPacketsTracker)

/-- `reset()`. -/
def reset : VideoMissingPacketsTracker := ⟨t.missingPackets.clear⟩

/-- `onMissingPacket(extendedSequenceNumber, timestamp)`: a full tracker is reset and refuses;
otherwise the number is added under its low 16 bits (a present key is kept) and accepted. The
entry counts as last NACKed five seconds before, so that the first NACK waits only for
`delayFirstNack`. -/
def onMissingPacket (extendedSequenceNumber : BitVec 32) (timestamp : BitVec 64) :
    VideoMissingPacketsTracker × Bool :=
  if t.missingPackets.size ≥ maxMissingPackets then (t.reset, false)
  else
    (⟨(t.missingPackets.emplace (extendedSequenceNumber.setWidth 16)
      ⟨timestamp, timestamp - 5 * Time.sec, 0, extendedSequenceNumber⟩).1⟩, true)

/-- `onPacketArrived(sequenceNumber, outExtendedSequenceNumber)`: the entry of a late arrival is
removed, and its extended number returned. -/
def onPacketArrived (sequenceNumber : BitVec 16) : VideoMissingPacketsTracker × Option (BitVec 32) :=
  match t.missingPackets.getItem sequenceNumber with
  | none => (t, none)
  | some missingPacket =>
      (⟨(t.missingPackets.erase sequenceNumber).1⟩, some missingPacket.extendedSequenceNumber)

/-- `retryDelay = std::max(rttNs + 10 * utils::Time::ms, 100 * utils::Time::ms)`, in 64 bits. -/
def retryDelay (rttNs : BitVec 32) : BitVec 64 :=
  if rttNs.setWidth 64 + 10 * Time.ms < 100 * Time.ms then 100 * Time.ms
  else rttNs.setWidth 64 + 10 * Time.ms

/-- The condition of `process` on an entry: missing for more than `delayFirstNack`, and last
NACKed more than `retryDelay` before. -/
def isDue (timestamp retryDelay : BitVec 64) (entry : Entry) : Bool :=
  Time.diffGT entry.timestamp timestamp delayFirstNack &&
    Time.diffGT entry.lastSentNackTimestamp timestamp retryDelay

/-- An entry NACKed once more at `timestamp`. -/
def Entry.charge (entry : Entry) (timestamp : BitVec 64) : Entry :=
  { entry with nacksSent := entry.nacksSent + 1, lastSentNackTimestamp := timestamp }

/-- The loop of `process` over the entries of the map as they are when it starts (it changes
only the entry it visits), with the numbers to NACK so far. -/
def processLoop (timestamp retryDelay : BitVec 64) :
    List (BitVec 16 × Entry) → VideoMissingPacketsTracker → List (BitVec 16) →
      VideoMissingPacketsTracker × List (BitVec 16)
  | [], t, out => (t, out)
  | (sequenceNumber, entry) :: rest, t, out =>
      if isDue timestamp retryDelay entry then
        if entry.nacksSent + 1 > maxRetries then
          processLoop timestamp retryDelay rest ⟨(t.missingPackets.erase sequenceNumber).1⟩ out
        else
          -- `assert(missingCount < maxMissingPackets)` stands before the `break`
          if (out ++ [sequenceNumber]).length ≥ maxMissingPackets then
            (⟨t.missingPackets.setValue sequenceNumber (entry.charge timestamp)⟩, out ++ [sequenceNumber])
          else
            processLoop timestamp retryDelay rest
              ⟨t.missingPackets.setValue sequenceNumber (entry.charge timestamp)⟩ (out ++ [sequenceNumber])
      else processLoop timestamp retryDelay rest t out

/-- `process(timestamp, rttNs, outMissingSequenceNumbers)`: the tracker after, and the numbers
written to `outMissingSequenceNumbers` (`missingCount` of them). -/
def process (timestamp : BitVec 64) (rttNs : BitVec 32) : VideoMissingPacketsTracker × List (BitVec 16) :=
  processLoop timestamp (retryDelay rttNs) t.missingPackets.entries t []

/-! ## The loop of `process` -/

section Loop

variable {timestamp rd : BitVec 64}

/-- The loop changes only the entries it visits. -/
theorem processLoop_keeps {es : List (BitVec 16 × Entry)} {t : VideoMissingPacketsTracker}
    {out : List (BitVec 16)} {x : BitVec 16 × Entry} (hx : x ∈ t.missingPackets.entries)
    (hk : x.1 ∉ es.map Prod.fst) : x ∈ (processLoop timestamp rd es t out).1.missingPackets.entries := by
  induction es generalizing t out with
  | nil => exact hx
  | cons y rest ih =>
      obtain ⟨k', e⟩ := y
      rw [List.map_cons, List.mem_cons, not_or] at hk
      obtain ⟨hne, hrest⟩ := hk
      -- both changes of the round are at the key `k'`
      have hset : x ∈ (t.missingPackets.setValue k' (e.charge timestamp)).entries :=
        (Map.mem_entries_setValue _ _ _ _).mpr ⟨x, hx, if_neg hne⟩
      unfold processLoop
      split
      · split
        · exact ih ((Map.mem_entries_erase _ _ _).mpr ⟨hx, hne⟩) hrest
        · split
          · exact hset
          · exact ih hset hrest
      · exact ih hx hrest

/-- **What the loop NACKs**: a number from a due entry NACKed fewer than `maxRetries` times, whose
entry is then charged one NACK at this time. The entries still to visit are in the map. -/
theorem processLoop_charged {es : List (BitVec 16 × Entry)} {t : VideoMissingPacketsTracker}
    {out : List (BitVec 16)} (hsub : ∀ x ∈ es, x ∈ t.missingPackets.entries)
    (hnodup : (es.map Prod.fst).Nodup) {k : BitVec 16} (h : k ∈ (processLoop timestamp rd es t out).2) :
    k ∈ out ∨ ∃ e, (k, e) ∈ es ∧ isDue timestamp rd e = true ∧ e.nacksSent < maxRetries ∧
      (k, e.charge timestamp) ∈ (processLoop timestamp rd es t out).1.missingPackets.entries := by
  induction es generalizing t out with
  | nil => exact .inl h
  | cons y rest ih =>
      obtain ⟨k', e⟩ := y
      simp only [List.map_cons, List.nodup_cons] at hnodup
      have hy : (k', e) ∈ t.missingPackets.entries := hsub _ List.mem_cons_self
      -- the other entries to visit stay in the map through this round's change at `k'`
      have hrest : ∀ t' : VideoMissingPacketsTracker, (∀ x ∈ t.missingPackets.entries, x.1 ≠ k' →
          x ∈ t'.missingPackets.entries) → ∀ x ∈ rest, x ∈ t'.missingPackets.entries := by
        intro t' ht' x hx
        refine ht' x (hsub x (List.mem_cons_of_mem _ hx)) ?_
        rintro rfl
        exact hnodup.1 (List.mem_map_of_mem hx)
      have hset : ∀ x ∈ t.missingPackets.entries, x.1 ≠ k' →
          x ∈ (t.missingPackets.setValue k' (e.charge timestamp)).entries :=
        fun x hx hne => (Map.mem_entries_setValue _ _ _ _).mpr ⟨x, hx, if_neg hne⟩
      have hcharged : (k', e.charge timestamp) ∈ (t.missingPackets.setValue k' (e.charge timestamp)).entries :=
        (Map.mem_entries_setValue _ _ _ _).mpr ⟨(k', e), hy, if_pos rfl⟩
      -- a number pushed in this round is `k'`
      have hpush : ∀ r : VideoMissingPacketsTracker × List (BitVec 16),
          (k', e.charge timestamp) ∈ r.1.missingPackets.entries → isDue timestamp rd e = true →
          ¬ e.nacksSent + 1 > maxRetries → k ∈ out ++ [k'] →
          k ∈ out ∨ ∃ e', (k, e') ∈ (k', e) :: rest ∧ isDue timestamp rd e' = true ∧
            e'.nacksSent < maxRetries ∧ (k, e'.charge timestamp) ∈ r.1.missingPackets.entries := by
        intro r hr hdue hret hk
        rcases List.mem_append.mp hk with hk | hk
        · exact .inl hk
        · rw [List.mem_singleton] at hk
          subst hk
          exact .inr ⟨e, List.mem_cons_self, hdue, by omega, hr⟩
      have hlift : ∀ r : VideoMissingPacketsTracker × List (BitVec 16), ∀ o : List (BitVec 16),
          (k ∈ o ∨ ∃ e', (k, e') ∈ rest ∧ isDue timestamp rd e' = true ∧ e'.nacksSent < maxRetries ∧
            (k, e'.charge timestamp) ∈ r.1.missingPackets.entries) →
          (k ∈ o → k ∈ out ∨ ∃ e', (k, e') ∈ (k', e) :: rest ∧ isDue timestamp rd e' = true ∧
            e'.nacksSent < maxRetries ∧ (k, e'.charge timestamp) ∈ r.1.missingPackets.entries) →
          k ∈ out ∨ ∃ e', (k, e') ∈ (k', e) :: rest ∧ isDue timestamp rd e' = true ∧
            e'.nacksSent < maxRetries ∧ (k, e'.charge timestamp) ∈ r.1.missingPackets.entries := by
        rintro r o (hk | ⟨e', he', hd, hn, hc⟩) hout
        · exact hout hk
        · exact .inr ⟨e', List.mem_cons_of_mem _ he', hd, hn, hc⟩
      unfold processLoop at h ⊢
      split at h
      · rename_i hdue
        rw [if_pos hdue]
        split at h
        · rename_i hret
          rw [if_pos hret]
          exact hlift _ out
            (ih (hrest _ (fun x hx hne => (Map.mem_entries_erase _ _ _).mpr ⟨hx, hne⟩)) hnodup.2 h) .inl
        · rename_i hret
          rw [if_neg hret]
          split at h
          · rename_i hfull
            rw [if_pos hfull]
            exact hpush _ hcharged hdue hret h
          · rename_i hfull
            rw [if_neg hfull]
            exact hlift _ _ (ih (hrest _ hset) hnodup.2 h)
              (hpush _ (processLoop_keeps hcharged hnodup.1) hdue hret)
      · rename_i hdue
        rw [if_neg hdue]
        exact hlift _ out (ih (hrest _ (fun x hx _ => hx)) hnodup.2 h) .inl

/-- **The loop stops at `maxMissingPackets` numbers.** -/
theorem processLoop_length_le {es : List (BitVec 16 × Entry)} {t : VideoMissingPacketsTracker}
    {out : List (BitVec 16)} (h : out.length < maxMissingPackets) :
    (processLoop timestamp rd es t out).2.length ≤ maxMissingPackets := by
  induction es generalizing t out with
  | nil => exact Nat.le_of_lt h
  | cons x rest ih =>
      obtain ⟨k', e⟩ := x
      unfold processLoop
      split
      · split
        · exact ih h
        · split
          · rw [List.length_append, List.length_singleton]
            omega
          · rename_i hlt
            exact ih (by omega)
      · exact ih h

/-- **With room for all of them, every due entry below the retry limit is NACKed**, in the
order of the map. -/
theorem processLoop_all_due {es : List (BitVec 16 × Entry)} {t : VideoMissingPacketsTracker}
    {out : List (BitVec 16)}
    (hdue : ∀ x ∈ es, isDue timestamp rd x.2 = true ∧ x.2.nacksSent < maxRetries)
    (hroom : out.length + es.length ≤ maxMissingPackets) :
    (processLoop timestamp rd es t out).2 = out ++ es.map Prod.fst := by
  induction es generalizing t out with
  | nil => simp [processLoop]
  | cons x rest ih =>
      obtain ⟨k', e⟩ := x
      obtain ⟨hd, hn⟩ : isDue timestamp rd e = true ∧ e.nacksSent < maxRetries :=
        hdue (k', e) List.mem_cons_self
      have hrest : ∀ x ∈ rest, isDue timestamp rd x.2 = true ∧ x.2.nacksSent < maxRetries :=
        fun x hx => hdue x (List.mem_cons_of_mem _ hx)
      rw [List.length_cons] at hroom
      unfold processLoop
      rw [if_pos hd, if_neg (by omega)]
      split
      · -- the loop breaks at the last entry
        rename_i hfull
        rw [List.length_append, List.length_singleton] at hfull
        have hnil : rest = [] := List.eq_nil_of_length_eq_zero (by omega)
        subst hnil
        simp
      · rw [ih hrest (by rw [List.length_append, List.length_singleton]; omega)]
        simp

end Loop

/-! ## What each operation does to the entries -/

/-- Entries of `onMissingPacket`: the old ones and the new one. -/
theorem mem_onMissingPacket {extendedSequenceNumber : BitVec 32} {timestamp : BitVec 64}
    {x : BitVec 16 × Entry} (h : x ∈ (t.onMissingPacket extendedSequenceNumber timestamp).1.missingPackets.entries) :
    x ∈ t.missingPackets.entries ∨
      x = (extendedSequenceNumber.setWidth 16, ⟨timestamp, timestamp - 5 * Time.sec, 0, extendedSequenceNumber⟩) := by
  unfold onMissingPacket at h
  split at h
  · simp [reset] at h
  · cases hs : (t.missingPackets.emplace (extendedSequenceNumber.setWidth 16)
        ⟨timestamp, timestamp - 5 * Time.sec, 0, extendedSequenceNumber⟩).2 with
    | true =>
        rcases List.mem_cons.mp ((Map.entries_emplace_of_snd hs).mem_iff.mp h) with hx | hx
        · exact .inr hx
        · exact .inl hx
    | false =>
        rw [Map.entries_emplace_of_not_snd hs] at h
        exact .inl h

/-- **A number with a free key in a tracker with room is added.** -/
theorem onMissingPacket_add {extendedSequenceNumber : BitVec 32} (timestamp : BitVec 64)
    (hlt : t.missingPackets.size < maxMissingPackets)
    (hfresh : t.missingPackets.contains (extendedSequenceNumber.setWidth 16) = false) :
    (t.onMissingPacket extendedSequenceNumber timestamp).2 = true ∧
      (t.onMissingPacket extendedSequenceNumber timestamp).1.missingPackets.size = t.missingPackets.size + 1 := by
  unfold onMissingPacket
  rw [if_neg (by omega)]
  refine ⟨rfl, Map.size_emplace_of_snd ?_⟩
  rw [Map.emplace_snd, hfresh, Bool.not_false, Bool.true_and]
  exact decide_eq_true hlt

theorem mem_onPacketArrived {sequenceNumber : BitVec 16} {x : BitVec 16 × Entry}
    (h : x ∈ (t.onPacketArrived sequenceNumber).1.missingPackets.entries) : x ∈ t.missingPackets.entries := by
  unfold onPacketArrived at h
  split at h
  · exact h
  · exact ((Map.mem_entries_erase _ _ _).mp h).1

/-! ## The invariant -/

/-- **The tracker's invariant**: every entry is keyed by the low 16 bits of its number and has
been NACKed at most `maxRetries` times. -/
def WellFormed (t : VideoMissingPacketsTracker) : Prop :=
  ∀ x ∈ t.missingPackets.entries,
    x.1 = x.2.extendedSequenceNumber.setWidth 16 ∧ x.2.nacksSent ≤ maxRetries

theorem wellFormed_create : WellFormed create := by
  intro x hx
  simp [create] at hx

theorem WellFormed.reset {t : VideoMissingPacketsTracker} (_ : WellFormed t) : WellFormed t.reset := by
  intro x hx
  simp [VideoMissingPacketsTracker.reset] at hx

theorem WellFormed.onMissingPacket {t : VideoMissingPacketsTracker} (h : WellFormed t)
    (extendedSequenceNumber : BitVec 32) (timestamp : BitVec 64) :
    WellFormed (t.onMissingPacket extendedSequenceNumber timestamp).1 := by
  intro x hx
  rcases mem_onMissingPacket t hx with hx | rfl
  · exact h x hx
  · exact ⟨rfl, Nat.zero_le _⟩

theorem WellFormed.onPacketArrived {t : VideoMissingPacketsTracker} (h : WellFormed t)
    (sequenceNumber : BitVec 16) : WellFormed (t.onPacketArrived sequenceNumber).1 :=
  fun x hx => h x (mem_onPacketArrived t hx)

/-- The loop keeps the invariant: it drops entries, and charges an entry only below the retry
limit. -/
theorem processLoop_wellFormed {timestamp rd : BitVec 64} {es : List (BitVec 16 × Entry)}
    {t : VideoMissingPacketsTracker} {out : List (BitVec 16)} (h : WellFormed t)
    (hsub : ∀ x ∈ es, x ∈ t.missingPackets.entries) (hnodup : (es.map Prod.fst).Nodup) :
    WellFormed (processLoop timestamp rd es t out).1 := by
  induction es generalizing t out with
  | nil => exact h
  | cons y rest ih =>
      obtain ⟨k', e⟩ := y
      simp only [List.map_cons, List.nodup_cons] at hnodup
      have hy := h _ (hsub _ List.mem_cons_self)
      have hrest : ∀ t' : VideoMissingPacketsTracker, (∀ x ∈ t.missingPackets.entries, x.1 ≠ k' →
          x ∈ t'.missingPackets.entries) → ∀ x ∈ rest, x ∈ t'.missingPackets.entries := by
        intro t' ht' x hx
        refine ht' x (hsub x (List.mem_cons_of_mem _ hx)) ?_
        rintro rfl
        exact hnodup.1 (List.mem_map_of_mem hx)
      have hset : ∀ x ∈ t.missingPackets.entries, x.1 ≠ k' →
          x ∈ (t.missingPackets.setValue k' (e.charge timestamp)).entries :=
        fun x hx hne => (Map.mem_entries_setValue _ _ _ _).mpr ⟨x, hx, if_neg hne⟩
      have herase : ∀ x ∈ t.missingPackets.entries, x.1 ≠ k' →
          x ∈ (t.missingPackets.erase k').1.entries :=
        fun x hx hne => (Map.mem_entries_erase _ _ _).mpr ⟨hx, hne⟩
      -- the charged entry keeps its key and number, and stays within the limit
      have hcharge : ¬ e.nacksSent + 1 > maxRetries →
          WellFormed ⟨t.missingPackets.setValue k' (e.charge timestamp)⟩ := by
        intro hret x hx
        obtain ⟨x', hx', rfl⟩ := (Map.mem_entries_setValue _ _ _ _).mp hx
        split
        · rename_i hk
          exact ⟨hk.trans hy.1, by simp only [Entry.charge]; omega⟩
        · exact h x' hx'
      unfold processLoop
      split
      · split
        · exact ih (fun x hx => h x ((Map.mem_entries_erase _ _ _).mp hx).1) (hrest _ herase) hnodup.2
        · rename_i hret
          split
          · exact hcharge hret
          · exact ih (hcharge hret) (hrest _ hset) hnodup.2
      · exact ih h (hrest _ (fun x hx _ => hx)) hnodup.2

theorem WellFormed.process {t : VideoMissingPacketsTracker} (h : WellFormed t) (timestamp : BitVec 64)
    (rttNs : BitVec 32) : WellFormed (t.process timestamp rttNs).1 :=
  processLoop_wellFormed h (fun _ hx => hx) t.missingPackets.keys_entries_nodup

/-! ## `process` -/

/-- **What `process` NACKs**: numbers of due entries NACKed fewer than `maxRetries` times, each
charged one NACK at `timestamp`. -/
theorem process_charged {timestamp : BitVec 64} {rttNs : BitVec 32} {k : BitVec 16}
    (h : k ∈ (t.process timestamp rttNs).2) :
    ∃ e, (k, e) ∈ t.missingPackets.entries ∧ isDue timestamp (retryDelay rttNs) e = true ∧
      e.nacksSent < maxRetries ∧ (k, e.charge timestamp) ∈ (t.process timestamp rttNs).1.missingPackets.entries := by
  rcases processLoop_charged (fun _ hx => hx) t.missingPackets.keys_entries_nodup h with hk | hk
  · cases hk
  · exact hk

/-- **`process` NACKs at most `maxMissingPackets` numbers.** -/
theorem process_length_le (timestamp : BitVec 64) (rttNs : BitVec 32) :
    (t.process timestamp rttNs).2.length ≤ maxMissingPackets :=
  processLoop_length_le (by decide)

end VideoMissingPacketsTracker

end MediaBridge.Bridge
