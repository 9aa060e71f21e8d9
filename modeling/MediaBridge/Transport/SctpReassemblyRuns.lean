import MediaBridge.Transport.SctpReassembly

set_option autoImplicit false

/-! # Messages reassembled by the receive path

The peer sends its messages one after another, each cut into fragments carried by DATA chunks
over consecutive TSNs, the first with the begin flag and the last with the end flag. The
packets that reach the association carry these chunks in any order, any number of times, and
some of them may find no room. What the listener should be given is then fixed by which chunks
have been stored: the messages that lie wholly within the longest run of stored chunks from the
start, in order, each as the concatenation of its fragments.

`Reassembled` says that the state and the reports made so far are those: the cumulative ack is
the end of that run, the map holds the stored chunks of the messages not reported yet, in TSN
order, and the reports are the complete messages. Every packet keeps it (`onDataReceived_step`),
so every run does, as long as all TSNs of the run lie within half the ring above the
cumulative ack the association starts from: the comparisons of `diff` are then the
comparisons of the offsets (`diff_tsnAt`).
-/

namespace MediaBridge.Transport.Sctp

/-! ## TSNs above a base -/

/-- The TSN `k` above `base`. -/
def tsnAt (base : BitVec 32) (k : Nat) : BitVec 32 := base + BitVec.ofNat 32 k

section Tsn

variable (base : BitVec 32)

theorem tsnAt_zero : tsnAt base 0 = base := by simp [tsnAt]

theorem tsnAt_add_one (k : Nat) : tsnAt base k + 1 = tsnAt base (k + 1) := by
  rw [tsnAt, tsnAt, BitVec.ofNat_add, BitVec.add_assoc]; rfl

theorem toNat_tsnAt_sub_base {k : Nat} (hk : k < 2 ^ 32) : (tsnAt base k - base).toNat = k := by
  have hsub : tsnAt base k - base = BitVec.ofNat 32 k := by simp [tsnAt]
  rw [hsub, BitVec.toNat_ofNat, Nat.mod_eq_of_lt hk]

/-- Within half the ring above `base`, `diff` is the difference of the offsets. -/
theorem diff_tsnAt {a b : Nat} (ha : a < 2 ^ 31) (hb : b < 2 ^ 31) :
    diff (tsnAt base a) (tsnAt base b) = (b : Int) - a := by
  have ha' : a < 2 ^ 32 := by omega
  have hb' : b < 2 ^ 32 := by omega
  unfold diff
  rw [SerialNumber.toInt_sub_of_window (by rw [toNat_tsnAt_sub_base base hb']; omega)
    (by rw [toNat_tsnAt_sub_base base ha']; omega), toNat_tsnAt_sub_base base hb',
    toNat_tsnAt_sub_base base ha']

theorem lessReceivedDataChunk_tsnAt {a b : Nat} (ha : a < 2 ^ 31) (hb : b < 2 ^ 31) :
    lessReceivedDataChunk (tsnAt base a) (tsnAt base b) = decide (a < b) := by
  rw [lessReceivedDataChunk, diff_tsnAt base ha hb]
  exact decide_eq_decide.mpr (by omega)

theorem tsnAt_inj {a b : Nat} (ha : a < 2 ^ 32) (hb : b < 2 ^ 32) :
    tsnAt base a = tsnAt base b ↔ a = b := by
  constructor
  · intro h
    have hoff := congrArg (fun x => (x - base).toNat) h
    simpa only [toNat_tsnAt_sub_base base ha, toNat_tsnAt_sub_base base hb] using hoff
  · rintro rfl; rfl

end Tsn

/-! ## The messages the peer sends -/

/-- A message as the peer's user sends it: its stream, stream sequence number and payload
protocol, and the payloads of its fragments, of which there is at least one and none is empty
(a DATA chunk carries user data). -/
structure Message where
  streamId : BitVec 16
  streamSequenceNumber : BitVec 16
  payloadProtocol : BitVec 32
  fragments : List (List (BitVec 8))
  fragments_ne_nil : fragments ≠ []
  payload_ne_nil : ∀ payload ∈ fragments, payload ≠ []

/-- The flags of a fragment's chunk: begin on the first, end on the last. -/
def fragmentFlags (first last : Bool) : BitVec 8 :=
  (if first then 0x02 else 0) ||| (if last then 0x01 else 0)

namespace Message

/-- The DATA chunks of the fragments `payloads` of `m` from the TSN `o` above `base` on;
`first` says whether the first of them begins the message. -/
def fragmentChunks (m : Message) (base : BitVec 32) :
    Bool → Nat → List (List (BitVec 8)) → List PayloadDataChunk
  | _, _, [] => []
  | first, o, payload :: rest =>
      ⟨fragmentFlags first rest.isEmpty, tsnAt base o, m.streamId, m.streamSequenceNumber,
        m.payloadProtocol, payload⟩ :: m.fragmentChunks base false (o + 1) rest

/-- The DATA chunks of `m` from the TSN `o` above `base` on. -/
def dataChunks (m : Message) (base : BitVec 32) (o : Nat) : List PayloadDataChunk :=
  m.fragmentChunks base true o m.fragments

/-- What the listener is to be given for `m`: its own stream, stream sequence number and
payload protocol, and its fragments' payloads one after another. -/
def report (m : Message) : FragmentReceived :=
  ⟨m.streamId, m.streamSequenceNumber, m.payloadProtocol, m.fragments.flatten,
    m.fragments.flatten.length⟩

end Message

/-- How many chunks the messages take. -/
def sentCount (msgs : List Message) : Nat := (msgs.map fun m => m.fragments.length).sum

/-- The DATA chunks of `msgs`, sent one message after another from the TSN `o` above `base` on. -/
def sentChunks (base : BitVec 32) : Nat → List Message → List PayloadDataChunk
  | _, [] => []
  | o, m :: ms => m.dataChunks base o ++ sentChunks base (o + m.fragments.length) ms

/-- How many of the messages lie wholly within their first `c` chunks. -/
def completedCount : List Message → Nat → Nat
  | [], _ => 0
  | m :: ms, c =>
      if m.fragments.length ≤ c then completedCount ms (c - m.fragments.length) + 1 else 0

/-- The entry the map keeps for a stored chunk. -/
def entry (chunk : PayloadDataChunk) : BitVec 32 × ReceivedDataChunk :=
  (chunk.transmissionSequenceNumber, .ofPayload chunk)

/-- The chunks of a list carry the TSNs `o, o + 1, ...` above `base`. -/
def Consecutive (base : BitVec 32) : Nat → List PayloadDataChunk → Prop
  | _, [] => True
  | o, p :: P => p.transmissionSequenceNumber = tsnAt base o ∧ Consecutive base (o + 1) P

section Sent

variable (base : BitVec 32)

@[simp] theorem length_fragmentChunks (m : Message) :
    ∀ (first : Bool) (o : Nat) (payloads : List (List (BitVec 8))),
      (m.fragmentChunks base first o payloads).length = payloads.length
  | _, _, [] => rfl
  | _, o, _ :: rest => by
      simp [Message.fragmentChunks, length_fragmentChunks m false (o + 1) rest]

@[simp] theorem length_sentChunks :
    ∀ (o : Nat) (msgs : List Message), (sentChunks base o msgs).length = sentCount msgs
  | _, [] => rfl
  | o, m :: ms => by
      simp [sentChunks, Message.dataChunks, sentCount, length_sentChunks _ ms]

theorem sentCount_append (ms₁ ms₂ : List Message) :
    sentCount (ms₁ ++ ms₂) = sentCount ms₁ + sentCount ms₂ := by
  simp [sentCount]

theorem sentChunks_append :
    ∀ (o : Nat) (ms₁ ms₂ : List Message),
      sentChunks base o (ms₁ ++ ms₂) = sentChunks base o ms₁ ++ sentChunks base (o + sentCount ms₁) ms₂
  | _, [], _ => by simp [sentChunks, sentCount]
  | o, m :: ms₁, ms₂ => by
      have hcount : sentCount (m :: ms₁) = m.fragments.length + sentCount ms₁ := by simp [sentCount]
      rw [List.cons_append, sentChunks, sentChunks, sentChunks_append _ ms₁ ms₂, hcount,
        List.append_assoc, Nat.add_assoc]

theorem consecutive_append :
    ∀ {o : Nat} {P Q : List PayloadDataChunk},
      Consecutive base o (P ++ Q) ↔ Consecutive base o P ∧ Consecutive base (o + P.length) Q
  | _, [], _ => by simp [Consecutive]
  | o, p :: P, Q => by
      rw [List.cons_append, Consecutive, Consecutive, consecutive_append, List.length_cons,
        Nat.add_assoc, Nat.add_comm 1 P.length, and_assoc]

theorem consecutive_fragmentChunks (m : Message) :
    ∀ (first : Bool) (o : Nat) (payloads : List (List (BitVec 8))),
      Consecutive base o (m.fragmentChunks base first o payloads)
  | _, _, [] => trivial
  | _, o, _ :: rest => ⟨rfl, consecutive_fragmentChunks m false (o + 1) rest⟩

theorem consecutive_sentChunks :
    ∀ (o : Nat) (msgs : List Message), Consecutive base o (sentChunks base o msgs)
  | _, [] => trivial
  | o, m :: ms => by
      rw [sentChunks, consecutive_append, Message.dataChunks, length_fragmentChunks]
      exact ⟨consecutive_fragmentChunks base m true o m.fragments, consecutive_sentChunks _ ms⟩

/-- Every chunk of a consecutive list sits at one of its offsets. -/
theorem Consecutive.exists_of_mem :
    ∀ {o : Nat} {P : List PayloadDataChunk}, Consecutive base o P →
      ∀ {x : PayloadDataChunk}, x ∈ P →
        ∃ k, o ≤ k ∧ k < o + P.length ∧ x.transmissionSequenceNumber = tsnAt base k
  | _, [], _, _, hx => absurd hx List.not_mem_nil
  | o, p :: P, ⟨hp, hP⟩, x, hx => by
      rcases List.mem_cons.mp hx with rfl | hx
      · exact ⟨o, Nat.le_refl o, by simp, hp⟩
      · obtain ⟨k, hlo, hhi, hk⟩ := Consecutive.exists_of_mem hP hx
        exact ⟨k, by omega, by simp; omega, hk⟩

/-- Two chunks of a consecutive list within the ring with one TSN are one chunk. -/
theorem Consecutive.eq_of_tsn_eq :
    ∀ {o : Nat} {P : List PayloadDataChunk}, Consecutive base o P → o + P.length ≤ 2 ^ 32 →
      ∀ {x y : PayloadDataChunk}, x ∈ P → y ∈ P →
        x.transmissionSequenceNumber = y.transmissionSequenceNumber → x = y
  | _, [], _, _, _, _, hx, _, _ => absurd hx List.not_mem_nil
  | o, p :: P, ⟨hp, hP⟩, hw, x, y, hx, hy, hxy => by
      have hw' : o + 1 + P.length ≤ 2 ^ 32 := by simp at hw; omega
      -- a chunk after the head is above it
      have hne : ∀ z ∈ P, z.transmissionSequenceNumber ≠ p.transmissionSequenceNumber := by
        intro z hz hzp
        obtain ⟨k, hlo, hhi, hk⟩ := Consecutive.exists_of_mem base hP hz
        rw [hk, hp, tsnAt_inj base (by omega) (by omega)] at hzp
        omega
      rcases List.mem_cons.mp hx with hxp | hx <;> rcases List.mem_cons.mp hy with hyp | hy
      · rw [hxp, hyp]
      · rw [hxp] at hxy; exact absurd hxy.symm (hne y hy)
      · rw [hyp] at hxy; exact absurd hxy (hne x hx)
      · exact Consecutive.eq_of_tsn_eq hP hw' hx hy hxy

end Sent

/-! ## The map holds stored chunks in TSN order

The map is always the entries of the stored chunks among a consecutive list of sent chunks,
in order (`(P.filter A).map entry`). The three operations on it, lookup, insertion and the
ack loop, are then read off the offsets. -/

section Map

variable {base : BitVec 32} (A : PayloadDataChunk → Bool)

@[simp] theorem entry_fst (chunk : PayloadDataChunk) :
    (entry chunk).1 = chunk.transmissionSequenceNumber := rfl

@[simp] theorem transmissionSequenceNumber_entry_snd (chunk : PayloadDataChunk) :
    (entry chunk).2.transmissionSequenceNumber = chunk.transmissionSequenceNumber := rfl

/-- The lookup finds a TSN exactly when a stored chunk carries it. -/
theorem findChunk_filter :
    ∀ {o : Nat} {P : List PayloadDataChunk}, Consecutive base o P → o + P.length < 2 ^ 31 →
      ∀ {q : Nat}, q < 2 ^ 31 →
        ((findChunk ((P.filter A).map entry) (tsnAt base q)).isSome ↔
          ∃ p ∈ P, A p ∧ p.transmissionSequenceNumber = tsnAt base q)
  | _, [], _, _, _, _ => by simp
  | o, p :: P, ⟨hp, hP⟩, hw, q, hq => by
      have hw' : o + 1 + P.length < 2 ^ 31 := by simp at hw; omega
      have ih := findChunk_filter hP hw' hq
      -- the chunks after the head are above it
      have habove : ∀ p' ∈ P, ∃ k, o < k ∧ k < 2 ^ 31 ∧
          p'.transmissionSequenceNumber = tsnAt base k := by
        intro p' hp'
        obtain ⟨k, hlo, hhi, hk⟩ := Consecutive.exists_of_mem base hP hp'
        exact ⟨k, by omega, by omega, hk⟩
      have ho : o < 2 ^ 31 := by simp at hw; omega
      have hless : lessReceivedDataChunk (entry p).1 (tsnAt base q) = decide (o < q) := by
        rw [entry_fst, hp, lessReceivedDataChunk_tsnAt base ho hq]
      have hhead : p.transmissionSequenceNumber = tsnAt base q ↔ o = q := by
        rw [hp, tsnAt_inj base (by omega) (by omega)]
      simp only [List.mem_cons, exists_eq_or_imp]
      by_cases hA : A p
      · rw [List.filter_cons_of_pos hA, List.map_cons]
        rcases Nat.lt_or_ge o q with hlt | hge
        · rw [findChunk_cons_of_less (by rw [hless]; exact decide_eq_true hlt), ih]
          simp [hhead, Nat.ne_of_lt hlt]
        · rw [findChunk_cons_of_not_less (by rw [hless]; exact decide_eq_false (by omega)),
            entry_fst, hp, lessReceivedDataChunk_tsnAt base hq ho]
          rcases Nat.lt_or_ge q o with hgt | hle
          · -- the key is below every stored chunk
            simp only [hgt, decide_true, if_true, Option.isSome_none, Bool.false_eq_true,
              false_iff, not_or, not_exists, not_and]
            refine ⟨fun _ h => by rw [tsnAt_inj base (by omega) (by omega)] at h; omega,
              fun p' hp' _ h => ?_⟩
            obtain ⟨k, hk, hkw, hk'⟩ := habove p' hp'
            rw [hk', tsnAt_inj base (by omega) (by omega)] at h
            omega
          · have hoq : o = q := by omega
            simp [hoq, hA]
      · rw [List.filter_cons_of_neg hA, ih]
        simp [hA]

/-- Storing a chunk that was not stored yet puts its entry in its place in TSN order. -/
theorem insertChunk_filter {x : PayloadDataChunk} :
    ∀ {o : Nat} {P : List PayloadDataChunk}, Consecutive base o P → o + P.length < 2 ^ 31 →
      x ∈ P → A x = false →
        insertChunk ((P.filter A).map entry) x.transmissionSequenceNumber (.ofPayload x) =
          (P.filter fun y => A y || decide (y = x)).map entry
  | _, [], _, _, hx, _ => absurd hx List.not_mem_nil
  | o, p :: P, ⟨hp, hP⟩, hw, hx, hAx => by
      have hw' : o + 1 + P.length < 2 ^ 31 := by simp at hw; omega
      have habove : ∀ p' ∈ P, ∃ k, o < k ∧ k < 2 ^ 31 ∧
          p'.transmissionSequenceNumber = tsnAt base k := by
        intro p' hp'
        obtain ⟨k, hlo, hhi, hk⟩ := Consecutive.exists_of_mem base hP hp'
        exact ⟨k, by omega, by omega, hk⟩
      rcases List.mem_cons.mp hx with hxp | hx'
      · -- the new chunk is the head: it goes in front of every stored chunk after it
        subst hxp
        have hrest : P.filter (fun y => A y || decide (y = x)) = P.filter A := by
          apply List.filter_congr
          intro y hy
          have hne : y ≠ x := by
            rintro rfl
            obtain ⟨k, hk, hkw, hk'⟩ := habove y hy
            rw [hk', tsnAt_inj base (by omega) (by simp at hw; omega)] at hp
            omega
          simp [hne]
        rw [List.filter_cons_of_neg (by simp [hAx]), List.filter_cons_of_pos (by simp), hrest,
          List.map_cons]
        apply insertChunk_of_forall_not_less
        intro e he
        obtain ⟨y, hy, rfl⟩ := List.mem_map.mp he
        obtain ⟨k, hk, hkw, hk'⟩ := habove y (List.mem_filter.mp hy).1
        rw [entry_fst, hk', hp, lessReceivedDataChunk_tsnAt base hkw (by simp at hw; omega)]
        simp; omega
      · -- the new chunk comes later: the head stays in front of it
        obtain ⟨k, hk, hkw, hk'⟩ := habove x hx'
        have hne : p ≠ x := by
          rintro rfl
          rw [hk', tsnAt_inj base (by omega) (by simp at hw; omega)] at hp
          omega
        have ih := insertChunk_filter hP hw' hx' hAx
        by_cases hA : A p
        · rw [List.filter_cons_of_pos hA, List.filter_cons_of_pos (by simp [hA]), List.map_cons,
            List.map_cons, insertChunk_cons_of_less _ ?_, ih]
          rw [entry_fst, hp, hk', lessReceivedDataChunk_tsnAt base (by simp at hw; omega) hkw]
          simpa using hk
        · rw [List.filter_cons_of_neg hA, List.filter_cons_of_neg (by simp [hA, hne]), ih]

/-- The ack loop of `prepareSack` moves the cumulative ack to the end of the run of stored
chunks that follows it, wherever in that run it starts. -/
theorem prepareSackLoop_filter :
    ∀ {o : Nat} {P : List PayloadDataChunk}, Consecutive base (o + 1) P →
      o + P.length + 1 < 2 ^ 31 → ∀ {d : Nat}, d ≤ (P.takeWhile A).length →
        prepareSackLoop ((P.filter A).map entry) (tsnAt base (o + d)) =
          tsnAt base (o + (P.takeWhile A).length)
  | o, [], _, _, d, hd => by
      simp only [List.takeWhile_nil, List.length_nil, Nat.le_zero] at hd
      subst hd
      rfl
  | o, p :: P, ⟨hp, hP⟩, hw, d, hd => by
      have hw' : o + 1 + P.length + 1 < 2 ^ 31 := by simp at hw; omega
      have htake : (P.takeWhile A).length ≤ P.length := (List.takeWhile_sublist A).length_le
      by_cases hA : A p
      · rw [List.takeWhile_cons_of_pos hA, List.length_cons] at hd ⊢
        rw [List.filter_cons_of_pos hA, List.map_cons, entry, prepareSackLoop_cons,
          ReceivedDataChunk.transmissionSequenceNumber_ofPayload]
        -- the head is at or below the TSN after the ack
        have hle : 0 ≤ diff p.transmissionSequenceNumber (tsnAt base (o + d) + 1) := by
          rw [hp, tsnAt_add_one, diff_tsnAt base (by omega) (by omega)]
          omega
        -- and the ack moves onto it only when it follows the ack directly
        have hnext : (if p.transmissionSequenceNumber = tsnAt base (o + d) + 1 then
            tsnAt base (o + d) + 1 else tsnAt base (o + d)) = tsnAt base (o + 1 + (d - 1)) := by
          rw [hp, tsnAt_add_one]
          by_cases hd0 : d = 0
          · subst hd0
            simp
          · rw [if_neg (by rw [tsnAt_inj base (by omega) (by omega)]; omega)]
            congr 1
            omega
        rw [if_pos hle, hnext, prepareSackLoop_filter hP hw' (by omega)]
        congr 1
        omega
      · rw [List.takeWhile_cons_of_neg hA, List.length_nil] at hd ⊢
        rw [Nat.le_zero.mp hd, List.filter_cons_of_neg hA]
        apply prepareSackLoop_of_forall_above
        intro e he
        obtain ⟨y, hy, rfl⟩ := List.mem_map.mp he
        obtain ⟨k, hk, hkw, hk'⟩ := Consecutive.exists_of_mem base hP (List.mem_filter.mp hy).1
        rw [transmissionSequenceNumber_entry_snd, hk', Nat.add_zero, tsnAt_add_one,
          diff_tsnAt base (by omega) (by omega)]
        omega

end Map

/-! ## Reports

A message all of whose chunks are stored and at or below the cumulative ack heads the map once
the messages before it are reported; the scan then finds it from its first chunk to its last,
and `reportFragment` passes exactly its fragments on and erases them (`gatherReceivedFragments_dataChunks`).
The gather loop repeats this for every complete message and stops at the first incomplete one,
whose end is above the ack (`gatherLoop_sentChunks`). -/

section Gather

variable {base : BitVec 32} (m : Message)

section Flags

variable (first last : Bool) (tsn : BitVec 32) (streamId streamSequenceNumber : BitVec 16)
  (payloadProtocol : BitVec 32) (payload : List (BitVec 8))

@[simp] theorem isBegin_fragmentFlags :
    PayloadDataChunk.isBegin
      ⟨fragmentFlags first last, tsn, streamId, streamSequenceNumber, payloadProtocol, payload⟩ =
      first := by
  show (fragmentFlags first last &&& 0x02 == 0x02) = first
  cases first <;> cases last <;> decide

@[simp] theorem isEnd_fragmentFlags :
    PayloadDataChunk.isEnd
      ⟨fragmentFlags first last, tsn, streamId, streamSequenceNumber, payloadProtocol, payload⟩ =
      last := by
  show (fragmentFlags first last &&& 0x01 == 0x01) = last
  cases first <;> cases last <;> decide

end Flags

/-- Only the last chunk of a message's fragments ends it. -/
theorem tsn_of_isEnd_of_mem_fragmentChunks :
    ∀ {first : Bool} {o : Nat} {payloads : List (List (BitVec 8))} {x : PayloadDataChunk},
      x ∈ m.fragmentChunks base first o payloads → x.isEnd = true →
        x.transmissionSequenceNumber = tsnAt base (o + payloads.length - 1)
  | _, _, [], _, hx, _ => absurd hx List.not_mem_nil
  | first, o, payload :: rest, x, hx, hend => by
      rw [Message.fragmentChunks] at hx
      rcases List.mem_cons.mp hx with hx | hx
      · subst hx
        rw [isEnd_fragmentFlags, List.isEmpty_iff] at hend
        subst hend
        simp
      · rw [tsn_of_isEnd_of_mem_fragmentChunks hx hend, List.length_cons]
        congr 1
        omega

/-- The scan over the chunks of a message after its first, all at or below the ack, keeps the
head and counts their payloads. -/
theorem gatherScan_fragmentChunks {a : Nat} (ha : a < 2 ^ 31) :
    ∀ {o : Nat} {payloads : List (List (BitVec 8))}, payloads ≠ [] →
      o + payloads.length ≤ a + 1 →
      ∀ (rest : List (BitVec 32 × ReceivedDataChunk)) (index chunkHead size : Nat),
        gatherScan (tsnAt base a) ((m.fragmentChunks base false o payloads).map entry ++ rest)
          index (some chunkHead) size = some (chunkHead, size + payloads.flatten.length)
  | _, [], hne, _, _, _, _, _ => absurd rfl hne
  | o, payload :: ps, _, hlen, rest, index, chunkHead, size => by
      simp only [List.length_cons] at hlen
      have hle : 0 ≤ diff (tsnAt base o) (tsnAt base a) := by
        rw [diff_tsnAt base (by omega) ha]; omega
      rw [Message.fragmentChunks, List.map_cons, List.cons_append, entry, gatherScan_cons,
        ReceivedDataChunk.transmissionSequenceNumber_ofPayload, if_pos hle]
      simp only [ReceivedDataChunk.fragmentBegin_ofPayload, ReceivedDataChunk.fragmentEnd_ofPayload,
        isBegin_fragmentFlags, isEnd_fragmentFlags, Bool.false_eq_true, if_false,
        ReceivedDataChunk.size, ReceivedDataChunk.data_ofPayload]
      cases ps with
      | nil => simp
      | cons p ps =>
          rw [List.isEmpty_cons, if_neg Bool.false_ne_true,
            gatherScan_fragmentChunks ha (List.cons_ne_nil p ps)
              (by simp only [List.length_cons] at hlen ⊢; omega)]
          simp [Nat.add_assoc]

/-- A message all of whose chunks are at or below the ack is found by the scan from its first
chunk, with its whole size. -/
theorem gatherScan_dataChunks {a o : Nat} (ha : a < 2 ^ 31)
    (hlen : o + m.fragments.length ≤ a + 1) (rest : List (BitVec 32 × ReceivedDataChunk))
    (index : Nat) (itBegin : Option Nat) (size : Nat) :
    gatherScan (tsnAt base a) ((m.dataChunks base o).map entry ++ rest) index itBegin size =
      some (index, m.fragments.flatten.length) := by
  obtain ⟨payload, ps, hfr⟩ := List.exists_cons_of_ne_nil m.fragments_ne_nil
  rw [hfr, List.length_cons] at hlen
  have hle : 0 ≤ diff (tsnAt base o) (tsnAt base a) := by
    rw [diff_tsnAt base (by omega) ha]; omega
  rw [Message.dataChunks, hfr, Message.fragmentChunks, List.map_cons, List.cons_append, entry,
    gatherScan_cons, ReceivedDataChunk.transmissionSequenceNumber_ofPayload, if_pos hle]
  simp only [ReceivedDataChunk.fragmentBegin_ofPayload, ReceivedDataChunk.fragmentEnd_ofPayload,
    isBegin_fragmentFlags, isEnd_fragmentFlags, if_true, ReceivedDataChunk.size,
    ReceivedDataChunk.data_ofPayload]
  cases ps with
  | nil => simp
  | cons p ps =>
      rw [List.isEmpty_cons, if_neg Bool.false_ne_true,
        gatherScan_fragmentChunks m ha (List.cons_ne_nil p ps)
          (by simp only [List.length_cons] at hlen ⊢; omega)]
      simp

/-- The loop of `reportFragment` over a message's chunks appends all their payloads, when
they fit, and stops after the last. -/
theorem reportLoop_fragmentChunks :
    ∀ {first : Bool} {o : Nat} {payloads : List (List (BitVec 8))}, payloads ≠ [] →
      ∀ (rest : List (BitVec 32 × ReceivedDataChunk)) (buffer : List (BitVec 8)) (capacity : Nat),
        buffer.length + payloads.flatten.length ≤ capacity →
        reportLoop capacity ((m.fragmentChunks base first o payloads).map entry ++ rest) buffer =
          (buffer ++ payloads.flatten, some rest)
  | _, _, [], hne, _, _, _, _ => absurd rfl hne
  | first, o, payload :: ps, _, rest, buffer, capacity, hfit => by
      simp only [List.flatten_cons, List.length_append] at hfit
      rw [Message.fragmentChunks, List.map_cons, List.cons_append, entry, reportLoop_cons,
        ReceivedDataChunk.fragmentEnd_ofPayload, isEnd_fragmentFlags,
        ReceivedDataChunk.data_ofPayload]
      dsimp only
      have hfirst : buffer.length + payload.length ≤ capacity := by omega
      rw [arrayAppend, if_pos hfirst]
      cases ps with
      | nil => simp [Message.fragmentChunks]
      | cons p ps =>
          rw [List.isEmpty_cons, if_neg Bool.false_ne_true,
            reportLoop_fragmentChunks (List.cons_ne_nil p ps) rest _ capacity
              (by simp only [List.length_append]; omega)]
          simp

/-- The report of a message all of whose chunks head the map, at or below the ack: the
listener gets the message and its chunks are erased. -/
theorem gatherReceivedFragments_dataChunks {a o : Nat} (ha : a < 2 ^ 31)
    (hlen : o + m.fragments.length ≤ a + 1) (rest : List (BitVec 32 × ReceivedDataChunk)) :
    gatherReceivedFragments (tsnAt base a) ((m.dataChunks base o).map entry ++ rest) =
      some (rest, m.report) := by
  rw [gatherReceivedFragments, gatherScan_dataChunks m ha hlen rest 0 none 0]
  dsimp only
  obtain ⟨payload, ps, hfr⟩ := List.exists_cons_of_ne_nil m.fragments_ne_nil
  have hloop : reportLoop m.fragments.flatten.length ((m.dataChunks base o).map entry ++ rest) [] =
      ([] ++ m.fragments.flatten, some rest) :=
    reportLoop_fragmentChunks m m.fragments_ne_nil rest [] _ (by simp)
  rw [reportFragment, List.drop_zero, hloop]
  rw [Message.dataChunks, hfr, Message.fragmentChunks, List.map_cons, List.cons_append]
  simp [Message.report, entry, ReceivedDataChunk.ofPayload, hfr]

/-- The chunks within the run of stored chunks from the start are stored. -/
private theorem forall_of_length_le_takeWhile {α : Type} (p : α → Bool) :
    ∀ {X : List α} (Y : List α), X.length ≤ ((X ++ Y).takeWhile p).length → ∀ x ∈ X, p x = true
  | [], _, _, _, hx => absurd hx List.not_mem_nil
  | x :: X, Y, h, y, hy => by
      rw [List.cons_append, List.takeWhile_cons] at h
      split at h
      · next hx =>
        rcases List.mem_cons.mp hy with hyx | hy
        · rw [hyx]; exact hx
        · exact forall_of_length_le_takeWhile p Y (by simpa using h) y hy
      · simp at h

/-- The gather loop reports, in order, the messages that lie wholly within the run of stored
chunks ending at the ack, and leaves the stored chunks of the others. -/
theorem gatherLoop_sentChunks (A : PayloadDataChunk → Bool) :
    ∀ (ms : List Message) (o a : Nat), o + sentCount ms + 1 < 2 ^ 31 →
      a = o + ((sentChunks base (o + 1) ms).takeWhile A).length →
      gatherLoop (tsnAt base a) (((sentChunks base (o + 1) ms).filter A).map entry) =
        ((((sentChunks base (o + 1 + sentCount (ms.take (completedCount ms (a - o))))
            (ms.drop (completedCount ms (a - o)))).filter A).map entry),
          (ms.take (completedCount ms (a - o))).map Message.report)
  | [], _, _, _, _ => gatherLoop_of_none rfl
  | m :: ms, o, a, hw, ha => by
      have hcount : sentCount (m :: ms) = m.fragments.length + sentCount ms := by simp [sentCount]
      have hY : sentChunks base (o + 1 + m.fragments.length) ms =
          sentChunks base (o + m.fragments.length + 1) ms := by rw [Nat.add_right_comm]
      have htake := (List.takeWhile_sublist A (l := sentChunks base (o + 1) (m :: ms))).length_le
      rw [length_sentChunks, hcount] at htake
      have ha' : a < 2 ^ 31 := by rw [hcount] at hw; omega
      rw [sentChunks, hY] at ha ⊢
      by_cases hlen : m.fragments.length ≤ a - o
      · -- the message is complete: it is reported first, then the loop goes on after it
        have hXlen : (m.dataChunks base (o + 1)).length = m.fragments.length := by
          simp [Message.dataChunks]
        have hX : ∀ x ∈ m.dataChunks base (o + 1), A x = true :=
          forall_of_length_le_takeWhile A (sentChunks base (o + m.fragments.length + 1) ms)
            (by omega)
        rw [List.takeWhile_append_of_pos hX] at ha
        simp only [List.length_append, Message.dataChunks, length_fragmentChunks] at ha
        rw [List.filter_append, List.filter_eq_self.mpr hX, List.map_append,
          gatherLoop_of_some (gatherReceivedFragments_dataChunks m ha' (by omega) _),
          gatherLoop_sentChunks A ms (o + m.fragments.length) a (by omega) (by omega)]
        have hd : a - (o + m.fragments.length) = a - o - m.fragments.length := by omega
        have hoff : o + m.fragments.length + 1 +
            sentCount (ms.take (completedCount ms (a - o - m.fragments.length))) =
            o + 1 + sentCount (m :: ms.take (completedCount ms (a - o - m.fragments.length))) := by
          simp [sentCount]; omega
        simp only [completedCount, if_pos hlen, List.take_succ_cons, List.drop_succ_cons,
          List.map_cons, hd, hoff]
      · -- the message is not complete: its end is above the ack and nothing is reported
        rw [gatherLoop_of_none]
        · simp only [completedCount, if_neg hlen, List.take_zero, List.drop_zero, List.map_nil]
          rw [sentCount, List.map_nil, List.sum_nil, Nat.add_zero, sentChunks, hY]
        · unfold gatherReceivedFragments
          rw [gatherScan_eq_none]
          intro e he hle
          obtain ⟨x, hx, rfl⟩ := List.mem_map.mp he
          have hx := (List.mem_filter.mp hx).1
          rw [transmissionSequenceNumber_entry_snd] at hle
          show x.isEnd = false
          -- every chunk that ends a message here is above the ack
          cases hend : x.isEnd with
          | false => rfl
          | true =>
            have habove : ∃ k, a < k ∧ k < 2 ^ 31 ∧ x.transmissionSequenceNumber = tsnAt base k := by
              rcases List.mem_append.mp hx with hx | hx
              · refine ⟨o + 1 + m.fragments.length - 1, by omega, by omega, ?_⟩
                exact tsn_of_isEnd_of_mem_fragmentChunks m hx hend
              · obtain ⟨k, hlo, hhi, hk⟩ :=
                  Consecutive.exists_of_mem base (consecutive_sentChunks base _ ms) hx
                rw [length_sentChunks] at hhi
                exact ⟨k, by omega, by omega, hk⟩
            obtain ⟨k, hk, hkw, hk'⟩ := habove
            rw [hk', diff_tsnAt base hkw ha'] at hle
            omega

end Gather

/-! ## Complete messages -/

section Completed

theorem completedCount_le_length : ∀ (ms : List Message) (c : Nat), completedCount ms c ≤ ms.length
  | [], _ => Nat.le_refl 0
  | m :: ms, c => by
      rw [completedCount]
      split
      · simpa using completedCount_le_length ms (c - m.fragments.length)
      · exact Nat.zero_le _

/-- The complete messages lie within the chunks counted. -/
theorem sentCount_take_completedCount_le :
    ∀ (ms : List Message) (c : Nat), sentCount (ms.take (completedCount ms c)) ≤ c
  | [], _ => by simp [sentCount]
  | m :: ms, c => by
      rw [completedCount]
      split
      · next hlen =>
        have ih := sentCount_take_completedCount_le ms (c - m.fragments.length)
        simp only [List.take_succ_cons, sentCount, List.map_cons, List.sum_cons] at ih ⊢
        omega
      · simp [sentCount]

/-- Messages whose chunks are all counted are all complete, and the count goes on after them. -/
theorem completedCount_append_of_le :
    ∀ (ms₁ ms₂ : List Message) {c : Nat}, sentCount ms₁ ≤ c →
      completedCount (ms₁ ++ ms₂) c = ms₁.length + completedCount ms₂ (c - sentCount ms₁)
  | [], _, _, _ => by simp [sentCount]
  | m :: ms₁, ms₂, c, h => by
      have hcount : sentCount (m :: ms₁) = m.fragments.length + sentCount ms₁ := by
        simp [sentCount]
      rw [hcount] at h ⊢
      rw [List.cons_append, completedCount, if_pos (by omega),
        completedCount_append_of_le ms₁ ms₂ (by omega), List.length_cons, Nat.sub_sub]
      omega

theorem completedCount_sentCount (ms : List Message) : completedCount ms (sentCount ms) = ms.length := by
  simpa [completedCount] using completedCount_append_of_le ms [] (Nat.le_refl _)

end Completed

/-! ## The stored chunks from the start -/

section Prefix

variable (base : BitVec 32)

/-- A chunk at an offset within the run of stored chunks from the start of a consecutive list
is stored. -/
theorem Consecutive.apply_of_lt_takeWhile (A : PayloadDataChunk → Bool) :
    ∀ {o : Nat} {P : List PayloadDataChunk}, Consecutive base o P → o + P.length ≤ 2 ^ 32 →
      ∀ {x : PayloadDataChunk} {k : Nat}, x ∈ P → x.transmissionSequenceNumber = tsnAt base k →
        k < o + (P.takeWhile A).length → A x = true
  | _, [], _, _, _, _, hx, _, _ => absurd hx List.not_mem_nil
  | o, p :: P, ⟨hp, hP⟩, hw, x, k, hx, hk, hlt => by
      have hw' : o + 1 + P.length ≤ 2 ^ 32 := by simp at hw; omega
      by_cases hA : A p
      · rw [List.takeWhile_cons_of_pos hA, List.length_cons] at hlt
        rcases List.mem_cons.mp hx with hxp | hx
        · rw [hxp]; exact hA
        · exact Consecutive.apply_of_lt_takeWhile A hP hw' hx hk (by omega)
      · -- the run is empty, and every chunk of the list is at its start or after it
        rw [List.takeWhile_cons_of_neg hA, List.length_nil] at hlt
        obtain ⟨k', hlo, hhi, hk'⟩ :=
          Consecutive.exists_of_mem base (show Consecutive base o (p :: P) from ⟨hp, hP⟩) hx
        rw [hk, tsnAt_inj base (by omega) (by omega)] at hk'
        omega

/-- The stored chunks at the first `d` offsets of a consecutive list make a run from its start. -/
theorem Consecutive.le_length_takeWhile (A : PayloadDataChunk → Bool) :
    ∀ {o : Nat} {P : List PayloadDataChunk} {d : Nat}, Consecutive base o P → d ≤ P.length →
      (∀ x ∈ P, ∀ k, x.transmissionSequenceNumber = tsnAt base k → k < o + d → A x = true) →
        d ≤ (P.takeWhile A).length
  | _, _, 0, _, _, _ => Nat.zero_le _
  | _, [], _ + 1, _, hd, _ => absurd hd (by simp)
  | o, p :: P, d + 1, ⟨hp, hP⟩, hd, hA => by
      have hAp : A p = true := hA p List.mem_cons_self o hp (by omega)
      rw [List.takeWhile_cons_of_pos hAp, List.length_cons]
      have ih := Consecutive.le_length_takeWhile A (d := d) hP (by simp at hd; omega)
        (fun x hx k hk hlt => hA x (List.mem_cons_of_mem p hx) k hk (by omega))
      omega

/-- Every chunk the peer sends carries one of its messages' fragments. -/
theorem exists_payload_mem_of_mem_sentChunks :
    ∀ {o : Nat} {msgs : List Message} {x : PayloadDataChunk}, x ∈ sentChunks base o msgs →
      ∃ m ∈ msgs, x.payload ∈ m.fragments
  | _, [], _, hx => absurd hx List.not_mem_nil
  | o, m :: ms, x, hx => by
      rcases List.mem_append.mp hx with hx | hx
      · -- a chunk of `m` carries one of its fragments
        have hfrag : ∀ {first : Bool} {o : Nat} {payloads : List (List (BitVec 8))},
            x ∈ m.fragmentChunks base first o payloads → x.payload ∈ payloads := by
          intro first o payloads hx
          induction payloads generalizing first o with
          | nil => exact absurd hx List.not_mem_nil
          | cons payload rest ih =>
              rw [Message.fragmentChunks] at hx
              rcases List.mem_cons.mp hx with hx | hx
              · rw [hx]; exact List.mem_cons_self
              · exact List.mem_cons_of_mem _ (ih hx)
        exact ⟨m, List.mem_cons_self, hfrag hx⟩
      · obtain ⟨m', hm', hpay⟩ := exists_payload_mem_of_mem_sentChunks hx
        exact ⟨m', List.mem_cons_of_mem m hm', hpay⟩

/-- Every chunk the peer sends carries user data. -/
theorem payloadSize_pos_of_mem_sentChunks {o : Nat} {msgs : List Message} {x : PayloadDataChunk}
    (hx : x ∈ sentChunks base o msgs) : 0 < x.payloadSize := by
  obtain ⟨m, -, hpay⟩ := exists_payload_mem_of_mem_sentChunks base hx
  exact List.length_pos_iff.mpr (m.payload_ne_nil _ hpay)

end Prefix

/-! ## The chunks of a packet -/

/-- The chunks stored once a packet has arrived after those of `A`: it adds the ones it brings
with room. -/
def arrive (A : PayloadDataChunk → Bool) (packet : List Chunk) (chunk : PayloadDataChunk) : Bool :=
  A chunk || decide (Chunk.data chunk true ∈ packet)

/-- The chunks of the run split where the reported messages end: `D`, the chunks of the
reported messages, and `P`, those of the others, consecutive from the first TSN above `base`
and within half the ring, with the ack at offset `c` between the end of `D` and the end of
`P`. -/
structure Pending (base : BitVec 32) (D P : List PayloadDataChunk) (c : Nat) : Prop where
  consecutive : Consecutive base 1 (D ++ P)
  window : D.length + P.length + 1 < 2 ^ 31
  reported_le : D.length ≤ c
  le_sent : c ≤ D.length + P.length

/-- Every chunk of `S` at an offset up to `c` is stored. -/
def StoredThrough (base : BitVec 32) (S : List PayloadDataChunk) (A : PayloadDataChunk → Bool)
    (c : Nat) : Prop :=
  ∀ x ∈ S, ∀ k, x.transmissionSequenceNumber = tsnAt base k → k ≤ c → A x = true

section Receive

variable {base : BitVec 32} {D P : List PayloadDataChunk} {c : Nat}

theorem Pending.consecutive_pending (h : Pending base D P c) : Consecutive base (1 + D.length) P :=
  ((consecutive_append base).mp h.consecutive).2

/-- A chunk of the run sits at an offset from `1` to the end of the run. -/
theorem Pending.exists_of_mem (h : Pending base D P c) {x : PayloadDataChunk} (hx : x ∈ D ++ P) :
    ∃ k, 1 ≤ k ∧ k ≤ D.length + P.length ∧ x.transmissionSequenceNumber = tsnAt base k := by
  obtain ⟨k, hlo, hhi, hk⟩ := Consecutive.exists_of_mem base h.consecutive hx
  rw [List.length_append] at hhi
  exact ⟨k, hlo, by omega, hk⟩

/-- A chunk of the reported messages is at or below the end of `D`. -/
theorem Pending.le_of_mem_reported (h : Pending base D P c) {x : PayloadDataChunk} (hx : x ∈ D)
    {k : Nat} (hk : x.transmissionSequenceNumber = tsnAt base k) (hkw : k < 2 ^ 32) :
    k ≤ D.length := by
  obtain ⟨k', hlo, hhi, hk'⟩ :=
    Consecutive.exists_of_mem base ((consecutive_append base).mp h.consecutive).1 hx
  rw [hk, tsnAt_inj base hkw (by have := h.window; omega)] at hk'
  omega

/-- One DATA chunk of the run: the map stays the stored chunks of `P`, with the chunk added when
it is one of `P`, was not stored and finds room; and when nothing new is stored, a chunk of `P`
that came with room was stored already. -/
theorem receiveDataChunk_filter (h : Pending base D P c) (A : PayloadDataChunk → Bool)
    (hA : StoredThrough base (D ++ P) A c) {x : PayloadDataChunk} (hx : x ∈ D ++ P)
    (hpay : 0 < x.payloadSize) (room : Bool) :
    (receiveDataChunk (tsnAt base c) ((P.filter A).map entry) x room).1 =
        (P.filter fun y => A y || (decide (y = x) && room)).map entry ∧
      ((receiveDataChunk (tsnAt base c) ((P.filter A).map entry) x room).2 = false →
        x ∈ P → room = true → A x = true) := by
  have hw := h.window
  obtain ⟨k, hk1, hkN, hk⟩ := h.exists_of_mem hx
  have hfind := findChunk_filter A h.consecutive_pending (by omega) (q := k) (by omega)
  rw [← hk] at hfind
  -- a chunk that is stored already changes nothing
  have hsame : A x = true → (P.filter fun y => A y || (decide (y = x) && room)) = P.filter A := by
    intro hAx
    apply List.filter_congr
    intro y _
    by_cases hyx : y = x
    · rw [hyx, hAx]; rfl
    · simp [hyx]
  by_cases hfound : (findChunk ((P.filter A).map entry) x.transmissionSequenceNumber).isSome
  · -- a duplicate: the stored chunk with its TSN is this one
    obtain ⟨p, hp, hAp, hpx⟩ := hfind.mp hfound
    have hpx' : p = x :=
      Consecutive.eq_of_tsn_eq base h.consecutive (by simp; omega) (List.mem_append_right D hp)
        hx hpx
    have hAx : A x = true := hpx' ▸ hAp
    simp only [receiveDataChunk, if_pos hpay, if_pos hfound]
    exact ⟨(congrArg (List.map entry) (hsame hAx)).symm, fun _ _ _ => hAx⟩
  · by_cases hle : 0 ≤ diff x.transmissionSequenceNumber (tsnAt base c)
    · -- at or below the ack: stored already
      have hkc : k ≤ c := by
        rw [hk, diff_tsnAt base (by omega) (by have := h.le_sent; omega)] at hle
        omega
      have hAx : A x = true := hA x hx k hk hkc
      simp only [receiveDataChunk, if_pos hpay, hfound, Bool.false_eq_true, if_false, if_pos hle]
      exact ⟨(congrArg (List.map entry) (hsame hAx)).symm, fun _ _ _ => hAx⟩
    · -- above the ack: a chunk of `P` not stored yet
      have hck : c < k := by
        rw [hk, diff_tsnAt base (by omega) (by have := h.le_sent; omega)] at hle
        omega
      have hxP : x ∈ P := by
        rcases List.mem_append.mp hx with hxD | hxP
        · have := h.le_of_mem_reported hxD hk (by omega)
          have := h.reported_le
          omega
        · exact hxP
      have hAx : A x = false := by
        cases hAx : A x with
        | false => rfl
        | true => exact absurd (hfind.mpr ⟨x, hxP, hAx, rfl⟩) hfound
      cases room with
      | true =>
        simp only [receiveDataChunk, if_pos hpay, hfound, Bool.false_eq_true, if_false,
          if_neg hle, if_true]
        refine ⟨?_, fun hnew => absurd hnew (by decide)⟩
        rw [insertChunk_filter A h.consecutive_pending (by omega) hxP hAx]
        simp
      | false =>
        simp only [receiveDataChunk, if_pos hpay, hfound, Bool.false_eq_true, if_false,
          if_neg hle]
        exact ⟨by simp, fun _ _ hroom => hroom.elim⟩

/-- The chunks of a packet of the run: the map becomes the chunks of `P` stored after it, and
when nothing new is stored every chunk of `P` it brought with room was stored already. -/
theorem receiveChunks_filter (h : Pending base D P c) :
    ∀ (packet : List Chunk) (A : PayloadDataChunk → Bool) (newDataReceived : Bool),
      StoredThrough base (D ++ P) A c →
      (∀ x room, Chunk.data x room ∈ packet → x ∈ D ++ P ∧ 0 < x.payloadSize) →
      (receiveChunks (tsnAt base c) ((P.filter A).map entry) newDataReceived packet).1 =
          (P.filter (arrive A packet)).map entry ∧
        ((receiveChunks (tsnAt base c) ((P.filter A).map entry) newDataReceived packet).2 = false →
          newDataReceived = false ∧ ∀ y ∈ P, Chunk.data y true ∈ packet → A y = true)
  | [], A, newDataReceived, _, _ => by
      have harrive : arrive A [] = A := by funext y; simp [arrive]
      simp [receiveChunks, harrive]
  | .other :: packet, A, newDataReceived, hA, hsent => by
      have harrive : arrive A (.other :: packet) = arrive A packet := by
        funext y; simp [arrive]
      obtain ⟨h1, h2⟩ := receiveChunks_filter h packet A newDataReceived hA
        (fun x room hx => hsent x room (List.mem_cons_of_mem _ hx))
      refine ⟨by rw [receiveChunks, h1, harrive], fun hnew => ?_⟩
      obtain ⟨hnd, hold⟩ := h2 hnew
      exact ⟨hnd, fun y hy hin => hold y hy (by simpa using hin)⟩
  | .data x room :: packet, A, newDataReceived, hA, hsent => by
      obtain ⟨hx, hpay⟩ := hsent x room List.mem_cons_self
      obtain ⟨hone, hnew⟩ := receiveDataChunk_filter h A hA hx hpay room
      -- the stored chunks after this one
      have hA' : StoredThrough base (D ++ P) (fun y => A y || (decide (y = x) && room)) c :=
        fun y hy k hk hkc => by simp [hA y hy k hk hkc]
      have harrive : arrive (fun y => A y || (decide (y = x) && room)) packet =
          arrive A (.data x room :: packet) := by
        funext y
        by_cases hyx : y = x
        · subst hyx; cases room <;> simp [arrive]
        · simp [arrive, hyx]
      obtain ⟨h1, h2⟩ := receiveChunks_filter h packet _ _ hA'
        (fun y r hy => hsent y r (List.mem_cons_of_mem _ hy))
      rw [receiveChunks, hone]
      refine ⟨by rw [h1, harrive], fun hfalse => ?_⟩
      obtain ⟨hnd, hold⟩ := h2 hfalse
      rw [Bool.or_eq_false_iff] at hnd
      refine ⟨hnd.1, fun y hy hin => ?_⟩
      rcases List.mem_cons.mp hin with hyx | hin
      · obtain ⟨rfl, rfl⟩ := Chunk.data.inj hyx
        exact hnew hnd.2 hy rfl
      · have := hold y hy hin
        by_cases hyx : y = x
        · subst hyx
          cases room with
          | true => exact hnew hnd.2 hy rfl
          | false => simpa using this
        · simpa [hyx] using this

end Receive

/-- Two predicates that agree on a list keep the same run from its start. -/
private theorem takeWhile_congr {α : Type} {p q : α → Bool} :
    ∀ {l : List α}, (∀ x ∈ l, p x = q x) → l.takeWhile p = l.takeWhile q
  | [], _ => rfl
  | x :: l, h => by
      have hx := h x List.mem_cons_self
      have ih := takeWhile_congr (l := l) fun y hy => h y (List.mem_cons_of_mem x hy)
      rw [List.takeWhile_cons, List.takeWhile_cons, hx, ih]

/-! ## The invariant of a run -/

section Run

variable (base : BitVec 32) (msgs : List Message)

/-- How far the stored chunks run from the first TSN without a gap. -/
def storedPrefix (A : PayloadDataChunk → Bool) : Nat :=
  ((sentChunks base 1 msgs).takeWhile A).length

/-- How many messages lie wholly within the run of stored chunks from the first TSN. -/
def reportedCount (A : PayloadDataChunk → Bool) : Nat :=
  completedCount msgs (storedPrefix base msgs A)

/-- The receive side once the chunks of `A` are stored and the reports `reports` are made: the
cumulative ack is at the end of the run of stored chunks from the first TSN, the map holds the
stored chunks of the messages not reported, in TSN order, and the reports are the messages
within the run, in order. -/
structure Reassembled (A : PayloadDataChunk → Bool) (s : InboundState)
    (reports : List FragmentReceived) : Prop where
  cumulativeAck : s.cumulativeAck = tsnAt base (storedPrefix base msgs A)
  inbound : s.inboundDataChunks =
    ((sentChunks base (sentCount (msgs.take (reportedCount base msgs A)) + 1)
      (msgs.drop (reportedCount base msgs A))).filter A).map entry
  reports : reports = (msgs.take (reportedCount base msgs A)).map Message.report

variable {base msgs}

/-- The run's chunks split after the first `j` messages. -/
theorem sentChunks_split (j : Nat) :
    sentChunks base 1 msgs =
      sentChunks base 1 (msgs.take j) ++ sentChunks base (sentCount (msgs.take j) + 1) (msgs.drop j) := by
  conv_lhs => rw [← List.take_append_drop j msgs]
  rw [sentChunks_append, Nat.add_comm 1]

/-- The chunks of the reported messages and those of the others, with the ack at the end of the
stored run. -/
theorem pending_reportedCount (hwin : sentCount msgs + 1 < 2 ^ 31) (A : PayloadDataChunk → Bool) :
    Pending base (sentChunks base 1 (msgs.take (reportedCount base msgs A)))
      (sentChunks base (sentCount (msgs.take (reportedCount base msgs A)) + 1)
        (msgs.drop (reportedCount base msgs A)))
      (storedPrefix base msgs A) := by
  have hsplit := @sentChunks_split base msgs (reportedCount base msgs A)
  have hlen : (sentChunks base 1 (msgs.take (reportedCount base msgs A))).length +
      (sentChunks base (sentCount (msgs.take (reportedCount base msgs A)) + 1)
        (msgs.drop (reportedCount base msgs A))).length = sentCount msgs := by
    rw [← List.length_append, ← hsplit, length_sentChunks]
  have htake := (List.takeWhile_sublist A (l := sentChunks base 1 msgs)).length_le
  rw [length_sentChunks] at htake
  refine ⟨hsplit ▸ consecutive_sentChunks base 1 msgs, by omega, ?_, by unfold storedPrefix; omega⟩
  rw [length_sentChunks]
  exact sentCount_take_completedCount_le msgs _

/-- Every chunk within the stored run is stored. -/
theorem storedThrough_storedPrefix (hwin : sentCount msgs + 1 < 2 ^ 31)
    (A : PayloadDataChunk → Bool) :
    StoredThrough base (sentChunks base 1 msgs) A (storedPrefix base msgs A) :=
  fun _ hx _ hk hkc =>
    Consecutive.apply_of_lt_takeWhile base A (consecutive_sentChunks base 1 msgs)
      (by rw [length_sentChunks]; omega) hx hk (by unfold storedPrefix at hkc; omega)

/-- Stored chunks that agree on the run give the same invariant. -/
theorem Reassembled.of_agree {A A' : PayloadDataChunk → Bool} {s : InboundState}
    {reports : List FragmentReceived} (h : Reassembled base msgs A s reports)
    (hA : ∀ x ∈ sentChunks base 1 msgs, A' x = A x) : Reassembled base msgs A' s reports := by
  have hrunEnd : storedPrefix base msgs A' = storedPrefix base msgs A := by
    unfold storedPrefix; rw [takeWhile_congr hA]
  have hcount : reportedCount base msgs A' = reportedCount base msgs A := by
    unfold reportedCount; rw [hrunEnd]
  -- the pending chunks are chunks of the run
  have hfilter : ∀ j, (sentChunks base (sentCount (msgs.take j) + 1) (msgs.drop j)).filter A' =
      (sentChunks base (sentCount (msgs.take j) + 1) (msgs.drop j)).filter A := by
    intro j
    apply List.filter_congr
    intro x hx
    exact hA x (by rw [sentChunks_split j]; exact List.mem_append_right _ hx)
  exact ⟨by rw [hrunEnd, h.cumulativeAck], by rw [hcount, hfilter, h.inbound],
    by rw [hcount, h.reports]⟩

/-- A packet of the run: the map, the ack and the reports follow the chunks it stores. -/
theorem Reassembled.onDataReceived_step (hwin : sentCount msgs + 1 < 2 ^ 31)
    {A : PayloadDataChunk → Bool} {s : InboundState} {reports : List FragmentReceived}
    (h : Reassembled base msgs A s reports) (packet : List Chunk)
    (hsent : ∀ x room, Chunk.data x room ∈ packet → x ∈ sentChunks base 1 msgs) :
    Reassembled base msgs (arrive A packet) (onDataReceived s packet).1
      (reports ++ (onDataReceived s packet).2) := by
  obtain ⟨inbound, ack⟩ := s
  obtain ⟨hack, hin, hrep⟩ := h
  dsimp only at hack hin
  subst hack hin hrep
  have hpend := @pending_reportedCount base msgs hwin A
  have hstored := @storedThrough_storedPrefix base msgs hwin A
  rw [@sentChunks_split base msgs (reportedCount base msgs A)] at hstored
  -- the invariant before the packet, over the split of the run at the reported messages
  generalize hj : reportedCount base msgs A = j at hpend hstored ⊢
  generalize hc : storedPrefix base msgs A = c at hpend hstored ⊢
  have hsplit := @sentChunks_split base msgs j
  have h0 : Reassembled base msgs A
      ⟨((sentChunks base (sentCount (msgs.take j) + 1) (msgs.drop j)).filter A).map entry,
        tsnAt base c⟩ ((msgs.take j).map Message.report) := ⟨by rw [hc], by rw [hj], by rw [hj]⟩
  generalize hD : sentChunks base 1 (msgs.take j) = D at hpend hstored hsplit
  generalize hP : sentChunks base (sentCount (msgs.take j) + 1) (msgs.drop j) = P at *
  obtain ⟨h1, h2⟩ := receiveChunks_filter hpend packet A false hstored fun x room hx =>
    ⟨hsplit ▸ hsent x room hx, payloadSize_pos_of_mem_sentChunks base (hsent x room hx)⟩
  simp only [onDataReceived]
  generalize receiveChunks (tsnAt base c) ((P.filter A).map entry) false packet = r at h1 h2 ⊢
  obtain ⟨chunks, newData⟩ := r
  dsimp only at h1 h2 ⊢
  subst h1
  -- the chunks of the reported messages were stored
  have hDA : ∀ x ∈ D, A x = true := by
    intro x hx
    obtain ⟨k, -, hkN, hk⟩ := hpend.exists_of_mem (List.mem_append_left P hx)
    exact hstored x (List.mem_append_left P hx) k hk
      (le_trans (hpend.le_of_mem_reported hx hk (by have := hpend.window; omega)) hpend.reported_le)
  have hDlen : D.length = sentCount (msgs.take j) := by rw [← hD, length_sentChunks]
  have hPlen : P.length = sentCount (msgs.drop j) := by rw [← hP, length_sentChunks]
  by_cases hdata : packet.any Chunk.isData = true
  · rw [if_pos hdata]
    -- the run of stored chunks after the packet goes on from the ack
    have hDstored : ∀ x ∈ D, arrive A packet x = true := fun x hx => by simp [arrive, hDA x hx]
    have hrunEnd' : storedPrefix base msgs (arrive A packet) =
        D.length + (P.takeWhile (arrive A packet)).length := by
      unfold storedPrefix
      rw [hsplit, List.takeWhile_append_of_pos hDstored, List.length_append]
    have hle' : c - D.length ≤ (P.takeWhile (arrive A packet)).length :=
      Consecutive.le_length_takeWhile base _ hpend.consecutive_pending
        (by have := hpend.le_sent; omega) fun x hx k hk hlt => by
          have hAx := hstored x (List.mem_append_right D hx) k hk
            (by have := hpend.reported_le; omega)
          simp [arrive, hAx]
    -- and `prepareSack` moves the ack to its end
    have hack' : prepareSackLoop ((P.filter (arrive A packet)).map entry) (tsnAt base c) =
        tsnAt base (storedPrefix base msgs (arrive A packet)) := by
      have hP1 : Consecutive base (D.length + 1) P := by
        rw [Nat.add_comm]; exact hpend.consecutive_pending
      have hloop := prepareSackLoop_filter (arrive A packet) hP1
        (by have := hpend.window; omega) hle'
      rwa [Nat.add_sub_cancel' hpend.reported_le, ← hrunEnd'] at hloop
    simp only [hack']
    cases newData with
    | false =>
      -- nothing new is stored: every chunk of the run is stored as before
      obtain ⟨-, hold⟩ := h2 rfl
      have hsame : ∀ x ∈ sentChunks base 1 msgs, arrive A packet x = A x := by
        intro x hx
        rw [hsplit] at hx
        cases hAx : A x with
        | true => simp [arrive, hAx]
        | false =>
          have hin : Chunk.data x true ∉ packet := by
            intro hin
            rcases List.mem_append.mp hx with hxD | hxP
            · exact absurd (hDA x hxD) (by simp [hAx])
            · exact absurd (hold x hxP hin) (by simp [hAx])
          simp [arrive, hAx, hin]
      have hrunEnd_eq : storedPrefix base msgs (arrive A packet) = c := by
        rw [← hc]; unfold storedPrefix; rw [takeWhile_congr hsame]
      simp only [Bool.false_eq_true, if_false, List.append_nil, hrunEnd_eq]
      rw [List.filter_congr fun x hx =>
        hsame x (by rw [hsplit]; exact List.mem_append_right D hx)]
      exact h0.of_agree hsame
    | true =>
      -- the gather loop reports the messages completed by the new run
      simp only [if_true]
      have hg := @gatherLoop_sentChunks base (arrive A packet) (msgs.drop j)
        (sentCount (msgs.take j)) (storedPrefix base msgs (arrive A packet))
        (by have := hpend.window; omega) (by rw [hP, hrunEnd', hDlen])
      rw [hP] at hg
      rw [hg]
      have hle : sentCount (msgs.take j) ≤ storedPrefix base msgs (arrive A packet) := by omega
      have hcount := completedCount_append_of_le (msgs.take j) (msgs.drop j) hle
      rw [List.take_append_drop, List.length_take,
        Nat.min_eq_left (hj ▸ completedCount_le_length msgs _)] at hcount
      have hcount' : reportedCount base msgs (arrive A packet) = j +
          completedCount (msgs.drop j) (storedPrefix base msgs (arrive A packet) -
            sentCount (msgs.take j)) := hcount
      refine ⟨rfl, ?_, ?_⟩
      · show _ = ((sentChunks base (sentCount (msgs.take (reportedCount base msgs _)) + 1)
          (msgs.drop (reportedCount base msgs _))).filter _).map entry
        rw [hcount', List.take_add, sentCount_append, ← List.drop_drop, Nat.add_right_comm]
      · show _ ++ _ = (msgs.take (reportedCount base msgs _)).map Message.report
        rw [hcount', List.take_add, List.map_append]
  · -- no DATA chunk: nothing is stored and nothing moves
    have hsame : ∀ x, arrive A packet x = A x := by
      intro x
      have hnot : Chunk.data x true ∉ packet := fun hx =>
        hdata (List.any_eq_true.mpr ⟨_, hx, rfl⟩)
      simp [arrive, hnot]
    rw [if_neg hdata, List.append_nil, List.filter_congr fun x _ => hsame x]
    exact h0.of_agree fun x _ => hsame x

/-- The chunks that a list of packets brought with room. -/
def arrivedIn (packets : List (List Chunk)) (chunk : PayloadDataChunk) : Bool :=
  decide (∃ p ∈ packets, Chunk.data chunk true ∈ p)

theorem arrivedIn_append_singleton (packets : List (List Chunk)) (packet : List Chunk) :
    arrivedIn (packets ++ [packet]) = arrive (arrivedIn packets) packet := by
  funext x
  simp only [arrivedIn, arrive, List.mem_append, List.mem_singleton]
  simp [Bool.or_comm]

theorem completedCount_zero : ∀ ms : List Message, completedCount ms 0 = 0
  | [] => rfl
  | m :: _ => by
      have hpos : 0 < m.fragments.length := List.length_pos_iff.mpr m.fragments_ne_nil
      simp [completedCount, Nat.pos_iff_ne_zero.mp hpos]

/-- A new association, before any packet. -/
theorem reassembled_create :
    Reassembled base msgs (arrivedIn []) (InboundState.create (base + 1)) [] := by
  have hnone : arrivedIn [] = fun _ => false := by funext x; simp [arrivedIn]
  have hrunEnd : storedPrefix base msgs (arrivedIn []) = 0 := by
    rw [storedPrefix, hnone]
    cases sentChunks base 1 msgs <;> simp
  have hcount : reportedCount base msgs (arrivedIn []) = 0 := by
    rw [reportedCount, hrunEnd, completedCount_zero]
  refine ⟨?_, ?_, ?_⟩
  · rw [hrunEnd, tsnAt_zero]
    exact BitVec.add_sub_cancel base 1
  · simp [InboundState.create, hnone]
  · simp [hcount]

/-- **Every run keeps the invariant**: after any packets of the run, the state and the reports
made are those the stored chunks fix. -/
theorem Reassembled.run (hwin : sentCount msgs + 1 < 2 ^ 31) (packets : List (List Chunk))
    (hsent : ∀ p ∈ packets, ∀ x room, Chunk.data x room ∈ p → x ∈ sentChunks base 1 msgs) :
    Reassembled base msgs (arrivedIn packets)
      (Run.run onDataReceived (InboundState.create (base + 1)) packets).1
      (Run.run onDataReceived (InboundState.create (base + 1)) packets).2.flatten := by
  -- the invariant of a trace: the chunks its packets brought, and the reports it made
  have htrace := Run.run_trace_inv onDataReceived
    (Q := fun packet => ∀ x room, Chunk.data x room ∈ packet → x ∈ sentChunks base 1 msgs)
    (P := fun s tr => Reassembled base msgs (arrivedIn (tr.map Prod.fst)) s
      (tr.map Prod.snd).flatten)
    (fun s tr packet hq hinv => by
      simp only [List.map_append, List.map_cons, List.map_nil, List.flatten_append,
        List.flatten_cons, List.flatten_nil, List.append_nil, arrivedIn_append_singleton]
      exact hinv.onDataReceived_step hwin packet hq)
    (InboundState.create (base + 1)) packets [] hsent reassembled_create
  have hlen := Run.run_length onDataReceived (InboundState.create (base + 1)) packets
  rwa [List.nil_append, List.map_fst_zip (by omega), List.map_snd_zip (by omega)] at htrace

end Run

/-- **Reassembly.** Within half the ring of TSNs above the ack it starts from, the receive path
passes the peer's messages to the listener in the order they were sent, each once and as the
concatenation of its fragments with its own stream id, stream sequence number and payload
protocol: after any number of packets the reports are the first messages, all of whose chunks
have come by then, and once every chunk has come they are all the messages. -/
theorem onDataReceived_reassembles (base : BitVec 32) (msgs : List Message)
    (hwin : sentCount msgs + 1 < 2 ^ 31) (packets : List (List Chunk))
    (hsent : ∀ p ∈ packets, ∀ x room, Chunk.data x room ∈ p → x ∈ sentChunks base 1 msgs) :
    (∀ k, ∃ j,
      (Run.run onDataReceived (InboundState.create (base + 1)) (packets.take k)).2.flatten =
          (msgs.take j).map Message.report ∧
        ∀ x ∈ sentChunks base 1 (msgs.take j), ∃ p ∈ packets.take k, Chunk.data x true ∈ p) ∧
    ((∀ x ∈ sentChunks base 1 msgs, ∃ p ∈ packets, Chunk.data x true ∈ p) →
      (Run.run onDataReceived (InboundState.create (base + 1)) packets).2.flatten =
        msgs.map Message.report) := by
  constructor
  · intro k
    have hinv := Reassembled.run hwin (packets.take k)
      fun p hp => hsent p (List.mem_of_mem_take hp)
    refine ⟨reportedCount base msgs (arrivedIn (packets.take k)), hinv.reports, ?_⟩
    -- the reported messages lie within the run of stored chunks
    intro x hx
    have hle := sentCount_take_completedCount_le msgs
      (storedPrefix base msgs (arrivedIn (packets.take k)))
    have hstored := forall_of_length_le_takeWhile (arrivedIn (packets.take k))
      (sentChunks base (sentCount (msgs.take (reportedCount base msgs
        (arrivedIn (packets.take k)))) + 1) (msgs.drop (reportedCount base msgs
          (arrivedIn (packets.take k)))))
      (by rw [← sentChunks_split, length_sentChunks]; exact hle) x hx
    simpa [arrivedIn] using hstored
  · intro hall
    have hinv := Reassembled.run hwin packets hsent
    -- every chunk has come, so the run covers all of them
    have hrunEnd : storedPrefix base msgs (arrivedIn packets) = sentCount msgs := by
      have htake := @List.takeWhile_append_of_pos _ (arrivedIn packets) (sentChunks base 1 msgs)
        [] (fun x hx => by simpa [arrivedIn] using hall x hx)
      rw [List.append_nil, List.takeWhile_nil, List.append_nil] at htake
      rw [storedPrefix, htake, length_sentChunks]
    rw [hinv.reports, reportedCount, hrunEnd, completedCount_sentCount, List.take_length]

/-- A message of two fragments. -/
def twoFragmentMessage : Message := ⟨1, 0, 51, [[1], [2, 3]], by simp, by simp⟩

/-- Its two chunks, the second first. -/
def reorderedPackets : List (List Chunk) :=
  (sentChunks 0 1 [twoFragmentMessage]).reverse.map fun x => [Chunk.data x true]

theorem onDataReceived_reassembles_reordered :
    sentCount [twoFragmentMessage] + 1 < 2 ^ 31 ∧
    (∀ p ∈ reorderedPackets, ∀ x room, Chunk.data x room ∈ p →
      x ∈ sentChunks 0 1 [twoFragmentMessage]) ∧
    ((∀ k, ∃ j,
      (Run.run onDataReceived (InboundState.create (0 + 1)) (reorderedPackets.take k)).2.flatten =
          ([twoFragmentMessage].take j).map Message.report ∧
        ∀ x ∈ sentChunks 0 1 ([twoFragmentMessage].take j),
          ∃ p ∈ reorderedPackets.take k, Chunk.data x true ∈ p) ∧
    ((∀ x ∈ sentChunks 0 1 [twoFragmentMessage], ∃ p ∈ reorderedPackets, Chunk.data x true ∈ p) →
      (Run.run onDataReceived (InboundState.create (0 + 1)) reorderedPackets).2.flatten =
        [twoFragmentMessage].map Message.report)) := by
  have hsent : ∀ p ∈ reorderedPackets, ∀ x room, Chunk.data x room ∈ p →
      x ∈ sentChunks 0 1 [twoFragmentMessage] := by
    intro p hp x room hx
    obtain ⟨y, hy, rfl⟩ := List.mem_map.mp hp
    obtain ⟨rfl, -⟩ := Chunk.data.inj (List.mem_singleton.mp hx)
    exact List.mem_reverse.mp hy
  exact ⟨by decide, hsent,
    onDataReceived_reassembles 0 [twoFragmentMessage] (by decide) reorderedPackets hsent⟩

/-! ## Beyond half the ring

A chunk half the ring and one above the cumulative ack reads as at or below it, as `diff` gives
`2^31 - 1`. When it comes before the chunks between, it is dropped as acked already, and the
message it carries is never passed on, whatever comes after: the listener only ever gets bytes
of chunks that were stored (`onDataReceived_bytes`). -/

/-- A message of one byte in one fragment. -/
def oneByteMessage (b : BitVec 8) : Message := ⟨0, 0, 0, [[b]], by simp, by simp⟩

/-- `2^31` messages of a zero byte, then one of the byte `1`. -/
def farMessages : List Message := List.replicate (2 ^ 31) (oneByteMessage 0) ++ [oneByteMessage 1]

/-- The chunk of the last message, `2^31 + 1` above the ack. -/
def farChunk : PayloadDataChunk := ⟨fragmentFlags true true, tsnAt 0 (1 + 2 ^ 31), 0, 0, 0, [1]⟩

/-- The last message's chunk comes first, then every other chunk in order. -/
def farPackets : List (List Chunk) :=
  [Chunk.data farChunk true] ::
    (sentChunks 0 1 (List.replicate (2 ^ 31) (oneByteMessage 0))).map fun x => [Chunk.data x true]

theorem sentCount_replicate_oneByteMessage (n : Nat) (b : BitVec 8) :
    sentCount (List.replicate n (oneByteMessage b)) = n := by
  simp [sentCount, oneByteMessage]

theorem sentChunks_farMessages :
    sentChunks 0 1 farMessages =
      sentChunks 0 1 (List.replicate (2 ^ 31) (oneByteMessage 0)) ++ [farChunk] := by
  rw [farMessages, sentChunks_append, sentCount_replicate_oneByteMessage]
  rfl

/-- The far chunk is dropped: it reads as at or below the ack, and nothing is stored. -/
theorem onDataReceived_farChunk :
    onDataReceived (InboundState.create 1) [Chunk.data farChunk true] = (⟨[], 0⟩, []) := by
  have hdiff : 0 ≤ diff (tsnAt 0 (1 + 2 ^ 31)) (1 - 1) := by decide
  simp only [onDataReceived, InboundState.create, receiveChunks, receiveDataChunk, findChunk_nil,
    Option.isSome_none, Bool.false_eq_true, if_false, farChunk, if_pos hdiff]
  rfl

theorem far_message_never_reported :
    2 ^ 31 ≤ sentCount farMessages + 1 ∧
    (∀ p ∈ farPackets, ∀ x room, Chunk.data x room ∈ p → x ∈ sentChunks 0 1 farMessages) ∧
    (∀ x ∈ sentChunks 0 1 farMessages, ∃ p ∈ farPackets, Chunk.data x true ∈ p) ∧
    (oneByteMessage 1).report ∉
      (Run.run onDataReceived (InboundState.create 1) farPackets).2.flatten := by
  refine ⟨?_, ?_, ?_, ?_⟩
  · rw [farMessages, sentCount_append, sentCount_replicate_oneByteMessage]
    simp [sentCount, oneByteMessage]
  · -- the packets carry chunks of the run
    intro p hp x room hx
    rw [sentChunks_farMessages]
    rcases List.mem_cons.mp hp with rfl | hp
    · obtain ⟨rfl, -⟩ := Chunk.data.inj (List.mem_singleton.mp hx)
      exact List.mem_append_right _ List.mem_cons_self
    · obtain ⟨y, hy, rfl⟩ := List.mem_map.mp hp
      obtain ⟨rfl, -⟩ := Chunk.data.inj (List.mem_singleton.mp hx)
      exact List.mem_append_left _ hy
  · -- and every chunk of the run comes
    intro x hx
    rw [sentChunks_farMessages] at hx
    rcases List.mem_append.mp hx with hx | hx
    · exact ⟨[Chunk.data x true], List.mem_cons_of_mem _ (List.mem_map.mpr ⟨x, hx, rfl⟩),
        List.mem_singleton_self _⟩
    · rw [List.mem_singleton.mp hx]
      exact ⟨_, List.mem_cons_self, List.mem_singleton_self _⟩
  · -- after the far chunk is dropped, every byte that comes is zero
    have hzero : ∀ p ∈ farPackets.tail, ∀ x room, Chunk.data x room ∈ p →
        ∀ b ∈ x.payload, b = 0 := by
      intro p hp x room hx b hb
      obtain ⟨y, hy, rfl⟩ := List.mem_map.mp hp
      obtain ⟨rfl, -⟩ := Chunk.data.inj (List.mem_singleton.mp hx)
      obtain ⟨m, hm, hpay⟩ := exists_payload_mem_of_mem_sentChunks 0 hy
      rw [List.eq_of_mem_replicate hm] at hpay
      simp only [oneByteMessage, List.mem_singleton] at hpay
      rw [hpay] at hb
      exact List.mem_singleton.mp hb
    have htrace := Run.run_trace_inv onDataReceived
      (Q := fun p => ∀ x room, Chunk.data x room ∈ p → ∀ b ∈ x.payload, b = 0)
      (P := fun s tr => AllBytes (· = 0) s.inboundDataChunks ∧
        ∀ r ∈ (tr.map Prod.snd).flatten, ∀ b ∈ r.data, b = 0)
      (fun s tr p hp hinv => by
        obtain ⟨hstate, hout⟩ := onDataReceived_bytes hinv.1 hp
        refine ⟨hstate, fun r hr b hb => ?_⟩
        simp only [List.map_append, List.map_cons, List.map_nil, List.flatten_append,
          List.flatten_cons, List.flatten_nil, List.append_nil, List.mem_append] at hr
        rcases hr with hr | hr
        · exact hinv.2 r hr b hb
        · exact hout r hr b hb)
      ⟨[], 0⟩ farPackets.tail [] hzero
      ⟨fun _ he => absurd he List.not_mem_nil, fun _ hr => absurd hr List.not_mem_nil⟩
    have hlen := Run.run_length onDataReceived ⟨[], 0⟩ farPackets.tail
    rw [List.nil_append, List.map_snd_zip (by omega)] at htrace
    intro hmem
    rw [farPackets, Run.run_cons_snd, onDataReceived_farChunk, List.flatten_cons,
      List.nil_append] at hmem
    have h1 := htrace.2 _ hmem 1 (by simp [Message.report, oneByteMessage])
    exact absurd h1 (by decide)

end MediaBridge.Transport.Sctp
