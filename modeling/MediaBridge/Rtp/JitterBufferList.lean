import MediaBridge.Lib.Run
import MediaBridge.Lib.SerialNumber
import Mathlib.Data.Fintype.Card
import Mathlib.Data.List.FinRange

set_option autoImplicit false

/-! # `rtp::JitterBufferList`: the audio jitter buffer

`JitterBufferList` (`rtp/JitterBufferList.cpp`) keeps up to `SIZE = 300` packets in a linked
list of item slots taken from a fixed store: `add` puts a packet after the tail when its
sequence number is not behind the tail's (`int16_t(new - tail) >= 0`), and otherwise scans
from the head for the first item ahead of it (`int16_t(item - new) > 0`) and links the packet
in before that item; `pop` unlinks the head and gives its slot back.

The pointer structure is kept as the lists it links: the items reached from `_head` through
`next`, each with its slot and packet (`_tail` is the last of them), and the free stack
reached from `_freeItems`. The packet type is left abstract; `sequenceNumberOf` is
`RtpHeader::fromPacket` followed by the sequence number, `none` for a corrupt header.

Main results:
* `Inv.run`: in every state reachable by calls, `_count` plus the free stack is every slot, no
  slot is in two places, and neighbours in the list are in serial order.
* `add_cases` and `ScanFails.half_ring`: when the scan finds no place, `add` returns `false`
  with the slot off the free stack and counted, yet unlinked; this needs the new packet to be
  half the sequence ring away from the tail. `leaked_le_run`: such a slot is never given back.
* `WindowInv.run` and `add_of_window`: while every packet added lies within fewer than `2^15`
  sequence numbers above a base, `_count` is the number of linked items, the linked and free
  slots are all the slots, and `add` fails only on a corrupt header or a full buffer, changing
  nothing then.
* `Inv.pops_sorted`: inside such a window successive `pop`s return the packets in
  sequence-number order.
-/

namespace MediaBridge.Rtp

/-- `JitterBufferList::SIZE`, the number of slots in `_itemStore`. -/
def JitterBufferList.SIZE : Nat := 300

/-- The state of a `JitterBufferList`. A slot is an index into `_itemStore`. `items` are the
slots linked from `_head`, in order, each with its packet; `_tail` is the last of them, null
when there is none. `freeItems` is the free stack, its top first. -/
structure JitterBufferList (Packet : Type) where
  items : List (Fin JitterBufferList.SIZE × Packet)
  freeItems : List (Fin JitterBufferList.SIZE)
  count : Nat

namespace JitterBufferList

variable {Packet : Type} (sequenceNumberOf : Packet → Option (BitVec 16))

/-- The constructor: nothing linked, every slot pushed on the free stack in turn, so that
`_itemStore[SIZE - 1]` is on top. -/
def create : JitterBufferList Packet := ⟨[], (List.finRange SIZE).reverse, 0⟩

/-- `RtpHeader::fromPacket(*item->packet)->sequenceNumber` for a linked packet. Linked packets
always parse (`Inv.parsed`), so the default is never read. -/
def sequenceNumber (packet : Packet) : BitVec 16 := (sequenceNumberOf packet).getD 0

/-- The scan at the end of `add`: from `_head`, the new item goes in before the first item
ahead of `newSeq` (`int16_t(itemSeq - newSeq) > 0`); `none` when the scan runs off the end. -/
def insertScan (newSeq : BitVec 16) (newItem : Fin SIZE × Packet) :
    List (Fin SIZE × Packet) → Option (List (Fin SIZE × Packet))
  | [] => none
  | item :: rest =>
      if 0 < (sequenceNumber sequenceNumberOf item.2 - newSeq).toInt then
        some (newItem :: item :: rest)
      else (insertScan newSeq newItem rest).map (item :: ·)

/-- `JitterBufferList::add`, with its result. -/
def add (b : JitterBufferList Packet) (packet : Packet) : JitterBufferList Packet × Bool :=
  match sequenceNumberOf packet with
  | none => (b, false) -- corrupt
  | some newSeq =>
      -- `allocItem` pops the free stack, then `++_count`
      match b.freeItems with
      | [] => (b, false) -- full
      | slot :: free =>
          let newItem := (slot, packet)
          match b.items.getLast? with
          | none => (⟨[newItem], free, b.count + 1⟩, true)
          | some tail =>
              if 0 ≤ (newSeq - sequenceNumber sequenceNumberOf tail.2).toInt then
                (⟨b.items ++ [newItem], free, b.count + 1⟩, true)
              else
                match insertScan sequenceNumberOf newSeq newItem b.items with
                | some items => (⟨items, free, b.count + 1⟩, true)
                -- the final `return false`: the slot has left the free stack and is counted
                | none => (⟨b.items, free, b.count + 1⟩, false)

/-- `JitterBufferList::pop`. -/
def pop (b : JitterBufferList Packet) : JitterBufferList Packet × Option Packet :=
  match b.items with
  | [] => (b, none)
  | (slot, packet) :: rest => (⟨rest, slot :: b.freeItems, b.count - 1⟩, some packet)

/-- A call on the buffer. -/
inductive Call (Packet : Type) where
  | add (packet : Packet)
  | pop

/-- What a call returns. -/
inductive Reply (Packet : Type) where
  | added (ok : Bool)
  | popped (packet : Option Packet)
  deriving DecidableEq

/-- One call. -/
def step (b : JitterBufferList Packet) : Call Packet → JitterBufferList Packet × Reply Packet
  | .add packet => ((b.add sequenceNumberOf packet).1, .added (b.add sequenceNumberOf packet).2)
  | .pop => (b.pop.1, .popped b.pop.2)

/-! ## The scan -/

/-- Serial order of two linked items: `x` is not ahead of `y`. -/
def Precedes (x y : Fin SIZE × Packet) : Prop :=
  (sequenceNumber sequenceNumberOf x.2 - sequenceNumber sequenceNumberOf y.2).toInt ≤ 0

variable {sequenceNumberOf}

theorem insertScan_perm {newSeq : BitVec 16} {newItem : Fin SIZE × Packet} :
    ∀ {l l' : List (Fin SIZE × Packet)}, insertScan sequenceNumberOf newSeq newItem l = some l' →
      l'.Perm (newItem :: l)
  | [], _, h => by cases h
  | item :: rest, l', h => by
      rw [insertScan] at h
      split at h
      · cases h; exact List.Perm.refl _
      · obtain ⟨l'', hl'', rfl⟩ := Option.map_eq_some_iff.mp h
        exact ((insertScan_perm hl'').cons item).trans (List.Perm.swap newItem item rest)

/-- The scan runs off the end exactly when no item is ahead of the new one. -/
theorem insertScan_eq_none_iff {newSeq : BitVec 16} {newItem : Fin SIZE × Packet}
    (l : List (Fin SIZE × Packet)) :
    insertScan sequenceNumberOf newSeq newItem l = none ↔
      ∀ x ∈ l, (sequenceNumber sequenceNumberOf x.2 - newSeq).toInt ≤ 0 := by
  induction l with
  | nil => simp [insertScan]
  | cons item rest ih =>
      rw [insertScan, List.forall_mem_cons, ← ih]
      by_cases hpos : 0 < (sequenceNumber sequenceNumberOf item.2 - newSeq).toInt
      · -- the head is ahead: the scan stops there
        rw [if_pos hpos]
        exact ⟨fun h => absurd h (Option.some_ne_none _), fun h => absurd h.1 (Int.not_le.mpr hpos)⟩
      · rw [if_neg hpos, Option.map_eq_none_iff]
        exact ⟨fun h => ⟨Int.not_lt.mp hpos, h⟩, fun h => h.2⟩

section Order

variable {newSeq : BitVec 16} {newItem : Fin SIZE × Packet}
  (hnew : sequenceNumber sequenceNumberOf newItem.2 = newSeq)
include hnew

/-- The new item precedes an item ahead of it. -/
theorem precedes_of_ahead {item : Fin SIZE × Packet}
    (h : 0 < (sequenceNumber sequenceNumberOf item.2 - newSeq).toInt) :
    Precedes sequenceNumberOf newItem item := by
  rw [Precedes, hnew]
  exact SerialNumber.toInt_sub_swap_nonpos h.le

/-- Behind an item `a` that precedes the new one, the scan keeps the list in serial order. -/
theorem isChain_cons_insertScan :
    ∀ {a : Fin SIZE × Packet} {l l' : List (Fin SIZE × Packet)},
      (a :: l).IsChain (Precedes sequenceNumberOf) →
      (sequenceNumber sequenceNumberOf a.2 - newSeq).toInt ≤ 0 →
      insertScan sequenceNumberOf newSeq newItem l = some l' →
      (a :: l').IsChain (Precedes sequenceNumberOf)
  | _, [], _, _, _, h => by cases h
  | a, item :: rest, l', hl, ha, h => by
      rw [List.isChain_cons_cons] at hl
      rw [insertScan] at h
      split at h
      · next hpos =>
          cases h
          have han : Precedes sequenceNumberOf a newItem := by rw [Precedes, hnew]; exact ha
          exact List.isChain_cons_cons.mpr
            ⟨han, List.isChain_cons_cons.mpr ⟨precedes_of_ahead hnew hpos, hl.2⟩⟩
      · next hpos =>
          obtain ⟨l'', hl'', rfl⟩ := Option.map_eq_some_iff.mp h
          exact List.isChain_cons_cons.mpr
            ⟨hl.1, isChain_cons_insertScan hl.2 (Int.not_lt.mp hpos) hl''⟩

/-- The scan keeps the list in serial order. -/
theorem isChain_insertScan {l l' : List (Fin SIZE × Packet)}
    (hl : l.IsChain (Precedes sequenceNumberOf))
    (h : insertScan sequenceNumberOf newSeq newItem l = some l') :
    l'.IsChain (Precedes sequenceNumberOf) := by
  cases l with
  | nil => cases h
  | cons item rest =>
      rw [insertScan] at h
      split at h
      · next hpos =>
          cases h
          exact List.isChain_cons_cons.mpr ⟨precedes_of_ahead hnew hpos, hl⟩
      · next hpos =>
          obtain ⟨l'', hl'', rfl⟩ := Option.map_eq_some_iff.mp h
          exact isChain_cons_insertScan hnew hl (Int.not_lt.mp hpos) hl''

/-- Appending after a tail the new item is not behind keeps the list in serial order. -/
theorem isChain_append_newItem {l : List (Fin SIZE × Packet)}
    (hl : l.IsChain (Precedes sequenceNumberOf))
    (htail : ∀ tail ∈ l.getLast?, 0 ≤ (newSeq - sequenceNumber sequenceNumberOf tail.2).toInt) :
    (l ++ [newItem]).IsChain (Precedes sequenceNumberOf) := by
  refine List.isChain_append.mpr ⟨hl, List.isChain_singleton _, ?_⟩
  intro tail htl y hy
  rw [List.head?_cons, Option.mem_some_iff] at hy
  subst hy
  rw [Precedes, hnew]
  exact SerialNumber.toInt_sub_swap_nonpos (htail tail htl)

end Order

/-! ## What `add` can do -/

variable (sequenceNumberOf)

/-- The ways `add` links `newItem` into `items`: after the tail, when the new sequence number
is not behind the tail's or there is no tail, or where the scan puts it. -/
def Links (newSeq : BitVec 16) (newItem : Fin SIZE × Packet)
    (items items' : List (Fin SIZE × Packet)) : Prop :=
  (items' = items ++ [newItem] ∧
    ∀ tail ∈ items.getLast?, 0 ≤ (newSeq - sequenceNumber sequenceNumberOf tail.2).toInt) ∨
  insertScan sequenceNumberOf newSeq newItem items = some items'

/-- The scan finds no place: the new sequence number is behind the tail's, and no item is
ahead of it. -/
def ScanFails (newSeq : BitVec 16) (items : List (Fin SIZE × Packet)) : Prop :=
  (∃ tail ∈ items.getLast?, (newSeq - sequenceNumber sequenceNumberOf tail.2).toInt < 0) ∧
  ∀ x ∈ items, (sequenceNumber sequenceNumberOf x.2 - newSeq).toInt ≤ 0

/-- **What one `add` can do.** On a corrupt header or an empty free stack it changes nothing
and fails. Otherwise it takes the top free slot and counts it, and either links the packet
there and succeeds, or, when the scan finds no place, leaves the list as it is and fails. -/
theorem add_cases (b : JitterBufferList Packet) (packet : Packet) :
    ((sequenceNumberOf packet = none ∨ b.freeItems = []) ∧ b.add sequenceNumberOf packet = (b, false)) ∨
    ∃ newSeq slot free, sequenceNumberOf packet = some newSeq ∧ b.freeItems = slot :: free ∧
      ((∃ items, Links sequenceNumberOf newSeq (slot, packet) b.items items ∧
          b.add sequenceNumberOf packet = (⟨items, free, b.count + 1⟩, true)) ∨
        (ScanFails sequenceNumberOf newSeq b.items ∧
          b.add sequenceNumberOf packet = (⟨b.items, free, b.count + 1⟩, false))) := by
  cases hseq : sequenceNumberOf packet with
  | none => exact .inl ⟨.inl rfl, by simp [add, hseq]⟩
  | some newSeq =>
      cases hfree : b.freeItems with
      | nil => exact .inl ⟨.inr rfl, by simp [add, hseq, hfree]⟩
      | cons slot free =>
          refine .inr ⟨newSeq, slot, free, rfl, rfl, ?_⟩
          cases hlast : b.items.getLast? with
          | none =>
              have hnil : b.items = [] := List.getLast?_eq_none_iff.mp hlast
              exact .inl ⟨[(slot, packet)], .inl ⟨by simp [hnil], by simp [hnil]⟩,
                by simp only [add, hseq, hfree, hlast]⟩
          | some tail =>
              by_cases htail : 0 ≤ (newSeq - sequenceNumber sequenceNumberOf tail.2).toInt
              · have htail' : ∀ t ∈ b.items.getLast?,
                    0 ≤ (newSeq - sequenceNumber sequenceNumberOf t.2).toInt := by
                  intro t ht
                  rw [hlast, Option.mem_some_iff] at ht
                  exact ht ▸ htail
                exact .inl ⟨_, .inl ⟨rfl, htail'⟩,
                  by simp only [add, hseq, hfree, hlast, if_pos htail]⟩
              · cases hscan : insertScan sequenceNumberOf newSeq (slot, packet) b.items with
                | some items =>
                    exact .inl ⟨items, .inr hscan,
                      by simp only [add, hseq, hfree, hlast, if_neg htail, hscan]⟩
                | none =>
                    refine .inr ⟨⟨⟨tail, hlast, by omega⟩, (insertScan_eq_none_iff _).mp hscan⟩, ?_⟩
                    simp only [add, hseq, hfree, hlast, if_neg htail, hscan]

variable {sequenceNumberOf}

theorem Links.perm {newSeq : BitVec 16} {newItem : Fin SIZE × Packet}
    {items items' : List (Fin SIZE × Packet)} (h : Links sequenceNumberOf newSeq newItem items items') :
    items'.Perm (newItem :: items) := by
  rcases h with ⟨rfl, -⟩ | h
  · exact List.perm_append_singleton newItem items
  · exact insertScan_perm h

theorem Links.isChain {newSeq : BitVec 16} {newItem : Fin SIZE × Packet}
    {items items' : List (Fin SIZE × Packet)} (h : Links sequenceNumberOf newSeq newItem items items')
    (hnew : sequenceNumber sequenceNumberOf newItem.2 = newSeq)
    (hl : items.IsChain (Precedes sequenceNumberOf)) : items'.IsChain (Precedes sequenceNumberOf) := by
  rcases h with ⟨rfl, htail⟩ | h
  · exact isChain_append_newItem hnew hl htail
  · exact isChain_insertScan hnew hl h

/-- The scan finds no place only for a packet half the sequence ring away from the tail:
`int16_t(new - tail)` is `-2^15`, and so is `int16_t(tail - new)`. -/
theorem ScanFails.half_ring {newSeq : BitVec 16} {items : List (Fin SIZE × Packet)}
    (h : ScanFails sequenceNumberOf newSeq items) :
    ∃ tail ∈ items.getLast?, newSeq - sequenceNumber sequenceNumberOf tail.2 = BitVec.intMin 16 := by
  obtain ⟨⟨tail, htl, hbehind⟩, hnone⟩ := h
  exact ⟨tail, htl,
    SerialNumber.sub_eq_intMin_of_toInt_neg hbehind (hnone tail (List.mem_of_getLast? htl))⟩

/-! ## What `pop` does -/

theorem pop_of_items_nil {b : JitterBufferList Packet} (h : b.items = []) : b.pop = (b, none) := by
  simp only [pop, h]

theorem pop_of_items_cons {b : JitterBufferList Packet} {x : Fin SIZE × Packet}
    {rest : List (Fin SIZE × Packet)} (h : b.items = x :: rest) :
    b.pop = (⟨rest, x.1 :: b.freeItems, b.count - 1⟩, some x.2) := by
  simp only [pop, h]

/-! ## The invariant of every reachable state -/

variable (sequenceNumberOf)

/-- What every call keeps. -/
structure Inv (b : JitterBufferList Packet) : Prop where
  /-- `_count` and the free stack together are every slot. -/
  slots : b.count + b.freeItems.length = SIZE
  /-- No slot is linked twice, free twice, or both. -/
  nodup : (b.items.map Prod.fst ++ b.freeItems).Nodup
  /-- Every linked packet parsed when it was added. -/
  parsed : ∀ x ∈ b.items, (sequenceNumberOf x.2).isSome
  /-- Neighbours in the list are in serial order. -/
  ordered : b.items.IsChain (Precedes sequenceNumberOf)

variable {sequenceNumberOf}

theorem inv_create : Inv sequenceNumberOf (create : JitterBufferList Packet) where
  slots := by simp [create]
  nodup := by simpa [create] using List.nodup_finRange SIZE
  parsed := by simp [create]
  ordered := List.IsChain.nil

/-- `_count` is at least the number of linked items: the linked and free slots are distinct
slots, fewer than `SIZE` of them together. -/
theorem Inv.length_le_count {b : JitterBufferList Packet} (h : Inv sequenceNumberOf b) :
    b.items.length ≤ b.count := by
  have hcard := h.nodup.length_le_card
  simp only [List.length_append, List.length_map, Fintype.card_fin] at hcard
  have := h.slots
  omega

theorem Inv.add {b : JitterBufferList Packet} (h : Inv sequenceNumberOf b) (packet : Packet) :
    Inv sequenceNumberOf (b.add sequenceNumberOf packet).1 := by
  rcases add_cases sequenceNumberOf b packet with ⟨-, hadd⟩ | ⟨newSeq, slot, free, hseq, hfree, hlink⟩
  · rw [hadd]; exact h
  have hslots := h.slots
  have hnd := h.nodup
  rw [hfree] at hslots hnd
  rcases hlink with ⟨items, hlinks, hadd⟩ | ⟨-, hadd⟩
  · -- the new slot moves from the top of the free stack into the list
    have hperm := hlinks.perm
    have hnew : sequenceNumber sequenceNumberOf packet = newSeq := by simp [sequenceNumber, hseq]
    rw [hadd]
    refine ⟨by simp at hslots ⊢; omega, ?_, ?_, hlinks.isChain hnew h.ordered⟩
    · have hmid : (items.map Prod.fst ++ free).Perm (b.items.map Prod.fst ++ slot :: free) :=
        ((hperm.map Prod.fst).append_right free).trans List.perm_middle.symm
      exact hmid.nodup_iff.mpr hnd
    · intro x hx
      rcases List.mem_cons.mp (hperm.mem_iff.mp hx) with rfl | hx
      · simp [hseq]
      · exact h.parsed x hx
  · -- the slot leaves the free stack and is counted, but is linked nowhere
    rw [hadd]
    refine ⟨by simp at hslots ⊢; omega, ?_, h.parsed, h.ordered⟩
    exact hnd.sublist ((List.sublist_cons_self slot free).append_left _)

theorem Inv.pop {b : JitterBufferList Packet} (h : Inv sequenceNumberOf b) :
    Inv sequenceNumberOf b.pop.1 := by
  cases hitems : b.items with
  | nil => rw [pop_of_items_nil hitems]; exact h
  | cons x rest =>
      rw [pop_of_items_cons hitems]
      have hlen := h.length_le_count
      have hslots := h.slots
      have hnd := h.nodup
      have hc := h.ordered
      rw [hitems] at hlen hnd hc
      simp only [List.length_cons] at hlen
      refine ⟨by simp only [List.length_cons]; omega, ?_,
        fun y hy => h.parsed y (by simp [hitems, hy]), hc.tail⟩
      -- the head's slot goes on top of the free stack
      exact List.perm_middle.nodup_iff.mpr (by simpa only [List.map_cons, List.cons_append] using hnd)

theorem Inv.step {b : JitterBufferList Packet} (h : Inv sequenceNumberOf b) (c : Call Packet) :
    Inv sequenceNumberOf (step sequenceNumberOf b c).1 := by
  cases c with
  | add packet => exact h.add packet
  | pop => exact h.pop

/-- **The invariant of every run.** -/
theorem Inv.run {b : JitterBufferList Packet} (h : Inv sequenceNumberOf b) (calls : List (Call Packet)) :
    Inv sequenceNumberOf (Run.run (JitterBufferList.step sequenceNumberOf) b calls).1 :=
  Run.run_inv (JitterBufferList.step sequenceNumberOf) (fun _ c h => h.step c) b calls h

/-! ## Slots taken and never linked -/

/-- The slots `add` has taken off the free stack and counted without linking them. -/
def leaked (b : JitterBufferList Packet) : Nat := b.count - b.items.length

/-- Every slot is linked, free or leaked. -/
theorem Inv.length_add_leaked {b : JitterBufferList Packet} (h : Inv sequenceNumberOf b) :
    b.items.length + b.freeItems.length + b.leaked = SIZE := by
  have := h.slots
  have := h.length_le_count
  simp only [leaked]
  omega

theorem leaked_le_add (b : JitterBufferList Packet) (packet : Packet) :
    b.leaked ≤ (b.add sequenceNumberOf packet).1.leaked := by
  rcases add_cases sequenceNumberOf b packet with
    ⟨-, hadd⟩ | ⟨newSeq, slot, free, -, -, ⟨items, hlinks, hadd⟩ | ⟨-, hadd⟩⟩
  · rw [hadd]
  · rw [hadd]
    simp only [leaked, hlinks.perm.length_eq, List.length_cons]
    omega
  · rw [hadd]
    simp only [leaked]
    omega

theorem leaked_pop (b : JitterBufferList Packet) : b.pop.1.leaked = b.leaked := by
  cases hitems : b.items with
  | nil => rw [pop_of_items_nil hitems]
  | cons x rest =>
      rw [pop_of_items_cons hitems]
      simp only [leaked, hitems, List.length_cons]
      omega

/-- **A leaked slot stays leaked**: no call gives it back. -/
theorem leaked_le_run (b : JitterBufferList Packet) (calls : List (Call Packet)) :
    b.leaked ≤ (Run.run (step sequenceNumberOf) b calls).1.leaked := by
  refine Run.run_inv (step sequenceNumberOf) (P := fun b' => b.leaked ≤ b'.leaked) ?_ b calls le_rfl
  intro b' c hle
  cases c with
  | add packet => exact hle.trans (leaked_le_add b' packet)
  | pop => exact hle.trans_eq (leaked_pop b').symm

/-! ## Inside a window of sequence numbers -/

variable (sequenceNumberOf)

/-- A call adds no packet whose sequence number lies outside the `2^15` numbers above `base`. -/
def Call.InWindow (base : BitVec 16) : Call Packet → Prop
  | .add packet => ∀ s ∈ sequenceNumberOf packet, (s - base).toNat < 2 ^ 15
  | .pop => True

/-- The accounting the class means to keep, with every linked sequence number in the window:
`_count` is the number of linked items. -/
structure WindowInv (base : BitVec 16) (b : JitterBufferList Packet) : Prop where
  inv : Inv sequenceNumberOf b
  count_eq : b.count = b.items.length
  window : ∀ x ∈ b.items, (sequenceNumber sequenceNumberOf x.2 - base).toNat < 2 ^ 15

variable {sequenceNumberOf}

/-- Inside a window the scan always finds a place: two numbers of the window are never half
the ring apart. -/
theorem not_scanFails_of_window {base newSeq : BitVec 16} {items : List (Fin SIZE × Packet)}
    (hnew : (newSeq - base).toNat < 2 ^ 15)
    (hwin : ∀ x ∈ items, (sequenceNumber sequenceNumberOf x.2 - base).toNat < 2 ^ 15) :
    ¬ ScanFails sequenceNumberOf newSeq items := by
  intro hfail
  obtain ⟨tail, htl, hhalf⟩ := hfail.half_ring
  have htw := hwin tail (List.mem_of_getLast? htl)
  have hnew' : 2 * (newSeq - base).toNat < 2 ^ 16 := by omega
  have htw' : 2 * (sequenceNumber sequenceNumberOf tail.2 - base).toNat < 2 ^ 16 := by omega
  have hdiff := SerialNumber.toInt_sub_of_window hnew' htw'
  rw [hhalf] at hdiff
  have hmin : (BitVec.intMin 16).toInt = -2 ^ 15 := by decide
  omega

/-- The slots of a buffer that keeps the accounting: linked and free, they are all the slots. -/
theorem WindowInv.perm_finRange {base : BitVec 16} {b : JitterBufferList Packet}
    (h : WindowInv sequenceNumberOf base b) :
    (b.items.map Prod.fst ++ b.freeItems).Perm (List.finRange SIZE) := by
  have hsub := List.subperm_of_subset h.inv.nodup fun x _ => List.mem_finRange x
  refine hsub.perm_of_length_le ?_
  have := h.inv.slots
  have := h.count_eq
  simp only [List.length_finRange, List.length_append, List.length_map]
  omega

/-- **`add` inside a window.** It fails only on a corrupt header or a full buffer
(`count() == SIZE`), and then changes nothing; otherwise it links the packet and counts it. -/
theorem add_of_window {base : BitVec 16} {b : JitterBufferList Packet}
    (h : WindowInv sequenceNumberOf base b) {packet : Packet}
    (hp : (Call.add packet).InWindow sequenceNumberOf base) :
    ((sequenceNumberOf packet = none ∨ b.count = SIZE) ∧ b.add sequenceNumberOf packet = (b, false)) ∨
    ∃ slot, (b.add sequenceNumberOf packet).2 = true ∧
      (b.add sequenceNumberOf packet).1.items.Perm ((slot, packet) :: b.items) ∧
      (b.add sequenceNumberOf packet).1.count = b.count + 1 := by
  have hslots := h.inv.slots
  rcases add_cases sequenceNumberOf b packet with
    ⟨hcause, hadd⟩ | ⟨newSeq, slot, free, hseq, -, ⟨items, hlinks, hadd⟩ | ⟨hfail, -⟩⟩
  · -- an empty free stack is a full count
    refine .inl ⟨hcause.imp_right fun hfree => ?_, hadd⟩
    rw [hfree, List.length_nil] at hslots
    omega
  · exact .inr ⟨slot, by rw [hadd], by rw [hadd]; exact hlinks.perm, by rw [hadd]⟩
  · exact absurd hfail (not_scanFails_of_window (hp newSeq hseq) h.window)

theorem WindowInv.add {base : BitVec 16} {b : JitterBufferList Packet}
    (h : WindowInv sequenceNumberOf base b) {packet : Packet}
    (hp : (Call.add packet).InWindow sequenceNumberOf base) :
    WindowInv sequenceNumberOf base (b.add sequenceNumberOf packet).1 := by
  refine ⟨h.inv.add packet, ?_, ?_⟩
  · rcases add_of_window h hp with ⟨-, hadd⟩ | ⟨slot, -, hperm, hcount⟩
    · rw [hadd]; exact h.count_eq
    · rw [hcount, hperm.length_eq, List.length_cons, h.count_eq]
  · rcases add_cases sequenceNumberOf b packet with
      ⟨-, hadd⟩ | ⟨newSeq, slot, free, hseq, -, ⟨items, hlinks, hadd⟩ | ⟨-, hadd⟩⟩
    · rw [hadd]; exact h.window
    · rw [hadd]
      intro x hx
      rcases List.mem_cons.mp (hlinks.perm.mem_iff.mp hx) with rfl | hx
      · simpa [sequenceNumber, hseq] using hp newSeq hseq
      · exact h.window x hx
    · rw [hadd]; exact h.window

theorem WindowInv.pop {base : BitVec 16} {b : JitterBufferList Packet}
    (h : WindowInv sequenceNumberOf base b) : WindowInv sequenceNumberOf base b.pop.1 := by
  refine ⟨h.inv.pop, ?_, ?_⟩
  · cases hitems : b.items with
    | nil => rw [pop_of_items_nil hitems]; exact h.count_eq
    | cons x rest =>
        have := h.count_eq
        rw [pop_of_items_cons hitems]
        simp only [hitems, List.length_cons] at this ⊢
        omega
  · cases hitems : b.items with
    | nil => rw [pop_of_items_nil hitems]; exact h.window
    | cons x rest =>
        rw [pop_of_items_cons hitems]
        exact fun y hy => h.window y (by simp [hitems, hy])

/-- **The accounting over every run inside a window.** -/
theorem WindowInv.run {base : BitVec 16} {b : JitterBufferList Packet}
    (h : WindowInv sequenceNumberOf base b) (calls : List (Call Packet))
    (hcalls : ∀ c ∈ calls, c.InWindow sequenceNumberOf base) :
    WindowInv sequenceNumberOf base (Run.run (step sequenceNumberOf) b calls).1 := by
  refine Run.run_inv_of (step sequenceNumberOf) ?_ b calls hcalls h
  intro b' c hc h'
  cases c with
  | add packet => exact h'.add hc
  | pop => exact h'.pop

/-! ## Popping in order -/

/-- Successive `pop`s return the linked packets from the head on, then nothing. -/
theorem run_pops (b : JitterBufferList Packet) (n : Nat) :
    (Run.run (step sequenceNumberOf) b (List.replicate n .pop)).2 =
      (b.items.take n).map (fun x => Reply.popped (some x.2)) ++
        List.replicate (n - b.items.length) (Reply.popped none) := by
  induction n generalizing b with
  | zero => simp
  | succ n ih =>
      rw [List.replicate_succ, Run.run_cons_snd, ih]
      cases hitems : b.items with
      | nil => simp [step, pop_of_items_nil hitems, hitems, List.replicate_succ]
      | cons x rest => simp [step, pop_of_items_cons hitems]

/-- A call links no packet but the one it adds. -/
theorem mem_items_step {b : JitterBufferList Packet} (c : Call Packet) {x : Fin SIZE × Packet}
    (hx : x ∈ (step sequenceNumberOf b c).1.items) : x ∈ b.items ∨ c = .add x.2 := by
  cases c with
  | pop =>
      left
      cases hitems : b.items with
      | nil => rwa [step, pop_of_items_nil hitems, hitems] at hx
      | cons y rest =>
          rw [step, pop_of_items_cons hitems] at hx
          exact List.mem_cons_of_mem y hx
  | add packet =>
      rcases add_cases sequenceNumberOf b packet with
        ⟨-, hadd⟩ | ⟨newSeq, slot, free, -, -, ⟨items, hlinks, hadd⟩ | ⟨-, hadd⟩⟩
      · rw [step, hadd] at hx
        exact .inl hx
      · -- whether appended or scanned in, the new list is the old one with the new item
        rw [step, hadd] at hx
        rcases List.mem_cons.mp (hlinks.perm.mem_iff.mp hx) with rfl | h
        · exact .inr rfl
        · exact .inl h
      · rw [step, hadd] at hx
        exact .inl hx

/-- **A buffer links only packets that were added**: a property of every linked packet holds
after a run when it holds of the packets linked before and of every packet the run adds. -/
theorem items_run {Q : Packet → Prop} (b : JitterBufferList Packet) (calls : List (Call Packet))
    (hb : ∀ x ∈ b.items, Q x.2) (hcalls : ∀ packet, Call.add packet ∈ calls → Q packet) :
    ∀ x ∈ (Run.run (step sequenceNumberOf) b calls).1.items, Q x.2 := by
  refine Run.run_inv_of (step sequenceNumberOf) (Q := fun c => ∀ packet, c = .add packet → Q packet)
    (P := fun b => ∀ x ∈ b.items, Q x.2) ?_ b calls (fun c hc packet hp => hcalls packet (hp ▸ hc)) hb
  intro b c hc hbQ x hx
  rcases mem_items_step c hx with h | h
  · exact hbQ x h
  · exact hc x.2 h

/-- Inside a window the list is sorted by offset from the window's base. -/
theorem Inv.pairwise_of_window {b : JitterBufferList Packet} (h : Inv sequenceNumberOf b)
    (base : BitVec 16) (hwin : ∀ x ∈ b.items, (sequenceNumber sequenceNumberOf x.2 - base).toNat < 2 ^ 15) :
    b.items.Pairwise fun x y =>
      (sequenceNumber sequenceNumberOf x.2 - base).toNat ≤ (sequenceNumber sequenceNumberOf y.2 - base).toNat := by
  have hwin' : ∀ x ∈ b.items, 2 * (sequenceNumber sequenceNumberOf x.2 - base).toNat < 2 ^ 16 := by
    intro x hx
    have := hwin x hx
    omega
  have hc : b.items.IsChain fun x y =>
      (sequenceNumber sequenceNumberOf x.2 - sequenceNumber sequenceNumberOf y.2).toInt ≤ 0 :=
    h.ordered
  exact SerialNumber.pairwise_offset_of_isChain (w := 16)
    (fun x : Fin SIZE × Packet => sequenceNumber sequenceNumberOf x.2) base hwin' hc

/-- **Successive `pop`s return the packets in sequence-number order**, when the linked
sequence numbers lie in a window of fewer than `2^15`. -/
theorem Inv.pops_sorted {b : JitterBufferList Packet} (h : Inv sequenceNumberOf b)
    (base : BitVec 16) (hwin : ∀ x ∈ b.items, (sequenceNumber sequenceNumberOf x.2 - base).toNat < 2 ^ 15)
    (n : Nat) :
    (Run.run (JitterBufferList.step sequenceNumberOf) b (List.replicate n Call.pop)).2 =
        ((b.items.take n).map Prod.snd).map (fun p => Reply.popped (some p)) ++
          List.replicate (n - b.items.length) (Reply.popped none) ∧
      ((b.items.take n).map Prod.snd).Pairwise fun p q =>
        (sequenceNumber sequenceNumberOf p - base).toNat ≤ (sequenceNumber sequenceNumberOf q - base).toNat := by
  refine ⟨by rw [run_pops, List.map_map]; rfl, ?_⟩
  exact List.pairwise_map.mpr ((h.pairwise_of_window base hwin).sublist (List.take_sublist n _))

/-- Packets that are their own sequence numbers, added as `5`, `3`, `4`, pop as `3`, `4`, `5`. -/
theorem pops_sorted_three_packets :
    let b := (Run.run (step some) create [.add (5 : BitVec 16), .add 3, .add 4]).1
    Inv some b ∧ (∀ x ∈ b.items, (sequenceNumber some x.2 - 0).toNat < 2 ^ 15) ∧
      ((Run.run (JitterBufferList.step some) b (List.replicate 3 Call.pop)).2 =
          ((b.items.take 3).map Prod.snd).map (fun p => Reply.popped (some p)) ++
            List.replicate (3 - b.items.length) (Reply.popped none) ∧
        ((b.items.take 3).map Prod.snd).Pairwise fun p q =>
          (sequenceNumber some p - 0).toNat ≤ (sequenceNumber some q - 0).toNat) := by
  intro b
  have h : Inv some b := Inv.run inv_create _
  -- the linked packets are among the three added, all below `2^15`
  have hwin : ∀ x ∈ b.items, (sequenceNumber some x.2 - 0).toNat < 2 ^ 15 := by
    refine items_run (Q := fun p => (sequenceNumber some p - 0).toNat < 2 ^ 15) create _ ?_ ?_
    · simp [create]
    · intro packet hp
      simp only [List.mem_cons, Call.add.injEq, List.not_mem_nil, or_false] at hp
      rcases hp with rfl | rfl | rfl <;> decide
  exact ⟨h, hwin, h.pops_sorted 0 hwin 3⟩

/-! ## A packet half the ring away from the tail -/

/-- With packets that are their own sequence numbers: after `0`, adding `0x8000` returns
`false` yet takes a slot and counts it, so `count()` is `2` with one item linked; whatever
calls follow, fewer than `SIZE` slots are ever linked or free again. -/
theorem half_ring_add_leaks_slot (calls : List (Call (BitVec 16))) :
    let b := (Run.run (step some) create [.add 0, .add 0x8000]).1
    let b' := (Run.run (step some) b calls).1
    (Run.run (step some) create [.add 0, .add 0x8000]).2 = [.added true, .added false] ∧
      b.count = 2 ∧ b.items.length = 1 ∧ b'.items.length + b'.freeItems.length < SIZE := by
  intro b b'
  have hrun : (Run.run (step some) create [.add 0, .add 0x8000]).2 = [.added true, .added false] ∧
      b.count = 2 ∧ b.items.length = 1 := by
    decide
  -- the slot taken by the second `add` stays leaked through every later call
  have hleak : 1 ≤ b'.leaked := by
    have hle : b.leaked ≤ b'.leaked := leaked_le_run b calls
    have h1 : b.leaked = 1 := by simp only [leaked, hrun.2.1, hrun.2.2]
    exact h1 ▸ hle
  have hinv : Inv some b' := Inv.run (Inv.run inv_create [.add 0, .add 0x8000]) calls
  have hslots := hinv.length_add_leaked
  exact ⟨hrun.1, hrun.2.1, hrun.2.2, by omega⟩

end JitterBufferList

end MediaBridge.Rtp
