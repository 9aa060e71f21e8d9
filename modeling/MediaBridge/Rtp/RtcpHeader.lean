import MediaBridge.Lib.Buffer
import MediaBridge.Lib.Tlv
import Mathlib.Data.List.Chain

set_option autoImplicit false

/-! # `rtp/RtcpHeader`: RTCP headers and compound packets

An RTCP packet starts with a four-byte header: version (2 bits), padding (1 bit), a 5-bit
count, the packet type, and the length in 32-bit words minus one (network byte order). A
compound packet is a chain of such packets, each starting where the previous one's
`4 * (length + 1)` bytes end. The headers are read from a byte buffer at an offset.

`CompoundRtcpPacket::isValid` walks the chain. Its comment asks for the RFC 3550 rules
(`CompoundRules`): the chain tiles the buffer, every header has version 2, a compound
starts with a sender or receiver report, and only the last packet may be padded. The code
accepts exactly the chains whose padding bits never switch on after an unpadded packet
(`isValid_iff`), the opposite orientation: it rejects a report followed by a padded last
packet (`isValid_rejects_padded_last`).

The constructor of `CompoundRtcpPacket` walks the same chain to find `end()`; iterating
from `begin()` to `end()` visits only headers that fit in the buffer, and stops
(`compound_iteration`).
-/

namespace MediaBridge.Rtp

open Buffer Tlv

/-- `RtcpPacketType::SENDER_REPORT`. -/
def SENDER_REPORT : BitVec 8 := 200
/-- `RtcpPacketType::RECEIVER_REPORT`. -/
def RECEIVER_REPORT : BitVec 8 := 201
/-- `RtcpPacketType::SOURCE_DESCRIPTION`. -/
def SOURCE_DESCRIPTION : BitVec 8 := 202

/-! ## The header at an offset -/

namespace RtcpHeader

/-- `version : 2`, the top two bits of the first byte. -/
def version (p : Bytes) (o : Nat) : BitVec 8 := byteAt p o >>> 6

/-- `padding : 1`, bit 5 of the first byte. -/
def padding (p : Bytes) (o : Nat) : Bool := (byteAt p o >>> 5) &&& 1 == 1

/-- `fmtCount : 5`, the low bits of the first byte. -/
def fmtCount (p : Bytes) (o : Nat) : Nat := (byteAt p o &&& 0x1F).toNat

def packetType (p : Bytes) (o : Nat) : BitVec 8 := byteAt p (o + 1)

/-- `length`, a `nwuint16_t`. -/
def length (p : Bytes) (o : Nat) : Nat := be16 p (o + 2)

/-- `size()`: the header and `length` words. -/
def size (p : Bytes) (o : Nat) : Nat := 4 + length p o * 4

theorem size_pos (p : Bytes) (o : Nat) : 0 < size p o := by
  unfold size; omega

/-- `getPaddingSize()`: the last byte of the packet, when the padding bit is set. -/
def getPaddingSize (p : Bytes) (o : Nat) : Nat :=
  if padding p o then (byteAt p (o + length p o * 4 + 3)).toNat else 0

/-- `RtcpHeader::isValid`. -/
def isValid (p : Bytes) (o : Nat) : Bool :=
  if version p o ≠ 2 then false
  else if padding p o then
    if length p o > 0 then
      decide (length p o * 4 ≥ getPaddingSize p o) && getPaddingSize p o % 4 == 0
    else false
  else true

end RtcpHeader

open RtcpHeader

/-! ## `CompoundRtcpPacket` -/

namespace CompoundRtcpPacket

/-- The loop of `isValid` over the headers after the first; `padding` is the previous
header's padding bit. -/
def isValidLoop (p : Bytes) (length : Nat) (firstPacketType : BitVec 8) (head : Nat)
    (padding : Bool) : Bool :=
  if head < length ∧ version p head = 2 then
    if RtcpHeader.padding p head && !padding then false
    else if firstPacketType ≠ SENDER_REPORT ∧ firstPacketType ≠ RECEIVER_REPORT then false
    else isValidLoop p length firstPacketType (next (size p) head) (RtcpHeader.padding p head)
  else head == length
termination_by length - head
decreasing_by have := lt_next (size_pos p) head; omega

/-- `CompoundRtcpPacket::isValid(p, length)`. -/
def isValid (p : Bytes) (length : Nat) : Bool :=
  if length < 4 ∨ length % 4 ≠ 0 then false
  else if version p 0 ≠ 2 then false
  else isValidLoop p length (packetType p 0) (next (size p) 0) (RtcpHeader.padding p 0)

/-- `_end` after the constructor: the last header of the chain from `_first` that starts at
or before the end of the buffer (`_first` itself for a buffer shorter than a header). -/
def endOffset (p : Bytes) (length : Nat) : Nat :=
  if length < 4 then 0 else lastWithin (size p) (size_pos p) length 0 0

/-- A range-for from `begin()` to `end()` (`it != end()`), with `fuel` steps: the offsets of
the headers visited, or `none` if it has not stopped. -/
def iterateHeaders (p : Bytes) (length fuel : Nat) : Option (List Nat) :=
  iterate (size p) (endOffset p length) fuel 0

end CompoundRtcpPacket

open CompoundRtcpPacket

/-! ## The header chain and the rules for a compound packet -/

/-- The header chain of a buffer of `n` bytes: the headers reached from offset `0` that
start before `n`. -/
def chain (p : Bytes) (n : Nat) : List Nat := walk (size p) (size_pos p) n 0

/-- Where the header chain first reaches or passes `n`. -/
def chainEnd (p : Bytes) (n : Nat) : Nat := walkEnd (size p) (size_pos p) n 0

/-- The rules the comment of `CompoundRtcpPacket::isValid` states (RFC 3550, 6.1): a whole
number of words, a chain of headers that ends exactly at the end, version 2 everywhere, a
report first in a compound packet, and padding only on the last packet. -/
def CompoundRules (p : Bytes) (n : Nat) : Prop :=
  4 ≤ n ∧ n % 4 = 0 ∧ chainEnd p n = n ∧ (∀ o ∈ chain p n, version p o = 2) ∧
    (1 < (chain p n).length → packetType p 0 = SENDER_REPORT ∨ packetType p 0 = RECEIVER_REPORT) ∧
    ∀ o ∈ (chain p n).dropLast, RtcpHeader.padding p o = false

/-- What `isValid` checks of padding: a padded header only after a padded one, starting from
the padding bit `pad` of the header before. -/
def PaddingOrder (pad : Bool) (paddings : List Bool) : Prop :=
  List.IsChain (fun a b => b = true → a = true) (pad :: paddings)

/-- **The loop of `isValid`**, from a header `head` whose predecessor had padding bit `pad`:
it accepts exactly when the rest of the chain ends at the end of the buffer, has version 2
throughout, follows a report if it is not empty, and keeps `PaddingOrder`. -/
theorem isValidLoop_iff (p : Bytes) (n : Nat) (t : BitVec 8) (head : Nat) (pad : Bool) :
    isValidLoop p n t head pad = true ↔
      walkEnd (size p) (size_pos p) n head = n ∧
      (∀ o ∈ walk (size p) (size_pos p) n head, version p o = 2) ∧
      (walk (size p) (size_pos p) n head ≠ [] → t = SENDER_REPORT ∨ t = RECEIVER_REPORT) ∧
      PaddingOrder pad ((walk (size p) (size_pos p) n head).map (RtcpHeader.padding p)) := by
  fun_induction isValidLoop p n t head pad with
  | case1 head pad hcont hbad =>
      -- a padded header after an unpadded one
      rw [walk_of_lt hcont.1]
      simp only [Bool.false_eq_true, false_iff, not_and]
      intro _ _ _ hord
      simp only [List.map_cons, PaddingOrder, List.isChain_cons_cons] at hord
      simp only [Bool.and_eq_true, Bool.not_eq_eq_eq_not, Bool.not_true] at hbad
      have := hord.1 hbad.1
      rw [hbad.2] at this
      exact Bool.false_ne_true this
  | case2 head pad hcont _ htype =>
      rw [walk_of_lt hcont.1]
      simp only [Bool.false_eq_true, false_iff, not_and]
      intro _ _ ht
      have := ht (List.cons_ne_nil _ _)
      tauto
  | case3 head pad hcont hpad htype ih =>
      rw [ih, walk_of_lt hcont.1, walkEnd_of_lt hcont.1]
      simp only [List.mem_cons, forall_eq_or_imp, List.map_cons, PaddingOrder, List.isChain_cons_cons]
      constructor
      · rintro ⟨hend, hver, -, hord⟩
        refine ⟨hend, ⟨hcont.2, hver⟩, fun _ => by tauto, ?_, hord⟩
        intro hp
        simp only [hp, Bool.true_and, Bool.not_eq_eq_eq_not, Bool.not_true] at hpad
        cases pad <;> simp_all
      · rintro ⟨hend, ⟨-, hver⟩, -, -, hord⟩
        exact ⟨hend, hver, fun _ => by tauto, hord⟩
  | case4 head pad hstop =>
      by_cases hlt : head < n
      · -- a header with another version inside the buffer ends the loop early
        have hver : version p head ≠ 2 := fun h => hstop ⟨hlt, h⟩
        rw [walk_of_lt hlt]
        simp only [beq_iff_eq, List.mem_cons, forall_eq_or_imp]
        constructor
        · intro h; omega
        · rintro ⟨-, ⟨h, -⟩, -⟩; exact absurd h hver
      · rw [walk_of_le (by omega), walkEnd_of_le (by omega)]
        simp only [List.not_mem_nil, false_implies, implies_true, ne_eq, not_true_eq_false,
          List.map_nil, true_and, PaddingOrder, beq_iff_eq]
        exact ⟨fun h => ⟨h, .singleton pad⟩, And.left⟩

/-- The chain of a buffer of at least one header starts at `0`. -/
theorem chain_of_pos {p : Bytes} {n : Nat} (h : 0 < n) :
    chain p n = 0 :: walk (size p) (size_pos p) n (next (size p) 0) := by
  rw [chain, walk_of_lt h]

/-- **What `CompoundRtcpPacket::isValid` accepts**: a whole number of words, a chain that
ends exactly at the end, version 2 throughout, a report first when there is more than one
packet, and padding bits that never switch on after an unpadded packet. -/
theorem isValid_iff (p : Bytes) (n : Nat) :
    CompoundRtcpPacket.isValid p n = true ↔
      4 ≤ n ∧ n % 4 = 0 ∧ chainEnd p n = n ∧ (∀ o ∈ chain p n, version p o = 2) ∧
        (1 < (chain p n).length →
          packetType p 0 = SENDER_REPORT ∨ packetType p 0 = RECEIVER_REPORT) ∧
        List.IsChain (fun a b => b = true → a = true) ((chain p n).map (RtcpHeader.padding p)) := by
  unfold CompoundRtcpPacket.isValid
  by_cases hn : n < 4 ∨ n % 4 ≠ 0
  · rw [if_pos hn]
    simp only [Bool.false_eq_true, false_iff, not_and]
    intro h4 h0
    omega
  · rw [if_neg hn]
    have hpos : 0 < n := by omega
    rw [chainEnd, walkEnd_of_lt hpos, chain_of_pos hpos]
    simp only [List.mem_cons, forall_eq_or_imp, List.length_cons, List.map_cons]
    by_cases hv : version p 0 = 2
    · rw [if_neg (by simpa using hv), isValidLoop_iff]
      constructor
      · rintro ⟨hend, hver, htype, hord⟩
        refine ⟨by omega, by omega, hend, ⟨hv, hver⟩, fun hlen => htype (by
          intro hnil; rw [hnil] at hlen; simp at hlen), hord⟩
      · rintro ⟨-, -, hend, ⟨-, hver⟩, htype, hord⟩
        refine ⟨hend, hver, fun hne => htype ?_, hord⟩
        cases hw : walk (size p) (size_pos p) n (next (size p) 0) with
        | nil => exact absurd hw hne
        | cons _ _ => simp
    · rw [if_pos (by simpa using hv)]
      simp only [Bool.false_eq_true, false_iff, not_and]
      intro _ _ _ h
      exact absurd h.1 hv

/-- A list of at least two elements ends with a last pair. -/
theorem exists_last_pair {α : Type} {l : List α} (h : 1 < l.length) :
    ∃ pre a b, l = pre ++ [a, b] := by
  rcases List.eq_nil_or_concat' l with rfl | ⟨L, b, rfl⟩
  · simp at h
  · rcases List.eq_nil_or_concat' L with rfl | ⟨pre, a, rfl⟩
    · simp at h
    · exact ⟨pre, a, b, by simp⟩

/-- **A compound packet with a padded last packet is rejected**, although the rules allow
padding there: the loop refuses a padded header after an unpadded one, and every header
before the last is unpadded. -/
theorem isValid_rejects_padded_last (p : Bytes) (n : Nat) (hrules : CompoundRules p n)
    (hmulti : 1 < (chain p n).length)
    (hpad : ∀ o ∈ (chain p n).getLast?, RtcpHeader.padding p o = true) :
    CompoundRtcpPacket.isValid p n = false := by
  obtain ⟨-, -, -, -, -, hlast⟩ := hrules
  obtain ⟨pre, a, b, hsplit⟩ := exists_last_pair hmulti
  rw [Bool.eq_false_iff]
  intro hvalid
  obtain ⟨-, -, -, -, -, hord⟩ := (isValid_iff p n).mp hvalid
  rw [hsplit] at hord hlast hpad
  simp only [List.map_append, List.map_cons, List.map_nil, List.isChain_append_cons_cons] at hord
  -- the last two headers: `a` is unpadded by the rules, `b` padded
  have ha : RtcpHeader.padding p a = false := hlast a (by simp)
  have hb : RtcpHeader.padding p b = true := hpad b (by simp)
  have := hord.2.1 hb
  rw [ha] at this
  exact Bool.false_ne_true this

/-- A receiver report (8 bytes) followed by a BYE of 12 bytes whose last 8 are padding. -/
def paddedLastCompound : Bytes :=
  [0x80, 201, 0, 1, 0, 0, 0, 1, 0xA0, 203, 0, 2, 0, 0, 0, 0, 0, 0, 0, 8]

theorem chain_paddedLastCompound : chain paddedLastCompound 20 = [0, 8] := by
  have h0 : next (size paddedLastCompound) 0 = 8 := by decide
  have h8 : next (size paddedLastCompound) 8 = 20 := by decide
  rw [chain, walk_of_lt (by decide), h0, walk_of_lt (by decide), h8, walk_of_le (Nat.le_refl _)]

/-- The report and the padded BYE follow the compound rules, and `isValid` rejects them. -/
theorem isValid_rejects_padded_bye :
    CompoundRules paddedLastCompound 20 ∧ CompoundRtcpPacket.isValid paddedLastCompound 20 = false := by
  have hend : chainEnd paddedLastCompound 20 = 20 := by
    have h0 : next (size paddedLastCompound) 0 = 8 := by decide
    have h8 : next (size paddedLastCompound) 8 = 20 := by decide
    rw [chainEnd, walkEnd_of_lt (by decide), h0, walkEnd_of_lt (by decide), h8,
      walkEnd_of_le (Nat.le_refl _)]
  have hrules : CompoundRules paddedLastCompound 20 := by
    unfold CompoundRules
    rw [hend, chain_paddedLastCompound]
    decide
  refine ⟨hrules, isValid_rejects_padded_last _ _ hrules ?_ ?_⟩
  · rw [chain_paddedLastCompound]; decide
  · rw [chain_paddedLastCompound]; decide

/-! ## Iterating a compound packet -/

/-- The last header of the chain at or before the end of a buffer of at least one header. -/
theorem endOffset_spec (p : Bytes) {n : Nat} (h : 4 ≤ n) :
    Reaches (size p) 0 (endOffset p n) ∧ endOffset p n ≤ n ∧
      n < next (size p) (endOffset p n) := by
  rw [endOffset, if_neg (by omega)]
  exact lastWithin_spec n 0 0 (Nat.zero_le n)

/-- On a valid buffer `end()` is the end of the buffer. -/
theorem endOffset_of_isValid {p : Bytes} {n : Nat} (h : CompoundRtcpPacket.isValid p n = true) :
    endOffset p n = n := by
  obtain ⟨h4, -, hend, -⟩ := (isValid_iff p n).mp h
  have hr : Reaches (size p) 0 n := by
    have := @reaches_walkEnd (size p) (size_pos p) n 0
    rwa [← chainEnd, hend] at this
  rw [endOffset, if_neg (by omega)]
  exact lastWithin_eq_of_reaches hr (Nat.le_refl n) (lt_next (size_pos p) n)

/-- What iterating a `CompoundRtcpPacket` from `begin()` to `end()` guarantees: the loop stops
within `n + 1` steps, every header visited lies inside the buffer, and on a valid buffer the
headers visited are its chain. -/
def CompoundIterationSafe (p : Bytes) (n : Nat) : Prop :=
  ∃ hs, iterateHeaders p n (n + 1) = some hs ∧ (∀ o ∈ hs, o + RtcpHeader.size p o ≤ n) ∧
    (CompoundRtcpPacket.isValid p n = true → hs = chain p n)

/-- **Iterating any buffer is safe**: `end()` is a point of the chain at or before the end,
so the `!=` loop reaches it, and every header it passes ends at or before it. -/
theorem compound_iteration (p : Bytes) (n : Nat) : CompoundIterationSafe p n := by
  by_cases hn : n < 4
  · -- a buffer shorter than a header: `end()` is `begin()`
    have hinvalid : CompoundRtcpPacket.isValid p n = false := by
      rw [CompoundRtcpPacket.isValid, if_pos (Or.inl hn)]
    refine ⟨[], ?_, by simp, fun h => ?_⟩
    · rw [iterateHeaders, endOffset, if_pos hn, iterate, if_pos rfl]
    · rw [hinvalid] at h; exact absurd h Bool.false_ne_true
  · obtain ⟨hr, hle, -⟩ := endOffset_spec p (by omega : 4 ≤ n)
    refine ⟨walk (size p) (size_pos p) (endOffset p n) 0,
      iterate_of_reaches hr (n + 1) (by omega), ?_, ?_⟩
    · intro o ho
      have := (next_le_of_mem_walk (endOffset p n) 0 o hr ho).1
      unfold next at this
      omega
    · intro hvalid
      rw [endOffset_of_isValid hvalid, chain]

end MediaBridge.Rtp
