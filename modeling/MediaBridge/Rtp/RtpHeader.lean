import MediaBridge.Lib.Buffer
import MediaBridge.Lib.Tlv

set_option autoImplicit false

/-! # `rtp/RtpHeader`: RTP headers and their one-byte header extensions

An RTP packet starts with a twelve-byte header; its first byte holds the version, the padding
and extension bits and the CSRC count (`csrcCount : 4`, `extension : 1` are the low bits of the
bit-field word), its second byte the marker and the payload type. `csrcCount` CSRCs of four bytes
follow, and when the extension bit is set, an `RtpHeaderExtension` at `baseHeaderLength`: a
profile and a length in 32-bit words, both `nwuint16_t`, then the block of `4 * length` bytes.

With the one-byte profile (`0xBEDE`) the block is a chain of `GeneralExtension1Byteheader`
elements: a byte with the id in its high nibble and the data length minus one in its low
nibble, then the data; id `0` is a one-byte padding element and id `15` ends the list.
`extensions()` is the range from the start of the block to where `findExtensionsEnd` stops,
walked by a `TlvIterator` that steps by each element's `size()` until it equals the end.

Offsets are absolute in the packet buffer. The main result is `fromPtr_extension_iteration`:
for every buffer `fromPtr` accepts, the header lies in the buffer, and iterating the extensions
stops, visits only elements that end inside the block, and stops on the first element that would
overrun the block when `isValid()` is false.
-/

namespace MediaBridge.Rtp

open Buffer Tlv

/-- `ExtHeaderIdentifiers::PADDING`. -/
def PADDING : Nat := 0
/-- `ExtHeaderIdentifiers::EOL`. -/
def EOL : Nat := 15

/-- `MIN_RTP_HEADER_SIZE`. -/
def MIN_RTP_HEADER_SIZE : Nat := 12

/-! ## One-byte extension elements -/

namespace GeneralExtension1Byteheader

/-- `getId()`: `_id : 4`, the high nibble of the element's first byte. -/
def getId (p : Bytes) (c : Nat) : Nat := (byteAt p c >>> 4).toNat

/-- `_length : 4`, the low nibble: the data length minus one. -/
def length (p : Bytes) (c : Nat) : Nat := (byteAt p c &&& 0xF).toNat

/-- `size()`: one byte for padding, else the header byte and `_length + 1` data bytes. -/
def size (p : Bytes) (c : Nat) : Nat := if getId p c = PADDING then 1 else 2 + length p c

theorem size_pos (p : Bytes) (c : Nat) : 0 < size p c := by
  unfold size; split <;> omega

end GeneralExtension1Byteheader

open GeneralExtension1Byteheader (getId)

/-! ## The extension header -/

namespace RtpHeaderExtension

/-- `PROFILE::GENERAL1`, the one-byte element profile. -/
def GENERAL1 : Nat := 0xbede

/-- `profile`, a `nwuint16_t` at the start of the extension header at `o`. -/
def profile (p : Bytes) (o : Nat) : Nat := be16 p o

/-- `length`, in 32-bit words, a `nwuint16_t`. -/
def length (p : Bytes) (o : Nat) : Nat := be16 p (o + 2)

/-- `minSize()`: the profile and the length. -/
def minSize : Nat := 4

/-- `size()`. -/
def size (p : Bytes) (o : Nat) : Nat := minSize + length p o * 4

/-- `data`, the start of the block. -/
def data (o : Nat) : Nat := o + minSize

/-- `data + length * sizeof(uint32_t)`, the end of the block. -/
def dataEnd (p : Bytes) (o : Nat) : Nat := data o + length p o * 4

/-- The loop of `findExtensionsEnd(data, dataEnd)` from `cursor`: the end of the elements is an
EOL element, an element that would overrun the block, or the end of the block, moved back to
the start of a run of padding elements right before an EOL or the block's end. -/
def findExtensionsEndLoop (p : Bytes) (dataEnd : Nat) (endCandidate : Option Nat)
    (cursor : Nat) : Nat :=
  if cursor < dataEnd then
    let endCandidate :=
      if getId p cursor = PADDING ∧ endCandidate = none then some cursor else endCandidate
    if getId p cursor = EOL then endCandidate.getD cursor
    else if dataEnd < next (GeneralExtension1Byteheader.size p) cursor then cursor -- corrupt
    else
      findExtensionsEndLoop p dataEnd (if getId p cursor ≠ PADDING then none else endCandidate)
        (next (GeneralExtension1Byteheader.size p) cursor)
  else endCandidate.getD dataEnd
termination_by dataEnd - cursor
decreasing_by have := lt_next (GeneralExtension1Byteheader.size_pos p) cursor; omega

/-- `findExtensionsEnd(data, dataEnd)`. -/
def findExtensionsEnd (p : Bytes) (data dataEnd : Nat) : Nat :=
  findExtensionsEndLoop p dataEnd none data

/-- `extensions()`: the range `(begin, end)` of the one-byte elements, empty for another
profile. -/
def extensions (p : Bytes) (o : Nat) : Nat × Nat :=
  if profile p o ≠ GENERAL1 then (data o, data o)
  else (data o, findExtensionsEnd p (data o) (dataEnd p o))

/-- The loop of `isValid()` from `cursor`. -/
def isValidLoop (p : Bytes) (dataEnd cursor : Nat) : Bool :=
  if cursor < dataEnd then
    if getId p cursor = EOL then true
    else if dataEnd < next (GeneralExtension1Byteheader.size p) cursor then false -- corrupt
    else isValidLoop p dataEnd (next (GeneralExtension1Byteheader.size p) cursor)
  else true
termination_by dataEnd - cursor
decreasing_by have := lt_next (GeneralExtension1Byteheader.size_pos p) cursor; omega

/-- `isValid()`. -/
def isValid (p : Bytes) (o : Nat) : Bool := isValidLoop p (dataEnd p o) (data o)

/-- A range-for over `extensions()` (`it != end()`), with `fuel` steps: the offsets of the
elements visited, or `none` if it has not stopped. -/
def iterateExtensions (p : Bytes) (o fuel : Nat) : Option (List Nat) :=
  iterate (GeneralExtension1Byteheader.size p) (extensions p o).2 fuel (extensions p o).1

end RtpHeaderExtension

/-! ## The header -/

namespace RtpHeader

/-- `csrcCount : 4`, the low nibble of the first byte. -/
def csrcCount (p : Bytes) : Nat := (byteAt p 0 &&& 0xF).toNat

/-- `extension : 1`, bit 4 of the first byte. -/
def extension (p : Bytes) : Bool := (byteAt p 0 >>> 4) &&& 1 == 1

/-- `payloadType : 7`, the low bits of the second byte. -/
def payloadType (p : Bytes) : Nat := (byteAt p 1 &&& 0x7F).toNat

/-- `MIN_RTP_HEADER_SIZE + csrcCount * sizeof(u_int32_t)`. -/
def baseHeaderLength (p : Bytes) : Nat := MIN_RTP_HEADER_SIZE + csrcCount p * 4

/-- `RtpHeader::fromPtr(p, len)`: whether it returns the header rather than `nullptr`. The
source asserts `len >= MIN_RTP_HEADER_SIZE`. -/
def fromPtr (p : Bytes) (len : Nat) : Bool :=
  if !(payloadType p < 64 || payloadType p ≥ 96) || len < baseHeaderLength p ||
      (extension p && len < baseHeaderLength p + RtpHeaderExtension.minSize) then false
  else if extension p then
    !(len < RtpHeaderExtension.size p (baseHeaderLength p) + baseHeaderLength p)
  else true

/-- `headerLength()`. -/
def headerLength (p : Bytes) : Nat :=
  if extension p then baseHeaderLength p + RtpHeaderExtension.size p (baseHeaderLength p)
  else baseHeaderLength p

/-- `getExtensionHeader()`: the offset of the extension header, `nullptr` without one. -/
def getExtensionHeader (p : Bytes) : Option Nat :=
  if extension p then some (baseHeaderLength p) else none

/-- What `fromPtr` accepts: a payload type that is not an RTCP one, and a buffer that holds
the base header and, when the extension bit is set, the whole extension. -/
theorem fromPtr_eq_true_iff (p : Bytes) (len : Nat) :
    fromPtr p len = true ↔
      (payloadType p < 64 ∨ 96 ≤ payloadType p) ∧ baseHeaderLength p ≤ len ∧
        (extension p = true →
          baseHeaderLength p + RtpHeaderExtension.size p (baseHeaderLength p) ≤ len) := by
  have hmin : RtpHeaderExtension.minSize ≤ RtpHeaderExtension.size p (baseHeaderLength p) := by
    unfold RtpHeaderExtension.size; omega
  unfold fromPtr
  cases hext : extension p with
  | false => simp
  | true =>
      -- the extension header has to fit before its size is read, then the whole extension
      by_cases hpt : payloadType p < 64 ∨ 96 ≤ payloadType p
      · simp
        omega
      · simp [hpt]

theorem getExtensionHeader_eq_some_iff (p : Bytes) (o : Nat) :
    getExtensionHeader p = some o ↔ extension p = true ∧ o = baseHeaderLength p := by
  unfold getExtensionHeader
  cases extension p <;> simp [eq_comm]

/-- **An accepted header lies in the buffer.** -/
theorem headerLength_le_of_fromPtr {p : Bytes} {len : Nat} (h : fromPtr p len = true) :
    headerLength p ≤ len := by
  obtain ⟨-, hbase, hext⟩ := (fromPtr_eq_true_iff p len).mp h
  unfold headerLength
  split
  · next he => exact hext he
  · exact hbase

end RtpHeader

/-! ## The loops over the elements -/

namespace RtpHeaderExtension

section Loops

variable {p : Bytes} {dataEnd : Nat}

/-- Where a run that meets no EOL element and no overrunning element goes on. -/
theorem findExtensionsEndLoop_of_step {cand : Option Nat} {cursor : Nat}
    (hlt : cursor < dataEnd) (heol : getId p cursor ≠ EOL)
    (hfit : next (GeneralExtension1Byteheader.size p) cursor ≤ dataEnd) :
    findExtensionsEndLoop p dataEnd cand cursor =
      findExtensionsEndLoop p dataEnd
        (if getId p cursor ≠ PADDING then none
          else if getId p cursor = PADDING ∧ cand = none then some cursor else cand)
        (next (GeneralExtension1Byteheader.size p) cursor) := by
  rw [findExtensionsEndLoop, if_pos hlt, if_neg heol, if_neg (by omega)]

theorem findExtensionsEndLoop_of_overrun {cand : Option Nat} {cursor : Nat}
    (hlt : cursor < dataEnd) (heol : getId p cursor ≠ EOL)
    (hover : dataEnd < next (GeneralExtension1Byteheader.size p) cursor) :
    findExtensionsEndLoop p dataEnd cand cursor = cursor := by
  rw [findExtensionsEndLoop, if_pos hlt, if_neg heol, if_pos hover]

/-- The end candidate after looking at `cursor` is `cursor` or the one before. -/
theorem mem_endCandidate {cand : Option Nat} {cursor c : Nat}
    (hc : c ∈ if getId p cursor = PADDING ∧ cand = none then some cursor else cand) :
    c = cursor ∨ c ∈ cand := by
  split at hc
  · exact .inl (Option.mem_some_iff.mp hc).symm
  · exact .inr hc

/-- **`findExtensionsEnd` stops on a point of the element chain inside the block.** Every value
the loop can return (the cursor, the end of the block it reaches exactly, or a candidate that
was a cursor before) is reached from the start. -/
theorem findExtensionsEndLoop_reaches (data : Nat) :
    ∀ (cand : Option Nat) (cursor : Nat),
      Reaches (GeneralExtension1Byteheader.size p) data cursor → cursor ≤ dataEnd →
      (∀ c ∈ cand, Reaches (GeneralExtension1Byteheader.size p) data c ∧ c ≤ dataEnd) →
      Reaches (GeneralExtension1Byteheader.size p) data
          (findExtensionsEndLoop p dataEnd cand cursor) ∧
        findExtensionsEndLoop p dataEnd cand cursor ≤ dataEnd := by
  intro cand cursor
  fun_induction findExtensionsEndLoop p dataEnd cand cursor with
  | case1 cand cursor hlt cand' heol =>
      -- an EOL element: the candidate, or the cursor itself
      intro hr hle hcand
      cases hc : cand' with
      | none => exact ⟨hr, hle⟩
      | some c =>
          rcases mem_endCandidate hc with rfl | hc
          · exact ⟨hr, hle⟩
          · exact hcand c hc
  | case2 cand cursor hlt heol hover => intro hr hle _; exact ⟨hr, hle⟩
  | case3 cand cursor hlt cand' heol hfit ih =>
      intro hr hle hcand
      refine ih (hr.trans (.step (.refl _))) (by omega) ?_
      intro c hc
      split at hc
      · cases hc
      · rcases mem_endCandidate hc with rfl | hc
        · exact ⟨hr, hle⟩
        · exact hcand c hc
  | case4 cand cursor hge =>
      -- the loop ran to the end of the block, which it reached exactly
      intro hr hle hcand
      have heq : cursor = dataEnd := by omega
      subst heq
      cases hc : cand with
      | none => exact ⟨hr, Nat.le_refl _⟩
      | some c => exact hcand c hc

/-- **When `isValid()` fails, `findExtensionsEnd` stops on the overrunning element**: both
loops walk the same elements and stop on the same EOL or overrunning one, and
`findExtensionsEnd` returns the cursor itself on an overrun. -/
theorem findExtensionsEndLoop_of_isValidLoop (cursor : Nat) :
    isValidLoop p dataEnd cursor = false → ∀ cand : Option Nat,
      Reaches (GeneralExtension1Byteheader.size p) cursor
          (findExtensionsEndLoop p dataEnd cand cursor) ∧
        findExtensionsEndLoop p dataEnd cand cursor < dataEnd ∧
        dataEnd <
          next (GeneralExtension1Byteheader.size p) (findExtensionsEndLoop p dataEnd cand cursor) := by
  fun_induction isValidLoop p dataEnd cursor with
  | case1 cursor hlt heol => intro h; cases h
  | case2 cursor hlt heol hover =>
      intro _ cand
      rw [findExtensionsEndLoop_of_overrun hlt heol hover]
      exact ⟨.refl _, hlt, hover⟩
  | case3 cursor hlt heol hfit ih =>
      intro h cand
      rw [findExtensionsEndLoop_of_step hlt heol (by omega)]
      obtain ⟨hr, hrest⟩ := ih h _
      exact ⟨.step hr, hrest⟩
  | case4 cursor hge => intro h; cases h

end Loops

/-! ## Iterating the extensions -/

/-- What iterating `extensions()` of the extension header at `o` guarantees: the end is reached
from the begin by element steps and lies in the block; a range-for over it stops within
`4 * length + 1` steps; every element it visits ends inside the block; and when `isValid()` is
false, the element `c` that first overruns the block is at or after the end, and is the end
itself for the one-byte profile. -/
def ExtensionIterationSafe (p : Bytes) (o : Nat) : Prop :=
  Reaches (GeneralExtension1Byteheader.size p) (extensions p o).1 (extensions p o).2 ∧
    (extensions p o).2 ≤ dataEnd p o ∧
    (∃ cs, iterateExtensions p o (length p o * 4 + 1) = some cs ∧
      ∀ c ∈ cs, data o ≤ c ∧ next (GeneralExtension1Byteheader.size p) c ≤ dataEnd p o) ∧
    (isValid p o = false → ∃ c, Reaches (GeneralExtension1Byteheader.size p) (extensions p o).2 c ∧
      c < dataEnd p o ∧ dataEnd p o < next (GeneralExtension1Byteheader.size p) c ∧
      (profile p o = GENERAL1 → c = (extensions p o).2))

/-- The extension at any offset iterates safely. -/
theorem extensionIterationSafe (p : Bytes) (o : Nat) : ExtensionIterationSafe p o := by
  have hstart : data o ≤ dataEnd p o := by unfold dataEnd; omega
  -- the end and its place on the chain, for either profile
  have hend : Reaches (GeneralExtension1Byteheader.size p) (data o) (extensions p o).2 ∧
      (extensions p o).2 ≤ dataEnd p o := by
    unfold extensions
    split
    · exact ⟨.refl _, hstart⟩
    · exact findExtensionsEndLoop_reaches (data o) none (data o) (.refl _) hstart (by simp)
  have hbegin : (extensions p o).1 = data o := by unfold extensions; split <;> rfl
  rw [ExtensionIterationSafe, hbegin]
  refine ⟨hend.1, hend.2, ?_, ?_⟩
  · refine ⟨walk (GeneralExtension1Byteheader.size p) (GeneralExtension1Byteheader.size_pos p)
      (extensions p o).2 (data o), ?_, ?_⟩
    · rw [iterateExtensions, hbegin]
      exact iterate_of_reaches hend.1 _ (by unfold dataEnd at hend; omega)
    · intro c hc
      exact ⟨(mem_walk _ _ c hc).1, ((next_le_of_mem_walk _ _ c hend.1 hc).1).trans hend.2⟩
  · intro hinvalid
    obtain ⟨hr, hlt, hover⟩ := findExtensionsEndLoop_of_isValidLoop (data o) hinvalid none
    refine ⟨findExtensionsEndLoop p (dataEnd p o) none (data o), ?_, hlt, hover, ?_⟩
    · -- for another profile the range is empty and the overrun lies ahead of its end
      unfold extensions
      split
      · exact hr
      · exact .refl _
    · intro hprof
      unfold extensions
      rw [if_neg (by simpa using hprof)]
      rfl

end RtpHeaderExtension

open RtpHeaderExtension (dataEnd data ExtensionIterationSafe extensionIterationSafe)
open RtpHeader

/-- **Iterating the extensions of an accepted packet.** For every buffer `fromPtr` accepts, the
header lies in the buffer and so does the extension block, and iterating `extensions()` is
safe (`ExtensionIterationSafe`). -/
theorem fromPtr_extension_iteration (p : Bytes) (len : Nat) (h : fromPtr p len = true) :
    headerLength p ≤ len ∧
      ∀ o, getExtensionHeader p = some o → dataEnd p o ≤ len ∧ ExtensionIterationSafe p o := by
  refine ⟨headerLength_le_of_fromPtr h, ?_⟩
  intro o ho
  obtain ⟨hext, rfl⟩ := (getExtensionHeader_eq_some_iff p o).mp ho
  have hlen := headerLength_le_of_fromPtr h
  rw [headerLength, if_pos hext] at hlen
  refine ⟨?_, extensionIterationSafe p _⟩
  -- the block ends where the extension does
  unfold dataEnd data
  unfold RtpHeaderExtension.size at hlen
  omega

/-- A packet of version 2 and payload type 96 with a one-word one-byte extension block: an
element of id 1 with one data byte, then two padding bytes. -/
def oneElementPacket : Bytes :=
  [0x90, 96, 0, 1, 0, 0, 0, 1, 0, 0, 0, 1, 0xBE, 0xDE, 0, 1, 0x10, 0xAA, 0, 0]

theorem fromPtr_extension_iteration_oneElement :
    fromPtr oneElementPacket 20 = true ∧
      (headerLength oneElementPacket ≤ 20 ∧
        ∀ o, getExtensionHeader oneElementPacket = some o →
          dataEnd oneElementPacket o ≤ 20 ∧ ExtensionIterationSafe oneElementPacket o) :=
  ⟨by decide, fromPtr_extension_iteration oneElementPacket 20 (by decide)⟩

end MediaBridge.Rtp
