import MediaBridge.Lib.Buffer
import MediaBridge.Lib.Tlv

set_option autoImplicit false

/-! # `transport/sctp/Sctprotocol`: reading SCTP packets

An SCTP packet is a twelve-byte common header (ports, verification tag, checksum) and a chain
of chunks, each a type, flags and a `nwuint16_t` length, padded to a whole number of words
(`ChunkField::size()`). Some chunks hold a chain of parameters of the same shape
(`ChunkParameter::size()`). The range-for loops over `chunks()`, `params()` and `causes()` use a
`TlvIterator` that steps by each item's `size()` and stops when it equals the end.

`SctpPacket::isValid` checks the size, the CRC32c checksum and the chunks one by one. A length
field of `0` gives a chunk of size `0`, so the iterator does not move: with a nonzero
verification tag `isValid` never returns (`isValidLoop_of_size_eq_zero`,
`isValid_zero_length_chunk_diverges`). With a zero tag, an INIT chunk first makes `isValid`
return `true` before the other chunks are looked at, so a later search of the chunks, or of the
INIT chunk's parameters, need not stop (`isValid_init_early_exit`). When `isValid` returns
`true` for a nonzero tag, iterating the chunks stops and visits only chunks inside the packet
(`chunks_iteration_of_isValid`).

Offsets are absolute in the packet buffer. A loop that may not stop is modelled with fuel: it
gives `none` when it has not stopped within the fuel. The CRC32c function itself is a
parameter `crc32c`: what is proved holds for every checksum function, so for every checksum a
sender may compute.
-/

namespace MediaBridge.Transport.Sctp

open Buffer Tlv

/-- `ChunkType::INIT`. -/
def INIT : Nat := 1
/-- `ChunkType::COOKIE_ECHO`. -/
def COOKIE_ECHO : Nat := 10

/-- A length rounded up to whole 32-bit words, as `ChunkParameter::size()` and
`ChunkField::size()` compute it from their `length` field. -/
def paddedSize (length : Nat) : Nat :=
  let residual := length % 4
  length + (if residual = 0 then 0 else 4 - residual)

/-! ## Headers, chunks and parameters -/

namespace CommonHeader

/-- `sizeof(CommonHeader)`. -/
def size : Nat := 12

/-- `verificationTag`, a `nwuint32_t`. -/
def verificationTag (p : Bytes) : Nat := be32 p 4

/-- `checksum`, a `uint32_t` read in host order ("how it is read in usctp"). -/
def checksum (p : Bytes) : Nat := le32 p 8

end CommonHeader

namespace ChunkField

/-- `BASE_HEADER_SIZE`: type, flags and length. -/
def BASE_HEADER_SIZE : Nat := 4

/-- `header.type` of the chunk at `c`. -/
def type (p : Bytes) (c : Nat) : Nat := (byteAt p c).toNat

/-- `header.length`, a `nwuint16_t`. -/
def length (p : Bytes) (c : Nat) : Nat := be16 p (c + 2)

/-- `ChunkField::size()`. -/
def size (p : Bytes) (c : Nat) : Nat := paddedSize (length p c)

/-- `params()`: from after the header to the end of the chunk. -/
def params (p : Bytes) (c : Nat) : Nat × Nat := (c + BASE_HEADER_SIZE, c + size p c)

end ChunkField

namespace ChunkParameter

/-- `length`, a `nwuint16_t` after the type. -/
def length (p : Bytes) (q : Nat) : Nat := be16 p (q + 2)

/-- `ChunkParameter::size()`. -/
def size (p : Bytes) (q : Nat) : Nat := paddedSize (length p q)

end ChunkParameter

/-- `InitChunk::params()`: from after `initTSN`, twenty bytes into the chunk, to its end. -/
def InitChunk.params (p : Bytes) (c : Nat) : Nat × Nat := (c + 20, c + ChunkField.size p c)

/-- `AbortChunk::causes()`: the error causes, parameters from after the chunk header. -/
def AbortChunk.causes (p : Bytes) (c : Nat) : Nat × Nat :=
  (c + ChunkField.BASE_HEADER_SIZE, c + ChunkField.size p c)

/-- A range-for over parameters in `range`, with `fuel` steps: the parameters visited, or
`none` if it has not stopped. -/
def iterateParams (p : Bytes) (range : Nat × Nat) (fuel : Nat) : Option (List Nat) :=
  iterate (ChunkParameter.size p) range.2 fuel range.1

/-! ## `SctpPacket` -/

namespace SctpPacket

/-- `chunks()`: from after the common header to the end of the packet. -/
def chunks (packetSize : Nat) : Nat × Nat := (CommonHeader.size, packetSize)

/-- A range-for over `chunks()`, with `fuel` steps. -/
def iterateChunks (p : Bytes) (packetSize fuel : Nat) : Option (List Nat) :=
  iterate (ChunkField.size p) (chunks packetSize).2 fuel (chunks packetSize).1

/-- `calculateCheckSum()`: the CRC32c of the header up to the checksum, a zero word, then the
rest of the packet. -/
def calculateCheckSum (crc32c : Bytes → Nat) (p : Bytes) (packetSize : Nat) : Nat :=
  crc32c (p.take 8 ++ [0, 0, 0, 0] ++ (p.drop CommonHeader.size).take (packetSize - CommonHeader.size)) %
    4294967296

/-- The loop of `isValid()` over `chunks()` from the chunk at `s`, with `index` chunks before
it: the iterator stands where `s` says, since both start after the common header and move by
`chunk.size()`. `none` when it has not stopped within `fuel` chunks. -/
def isValidLoop (p : Bytes) (packetSize tag : Nat) : Nat → Nat → Nat → Option Bool
  | 0, _, _ => none
  | fuel + 1, s, index =>
      if s = packetSize then some true
      else if packetSize < s + ChunkField.size p s then some false
      else if ChunkField.type p s = INIT ∧ tag = 0 ∧ index = 0 then some true
      else if tag = 0 then some false
      else isValidLoop p packetSize tag fuel (s + ChunkField.size p s) (index + 1)

/-- `SctpPacket::isValid()`, for a packet of `packetSize` bytes, with `fuel` chunks. -/
def isValid (crc32c : Bytes → Nat) (p : Bytes) (packetSize fuel : Nat) : Option Bool :=
  if packetSize < CommonHeader.size ∨ packetSize % 4 ≠ 0 then some false
  else if CommonHeader.checksum p ≠ calculateCheckSum crc32c p packetSize then some false
  else isValidLoop p packetSize (CommonHeader.verificationTag p) fuel CommonHeader.size 0

/-- The loop of `getChunk(type)` over the chunks from `c`: the first chunk of that type, or
`nullptr` at the end; `none` when it has not stopped within `fuel` chunks. -/
def getChunkLoop (p : Bytes) (type stop : Nat) : Nat → Nat → Option (Option Nat)
  | 0, _ => none
  | fuel + 1, c =>
      if c = stop then some none
      else if ChunkField.type p c = type then some (some c)
      else getChunkLoop p type stop fuel (next (ChunkField.size p) c)

/-- `getChunk(type)`, with `fuel` chunks. -/
def getChunk (p : Bytes) (packetSize type fuel : Nat) : Option (Option Nat) :=
  getChunkLoop p type (chunks packetSize).2 fuel (chunks packetSize).1

end SctpPacket

open SctpPacket

/-! ## The loop of `isValid` -/

/-- **A chunk of size `0` stops `isValid` for good**: with a nonzero tag the chunk fits, is not
taken for an INIT, and the loop comes back to it, for any fuel. -/
theorem isValidLoop_of_size_eq_zero {p : Bytes} {packetSize tag s : Nat} (htag : tag ≠ 0)
    (hs : s < packetSize) (hz : ChunkField.size p s = 0) :
    ∀ fuel index, isValidLoop p packetSize tag fuel s index = none
  | 0, _ => rfl
  | fuel + 1, index => by
      rw [isValidLoop, if_neg (by omega), if_neg (by omega), if_neg (by omega), if_neg htag, hz,
        Nat.add_zero]
      exact isValidLoop_of_size_eq_zero htag hs hz fuel (index + 1)

/-- **What a nonzero tag makes `isValid` check**: when its loop returns `true`, the chunks from
`s` reach the end of the packet, and iterating them with the same fuel stops after visiting
only chunks that end inside the packet. -/
theorem iterate_of_isValidLoop {p : Bytes} {packetSize tag : Nat} (htag : tag ≠ 0) :
    ∀ fuel s index, isValidLoop p packetSize tag fuel s index = some true →
      ∃ cs, iterate (ChunkField.size p) packetSize fuel s = some cs ∧
        ∀ c ∈ cs, s ≤ c ∧ next (ChunkField.size p) c ≤ packetSize
  | 0, _, _, h => by cases h
  | fuel + 1, s, index, h => by
      rw [isValidLoop] at h
      by_cases hend : s = packetSize
      · -- the iterator is at the end
        refine ⟨[], by rw [iterate, if_pos hend], by simp⟩
      rw [if_neg hend] at h
      by_cases hover : packetSize < s + ChunkField.size p s
      · rw [if_pos hover] at h; cases h
      rw [if_neg hover, if_neg (by omega), if_neg htag] at h
      -- the chunk fits; the rest is the loop from the next chunk
      obtain ⟨cs, hcs, hin⟩ := iterate_of_isValidLoop htag fuel _ (index + 1) h
      refine ⟨s :: cs, ?_, ?_⟩
      · rw [iterate, if_neg hend]
        unfold next
        rw [hcs]
        rfl
      · intro c hc
        rcases List.mem_cons.mp hc with rfl | hc
        · unfold next; omega
        · have := hin c hc
          omega

/-- **Iterating the chunks of a packet `isValid` accepts with a nonzero tag** stops within the
fuel `isValid` used, and visits only chunks lying inside `[12, packetSize)`. -/
theorem chunks_iteration_of_isValid (crc32c : Bytes → Nat) {p : Bytes} {packetSize fuel : Nat}
    (h : isValid crc32c p packetSize fuel = some true) (htag : CommonHeader.verificationTag p ≠ 0) :
    ∃ cs, iterateChunks p packetSize fuel = some cs ∧
      ∀ c ∈ cs, CommonHeader.size ≤ c ∧ next (ChunkField.size p) c ≤ packetSize := by
  unfold isValid at h
  split at h
  · cases h
  split at h
  · cases h
  exact iterate_of_isValidLoop htag fuel CommonHeader.size 0 h

/-- A packet of sixteen bytes with tag `1`, a zero checksum under a zero CRC, and one DATA chunk
of four bytes. -/
theorem chunks_iteration_of_isValid_one_chunk :
    let p : Bytes := [0x13, 0x88, 0x13, 0x88, 0, 0, 0, 1, 0, 0, 0, 0, 0, 0, 0, 4]
    isValid (fun _ => 0) p 16 16 = some true ∧ CommonHeader.verificationTag p ≠ 0 ∧
      ∃ cs, iterateChunks p 16 16 = some cs ∧
        ∀ c ∈ cs, CommonHeader.size ≤ c ∧ next (ChunkField.size p) c ≤ 16 := by
  intro p
  have h : isValid (fun _ => 0) p 16 16 = some true := by decide
  have htag : CommonHeader.verificationTag p ≠ 0 := by decide
  exact ⟨h, htag, chunks_iteration_of_isValid (fun _ => 0) h htag⟩

/-- A search of the chunks that meets a chunk of size `0` of another type before the end never
stops. -/
theorem getChunkLoop_of_size_eq_zero {p : Bytes} {type stop c : Nat} (hne : c ≠ stop)
    (htype : ChunkField.type p c ≠ type) (hz : ChunkField.size p c = 0) :
    ∀ fuel, getChunkLoop p type stop fuel c = none
  | 0 => rfl
  | fuel + 1 => by
      have hnext : next (ChunkField.size p) c = c := by unfold next; omega
      rw [getChunkLoop, if_neg hne, if_neg htype, hnext]
      exact getChunkLoop_of_size_eq_zero hne htype hz fuel

/-! ## Packets a sender can build -/

/-- A packet as a sender builds it: the first eight bytes of the header, the checksum that
`crc32c` gives, then the chunks. -/
def withChecksum (crc32c : Bytes → Nat) (headerStart chunks : Bytes) : Bytes :=
  headerStart ++ le32Bytes (crc32c (headerStart ++ [0, 0, 0, 0] ++ chunks)) ++ chunks

/-- The checksum of such a packet is right, whatever the CRC function. -/
theorem checksum_withChecksum (crc32c : Bytes → Nat) (headerStart chunks : Bytes)
    (h8 : headerStart.length = 8) :
    CommonHeader.checksum (withChecksum crc32c headerStart chunks) =
      calculateCheckSum crc32c (withChecksum crc32c headerStart chunks) (12 + chunks.length) := by
  have hread := le32_le32Bytes headerStart chunks (crc32c (headerStart ++ [0, 0, 0, 0] ++ chunks))
  rw [h8] at hread
  unfold CommonHeader.checksum calculateCheckSum withChecksum
  rw [hread]
  -- the CRC's input is read back from the packet: the header start, then the chunks
  have htake : (headerStart ++ le32Bytes (crc32c (headerStart ++ [0, 0, 0, 0] ++ chunks)) ++
      chunks).take 8 = headerStart := by
    rw [List.append_assoc, List.take_append_of_le_length (by omega), List.take_of_length_le (by omega)]
  have hdrop : (headerStart ++ le32Bytes (crc32c (headerStart ++ [0, 0, 0, 0] ++ chunks)) ++
      chunks).drop CommonHeader.size = chunks :=
    List.drop_left' (by simp [h8, CommonHeader.size])
  have hlen : 12 + chunks.length - CommonHeader.size = chunks.length := by
    rw [CommonHeader.size, Nat.add_sub_cancel_left]
  rw [htake, hdrop, hlen, List.take_length]

section Built

variable (crc32c : Bytes → Nat) (headerStart chunks : Bytes)
  (h8 : headerStart.length = 8)
include h8

theorem byteAt_withChecksum_of_lt {i : Nat} (hi : i < 8) :
    byteAt (withChecksum crc32c headerStart chunks) i = byteAt headerStart i := by
  unfold withChecksum
  rw [List.append_assoc, byteAt_append_left _ _ (by omega)]

theorem byteAt_withChecksum_chunks (i : Nat) :
    byteAt (withChecksum crc32c headerStart chunks) (12 + i) = byteAt chunks i := by
  have h12 : (headerStart ++ le32Bytes (crc32c (headerStart ++ [0, 0, 0, 0] ++ chunks))).length =
      12 := by
    simp [h8]
  unfold withChecksum
  rw [← h12, byteAt_append_right]

/-- The tag is read from the header start. -/
theorem verificationTag_withChecksum :
    CommonHeader.verificationTag (withChecksum crc32c headerStart chunks) =
      CommonHeader.verificationTag headerStart := by
  have h := fun i (hi : i < 8) => byteAt_withChecksum_of_lt crc32c headerStart chunks h8 hi
  unfold CommonHeader.verificationTag be32 be16
  rw [h 4 (by omega), h (4 + 1) (by omega), h (4 + 2) (by omega), h (4 + 2 + 1) (by omega)]

/-- A chunk is read from the chunks, twelve bytes on. -/
theorem chunk_withChecksum (c : Nat) :
    ChunkField.type (withChecksum crc32c headerStart chunks) (12 + c) = ChunkField.type chunks c ∧
      ChunkField.size (withChecksum crc32c headerStart chunks) (12 + c) =
        ChunkField.size chunks c := by
  have h := byteAt_withChecksum_chunks crc32c headerStart chunks h8
  constructor
  · unfold ChunkField.type; rw [h]
  · simp only [ChunkField.size, ChunkField.length, be16, Nat.add_assoc, h]

end Built

/-! ## A chunk of length zero -/

/-- The first eight header bytes: ports 5000 and verification tag 1. -/
def taggedHeaderStart : Bytes := [0x13, 0x88, 0x13, 0x88, 0, 0, 0, 1]

/-- A packet of 16 bytes with a right checksum and a nonzero verification tag, holding one
chunk of type DATA whose length field is `0`. -/
def zeroLengthChunkPacket (crc32c : Bytes → Nat) : Bytes :=
  withChecksum crc32c taggedHeaderStart [0, 0, 0, 0]

/-- **`isValid` does not return** on a 16-byte packet with a right checksum, a nonzero
verification tag and a chunk whose length field is `0`: for every CRC function and every fuel
its loop has not stopped. -/
theorem isValid_zero_length_chunk_diverges (crc32c : Bytes → Nat) (fuel : Nat) :
    isValid crc32c (zeroLengthChunkPacket crc32c) 16 fuel = none := by
  have hsum : CommonHeader.checksum (zeroLengthChunkPacket crc32c) =
      calculateCheckSum crc32c (zeroLengthChunkPacket crc32c) 16 :=
    checksum_withChecksum crc32c taggedHeaderStart [0, 0, 0, 0] rfl
  have htag : CommonHeader.verificationTag (zeroLengthChunkPacket crc32c) = 1 := by
    rw [zeroLengthChunkPacket, verificationTag_withChecksum _ _ _ rfl]; decide
  have hsize : ChunkField.size (zeroLengthChunkPacket crc32c) CommonHeader.size = 0 :=
    (chunk_withChecksum crc32c taggedHeaderStart [0, 0, 0, 0] rfl 0).2
  rw [isValid, if_neg (by decide), if_neg (not_not.mpr hsum), htag]
  exact isValidLoop_of_size_eq_zero (by decide) (by decide) hsize fuel 0

/-! ## An INIT chunk first -/

/-- The first eight header bytes: ports 5000 and verification tag 0. -/
def untaggedHeaderStart : Bytes := [0x13, 0x88, 0x13, 0x88, 0, 0, 0, 0]

/-- A packet of 32 bytes with a right checksum and a zero verification tag: an INIT chunk of
length 16, then a chunk whose length field is `0`. -/
def earlyInitPacket (crc32c : Bytes → Nat) : Bytes :=
  withChecksum crc32c untaggedHeaderStart
    ([1, 0, 0, 16, 0, 0, 0, 1, 0, 0, 0x10, 0, 0, 1, 0, 1] ++ [0, 0, 0, 0])

/-- **`isValid` looks only at a leading INIT chunk**: with a zero tag and a right checksum it
returns `true`, yet a search of the chunks for a COOKIE ECHO never stops (as in
`isCookieEcho`), and neither does a range-for over the INIT chunk's parameters (as in
`SctpServerPort::onInitReceived`), whose begin lies past its end. -/
theorem isValid_init_early_exit (crc32c : Bytes → Nat) :
    (∀ fuel, isValid crc32c (earlyInitPacket crc32c) 32 (fuel + 1) = some true) ∧
      (∀ fuel, getChunk (earlyInitPacket crc32c) 32 COOKIE_ECHO fuel = none) ∧
      (∀ fuel, iterateParams (earlyInitPacket crc32c)
        (InitChunk.params (earlyInitPacket crc32c) CommonHeader.size) fuel = none) := by
  have hsum : CommonHeader.checksum (earlyInitPacket crc32c) =
      calculateCheckSum crc32c (earlyInitPacket crc32c) 32 :=
    checksum_withChecksum crc32c untaggedHeaderStart _ rfl
  have htag : CommonHeader.verificationTag (earlyInitPacket crc32c) = 0 := by
    rw [earlyInitPacket, verificationTag_withChecksum _ _ _ rfl]; decide
  have hfirst := chunk_withChecksum crc32c untaggedHeaderStart
    ([1, 0, 0, 16, 0, 0, 0, 1, 0, 0, 0x10, 0, 0, 1, 0, 1] ++ [0, 0, 0, 0]) rfl 0
  have hinit : ChunkField.type (earlyInitPacket crc32c) CommonHeader.size = INIT ∧
      ChunkField.size (earlyInitPacket crc32c) CommonHeader.size = 16 :=
    ⟨hfirst.1.trans (by decide), hfirst.2.trans (by decide)⟩
  have hzero : ChunkField.type (earlyInitPacket crc32c) 28 = 0 ∧
      ChunkField.size (earlyInitPacket crc32c) 28 = 0 := by
    have h := chunk_withChecksum crc32c untaggedHeaderStart
      ([1, 0, 0, 16, 0, 0, 0, 1, 0, 0, 0x10, 0, 0, 1, 0, 1] ++ [0, 0, 0, 0]) rfl 16
    exact ⟨h.1.trans (by decide), h.2.trans (by decide)⟩
  refine ⟨fun fuel => ?_, fun fuel => ?_, fun fuel => ?_⟩
  · -- the loop stops on the INIT chunk, the first one
    rw [isValid, if_neg (by decide), if_neg (not_not.mpr hsum), htag, isValidLoop,
      if_neg (by decide), hinit.2, if_neg (by decide), if_pos ⟨hinit.1, rfl, rfl⟩]
  · -- the search passes the INIT chunk and stays on the chunk of size `0`
    cases fuel with
    | zero => rfl
    | succ fuel =>
        have hstep : next (ChunkField.size (earlyInitPacket crc32c)) CommonHeader.size = 28 := by
          unfold next; rw [hinit.2]; rfl
        rw [getChunk, chunks, getChunkLoop, if_neg (by decide), hinit.1, if_neg (by decide), hstep]
        exact getChunkLoop_of_size_eq_zero (by decide) (by rw [hzero.1]; decide) hzero.2 fuel
  · -- the parameters would start after the chunk's end
    refine iterate_eq_none_of_lt fuel _ ?_
    simp only [InitChunk.params]
    rw [hinit.2]
    decide

end MediaBridge.Transport.Sctp
