import MediaBridge.Rtp.RtpHeader
import MediaBridge.Memory.PacketPool

set_option autoImplicit false

/-! # `rtp::addAudioLevel`: an audio level element added to an RTP packet

`addAudioLevel(packet, extensionId, level)` copies the packet's extension header, when it has
one, into a local `RtpHeaderExtension` (`profile`, `length` and `data[512]`). It adds a one-byte
element of the id holding `level` after the elements with `addExtension`, and writes the header
back with `setExtensions`, which first moves the payload by the change in the extension's size.
Last it sets the packet's length. Three of these copies write into objects of a fixed size: the
local extension header, its `data`, and the packet's buffer of `Packet::size` bytes. The model
returns a `Fault` where one of them would write past the end of its object, where the C++
behaviour is undefined, and where the assertion of `FixedPacket::setLength` fails.

`fromPtr` bounds the extension by the packet's length alone, so an extension longer than the
local object is copied over the stack (`addAudioLevel_long_extension`). Without an extension, the
call adds eight bytes, and it moves the payload past the buffer exactly when the packet has more
than `Packet::size - 8` bytes (`addAudioLevel_no_extension`); otherwise `getAudioLevel` reads the
level back (`getAudioLevel_addAudioLevel`). The assertion of `setLength` never fires first: the
length it checks is where the moved payload ends (`addAudioLevel_ne_lengthAssert`).
-/

namespace MediaBridge.Rtp

open Buffer Tlv
open Memory (Packet)
open GeneralExtension1Byteheader (getId)

/-- What goes wrong in `addAudioLevel`. -/
inductive Fault
  /-- The copy constructor's `memcpy` of `extensions->size()` bytes into the local
  `RtpHeaderExtension`, past its end. -/
  | extensionCopy
  /-- The `memcpy` of `addExtension`, past the end of `data`. -/
  | elementWrite
  /-- The `memmove` of the payload in `setExtensions`, past the end of the packet's buffer. -/
  | payloadMove
  /-- `assert(length <= size)` in `FixedPacket::setLength`. -/
  | lengthAssert
  deriving DecidableEq, Repr

/-- `version : 2`, the top bits of the first byte. -/
def RtpHeader.version (p : Bytes) : Nat := (byteAt p 0 >>> 6).toNat

/-- `isRtpPacket(buffer, length)`. -/
def isRtpPacket (p : Bytes) (length : Nat) : Bool :=
  if length < MIN_RTP_HEADER_SIZE then false
  else RtpHeader.version p == 2 && (RtpHeader.payloadType p < 64 || RtpHeader.payloadType p ≥ 96)

/-- `GeneralExtension1Byteheader(extensionId, dataLength)`: the byte of `_id : 4` (high) and
`_length : 4` (low), then `data[20]`, zeroed. -/
def GeneralExtension1Byteheader.create (extensionId dataLength : BitVec 8) : Bytes :=
  (extensionId <<< 4 ||| BitVec.ofNat 8 ((max 1 dataLength.toNat - 1) % 16)) :: List.replicate 20 0

namespace RtpHeaderExtension

/-- `sizeof(RtpHeaderExtension)`: `profile`, `length` and `data[512]`. -/
def objectSize : Nat := 2 + 2 + 512

/-- `RtpHeaderExtension(extensions)`: `profile(GENERAL1)` and `length(0)`, then the `size()`
bytes of the extension header at `o`, when there is one, copied over the object. -/
def copy (p : Bytes) : Option Nat → Except Fault Bytes
  | none => .ok (be16Bytes GENERAL1 ++ be16Bytes 0)
  | some o => if objectSize < size p o then .error .extensionCopy else .ok ((p.drop o).take (size p o))

/-- `addExtension(cursor, extension)` on the extension header `ext`, with `cursor` at `target`:
the element and the padding to a whole word copied from `extension` to `target`, and `length`
set to the words up to their end. -/
def addExtension (ext : Bytes) (target : Nat) (extension : Bytes) : Except Fault Bytes :=
  if getId extension 0 = PADDING then .ok ext -- padding is automatically added
  else
    let newLength := target + GeneralExtension1Byteheader.size extension 0 - data 0
    let diff := newLength % 4
    let padding := if diff ≠ 0 then 4 - diff else 0
    -- the copy ends at `data + newLength + padding`
    if objectSize < data 0 + newLength + padding then .error .elementWrite
    else .ok (ext.take 2 ++ be16Bytes ((newLength + padding) / 4) ++ (ext.take target).drop 4 ++
      extension.take (GeneralExtension1Byteheader.size extension 0 + padding))

end RtpHeaderExtension

namespace RtpHeader

/-- `extension = 1`. -/
def setExtension (p : Bytes) : Bytes := p.set 0 (byteAt p 0 ||| 0x10)

/-- `setExtensions(extensions, payloadLength)` on the packet `p` in a buffer of `capacity` bytes:
the payload moved from `getPayload()` by the change in the extension's size, then the extension
bit set and the `size()` bytes of `extensions` written after the base header. -/
def setExtensions (p : Bytes) (capacity : Nat) (extensions : Bytes) (payloadLength : Nat) :
    Except Fault Bytes :=
  let diff : Int := match getExtensionHeader p with
    | some o => (RtpHeaderExtension.size extensions 0 : Int) - RtpHeaderExtension.size p o
    | none => RtpHeaderExtension.size extensions 0
  -- `memmove(getPayload() + diff, getPayload(), payloadLength)`
  if (capacity : Int) < headerLength p + diff + payloadLength then .error .payloadMove
  else .ok (setExtension (p.take (baseHeaderLength p)) ++
    extensions.take (RtpHeaderExtension.size extensions 0) ++ (p.drop (headerLength p)).take payloadLength)

end RtpHeader

/-- `FixedPacket::setLength(length)` on a packet whose buffer holds `buffer`: the packet of its
first `length` bytes. -/
def FixedPacket.setLength (buffer : Bytes) (length : Nat) : Except Fault Packet :=
  if h : length ≤ Packet.size then .ok ⟨buffer.take length, (List.length_take_le _ _).trans h⟩
  else .error .lengthAssert

/-- `addAudioLevel(packet, extensionId, level)`. -/
def addAudioLevel (packet : Packet) (extensionId level : BitVec 8) : Except Fault Packet :=
  if !isRtpPacket packet.data packet.data.length then .ok packet
  else if !RtpHeader.fromPtr packet.data packet.data.length then .ok packet
  else do
    let rtpHeader := packet.data
    let payloadLength := packet.data.length - RtpHeader.headerLength rtpHeader
    let extensionHeader ← RtpHeaderExtension.copy rtpHeader (RtpHeader.getExtensionHeader rtpHeader)
    let audioHeader := (GeneralExtension1Byteheader.create extensionId 1).set 1 level
    let cursor := (RtpHeaderExtension.extensions extensionHeader 0).2
    let extensionHeader ← RtpHeaderExtension.addExtension extensionHeader cursor audioHeader
    let buffer ← RtpHeader.setExtensions rtpHeader Packet.size extensionHeader payloadLength
    FixedPacket.setLength buffer (RtpHeader.headerLength buffer + payloadLength)

/-- `getAudioLevel(packet, extensionId, level)`, with `fuel` steps for its loop: `some (some l)`
when it returns `true` with `level = l`, `some none` when it returns `false`. -/
def getAudioLevel (packet : Packet) (extensionId : BitVec 8) (fuel : Nat) : Option (Option Nat) :=
  if !RtpHeader.fromPtr packet.data packet.data.length then some none
  else match RtpHeader.getExtensionHeader packet.data with
    | none => some none
    | some o =>
        (search (GeneralExtension1Byteheader.size packet.data)
          (RtpHeaderExtension.extensions packet.data o).2
          (fun c => getId packet.data c == extensionId.toNat) fuel
          (RtpHeaderExtension.extensions packet.data o).1).map
          (Option.map fun c => (byteAt packet.data (c + 1) &&& 0x7F).toNat)

/-! ## The audio element -/

theorem create_set (extensionId level : BitVec 8) :
    (GeneralExtension1Byteheader.create extensionId 1).set 1 level =
      extensionId <<< 4 :: level :: List.replicate 19 0 := by
  simp [GeneralExtension1Byteheader.create]

/-- The id nibble of an element's first byte. -/
theorem id_nibble (x : BitVec 8) : (x <<< 4 >>> 4).toNat = x.toNat % 16 := by
  simp only [BitVec.toNat_ushiftRight, BitVec.toNat_shiftLeft]
  bv_omega

/-- The length nibble of an element's first byte. -/
theorem length_nibble (x : BitVec 8) : (x <<< 4 &&& 0xF).toNat = 0 := by
  simp only [BitVec.toNat_and, BitVec.toNat_shiftLeft]
  rw [show (0xF : BitVec 8).toNat = 2 ^ 4 - 1 from rfl, Nat.and_two_pow_sub_one_eq_mod,
    Nat.shiftLeft_eq]
  omega

theorem getId_shift (extensionId : BitVec 8) (rest : Bytes) :
    getId (extensionId <<< 4 :: rest) 0 = extensionId.toNat % 16 :=
  id_nibble extensionId

theorem length_shift (extensionId : BitVec 8) (rest : Bytes) :
    GeneralExtension1Byteheader.length (extensionId <<< 4 :: rest) 0 = 0 :=
  length_nibble extensionId

/-! ## What each step can do -/

/-- The payload moves to just after the new extension, whichever extension was there. -/
theorem setExtensions_eq (p : Bytes) (capacity : Nat) (ext : Bytes) (payloadLength : Nat) :
    RtpHeader.setExtensions p capacity ext payloadLength =
      if capacity < RtpHeader.baseHeaderLength p + RtpHeaderExtension.size ext 0 +
          payloadLength then .error .payloadMove
      else .ok (RtpHeader.setExtension (p.take (RtpHeader.baseHeaderLength p)) ++
        ext.take (RtpHeaderExtension.size ext 0) ++
          (p.drop (RtpHeader.headerLength p)).take payloadLength) := by
  unfold RtpHeader.setExtensions
  dsimp only
  -- `getPayload() + diff` is after the base header and the new extension, whichever `diff` is
  cases hext : RtpHeader.extension p with
  | false =>
      have hnone : RtpHeader.getExtensionHeader p = none := by
        rw [RtpHeader.getExtensionHeader, hext]
        rfl
      have hlen : RtpHeader.headerLength p = RtpHeader.baseHeaderLength p := by
        rw [RtpHeader.headerLength, hext]
        rfl
      simp only [hnone, hlen]
      exact if_congr (by omega) rfl rfl
  | true =>
      have hsome : RtpHeader.getExtensionHeader p = some (RtpHeader.baseHeaderLength p) := by
        rw [RtpHeader.getExtensionHeader, hext]
        rfl
      have hlen : RtpHeader.headerLength p = RtpHeader.baseHeaderLength p +
          RtpHeaderExtension.size p (RtpHeader.baseHeaderLength p) := by
        rw [RtpHeader.headerLength, hext]
        rfl
      simp only [hsome, hlen]
      exact if_congr (by omega) rfl rfl

theorem copy_eq_error {p : Bytes} {o : Option Nat} {e : Fault}
    (h : RtpHeaderExtension.copy p o = .error e) : e = .extensionCopy := by
  unfold RtpHeaderExtension.copy at h
  split at h
  · cases h
  · split at h
    · cases h
      rfl
    · cases h

/-- What `addExtension` can do: nothing for a padding element, overrun `data`, or write the
profile, the new length, the elements before the cursor and the element with its padding. -/
theorem addExtension_cases (ext : Bytes) (target : Nat) (extension : Bytes) :
    RtpHeaderExtension.addExtension ext target extension = .ok ext ∨
      RtpHeaderExtension.addExtension ext target extension = .error .elementWrite ∨
      ∃ n k, RtpHeaderExtension.addExtension ext target extension =
        .ok (ext.take 2 ++ be16Bytes n ++ (ext.take target).drop 4 ++ extension.take k) := by
  unfold RtpHeaderExtension.addExtension
  split
  · exact .inl rfl
  · dsimp only
    generalize target + GeneralExtension1Byteheader.size extension 0 - RtpHeaderExtension.data 0 =
      newLength
    generalize (if newLength % 4 ≠ 0 then 4 - newLength % 4 else 0) = padding
    split
    · exact .inr (.inl rfl)
    · exact .inr (.inr ⟨_, _, rfl⟩)

theorem addExtension_eq_error {ext : Bytes} {target : Nat} {extension : Bytes} {e : Fault}
    (h : RtpHeaderExtension.addExtension ext target extension = .error e) : e = .elementWrite := by
  rcases addExtension_cases ext target extension with h' | h' | ⟨n, k, h'⟩ <;> rw [h'] at h
  · cases h
  · cases h
    rfl
  · cases h

theorem setExtensions_eq_error {p : Bytes} {capacity : Nat} {ext : Bytes} {payloadLength : Nat}
    {e : Fault} (h : RtpHeader.setExtensions p capacity ext payloadLength = .error e) :
    e = .payloadMove := by
  rw [setExtensions_eq] at h
  split at h
  · cases h
    rfl
  · cases h

/-- The extension header copied from an accepted packet has its `profile` and `length`. -/
theorem four_le_length_of_copy {p ext : Bytes} (hfrom : RtpHeader.fromPtr p p.length = true)
    (h : RtpHeaderExtension.copy p (RtpHeader.getExtensionHeader p) = .ok ext) :
    4 ≤ ext.length := by
  unfold RtpHeaderExtension.copy at h
  split at h
  · cases h
    rfl
  · next o ho =>
      split at h
      · cases h
      · cases h
        obtain ⟨hext, rfl⟩ := (RtpHeader.getExtensionHeader_eq_some_iff p o).mp ho
        have hlen := RtpHeader.headerLength_le_of_fromPtr hfrom
        rw [RtpHeader.headerLength, if_pos hext] at hlen
        have h4 : 4 ≤ RtpHeaderExtension.size p (RtpHeader.baseHeaderLength p) := by
          unfold RtpHeaderExtension.size RtpHeaderExtension.minSize; omega
        rw [List.length_take, List.length_drop]
        omega

theorem four_le_length_of_addExtension {ext ext' : Bytes} {target : Nat} {extension : Bytes}
    (h4 : 4 ≤ ext.length) (h : RtpHeaderExtension.addExtension ext target extension = .ok ext') :
    4 ≤ ext'.length := by
  rcases addExtension_cases ext target extension with h' | h' | ⟨n, k, h'⟩ <;> rw [h'] at h
  · cases h
    exact h4
  · cases h
  · -- the profile and the new length word
    cases h
    simp only [List.length_append, List.length_take, be16Bytes, List.length_cons, List.length_nil]
    omega

theorem bind_ne_error {α β : Type} {x : Except Fault α} {f : α → Except Fault β} {e : Fault}
    (hx : ∀ e', x = .error e' → e' ≠ e) (hf : ∀ a, x = .ok a → f a ≠ .error e) :
    x >>= f ≠ .error e := by
  cases x with
  | error e' => exact fun h => hx e' rfl (by cases h; rfl)
  | ok a => exact hf a rfl

namespace RtpHeader

theorem length_setExtension (h : Bytes) : (setExtension h).length = h.length := List.length_set

variable {h : Bytes} (hh : 0 < h.length) (q : Bytes)
include hh

theorem byteAt_setExtension : byteAt (setExtension h ++ q) 0 = byteAt h 0 ||| 0x10 := by
  rw [byteAt_append_left _ _ (by rw [length_setExtension]; exact hh), setExtension,
    byteAt_set_self _ _ hh]

/-- Setting the extension bit sets it and keeps the CSRC count. -/
theorem extension_setExtension : extension (setExtension h ++ q) = true := by
  have hbit : ∀ b : BitVec 8, ((b ||| 0x10) >>> 4 &&& 1 == 1) = true := by decide
  rw [extension, byteAt_setExtension hh]
  exact hbit _

theorem csrcCount_setExtension : csrcCount (setExtension h ++ q) = csrcCount h := by
  have hlow : ∀ b : BitVec 8, (b ||| 0x10) &&& 0xF = b &&& 0xF := by decide
  rw [csrcCount, csrcCount, byteAt_setExtension hh, hlow]

end RtpHeader

/-! ## The packet `setExtensions` writes

The base header with the extension bit set, then the extension header, then the payload. -/

section Written

theorem twelve_le_baseHeaderLength (p : Bytes) : 12 ≤ RtpHeader.baseHeaderLength p := by
  unfold RtpHeader.baseHeaderLength MIN_RTP_HEADER_SIZE
  omega

variable {p : Bytes} (hp : RtpHeader.baseHeaderLength p ≤ p.length) (rest : Bytes)
include hp

theorem length_written :
    (RtpHeader.setExtension (p.take (RtpHeader.baseHeaderLength p))).length =
      RtpHeader.baseHeaderLength p := by
  rw [RtpHeader.length_setExtension, List.length_take]
  omega

theorem extension_written :
    RtpHeader.extension (RtpHeader.setExtension (p.take (RtpHeader.baseHeaderLength p)) ++ rest) =
      true :=
  RtpHeader.extension_setExtension
    (by rw [List.length_take]; have := twelve_le_baseHeaderLength p; omega) rest

theorem baseHeaderLength_written :
    RtpHeader.baseHeaderLength
        (RtpHeader.setExtension (p.take (RtpHeader.baseHeaderLength p)) ++ rest) =
      RtpHeader.baseHeaderLength p := by
  have h12 := twelve_le_baseHeaderLength p
  have hcsrc : RtpHeader.csrcCount (p.take (RtpHeader.baseHeaderLength p)) =
      RtpHeader.csrcCount p := by
    rw [RtpHeader.csrcCount, RtpHeader.csrcCount, byteAt, byteAt, List.getD_eq_getElem?_getD,
      List.getD_eq_getElem?_getD, List.getElem?_take_of_lt (by omega)]
  rw [RtpHeader.baseHeaderLength,
    RtpHeader.csrcCount_setExtension (by rw [List.length_take]; omega), hcsrc]
  rfl

/-- Past the header the packet holds what was written there. -/
theorem byteAt_written (k : Nat) :
    byteAt (RtpHeader.setExtension (p.take (RtpHeader.baseHeaderLength p)) ++ rest)
      (RtpHeader.baseHeaderLength p + k) = byteAt rest k := by
  have h :=
    byteAt_append_right (RtpHeader.setExtension (p.take (RtpHeader.baseHeaderLength p))) rest k
  rwa [length_written hp] at h

/-- Before it, but for the first byte, the header is the packet's. -/
theorem byteAt_written_header {k : Nat} (hk : 0 < k) (hk' : k < RtpHeader.baseHeaderLength p) :
    byteAt (RtpHeader.setExtension (p.take (RtpHeader.baseHeaderLength p)) ++ rest) k =
      byteAt p k := by
  rw [byteAt_append_left _ _ (by rw [length_written hp]; exact hk'), RtpHeader.setExtension,
    byteAt_set_ne _ _ (by omega), byteAt, byteAt, List.getD_eq_getElem?_getD,
    List.getD_eq_getElem?_getD, List.getElem?_take_of_lt hk']

/-- The extension header written has the size of the one given. -/
theorem size_written {ext : Bytes} (hext : 4 ≤ ext.length) {n : Nat}
    (hn : RtpHeaderExtension.size ext 0 = n) :
    RtpHeaderExtension.size (RtpHeader.setExtension (p.take (RtpHeader.baseHeaderLength p)) ++
      (ext.take n ++ rest)) (RtpHeader.baseHeaderLength p) = n := by
  subst hn
  have h4 : 4 ≤ RtpHeaderExtension.size ext 0 := by
    unfold RtpHeaderExtension.size RtpHeaderExtension.minSize; omega
  have hread : ∀ a b : Bytes, be16 (a ++ b) (a.length + 2) = be16 b 2 := fun a b => by
    rw [← be16_drop, List.drop_left]
  have hfield := hread (RtpHeader.setExtension (p.take (RtpHeader.baseHeaderLength p)))
    (ext.take (RtpHeaderExtension.size ext 0) ++ rest)
  rw [length_written hp, be16_append_left (ext.take (RtpHeaderExtension.size ext 0)) rest
    (by rw [List.length_take]; omega)] at hfield
  have htake2 : be16 (ext.take (RtpHeaderExtension.size ext 0)) 2 = be16 ext 2 := by
    unfold be16
    rw [byteAt, byteAt, byteAt, byteAt, List.getD_eq_getElem?_getD, List.getD_eq_getElem?_getD,
      List.getD_eq_getElem?_getD, List.getD_eq_getElem?_getD, List.getElem?_take_of_lt (by omega),
      List.getElem?_take_of_lt (by omega)]
  rw [RtpHeaderExtension.size, RtpHeaderExtension.length, hfield, htake2]
  rfl

/-- The header `setExtensions` writes: the base header, then an extension of the new size. -/
theorem headerLength_written {ext : Bytes} (hext : 4 ≤ ext.length) {n : Nat}
    (hn : RtpHeaderExtension.size ext 0 = n) :
    RtpHeader.headerLength (RtpHeader.setExtension (p.take (RtpHeader.baseHeaderLength p)) ++
      ext.take n ++ rest) = RtpHeader.baseHeaderLength p + n := by
  rw [RtpHeader.headerLength, List.append_assoc, extension_written hp, if_pos rfl,
    baseHeaderLength_written hp, size_written hp rest hext hn]

end Written

/-- **`setLength`'s assertion never fires first.** The length `addAudioLevel` sets is where the
moved payload ends, so it passes `Packet::size` only when the move has overrun the buffer. -/
theorem addAudioLevel_ne_lengthAssert (packet : Packet) (extensionId level : BitVec 8) :
    addAudioLevel packet extensionId level ≠ .error .lengthAssert := by
  unfold addAudioLevel
  split
  · exact fun h => by cases h
  split
  · exact fun h => by cases h
  rename_i hfrom
  have hfrom' : RtpHeader.fromPtr packet.data packet.data.length = true := by simpa using hfrom
  have hbase : RtpHeader.baseHeaderLength packet.data ≤ packet.data.length := by
    have h := RtpHeader.headerLength_le_of_fromPtr hfrom'
    unfold RtpHeader.headerLength at h
    split at h <;> omega
  refine bind_ne_error (fun e h => by rw [copy_eq_error h]; decide) (fun ext hcopy => ?_)
  refine bind_ne_error (fun e h => by rw [addExtension_eq_error h]; decide) (fun ext' hadd => ?_)
  refine bind_ne_error (fun e h => by rw [setExtensions_eq_error h]; decide) (fun buffer hset => ?_)
  -- the move fitted, and the length set is where it ended
  have h4 := four_le_length_of_addExtension (four_le_length_of_copy hfrom' hcopy) hadd
  rw [setExtensions_eq] at hset
  split at hset
  · cases hset
  · next hfit =>
      cases hset
      rw [headerLength_written hbase _ h4 rfl, FixedPacket.setLength, dif_pos (by omega)]
      exact fun h => by cases h

/-- **An extension longer than the local object overruns it.** `fromPtr` accepts every extension
that fits in the packet, and the copy constructor copies all of it into the `objectSize` bytes
of the local `RtpHeaderExtension`. -/
theorem addAudioLevel_long_extension (packet : Packet) (extensionId level : BitVec 8)
    (hrtp : isRtpPacket packet.data packet.data.length = true)
    (hfrom : RtpHeader.fromPtr packet.data packet.data.length = true)
    (hext : RtpHeader.extension packet.data = true)
    (hlong : RtpHeaderExtension.objectSize <
      RtpHeaderExtension.size packet.data (RtpHeader.baseHeaderLength packet.data)) :
    addAudioLevel packet extensionId level = .error .extensionCopy := by
  have hsome : RtpHeader.getExtensionHeader packet.data =
      some (RtpHeader.baseHeaderLength packet.data) := by
    rw [RtpHeader.getExtensionHeader, hext]
    rfl
  rw [addAudioLevel, if_neg (by rw [hrtp]; decide), if_neg (by rw [hfrom]; decide)]
  simp only [hsome, RtpHeaderExtension.copy, if_pos hlong, bind, Except.bind]

/-! ## A packet without an extension

`addAudioLevel` gives it an extension header of one word: the profile, the length `1`, the
element of the id with the level, and two padding bytes. -/

/-- The extension header `addAudioLevel` writes into a packet that had none. -/
def addedExtension (extensionId level : BitVec 8) : Bytes :=
  be16Bytes RtpHeaderExtension.GENERAL1 ++ be16Bytes 1 ++ [extensionId <<< 4, level, 0, 0]

section AddedExtension

variable (extensionId level : BitVec 8)

theorem length_addedExtension : (addedExtension extensionId level).length = 8 := by
  simp [addedExtension, be16Bytes]

theorem size_addedExtension : RtpHeaderExtension.size (addedExtension extensionId level) 0 = 8 := by
  have h :=
    be16_be16Bytes (be16Bytes RtpHeaderExtension.GENERAL1) [extensionId <<< 4, level, 0, 0] 1
  rw [RtpHeaderExtension.size, RtpHeaderExtension.length]
  exact congrArg (fun l => RtpHeaderExtension.minSize + l * 4) h

/-- The local extension header of a packet without one has no elements. -/
theorem extensions_default :
    (RtpHeaderExtension.extensions (be16Bytes RtpHeaderExtension.GENERAL1 ++ be16Bytes 0) 0).2 =
      4 := by
  rw [RtpHeaderExtension.extensions, if_neg (by decide), RtpHeaderExtension.findExtensionsEnd,
    RtpHeaderExtension.findExtensionsEndLoop, if_neg (by decide)]
  rfl

theorem addExtension_default (hid : extensionId.toNat % 16 ≠ PADDING) :
    RtpHeaderExtension.addExtension (be16Bytes RtpHeaderExtension.GENERAL1 ++ be16Bytes 0) 4
      (extensionId <<< 4 :: level :: List.replicate 19 0) =
        .ok (addedExtension extensionId level) := by
  have hsize : GeneralExtension1Byteheader.size
      (extensionId <<< 4 :: level :: List.replicate 19 0) 0 = 2 := by
    rw [GeneralExtension1Byteheader.size, if_neg (by rw [getId_shift]; exact hid), length_shift]
  rw [RtpHeaderExtension.addExtension, if_neg (by rw [getId_shift]; exact hid), hsize]
  rfl

end AddedExtension

/-- The packet `addAudioLevel` writes in place of `p`, a packet without an extension: the base
header with the extension bit set, the added extension header, then the payload. -/
def addedPacket (p : Bytes) (extensionId level : BitVec 8) : Bytes :=
  RtpHeader.setExtension (p.take (RtpHeader.baseHeaderLength p)) ++
    addedExtension extensionId level ++ p.drop (RtpHeader.baseHeaderLength p)

section Added

variable {p : Bytes} (hp : RtpHeader.baseHeaderLength p ≤ p.length) (extensionId level : BitVec 8)
include hp

theorem length_addedPacket : (addedPacket p extensionId level).length = p.length + 8 := by
  rw [addedPacket, List.length_append, List.length_append, length_written hp,
    length_addedExtension, List.length_drop]
  omega

theorem byteAt_added {k : Nat} (hk : k < 8) :
    byteAt (addedPacket p extensionId level) (RtpHeader.baseHeaderLength p + k) =
      byteAt (addedExtension extensionId level) k := by
  rw [addedPacket, List.append_assoc, byteAt_written hp,
    byteAt_append_left _ _ (by rw [length_addedExtension]; exact hk)]

theorem baseHeaderLength_added :
    RtpHeader.baseHeaderLength (addedPacket p extensionId level) =
      RtpHeader.baseHeaderLength p := by
  rw [addedPacket, List.append_assoc, baseHeaderLength_written hp]

theorem getExtensionHeader_added :
    RtpHeader.getExtensionHeader (addedPacket p extensionId level) =
      some (RtpHeader.baseHeaderLength p) := by
  rw [RtpHeader.getExtensionHeader, addedPacket, List.append_assoc, extension_written hp,
    baseHeaderLength_written hp]
  rfl

theorem size_added :
    RtpHeaderExtension.size (addedPacket p extensionId level) (RtpHeader.baseHeaderLength p) =
      8 := by
  have h := size_written hp (p.drop (RtpHeader.baseHeaderLength p))
    (by rw [length_addedExtension]; omega) (size_addedExtension extensionId level)
  rwa [List.take_of_length_le (Nat.le_of_eq (length_addedExtension extensionId level)),
    ← List.append_assoc] at h

/-- The packet with the extension added is accepted, as the packet was. -/
theorem fromPtr_added (hfrom : RtpHeader.fromPtr p p.length = true) :
    RtpHeader.fromPtr (addedPacket p extensionId level)
      (addedPacket p extensionId level).length = true := by
  obtain ⟨hpt, -, -⟩ := (RtpHeader.fromPtr_eq_true_iff _ _).mp hfrom
  have h12 := twelve_le_baseHeaderLength p
  -- the payload type is in the second byte, which the extension bit leaves alone
  have hpt' :
      RtpHeader.payloadType (addedPacket p extensionId level) = RtpHeader.payloadType p := by
    rw [RtpHeader.payloadType, RtpHeader.payloadType, addedPacket, List.append_assoc,
      byteAt_written_header hp _ (by omega) (by omega)]
  refine (RtpHeader.fromPtr_eq_true_iff _ _).mpr ⟨by rwa [hpt'], ?_, fun _ => ?_⟩
  · rw [baseHeaderLength_added hp, length_addedPacket hp]
    omega
  · rw [baseHeaderLength_added hp, size_added hp, length_addedPacket hp]
    omega

variable (heol : extensionId.toNat < EOL)
include heol

theorem getId_added :
    getId (addedPacket p extensionId level) (RtpHeader.baseHeaderLength p + 4) =
      extensionId.toNat := by
  rw [getId, byteAt_added hp extensionId level (by omega)]
  show (extensionId <<< 4 >>> 4).toNat = _
  unfold EOL at heol
  rw [id_nibble]
  omega

variable (hid : extensionId.toNat % 16 ≠ PADDING)
include hid

/-- **The added extension holds one element**: the element of the id, then padding up to the end
of the block, which `findExtensionsEnd` leaves out. -/
theorem extensions_added :
    RtpHeaderExtension.extensions (addedPacket p extensionId level) (RtpHeader.baseHeaderLength p) =
      (RtpHeader.baseHeaderLength p + 4, RtpHeader.baseHeaderLength p + 6) := by
  have hid4 := getId_added hp extensionId level heol
  have hne : extensionId.toNat ≠ PADDING := fun h => hid (by rw [h]; rfl)
  -- the words of the extension header, read through the packet
  have hdrop : (addedPacket p extensionId level).drop (RtpHeader.baseHeaderLength p) =
      be16Bytes RtpHeaderExtension.GENERAL1 ++ (be16Bytes 1 ++ ([extensionId <<< 4, level, 0, 0] ++
        p.drop (RtpHeader.baseHeaderLength p))) := by
    rw [addedPacket, List.append_assoc, List.drop_left' (length_written hp), addedExtension,
      List.append_assoc, List.append_assoc]
  have hprofile : RtpHeaderExtension.profile (addedPacket p extensionId level)
      (RtpHeader.baseHeaderLength p) = RtpHeaderExtension.GENERAL1 := by
    have h := be16_be16Bytes [] (be16Bytes 1 ++ ([extensionId <<< 4, level, 0, 0] ++
      p.drop (RtpHeader.baseHeaderLength p))) RtpHeaderExtension.GENERAL1
    rw [List.nil_append, List.length_nil, ← hdrop, be16_drop, Nat.add_zero] at h
    exact h
  have hdataEnd : RtpHeaderExtension.dataEnd (addedPacket p extensionId level)
      (RtpHeader.baseHeaderLength p) = RtpHeader.baseHeaderLength p + 8 := by
    have h := be16_be16Bytes (be16Bytes RtpHeaderExtension.GENERAL1)
      ([extensionId <<< 4, level, 0, 0] ++ p.drop (RtpHeader.baseHeaderLength p)) 1
    rw [List.append_assoc, ← hdrop, be16_drop] at h
    rw [RtpHeaderExtension.dataEnd, RtpHeaderExtension.data, RtpHeaderExtension.length]
    exact congrArg (fun l => RtpHeader.baseHeaderLength p + RtpHeaderExtension.minSize + l * 4) h
  -- the element of the id has no data beyond its one byte; two padding bytes follow
  have hsize4 : GeneralExtension1Byteheader.size (addedPacket p extensionId level)
      (RtpHeader.baseHeaderLength p + 4) = 2 := by
    rw [GeneralExtension1Byteheader.size, if_neg (by rw [hid4]; exact hne),
      GeneralExtension1Byteheader.length, byteAt_added hp extensionId level (by omega)]
    show 2 + (extensionId <<< 4 &&& 0xF).toNat = 2
    rw [length_nibble]
  have hpad : ∀ k, k = 6 ∨ k = 7 →
      getId (addedPacket p extensionId level) (RtpHeader.baseHeaderLength p + k) = PADDING ∧
      GeneralExtension1Byteheader.size (addedPacket p extensionId level)
        (RtpHeader.baseHeaderLength p + k) = 1 := by
    intro k hk
    have hgid : getId (addedPacket p extensionId level) (RtpHeader.baseHeaderLength p + k) =
        PADDING := by
      have hzero : byteAt (addedExtension extensionId level) k = 0 := by
        rcases hk with rfl | rfl <;> rfl
      rw [getId, byteAt_added hp extensionId level (by omega), hzero]
      rfl
    exact ⟨hgid, by rw [GeneralExtension1Byteheader.size, if_pos hgid]⟩
  obtain ⟨hg6, hs6⟩ := hpad 6 (.inl rfl)
  obtain ⟨hg7, hs7⟩ := hpad 7 (.inr rfl)
  have heol4 :
      getId (addedPacket p extensionId level) (RtpHeader.baseHeaderLength p + 4) ≠ EOL := by
    rw [hid4]
    exact Nat.ne_of_lt heol
  -- `findExtensionsEnd` steps over the element and the two padding bytes, and ends on the first
  generalize addedPacket p extensionId level = m
    at hid4 hg6 hg7 hs6 hs7 hsize4 heol4 hprofile hdataEnd ⊢
  have hn4 : next (GeneralExtension1Byteheader.size m) (RtpHeader.baseHeaderLength p + 4) =
      RtpHeader.baseHeaderLength p + 6 := by rw [next, hsize4]
  have hn6 : next (GeneralExtension1Byteheader.size m) (RtpHeader.baseHeaderLength p + 6) =
      RtpHeader.baseHeaderLength p + 7 := by rw [next, hs6]
  have hn7 : next (GeneralExtension1Byteheader.size m) (RtpHeader.baseHeaderLength p + 7) =
      RtpHeader.baseHeaderLength p + 8 := by rw [next, hs7]
  rw [RtpHeaderExtension.extensions, if_neg (by rw [hprofile]; exact not_not.mpr rfl), hdataEnd,
    show RtpHeaderExtension.data (RtpHeader.baseHeaderLength p) =
      RtpHeader.baseHeaderLength p + 4 from rfl,
    RtpHeaderExtension.findExtensionsEnd,
    RtpHeaderExtension.findExtensionsEndLoop_of_step (by omega) heol4 (by rw [hn4]; omega), hn4,
    RtpHeaderExtension.findExtensionsEndLoop_of_step (by omega) (by rw [hg6]; decide)
      (by rw [hn6]; omega),
    hn6, RtpHeaderExtension.findExtensionsEndLoop_of_step (by omega) (by rw [hg7]; decide)
      (by rw [hn7]),
    hn7, RtpHeaderExtension.findExtensionsEndLoop, if_neg (by omega)]
  simp [hid4, hg6, hg7, hne]

end Added

theorem setLength_of_le (buffer : Bytes) {length : Nat} (h : length ≤ Packet.size) :
    ∃ packet, FixedPacket.setLength buffer length = .ok packet ∧
      packet.data = buffer.take length :=
  ⟨_, dif_pos h, rfl⟩

section NoExtension

variable (packet : Packet) (extensionId level : BitVec 8)
  (hrtp : isRtpPacket packet.data packet.data.length = true)
  (hfrom : RtpHeader.fromPtr packet.data packet.data.length = true)
  (hext : RtpHeader.extension packet.data = false) (hid : extensionId.toNat % 16 ≠ PADDING)
include hrtp hfrom hext hid

/-- What `addAudioLevel` computes for a packet without an extension. -/
theorem addAudioLevel_no_extension_eq :
    addAudioLevel packet extensionId level =
      if Packet.size < RtpHeader.baseHeaderLength packet.data + 8 +
          (packet.data.length - RtpHeader.baseHeaderLength packet.data) then .error .payloadMove
      else FixedPacket.setLength
        (RtpHeader.setExtension (packet.data.take (RtpHeader.baseHeaderLength packet.data)) ++
          addedExtension extensionId level ++
          (packet.data.drop (RtpHeader.baseHeaderLength packet.data)).take
            (packet.data.length - RtpHeader.baseHeaderLength packet.data))
        (RtpHeader.baseHeaderLength packet.data + 8 +
          (packet.data.length - RtpHeader.baseHeaderLength packet.data)) := by
  have hnone : RtpHeader.getExtensionHeader packet.data = none := by
    rw [RtpHeader.getExtensionHeader, hext]
    rfl
  have hlen : RtpHeader.headerLength packet.data = RtpHeader.baseHeaderLength packet.data := by
    rw [RtpHeader.headerLength, hext]
    rfl
  have hbase := RtpHeader.headerLength_le_of_fromPtr hfrom
  rw [hlen] at hbase
  have htake : (addedExtension extensionId level).take 8 = addedExtension extensionId level :=
    List.take_of_length_le (Nat.le_of_eq (length_addedExtension extensionId level))
  rw [addAudioLevel, if_neg (by rw [hrtp]; decide), if_neg (by rw [hfrom]; decide)]
  simp only [hnone, hlen, bind, Except.bind, RtpHeaderExtension.copy, extensions_default,
    create_set, addExtension_default extensionId level hid, setExtensions_eq, size_addedExtension,
    htake]
  by_cases h : Packet.size < RtpHeader.baseHeaderLength packet.data + 8 +
      (packet.data.length - RtpHeader.baseHeaderLength packet.data)
  · rw [if_pos h, if_pos h]
  · -- the length set: the header, with the extension read back, and the payload
    rw [if_neg h, if_neg h]
    have hheader := headerLength_written hbase
      ((packet.data.drop (RtpHeader.baseHeaderLength packet.data)).take
        (packet.data.length - RtpHeader.baseHeaderLength packet.data))
      (by rw [length_addedExtension]; omega) (size_addedExtension extensionId level)
    rw [htake] at hheader
    dsimp only
    rw [hheader]

/-- **Without an extension, the call adds eight bytes**: an extension header of one word, the
element and its padding. It moves the payload past the buffer exactly when they do not fit. -/
theorem addAudioLevel_no_extension :
    (Packet.size < packet.data.length + 8 →
      addAudioLevel packet extensionId level = .error .payloadMove) ∧
    (packet.data.length + 8 ≤ Packet.size →
      ∃ packet', addAudioLevel packet extensionId level = .ok packet' ∧
        packet'.data =
          RtpHeader.setExtension (packet.data.take (RtpHeader.baseHeaderLength packet.data)) ++
            addedExtension extensionId level ++
            packet.data.drop (RtpHeader.baseHeaderLength packet.data)) := by
  have hbase := RtpHeader.headerLength_le_of_fromPtr hfrom
  rw [RtpHeader.headerLength, hext, if_neg (by decide)] at hbase
  have hend : RtpHeader.baseHeaderLength packet.data + 8 +
      (packet.data.length - RtpHeader.baseHeaderLength packet.data) = packet.data.length + 8 := by
    omega
  rw [addAudioLevel_no_extension_eq packet extensionId level hrtp hfrom hext hid, hend]
  constructor
  · intro h
    rw [if_pos h]
  · intro h
    rw [if_neg (by omega)]
    obtain ⟨packet', hset, hdata⟩ := setLength_of_le _ h
    refine ⟨packet', hset, ?_⟩
    -- the whole buffer is kept: it is the header, the eight bytes and the payload
    have hpayload : (packet.data.drop (RtpHeader.baseHeaderLength packet.data)).take
        (packet.data.length - RtpHeader.baseHeaderLength packet.data) =
        packet.data.drop (RtpHeader.baseHeaderLength packet.data) :=
      List.take_of_length_le (by rw [List.length_drop])
    rw [hdata, hpayload]
    exact List.take_of_length_le (length_addedPacket hbase extensionId level).le

/-- **The level added is read back.** For an id of `1` to `14`, `getAudioLevel` finds the element
that `addAudioLevel` added to a packet without an extension, and returns the level's low seven
bits. -/
theorem getAudioLevel_addAudioLevel (heol : extensionId.toNat < EOL)
    (hfits : packet.data.length + 8 ≤ Packet.size) (fuel : Nat) :
    ∃ packet', addAudioLevel packet extensionId level = .ok packet' ∧
      getAudioLevel packet' extensionId (fuel + 1) = some (some (level &&& 0x7F).toNat) := by
  obtain ⟨packet', hadd, hdata⟩ :=
    (addAudioLevel_no_extension packet extensionId level hrtp hfrom hext hid).2 hfits
  refine ⟨packet', hadd, ?_⟩
  have hbase := RtpHeader.headerLength_le_of_fromPtr hfrom
  rw [RtpHeader.headerLength, hext, if_neg (by decide)] at hbase
  have hdata' : packet'.data = addedPacket packet.data extensionId level := hdata
  -- the search finds the element at once, and its data byte is the level
  rw [getAudioLevel, hdata', if_neg (by rw [fromPtr_added hbase extensionId level hfrom]; decide),
    getExtensionHeader_added hbase]
  dsimp only
  rw [extensions_added hbase extensionId level heol hid, search, if_neg (by omega),
    if_pos (by rw [getId_added hbase extensionId level heol]; exact beq_self_eq_true _),
    Option.map_some, Option.map_some,
    show RtpHeader.baseHeaderLength packet.data + 4 + 1 =
      RtpHeader.baseHeaderLength packet.data + 5 from rfl,
    byteAt_added hbase extensionId level (by omega)]
  rfl

end NoExtension

/-- A bare twelve-byte header of version 2 and payload type 111 gets the level `0x85` under id
`1`, and gives back its low seven bits. -/
theorem getAudioLevel_addAudioLevel_bare_header :
    let p : Packet := ⟨[0x80, 111] ++ List.replicate 10 0, by decide⟩
    isRtpPacket p.data p.data.length = true ∧ RtpHeader.fromPtr p.data p.data.length = true ∧
      RtpHeader.extension p.data = false ∧ (1 : BitVec 8).toNat % 16 ≠ PADDING ∧
      (1 : BitVec 8).toNat < EOL ∧ p.data.length + 8 ≤ Packet.size ∧
      ∃ packet', addAudioLevel p 1 0x85 = .ok packet' ∧
        getAudioLevel packet' 1 (0 + 1) = some (some ((0x85 : BitVec 8) &&& 0x7F).toNat) := by
  intro p
  have hrtp : isRtpPacket p.data p.data.length = true := by decide
  have hfrom : RtpHeader.fromPtr p.data p.data.length = true := by decide
  have hext : RtpHeader.extension p.data = false := by decide
  have hid : (1 : BitVec 8).toNat % 16 ≠ PADDING := by decide
  have heol : (1 : BitVec 8).toNat < EOL := by decide
  have hfits : p.data.length + 8 ≤ Packet.size := by decide
  exact ⟨hrtp, hfrom, hext, hid, heol, hfits,
    getAudioLevel_addAudioLevel p 1 0x85 hrtp hfrom hext hid heol hfits 0⟩

/-- A packet of `Packet::size` bytes: an RTP header of version 2 and payload type 111, with no
CSRC and no extension, then 1492 bytes of payload. -/
def fullPacket : Packet :=
  ⟨[0x80, 111] ++ List.replicate 1502 0, by rw [List.length_append, List.length_replicate]; rfl⟩

theorem length_fullPacket : fullPacket.data.length = Packet.size := by
  rw [fullPacket, List.length_append, List.length_replicate]
  rfl

theorem addAudioLevel_full_packet_overruns (level : BitVec 8) :
    isRtpPacket fullPacket.data fullPacket.data.length = true ∧
      RtpHeader.fromPtr fullPacket.data fullPacket.data.length = true ∧
      fullPacket.data.length = Packet.size ∧
      addAudioLevel fullPacket 1 level = .error .payloadMove := by
  have hrtp : isRtpPacket fullPacket.data fullPacket.data.length = true := by
    rw [length_fullPacket]
    decide
  have hfrom : RtpHeader.fromPtr fullPacket.data fullPacket.data.length = true := by
    rw [length_fullPacket]
    decide
  refine ⟨hrtp, hfrom, length_fullPacket, ?_⟩
  exact (addAudioLevel_no_extension fullPacket 1 level hrtp hfrom (by decide) (by decide)).1
    (by rw [length_fullPacket]; decide)

end MediaBridge.Rtp
