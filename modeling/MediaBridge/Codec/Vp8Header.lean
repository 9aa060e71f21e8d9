import MediaBridge.Lib.Buffer
import Mathlib.Tactic.IntervalCases

set_option autoImplicit false

/-! # `codec/Vp8Header.h`: the VP8 payload descriptor

The first bytes of a VP8 RTP payload (RFC 7741):

    byte 0  |X|R|N|S|R| PID |
    byte 1  |I|L|T|K| RSV   |     when X
    byte 2  |M| PictureID   |     when I; a second PictureID byte follows when M
    byte 4  |   TL0PICIDX   |     when L
    byte 5  |TID|Y| KEYIDX  |     when T or K

The forwarder rewrites the 15-bit picture id and TL0PICIDX only in the full six-byte form
(`X = I = M = L = 1` and `T` or `K`); in every other form the getters return `0xFFFF` and
`0xFF` and the setters leave the payload alone.

A payload is the list of its bytes; a byte past the end reads as `0`. The source reads
through a pointer into the packet buffer, always with `payloadSize = 6`, so it never
depends on the payload's real length: `HasFullDescriptor` asks for the six bytes to be
there.
-/

namespace MediaBridge.Codec.Vp8Header

open Buffer

def getX (payload : Bytes) : BitVec 8 := (byteAt payload 0 >>> 7) &&& 1

def getI (payload : Bytes) : BitVec 8 := (byteAt payload 1 >>> 7) &&& 1

def getL (payload : Bytes) : BitVec 8 := (byteAt payload 1 >>> 6) &&& 1

def getT (payload : Bytes) : BitVec 8 := (byteAt payload 1 >>> 5) &&& 1

def getK (payload : Bytes) : BitVec 8 := (byteAt payload 1 >>> 4) &&& 1

/-- The `M` bit, read inline in `getPayloadDescriptorSize` (`payload[size] >> 7 & 1` at
`size = 2`). -/
def getM (payload : Bytes) : BitVec 8 := (byteAt payload 2 >>> 7) &&& 1

/-- `getPayloadDescriptorSize`: the descriptor's length, or `0` when it does not fit in
`payloadSize` bytes. -/
def getPayloadDescriptorSize (payload : Bytes) (payloadSize : Nat) : Nat :=
  if payloadSize = 0 then 0
  else if getX payload = 0 then 1
  else if payloadSize < 2 then 0
  else
    -- `size` after the extension byte, then the picture id, TL0PICIDX and TID/KEYIDX
    let withPicId :=
      if getI payload = 1 then
        if payloadSize < 3 then none
        else if getM payload = 1 then some 4 else some 3
      else some 2
    match withPicId with
    | none => 0
    | some size =>
        let size := size + (if getL payload = 1 then 1 else 0)
        let size := size + (if getT payload = 1 ∨ getK payload = 1 then 1 else 0)
        if payloadSize < size then 0 else size

/-- `getPicId`: the 15-bit picture id of a full descriptor, else `0xFFFF`. -/
def getPicId (payload : Bytes) : BitVec 16 :=
  if getPayloadDescriptorSize payload 6 ≠ 6 then 0xFFFF
  else ((byteAt payload 2 &&& 0x7F).setWidth 16 <<< 8) ||| (byteAt payload 3).setWidth 16

/-- `getTl0PicIdx`: TL0PICIDX of a full descriptor, else `0xFF`. -/
def getTl0PicIdx (payload : Bytes) : BitVec 8 :=
  if getPayloadDescriptorSize payload 6 ≠ 6 then 0xFF else byteAt payload 4

/-- `setPicId`: writes the low 15 bits of `picId` with the `M` bit set. -/
def setPicId (payload : Bytes) (picId : BitVec 16) : Bytes :=
  if getPayloadDescriptorSize payload 6 ≠ 6 then payload
  else
    (payload.set 2 (0x80 ||| ((picId &&& 0x7F00) >>> 8).setWidth 8)).set 3
      ((picId &&& 0xFF).setWidth 8)

/-- `setTl0PicIdx`. -/
def setTl0PicIdx (payload : Bytes) (tl0PicIdx : BitVec 8) : Bytes :=
  if getPayloadDescriptorSize payload 6 ≠ 6 then payload else payload.set 4 tl0PicIdx

/-- The payload carries the full six-byte descriptor. -/
def HasFullDescriptor (payload : Bytes) : Prop :=
  6 ≤ payload.length ∧ getPayloadDescriptorSize payload 6 = 6

instance (payload : Bytes) : Decidable (HasFullDescriptor payload) :=
  inferInstanceAs (Decidable (_ ∧ _))

/-! ## The descriptor size reads bytes 0, 1 and the `M` bit of byte 2 -/

theorem getPayloadDescriptorSize_congr {p q : Bytes} (h0 : byteAt p 0 = byteAt q 0)
    (h1 : byteAt p 1 = byteAt q 1) (h2 : getM p = getM q) (n : Nat) :
    getPayloadDescriptorSize p n = getPayloadDescriptorSize q n := by
  unfold getPayloadDescriptorSize getX getI getL getT getK
  rw [h0, h1, h2]

/-- The six-byte form is exactly `X = I = M = L = 1` with `T` or `K`. -/
theorem getPayloadDescriptorSize_eq_six (p : Bytes) :
    getPayloadDescriptorSize p 6 = 6 ↔
      getX p ≠ 0 ∧ getI p = 1 ∧ getM p = 1 ∧ getL p = 1 ∧ (getT p = 1 ∨ getK p = 1) := by
  unfold getPayloadDescriptorSize
  by_cases hx : getX p = 0 <;> by_cases hi : getI p = 1 <;> by_cases hm : getM p = 1 <;>
    by_cases hl : getL p = 1 <;> by_cases ht : (getT p = 1 ∨ getK p = 1) <;>
    simp only [hx, hi, hm, hl, ht] <;> simp_all

/-! ## The getters and setters on a full descriptor -/

section Full

variable {p : Bytes}

theorem getPicId_of_full (h : HasFullDescriptor p) :
    getPicId p = ((byteAt p 2 &&& 0x7F).setWidth 16 <<< 8) ||| (byteAt p 3).setWidth 16 := by
  simp [getPicId, h.2]

theorem getTl0PicIdx_of_full (h : HasFullDescriptor p) : getTl0PicIdx p = byteAt p 4 := by
  simp [getTl0PicIdx, h.2]

/-- Writing the picture id keeps bytes 0 and 1 and sets the `M` bit, so the descriptor stays
full. -/
theorem setPicId_full (h : HasFullDescriptor p) (v : BitVec 16) :
    HasFullDescriptor (setPicId p v) := by
  have hm : getM p = 1 := ((getPayloadDescriptorSize_eq_six p).1 h.2).2.2.1
  have hset : setPicId p v = (p.set 2 (0x80 ||| ((v &&& 0x7F00) >>> 8).setWidth 8)).set 3
      ((v &&& 0xFF).setWidth 8) := by simp [setPicId, h.2]
  have hl := h.1
  rw [hset]
  refine ⟨by simp [h.1], (getPayloadDescriptorSize_congr ?_ ?_ ?_ 6).trans h.2⟩
  · rw [byteAt_set_ne _ _ (by omega), byteAt_set_ne _ _ (by omega)]
  · rw [byteAt_set_ne _ _ (by omega), byteAt_set_ne _ _ (by omega)]
  · rw [hm, getM, byteAt_set_ne _ _ (by omega), byteAt_set_self _ _ (by omega)]
    ext i hi
    interval_cases i <;> simp

/-- The picture id read back is the low 15 bits of the one written. -/
theorem getPicId_setPicId (h : HasFullDescriptor p) (v : BitVec 16) :
    getPicId (setPicId p v) = v &&& 0x7FFF := by
  have hl := h.1
  have hset : setPicId p v = (p.set 2 (0x80 ||| ((v &&& 0x7F00) >>> 8).setWidth 8)).set 3
      ((v &&& 0xFF).setWidth 8) := by simp [setPicId, h.2]
  have hl2 : 3 < (p.set 2 (0x80 ||| ((v &&& 0x7F00) >>> 8).setWidth 8)).length := by
    rw [List.length_set]; omega
  rw [getPicId_of_full (setPicId_full h v), hset, byteAt_set_ne _ _ (by omega),
    byteAt_set_self _ _ (by omega), byteAt_set_self _ _ hl2]
  ext i hi
  simp only [BitVec.getElem_or, BitVec.getElem_and, BitVec.getElem_shiftLeft,
    BitVec.getElem_setWidth]
  interval_cases i <;> simp

theorem getTl0PicIdx_setPicId (h : HasFullDescriptor p) (v : BitVec 16) :
    getTl0PicIdx (setPicId p v) = getTl0PicIdx p := by
  have hset : setPicId p v = (p.set 2 (0x80 ||| ((v &&& 0x7F00) >>> 8).setWidth 8)).set 3
      ((v &&& 0xFF).setWidth 8) := by simp [setPicId, h.2]
  rw [getTl0PicIdx_of_full (setPicId_full h v), getTl0PicIdx_of_full h, hset,
    byteAt_set_ne _ _ (by omega), byteAt_set_ne _ _ (by omega)]

theorem setTl0PicIdx_full (h : HasFullDescriptor p) (v : BitVec 8) :
    HasFullDescriptor (setTl0PicIdx p v) := by
  have hset : setTl0PicIdx p v = p.set 4 v := by simp [setTl0PicIdx, h.2]
  rw [hset]
  refine ⟨by simp [h.1], (getPayloadDescriptorSize_congr ?_ ?_ ?_ 6).trans h.2⟩
  · rw [byteAt_set_ne _ _ (by omega)]
  · rw [byteAt_set_ne _ _ (by omega)]
  · rw [getM, getM, byteAt_set_ne _ _ (by omega)]

theorem getTl0PicIdx_setTl0PicIdx (h : HasFullDescriptor p) (v : BitVec 8) :
    getTl0PicIdx (setTl0PicIdx p v) = v := by
  have hset : setTl0PicIdx p v = p.set 4 v := by simp [setTl0PicIdx, h.2]
  rw [getTl0PicIdx_of_full (setTl0PicIdx_full h v), hset, byteAt_set_self _ _ (by have := h.1; omega)]

theorem getPicId_setTl0PicIdx (h : HasFullDescriptor p) (v : BitVec 8) :
    getPicId (setTl0PicIdx p v) = getPicId p := by
  have hset : setTl0PicIdx p v = p.set 4 v := by simp [setTl0PicIdx, h.2]
  rw [getPicId_of_full (setTl0PicIdx_full h v), getPicId_of_full h, hset,
    byteAt_set_ne _ _ (by omega), byteAt_set_ne _ _ (by omega)]

/-- The picture id of a full descriptor has 15 bits. -/
theorem getPicId_lt (h : HasFullDescriptor p) : (getPicId p).toNat < 2 ^ 15 := by
  have hmask : getPicId p = getPicId p &&& 0x7FFF := by
    rw [getPicId_of_full h]
    ext i hi
    simp only [BitVec.getElem_or, BitVec.getElem_and, BitVec.getElem_shiftLeft,
      BitVec.getElem_setWidth]
    interval_cases i <;> simp
  rw [hmask, BitVec.toNat_and]
  exact Nat.lt_of_le_of_lt Nat.and_le_right (by decide)

end Full

end MediaBridge.Codec.Vp8Header
