import Mathlib.Data.BitVec

set_option autoImplicit false

/-! # Byte buffers

Code that parses packets reads bytes at offsets into a buffer. A buffer is the list of its
bytes; a read past the end gives `0`, so readers are total and a lemma states where the
offsets read lie. Writes are `List.set`.
-/

namespace Buffer

/-- A buffer, byte by byte. -/
abbrev Bytes := List (BitVec 8)

/-- The byte at offset `i` (`0` past the end). -/
def byteAt (p : Bytes) (i : Nat) : BitVec 8 := p.getD i 0

/-- The big-endian 16-bit word at offset `i` (network byte order). -/
def be16 (p : Bytes) (i : Nat) : Nat := (byteAt p i).toNat * 256 + (byteAt p (i + 1)).toNat

/-- The big-endian 32-bit word at offset `i`. -/
def be32 (p : Bytes) (i : Nat) : Nat := be16 p i * 65536 + be16 p (i + 2)

/-- The little-endian 32-bit word at offset `i`: a `uint32_t` read in host order on a
little-endian machine. -/
def le32 (p : Bytes) (i : Nat) : Nat :=
  (byteAt p i).toNat + (byteAt p (i + 1)).toNat * 256 + (byteAt p (i + 2)).toNat * 65536 +
    (byteAt p (i + 3)).toNat * 16777216

/-- Past the end, every byte reads as `0`. -/
theorem byteAt_of_le (p : Bytes) {i : Nat} (h : p.length ≤ i) : byteAt p i = 0 := by
  simp [byteAt, List.getD_eq_getElem?_getD, List.getElem?_eq_none h]

/-- A buffer given byte by byte by a function of the offset. -/
theorem byteAt_map_range (f : Nat → BitVec 8) (n i : Nat) :
    byteAt ((List.range n).map f) i = if i < n then f i else 0 := by
  by_cases h : i < n
  · simp [byteAt, List.getD_eq_getElem?_getD, h]
  · simp [byteAt, List.getD_eq_getElem?_getD, h]

theorem byteAt_set_ne (p : Bytes) {i j : Nat} (v : BitVec 8) (h : i ≠ j) :
    byteAt (p.set i v) j = byteAt p j := by
  simp [byteAt, List.getD_eq_getElem?_getD, List.getElem?_set_ne h]

theorem byteAt_set_self (p : Bytes) {i : Nat} (v : BitVec 8) (h : i < p.length) :
    byteAt (p.set i v) i = v := by
  simp [byteAt, List.getD_eq_getElem?_getD, h]

/-- Bytes before the end of a prefix are read from the prefix. -/
theorem byteAt_append_left (p q : Bytes) {i : Nat} (h : i < p.length) :
    byteAt (p ++ q) i = byteAt p i := by
  simp [byteAt, List.getD_eq_getElem?_getD, List.getElem?_append_left h]

/-- Bytes after a prefix are read from the rest. -/
theorem byteAt_append_right (p q : Bytes) (i : Nat) :
    byteAt (p ++ q) (p.length + i) = byteAt q i := by
  simp [byteAt, List.getD_eq_getElem?_getD, List.getElem?_append_right]

/-- Reading the rest of a buffer from an offset is reading the buffer there. -/
theorem byteAt_drop (p : Bytes) (k i : Nat) : byteAt (p.drop k) i = byteAt p (k + i) := by
  simp [byteAt, List.getD_eq_getElem?_getD, List.getElem?_drop]

theorem be16_drop (p : Bytes) (k i : Nat) : be16 (p.drop k) i = be16 p (k + i) := by
  unfold be16
  rw [byteAt_drop, byteAt_drop, Nat.add_assoc]

theorem be32_drop (p : Bytes) (k i : Nat) : be32 (p.drop k) i = be32 p (k + i) := by
  unfold be32
  rw [be16_drop, be16_drop, Nat.add_assoc]

/-- A 16-bit word inside a prefix is read from the prefix. -/
theorem be16_append_left (p q : Bytes) {i : Nat} (h : i + 1 < p.length) :
    be16 (p ++ q) i = be16 p i := by
  unfold be16
  rw [byteAt_append_left p q (by omega), byteAt_append_left p q h]

/-- A buffer given byte by byte by a function of its offsets. -/
theorem byteAt_ofFn {n : Nat} (f : Fin n → BitVec 8) (i : Fin n) : byteAt (List.ofFn f) i = f i := by
  simp [byteAt, List.getD_eq_getElem?_getD]

/-- A buffer read byte by byte is the buffer. -/
theorem ofFn_byteAt {n : Nat} {p : Bytes} (h : p.length = n) :
    (List.ofFn fun i : Fin n => byteAt p i) = p := by
  apply List.ext_getElem (by simp [h])
  intro i _ h₂
  simp [byteAt, List.getD_eq_getElem?_getD, h₂]

/-- A 16-bit value written in network byte order: the high byte, then the low byte. -/
def be16Bytes (x : Nat) : Bytes := [BitVec.ofNat 8 (x / 256), BitVec.ofNat 8 x]

/-- A 32-bit value written in network byte order. -/
def be32Bytes (x : Nat) : Bytes := be16Bytes (x / 65536) ++ be16Bytes x

@[simp] theorem length_be16Bytes (x : Nat) : (be16Bytes x).length = 2 := rfl

@[simp] theorem length_be32Bytes (x : Nat) : (be32Bytes x).length = 4 := rfl

/-- Reading back a written 16-bit value. -/
theorem be16_be16Bytes (p q : Bytes) (x : Nat) : be16 (p ++ be16Bytes x ++ q) p.length = x % 65536 := by
  have h₀ : byteAt (p ++ be16Bytes x ++ q) p.length = BitVec.ofNat 8 (x / 256) := by
    have h := byteAt_append_right p (be16Bytes x ++ q) 0
    rw [Nat.add_zero] at h
    rw [List.append_assoc, h]
    rfl
  have h₁ : byteAt (p ++ be16Bytes x ++ q) (p.length + 1) = BitVec.ofNat 8 x := by
    rw [List.append_assoc, byteAt_append_right]
    rfl
  unfold be16
  rw [h₀, h₁, BitVec.toNat_ofNat, BitVec.toNat_ofNat]
  omega

/-- Writing back a 16-bit word read from a buffer gives its two bytes. -/
theorem be16Bytes_be16 (p : Bytes) (i : Nat) : be16Bytes (be16 p i) = [byteAt p i, byteAt p (i + 1)] := by
  have h₀ := (byteAt p i).isLt
  have h₁ := (byteAt p (i + 1)).isLt
  unfold be16Bytes be16
  congr 1
  · apply BitVec.eq_of_toNat_eq
    rw [BitVec.toNat_ofNat]
    omega
  · congr 1
    apply BitVec.eq_of_toNat_eq
    rw [BitVec.toNat_ofNat]
    omega

/-- Reading back a written 32-bit value. -/
theorem be32_be32Bytes (p q : Bytes) (x : Nat) :
    be32 (p ++ be32Bytes x ++ q) p.length = x % 4294967296 := by
  have hhi : be16 (p ++ be32Bytes x ++ q) p.length = x / 65536 % 65536 := by
    rw [be32Bytes, List.append_assoc, List.append_assoc, ← List.append_assoc p]
    exact be16_be16Bytes p _ _
  have hlo : be16 (p ++ be32Bytes x ++ q) (p.length + 2) = x % 65536 := by
    rw [be32Bytes, ← List.append_assoc p]
    have h := be16_be16Bytes (p ++ be16Bytes (x / 65536)) q x
    rwa [List.length_append, length_be16Bytes] at h
  unfold be32
  rw [hhi, hlo]
  omega

/-- A 32-bit value written in little-endian byte order. -/
def le32Bytes (x : Nat) : Bytes :=
  [BitVec.ofNat 8 x, BitVec.ofNat 8 (x / 256), BitVec.ofNat 8 (x / 65536),
    BitVec.ofNat 8 (x / 16777216)]

@[simp] theorem length_le32Bytes (x : Nat) : (le32Bytes x).length = 4 := rfl

/-- Reading back a 32-bit value written in little-endian order. -/
theorem le32_le32Bytes (p q : Bytes) (x : Nat) :
    le32 (p ++ le32Bytes x ++ q) p.length = x % 4294967296 := by
  have hk : ∀ k, k < 4 → byteAt (p ++ le32Bytes x ++ q) (p.length + k) = (le32Bytes x).getD k 0 := by
    intro k hk
    rw [List.append_assoc, byteAt_append_right, byteAt, List.getD_eq_getElem?_getD,
      List.getD_eq_getElem?_getD, List.getElem?_append_left (by simpa using hk)]
  unfold le32
  rw [← Nat.add_zero p.length, hk 0 (by omega), Nat.add_assoc, hk 1 (by omega), Nat.add_assoc,
    hk 2 (by omega), Nat.add_assoc, hk 3 (by omega)]
  simp only [le32Bytes, List.getD_cons_zero, List.getD_cons_succ, BitVec.toNat_ofNat]
  omega

end Buffer
