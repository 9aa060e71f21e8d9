import Mathlib.Data.BitVec
import Mathlib.Data.Nat.Size
import Mathlib.Tactic.Ring

set_option autoImplicit false

/-! # Low-bit masks of fixed-width words

Code on unsigned words computes "modulo `2^k`" with the mask of the low `k` bits, written
as all ones shifted right by `w - k`, and turns such a residue into a negative number by
setting the bits above it. These are the facts that identify those bit operations with
arithmetic on `Nat` and `Int`, for any width `w` and any `k ≤ w`.
-/

namespace BitMask

theorem two_pow_split {w k : Nat} (h : k ≤ w) : 2 ^ w = 2 ^ k * 2 ^ (w - k) := by
  rw [← Nat.pow_add]; congr 1; omega

/-- The mask of the low `k` bits of a `w`-bit word. -/
theorem lowMask_toNat {w k : Nat} (h : k ≤ w) :
    (BitVec.allOnes w >>> (w - k)).toNat = 2 ^ k - 1 := by
  rw [BitVec.toNat_ushiftRight, BitVec.toNat_allOnes, Nat.shiftRight_eq_div_pow, two_pow_split h]
  have hp : 0 < 2 ^ (w - k) := Nat.two_pow_pos _
  have hq : 0 < 2 ^ k := Nat.two_pow_pos _
  apply Nat.div_eq_of_lt_le
  · rw [Nat.sub_one_mul]; omega
  · rw [Nat.sub_add_cancel hq]
    have : 0 < 2 ^ k * 2 ^ (w - k) := Nat.mul_pos hq hp
    omega

/-- Half the mask is the largest residue below `2^(k-1)`. -/
theorem lowMask_half_toNat {w k : Nat} (h : k ≤ w) (h1 : 0 < k) :
    (BitVec.allOnes w >>> (w - k) >>> 1).toNat = 2 ^ (k - 1) - 1 := by
  rw [BitVec.toNat_ushiftRight, lowMask_toNat h, Nat.shiftRight_eq_div_pow, Nat.pow_one]
  have : 2 ^ k = 2 * 2 ^ (k - 1) := by rw [← Nat.pow_succ']; congr 1; omega
  have hq : 0 < 2 ^ (k - 1) := Nat.two_pow_pos _
  omega

theorem and_lowMask_toNat {w k : Nat} (h : k ≤ w) (x : BitVec w) :
    (x &&& BitVec.allOnes w >>> (w - k)).toNat = x.toNat % 2 ^ k := by
  rw [BitVec.toNat_and, lowMask_toNat h, Nat.and_two_pow_sub_one_eq_mod]

/-- Masking the low `k` bits is truncating to `k` bits and extending back. -/
theorem and_lowMask_eq_setWidth {w k : Nat} (h : k ≤ w) (x : BitVec w) :
    x &&& BitVec.allOnes w >>> (w - k) = (x.setWidth k).setWidth w := by
  apply BitVec.eq_of_toNat_eq
  have hq : 2 ^ k ≤ 2 ^ w := Nat.pow_le_pow_right (by omega) h
  have hv : x.toNat % 2 ^ k < 2 ^ k := Nat.mod_lt _ (Nat.two_pow_pos _)
  rw [and_lowMask_toNat h, BitVec.toNat_setWidth, BitVec.toNat_setWidth,
    Nat.mod_eq_of_lt (show x.toNat % 2 ^ k < 2 ^ w by omega)]

/-- Adding a truncated word is adding in the wide ring and truncating. -/
theorem add_setWidth_eq {k w : Nat} (h : k ≤ w) (t : BitVec k) (d : BitVec w) :
    t + d.setWidth k = (t.setWidth w + d).setWidth k := by
  rw [BitVec.setWidth_add _ _ h, BitVec.setWidth_setWidth_of_le _ h, BitVec.setWidth_eq]

/-- Setting the bits above a residue subtracts `2^k` modulo `2^w`. -/
theorem and_lowMask_or_not_toNat {w k : Nat} (h : k ≤ w) (x : BitVec w) :
    ((x &&& BitVec.allOnes w >>> (w - k)) ||| ~~~(BitVec.allOnes w >>> (w - k))).toNat
      = x.toNat % 2 ^ k + 2 ^ w - 2 ^ k := by
  set mask := BitVec.allOnes w >>> (w - k) with hmask
  have hdis : (x &&& mask) &&& ~~~mask = 0#w := by simp [BitVec.and_assoc]
  have hq : 2 ^ k ≤ 2 ^ w := Nat.pow_le_pow_right (by omega) h
  have hv : x.toNat % 2 ^ k < 2 ^ k := Nat.mod_lt _ (Nat.two_pow_pos _)
  rw [← BitVec.add_eq_or_of_and_eq_zero _ _ hdis, BitVec.toNat_add, BitVec.toNat_not,
    and_lowMask_toNat h, hmask, lowMask_toNat h, Nat.mod_eq_of_lt (by omega)]
  omega

/-- The low `k` bits of a difference are the integer difference modulo `2^k`. -/
theorem sub_toNat_emod {w k : Nat} (h : k ≤ w) (a b : BitVec w) :
    (((b - a).toNat % 2 ^ k : Nat) : Int) = ((b.toNat : Int) - a.toNat) % 2 ^ k := by
  have ha := a.isLt
  rw [BitVec.toNat_sub, Nat.mod_mod_of_dvd _ (Nat.pow_dvd_pow 2 h), Int.natCast_emod,
    Nat.cast_add, Nat.cast_sub ha.le, two_pow_split h]
  push_cast
  rw [show (2 : Int) ^ k * 2 ^ (w - k) - a.toNat + b.toNat
      = b.toNat - a.toNat + 2 ^ k * 2 ^ (w - k) by ring, Int.add_mul_emod_self_left]

/-- A word's signed and unsigned readings agree modulo `2^w`. -/
theorem toInt_emod {w : Nat} (x : BitVec w) : x.toInt % 2 ^ w = (x.toNat : Int) % 2 ^ w := by
  have e : (2 : Int) ^ w = ((2 ^ w : Nat) : Int) := by push_cast; rfl
  rw [BitVec.toInt_eq_toNat_bmod, e, Int.bmod_emod]

/-- The balanced residue of a residue `r < m`. -/
theorem bmod_natCast_of_lt {r m : Nat} (hr : r < m) :
    (r : Int).bmod m = if 2 * r < m then (r : Int) else r - m := by
  rw [Int.bmod_def, Int.emod_eq_of_lt (by omega) (by omega)]
  split <;> split <;> omega

/-! ## Alignment masks on `Nat`

A size rounded down to a multiple of four is often written `x & 0xFFFC`, a mask that also
drops every bit from the sixteenth on. -/

theorem land_shiftLeft (x m k : Nat) : x &&& m <<< k = (x >>> k &&& m) <<< k := by
  apply Nat.eq_of_testBit_eq
  intro i
  simp only [Nat.testBit_and, Nat.testBit_shiftLeft, Nat.testBit_shiftRight]
  by_cases hi : k ≤ i
  · have : k + (i - k) = i := by omega
    simp [hi, this]
  · simp [hi]

/-- The mask of bits `k` to `k + n - 1`: `x` rounded down to a multiple of `2^k`, modulo
`2^(n + k)`. -/
theorem land_alignMask (x n k : Nat) : x &&& (2 ^ n - 1) <<< k = x / 2 ^ k % 2 ^ n * 2 ^ k := by
  rw [land_shiftLeft, Nat.and_two_pow_sub_one_eq_mod, Nat.shiftRight_eq_div_pow, Nat.shiftLeft_eq]

/-! ## The bits above a mask

Code tests whether a word fits in `k` bits as `x & ~((1 << k) - 1)`, zero exactly when `x`
is below `2^k`. -/

theorem and_not_eq_zero_iff {w : Nat} (x m : BitVec w) : x &&& ~~~m = 0 ↔ x &&& m = x := by
  constructor
  · intro h
    ext i hi
    -- bit by bit: a bit of `x` outside `m` would survive the first mask
    have hb := congrArg (fun y => y.getLsbD i) h
    simp at hb
    simp
    grind
  · intro h
    rw [← h, BitVec.and_assoc, BitVec.and_not_self]
    simp

theorem shiftLeft_sub_one_toNat {w k : Nat} (h : k < w) :
    ((1 : BitVec w) <<< k - 1).toNat = 2 ^ k - 1 := by
  have hk : 2 ^ k < 2 ^ w := Nat.pow_lt_pow_right (by omega) h
  have hpos := Nat.two_pow_pos k
  have h1 : (1 : BitVec w).toNat = 1 := by simp; omega
  rw [BitVec.toNat_sub, BitVec.toNat_shiftLeft, h1, Nat.one_shiftLeft, Nat.mod_eq_of_lt hk,
    show 2 ^ w - 1 + 2 ^ k = (2 ^ k - 1) + 2 ^ w by omega, Nat.add_mod_right,
    Nat.mod_eq_of_lt (by omega)]

theorem and_not_lowBits_eq_zero_iff {w k : Nat} (hk : k < w) (x : BitVec w) :
    x &&& ~~~((1 : BitVec w) <<< k - 1) = 0 ↔ x.toNat < 2 ^ k := by
  rw [and_not_eq_zero_iff, ← BitVec.toNat_inj, BitVec.toNat_and, shiftLeft_sub_one_toNat hk,
    Nat.and_two_pow_sub_one_eq_mod]
  exact Nat.mod_eq_iff_lt (Nat.two_pow_pos k).ne'

/-! ## Bit length and packing

The bit length of `n` is Mathlib's `Nat.size n`; shifting right by one takes one bit off it.
A field shifted into place above a smaller one is or-ed with it, which is adding. -/

theorem size_div_two (n : Nat) : (n / 2).size = n.size - 1 := by
  apply le_antisymm
  · apply Nat.size_le.mpr
    have hlt := Nat.lt_size_self n
    rcases Nat.eq_zero_or_pos n.size with h0 | hpos
    · rw [h0] at hlt ⊢
      omega
    · have hsplit : 2 ^ n.size = 2 * 2 ^ (n.size - 1) := by
        rw [← Nat.pow_succ']
        congr 1
        omega
      omega
  · rcases Nat.lt_or_ge n.size 2 with hs | hs
    · omega
    · have hle : 2 ^ (n.size - 1) ≤ n := Nat.lt_size.mp (by omega)
      have hsplit : 2 ^ (n.size - 1) = 2 * 2 ^ (n.size - 2) := by
        rw [← Nat.pow_succ']
        congr 1
        omega
      have : n.size - 2 < (n / 2).size := Nat.lt_size.mpr (by omega)
      omega

theorem mul_two_pow_or {a b i : Nat} (hb : b < 2 ^ i) : a * 2 ^ i ||| b = a * 2 ^ i + b := by
  rw [← Nat.shiftLeft_eq, Nat.shiftLeft_add_eq_or_of_lt hb]

end BitMask
