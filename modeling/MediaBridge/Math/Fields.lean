import MediaBridge.Lib.BitMask
import Mathlib.Tactic.Abel

set_option autoImplicit false

/-! # `math/Fields.h`: differences in a ring of `2^BITS` elements

`math::ringDifference<T, BITS>(a, b)` is meant to return `(b - a) mod 2^BITS` as a signed
value of `T`'s width, the representative in `[-2^(BITS-1), 2^(BITS-1))`. The rewriters use
it at `<uint32_t, 32>` (sequence numbers and timestamps), `<uint16_t, 15>` (VP8 picture ids)
and `<uint16_t, 8>` (VP8 TL0PICIDX).

A word of `T` is a `BitVec w`, `w = 8 * sizeof(T)`; the signed result is the same bits read
with `toInt`. Which arithmetic the body does depends on `T`. For `uint32_t` and wider every
operation is in `T` (`ringDifferenceInT`), and `ringDifference_toInt` is the comment's
specification. A `T` narrower than `int` is promoted first (`ringDifferenceInInt`): there
`T(0) - 1` is the `int` `-1`, which `>>` shifts in sign bits, so `mask` is all ones of `T`
whatever `BITS` is, and the result is `b - a` in the full width of `T`
(`ringDifference_of_lt`). The congruence modulo `2^BITS` still holds, and that is all the
VP8 rewriter's proofs use; the range `[-2^(BITS-1), 2^(BITS-1))` does not.
-/

namespace MediaBridge.Math

/-- The body of `math::ringDifference<T, BITS>` with every operation in `T`, as the source
computes it when `T` is not narrower than `int`. -/
def ringDifferenceInT (w bits : Nat) (a b : BitVec w) : BitVec w :=
  let mask := BitVec.allOnes w >>> (w - bits)
  let v := (b - a) &&& mask
  if v > mask >>> 1 then v ||| ~~~mask else v

/-- The same body after the integer promotions of a `T` narrower than the 32-bit `int`:
`T(0) - 1` and `>>` are on `int` (an arithmetic shift), `b - a`, `&`, `|` and `~` on the
promoted operands, and each assignment to a `T` keeps the low `w` bits. -/
def ringDifferenceInInt (w bits : Nat) (a b : BitVec w) : BitVec w :=
  let mask : BitVec w := ((0 - 1 : BitVec 32).sshiftRight (w - bits)).setWidth w
  let v : BitVec w := ((b.setWidth 32 - a.setWidth 32) &&& mask.setWidth 32).setWidth w
  if (mask.setWidth 32 >>> 1).slt (v.setWidth 32) then
    (v.setWidth 32 ||| ~~~(mask.setWidth 32)).setWidth w
  else v

/-- `math::ringDifference<T, BITS>`, with `w` the width of `T`. -/
def ringDifference (w bits : Nat) (a b : BitVec w) : BitVec w :=
  if w < 32 then ringDifferenceInInt w bits a b else ringDifferenceInT w bits a b

theorem allOnes_sshiftRight {w : Nat} (hw : 0 < w) (n : Nat) :
    (BitVec.allOnes w).sshiftRight n = BitVec.allOnes w := by
  have hmsb : (BitVec.allOnes w).msb = true := BitVec.msb_allOnes hw
  rw [BitVec.sshiftRight_eq_of_msb_true hmsb, BitVec.not_allOnes, BitVec.zero_ushiftRight,
    BitVec.not_zero]

theorem setWidth_allOnes_of_le {v w : Nat} (h : w ≤ v) :
    (BitVec.allOnes v).setWidth w = BitVec.allOnes w := by
  ext i hi
  simp only [BitVec.getElem_setWidth, BitVec.getElem_allOnes]
  simp
  omega

/-- After the promotion the mask is all ones, so the body is plain wrapping subtraction in
`T`, whatever `BITS` is. -/
theorem ringDifferenceInInt_eq {w : Nat} (hw : w ≤ 32) (bits : Nat) (a b : BitVec w) :
    ringDifferenceInInt w bits a b = b - a := by
  -- `-1 >> k` is `-1` on `int`, and its low `w` bits are all ones
  have hmask : ((0 - 1 : BitVec 32).sshiftRight (w - bits)).setWidth w = BitVec.allOnes w := by
    rw [show (0 - 1 : BitVec 32) = BitVec.allOnes 32 by decide, allOnes_sshiftRight (by omega),
      setWidth_allOnes_of_le hw]
  have hsub : (b.setWidth 32 - a.setWidth 32).setWidth w = b - a := by
    rw [BitVec.sub_eq_add_neg, BitVec.setWidth_add _ _ hw, BitVec.setWidth_neg_of_le hw,
      BitVec.setWidth_setWidth_of_le _ hw, BitVec.setWidth_setWidth_of_le _ hw,
      BitVec.setWidth_eq, BitVec.setWidth_eq, ← BitVec.sub_eq_add_neg]
  unfold ringDifferenceInInt
  -- both branches of the source leave `v`: `v | ~mask` has no bit of `T` more than `v`
  simp only [hmask, BitVec.setWidth_and, BitVec.setWidth_or, BitVec.setWidth_not hw,
    BitVec.setWidth_setWidth_of_le _ hw, hsub, BitVec.setWidth_eq, BitVec.and_allOnes,
    BitVec.not_allOnes, BitVec.or_zero, ite_self]

/-- For a `T` narrower than `int` the difference is `b - a` in the full width of `T`: `BITS`
is not used. -/
theorem ringDifference_of_lt {w : Nat} (hw : w < 32) (bits : Nat) (a b : BitVec w) :
    ringDifference w bits a b = b - a := by
  rw [ringDifference, if_pos hw, ringDifferenceInInt_eq (by omega)]

theorem ringDifference_of_ge {w : Nat} (hw : 32 ≤ w) (bits : Nat) (a b : BitVec w) :
    ringDifference w bits a b = ringDifferenceInT w bits a b := by
  rw [ringDifference, if_neg (by omega)]

/-- **Specification of the body in `T`**: its signed value is the balanced residue of
`b - a` modulo `2^BITS`, for every pair of words (the source asserts `a, b < 2^BITS`; the
result does not depend on it). -/
theorem ringDifferenceInT_toInt {w bits : Nat} (h1 : 0 < bits) (h : bits ≤ w) (a b : BitVec w) :
    (ringDifferenceInT w bits a b).toInt = ((b.toNat : Int) - a.toNat).bmod (2 ^ bits) := by
  have hv := BitMask.sub_toNat_emod h a b
  have hM : 2 ^ bits = 2 * 2 ^ (bits - 1) := by rw [← Nat.pow_succ']; congr 1; omega
  have hW : 2 ^ w = 2 * 2 ^ (w - 1) := by rw [← Nat.pow_succ']; congr 1; omega
  have hMW : 2 ^ bits ≤ 2 ^ w := Nat.pow_le_pow_right (by omega) h
  have hlt : (b - a).toNat % 2 ^ bits < 2 ^ bits := Nat.mod_lt _ (Nat.two_pow_pos _)
  rw [← Int.emod_bmod, Int.natCast_pow, Nat.cast_ofNat, ← hv, BitMask.bmod_natCast_of_lt hlt]
  clear hv
  unfold ringDifferenceInT
  simp only [gt_iff_lt, BitVec.lt_def, BitMask.lowMask_half_toNat h h1, BitMask.and_lowMask_toNat h]
  -- the two branches of the source: a residue in the upper half gets the high bits set
  split
  · rw [BitVec.toInt_eq_toNat_cond, BitMask.and_lowMask_or_not_toNat h]
    generalize (b - a).toNat % 2 ^ bits = r at *
    generalize 2 ^ w = W at *
    generalize 2 ^ bits = M at *
    split <;> split <;> omega
  · rw [BitVec.toInt_eq_toNat_cond, BitMask.and_lowMask_toNat h]
    generalize (b - a).toNat % 2 ^ bits = r at *
    generalize 2 ^ w = W at *
    generalize 2 ^ bits = M at *
    split <;> split <;> omega

/-- **Specification of `ringDifference`** for `uint32_t` and wider: the signed result is the
balanced residue of `b - a` modulo `2^BITS`. -/
theorem ringDifference_toInt {w bits : Nat} (hw : 32 ≤ w) (h1 : 0 < bits) (h : bits ≤ w)
    (a b : BitVec w) :
    (ringDifference w bits a b).toInt = ((b.toNat : Int) - a.toNat).bmod (2 ^ bits) := by
  rw [ringDifference_of_ge hw, ringDifferenceInT_toInt h1 h]

example : (ringDifference 32 12 0xFFF 444).toInt = 445 := by decide
example : (ringDifference 32 12 445 444).toInt = -1 := by decide

theorem ringDifferenceInT_full (w : Nat) (a b : BitVec w) : ringDifferenceInT w w a b = b - a := by
  unfold ringDifferenceInT
  simp only [Nat.sub_self, BitVec.ushiftRight_zero, BitVec.and_allOnes, BitVec.not_allOnes,
    BitVec.or_zero, ite_self]

/-- At full width the difference is plain wrapping subtraction. -/
theorem ringDifference_full (w : Nat) (a b : BitVec w) : ringDifference w w a b = b - a := by
  by_cases hw : w < 32
  · exact ringDifference_of_lt hw w a b
  · rw [ringDifference_of_ge (by omega), ringDifferenceInT_full]

/-- A wrapping difference read as a signed word is the balanced residue of the difference. -/
theorem sub_toInt {w : Nat} (hw : 0 < w) (a b : BitVec w) :
    (a - b).toInt = ((a.toNat : Int) - b.toNat).bmod (2 ^ w) := by
  rw [← ringDifferenceInT_full, ringDifferenceInT_toInt hw le_rfl]

/-- At full width adding the difference to `a` gives `b`. -/
theorem add_ringDifference_full (w : Nat) (a b : BitVec w) : a + ringDifference w w a b = b := by
  rw [ringDifference_full]
  abel

/-- Adding the difference to `a` gives `b` modulo `2^BITS`, for every `T`. -/
theorem ringDifference_add_emod {w bits : Nat} (h1 : 0 < bits) (h : bits ≤ w) (a b : BitVec w) :
    ((a + ringDifference w bits a b).toNat : Int) % 2 ^ bits = (b.toNat : Int) % 2 ^ bits := by
  by_cases hw : w < 32
  -- a promoted `T`: the difference is `b - a` itself
  · rw [ringDifference_of_lt hw, add_sub_cancel]
  set d := ringDifference w bits a b with hd
  have hdvd : (2 : Int) ^ bits ∣ 2 ^ w := pow_dvd_pow 2 h
  have hsum : ((a + d).toNat : Int) % 2 ^ bits = ((a.toNat : Int) + d.toNat) % 2 ^ bits := by
    rw [BitVec.toNat_add, Int.natCast_emod, Int.natCast_pow, Nat.cast_ofNat,
      Int.emod_emod_of_dvd _ hdvd]
    push_cast; rfl
  have hnat : (d.toNat : Int) % 2 ^ bits = d.toInt % 2 ^ bits := by
    rw [BitVec.toInt_eq_toNat_cond]
    split
    · rfl
    · obtain ⟨c, hc⟩ := hdvd
      rw [Int.natCast_pow, Nat.cast_ofNat, hc,
        show (d.toNat : Int) - 2 ^ bits * c = d.toNat + 2 ^ bits * (-c) by ring,
        Int.add_mul_emod_self_left]
  have hint : d.toInt % 2 ^ bits = ((b.toNat : Int) - a.toNat) % 2 ^ bits := by
    have e : (2 : Int) ^ bits = ((2 ^ bits : Nat) : Int) := by push_cast; rfl
    rw [hd, ringDifference_toInt (by omega) h1 h, e, Int.bmod_emod]
  calc ((a + d).toNat : Int) % 2 ^ bits
      = ((a.toNat : Int) + d.toNat % 2 ^ bits) % 2 ^ bits := by rw [hsum, Int.add_emod_emod]
    _ = ((a.toNat : Int) + ((b.toNat : Int) - a.toNat) % 2 ^ bits) % 2 ^ bits := by rw [hnat, hint]
    _ = (b.toNat : Int) % 2 ^ bits := by rw [Int.add_emod_emod]; ring_nf

/-- The low `BITS` bits of `a + ringDifference a b` are those of `b`. -/
theorem ringDifference_add_setWidth {w bits : Nat} (h1 : 0 < bits) (h : bits ≤ w)
    (a b : BitVec w) :
    (a + ringDifference w bits a b).setWidth bits = b.setWidth bits := by
  apply BitVec.eq_of_toNat_eq
  rw [BitVec.toNat_setWidth, BitVec.toNat_setWidth]
  exact_mod_cast ringDifference_add_emod h1 h a b

/-- At the instantiations of the VP8 rewriter the result leaves the range
`[-2^(BITS-1), 2^(BITS-1))`: for `a = 0` and `b = 2^(BITS-1)`, both below `2^BITS`, it is
`2^(BITS-1)` itself, where the balanced residue is `-2^(BITS-1)`. -/
theorem ringDifference_uint16_leaves_range :
    (ringDifference 16 15 0 0x4000).toInt = 2 ^ 14 ∧ (ringDifference 16 8 0 0x80).toInt = 2 ^ 7 := by
  constructor
  · rw [ringDifference_of_lt (by omega)]
    decide
  · rw [ringDifference_of_lt (by omega)]
    decide

end MediaBridge.Math
