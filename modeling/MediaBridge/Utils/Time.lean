import Mathlib.Data.BitVec

set_option autoImplicit false

/-! # `utils::Time`: nanosecond timestamps

Timestamps are `uint64_t` nanoseconds. The helpers compare two of them through their
difference taken as a signed 64-bit number, so that a clock wrapping around still compares
right while the two are less than half the range apart.
-/

namespace MediaBridge.Bridge

/-- `utils::Time::ms`, in nanoseconds. -/
def Time.ms : BitVec 64 := 1000000

/-- `utils::Time::sec`, in nanoseconds. -/
def Time.sec : BitVec 64 := 1000000000

/-- `utils::Time::diffGT(a, b, value)`: `b - a`, as a signed 64-bit difference, is more than
`value`. -/
def Time.diffGT (a b value : BitVec 64) : Bool := decide ((b - a).toInt > value.toInt)

/-- `utils::Time::diffLT(a, b, value)`: `b - a`, as a signed 64-bit difference, is less than
`value`. -/
def Time.diffLT (a b value : BitVec 64) : Bool := decide ((b - a).toInt < value.toInt)

/-- Of two timestamps in order, the later is more than `value` after the earlier when
`diffGT` says so, for a `value` below half the range. -/
theorem Time.add_lt_of_diffGT {a b value : BitVec 64} (h : Time.diffGT a b value = true)
    (hab : a.toNat ≤ b.toNat) (hvalue : 2 * value.toNat < 2 ^ 64) :
    a.toNat + value.toNat < b.toNat := by
  have hgt := of_decide_eq_true h
  have ha := a.isLt
  have hb := b.isLt
  rw [BitVec.toInt_eq_toNat_cond, BitVec.toInt_eq_toNat_cond, BitVec.toNat_sub, if_pos hvalue]
    at hgt
  split_ifs at hgt <;> omega

end MediaBridge.Bridge
