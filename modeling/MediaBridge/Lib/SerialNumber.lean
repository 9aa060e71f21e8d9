import Mathlib.Data.BitVec
import Mathlib.Data.List.Chain
import Mathlib.Tactic.Abel

set_option autoImplicit false

/-! # Serial number order on a ring of words

Sequence numbers of a fixed width `w` wrap around, so two of them are compared through their
difference read as a signed word: `a` comes before `c` when `(a - c).toInt ≤ 0`. This is not
an order on the ring: the two words half the ring apart read as before each other both ways,
because their difference is `intMin w` whichever way it is taken (`sub_eq_intMin_of_toInt_neg`);
every other pair swaps the sign of its difference (`toInt_sub_swap_nonpos`).

Inside a window of fewer than `2^(w-1)` words above a base the signed difference is the
difference of the offsets from the base (`toInt_sub_of_window`), so a list whose neighbours
are in serial order is sorted by offset there (`pairwise_offset_of_isChain`).
-/

namespace SerialNumber

variable {w : Nat}

/-- A word in the lower half of the ring reads as its own value. -/
theorem toInt_eq_toNat_of_lt {x : BitVec w} (h : 2 * x.toNat < 2 ^ w) : x.toInt = x.toNat := by
  rw [BitVec.toInt_eq_toNat_cond, if_pos h]

/-- Inside a window above `base`, the signed difference of two words is the difference of
their offsets from `base`. -/
theorem toInt_sub_of_window {base a c : BitVec w} (ha : 2 * (a - base).toNat < 2 ^ w)
    (hc : 2 * (c - base).toNat < 2 ^ w) :
    (a - c).toInt = ((a - base).toNat : Int) - (c - base).toNat := by
  have hsplit : a - c = (a - base) - (c - base) := by abel
  rw [hsplit, BitVec.toInt_sub, toInt_eq_toNat_of_lt ha, toInt_eq_toNat_of_lt hc]
  -- both offsets are below half the ring, so their difference is its own balanced residue
  apply Int.bmod_eq_of_le <;> omega

theorem toInt_intMin_nonpos : (BitVec.intMin w).toInt ≤ 0 := by
  rw [BitVec.toInt_intMin]; omega

/-- A difference that reads as nonnegative reads as nonpositive the other way round. -/
theorem toInt_sub_swap_nonpos {a c : BitVec w} (h : 0 ≤ (a - c).toInt) : (c - a).toInt ≤ 0 := by
  have hneg : c - a = -(a - c) := by abel
  rw [hneg, BitVec.toInt_neg_eq_ite]
  split
  · next hmin => rw [hmin]; exact toInt_intMin_nonpos
  · omega

/-- Two words that read as before each other both ways are half the ring apart. -/
theorem sub_eq_intMin_of_toInt_neg {a c : BitVec w} (h : (a - c).toInt < 0)
    (h' : (c - a).toInt ≤ 0) : a - c = BitVec.intMin w := by
  have hneg : c - a = -(a - c) := by abel
  by_contra hmin
  rw [hneg, BitVec.toInt_neg_of_ne_intMin hmin] at h'
  omega

/-- A list whose neighbours are in serial order and whose words lie in a window of fewer than
half the ring above `base` is sorted by offset from `base`. -/
theorem pairwise_offset_of_isChain {α : Type} (f : α → BitVec w) (base : BitVec w) {l : List α}
    (hwin : ∀ x ∈ l, 2 * (f x - base).toNat < 2 ^ w)
    (hl : l.IsChain fun x y => (f x - f y).toInt ≤ 0) :
    l.Pairwise fun x y => (f x - base).toNat ≤ (f y - base).toNat := by
  have hoff : l.IsChain fun x y => (f x - base).toNat ≤ (f y - base).toNat := by
    refine (List.IsChain.iff_mem.mp hl).imp ?_
    rintro x y ⟨hx, hy, hxy⟩
    rw [toInt_sub_of_window (hwin x hx) (hwin y hy)] at hxy
    omega
  -- the offsets form a chain of `≤` on `Nat`, which is transitive
  have hmap := ((List.isChain_map fun x => (f x - base).toNat).mpr hoff).pairwise
  exact List.pairwise_map.mp hmap

end SerialNumber
