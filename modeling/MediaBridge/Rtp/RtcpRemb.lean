import MediaBridge.Lib.BitMask

set_option autoImplicit false

/-! # REMB bitrates: `math::extractMantissaExponent` and `RtcpRembFeedback`

A REMB feedback message (receiver estimated maximum bitrate) carries a bitrate in three bytes,
a 6-bit exponent and an 18-bit mantissa. `setBitrate` finds the two with
`math::extractMantissaExponent<18, 6>`, which shifts the value right until it fits in 18 bits,
and packs them; `getBitrate` unpacks them and shifts the mantissa back.

The shifting loop takes off `n.size - 18` bits of `n` (`shiftOutLoop_eq`), so the round trip
(`getBitrate_setBitrate`) reads back `n` with that many low bits cleared. Of the values an
18-bit mantissa can write, that is the largest one not above `n`, and it is short of `n` by
less than `2^-17` of it.

Of `RtcpRembFeedback` the model keeps the three bitrate bytes, the only fields the two
functions read or write.
-/

namespace MediaBridge.Math

open BitMask

/-- The loop of `extractMantissaExponent`: shift `value` right, counting in `exponent`, while
a bit above `maxMantissa` is set. -/
def shiftOutLoop (maxMantissa value : BitVec 64) (exponent : BitVec 32) :
    BitVec 64 × BitVec 32 :=
  if h : value &&& ~~~maxMantissa ≠ 0 then
    shiftOutLoop maxMantissa (value >>> 1) (exponent + 1)
  else (value, exponent)
termination_by value.toNat
decreasing_by
  -- a set bit makes `value` positive, and halving a positive number makes it smaller
  have hv : value ≠ 0 := fun h0 => h (by rw [h0]; simp)
  have hpos : 0 < value.toNat := by
    rcases Nat.eq_zero_or_pos value.toNat with h0 | h0
    · exact absurd (BitVec.eq_of_toNat_eq (by simpa using h0)) hv
    · exact h0
  rw [BitVec.toNat_ushiftRight, Nat.shiftRight_one]
  omega

/-- `math::extractMantissaExponent<mantissaBits, exponentBits>(value, mantissa, exponent)`:
whether the exponent fits in `exponentBits` bits, with `mantissa` as the call leaves it (the
caller's, when the exponent does not fit) and `exponent`. -/
def extractMantissaExponent (mantissaBits exponentBits : Nat) (value : BitVec 64)
    (mantissa : BitVec 32) : Bool × BitVec 32 × BitVec 32 :=
  let maxMantissa : BitVec 64 := (1 : BitVec 64) <<< mantissaBits - 1
  let maxExponent : BitVec 32 := (1 : BitVec 32) <<< exponentBits - 1
  let r := shiftOutLoop maxMantissa value 0
  if r.2 > maxExponent then (false, mantissa, r.2)
  else (true, r.1.setWidth 32, r.2)

/-- **The loop takes off the bits beyond `k`**: `value.toNat.size - k` of them, counted in
`exponent`. -/
theorem shiftOutLoop_eq {k : Nat} (hk : k < 64) (value : BitVec 64) (exponent : BitVec 32) :
    shiftOutLoop ((1 : BitVec 64) <<< k - 1) value exponent =
      (value >>> (value.toNat.size - k), exponent + BitVec.ofNat 32 (value.toNat.size - k)) := by
  fun_induction shiftOutLoop ((1 : BitVec 64) <<< k - 1) value exponent with
  | case1 value exponent h ih =>
      rw [ih]
      -- a bit above the mantissa is set: `value` is longer than `k` bits, and one shift
      -- takes one bit off its length
      have hge : 2 ^ k ≤ value.toNat := by
        rw [Ne, and_not_lowBits_eq_zero_iff hk] at h
        omega
      have hsize : k < value.toNat.size := Nat.lt_size.mpr hge
      have hhalf : (value >>> 1).toNat.size = value.toNat.size - 1 := by
        rw [BitVec.toNat_ushiftRight, Nat.shiftRight_one, size_div_two]
      rw [hhalf]
      refine Prod.ext ?_ ?_
      · apply BitVec.eq_of_toNat_eq
        rw [BitVec.toNat_ushiftRight, BitVec.toNat_ushiftRight, BitVec.toNat_ushiftRight,
          ← Nat.shiftRight_add]
        congr 1
        omega
      · show exponent + 1 + _ = _
        rw [BitVec.add_assoc, show value.toNat.size - k = 1 + (value.toNat.size - 1 - k) by omega,
          BitVec.ofNat_add]
        rfl
  | case2 value exponent h =>
      have hlt : value.toNat < 2 ^ k := by
        rw [Ne, not_not, and_not_lowBits_eq_zero_iff hk] at h
        exact h
      have hsize : value.toNat.size - k = 0 := by
        have := Nat.size_le.mpr hlt
        omega
      rw [hsize]
      simp

/-- What is left after the bits beyond `k` are shifted out fits in `k` bits. -/
theorem ushiftRight_size_sub_lt (k : Nat) (value : BitVec 64) :
    (value >>> (value.toNat.size - k)).toNat < 2 ^ k := by
  have hlt := Nat.lt_size_self value.toNat
  rw [BitVec.toNat_ushiftRight, Nat.shiftRight_eq_div_pow]
  rcases Nat.lt_or_ge value.toNat.size k with hs | hs
  · have hpow : 2 ^ value.toNat.size < 2 ^ k := Nat.pow_lt_pow_right (by omega) hs
    rw [show value.toNat.size - k = 0 by omega, Nat.pow_zero, Nat.div_one]
    omega
  · apply (Nat.div_lt_iff_lt_mul (Nat.two_pow_pos _)).mpr
    rw [← Nat.pow_add, show k + (value.toNat.size - k) = value.toNat.size by omega]
    exact hlt

/-- When the exponent fits, the call returns `true`, the value shifted right by its bits
beyond `mantissaBits`, and their number. -/
theorem extractMantissaExponent_eq {mantissaBits exponentBits : Nat} (hm : mantissaBits < 64)
    (he : exponentBits < 32) (value : BitVec 64) (mantissa : BitVec 32)
    (hfit : value.toNat.size - mantissaBits < 2 ^ exponentBits) :
    extractMantissaExponent mantissaBits exponentBits value mantissa =
      (true, (value >>> (value.toNat.size - mantissaBits)).setWidth 32,
        BitVec.ofNat 32 (value.toNat.size - mantissaBits)) := by
  have hsize : value.toNat.size ≤ 64 := Nat.size_le.mpr value.isLt
  have hexp : ¬ BitVec.ofNat 32 (value.toNat.size - mantissaBits) >
      (1 : BitVec 32) <<< exponentBits - 1 := by
    rw [gt_iff_lt, BitVec.lt_def, shiftLeft_sub_one_toNat he, BitVec.toNat_ofNat,
      Nat.mod_eq_of_lt (by omega)]
    omega
  unfold extractMantissaExponent
  dsimp only
  rw [shiftOutLoop_eq hm, zero_add, if_neg hexp]

/-! ## `n` with its bits beyond the `k` highest cleared

What the mantissa and the exponent write back is `n / 2^e * 2^e` for `e = n.size - k`. -/

/-- No value with a `k`-bit mantissa lies between it and `n`. -/
theorem le_clearLow_of_mantissa {n k m j : Nat} (hm : m < 2 ^ k) (h : m * 2 ^ j ≤ n) :
    m * 2 ^ j ≤ n / 2 ^ (n.size - k) * 2 ^ (n.size - k) := by
  set e := n.size - k with he
  rcases Nat.eq_zero_or_pos k with hk0 | hk
  · -- no mantissa bits: only `0` is written
    have hm0 : m = 0 := by
      rw [hk0] at hm
      omega
    rw [hm0, Nat.zero_mul]
    exact Nat.zero_le _
  rcases Nat.lt_or_ge j e with hj | hj
  · -- a smaller exponent: `n` has `e + k` bits, more than `m * 2^j` can reach
    have hsize : n.size = e + k := by omega
    have hlow : 2 ^ (e + k - 1) ≤ n := Nat.lt_size.mp (by omega)
    have hsplit : 2 ^ (e + k - 1) = 2 ^ (k - 1) * 2 ^ e := by
      rw [← Nat.pow_add]
      congr 1
      omega
    have hdiv : 2 ^ (k - 1) ≤ n / 2 ^ e := (Nat.le_div_iff_mul_le (Nat.two_pow_pos e)).mpr
      (hsplit ▸ hlow)
    apply le_of_lt
    calc m * 2 ^ j < 2 ^ k * 2 ^ j := Nat.mul_lt_mul_of_pos_right hm (Nat.two_pow_pos j)
      _ = 2 ^ (k + j) := (Nat.pow_add 2 k j).symm
      _ ≤ 2 ^ (k - 1 + e) := Nat.pow_le_pow_right (by omega) (by omega)
      _ = 2 ^ (k - 1) * 2 ^ e := Nat.pow_add 2 (k - 1) e
      _ ≤ n / 2 ^ e * 2 ^ e := Nat.mul_le_mul_right _ hdiv
  · -- the exponent is at least `e`: `m * 2^(j - e)` is at most `n / 2^e`
    have hsplit : m * 2 ^ j = m * 2 ^ (j - e) * 2 ^ e := by
      rw [Nat.mul_assoc, ← Nat.pow_add, Nat.sub_add_cancel hj]
    rw [hsplit] at h ⊢
    exact Nat.mul_le_mul_right _ ((Nat.le_div_iff_mul_le (Nat.two_pow_pos e)).mpr h)

/-- What the clearing takes off is less than `2^-(k-1)` of a positive `n`. -/
theorem sub_clearLow_mul_lt {n k : Nat} (hk : 0 < k) (hn : 0 < n) :
    (n - n / 2 ^ (n.size - k) * 2 ^ (n.size - k)) * 2 ^ (k - 1) < n := by
  set e := n.size - k with he
  have hmod : n - n / 2 ^ e * 2 ^ e = n % 2 ^ e := by
    have := Nat.div_add_mod n (2 ^ e)
    rw [Nat.mul_comm] at this
    omega
  rw [hmod]
  rcases Nat.eq_zero_or_pos e with h0 | hpos
  · rw [h0, Nat.pow_zero, Nat.mod_one, Nat.zero_mul]
    exact hn
  · -- `n` has `e + k` bits, and the remainder is below `2^e`
    have hlow : 2 ^ (e + k - 1) ≤ n := Nat.lt_size.mp (by omega)
    calc n % 2 ^ e * 2 ^ (k - 1) < 2 ^ e * 2 ^ (k - 1) :=
          Nat.mul_lt_mul_of_pos_right (Nat.mod_lt _ (Nat.two_pow_pos e)) (Nat.two_pow_pos _)
      _ = 2 ^ (e + k - 1) := by
          rw [← Nat.pow_add]
          congr 1
          omega
      _ ≤ n := hlow

end MediaBridge.Math

namespace MediaBridge.Rtp

open BitMask

/-- The bitrate of `rtp::RtcpRembFeedback`: its bytes `_bitrate[0..2]`. -/
structure RtcpRembFeedback where
  bitrate0 : BitVec 8
  bitrate1 : BitVec 8
  bitrate2 : BitVec 8
  deriving DecidableEq, Repr

namespace RtcpRembFeedback

/-- `RtcpRembFeedback::getBitrate`: the exponent in the high six bits of the first byte, the
mantissa in its low two bits and the two other bytes. -/
def getBitrate (r : RtcpRembFeedback) : BitVec 64 :=
  let exponent : BitVec 32 := r.bitrate0.setWidth 32 >>> 2
  let mantissa : BitVec 64 := ((r.bitrate0.setWidth 32 &&& 3) <<< 16 |||
    r.bitrate1.setWidth 32 <<< 8 ||| r.bitrate2.setWidth 32).setWidth 64
  mantissa <<< exponent.toNat

/-- `RtcpRembFeedback::setBitrate(bps)`. -/
def setBitrate (r : RtcpRembFeedback) (bps : BitVec 64) : RtcpRembFeedback :=
  let result := Math.extractMantissaExponent 18 6 bps 0
  let mantissa := result.2.1
  let exponent := result.2.2
  { r with
    bitrate0 := ((exponent <<< 2) ||| (mantissa >>> 16)).setWidth 8
    bitrate1 := ((mantissa >>> 8) &&& 0xFF).setWidth 8
    bitrate2 := (mantissa &&& 0xFF).setWidth 8 }

/-! ## The bytes, as numbers -/

theorem toNat_getBitrate (r : RtcpRembFeedback) :
    r.getBitrate.toNat = (r.bitrate0.toNat % 4 * 2 ^ 16 + r.bitrate1.toNat * 2 ^ 8 +
      r.bitrate2.toNat) * 2 ^ (r.bitrate0.toNat / 4) % 2 ^ 64 := by
  have h0 := r.bitrate0.isLt
  have h1 := r.bitrate1.isLt
  have h2 := r.bitrate2.isLt
  have h3 : (3 : BitVec 32).toNat = 2 ^ 2 - 1 := by decide
  -- the three pieces of the mantissa, each in place
  have hA : ((r.bitrate0.setWidth 32 &&& 3) <<< 16).toNat = r.bitrate0.toNat % 4 * 2 ^ 16 := by
    rw [BitVec.toNat_shiftLeft, BitVec.toNat_and, BitVec.toNat_setWidth, h3,
      Nat.and_two_pow_sub_one_eq_mod, Nat.shiftLeft_eq]
    omega
  have hB : (r.bitrate1.setWidth 32 <<< 8).toNat = r.bitrate1.toNat * 2 ^ 8 := by
    rw [BitVec.toNat_shiftLeft, BitVec.toNat_setWidth, Nat.shiftLeft_eq]
    omega
  have hC : (r.bitrate2.setWidth 32).toNat = r.bitrate2.toNat := by
    rw [BitVec.toNat_setWidth]
    omega
  have hmant : ((r.bitrate0.setWidth 32 &&& 3) <<< 16 ||| r.bitrate1.setWidth 32 <<< 8 |||
      r.bitrate2.setWidth 32).toNat =
        r.bitrate0.toNat % 4 * 2 ^ 16 + r.bitrate1.toNat * 2 ^ 8 + r.bitrate2.toNat := by
    rw [BitVec.toNat_or, BitVec.toNat_or, Nat.or_assoc, hA, hB, hC, mul_two_pow_or h2,
      mul_two_pow_or (show r.bitrate1.toNat * 2 ^ 8 + r.bitrate2.toNat < 2 ^ 16 by omega)]
    omega
  have hexp : (r.bitrate0.setWidth 32 >>> 2).toNat = r.bitrate0.toNat / 4 := by
    rw [BitVec.toNat_ushiftRight, BitVec.toNat_setWidth, Nat.shiftRight_eq_div_pow]
    omega
  unfold getBitrate
  dsimp only
  rw [BitVec.toNat_shiftLeft, BitVec.toNat_setWidth, hmant, hexp, Nat.shiftLeft_eq,
    Nat.mod_eq_of_lt (show r.bitrate0.toNat % 4 * 2 ^ 16 + r.bitrate1.toNat * 2 ^ 8 +
      r.bitrate2.toNat < 2 ^ 64 by omega)]

/-- The bytes `setBitrate` writes for an exponent below 64 and an 18-bit mantissa. -/
theorem toNat_bytes {exponent mantissa : BitVec 32} (he : exponent.toNat < 64)
    (hm : mantissa.toNat < 2 ^ 18) :
    (((exponent <<< 2) ||| (mantissa >>> 16)).setWidth 8).toNat =
        exponent.toNat * 4 + mantissa.toNat / 2 ^ 16 ∧
      (((mantissa >>> 8) &&& 0xFF).setWidth 8).toNat = mantissa.toNat / 2 ^ 8 % 2 ^ 8 ∧
      ((mantissa &&& 0xFF).setWidth 8).toNat = mantissa.toNat % 2 ^ 8 := by
  have hff : (0xFF : BitVec 32).toNat = 2 ^ 8 - 1 := by decide
  refine ⟨?_, ?_, ?_⟩
  · have hq : mantissa.toNat >>> 16 < 2 ^ 2 := by
      rw [Nat.shiftRight_eq_div_pow]
      omega
    rw [BitVec.toNat_setWidth, BitVec.toNat_or, BitVec.toNat_shiftLeft, BitVec.toNat_ushiftRight,
      Nat.shiftLeft_eq, Nat.mod_eq_of_lt (show exponent.toNat * 2 ^ 2 < 2 ^ 32 by omega),
      mul_two_pow_or hq, Nat.shiftRight_eq_div_pow]
    omega
  · rw [BitVec.toNat_setWidth, BitVec.toNat_and, BitVec.toNat_ushiftRight, hff,
      Nat.and_two_pow_sub_one_eq_mod, Nat.shiftRight_eq_div_pow]
    omega
  · rw [BitVec.toNat_setWidth, BitVec.toNat_and, hff, Nat.and_two_pow_sub_one_eq_mod]
    omega

/-! ## The round trip -/

/-- The bitrate read back is `bps` with its bits beyond the 18 highest cleared. -/
theorem toNat_getBitrate_setBitrate (r : RtcpRembFeedback) (bps : BitVec 64) :
    (r.setBitrate bps).getBitrate.toNat =
      bps.toNat / 2 ^ (bps.toNat.size - 18) * 2 ^ (bps.toNat.size - 18) := by
  have hsize : bps.toNat.size ≤ 64 := Nat.size_le.mpr bps.isLt
  -- for a 64-bit value the exponent is at most 46: it fits in six bits
  have hextract := Math.extractMantissaExponent_eq (by decide) (by decide) bps 0
    (show bps.toNat.size - 18 < 2 ^ 6 by omega)
  have hmant := Math.ushiftRight_size_sub_lt 18 bps
  set e := bps.toNat.size - 18 with he
  have hm32 : ((bps >>> e).setWidth 32).toNat = bps.toNat / 2 ^ e := by
    rw [BitVec.toNat_setWidth, Nat.mod_eq_of_lt (by omega), BitVec.toNat_ushiftRight,
      Nat.shiftRight_eq_div_pow]
  have he32 : (BitVec.ofNat 32 e).toNat = e := by
    rw [BitVec.toNat_ofNat]
    omega
  have hmant' : bps.toNat / 2 ^ e < 2 ^ 18 := by
    rw [BitVec.toNat_ushiftRight, Nat.shiftRight_eq_div_pow] at hmant
    exact hmant
  obtain ⟨h0, h1, h2⟩ := toNat_bytes (show (BitVec.ofNat 32 e).toNat < 64 by omega)
    (show ((bps >>> e).setWidth 32).toNat < 2 ^ 18 by omega)
  unfold setBitrate
  rw [hextract]
  rw [toNat_getBitrate]
  dsimp only
  rw [h0, h1, h2, he32, hm32]
  -- reassembling the bytes gives the mantissa back, and the exponent is `e`
  have hsplit : (e * 4 + bps.toNat / 2 ^ e / 2 ^ 16) % 4 * 2 ^ 16 +
      bps.toNat / 2 ^ e / 2 ^ 8 % 2 ^ 8 * 2 ^ 8 + bps.toNat / 2 ^ e % 2 ^ 8 = bps.toNat / 2 ^ e := by
    omega
  have hexp : (e * 4 + bps.toNat / 2 ^ e / 2 ^ 16) / 4 = e := by omega
  rw [hsplit, hexp, Nat.mod_eq_of_lt]
  calc bps.toNat / 2 ^ e * 2 ^ e ≤ bps.toNat := Nat.div_mul_le_self _ _
    _ < 2 ^ 64 := bps.isLt

/-- **The REMB round trip.** The bitrate `getBitrate` reads back after `setBitrate bps` is
`bps` with its bits beyond the 18 highest cleared: never more than `bps`, the largest value an
18-bit mantissa can write that is not, and short of `bps` by less than `2^-17` of it. -/
theorem getBitrate_setBitrate (r : RtcpRembFeedback) (bps : BitVec 64) :
    (r.setBitrate bps).getBitrate = bps >>> (bps.toNat.size - 18) <<< (bps.toNat.size - 18) ∧
    (r.setBitrate bps).getBitrate.toNat ≤ bps.toNat ∧
    (∀ m k : Nat, m < 2 ^ 18 → m * 2 ^ k ≤ bps.toNat →
      m * 2 ^ k ≤ (r.setBitrate bps).getBitrate.toNat) ∧
    (0 < bps.toNat → (bps.toNat - (r.setBitrate bps).getBitrate.toNat) * 2 ^ 17 < bps.toNat) := by
  have hval := toNat_getBitrate_setBitrate r bps
  have hle : bps.toNat / 2 ^ (bps.toNat.size - 18) * 2 ^ (bps.toNat.size - 18) ≤ bps.toNat :=
    Nat.div_mul_le_self _ _
  refine ⟨?_, ?_, ?_, ?_⟩
  · apply BitVec.eq_of_toNat_eq
    rw [hval, BitVec.toNat_shiftLeft, BitVec.toNat_ushiftRight, Nat.shiftRight_eq_div_pow,
      Nat.shiftLeft_eq, Nat.mod_eq_of_lt (lt_of_le_of_lt hle bps.isLt)]
  · rw [hval]
    exact hle
  · intro m k hm h
    rw [hval]
    exact Math.le_clearLow_of_mantissa hm h
  · intro hpos
    rw [hval]
    exact Math.sub_clearLow_mul_lt (k := 18) (by decide) hpos

end RtcpRembFeedback

end MediaBridge.Rtp
