import MediaBridge.Lib.Buffer
import MediaBridge.Lib.BitMask
import MediaBridge.Utils.SimpleJson
import Mathlib.Algebra.GroupWithZero.Nat

set_option autoImplicit false

/-! # `utils::Base64`

`encode` feeds the input bytes into a 32-bit accumulator, eight bits at a time, and emits a
character of `BASE64_TABLE` for every six bits collected; the bits left at the end are shifted
up to a last character, and the text is padded with `=` up to `encodeLength(length)`, which is
`4 * (length + 2) / 3`. `decode` reads the characters back six bits at a time, skipping spaces
and `=`, returns `0` at a character outside the alphabet, and writes a byte for every eight bits
collected until `outputLength` bytes are written. `decodeLength` is `3 * (length / 4)` less the
number of `=`.

A `std::string` is a list of characters, the input bytes are `Bytes`, and `decode` gives its
return value with the bytes it wrote to `output`, from `output[0]` on. The accumulators are
`uint32_t`, kept here as `Nat` reduced modulo `2^32`, and the bit operations of the source stay
in the definitions.

The text `encode` gives is the standard one, `stdChars`, followed by `=` up to
`encodeLength` (`encode_eq`). `4 * (length + 2) / 3` is not the standard `4 * ((length + 2) / 3)`:
the text always ends in two `=`, whatever `length % 3` is. `decode` reads the standard text
back whatever its padding (`decode_encode`), but `decodeLength` of the padded text is short of
the input by two bytes when `length % 3 = 0` and by one byte when `length % 3 = 2`.
-/

namespace MediaBridge.Utils

open Buffer

namespace Base64

/-- `BASE64_TABLE`. -/
def base64Table : List Char :=
  ['A', 'B', 'C', 'D', 'E', 'F', 'G', 'H', 'I', 'J', 'K', 'L', 'M', 'N', 'O', 'P', 'Q', 'R',
    'S', 'T', 'U', 'V', 'W', 'X', 'Y', 'Z', 'a', 'b', 'c', 'd', 'e', 'f', 'g', 'h', 'i', 'j',
    'k', 'l', 'm', 'n', 'o', 'p', 'q', 'r', 's', 't', 'u', 'v', 'w', 'x', 'y', 'z', '0', '1',
    '2', '3', '4', '5', '6', '7', '8', '9', '+', '/']

/-- `REVERSE_TABLE`: the value of each of the first 128 characters, `64` outside the
alphabet. -/
def reverseTable : List Nat :=
  [64, 64, 64, 64, 64, 64, 64, 64, 64, 64, 64, 64, 64, 64, 64, 64,
    64, 64, 64, 64, 64, 64, 64, 64, 64, 64, 64, 64, 64, 64, 64, 64,
    64, 64, 64, 64, 64, 64, 64, 64, 64, 64, 64, 62, 64, 64, 64, 63,
    52, 53, 54, 55, 56, 57, 58, 59, 60, 61, 64, 64, 64, 64, 64, 64,
    64, 0, 1, 2, 3, 4, 5, 6, 7, 8, 9, 10, 11, 12, 13, 14,
    15, 16, 17, 18, 19, 20, 21, 22, 23, 24, 25, 64, 64, 64, 64, 64,
    64, 26, 27, 28, 29, 30, 31, 32, 33, 34, 35, 36, 37, 38, 39, 40,
    41, 42, 43, 44, 45, 46, 47, 48, 49, 50, 51, 64, 64, 64, 64, 64]

/-- `BASE64_TABLE[i]`; the index is masked to six bits wherever the source reads it. -/
def table (i : Nat) : Char := base64Table.getD i '\x00'

/-- `REVERSE_TABLE[ch]`; read for `ch ≤ 127` only. -/
def reverse (ch : Nat) : Nat := reverseTable.getD ch 64

/-- `encodeLength(inputLength)`, in `uint32_t` arithmetic. -/
def encodeLength (inputLength : Nat) : Nat := 4 * ((inputLength + 2) % 2 ^ 32) % 2 ^ 32 / 3

/-- `encodeLength(input)`: the length of the string, as a `uint32_t`. -/
def encodeLengthOfString (input : List Char) : Nat := encodeLength (input.length % 2 ^ 32)

/-- `decodeLength(input)`: `3 * (length / 4)` less the number of `=`, computed in `size_t` and
returned as a `uint32_t` (`4294967296` is `2^32`). -/
def decodeLength (input : List Char) : Nat :=
  ((((3 * (input.length / 4) : Nat) : Int) - (input.count '=' : Int)) % 4294967296).toNat

/-- The loop `while (bitsCollected >= 6)` of `encode`: each round takes six bits off
`bitsCollected` and emits the character of the six bits of the accumulator below it. -/
def emitSextets (accumulator : Nat) : Nat → List Char → Nat × List Char
  | bitsCollected + 6, encodedText =>
      emitSextets accumulator bitsCollected
        (encodedText ++ [table ((accumulator >>> bitsCollected) &&& 0x3f)])
  | bitsCollected, encodedText => (bitsCollected, encodedText)

/-- The loop over the input bytes of `encode`: the bits collected, the accumulator and the
text so far. -/
def encodeBytes : Bytes → Nat → Nat → List Char → Nat × Nat × List Char
  | [], bitsCollected, accumulator, encodedText => (bitsCollected, accumulator, encodedText)
  | p :: ps, bitsCollected, accumulator, encodedText =>
      let accumulator := ((accumulator <<< 8) ||| (p.toNat &&& 0xff)) % 2 ^ 32
      let r := emitSextets accumulator (bitsCollected + 8) encodedText
      encodeBytes ps r.1 accumulator r.2

/-- The block `if (bitsCollected > 0)` of `encode`: the bits left are shifted up to one last
character. -/
def emitTrailingBits (bitsCollected accumulator : Nat) (encodedText : List Char) : List Char :=
  if bitsCollected > 0 then
    encodedText ++ [table ((accumulator <<< (6 - bitsCollected)) % 2 ^ 32 &&& 0x3f)]
  else encodedText

/-- `encode(input, length)`: the characters, then `=` up to `encodeLength(length)`. -/
def encode (input : Bytes) : List Char :=
  if input.length > 0 then
    let outputLength := encodeLength input.length
    let r := encodeBytes input 0 0 []
    let encodedText := emitTrailingBits r.1 r.2.1 r.2.2
    encodedText ++ List.replicate (outputLength - encodedText.length) '='
  else []

/-- The loop of `decode`, while `index < outputLength`: `output` is what it wrote, `index` its
length. A character outside the alphabet returns `0`, with what was written left in place. -/
def decodeChars (outputLength : Nat) : List Char → Nat → Nat → Bytes → Nat × Bytes
  | [], _, _, output => (output.length, output)
  | c :: cs, bitsCollected, accumulator, output =>
      if output.length < outputLength then
        if isspace c || c == '=' then decodeChars outputLength cs bitsCollected accumulator output
        else if c.toNat > 127 || reverse c.toNat > 63 then (0, output)
        else
          let accumulator := ((accumulator <<< 6) ||| reverse c.toNat) % 2 ^ 32
          if bitsCollected + 6 ≥ 8 then
            decodeChars outputLength cs (bitsCollected + 6 - 8) accumulator
              (output ++ [BitVec.ofNat 8 ((accumulator >>> (bitsCollected + 6 - 8)) &&& 0xff)])
          else decodeChars outputLength cs (bitsCollected + 6) accumulator output
      else (output.length, output)

/-- `decode(input, output, outputLength)`: the value returned and the bytes written. -/
def decode (input : List Char) (outputLength : Nat) : Nat × Bytes :=
  if !input.isEmpty then decodeChars outputLength input 0 0 [] else (0, [])

/-! ## The tables -/

/-- Every character of the alphabet reads back as its index, is below 128, and is neither a
space nor `=`. -/
theorem table_spec : ∀ i < 64, reverse (table i).toNat = i ∧ (table i).toNat ≤ 127 ∧
    isspace (table i) = false ∧ table i ≠ '=' := by
  have h : ∀ i : Fin 64, reverse (table i).toNat = i ∧ (table i).toNat ≤ 127 ∧
      isspace (table i) = false ∧ table i ≠ '=' := by decide
  exact fun i hi => h ⟨i, hi⟩

/-! ## The bit operations as arithmetic -/

theorem and_mask_six (a : Nat) : a &&& 0x3f = a % 64 := Nat.and_two_pow_sub_one_eq_mod a 6

theorem and_mask_eight (a : Nat) : a &&& 0xff = a % 256 := Nat.and_two_pow_sub_one_eq_mod a 8

/-- Six bits of the accumulator. -/
theorem sextet_eq (x n : Nat) : (x >>> n) &&& 0x3f = x / 2 ^ n % 64 := by
  rw [Nat.shiftRight_eq_div_pow, and_mask_six]

/-- The accumulator of `encode` after a byte. -/
def shiftIn (accumulator : Nat) (p : BitVec 8) : Nat := (accumulator * 256 + p.toNat) % 2 ^ 32

/-- The accumulator of `decode` after a six-bit value. -/
def shiftInSextet (accumulator v : Nat) : Nat := (accumulator * 64 + v) % 2 ^ 32

theorem shiftIn_eq (accumulator : Nat) (p : BitVec 8) :
    ((accumulator <<< 8) ||| (p.toNat &&& 0xff)) % 2 ^ 32 = shiftIn accumulator p := by
  rw [and_mask_eight, Nat.mod_eq_of_lt p.isLt, Nat.shiftLeft_eq,
    BitMask.mul_two_pow_or p.isLt]
  rfl

theorem shiftInSextet_eq (accumulator : Nat) {v : Nat} (hv : v < 64) :
    ((accumulator <<< 6) ||| v) % 2 ^ 32 = shiftInSextet accumulator v := by
  rw [Nat.shiftLeft_eq, BitMask.mul_two_pow_or hv]
  rfl

theorem shiftIn_mod (accumulator : Nat) (p : BitVec 8) : shiftIn accumulator p % 256 = p.toNat := by
  have := p.isLt
  unfold shiftIn
  omega

/-! ## `encode` -/

/-- The four characters of three bytes. -/
def groupChars (b0 b1 b2 : Nat) : List Char :=
  [table (b0 / 4), table (b0 % 4 * 16 + b1 / 16), table (b1 % 16 * 4 + b2 / 64), table (b2 % 64)]

/-- The base64 characters of a byte string, without padding: four characters for each three
bytes, and two or three for the one or two bytes left. -/
def stdChars : Bytes → List Char
  | b0 :: b1 :: b2 :: rest => groupChars b0.toNat b1.toNat b2.toNat ++ stdChars rest
  | [b0, b1] => [table (b0.toNat / 4), table (b0.toNat % 4 * 16 + b1.toNat / 16),
      table (b1.toNat % 16 * 4)]
  | [b0] => [table (b0.toNat / 4), table (b0.toNat % 4 * 16)]
  | [] => []

section EncodeBytes

variable (p : BitVec 8) (ps : Bytes) (accumulator : Nat) (encodedText : List Char)

/-- A byte with no bits pending: one character, two bits left. -/
theorem encodeBytes_cons_zero :
    encodeBytes (p :: ps) 0 accumulator encodedText =
      encodeBytes ps 2 (shiftIn accumulator p)
        (encodedText ++ [table (shiftIn accumulator p / 4 % 64)]) := by
  simp only [encodeBytes, shiftIn_eq, emitSextets, sextet_eq]
  rfl

/-- A byte with two bits pending: one character, four bits left. -/
theorem encodeBytes_cons_two :
    encodeBytes (p :: ps) 2 accumulator encodedText =
      encodeBytes ps 4 (shiftIn accumulator p)
        (encodedText ++ [table (shiftIn accumulator p / 16 % 64)]) := by
  simp only [encodeBytes, shiftIn_eq, emitSextets, sextet_eq]
  rfl

/-- A byte with four bits pending: two characters, no bits left. -/
theorem encodeBytes_cons_four :
    encodeBytes (p :: ps) 4 accumulator encodedText =
      encodeBytes ps 0 (shiftIn accumulator p)
        (encodedText ++ [table (shiftIn accumulator p / 64 % 64), table (shiftIn accumulator p % 64)]) := by
  simp only [encodeBytes, shiftIn_eq, emitSextets, sextet_eq, List.append_assoc,
    List.singleton_append, Nat.pow_zero, Nat.div_one]
  rfl

end EncodeBytes

/-- Three bytes from no bits pending: their four characters, and no bits pending again. -/
theorem encodeBytes_group (b0 b1 b2 : BitVec 8) (rest : Bytes) (accumulator : Nat)
    (encodedText : List Char) :
    encodeBytes (b0 :: b1 :: b2 :: rest) 0 accumulator encodedText =
      encodeBytes rest 0 (shiftIn (shiftIn (shiftIn accumulator b0) b1) b2)
        (encodedText ++ groupChars b0.toNat b1.toNat b2.toNat) := by
  rw [encodeBytes_cons_zero, encodeBytes_cons_two, encodeBytes_cons_four]
  -- each character reads six of the bits of the last two bytes shifted in
  have h0 := shiftIn_mod accumulator b0
  have h1 := shiftIn_mod (shiftIn accumulator b0) b1
  have h2 := shiftIn_mod (shiftIn (shiftIn accumulator b0) b1) b2
  have hc1 : shiftIn (shiftIn accumulator b0) b1 / 16 % 64 = b0.toNat % 4 * 16 + b1.toNat / 16 := by
    unfold shiftIn at h1 ⊢; omega
  have hc2 : shiftIn (shiftIn (shiftIn accumulator b0) b1) b2 / 64 % 64 =
      b1.toNat % 16 * 4 + b2.toNat / 64 := by
    unfold shiftIn at h2 ⊢; omega
  rw [hc1, hc2, show shiftIn accumulator b0 / 4 % 64 = b0.toNat / 4 by omega,
    show shiftIn (shiftIn (shiftIn accumulator b0) b1) b2 % 64 = b2.toNat % 64 by omega]
  simp [groupChars]

/-- The loop and the trailing bits give the standard characters, from no bits pending. -/
theorem emitTrailingBits_encodeBytes (x : Bytes) :
    ∀ (accumulator : Nat) (encodedText : List Char),
      emitTrailingBits (encodeBytes x 0 accumulator encodedText).1
          (encodeBytes x 0 accumulator encodedText).2.1 (encodeBytes x 0 accumulator encodedText).2.2 =
        encodedText ++ stdChars x := by
  induction x using stdChars.induct with
  | case1 b0 b1 b2 rest ih =>
      intro accumulator encodedText
      rw [encodeBytes_group, ih, stdChars, List.append_assoc]
  | case2 b0 b1 =>
      intro accumulator encodedText
      rw [encodeBytes_cons_zero, encodeBytes_cons_two]
      -- the last four bits go up into the last character
      have h0 := shiftIn_mod accumulator b0
      have h1 := shiftIn_mod (shiftIn accumulator b0) b1
      have hc1 : shiftIn (shiftIn accumulator b0) b1 / 16 % 64 = b0.toNat % 4 * 16 + b1.toNat / 16 := by
        unfold shiftIn at h1 ⊢; omega
      have hc2 : (shiftIn (shiftIn accumulator b0) b1 <<< (6 - 4)) % 2 ^ 32 &&& 0x3f =
          b1.toNat % 16 * 4 := by
        rw [Nat.shiftLeft_eq, and_mask_six]; omega
      simp only [encodeBytes]
      rw [emitTrailingBits, if_pos (by decide), hc2]
      simp [stdChars, hc1, show shiftIn accumulator b0 / 4 % 64 = b0.toNat / 4 by omega]
  | case3 b0 =>
      intro accumulator encodedText
      rw [encodeBytes_cons_zero]
      have h0 := shiftIn_mod accumulator b0
      have hc1 : (shiftIn accumulator b0 <<< (6 - 2)) % 2 ^ 32 &&& 0x3f = b0.toNat % 4 * 16 := by
        rw [Nat.shiftLeft_eq, and_mask_six]; omega
      simp only [encodeBytes]
      rw [emitTrailingBits, if_pos (by decide), hc1]
      simp [stdChars, show shiftIn accumulator b0 / 4 % 64 = b0.toNat / 4 by omega]
  | case4 =>
      intro accumulator encodedText
      simp [encodeBytes, emitTrailingBits, stdChars]

theorem length_stdChars (x : Bytes) :
    (stdChars x).length = 4 * (x.length / 3) + (if x.length % 3 = 0 then 0 else x.length % 3 + 1) := by
  induction x using stdChars.induct with
  | case1 b0 b1 b2 rest ih =>
      simp only [stdChars, List.length_append, ih, groupChars, List.length_cons, List.length_nil]
      split <;> split <;> omega
  | case2 b0 b1 => simp [stdChars]
  | case3 b0 => simp [stdChars]
  | case4 => simp [stdChars]

/-- `encodeLength` without the wrap of `uint32_t`. -/
theorem encodeLength_eq {n : Nat} (hn : n + 2 < 2 ^ 30) : encodeLength n = 4 * (n + 2) / 3 := by
  unfold encodeLength
  rw [Nat.mod_eq_of_lt (by omega : n + 2 < 2 ^ 32), Nat.mod_eq_of_lt (by omega)]

/-- `encode` gives the standard characters followed by `=` up to `encodeLength`: two `=`
whatever the length is. -/
theorem encode_eq {x : Bytes} (hx : 0 < x.length) (hn : x.length + 2 < 2 ^ 30) :
    encode x = stdChars x ++ ['=', '='] := by
  have hlen := length_stdChars x
  have hpad : encodeLength x.length - (stdChars x).length = 2 := by
    rw [encodeLength_eq hn, hlen]
    split <;> omega
  have htext := emitTrailingBits_encodeBytes x 0 []
  rw [List.nil_append] at htext
  simp only [encode, if_pos hx, htext, hpad]
  rfl

/-! ## `decode` -/

theorem ofNat_eq_of_mod {n : Nat} {b : BitVec 8} (h : n % 256 = b.toNat) : BitVec.ofNat 8 n = b :=
  BitVec.eq_of_toNat_eq (by rw [BitVec.toNat_ofNat]; exact h)

section DecodeChars

variable {outputLength : Nat} {output : Bytes}

/-- A character of the alphabet, read while there is room: six more bits, and a byte when eight
are collected. -/
theorem decodeChars_table (hL : output.length < outputLength) {v : Nat} (hv : v < 64)
    (cs : List Char) (bitsCollected accumulator : Nat) :
    decodeChars outputLength (table v :: cs) bitsCollected accumulator output =
      if bitsCollected + 6 ≥ 8 then
        decodeChars outputLength cs (bitsCollected + 6 - 8) (shiftInSextet accumulator v)
          (output ++ [BitVec.ofNat 8 (shiftInSextet accumulator v / 2 ^ (bitsCollected + 6 - 8) % 256)])
      else decodeChars outputLength cs (bitsCollected + 6) (shiftInSextet accumulator v) output := by
  obtain ⟨hrev, hle, hsp, hne⟩ := table_spec v hv
  rw [decodeChars, if_pos hL, if_neg (by simp [hsp, hne]), if_neg (by simp [hrev]; omega), hrev,
    shiftInSextet_eq accumulator hv]
  simp only [Nat.shiftRight_eq_div_pow, and_mask_eight]

/-- `=` is skipped, or the loop ends. -/
theorem decodeChars_pad (k : Nat) (bitsCollected accumulator : Nat) (output : Bytes) :
    decodeChars outputLength (List.replicate k '=') bitsCollected accumulator output =
      (output.length, output) := by
  induction k with
  | zero => rfl
  | succ k ih =>
      rw [List.replicate_succ, decodeChars]
      split
      · rw [if_pos (by simp)]
        exact ih
      · rfl

/-- The four characters of three bytes, read from no bits pending with room for the three
bytes, write them and leave no bits pending. -/
theorem decodeChars_group (hL : output.length + 3 ≤ outputLength) (b0 b1 b2 : BitVec 8)
    (cs : List Char) (accumulator : Nat) :
    ∃ accumulator', decodeChars outputLength (groupChars b0.toNat b1.toNat b2.toNat ++ cs) 0
        accumulator output = decodeChars outputLength cs 0 accumulator' (output ++ [b0, b1, b2]) := by
  have h0 := b0.isLt
  have h1 := b1.isLt
  have h2 := b2.isLt
  simp only [groupChars, List.cons_append, List.nil_append]
  rw [decodeChars_table (by omega) (by omega), if_neg (by omega),
    decodeChars_table (by omega) (by omega), if_pos (by omega),
    decodeChars_table (by simp; omega) (by omega), if_pos (by omega),
    decodeChars_table (by simp; omega) (by omega), if_pos (by omega)]
  simp only [Nat.reduceAdd, Nat.reduceSub, List.append_assoc, List.cons_append, List.nil_append]
  -- the three bytes are the bits of the four values, eight at a time
  have hbytes : ∀ a : Nat,
      [BitVec.ofNat 8 (shiftInSextet (shiftInSextet a (b0.toNat / 4)) (b0.toNat % 4 * 16 + b1.toNat / 16) / 2 ^ 4 % 256),
        BitVec.ofNat 8 (shiftInSextet (shiftInSextet (shiftInSextet a (b0.toNat / 4))
          (b0.toNat % 4 * 16 + b1.toNat / 16)) (b1.toNat % 16 * 4 + b2.toNat / 64) / 2 ^ 2 % 256),
        BitVec.ofNat 8 (shiftInSextet (shiftInSextet (shiftInSextet (shiftInSextet a (b0.toNat / 4))
          (b0.toNat % 4 * 16 + b1.toNat / 16)) (b1.toNat % 16 * 4 + b2.toNat / 64)) (b2.toNat % 64) /
            2 ^ 0 % 256)] = [b0, b1, b2] := by
    intro a
    simp only [shiftInSextet, List.cons.injEq, and_true]
    refine ⟨ofNat_eq_of_mod ?_, ofNat_eq_of_mod ?_, ofNat_eq_of_mod ?_⟩ <;> omega
  exact ⟨_, by rw [hbytes]⟩

/-- The standard characters of a byte string, then `=`, read from no bits pending with room
for every byte, write the byte string. -/
theorem decodeChars_stdChars (x : Bytes) : ∀ (output : Bytes) (accumulator k : Nat),
    output.length + x.length ≤ outputLength →
    decodeChars outputLength (stdChars x ++ List.replicate k '=') 0 accumulator output =
      ((output ++ x).length, output ++ x) := by
  induction x using stdChars.induct with
  | case1 b0 b1 b2 rest ih =>
      intro output accumulator k hL
      simp only [List.length_cons] at hL
      obtain ⟨accumulator', h⟩ := @decodeChars_group outputLength output (by omega) b0 b1 b2
        (stdChars rest ++ List.replicate k '=') accumulator
      rw [stdChars, List.append_assoc, h, ih _ _ _ (by simp; omega)]
      simp
  | case2 b0 b1 =>
      intro output accumulator k hL
      simp only [List.length_cons, List.length_nil] at hL
      have h0 := b0.isLt
      have h1 := b1.isLt
      simp only [stdChars, List.cons_append, List.nil_append]
      rw [decodeChars_table (by omega) (by omega), if_neg (by omega),
        decodeChars_table (by omega) (by omega), if_pos (by omega),
        decodeChars_table (by simp; omega) (by omega), if_pos (by omega), decodeChars_pad]
      -- the two bytes, and two bits left over
      have hbytes : ∀ a : Nat,
          output ++ [BitVec.ofNat 8 (shiftInSextet (shiftInSextet a (b0.toNat / 4))
              (b0.toNat % 4 * 16 + b1.toNat / 16) / 2 ^ (0 + 6 + 6 - 8) % 256)] ++
            [BitVec.ofNat 8 (shiftInSextet (shiftInSextet (shiftInSextet a (b0.toNat / 4))
              (b0.toNat % 4 * 16 + b1.toNat / 16)) (b1.toNat % 16 * 4) / 2 ^ (0 + 6 + 6 - 8 + 6 - 8) % 256)] =
            output ++ [b0, b1] := by
        intro a
        simp only [shiftInSextet, List.append_assoc, List.singleton_append, List.append_cancel_left_eq,
          List.cons.injEq, and_true]
        exact ⟨ofNat_eq_of_mod (by simp; omega), ofNat_eq_of_mod (by simp; omega)⟩
      rw [hbytes]
  | case3 b0 =>
      intro output accumulator k hL
      simp only [List.length_cons, List.length_nil] at hL
      have h0 := b0.isLt
      simp only [stdChars, List.cons_append, List.nil_append]
      rw [decodeChars_table (by omega) (by omega), if_neg (by omega),
        decodeChars_table (by omega) (by omega), if_pos (by omega), decodeChars_pad]
      -- the one byte, and four bits left over
      have hbyte : ∀ a : Nat,
          BitVec.ofNat 8 (shiftInSextet (shiftInSextet a (b0.toNat / 4)) (b0.toNat % 4 * 16) /
            2 ^ (0 + 6 + 6 - 8) % 256) = b0 := by
        intro a
        exact ofNat_eq_of_mod (by simp [shiftInSextet]; omega)
      rw [hbyte]
  | case4 =>
      intro output accumulator k _
      rw [stdChars, List.nil_append, decodeChars_pad, List.append_nil]

variable (outputLength)

/-- What is written stays written. -/
theorem decodeChars_prefix (cs : List Char) : ∀ (bitsCollected accumulator : Nat) (output : Bytes),
    output <+: (decodeChars outputLength cs bitsCollected accumulator output).2 := by
  induction cs with
  | nil => intro _ _ output; exact List.prefix_refl output
  | cons c cs ih =>
      intro bitsCollected accumulator output
      rw [decodeChars]
      split
      · split
        · exact ih _ _ _
        · split
          · exact List.prefix_refl output
          · split
            · exact (List.prefix_append output _).trans (ih _ _ _)
            · exact ih _ _ _
      · exact List.prefix_refl output

/-- `decode` never writes past `outputLength` bytes. -/
theorem length_decodeChars_le (cs : List Char) : ∀ (bitsCollected accumulator : Nat) (output : Bytes),
    output.length ≤ outputLength →
    (decodeChars outputLength cs bitsCollected accumulator output).2.length ≤ outputLength := by
  induction cs with
  | nil => intro _ _ output h; exact h
  | cons c cs ih =>
      intro bitsCollected accumulator output h
      rw [decodeChars]
      split
      · split
        · exact ih _ _ _ h
        · split
          · exact h
          · split
            · exact ih _ _ _ (by simp; omega)
            · exact ih _ _ _ h
      · exact h

/-- The value `decode` returns is at most `outputLength`. -/
theorem fst_decodeChars_le (cs : List Char) : ∀ (bitsCollected accumulator : Nat) (output : Bytes),
    output.length ≤ outputLength →
    (decodeChars outputLength cs bitsCollected accumulator output).1 ≤ outputLength := by
  induction cs with
  | nil => intro _ _ output h; exact h
  | cons c cs ih =>
      intro bitsCollected accumulator output h
      rw [decodeChars]
      split
      · split
        · exact ih _ _ _ h
        · split
          · exact Nat.zero_le _
          · split
            · exact ih _ _ _ (by simp; omega)
            · exact ih _ _ _ h
      · exact h

/-- A character `decode` reads without returning `0`: a space, `=`, or one of the alphabet. -/
def decodable (c : Char) : Bool := isspace c || c == '=' || !(c.toNat > 127 || reverse c.toNat > 63)

theorem valid_of_decodable {c : Char} (hc : decodable c = true)
    (hskip : ¬(isspace c || c == '=') = true) : ¬(c.toNat > 127 || reverse c.toNat > 63) = true := by
  unfold decodable at hc
  revert hc hskip
  cases (isspace c || c == '=') <;> cases (decide (c.toNat > 127) || decide (reverse c.toNat > 63)) <;>
    simp

/-- Over decodable characters `decode` returns the number of bytes it wrote. -/
theorem fst_decodeChars (cs : List Char) (hcs : ∀ c ∈ cs, decodable c = true) :
    ∀ (bitsCollected accumulator : Nat) (output : Bytes),
      (decodeChars outputLength cs bitsCollected accumulator output).1 =
        (decodeChars outputLength cs bitsCollected accumulator output).2.length := by
  induction cs with
  | nil => intro _ _ _; rfl
  | cons c cs ih =>
      intro bitsCollected accumulator output
      have hc := hcs c List.mem_cons_self
      have ih := ih (fun c' hc' => hcs c' (List.mem_cons_of_mem c hc'))
      rw [decodeChars]
      split
      · split
        · exact ih _ _ _
        · rename_i hskip
          rw [if_neg (valid_of_decodable hc hskip)]
          split
          · exact ih _ _ _
          · exact ih _ _ _
      · rfl

/-- `decode` returns the number of bytes it wrote, or `0` at a character it cannot read. -/
theorem fst_decodeChars_cases (cs : List Char) : ∀ (bitsCollected accumulator : Nat) (output : Bytes),
    (decodeChars outputLength cs bitsCollected accumulator output).1 =
        (decodeChars outputLength cs bitsCollected accumulator output).2.length ∨
      ((decodeChars outputLength cs bitsCollected accumulator output).1 = 0 ∧
        ∃ c ∈ cs, decodable c = false) := by
  induction cs with
  | nil => intro _ _ _; exact .inl rfl
  | cons c cs ih =>
      intro bitsCollected accumulator output
      -- a later character that cannot be read is a character of the whole input
      have ih' : ∀ b a o, (decodeChars outputLength cs b a o).1 = (decodeChars outputLength cs b a o).2.length ∨
          ((decodeChars outputLength cs b a o).1 = 0 ∧ ∃ c' ∈ c :: cs, decodable c' = false) := by
        intro b a o
        rcases ih b a o with h | ⟨h, c', hc', hbad⟩
        · exact .inl h
        · exact .inr ⟨h, c', List.mem_cons_of_mem c hc', hbad⟩
      rw [decodeChars]
      split
      · split
        · exact ih' _ _ _
        · rename_i hskip
          split
          · rename_i hbad
            refine .inr ⟨rfl, c, List.mem_cons_self, ?_⟩
            show (isspace c || c == '=' || !(c.toNat > 127 || reverse c.toNat > 63)) = false
            rw [Bool.eq_false_iff.mpr hskip, hbad]
            rfl
          · split
            · exact ih' _ _ _
            · exact ih' _ _ _
      · exact .inl rfl

/-- Over decodable characters, a smaller buffer gets the first bytes a larger one gets. -/
theorem decodeChars_take (cs : List Char) (hcs : ∀ c ∈ cs, decodable c = true) {L : Nat}
    (hL : outputLength ≤ L) :
    ∀ (bitsCollected accumulator : Nat) (output : Bytes), output.length ≤ outputLength →
      (decodeChars outputLength cs bitsCollected accumulator output).2 =
        (decodeChars L cs bitsCollected accumulator output).2.take outputLength := by
  induction cs with
  | nil => intro _ _ output h; exact (List.take_of_length_le h).symm
  | cons c cs ih =>
      intro bitsCollected accumulator output h
      have hc := hcs c List.mem_cons_self
      have ih := ih (fun c' hc' => hcs c' (List.mem_cons_of_mem c hc'))
      by_cases hroom : output.length < outputLength
      · -- both buffers have room: the two loops take the same step
        simp only [decodeChars, if_pos hroom, if_pos (show output.length < L by omega)]
        by_cases hskip : (isspace c || c == '=') = true
        · simp only [hskip, if_true]
          exact ih _ _ _ h
        · simp only [hskip, valid_of_decodable hc hskip, if_false, Bool.false_eq_true]
          split
          · exact ih _ _ _ (by simp; omega)
          · exact ih _ _ _ h
      · -- the smaller buffer is full: it ends with what was written, a prefix of the rest
        have hfull : output.length = outputLength := by omega
        rw [decodeChars, if_neg hroom]
        obtain ⟨more, hmore⟩ := decodeChars_prefix L (c :: cs) bitsCollected accumulator output
        rw [← hmore, ← hfull, List.take_left]

end DecodeChars

/-! ## Round trips -/

/-- The standard characters are characters of the alphabet. -/
theorem mem_stdChars {x : Bytes} {c : Char} (hc : c ∈ stdChars x) : ∃ i < 64, c = table i := by
  induction x using stdChars.induct with
  | case1 b0 b1 b2 rest ih =>
      have := b0.isLt; have := b1.isLt; have := b2.isLt
      rw [stdChars, List.mem_append] at hc
      rcases hc with hc | hc
      · simp only [groupChars, List.mem_cons, List.not_mem_nil, or_false] at hc
        rcases hc with rfl | rfl | rfl | rfl
        · exact ⟨_, by omega, rfl⟩
        · exact ⟨_, by omega, rfl⟩
        · exact ⟨_, by omega, rfl⟩
        · exact ⟨_, by omega, rfl⟩
      · exact ih hc
  | case2 b0 b1 =>
      have := b0.isLt; have := b1.isLt
      simp only [stdChars, List.mem_cons, List.not_mem_nil, or_false] at hc
      rcases hc with rfl | rfl | rfl
      · exact ⟨_, by omega, rfl⟩
      · exact ⟨_, by omega, rfl⟩
      · exact ⟨_, by omega, rfl⟩
  | case3 b0 =>
      have := b0.isLt
      simp only [stdChars, List.mem_cons, List.not_mem_nil, or_false] at hc
      rcases hc with rfl | rfl
      · exact ⟨_, by omega, rfl⟩
      · exact ⟨_, by omega, rfl⟩
  | case4 => simp [stdChars] at hc

theorem decodable_table {i : Nat} (hi : i < 64) : decodable (table i) = true := by
  obtain ⟨hrev, hle, -, -⟩ := table_spec i hi
  simp [decodable, hrev, hle]
  omega

theorem count_stdChars (x : Bytes) : (stdChars x).count '=' = 0 := by
  rw [List.count_eq_zero]
  intro hmem
  obtain ⟨i, hi, hc⟩ := mem_stdChars hmem
  exact (table_spec i hi).2.2.2 hc.symm

/-- The loop of `decode` over the encoder's text, with a buffer of any size: the first bytes,
as many as the buffer holds. -/
theorem decodeChars_encode {x : Bytes} (hx : 0 < x.length) (hn : x.length + 2 < 2 ^ 30)
    (outputLength : Nat) :
    decodeChars outputLength (encode x) 0 0 [] = (min outputLength x.length, x.take outputLength) := by
  rw [encode_eq hx hn]
  have hcs : ∀ c ∈ stdChars x ++ ['=', '='], decodable c = true := by
    intro c hc
    rcases List.mem_append.mp hc with hc | hc
    · obtain ⟨i, hi, rfl⟩ := mem_stdChars hc
      exact decodable_table hi
    · simp only [List.mem_cons, List.not_mem_nil, or_false, or_self] at hc
      simp [hc, decodable]
  -- with room for every byte the whole string comes back; a smaller buffer takes its first bytes
  have hfull : decodeChars (max outputLength x.length) (stdChars x ++ ['=', '=']) 0 0 [] =
      (x.length, x) := by
    simpa using @decodeChars_stdChars (max outputLength x.length) x [] 0 2
      (by simp)
  have htake := decodeChars_take outputLength (stdChars x ++ ['=', '=']) hcs
    (Nat.le_max_left outputLength x.length) 0 0 [] (Nat.zero_le _)
  rw [hfull] at htake
  have hfst := fst_decodeChars outputLength (stdChars x ++ ['=', '=']) hcs 0 0 []
  rw [htake, List.length_take] at hfst
  exact Prod.ext hfst htake

/-- The `size_t` difference of `decodeLength`, when it is neither negative nor wrapped. -/
theorem toNat_sub_emod {a b : Nat} (hb : b ≤ a) (ha : a < 4294967296) :
    (((a : Int) - (b : Int)) % 4294967296).toNat = a - b := by
  rw [Int.emod_eq_of_lt (by omega) (by omega)]
  omega

/-- `decodeLength` of the encoder's text: `3 * (length / 4) - 2`. -/
theorem decodeLength_encode_eq {x : Bytes} (hx : 0 < x.length) (hn : x.length + 2 < 2 ^ 30) :
    decodeLength (encode x) =
      x.length - (if x.length % 3 = 0 then 2 else if x.length % 3 = 2 then 1 else 0) := by
  have hlen := length_stdChars x
  have hcount : (encode x).count '=' = 2 := by
    rw [encode_eq hx hn, List.count_append, count_stdChars]
    simp
  have hlength : (encode x).length = (stdChars x).length + 2 := by
    rw [encode_eq hx hn, List.length_append]
    rfl
  unfold decodeLength
  rw [hcount, hlength, hlen]
  -- the three cases of `length % 3`, each without a wrap of the `uint32_t`
  split_ifs with h0 h2
  · rw [show 3 * ((4 * (x.length / 3) + 0 + 2) / 4) = x.length by omega,
      toNat_sub_emod (by omega) (by omega)]
  · rw [show 3 * ((4 * (x.length / 3) + (x.length % 3 + 1) + 2) / 4) = x.length + 1 by omega,
      toNat_sub_emod (by omega) (by omega)]
    omega
  · rw [show 3 * ((4 * (x.length / 3) + (x.length % 3 + 1) + 2) / 4) = x.length + 2 by omega,
      toNat_sub_emod (by omega) (by omega)]
    omega

/-- **Round trip.** For every byte string shorter than `2^30 - 2` bytes and every buffer
size, decoding the text `encode` gives writes the first bytes of the string, as many as the
buffer holds, and returns their number. -/
theorem decode_encode (x : Bytes) (hn : x.length + 2 < 2 ^ 30) (outputLength : Nat) :
    decode (encode x) outputLength = (min outputLength x.length, x.take outputLength) := by
  rcases Nat.eq_zero_or_pos x.length with h0 | hx
  · rw [List.length_eq_zero_iff] at h0
    subst h0
    simp [encode, decode]
  · have hne : (encode x).isEmpty = false := by
      rw [encode_eq hx hn]
      simp
    rw [decode, hne, Bool.not_false, if_pos rfl, decodeChars_encode hx hn]

theorem decode_encode_three_bytes :
    [77#8, 97#8, 110#8].length + 2 < 2 ^ 30 ∧
      decode (encode [77#8, 97#8, 110#8]) 2 = (2, [77#8, 97#8]) :=
  ⟨by decide, decode_encode _ (by decide) 2⟩

/-- **Two `=` whatever the length.** The text `encode` gives is the standard characters of the
bytes followed by two `=`, so its length is `4 * (length + 2) / 3` and a multiple of four only
when `length % 3 = 1`: three bytes give six characters, not four. -/
theorem encode_ends_in_two_pads (x : Bytes) (hx : 0 < x.length) (hn : x.length + 2 < 2 ^ 30) :
    encode x = stdChars x ++ ['=', '='] ∧ (encode x).length = 4 * (x.length + 2) / 3 ∧
      ((encode x).length % 4 = 0 ↔ x.length % 3 = 1) := by
  have hlen := length_stdChars x
  have hlength : (encode x).length = (stdChars x).length + 2 := by
    rw [encode_eq hx hn, List.length_append]
    rfl
  refine ⟨encode_eq hx hn, ?_, ?_⟩ <;> rw [hlength, hlen] <;> split <;> omega

theorem encode_ends_in_two_pads_three_bytes :
    0 < [77#8, 97#8, 110#8].length ∧ [77#8, 97#8, 110#8].length + 2 < 2 ^ 30 ∧
      (encode [77#8, 97#8, 110#8] = stdChars [77#8, 97#8, 110#8] ++ ['=', '='] ∧
        (encode [77#8, 97#8, 110#8]).length = 4 * ([77#8, 97#8, 110#8].length + 2) / 3 ∧
        ((encode [77#8, 97#8, 110#8]).length % 4 = 0 ↔ [77#8, 97#8, 110#8].length % 3 = 1)) :=
  ⟨by decide, by decide, encode_ends_in_two_pads _ (by decide) (by decide)⟩

example : encode [77#8, 97#8, 110#8] = ['T', 'W', 'F', 'u', '=', '='] := by decide

/-- **`decodeLength` undercounts the encoder's text.** For the text of every byte string,
`decodeLength` is two short of its length when `length % 3 = 0` and one short when
`length % 3 = 2`, so decoding into a buffer of `decodeLength` bytes drops the last bytes. -/
theorem decode_decodeLength_encode (x : Bytes) (hx : 0 < x.length) (hn : x.length + 2 < 2 ^ 30) :
    decodeLength (encode x) =
        x.length - (if x.length % 3 = 0 then 2 else if x.length % 3 = 2 then 1 else 0) ∧
      decode (encode x) (decodeLength (encode x)) =
        (decodeLength (encode x), x.take (decodeLength (encode x))) := by
  have hlen := decodeLength_encode_eq hx hn
  have hne : (encode x).isEmpty = false := by
    rw [encode_eq hx hn]
    simp
  refine ⟨hlen, ?_⟩
  rw [decode, hne, Bool.not_false, if_pos rfl, decodeChars_encode hx hn, hlen]
  congr 1
  split_ifs <;> omega

theorem decode_decodeLength_encode_three_bytes :
    0 < [77#8, 97#8, 110#8].length ∧ [77#8, 97#8, 110#8].length + 2 < 2 ^ 30 ∧
      (decodeLength (encode [77#8, 97#8, 110#8]) = 1 ∧
        decode (encode [77#8, 97#8, 110#8]) (decodeLength (encode [77#8, 97#8, 110#8])) =
          (decodeLength (encode [77#8, 97#8, 110#8]),
            [77#8, 97#8, 110#8].take (decodeLength (encode [77#8, 97#8, 110#8])))) := by
  have h := decode_decodeLength_encode [77#8, 97#8, 110#8] (by decide) (by decide)
  exact ⟨by decide, by decide, h.1.trans (by decide), h.2⟩

/-- **`decode` stays in its buffer.** For every input and every buffer size, `decode` writes at
most `outputLength` bytes and returns at most `outputLength`; it returns the number of bytes it
wrote, or `0`, and `0` only when the input holds a character that is neither a space, `=`, nor
of the alphabet. -/
theorem decode_within_buffer (input : List Char) (outputLength : Nat) :
    (decode input outputLength).2.length ≤ outputLength ∧
      (decode input outputLength).1 ≤ outputLength ∧
      ((decode input outputLength).1 = (decode input outputLength).2.length ∨
        ((decode input outputLength).1 = 0 ∧ ∃ c ∈ input, decodable c = false)) := by
  unfold decode
  split
  · exact ⟨length_decodeChars_le outputLength input 0 0 [] (Nat.zero_le _),
      fst_decodeChars_le outputLength input 0 0 [] (Nat.zero_le _),
      fst_decodeChars_cases outputLength input 0 0 []⟩
  · exact ⟨Nat.zero_le _, Nat.zero_le _, .inl rfl⟩

end Base64

end MediaBridge.Utils
