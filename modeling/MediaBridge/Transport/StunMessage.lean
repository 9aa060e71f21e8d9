import MediaBridge.Lib.Buffer
import MediaBridge.Lib.Tlv

set_option autoImplicit false

/-! # `transport/ice/Stun`: recognising STUN messages

A STUN message is a twenty-byte header (method, length, magic cookie, transaction id) and a
chain of attributes, each a `nwuint16_t` type and length and a value padded to whole 32-bit
words (`StunAttribute::size()`). The range-for loops over a message use a `TlvIterator` that
steps by each attribute's `size()` and stops when it equals `cend()`.

`isStunMessage` checks the header, then walks the attributes: it gives up on an attribute whose
value would start at or after the end (`it->get() >= endPointer`) and checks every FINGERPRINT
against `computeFingerprint()`. Every attribute size is at least four, so the walk always stops
(`isStunMessage_spec`): it returns `true` exactly when the message is `Accepted`. That is the
well-tiled messages (`WellFormed`) less those whose last attribute has length `0`
(`accepted_iff_of_wellFormed`): such an attribute is a whole header ending at the end of the
message, and its value pointer equals the end. On an accepted message every range-for over the
attributes, and every search among them, visits only attributes inside the message
(`attributes_inside_of_accepted`).

Offsets are absolute in the message buffer, which holds the `n` bytes handed to
`isStunMessage`. Loops that need not stop in general are modelled with fuel, as in
`Lib/Tlv`. The CRC-32 itself is a parameter `crc32`: what is proved holds for every checksum
function.
-/

namespace MediaBridge.Transport.Ice

open Buffer Tlv

/-! ## The header -/

namespace StunHeader

/-- `sizeof(StunHeader)`. -/
def byteSize : Nat := 20

def MAGIC_COOKIE : Nat := 0x2112A442

def BindingRequest : Nat := 1
def SharedSecretRequest : Nat := 2
def BindingResponse : Nat := 0x101
def SharedSecretResponse : Nat := 0x102
def BindingErrorResponse : Nat := 0x111
def SharedSecretErrorResponse : Nat := 0x112

/-- `method`, a `nwuint16_t`. -/
def method (p : Bytes) : Nat := be16 p 0

/-- `length`, the bytes of attributes after the header. -/
def length (p : Bytes) : Nat := be16 p 2

/-- `magicCookie`, a `nwuint32_t`. -/
def magicCookie (p : Bytes) : Nat := be32 p 4

/-- `StunHeader::size()`: the header and its attributes. -/
def size (p : Bytes) : Nat := length p + byteSize

/-- `getMethod()`: the method without its two top bits. -/
def getMethod (p : Bytes) : Nat := method p &&& 0x3FFF

/-- `StunHeader::isValid()`. -/
def isValid (p : Bytes) : Bool :=
  if magicCookie p ≠ MAGIC_COOKIE ∨ length p % 4 ≠ 0 ∨ method p &&& 0xC000 ≠ 0 then false
  else
    let stunMethod := getMethod p
    if stunMethod ≠ BindingRequest ∧ stunMethod ≠ SharedSecretRequest ∧
        stunMethod ≠ BindingResponse ∧ stunMethod ≠ SharedSecretResponse ∧
        stunMethod ≠ BindingErrorResponse ∧ stunMethod ≠ SharedSecretErrorResponse then false
    else true

end StunHeader

/-! ## Attributes -/

namespace StunAttribute

/-- `sizeof(StunAttribute)`: type and length. -/
def byteSize : Nat := 4

def MAPPED_ADDRESS : Nat := 1
def MESSAGE_INTEGRITY : Nat := 8
def ERROR_CODE : Nat := 9
def XOR_MAPPED_ADDRESS : Nat := 0x20
def PRIORITY : Nat := 0x24
def USE_CANDIDATE : Nat := 0x25
def FINGERPRINT : Nat := 0x8028
def ICE_CONTROLLED : Nat := 0x8029
def ICE_CONTROLLING : Nat := 0x802a

/-- `type` of the attribute at `a`. -/
def type (p : Bytes) (a : Nat) : Nat := be16 p a

/-- `length` of the attribute at `a`: the bytes of its value, padding not counted. -/
def length (p : Bytes) (a : Nat) : Nat := be16 p (a + 2)

/-- `StunAttribute::size()`: header and value, rounded up to whole words. -/
def size (p : Bytes) (a : Nat) : Nat :=
  if length p a % 4 > 0 then length p a + byteSize + 4 - length p a % 4
  else length p a + byteSize

/-- `StunAttribute::get()`: where the value starts, right after the header. -/
def get (a : Nat) : Nat := a + byteSize

theorem four_le_size (p : Bytes) (a : Nat) : 4 ≤ size p a := by
  unfold size byteSize
  split <;> omega

theorem size_pos (p : Bytes) : ∀ a, 0 < size p a :=
  fun a => Nat.lt_of_lt_of_le (by decide) (four_le_size p a)

/-- Only an attribute of length `0` is a bare header. -/
theorem size_eq_four_iff (p : Bytes) (a : Nat) : size p a = 4 ↔ length p a = 0 := by
  unfold size byteSize
  split <;> omega

end StunAttribute

/-- `StunFingerprint::value`, the `nwuint32_t` after the attribute header. -/
def StunFingerprint.value (p : Bytes) (a : Nat) : Nat := be32 p (a + StunAttribute.byteSize)

def Family_v4 : Nat := 1
def Family_v6 : Nat := 2

/-- The `isValid()` of an address attribute: `_family` and `_port`, then an IPv4 or IPv6
address, and a length that fits the family. -/
def addressIsValid (p : Bytes) (a : Nat) : Bool :=
  let family := be16 p (a + StunAttribute.byteSize)
  let baseSize := 4
  if family = Family_v4 then StunAttribute.length p a = 4 + baseSize
  else if family = Family_v6 then StunAttribute.length p a = 16 + baseSize
  else false

/-- `StunXorMappedAddress::isValid()`. -/
def StunXorMappedAddress.isValid (p : Bytes) (a : Nat) : Bool := addressIsValid p a

/-- `StunMappedAddress::isValid()`, on the same layout. -/
def StunMappedAddress.isValid (p : Bytes) (a : Nat) : Bool := addressIsValid p a

/-- `StunError::isValid()`: room for `_code`. -/
def StunError.isValid (p : Bytes) (a : Nat) : Bool := !(StunAttribute.length p a < 4)

/-! ## The message and its range-for loops -/

namespace StunMessage

/-- `sizeof(attributes)`. -/
def MTU : Nat := 1280

/-- `StunMessage::size()`. -/
def size (p : Bytes) : Nat := StunHeader.length p + StunHeader.byteSize

/-- `cbegin()`: the attributes start after the header. -/
def cbegin : Nat := StunHeader.byteSize

/-- `cend()`: after the attributes, or `cbegin()` for a length longer than `attributes`. -/
def cend (p : Bytes) : Nat :=
  if StunHeader.length p > MTU then cbegin else cbegin + StunHeader.length p

/-- A range-for over the attributes, with `fuel` steps: the attributes visited. -/
def iterateAttributes (p : Bytes) (fuel : Nat) : Option (List Nat) :=
  iterate (StunAttribute.size p) (cend p) fuel cbegin

/-- `getAttribute(type)`, with `fuel` steps: the first attribute of that type, or `nullptr`. -/
def getAttribute (p : Bytes) (type fuel : Nat) : Option (Option Nat) :=
  search (StunAttribute.size p) (cend p) (fun a => StunAttribute.type p a == type) fuel cbegin

def rfc5389xor : Nat := 0x5354554e

/-- `computeFingerprint()`, with `fuel` steps for its search of a FINGERPRINT attribute (the loop
of `getAttribute`). With one, the CRC runs over the message less that attribute's size; without,
over the header with its length raised by a FINGERPRINT's eight bytes, then the attributes. -/
def computeFingerprint (crc32 : Bytes → Nat) (p : Bytes) (fuel : Nat) : Option Nat :=
  (getAttribute p StunAttribute.FINGERPRINT fuel).map fun
    | some a =>
        crc32 (p.take (StunHeader.size p - StunAttribute.size p a)) % 4294967296 ^^^ rfc5389xor
    | none =>
        crc32 (p.take 2 ++ be16Bytes (StunHeader.length p + 8) ++
          (p.drop 4).take (StunHeader.size p - 4)) % 4294967296 ^^^ rfc5389xor

end StunMessage

open StunMessage

/-! ## `isStunMessage` -/

/-- The loop of `isStunMessage` from the attribute at `a`, with `steps` attributes; a FINGERPRINT
is checked by `computeFingerprint` with `fuel`. `none` when it has not stopped. -/
def isStunMessageLoop (crc32 : Bytes → Nat) (p : Bytes) (endPointer fuel : Nat) :
    Nat → Nat → Option Bool
  | 0, _ => none
  | steps + 1, a =>
      if a = cend p then some true
      else if endPointer ≤ StunAttribute.get a then some false
      else if StunAttribute.type p a = StunAttribute.FINGERPRINT then
        (computeFingerprint crc32 p fuel).bind fun fingerprint =>
          if fingerprint ≠ StunFingerprint.value p a then some false
          else isStunMessageLoop crc32 p endPointer fuel steps (next (StunAttribute.size p) a)
      else isStunMessageLoop crc32 p endPointer fuel steps (next (StunAttribute.size p) a)

/-- `ice::isStunMessage(pkt, length)` for the buffer `pkt` of `length` bytes, with `fuel` for
each of its loops. -/
def isStunMessage (crc32 : Bytes → Nat) (pkt : Bytes) (fuel : Nat) : Option Bool :=
  if pkt.length < StunHeader.byteSize then some false
  else if StunHeader.length pkt + StunHeader.byteSize ≠ pkt.length ∨
      StunHeader.length pkt > MTU ∨ StunHeader.isValid pkt = false then some false
  else isStunMessageLoop crc32 pkt (StunMessage.size pkt) fuel fuel cbegin

/-! ## `StunMessage::isValid` -/

/-- The loop of `StunMessage::isValid()` from the attribute at `a`, with `steps` attributes; a
FINGERPRINT is checked by `computeFingerprint` with `fuel`. -/
def StunMessage.isValidLoop (crc32 : Bytes → Nat) (p : Bytes) (fuel : Nat) :
    Nat → Nat → Option Bool
  | 0, _ => none
  | steps + 1, a =>
      if a = cend p then some true
      else if cend p ≤ a then some false
      else if StunAttribute.type p a = StunAttribute.FINGERPRINT then
        (computeFingerprint crc32 p fuel).bind fun fingerprint =>
          if fingerprint ≠ StunFingerprint.value p a then some false
          else StunMessage.isValidLoop crc32 p fuel steps (next (StunAttribute.size p) a)
      else if (StunAttribute.type p a = StunAttribute.ICE_CONTROLLED ∨
          StunAttribute.type p a = StunAttribute.ICE_CONTROLLING) ∧
          StunAttribute.length p a ≠ 8 then some false
      else if StunAttribute.type p a = StunAttribute.PRIORITY ∧
          StunAttribute.length p a ≠ 4 then some false
      else if StunAttribute.type p a = StunAttribute.MESSAGE_INTEGRITY ∧
          StunAttribute.length p a ≠ 20 then some false
      else if StunAttribute.type p a = StunAttribute.XOR_MAPPED_ADDRESS ∧
          StunXorMappedAddress.isValid p a = false then some false
      else if StunAttribute.type p a = StunAttribute.MAPPED_ADDRESS ∧
          StunMappedAddress.isValid p a = false then some false
      else if StunAttribute.type p a = StunAttribute.ERROR_CODE ∧
          StunError.isValid p a = false then some false
      else if StunAttribute.type p a = StunAttribute.USE_CANDIDATE ∧
          StunAttribute.length p a ≠ 0 then some false
      else StunMessage.isValidLoop crc32 p fuel steps (next (StunAttribute.size p) a)

/-- `StunMessage::isValid()`: the attributes are well formed and every FINGERPRINT is right. -/
def StunMessage.isValid (crc32 : Bytes → Nat) (p : Bytes) (fuel : Nat) : Option Bool :=
  isValidLoop crc32 p fuel fuel cbegin

/-! ## What is accepted -/

/-- `computeFingerprint()` returns the value held by the FINGERPRINT attribute at `a`. -/
def FingerprintMatches (crc32 : Bytes → Nat) (p : Bytes) (a : Nat) : Prop :=
  ∃ fuel, computeFingerprint crc32 p fuel = some (StunFingerprint.value p a)

/-- A well-tiled STUN message of `p.length` bytes: a valid header whose length covers the rest,
attributes stepping from `cbegin` exactly to the end, and every FINGERPRINT right. -/
structure WellFormed (crc32 : Bytes → Nat) (p : Bytes) : Prop where
  length_eq : p.length = StunHeader.size p
  length_le : StunHeader.length p ≤ MTU
  valid : StunHeader.isValid p = true
  tiled : Reaches (StunAttribute.size p) cbegin p.length
  fingerprints : ∀ a, Reaches (StunAttribute.size p) cbegin a → a < p.length →
    StunAttribute.type p a = StunAttribute.FINGERPRINT → FingerprintMatches crc32 p a

/-- What `isStunMessage` accepts: a well-tiled message where the value of every attribute starts
before the end. -/
structure Accepted (crc32 : Bytes → Nat) (p : Bytes) : Prop extends WellFormed crc32 p where
  values_start_inside : ∀ a, Reaches (StunAttribute.size p) cbegin a → a < p.length →
    StunAttribute.get a < p.length

/-- What the loop of `isStunMessage` checks from the attribute at `a` on. -/
def LoopAccepts (crc32 : Bytes → Nat) (p : Bytes) (a : Nat) : Prop :=
  Reaches (StunAttribute.size p) a p.length ∧
    ∀ b, Reaches (StunAttribute.size p) a b → b < p.length →
      StunAttribute.get b < p.length ∧
        (StunAttribute.type p b = StunAttribute.FINGERPRINT → FingerprintMatches crc32 p b)

section Loop

variable {crc32 : Bytes → Nat} {p : Bytes}

theorem computeFingerprint_mono {fuel fuel' : Nat} {v : Nat}
    (h : computeFingerprint crc32 p fuel = some v) (hle : fuel ≤ fuel') :
    computeFingerprint crc32 p fuel' = some v := by
  unfold computeFingerprint at h ⊢
  obtain ⟨r, hr, rfl⟩ := Option.map_eq_some_iff.mp h
  rw [getAttribute, search_mono hr hle]
  rfl

/-- Once `computeFingerprint()` has returned, a FINGERPRINT matches when it holds that value. -/
theorem fingerprintMatches_iff {fuel v a : Nat} (h : computeFingerprint crc32 p fuel = some v) :
    FingerprintMatches crc32 p a ↔ v = StunFingerprint.value p a := by
  constructor
  · rintro ⟨fuel', h'⟩
    have h₁ := computeFingerprint_mono h (Nat.le_max_left fuel fuel')
    have h₂ := computeFingerprint_mono h' (Nat.le_max_right fuel fuel')
    rw [h₁] at h₂
    exact Option.some.inj h₂
  · rintro rfl
    exact ⟨fuel, h⟩

/-- `computeFingerprint()` called on a FINGERPRINT the chain reaches before `cend()` returns: its
search stops there or on an earlier FINGERPRINT. -/
theorem computeFingerprint_of_reaches {a fuel : Nat}
    (hr : Reaches (StunAttribute.size p) cbegin a) (hlt : a < cend p)
    (htype : StunAttribute.type p a = StunAttribute.FINGERPRINT) (hfuel : a - cbegin < fuel) :
    ∃ v, computeFingerprint crc32 p fuel = some v := by
  obtain ⟨r, hs, -⟩ := @search_of_reaches_done (StunAttribute.size p) (StunAttribute.size_pos p)
    (fun b => StunAttribute.type p b == StunAttribute.FINGERPRINT) cbegin a (cend p) hr hlt
    (by simp [htype]) fuel hfuel
  exact ⟨_, by rw [computeFingerprint, getAttribute, hs]; rfl⟩

theorem loopAccepts_end : LoopAccepts crc32 p p.length :=
  ⟨.refl _, fun b hb hlt => absurd hb.le (by omega)⟩

/-- An attribute that passes the checks hands the loop on to the next one. -/
theorem loopAccepts_step {a : Nat} (hlt : a < p.length) (hget : StunAttribute.get a < p.length)
    (hfp : StunAttribute.type p a = StunAttribute.FINGERPRINT → FingerprintMatches crc32 p a) :
    LoopAccepts crc32 p a ↔ LoopAccepts crc32 p (next (StunAttribute.size p) a) := by
  constructor
  · rintro ⟨hr, hall⟩
    exact ⟨hr.next_of_lt hlt, fun b hb => hall b (.step hb)⟩
  · rintro ⟨hr, hall⟩
    refine ⟨.step hr, fun b hb hb' => ?_⟩
    cases hb with
    | refl => exact ⟨hget, hfp⟩
    | step hb => exact hall b hb hb'

/-- An attribute whose value would start at or after the end fails the loop. -/
theorem not_loopAccepts_of_le_get {a : Nat} (hne : a ≠ p.length)
    (hle : p.length ≤ StunAttribute.get a) : ¬ LoopAccepts crc32 p a := by
  rintro ⟨hr, hall⟩
  have hlt : a < p.length := Nat.lt_of_le_of_ne hr.le hne
  exact absurd (hall a (.refl a) hlt).1 (by omega)

/-- **The loop of `isStunMessage` stops** on every attribute the chain reaches from `cbegin()`,
given as many steps as there are bytes left, and returns whether `LoopAccepts` holds. -/
theorem isStunMessageLoop_spec {fuel : Nat} (hcend : cend p = p.length) (hfuel : p.length ≤ fuel) :
    ∀ steps a, Reaches (StunAttribute.size p) cbegin a → p.length - a < steps →
      ∃ b, isStunMessageLoop crc32 p p.length fuel steps a = some b ∧
        (b = true ↔ LoopAccepts crc32 p a)
  | 0, _, _, h => absurd h (Nat.not_lt_zero _)
  | steps + 1, a, hr, hsteps => by
      rw [isStunMessageLoop]
      by_cases hend : a = cend p
      · rw [if_pos hend, hend.trans hcend]
        exact ⟨true, rfl, iff_of_true rfl loopAccepts_end⟩
      rw [if_neg hend]
      by_cases hget : p.length ≤ StunAttribute.get a
      · rw [if_pos hget]
        exact ⟨false, rfl, iff_of_false (by decide) (not_loopAccepts_of_le_get (by omega) hget)⟩
      rw [if_neg hget]
      have hlt : a < p.length := by unfold StunAttribute.get at hget; omega
      -- the rest of the loop, from the next attribute
      have hnext : p.length - next (StunAttribute.size p) a < steps := by
        have := lt_next (StunAttribute.size_pos p) a
        omega
      obtain ⟨b, hloop, hb⟩ := isStunMessageLoop_spec hcend hfuel steps _
        (hr.trans (.step (.refl _))) hnext
      by_cases htype : StunAttribute.type p a = StunAttribute.FINGERPRINT
      · rw [if_pos htype]
        obtain ⟨v, hv⟩ := @computeFingerprint_of_reaches crc32 p a fuel hr (by omega) htype
          (by omega)
        rw [hv, Option.bind_some]
        by_cases hval : v = StunFingerprint.value p a
        · rw [if_neg (not_not.mpr hval), hloop]
          have hfp : FingerprintMatches crc32 p a := (fingerprintMatches_iff hv).mpr hval
          exact ⟨b, rfl, hb.trans (loopAccepts_step hlt (by omega) fun _ => hfp).symm⟩
        · rw [if_pos hval]
          refine ⟨false, rfl, iff_of_false (by decide) ?_⟩
          rintro ⟨-, hall⟩
          exact hval ((fingerprintMatches_iff hv).mp ((hall a (.refl a) hlt).2 htype))
      · rw [if_neg htype, hloop]
        exact ⟨b, rfl, hb.trans (loopAccepts_step hlt (by omega) fun h => absurd h htype).symm⟩

/-- With the header checked, accepting is what the loop checks from `cbegin()`. -/
theorem accepted_iff_loopAccepts (hsize : p.length = StunHeader.size p)
    (hle : StunHeader.length p ≤ MTU) (hvalid : StunHeader.isValid p = true) :
    Accepted crc32 p ↔ LoopAccepts crc32 p cbegin := by
  constructor
  · intro h
    exact ⟨h.tiled, fun b hb hlt => ⟨h.values_start_inside b hb hlt, h.fingerprints b hb hlt⟩⟩
  · rintro ⟨htiled, hall⟩
    exact ⟨⟨hsize, hle, hvalid, htiled, fun b hb hlt => (hall b hb hlt).2⟩,
      fun b hb hlt => (hall b hb hlt).1⟩

theorem cbegin_le_cend (p : Bytes) : cbegin ≤ cend p := by
  unfold cend
  split <;> omega

/-- A check of `isValid()` that gives up with `false`, in front of a step that gives up or
goes on to `z`, again gives up or goes on to `z`. -/
private theorem ite_some_false_or {c : Prop} [Decidable c] {y z : Option Bool}
    (h : y = some false ∨ y = z) :
    (if c then some false else y) = some false ∨ (if c then some false else y) = z := by
  split
  · exact .inl rfl
  · exact h

/-- An attribute other than a FINGERPRINT either fails one of the checks by type of
`isValid()` or lets the loop go on to the next attribute. -/
theorem isValidLoop_of_ne_fingerprint {fuel steps a : Nat} (hend : a ≠ cend p)
    (hpast : ¬ cend p ≤ a) (htype : StunAttribute.type p a ≠ StunAttribute.FINGERPRINT) :
    StunMessage.isValidLoop crc32 p fuel (steps + 1) a = some false ∨
      StunMessage.isValidLoop crc32 p fuel (steps + 1) a =
        StunMessage.isValidLoop crc32 p fuel steps (next (StunAttribute.size p) a) := by
  rw [StunMessage.isValidLoop, if_neg hend, if_neg hpast, if_neg htype]
  -- seven checks, one per attribute type with a fixed length or a value to check
  exact ite_some_false_or <| ite_some_false_or <| ite_some_false_or <| ite_some_false_or <|
    ite_some_false_or <| ite_some_false_or <| ite_some_false_or <| .inr rfl

/-- **The loop of `StunMessage::isValid()` stops** on every attribute the chain reaches from
`cbegin()`: it gives up on an attribute at or past `cend()`. -/
theorem isValidLoop_stops {fuel : Nat} (hfuel : cend p ≤ fuel) :
    ∀ steps a, Reaches (StunAttribute.size p) cbegin a → cend p - a < steps →
      ∃ b, StunMessage.isValidLoop crc32 p fuel steps a = some b
  | 0, _, _, h => absurd h (Nat.not_lt_zero _)
  | steps + 1, a, hr, hsteps => by
      by_cases hend : a = cend p
      · exact ⟨true, by rw [StunMessage.isValidLoop, if_pos hend]⟩
      by_cases hpast : cend p ≤ a
      · exact ⟨false, by rw [StunMessage.isValidLoop, if_neg hend, if_pos hpast]⟩
      -- the rest of the loop, from the next attribute
      have hnext : cend p - next (StunAttribute.size p) a < steps := by
        have := lt_next (StunAttribute.size_pos p) a
        omega
      obtain ⟨b, hb⟩ := isValidLoop_stops hfuel steps _ (hr.trans (.step (.refl _))) hnext
      by_cases htype : StunAttribute.type p a = StunAttribute.FINGERPRINT
      · obtain ⟨v, hv⟩ := @computeFingerprint_of_reaches crc32 p a fuel hr (by omega) htype
          (by omega)
        rw [StunMessage.isValidLoop, if_neg hend, if_neg hpast, if_pos htype, hv, Option.bind_some]
        by_cases hval : v = StunFingerprint.value p a
        · exact ⟨b, by rw [if_neg (not_not.mpr hval), hb]⟩
        · exact ⟨false, by rw [if_pos hval]⟩
      · rcases @isValidLoop_of_ne_fingerprint crc32 p fuel steps a hend hpast htype with h | h
        · exact ⟨false, h⟩
        · exact ⟨b, h.trans hb⟩

end Loop

/-- **`StunMessage::isValid()` stops on every message**, given fuel up to `cend()`. -/
theorem isValid_stops (crc32 : Bytes → Nat) (p : Bytes) {fuel : Nat} (hfuel : cend p ≤ fuel) :
    ∃ b, StunMessage.isValid crc32 p fuel = some b := by
  have h20 : cbegin = 20 := rfl
  have hle := cbegin_le_cend p
  exact isValidLoop_stops hfuel fuel cbegin (.refl _) (by omega)

/-- **`isStunMessage` stops on every buffer**, given as much fuel as the buffer has bytes, and
returns `true` exactly on the `Accepted` messages. -/
theorem isStunMessage_spec (crc32 : Bytes → Nat) (p : Bytes) {fuel : Nat}
    (hfuel : p.length ≤ fuel) :
    ∃ b, isStunMessage crc32 p fuel = some b ∧ (b = true ↔ Accepted crc32 p) := by
  unfold isStunMessage
  by_cases hshort : p.length < StunHeader.byteSize
  · rw [if_pos hshort]
    refine ⟨false, rfl, iff_of_false (by decide) fun h => ?_⟩
    have := h.length_eq
    unfold StunHeader.size at this
    omega
  rw [if_neg hshort]
  by_cases hheader : StunHeader.length p + StunHeader.byteSize ≠ p.length ∨
      StunHeader.length p > MTU ∨ StunHeader.isValid p = false
  · rw [if_pos hheader]
    refine ⟨false, rfl, iff_of_false (by decide) fun h => ?_⟩
    have hsize := h.length_eq
    have hle := h.length_le
    have hvalid := h.valid
    unfold StunHeader.size at hsize
    rcases hheader with h₁ | h₂ | h₃
    · exact h₁ hsize.symm
    · omega
    · rw [hvalid] at h₃; cases h₃
  rw [if_neg hheader]
  simp only [not_or, not_not, Bool.not_eq_false] at hheader
  obtain ⟨hsize, hle, hvalid⟩ := hheader
  have hcend : cend p = p.length := by
    unfold cend cbegin
    rw [if_neg (by omega)]
    omega
  have hend : StunMessage.size p = p.length := hsize
  rw [hend]
  obtain ⟨b, hloop, hb⟩ := isStunMessageLoop_spec hcend hfuel fuel cbegin (.refl _)
    (by unfold StunHeader.byteSize at hshort; unfold cbegin StunHeader.byteSize; omega)
  exact ⟨b, hloop, hb.trans (accepted_iff_loopAccepts hsize.symm (Nat.not_lt.mp hle) hvalid).symm⟩

/-- A Binding Request header of twenty bytes with no attribute is a STUN message. -/
theorem isStunMessage_spec_bare_request :
    let p : Bytes := [0x00, 0x01, 0x00, 0x00, 0x21, 0x12, 0xA4, 0x42] ++ List.replicate 12 0
    isStunMessage (fun _ => 0) p p.length = some true ∧ p.length ≤ p.length ∧
      ∃ b, isStunMessage (fun _ => 0) p p.length = some b ∧ (b = true ↔ Accepted (fun _ => 0) p) := by
  intro p
  exact ⟨by decide, le_rfl, isStunMessage_spec (fun _ => 0) p le_rfl⟩

/-! ## Well-tiled messages that are rejected -/

/-- On a well-tiled message the value of an attribute reached before the end starts before the
end, unless the attribute is the last one and has length `0`. -/
theorem get_lt_of_wellFormed {crc32 : Bytes → Nat} {p : Bytes} (hw : WellFormed crc32 p) {a : Nat}
    (ha : Reaches (StunAttribute.size p) cbegin a) (hlt : a < p.length)
    (hlast : ¬ (next (StunAttribute.size p) a = p.length ∧ StunAttribute.length p a = 0)) :
    StunAttribute.get a < p.length := by
  -- the chain goes on from `a` to the end
  have hto : Reaches (StunAttribute.size p) a p.length := by
    rcases ha.total hw.tiled with h | h
    · exact h
    · exact absurd h.le (by omega)
  have hnext : next (StunAttribute.size p) a ≤ p.length := (hto.next_of_lt hlt).le
  have h4 := StunAttribute.four_le_size p a
  by_contra hge
  apply hlast
  unfold StunAttribute.get StunAttribute.byteSize at hge
  unfold next at hnext ⊢
  exact ⟨by omega, (StunAttribute.size_eq_four_iff p a).mp (by omega)⟩

/-- **A well-tiled message is accepted exactly when its last attribute is not empty**: an
attribute of length `0` at the end is a header whose value pointer is the end pointer. -/
theorem accepted_iff_of_wellFormed {crc32 : Bytes → Nat} {p : Bytes} (hw : WellFormed crc32 p) :
    Accepted crc32 p ↔ ¬ ∃ a, Reaches (StunAttribute.size p) cbegin a ∧
      next (StunAttribute.size p) a = p.length ∧ StunAttribute.length p a = 0 := by
  constructor
  · rintro h ⟨a, ha, hnext, hzero⟩
    have hsize := (StunAttribute.size_eq_four_iff p a).mpr hzero
    have hget := h.values_start_inside a ha (by unfold next at hnext; omega)
    unfold StunAttribute.get StunAttribute.byteSize at hget
    unfold next at hnext
    omega
  · intro hno
    exact ⟨hw, fun a ha hlt => get_lt_of_wellFormed hw ha hlt fun hlast => hno ⟨a, ha, hlast⟩⟩

/-- A Binding Request of 24 bytes, transaction id `0`, whose one attribute is a USE-CANDIDATE
of length `0`. -/
def useCandidateRequest : Bytes :=
  [0x00, 0x01, 0x00, 0x04, 0x21, 0x12, 0xA4, 0x42] ++ List.replicate 12 0 ++
    [0x00, 0x25, 0x00, 0x00]

/-- **`isStunMessage` rejects a well-tiled Binding Request that ends in a USE-CANDIDATE**: its
attribute steps from offset 20 exactly to the end, there is no FINGERPRINT, yet the value
pointer of the attribute is the end pointer. `StunMessage::isValid()`, which gives up only on an
attribute at or past `cend()`, accepts it. -/
theorem isStunMessage_rejects_trailing_use_candidate (crc32 : Bytes → Nat) (fuel : Nat) :
    WellFormed crc32 useCandidateRequest ∧
      StunAttribute.type useCandidateRequest cbegin = StunAttribute.USE_CANDIDATE ∧
      StunMessage.isValid crc32 useCandidateRequest (fuel + 2) = some true ∧
      isStunMessage crc32 useCandidateRequest (fuel + 1) = some false := by
  have hnext : next (StunAttribute.size useCandidateRequest) cbegin =
      useCandidateRequest.length := by decide
  have hwell : WellFormed crc32 useCandidateRequest := by
    refine ⟨by decide, by decide, by decide, .step (hnext ▸ .refl _), fun a ha hlt htype => ?_⟩
    cases ha with
    | refl => exact absurd htype (by decide)
    | step h => exact absurd h.le (by rw [hnext]; omega)
  refine ⟨hwell, by decide, ?_, ?_⟩
  · -- `StunMessage::isValid()` checks the USE-CANDIDATE's length and moves on to the end
    rw [StunMessage.isValid, StunMessage.isValidLoop, if_neg (by decide), if_neg (by decide),
      if_neg (by decide), if_neg (by decide), if_neg (by decide), if_neg (by decide),
      if_neg (by decide), if_neg (by decide), if_neg (by decide), if_neg (by decide), hnext,
      StunMessage.isValidLoop, if_pos (by decide)]
  · rw [isStunMessage, if_neg (by decide), if_neg (by decide), isStunMessageLoop,
      if_neg (by decide), if_pos (by decide)]

/-! ## Iterating an accepted message -/

/-- **Every loop over the attributes of an accepted message stops inside it**: the range-for
visits attributes whose header and padded value lie in `[cbegin(), n)`, and `getAttribute`, like
every search among them (`computeFingerprint`, `isAuthentic`, `computeHMAC`), stops on the first
match among those. -/
theorem attributes_inside_of_accepted {crc32 : Bytes → Nat} {p : Bytes} (h : Accepted crc32 p)
    {fuel : Nat} (hfuel : p.length ≤ fuel) :
    ∃ as, iterateAttributes p fuel = some as ∧
      (∀ a ∈ as, cbegin ≤ a ∧ next (StunAttribute.size p) a ≤ p.length) ∧
      ∀ type, getAttribute p type fuel = some (as.find? fun a => StunAttribute.type p a == type) := by
  have hcend : cend p = p.length := by
    have hsize := h.length_eq
    have hle := h.length_le
    unfold cend cbegin
    unfold StunHeader.size at hsize
    rw [if_neg (by omega)]
    omega
  have hpos := StunAttribute.size_pos p
  have hfuel' : p.length - cbegin < fuel := by
    have := h.tiled.le
    unfold cbegin StunHeader.byteSize at this ⊢
    omega
  refine ⟨walk (StunAttribute.size p) hpos p.length cbegin, ?_, fun a ha => ?_, fun type => ?_⟩
  · rw [iterateAttributes, hcend]
    exact iterate_of_reaches h.tiled fuel hfuel'
  · exact ⟨(mem_walk p.length cbegin a ha).1,
      (next_le_of_mem_walk p.length cbegin a h.tiled ha).1⟩
  · rw [getAttribute, hcend]
    exact search_of_reaches h.tiled fuel hfuel'

end MediaBridge.Transport.Ice
