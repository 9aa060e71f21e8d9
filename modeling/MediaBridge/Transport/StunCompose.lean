import MediaBridge.Transport.StunMessage

set_option autoImplicit false

/-! # `transport/ice/Stun`: building STUN messages

`StunMessage::add` copies an attribute's `size()` bytes after the attributes and raises the
header's length by as many. `addMessageIntegrity` adds the HMAC of the message computed as if
its MESSAGE-INTEGRITY were already there (`computeHMAC` fakes the length field), and
`addFingerprint` the CRC computed as if its FINGERPRINT were (`computeFingerprint`); the
verifiers `isAuthentic`, `isValid` and `isStunMessage` recompute both from the finished message,
up to the first attribute of that type. The HMAC is a parameter, the function of the bytes that
`crypto::HMAC` computes for one key, as the CRC is. A `StunXorMappedAddress` holds a
`transport::SocketAddress` masked by the magic cookie, and for IPv6 by the transaction id of a
header.

A message built from a header by `add` is the header, its length field set, followed by the
attributes' bytes (`foldl_add`); every loop over it walks the attributes one by one
(`search_attributes`, `isValidLoop_attributes`, `isStunMessageLoop_attributes`). So after
`add()` calls, `addMessageIntegrity` and `addFingerprint`, the message is a STUN message, is
valid and authentic, and the first XOR-MAPPED-ADDRESS gives back the address it was set to
(`built_message_verifies`), provided no attribute added before was a MESSAGE-INTEGRITY or a
FINGERPRINT: a verifier checks the first one of its type. For a second XOR-MAPPED-ADDRESS,
`getAttribute` still returns the first (`second_xor_mapped_address_not_found`).
-/

namespace MediaBridge.Transport

open Buffer

/-- The address families of a `transport::SocketAddress` that hold an address. -/
inductive Family
  | inet
  | inet6
  deriving DecidableEq, Repr

/-- `sizeof(in_addr)` and `sizeof(in6_addr)`. -/
def Family.addressLength : Family → Nat
  | .inet => 4
  | .inet6 => 16

/-- A `transport::SocketAddress` of family `AF_INET` or `AF_INET6`: the address in network byte
order (`sin_addr`, `sin6_addr`) and the port (`getPort()`). -/
@[ext]
structure SocketAddress where
  family : Family
  address : Bytes
  port : BitVec 16
  address_length : address.length = family.addressLength

namespace Ice

open Tlv StunMessage

/-! ## Writing a message -/

/-- Writing the header's `length`, a `nwuint16_t`. -/
def StunHeader.setLength (p : Bytes) (n : Nat) : Bytes :=
  p.take 2 ++ be16Bytes (n % 65536) ++ p.drop 4

/-- The twenty bytes of an HMAC-SHA1, `hmac20b`. -/
abbrev Digest := { d : Bytes // d.length = 20 }

namespace StunMessageIntegrity

/-- `StunMessageIntegrity::size()`. -/
def size : Nat := 24

/-- A `StunMessageIntegrity` after `setHmac(data)`: length 20 and the HMAC. -/
def withHmac (d : Digest) : Bytes :=
  be16Bytes StunAttribute.MESSAGE_INTEGRITY ++ be16Bytes 20 ++ d.1

/-- `isMatch(data)` of the attribute at `a`: the `memcmp` of its twenty bytes with `data`. -/
def isMatch (p : Bytes) (a : Nat) (d : Digest) : Bool :=
  decide ((List.ofFn fun i : Fin 20 => byteAt p (StunAttribute.get a + i)) = d.1)

end StunMessageIntegrity

/-- `StunFingerprint(v)`: a `StunAttribute32` of length 4 holding `v`. -/
def StunFingerprint.ofValue (v : Nat) : Bytes :=
  be16Bytes StunAttribute.FINGERPRINT ++ be16Bytes 4 ++ be32Bytes v

namespace StunMessage

/-- `add(attr)`: `attr.size()` bytes of the attribute copied after the attributes, and the
length raised by as many. -/
def add (p attr : Bytes) : Bytes :=
  StunHeader.setLength (p.take (size p) ++ attr.take (StunAttribute.size attr 0))
    (StunHeader.length p + StunAttribute.size attr 0)

/-- `computeHMAC(hmacComputer, hmac20b)`, with `fuel` for its search of a MESSAGE-INTEGRITY: the
HMAC of the message up to that attribute, or of the whole message when there is none, with the
length field faked to end after a MESSAGE-INTEGRITY there. -/
def computeHMAC (hmac : Bytes → Digest) (p : Bytes) (fuel : Nat) : Option Digest :=
  (getAttribute p StunAttribute.MESSAGE_INTEGRITY fuel).map fun found =>
    let digestableLength := found.getD (StunHeader.length p + StunHeader.byteSize)
    let fakeLength := digestableLength - StunHeader.byteSize + StunMessageIntegrity.size
    hmac (p.take 2 ++ be16Bytes (fakeLength % 65536) ++ (p.drop 4).take (digestableLength - 4))

/-- `addMessageIntegrity(hmacComputer)`. -/
def addMessageIntegrity (hmac : Bytes → Digest) (p : Bytes) (fuel : Nat) : Option Bytes :=
  (computeHMAC hmac p fuel).map fun d => add p (StunMessageIntegrity.withHmac d)

/-- `isAuthentic(hmacComputer)`: the first MESSAGE-INTEGRITY has length 20 and holds the HMAC
`computeHMAC` gives. -/
def isAuthentic (hmac : Bytes → Digest) (p : Bytes) (fuel : Nat) : Option Bool :=
  (getAttribute p StunAttribute.MESSAGE_INTEGRITY fuel).bind fun
    | none => some false
    | some a =>
        if StunAttribute.length p a ≠ 20 then some false
        else (computeHMAC hmac p fuel).map (StunMessageIntegrity.isMatch p a)

/-- `addFingerprint()`. -/
def addFingerprint (crc32 : Bytes → Nat) (p : Bytes) (fuel : Nat) : Option Bytes :=
  (computeFingerprint crc32 p fuel).map fun v => add p (StunFingerprint.ofValue v)

end StunMessage

namespace StunXorMappedAddress

/-- `MAGIC_COOKIE >> 16`, the mask of the port. -/
def portMask : BitVec 16 := BitVec.ofNat 16 (StunHeader.MAGIC_COOKIE >>> 16)

/-- The bytes `add()` copies of a `StunXorMappedAddress(address, header)`: the family, the port
masked by the cookie's high half, and the address masked by the cookie, or for IPv6 by the
cookie and the transaction id of `header`. -/
def setAddress (address : SocketAddress) (header : Bytes) : Bytes :=
  let port := be16Bytes (address.port ^^^ portMask).toNat
  match address.family with
  | .inet =>
      be16Bytes StunAttribute.XOR_MAPPED_ADDRESS ++ be16Bytes (4 + 4) ++ be16Bytes Family_v4 ++
        port ++ List.ofFn fun i : Fin 4 =>
          byteAt address.address i ^^^ byteAt (be32Bytes StunHeader.MAGIC_COOKIE) i
  | .inet6 =>
      be16Bytes StunAttribute.XOR_MAPPED_ADDRESS ++ be16Bytes (4 + 16) ++ be16Bytes Family_v6 ++
        port ++ List.ofFn fun i : Fin 16 => byteAt address.address i ^^^ byteAt header (4 + i)

/-- `getAddress(header)` of the attribute at `a`: the address unmasked as `setAddress` masked
it, IPv4 for `Family_v4` and IPv6 otherwise. -/
def getAddress (p : Bytes) (a : Nat) (header : Bytes) : SocketAddress :=
  let port := BitVec.ofNat 16 (be16 p (a + 6)) ^^^ portMask
  if be16 p (a + 4) = Family_v4 then
    ⟨.inet, List.ofFn fun i : Fin 4 =>
      byteAt p (a + 8 + i) ^^^ byteAt (be32Bytes StunHeader.MAGIC_COOKIE) i, port, by
        simp [Family.addressLength]⟩
  else
    ⟨.inet6, List.ofFn fun i : Fin 16 => byteAt p (a + 8 + i) ^^^ byteAt header (4 + i), port, by
      simp [Family.addressLength]⟩

end StunXorMappedAddress

/-! ## The length field -/

namespace StunHeader

variable {p : Bytes}

/-- A buffer of at least four bytes, its first four named. -/
theorem exists_four (h : 4 ≤ p.length) : ∃ a b c d rest, p = a :: b :: c :: d :: rest := by
  rcases p with _ | ⟨a, _ | ⟨b, _ | ⟨c, _ | ⟨d, rest⟩⟩⟩⟩
  all_goals simp at h
  exact ⟨a, b, c, d, rest, rfl⟩

theorem length_setLength (h : 4 ≤ p.length) (n : Nat) : (setLength p n).length = p.length := by
  obtain ⟨a, b, c, d, rest, rfl⟩ := exists_four h
  rfl

theorem setLength_append (h : 4 ≤ p.length) (q : Bytes) (n : Nat) :
    setLength (p ++ q) n = setLength p n ++ q := by
  obtain ⟨a, b, c, d, rest, rfl⟩ := exists_four h
  simp [setLength]

theorem setLength_setLength (h : 4 ≤ p.length) (n m : Nat) :
    setLength (setLength p n) m = setLength p m := by
  obtain ⟨a, b, c, d, rest, rfl⟩ := exists_four h
  rfl

theorem take_setLength (h : 4 ≤ p.length) (n : Nat) {k : Nat} (hk : 4 ≤ k) :
    (setLength p n).take k = setLength (p.take k) n := by
  obtain ⟨a, b, c, d, rest, rfl⟩ := exists_four h
  obtain ⟨j, rfl⟩ := Nat.exists_eq_add_of_le hk
  rw [Nat.add_comm]
  rfl

theorem drop_setLength (h : 4 ≤ p.length) (n : Nat) {k : Nat} (hk : 4 ≤ k) :
    (setLength p n).drop k = p.drop k := by
  obtain ⟨a, b, c, d, rest, rfl⟩ := exists_four h
  obtain ⟨j, rfl⟩ := Nat.exists_eq_add_of_le hk
  rw [Nat.add_comm]
  rfl

theorem take_two_setLength (h : 4 ≤ p.length) (n : Nat) : (setLength p n).take 2 = p.take 2 := by
  obtain ⟨a, b, c, d, rest, rfl⟩ := exists_four h
  rfl

theorem length_field_setLength (h : 4 ≤ p.length) (n : Nat) :
    length (setLength p n) = n % 65536 := by
  obtain ⟨a, b, c, d, rest, rfl⟩ := exists_four h
  have := be16_be16Bytes [a, b] rest (n % 65536)
  rwa [Nat.mod_mod] at this

/-- Writing the length read leaves the header as it was. -/
theorem setLength_length (h : 4 ≤ p.length) : setLength p (length p) = p := by
  obtain ⟨a, b, c, d, rest, rfl⟩ := exists_four h
  have hlt : length (a :: b :: c :: d :: rest) < 65536 := by
    have := c.isLt
    have := d.isLt
    unfold length be16 byteAt
    simp only [List.getD_cons_succ, List.getD_cons_zero]
    omega
  unfold setLength
  rw [Nat.mod_eq_of_lt hlt, length, be16Bytes_be16]
  rfl

/-- Writing the length keeps the method and the magic cookie, and so keeps the header valid
while the length stays a multiple of four. -/
theorem isValid_setLength (h : 4 ≤ p.length) (n : Nat) (hn : n % 65536 % 4 = length p % 4) :
    isValid (setLength p n) = isValid p := by
  have hm : method (setLength p n) = method p := by
    obtain ⟨a, b, c, d, rest, rfl⟩ := exists_four h
    rfl
  have hc : magicCookie (setLength p n) = magicCookie p := by
    obtain ⟨a, b, c, d, rest, rfl⟩ := exists_four h
    rfl
  unfold isValid getMethod
  rw [hm, hc, length_field_setLength h, hn]

/-- The header is read from its first eight bytes. -/
theorem isValid_append (h : 8 ≤ p.length) (q : Bytes) : isValid (p ++ q) = isValid p := by
  have hm : method (p ++ q) = method p := be16_append_left _ _ (by omega)
  have hl : length (p ++ q) = length p := be16_append_left _ _ (by omega)
  have hc : magicCookie (p ++ q) = magicCookie p := by
    unfold magicCookie be32
    rw [be16_append_left _ _ (by omega), be16_append_left _ _ (by omega)]
  unfold isValid getMethod
  rw [hm, hl, hc]

end StunHeader

/-! ## A built message: the header, then the attributes -/

/-- The message of the header `hdr` and the attribute bytes `body`, its length set to theirs. -/
def withAttributes (hdr body : Bytes) : Bytes := StunHeader.setLength (hdr ++ body) body.length

section WithAttributes

variable {hdr : Bytes} (hh : hdr.length = 20)
include hh

theorem length_withAttributes (body : Bytes) :
    (withAttributes hdr body).length = 20 + body.length := by
  rw [withAttributes, StunHeader.length_setLength (by simp; omega), List.length_append, hh]

theorem length_field_withAttributes (body : Bytes) :
    StunHeader.length (withAttributes hdr body) = body.length % 65536 :=
  StunHeader.length_field_setLength (by simp; omega) _

theorem drop_withAttributes (body : Bytes) : (withAttributes hdr body).drop 20 = body := by
  rw [withAttributes, StunHeader.drop_setLength (by simp; omega) _ (by omega),
    List.drop_append_of_le_length (by omega), List.drop_of_length_le (by omega), List.nil_append]

theorem take_two_withAttributes (body : Bytes) : (withAttributes hdr body).take 2 = hdr.take 2 := by
  rw [withAttributes, StunHeader.take_two_setLength (by simp; omega),
    List.take_append_of_le_length (by omega)]

theorem drop_four_withAttributes (body : Bytes) :
    (withAttributes hdr body).drop 4 = hdr.drop 4 ++ body := by
  rw [withAttributes, StunHeader.drop_setLength (by simp; omega) _ le_rfl,
    List.drop_append_of_le_length (by omega)]

/-- The message cut after some of its attributes, its length field kept. -/
theorem take_withAttributes (body : Bytes) (j : Nat) :
    (withAttributes hdr body).take (20 + j) =
      StunHeader.setLength (hdr ++ body.take j) body.length := by
  rw [withAttributes, StunHeader.take_setLength (by simp; omega) _ (by omega),
    List.take_append, List.take_of_length_le (by omega), hh, Nat.add_sub_cancel_left]

/-- The header with its length set, then the attributes. -/
theorem setLength_header_append (body : Bytes) (n : Nat) :
    StunHeader.setLength (hdr ++ body) n =
      hdr.take 2 ++ be16Bytes (n % 65536) ++ (hdr.drop 4 ++ body) := by
  rw [StunHeader.setLength, List.take_append_of_le_length (by omega),
    List.drop_append_of_le_length (by omega)]

theorem withAttributes_nil (h0 : StunHeader.length hdr = 0) : withAttributes hdr [] = hdr := by
  rw [withAttributes, List.append_nil, List.length_nil, ← h0,
    StunHeader.setLength_length (by omega)]

theorem isValid_withAttributes (h0 : StunHeader.length hdr = 0) {body : Bytes}
    (hlen : body.length < 65536) (h4 : body.length % 4 = 0) :
    StunHeader.isValid (withAttributes hdr body) = StunHeader.isValid hdr := by
  have hlen' : StunHeader.length (hdr ++ body) = 0 := by
    rw [StunHeader.length, be16_append_left _ _ (by omega)]
    exact h0
  rw [withAttributes, StunHeader.isValid_setLength (by simp; omega) _
    (by rw [Nat.mod_eq_of_lt hlen, h4, hlen']), StunHeader.isValid_append (by omega)]

/-- **`add` appends the attribute.** An attribute whose bytes are its `size()` goes after the
attributes, and the length field follows. -/
theorem add_withAttributes {body x : Bytes} (hx : x.length = StunAttribute.size x 0)
    (hlt : body.length < 65536) :
    add (withAttributes hdr body) x = withAttributes hdr (body ++ x) := by
  have hsize : size (withAttributes hdr body) = (withAttributes hdr body).length := by
    rw [StunMessage.size, length_field_withAttributes hh, Nat.mod_eq_of_lt hlt,
      length_withAttributes hh, StunHeader.byteSize, Nat.add_comm]
  rw [add, hsize, List.take_length, ← hx, List.take_length, length_field_withAttributes hh,
    Nat.mod_eq_of_lt hlt, withAttributes, ← StunHeader.setLength_append (by simp; omega),
    StunHeader.setLength_setLength (by simp; omega), List.append_assoc, withAttributes,
    List.length_append]

/-- **A run of `add` calls** lays the attributes out one after the other. -/
theorem foldl_add : ∀ (xs : List Bytes) (body : Bytes),
    (∀ x ∈ xs, x.length = StunAttribute.size x 0) →
    body.length + xs.flatten.length < 65536 →
    xs.foldl add (withAttributes hdr body) = withAttributes hdr (body ++ xs.flatten)
  | [], body, _, _ => by rw [List.foldl_nil, List.flatten_nil, List.append_nil]
  | x :: xs, body, hs, hlt => by
      rw [List.flatten_cons, List.length_append] at hlt
      rw [List.foldl_cons, add_withAttributes hh (hs x List.mem_cons_self) (by omega),
        foldl_add xs (body ++ x) (fun y hy => hs y (List.mem_cons_of_mem x hy))
          (by rw [List.length_append]; omega),
        List.flatten_cons, List.append_assoc]

end WithAttributes

/-! ## Attributes read in place -/

namespace StunAttribute

theorem type_drop (p : Bytes) (k : Nat) : type (p.drop k) 0 = type p k := by
  rw [type, be16_drop, Nat.add_zero]
  rfl

theorem length_drop (p : Bytes) (k : Nat) : length (p.drop k) 0 = length p k := by
  rw [length, be16_drop, Nat.zero_add]
  rfl

theorem size_drop (p : Bytes) (k : Nat) : size (p.drop k) 0 = size p k := by
  unfold size
  rw [length_drop]

theorem type_append {x : Bytes} (hx : 4 ≤ x.length) (r : Bytes) : type (x ++ r) 0 = type x 0 :=
  be16_append_left _ _ (by omega)

theorem length_append {x : Bytes} (hx : 4 ≤ x.length) (r : Bytes) :
    length (x ++ r) 0 = length x 0 :=
  be16_append_left _ _ (by omega)

theorem size_append {x : Bytes} (hx : 4 ≤ x.length) (r : Bytes) : size (x ++ r) 0 = size x 0 := by
  unfold size
  rw [length_append hx]

/-- An attribute whose bytes are its `size()` has at least its header. -/
theorem four_le_length {x : Bytes} (hx : x.length = size x 0) : 4 ≤ x.length :=
  hx ▸ four_le_size x 0

end StunAttribute

section Chain

variable {m : Bytes} {k : Nat} {x : Bytes} {xs : List Bytes}
  (hd : m.drop k = (x :: xs).flatten) (hx : x.length = StunAttribute.size x 0)
include hd hx

/-- The attribute at `k` is the first of the attributes laid out there. -/
theorem size_of_drop : StunAttribute.size m k = x.length := by
  rw [← StunAttribute.size_drop, hd, List.flatten_cons,
    StunAttribute.size_append (StunAttribute.four_le_length hx), ← hx]

theorem type_of_drop : StunAttribute.type m k = StunAttribute.type x 0 := by
  rw [← StunAttribute.type_drop, hd, List.flatten_cons,
    StunAttribute.type_append (StunAttribute.four_le_length hx)]

theorem drop_next_of_drop : m.drop (next (StunAttribute.size m) k) = xs.flatten := by
  rw [next, size_of_drop hd hx, ← List.drop_drop, hd, List.flatten_cons, List.drop_left]

end Chain

/-- Where the first attribute of type `t` among `xs` lies, when they are laid out from `k`. -/
def firstOfType (t k : Nat) : List Bytes → Option Nat
  | [] => none
  | x :: xs => if StunAttribute.type x 0 = t then some k else firstOfType t (k + x.length) xs

theorem firstOfType_append (t : Nat) : ∀ (xs ys : List Bytes) (k : Nat),
    (∀ x ∈ xs, StunAttribute.type x 0 ≠ t) →
    firstOfType t k (xs ++ ys) = firstOfType t (k + xs.flatten.length) ys
  | [], ys, k, _ => by rw [List.nil_append, List.flatten_nil, List.length_nil, Nat.add_zero]
  | x :: xs, ys, k, h => by
      rw [List.cons_append, firstOfType, if_neg (h x List.mem_cons_self),
        firstOfType_append t xs ys _ fun y hy => h y (List.mem_cons_of_mem x hy),
        List.flatten_cons, List.length_append, Nat.add_assoc]

theorem firstOfType_cons_of_type (t k : Nat) {x : Bytes} (hx : StunAttribute.type x 0 = t)
    (xs : List Bytes) : firstOfType t k (x :: xs) = some k := by
  rw [firstOfType, if_pos hx]

theorem firstOfType_of_forall (t k : Nat) {xs : List Bytes}
    (h : ∀ x ∈ xs, StunAttribute.type x 0 ≠ t) :
    firstOfType t k xs = none := by
  have := firstOfType_append t xs [] k h
  rwa [List.append_nil] at this

/-- **A search among laid-out attributes** finds the first of the type, attribute by attribute. -/
theorem search_attributes (m : Bytes) (t : Nat) : ∀ (xs : List Bytes) (k fuel : Nat),
    m.drop k = xs.flatten → (∀ x ∈ xs, x.length = StunAttribute.size x 0) →
    xs.length < fuel →
    search (StunAttribute.size m) (k + xs.flatten.length) (fun a => StunAttribute.type m a == t)
      fuel k = some (firstOfType t k xs)
  | [], k, fuel, _, _, hf => by
      obtain ⟨f, rfl⟩ : ∃ f, fuel = f + 1 := ⟨fuel - 1, by omega⟩
      rw [search, List.flatten_nil, List.length_nil, Nat.add_zero, if_pos rfl]
      rfl
  | x :: xs, k, fuel, hd, hs, hf => by
      obtain ⟨f, rfl⟩ : ∃ f, fuel = f + 1 := ⟨fuel - 1, by omega⟩
      have hx := hs x List.mem_cons_self
      have h4 := StunAttribute.four_le_length hx
      rw [search, if_neg (by rw [List.flatten_cons, List.length_append]; omega)]
      by_cases ht : StunAttribute.type x 0 = t
      · rw [if_pos (by rw [type_of_drop hd hx, ht]; exact beq_self_eq_true t),
          firstOfType_cons_of_type t k ht]
      · -- the attribute at `k` is passed over; the search goes on after it
        rw [if_neg (by rw [type_of_drop hd hx]; simpa using ht), firstOfType, if_neg ht]
        have hnext : next (StunAttribute.size m) k = k + x.length := by
          rw [next, size_of_drop hd hx]
        have ih := search_attributes m t xs _ f (drop_next_of_drop hd hx)
          (fun y hy => hs y (List.mem_cons_of_mem x hy)) (by rw [List.length_cons] at hf; omega)
        rw [hnext] at ih
        rw [hnext, List.flatten_cons, List.length_append, ← Nat.add_assoc]
        exact ih

/-! ## The loops of `isValid` and `isStunMessage` over laid-out attributes -/

/-- The checks `StunMessage::isValid()` makes on an attribute that is not a FINGERPRINT. -/
def AttributeChecks (p : Bytes) (a : Nat) : Prop :=
  ¬ ((StunAttribute.type p a = StunAttribute.ICE_CONTROLLED ∨
      StunAttribute.type p a = StunAttribute.ICE_CONTROLLING) ∧ StunAttribute.length p a ≠ 8) ∧
    ¬ (StunAttribute.type p a = StunAttribute.PRIORITY ∧ StunAttribute.length p a ≠ 4) ∧
    ¬ (StunAttribute.type p a = StunAttribute.MESSAGE_INTEGRITY ∧ StunAttribute.length p a ≠ 20) ∧
    ¬ (StunAttribute.type p a = StunAttribute.XOR_MAPPED_ADDRESS ∧
      StunXorMappedAddress.isValid p a = false) ∧
    ¬ (StunAttribute.type p a = StunAttribute.MAPPED_ADDRESS ∧ StunMappedAddress.isValid p a = false) ∧
    ¬ (StunAttribute.type p a = StunAttribute.ERROR_CODE ∧ StunError.isValid p a = false) ∧
    ¬ (StunAttribute.type p a = StunAttribute.USE_CANDIDATE ∧ StunAttribute.length p a ≠ 0)

instance (p : Bytes) (a : Nat) : Decidable (AttributeChecks p a) := by
  unfold AttributeChecks
  infer_instance

theorem attributeChecks_drop (p : Bytes) (k : Nat) :
    AttributeChecks (p.drop k) 0 ↔ AttributeChecks p k := by
  have hf : be16 (p.drop k) (0 + StunAttribute.byteSize) = be16 p (k + StunAttribute.byteSize) := by
    rw [be16_drop, Nat.zero_add]
  simp only [AttributeChecks, StunXorMappedAddress.isValid, StunMappedAddress.isValid,
    addressIsValid, StunError.isValid, StunAttribute.type_drop, StunAttribute.length_drop, hf]

/-- An address attribute is checked by its own bytes: a family past its end goes with a length
that fits no family. -/
theorem addressIsValid_append {x : Bytes} (hx : x.length = StunAttribute.size x 0) (r : Bytes) :
    addressIsValid (x ++ r) 0 = addressIsValid x 0 := by
  have h4 := StunAttribute.four_le_length hx
  unfold addressIsValid
  rw [StunAttribute.length_append h4]
  by_cases h6 : 6 ≤ x.length
  · rw [be16_append_left _ _ (by unfold StunAttribute.byteSize; omega)]
  · -- a header and nothing more: the length is `0`
    have hzero : StunAttribute.length x 0 = 0 := by
      have := hx
      unfold StunAttribute.size StunAttribute.byteSize at this
      split at this <;> omega
    simp only [hzero]
    split_ifs <;> rfl

theorem attributeChecks_append {x : Bytes} (hx : x.length = StunAttribute.size x 0) (r : Bytes) :
    AttributeChecks (x ++ r) 0 ↔ AttributeChecks x 0 := by
  have h4 := StunAttribute.four_le_length hx
  simp only [AttributeChecks, StunXorMappedAddress.isValid, StunMappedAddress.isValid,
    StunError.isValid, StunAttribute.type_append h4, StunAttribute.length_append h4,
    addressIsValid_append hx]

/-- A MESSAGE-INTEGRITY of length 20 passes the checks. -/
theorem attributeChecks_of_messageIntegrity {p : Bytes} {a : Nat}
    (ht : StunAttribute.type p a = StunAttribute.MESSAGE_INTEGRITY)
    (hl : StunAttribute.length p a = 20) :
    AttributeChecks p a := by
  simp [AttributeChecks, ht, hl, StunAttribute.MESSAGE_INTEGRITY, StunAttribute.ICE_CONTROLLED,
    StunAttribute.ICE_CONTROLLING, StunAttribute.PRIORITY, StunAttribute.XOR_MAPPED_ADDRESS,
    StunAttribute.MAPPED_ADDRESS, StunAttribute.ERROR_CODE, StunAttribute.USE_CANDIDATE]

/-- A valid XOR-MAPPED-ADDRESS passes the checks. -/
theorem attributeChecks_of_xorMappedAddress {p : Bytes} {a : Nat}
    (ht : StunAttribute.type p a = StunAttribute.XOR_MAPPED_ADDRESS)
    (hv : StunXorMappedAddress.isValid p a = true) : AttributeChecks p a := by
  simp [AttributeChecks, ht, hv, StunAttribute.MESSAGE_INTEGRITY, StunAttribute.ICE_CONTROLLED,
    StunAttribute.ICE_CONTROLLING, StunAttribute.PRIORITY, StunAttribute.XOR_MAPPED_ADDRESS,
    StunAttribute.MAPPED_ADDRESS, StunAttribute.ERROR_CODE, StunAttribute.USE_CANDIDATE]

section Loops

variable {crc32 : Bytes → Nat} {p : Bytes} {fuel steps a : Nat}

/-- An attribute that passes the checks hands `isValid`'s loop on to the next. -/
theorem isValidLoop_of_checks (hne : a ≠ cend p) (hlt : ¬ cend p ≤ a)
    (hfp : StunAttribute.type p a ≠ StunAttribute.FINGERPRINT) (hc : AttributeChecks p a) :
    StunMessage.isValidLoop crc32 p fuel (steps + 1) a =
      StunMessage.isValidLoop crc32 p fuel steps (next (StunAttribute.size p) a) := by
  obtain ⟨h1, h2, h3, h4, h5, h6, h7⟩ := hc
  rw [StunMessage.isValidLoop, if_neg hne, if_neg hlt, if_neg hfp, if_neg h1, if_neg h2, if_neg h3,
    if_neg h4, if_neg h5, if_neg h6, if_neg h7]

/-- A FINGERPRINT holding what `computeFingerprint()` returns hands the loop on to the next. -/
theorem isValidLoop_of_fingerprint (hne : a ≠ cend p) (hlt : ¬ cend p ≤ a)
    (hfp : StunAttribute.type p a = StunAttribute.FINGERPRINT)
    (hv : computeFingerprint crc32 p fuel = some (StunFingerprint.value p a)) :
    StunMessage.isValidLoop crc32 p fuel (steps + 1) a =
      StunMessage.isValidLoop crc32 p fuel steps (next (StunAttribute.size p) a) := by
  rw [StunMessage.isValidLoop, if_neg hne, if_neg hlt, if_pos hfp, hv, Option.bind_some,
    if_neg (not_not.mpr rfl)]

end Loops

/-- A FINGERPRINT of its eight bytes holds the value in them, wherever it is laid out. -/
theorem fingerprint_value_of_drop {m : Bytes} {k : Nat} {x : Bytes} {xs : List Bytes}
    (hd : m.drop k = (x :: xs).flatten) (h8 : 8 ≤ x.length) :
    StunFingerprint.value m k = StunFingerprint.value x 0 := by
  have hread : ∀ i, i + 1 < x.length → be16 m (k + i) = be16 x i := by
    intro i hi
    rw [← be16_drop, hd, List.flatten_cons, be16_append_left _ _ hi]
  show be16 m (k + 4) * 65536 + be16 m (k + 4 + 2) = be16 x 4 * 65536 + be16 x 6
  rw [Nat.add_assoc, hread 4 (by omega), hread 6 (by omega)]

/-- **`isValid`'s loop over laid-out attributes** returns `true` when every attribute passes its
checks and every FINGERPRINT, of eight bytes, holds what `computeFingerprint()` returns. The
induction is on the attributes left. -/
theorem isValidLoop_attributes (crc32 : Bytes → Nat) (m : Bytes) (fuel : Nat) :
    ∀ (xs : List Bytes) (k steps : Nat), m.drop k = xs.flatten →
      cend m = k + xs.flatten.length →
      (∀ x ∈ xs, x.length = StunAttribute.size x 0) →
      (∀ x ∈ xs, StunAttribute.type x 0 = StunAttribute.FINGERPRINT →
        8 ≤ x.length ∧ computeFingerprint crc32 m fuel = some (StunFingerprint.value x 0)) →
      (∀ x ∈ xs, StunAttribute.type x 0 ≠ StunAttribute.FINGERPRINT →
        AttributeChecks x 0) →
      xs.length < steps → StunMessage.isValidLoop crc32 m fuel steps k = some true
  | [], k, steps, _, hend, _, _, _, hsteps => by
      obtain ⟨f, rfl⟩ : ∃ f, steps = f + 1 := ⟨steps - 1, by omega⟩
      rw [StunMessage.isValidLoop, if_pos (by rw [hend]; rfl)]
  | x :: xs, k, steps, hd, hend, hs, hfps, hchecks, hsteps => by
      obtain ⟨f, rfl⟩ : ∃ f, steps = f + 1 := ⟨steps - 1, by omega⟩
      have hx := hs x List.mem_cons_self
      have h4 := StunAttribute.four_le_length hx
      rw [List.flatten_cons, List.length_append] at hend
      have hne : k ≠ cend m := by omega
      have hlt : ¬ cend m ≤ k := by omega
      -- the attribute at `k` passes, and the loop goes on after it
      have hstep : StunMessage.isValidLoop crc32 m fuel (f + 1) k =
          StunMessage.isValidLoop crc32 m fuel f (next (StunAttribute.size m) k) := by
        by_cases hfp : StunAttribute.type x 0 = StunAttribute.FINGERPRINT
        · obtain ⟨h8, hv⟩ := hfps x List.mem_cons_self hfp
          exact isValidLoop_of_fingerprint hne hlt (by rw [type_of_drop hd hx, hfp])
            (by rw [fingerprint_value_of_drop hd h8, hv])
        · refine isValidLoop_of_checks hne hlt (by rw [type_of_drop hd hx]; exact hfp) ?_
          rw [← attributeChecks_drop, hd, List.flatten_cons, attributeChecks_append hx]
          exact hchecks x List.mem_cons_self hfp
      rw [hstep]
      exact isValidLoop_attributes crc32 m fuel xs _ f (drop_next_of_drop hd hx)
        (by rw [next, size_of_drop hd hx]; omega) (fun y hy => hs y (List.mem_cons_of_mem x hy))
        (fun y hy => hfps y (List.mem_cons_of_mem x hy))
        (fun y hy => hchecks y (List.mem_cons_of_mem x hy))
        (by rw [List.length_cons] at hsteps; omega)

/-- **`isStunMessage`'s loop over laid-out attributes** returns `true` when every FINGERPRINT, of
eight bytes, holds what `computeFingerprint()` returns and the last attribute has a value, so
that every value starts before the end. -/
theorem isStunMessageLoop_attributes (crc32 : Bytes → Nat) (m : Bytes) (fuel : Nat) :
    ∀ (xs : List Bytes) (k steps : Nat), m.drop k = xs.flatten →
      cend m = k + xs.flatten.length →
      (∀ x ∈ xs, x.length = StunAttribute.size x 0) →
      (∀ x ∈ xs, StunAttribute.type x 0 = StunAttribute.FINGERPRINT →
        8 ≤ x.length ∧ computeFingerprint crc32 m fuel = some (StunFingerprint.value x 0)) →
      (∀ x, xs.getLast? = some x → 4 < x.length) →
      xs.length < steps → isStunMessageLoop crc32 m (cend m) fuel steps k = some true
  | [], k, steps, _, hend, _, _, _, hsteps => by
      obtain ⟨f, rfl⟩ : ∃ f, steps = f + 1 := ⟨steps - 1, by omega⟩
      rw [isStunMessageLoop, if_pos (by rw [hend]; rfl)]
  | x :: xs, k, steps, hd, hend, hs, hfps, hlast, hsteps => by
      obtain ⟨f, rfl⟩ : ∃ f, steps = f + 1 := ⟨steps - 1, by omega⟩
      have hx := hs x List.mem_cons_self
      have h4 := StunAttribute.four_le_length hx
      rw [List.flatten_cons, List.length_append] at hend
      -- the value of the attribute at `k` starts before the end: another attribute follows, or
      -- this last one has a value
      have hget : ¬ cend m ≤ StunAttribute.get k := by
        unfold StunAttribute.get StunAttribute.byteSize
        cases xs with
        | nil =>
            have := hlast x rfl
            rw [List.flatten_nil, List.length_nil] at hend
            omega
        | cons y ys =>
            have hy :=
              StunAttribute.four_le_length (hs y (List.mem_cons_of_mem x List.mem_cons_self))
            rw [List.flatten_cons, List.length_append] at hend
            omega
      have hstep : isStunMessageLoop crc32 m (cend m) fuel (f + 1) k =
          isStunMessageLoop crc32 m (cend m) fuel f (next (StunAttribute.size m) k) := by
        rw [isStunMessageLoop, if_neg (by omega), if_neg hget]
        by_cases hfp : StunAttribute.type x 0 = StunAttribute.FINGERPRINT
        · obtain ⟨h8, hv⟩ := hfps x List.mem_cons_self hfp
          rw [if_pos (by rw [type_of_drop hd hx, hfp]), hv, Option.bind_some,
            fingerprint_value_of_drop hd h8, if_neg (not_not.mpr rfl)]
        · rw [if_neg (by rw [type_of_drop hd hx]; exact hfp)]
      rw [hstep]
      refine isStunMessageLoop_attributes crc32 m fuel xs _ f (drop_next_of_drop hd hx)
        (by rw [next, size_of_drop hd hx]; omega) (fun y hy => hs y (List.mem_cons_of_mem x hy))
        (fun y hy => hfps y (List.mem_cons_of_mem x hy)) (fun y hy => ?_)
        (by rw [List.length_cons] at hsteps; omega)
      cases xs with
      | nil => cases hy
      | cons z zs => exact hlast y (by rw [List.getLast?_cons_cons]; exact hy)

/-! ## XOR-MAPPED-ADDRESS -/

namespace StunXorMappedAddress

theorem length_setAddress (address : SocketAddress) (header : Bytes) :
    (setAddress address header).length = 8 + address.family.addressLength := by
  obtain ⟨family, addr, port, hlen⟩ := address
  cases family <;> simp [setAddress, Family.addressLength]

/-- The port comes back from its masked bytes. -/
theorem port_unmask (port : BitVec 16) :
    BitVec.ofNat 16 ((port ^^^ portMask).toNat % 65536) ^^^ portMask = port := by
  rw [Nat.mod_eq_of_lt (port ^^^ portMask).isLt, BitVec.ofNat_toNat, BitVec.setWidth_eq,
    BitVec.xor_assoc, BitVec.xor_self, BitVec.xor_zero]

/-- An address comes back from its masked bytes. -/
theorem address_unmask {n : Nat} {addr : Bytes} (hlen : addr.length = n) (mask : Nat → BitVec 8) :
    (List.ofFn fun i : Fin n => byteAt addr i ^^^ mask i ^^^ mask i) = addr := by
  simp only [BitVec.xor_assoc, BitVec.xor_self, BitVec.xor_zero]
  exact ofFn_byteAt hlen

/-- **The address set is the address got**, wherever the attribute lies and whatever follows it,
for the header it was masked with. -/
theorem getAddress_of_drop {m : Bytes} {a : Nat} {address : SocketAddress} {header r : Bytes}
    (hd : m.drop a = setAddress address header ++ r) : getAddress m a header = address := by
  obtain ⟨family, addr, port, hlen⟩ := address
  -- the attribute's header and port, then the masked address from offset 8
  have hfront : ∀ F L : Nat, ∀ tail : Bytes,
      m.drop a = be16Bytes StunAttribute.XOR_MAPPED_ADDRESS ++ be16Bytes L ++ be16Bytes F ++
        be16Bytes (port ^^^ portMask).toNat ++ tail ++ r →
      be16 m (a + 4) = F % 65536 ∧ be16 m (a + 6) = (port ^^^ portMask).toNat % 65536 ∧
        ∀ i, byteAt m (a + 8 + i) = byteAt (tail ++ r) i := by
    intro F L tail h
    refine ⟨?_, ?_, fun i => ?_⟩
    · rw [← be16_drop, h, List.append_assoc, List.append_assoc, List.append_assoc]
      exact be16_be16Bytes (be16Bytes _ ++ be16Bytes L) _ F
    · rw [← be16_drop, h, List.append_assoc, List.append_assoc]
      exact be16_be16Bytes (be16Bytes _ ++ be16Bytes L ++ be16Bytes F) _ _
    · rw [Nat.add_assoc, ← byteAt_drop, h, List.append_assoc, List.append_assoc]
      exact byteAt_append_right (be16Bytes _ ++ be16Bytes L ++ be16Bytes F ++ be16Bytes _) _ i
  cases family with
  | inet =>
      obtain ⟨hfam, hport, haddr⟩ := hfront Family_v4 (4 + 4) _ hd
      have haddr4 : ∀ i : Fin 4, byteAt m (a + 8 + i) =
          byteAt addr i ^^^ byteAt (be32Bytes StunHeader.MAGIC_COOKIE) i := by
        intro i
        rw [haddr, byteAt_append_left _ _ (by simp), byteAt_ofFn]
      have hget : getAddress m a header = ⟨.inet, List.ofFn fun i : Fin 4 =>
          byteAt m (a + 8 + i) ^^^ byteAt (be32Bytes StunHeader.MAGIC_COOKIE) i,
          BitVec.ofNat 16 (be16 m (a + 6)) ^^^ portMask, by simp [Family.addressLength]⟩ :=
        if_pos hfam
      rw [hget]
      refine SocketAddress.ext rfl ?_ (by dsimp only; rw [hport, port_unmask])
      dsimp only
      simp only [haddr4]
      exact address_unmask hlen _
  | inet6 =>
      obtain ⟨hfam, hport, haddr⟩ := hfront Family_v6 (4 + 16) _ hd
      have haddr16 : ∀ i : Fin 16,
          byteAt m (a + 8 + i) = byteAt addr i ^^^ byteAt header (4 + i) := by
        intro i
        rw [haddr, byteAt_append_left _ _ (by simp), byteAt_ofFn]
      have hget : getAddress m a header = ⟨.inet6, List.ofFn fun i : Fin 16 =>
          byteAt m (a + 8 + i) ^^^ byteAt header (4 + i),
          BitVec.ofNat 16 (be16 m (a + 6)) ^^^ portMask, by simp [Family.addressLength]⟩ :=
        if_neg (by rw [hfam]; decide)
      rw [hget]
      refine SocketAddress.ext rfl ?_ (by dsimp only; rw [hport, port_unmask])
      dsimp only
      simp only [haddr16]
      exact address_unmask hlen fun i => byteAt header (4 + i)

end StunXorMappedAddress

/-! ## The attributes `add()` is given -/

/-- An attribute `add()` copies whole and `StunMessage::isValid()` accepts: its bytes are its
`size()`, and the checks of its type hold. -/
structure WellFormedAttribute (x : Bytes) : Prop where
  length_eq : x.length = StunAttribute.size x 0
  checks : AttributeChecks x 0

/-- Every attribute size is a whole number of words. -/
theorem size_mod_four (p : Bytes) (a : Nat) : StunAttribute.size p a % 4 = 0 := by
  unfold StunAttribute.size StunAttribute.byteSize
  split <;> omega

theorem length_flatten_mod_four {xs : List Bytes}
    (hs : ∀ x ∈ xs, x.length = StunAttribute.size x 0) :
    xs.flatten.length % 4 = 0 := by
  induction xs with
  | nil => rfl
  | cons x xs ih =>
      rw [List.flatten_cons, List.length_append, Nat.add_mod, hs x List.mem_cons_self,
        size_mod_four, ih fun y hy => hs y (List.mem_cons_of_mem x hy)]

/-- Every attribute has its header, so there are at most a quarter as many as bytes. -/
theorem length_le_of_sized {xs : List Bytes}
    (hs : ∀ x ∈ xs, x.length = StunAttribute.size x 0) :
    4 * xs.length ≤ xs.flatten.length := by
  induction xs with
  | nil => rfl
  | cons x xs ih =>
      have := StunAttribute.four_le_length (hs x List.mem_cons_self)
      have := ih fun y hy => hs y (List.mem_cons_of_mem x hy)
      rw [List.flatten_cons, List.length_append, List.length_cons]
      omega

/-! The words an attribute is written with, read back. -/

theorem type_words (t : Nat) (rest : Bytes) :
    StunAttribute.type (be16Bytes t ++ rest) 0 = t % 65536 := by
  have h := be16_be16Bytes [] rest t
  rwa [List.nil_append] at h

theorem length_words (t l : Nat) (rest : Bytes) :
    StunAttribute.length (be16Bytes t ++ (be16Bytes l ++ rest)) 0 = l % 65536 := by
  have h := be16_be16Bytes (be16Bytes t) rest l
  rwa [List.append_assoc] at h

theorem family_words (t l f : Nat) (rest : Bytes) :
    be16 (be16Bytes t ++ (be16Bytes l ++ (be16Bytes f ++ rest))) (0 + StunAttribute.byteSize) =
      f % 65536 := by
  have h := be16_be16Bytes (be16Bytes t ++ be16Bytes l) rest f
  rwa [List.append_assoc, List.append_assoc] at h

section Attributes

variable (d : Digest) (v : Nat)

theorem length_withHmac : (StunMessageIntegrity.withHmac d).length = 24 := by
  simp [StunMessageIntegrity.withHmac, d.2]

theorem type_withHmac :
    StunAttribute.type (StunMessageIntegrity.withHmac d) 0 = StunAttribute.MESSAGE_INTEGRITY := by
  rw [StunMessageIntegrity.withHmac, List.append_assoc, type_words]
  rfl

theorem length_field_withHmac : StunAttribute.length (StunMessageIntegrity.withHmac d) 0 = 20 := by
  rw [StunMessageIntegrity.withHmac, List.append_assoc, length_words]

theorem wellFormed_withHmac : WellFormedAttribute (StunMessageIntegrity.withHmac d) :=
  ⟨by rw [length_withHmac, StunAttribute.size, length_field_withHmac]; rfl,
    attributeChecks_of_messageIntegrity (type_withHmac d) (length_field_withHmac d)⟩

/-- The HMAC is read back from after the attribute's header. -/
theorem byteAt_withHmac (r : Bytes) (i : Fin 20) :
    byteAt (StunMessageIntegrity.withHmac d ++ r) (4 + i) = byteAt d.1 i := by
  rw [byteAt_append_left _ _ (by rw [length_withHmac]; omega), StunMessageIntegrity.withHmac]
  exact byteAt_append_right (be16Bytes _ ++ be16Bytes 20) d.1 i

theorem length_ofValue : (StunFingerprint.ofValue v).length = 8 := by
  simp [StunFingerprint.ofValue]

theorem type_ofValue :
    StunAttribute.type (StunFingerprint.ofValue v) 0 = StunAttribute.FINGERPRINT := by
  rw [StunFingerprint.ofValue, List.append_assoc, type_words]
  rfl

theorem size_ofValue : StunAttribute.size (StunFingerprint.ofValue v) 0 = 8 := by
  have hl : StunAttribute.length (StunFingerprint.ofValue v) 0 = 4 := by
    rw [StunFingerprint.ofValue, List.append_assoc, length_words]
  rw [StunAttribute.size, hl]
  rfl

/-- The FINGERPRINT holds its value, cut to 32 bits. -/
theorem value_ofValue : StunFingerprint.value (StunFingerprint.ofValue v) 0 = v % 4294967296 := by
  have h := be32_be32Bytes (be16Bytes StunAttribute.FINGERPRINT ++ be16Bytes 4) [] v
  rwa [List.append_nil] at h

end Attributes

theorem type_setAddress (address : SocketAddress) (header : Bytes) :
    StunAttribute.type (StunXorMappedAddress.setAddress address header) 0 =
      StunAttribute.XOR_MAPPED_ADDRESS := by
  obtain ⟨family, addr, port, hlen⟩ := address
  cases family <;>
  · simp only [StunXorMappedAddress.setAddress, List.append_assoc, type_words]
    rfl

/-- A `StunXorMappedAddress` set to an address is whole and valid. -/
theorem wellFormed_setAddress (address : SocketAddress) (header : Bytes) :
    WellFormedAttribute (StunXorMappedAddress.setAddress address header) := by
  obtain ⟨family, addr, port, hlen⟩ := address
  have hlen' := StunXorMappedAddress.length_setAddress ⟨family, addr, port, hlen⟩ header
  -- the type, the length and the family words of each case
  cases family with
  | inet =>
      have hset : StunXorMappedAddress.setAddress ⟨.inet, addr, port, hlen⟩ header =
          be16Bytes StunAttribute.XOR_MAPPED_ADDRESS ++ (be16Bytes (4 + 4) ++ (be16Bytes Family_v4 ++
            (be16Bytes (port ^^^ StunXorMappedAddress.portMask).toNat ++ List.ofFn fun i : Fin 4 =>
              byteAt addr i ^^^ byteAt (be32Bytes StunHeader.MAGIC_COOKIE) i))) := by
        simp only [StunXorMappedAddress.setAddress, List.append_assoc]
      rw [hset] at hlen' ⊢
      refine ⟨by rw [hlen', StunAttribute.size, length_words]; rfl,
        attributeChecks_of_xorMappedAddress (by rw [type_words]; rfl) ?_⟩
      simp only [StunXorMappedAddress.isValid, addressIsValid, length_words, family_words]
      decide
  | inet6 =>
      have hset : StunXorMappedAddress.setAddress ⟨.inet6, addr, port, hlen⟩ header =
          be16Bytes StunAttribute.XOR_MAPPED_ADDRESS ++ (be16Bytes (4 + 16) ++ (be16Bytes Family_v6 ++
            (be16Bytes (port ^^^ StunXorMappedAddress.portMask).toNat ++ List.ofFn fun i : Fin 16 =>
              byteAt addr i ^^^ byteAt header (4 + i)))) := by
        simp only [StunXorMappedAddress.setAddress, List.append_assoc]
      rw [hset] at hlen' ⊢
      refine ⟨by rw [hlen', StunAttribute.size, length_words]; rfl,
        attributeChecks_of_xorMappedAddress (by rw [type_words]; rfl) ?_⟩
      simp only [StunXorMappedAddress.isValid, addressIsValid, length_words, family_words]
      decide

/-! ## Building a message -/

/-- The HMAC `addMessageIntegrity` computes after the attributes `body`: of the message with its
length faked to end after a MESSAGE-INTEGRITY. -/
def integrityOf (hmac : Bytes → Digest) (header body : Bytes) : Digest :=
  hmac (header.take 2 ++ be16Bytes (body.length + StunMessageIntegrity.size) ++ (header.drop 4 ++ body))

/-- The value `addFingerprint` computes after the attributes `body`: the CRC of the message with
its length faked to end after a FINGERPRINT. -/
def fingerprintOf (crc32 : Bytes → Nat) (header body : Bytes) : Nat :=
  crc32 (header.take 2 ++ be16Bytes (body.length + 8) ++ (header.drop 4 ++ body)) % 4294967296 ^^^
    rfc5389xor

theorem fingerprintOf_lt (crc32 : Bytes → Nat) (header body : Bytes) :
    fingerprintOf crc32 header body < 4294967296 :=
  Nat.xor_lt_two_pow (n := 32) (Nat.mod_lt _ (by decide)) (by decide)

/-- The message the calls build: the attributes, the MESSAGE-INTEGRITY over them and the
FINGERPRINT over both. -/
def builtMessage (crc32 : Bytes → Nat) (hmac : Bytes → Digest) (header : Bytes)
    (attrs : List Bytes) : Bytes :=
  withAttributes header (attrs ++
    [StunMessageIntegrity.withHmac (integrityOf hmac header attrs.flatten),
      StunFingerprint.ofValue (fingerprintOf crc32 header
        (attrs ++ [StunMessageIntegrity.withHmac (integrityOf hmac header attrs.flatten)]).flatten)]).flatten

/-- The attributes of a built message: those added, then the MESSAGE-INTEGRITY and the
FINGERPRINT. -/
def builtAttributes (crc32 : Bytes → Nat) (hmac : Bytes → Digest) (header : Bytes)
    (attrs : List Bytes) : List Bytes :=
  attrs ++ [StunMessageIntegrity.withHmac (integrityOf hmac header attrs.flatten),
    StunFingerprint.ofValue (fingerprintOf crc32 header
      (attrs ++ [StunMessageIntegrity.withHmac (integrityOf hmac header attrs.flatten)]).flatten)]

theorem builtMessage_eq (crc32 : Bytes → Nat) (hmac : Bytes → Digest) (header : Bytes)
    (attrs : List Bytes) :
    builtMessage crc32 hmac header attrs =
      withAttributes header (builtAttributes crc32 hmac header attrs).flatten := rfl

section Trailer

variable (attrs : List Bytes) (d : Digest)

theorem sized_append_withHmac (hs : ∀ x ∈ attrs, x.length = StunAttribute.size x 0) :
    ∀ x ∈ attrs ++ [StunMessageIntegrity.withHmac d], x.length = StunAttribute.size x 0 := by
  intro x hx
  rcases List.mem_append.mp hx with hx | hx
  · exact hs x hx
  · rw [List.mem_singleton.mp hx]
    exact (wellFormed_withHmac d).length_eq

theorem type_append_withHmac
    (hfp : ∀ x ∈ attrs, StunAttribute.type x 0 ≠ StunAttribute.FINGERPRINT) :
    ∀ x ∈ attrs ++ [StunMessageIntegrity.withHmac d],
      StunAttribute.type x 0 ≠ StunAttribute.FINGERPRINT := by
  intro x hx
  rcases List.mem_append.mp hx with hx | hx
  · exact hfp x hx
  · rw [List.mem_singleton.mp hx, type_withHmac]
    decide

theorem length_append_withHmac :
    (attrs ++ [StunMessageIntegrity.withHmac d]).flatten.length = attrs.flatten.length + 24 := by
  rw [List.flatten_append, List.flatten_singleton, List.length_append, length_withHmac]

end Trailer

section BuiltAttributes

variable (crc32 : Bytes → Nat) (hmac : Bytes → Digest) (header : Bytes) (attrs : List Bytes)

theorem mem_builtAttributes {x : Bytes} (hx : x ∈ builtAttributes crc32 hmac header attrs) :
    x ∈ attrs ∨ x = StunMessageIntegrity.withHmac (integrityOf hmac header attrs.flatten) ∨
      x = StunFingerprint.ofValue (fingerprintOf crc32 header
        (attrs ++ [StunMessageIntegrity.withHmac (integrityOf hmac header attrs.flatten)]).flatten) := by
  simpa only [builtAttributes, List.mem_append, List.mem_cons, List.not_mem_nil, or_false] using hx

theorem sized_builtAttributes (hs : ∀ x ∈ attrs, x.length = StunAttribute.size x 0) :
    ∀ x ∈ builtAttributes crc32 hmac header attrs, x.length = StunAttribute.size x 0 := by
  intro x hx
  rcases mem_builtAttributes crc32 hmac header attrs hx with hx | rfl | rfl
  · exact hs x hx
  · exact (wellFormed_withHmac _).length_eq
  · rw [length_ofValue, size_ofValue]

theorem length_builtAttributes :
    (builtAttributes crc32 hmac header attrs).flatten.length = attrs.flatten.length + 32 := by
  rw [builtAttributes, List.flatten_append, List.length_append, List.flatten_cons,
    List.flatten_cons, List.flatten_nil, List.append_nil, List.length_append, length_withHmac,
    length_ofValue]

/-- A message of at most `MTU` bytes has fewer attributes than `MTU`, so that every loop over
them stops within `MTU` steps. -/
theorem length_builtAttributes_lt (hs : ∀ x ∈ attrs, x.length = StunAttribute.size x 0)
    (hsize : attrs.flatten.length + 32 ≤ MTU) {fuel : Nat} (hfuel : MTU ≤ fuel) :
    (builtAttributes crc32 hmac header attrs).length < fuel := by
  have h := length_le_of_sized (sized_builtAttributes crc32 hmac header attrs hs)
  rw [length_builtAttributes] at h
  unfold MTU at hsize hfuel
  omega

end BuiltAttributes

section Build


variable {header : Bytes} (hh : header.length = 20)
include hh

theorem cend_withAttributes {body : Bytes} (hle : body.length ≤ MTU) :
    cend (withAttributes header body) = 20 + body.length := by
  unfold cend cbegin
  rw [length_field_withAttributes hh, Nat.mod_eq_of_lt (by unfold MTU at hle; omega),
    if_neg (by omega)]
  rfl

/-- The searches of a built message go attribute by attribute. -/
theorem getAttribute_withAttributes {xs : List Bytes}
    (hs : ∀ x ∈ xs, x.length = StunAttribute.size x 0)
    (hle : xs.flatten.length ≤ MTU) (t : Nat) {fuel : Nat} (hfuel : xs.length < fuel) :
    getAttribute (withAttributes header xs.flatten) t fuel = some (firstOfType t 20 xs) := by
  unfold getAttribute
  rw [cend_withAttributes hh hle]
  exact search_attributes _ t xs 20 fuel (drop_withAttributes hh _) hs hfuel

/-- Before any MESSAGE-INTEGRITY, `computeHMAC` digests the whole message as if one followed. -/
theorem computeHMAC_of_none (hmac : Bytes → Digest) {xs : List Bytes}
    (hs : ∀ x ∈ xs, x.length = StunAttribute.size x 0) (hle : xs.flatten.length ≤ MTU)
    (hmi : ∀ x ∈ xs, StunAttribute.type x 0 ≠ StunAttribute.MESSAGE_INTEGRITY) {fuel : Nat}
    (hfuel : xs.length < fuel) :
    computeHMAC hmac (withAttributes header xs.flatten) fuel =
      some (integrityOf hmac header xs.flatten) := by
  have hlen : StunHeader.length (withAttributes header xs.flatten) = xs.flatten.length := by
    rw [length_field_withAttributes hh, Nat.mod_eq_of_lt (by unfold MTU at hle; omega)]
  have hrest : ((withAttributes header xs.flatten).drop 4).take
      (xs.flatten.length + StunHeader.byteSize - 4) = header.drop 4 ++ xs.flatten := by
    rw [drop_four_withAttributes hh, List.take_of_length_le (by
      simp only [List.length_append, List.length_drop, hh, StunHeader.byteSize]; omega)]
  rw [computeHMAC, getAttribute_withAttributes hh hs hle _ hfuel, firstOfType_of_forall _ _ hmi]
  simp only [Option.map_some, Option.getD_none, hlen, hrest, take_two_withAttributes hh,
    Nat.add_sub_cancel]
  rw [Nat.mod_eq_of_lt (by unfold StunMessageIntegrity.size MTU at *; omega)]
  rfl

/-- Before any FINGERPRINT, `computeFingerprint` checksums the whole message as if one
followed. -/
theorem computeFingerprint_of_none (crc32 : Bytes → Nat) {xs : List Bytes}
    (hs : ∀ x ∈ xs, x.length = StunAttribute.size x 0) (hle : xs.flatten.length ≤ MTU)
    (hfp : ∀ x ∈ xs, StunAttribute.type x 0 ≠ StunAttribute.FINGERPRINT) {fuel : Nat}
    (hfuel : xs.length < fuel) :
    computeFingerprint crc32 (withAttributes header xs.flatten) fuel =
      some (fingerprintOf crc32 header xs.flatten) := by
  have hlen : StunHeader.length (withAttributes header xs.flatten) = xs.flatten.length := by
    rw [length_field_withAttributes hh, Nat.mod_eq_of_lt (by unfold MTU at hle; omega)]
  have hrest : ((withAttributes header xs.flatten).drop 4).take
      (StunHeader.size (withAttributes header xs.flatten) - 4) = header.drop 4 ++ xs.flatten := by
    rw [drop_four_withAttributes hh, List.take_of_length_le (by
      simp only [StunHeader.size, hlen, List.length_append, List.length_drop, hh,
        StunHeader.byteSize]; omega)]
  rw [computeFingerprint, getAttribute_withAttributes hh hs hle _ hfuel,
    firstOfType_of_forall _ _ hfp,
    Option.map_some, hrest, take_two_withAttributes hh, hlen]
  rfl

/-- The first attribute of type `t` is found after the ones before it. -/
theorem getAttribute_of_first {xs rs : List Bytes} {y : Bytes} {t : Nat}
    (hs : ∀ x ∈ xs ++ y :: rs, x.length = StunAttribute.size x 0)
    (hle : (xs ++ y :: rs).flatten.length ≤ MTU) (ht : ∀ x ∈ xs, StunAttribute.type x 0 ≠ t)
    (hy : StunAttribute.type y 0 = t) {fuel : Nat} (hfuel : (xs ++ y :: rs).length < fuel) :
    getAttribute (withAttributes header (xs ++ y :: rs).flatten) t fuel =
      some (some (20 + xs.flatten.length)) := by
  rw [getAttribute_withAttributes hh hs hle t hfuel, firstOfType_append t xs _ 20 ht,
    firstOfType_cons_of_type t _ hy]

theorem drop_of_first (xs rs : List Bytes) (y : Bytes) :
    (withAttributes header (xs ++ y :: rs).flatten).drop (20 + xs.flatten.length) =
      (y :: rs).flatten := by
  rw [← List.drop_drop, drop_withAttributes hh, List.flatten_append, List.drop_left]

/-- At the first MESSAGE-INTEGRITY, `computeHMAC` digests the message before it, with the length
faked to end after it: what `addMessageIntegrity` digested. -/
theorem computeHMAC_of_first (hmac : Bytes → Digest) {xs rs : List Bytes} {y : Bytes}
    (hs : ∀ x ∈ xs ++ y :: rs, x.length = StunAttribute.size x 0)
    (hle : (xs ++ y :: rs).flatten.length ≤ MTU)
    (hmi : ∀ x ∈ xs, StunAttribute.type x 0 ≠ StunAttribute.MESSAGE_INTEGRITY)
    (hy : StunAttribute.type y 0 = StunAttribute.MESSAGE_INTEGRITY) {fuel : Nat}
    (hfuel : (xs ++ y :: rs).length < fuel) :
    computeHMAC hmac (withAttributes header (xs ++ y :: rs).flatten) fuel =
      some (integrityOf hmac header xs.flatten) := by
  have hlen : xs.flatten.length ≤ (xs ++ y :: rs).flatten.length := by
    rw [List.flatten_append, List.length_append]
    omega
  have hrest : ((withAttributes header (xs ++ y :: rs).flatten).drop 4).take
      (20 + xs.flatten.length - 4) = header.drop 4 ++ xs.flatten := by
    rw [drop_four_withAttributes hh, List.flatten_append, ← List.append_assoc,
      List.take_left' (by rw [List.length_append, List.length_drop, hh]; omega)]
  have hfake : (20 + xs.flatten.length - StunHeader.byteSize + StunMessageIntegrity.size) % 65536 =
      xs.flatten.length + StunMessageIntegrity.size := by
    unfold StunHeader.byteSize StunMessageIntegrity.size
    unfold MTU at hle
    omega
  rw [computeHMAC, getAttribute_of_first hh hs hle hmi hy hfuel]
  simp only [Option.map_some, Option.getD_some, hrest, hfake, take_two_withAttributes hh]
  rfl

/-- At the last attribute, a FINGERPRINT, `computeFingerprint` checksums the message before it,
with its length: what `addFingerprint` checksummed. -/
theorem computeFingerprint_of_last (crc32 : Bytes → Nat) {xs : List Bytes} (v : Nat)
    (hs : ∀ x ∈ xs, x.length = StunAttribute.size x 0) (hle : xs.flatten.length + 8 ≤ MTU)
    (hfp : ∀ x ∈ xs, StunAttribute.type x 0 ≠ StunAttribute.FINGERPRINT) {fuel : Nat}
    (hfuel : xs.length + 1 < fuel) :
    computeFingerprint crc32 (withAttributes header (xs ++ [StunFingerprint.ofValue v]).flatten)
        fuel =
      some (fingerprintOf crc32 header xs.flatten) := by
  have hs' : ∀ x ∈ xs ++ [StunFingerprint.ofValue v], x.length = StunAttribute.size x 0 := by
    intro x hx
    rcases List.mem_append.mp hx with hx | hx
    · exact hs x hx
    · rw [List.mem_singleton.mp hx, length_ofValue, size_ofValue]
  have hlen : (xs ++ [StunFingerprint.ofValue v]).flatten.length = xs.flatten.length + 8 := by
    rw [List.flatten_append, List.flatten_singleton, List.length_append, length_ofValue]
  have hMTU : MTU = 1280 := rfl
  have hsize : StunHeader.size (withAttributes header (xs ++ [StunFingerprint.ofValue v]).flatten) =
      20 + xs.flatten.length + 8 := by
    rw [StunHeader.size, length_field_withAttributes hh, hlen, Nat.mod_eq_of_lt (by omega),
      StunHeader.byteSize]
    omega
  have hattr :
      StunAttribute.size (withAttributes header (xs ++ [StunFingerprint.ofValue v]).flatten)
      (20 + xs.flatten.length) = 8 := by
    rw [← StunAttribute.size_drop, drop_of_first hh xs [] _, List.flatten_singleton, size_ofValue]
  -- the message up to the FINGERPRINT, its length field kept
  have hprefix : (withAttributes header (xs ++ [StunFingerprint.ofValue v]).flatten).take
      (20 + xs.flatten.length) =
      header.take 2 ++ be16Bytes (xs.flatten.length + 8) ++ (header.drop 4 ++ xs.flatten) := by
    rw [take_withAttributes hh, hlen, List.flatten_append, List.take_left' rfl,
      setLength_header_append hh, Nat.mod_eq_of_lt (by omega)]
  rw [computeFingerprint, getAttribute_of_first hh hs' (by omega) hfp (type_ofValue v)
    (by rw [List.length_append, List.length_singleton]; exact hfuel), Option.map_some]
  dsimp only
  rw [hsize, hattr, Nat.add_sub_cancel, hprefix]
  rfl

/-- The MESSAGE-INTEGRITY `addMessageIntegrity` writes is authentic. -/
theorem isAuthentic_of_first (hmac : Bytes → Digest) {xs rs : List Bytes}
    (hs : ∀ x ∈ xs ++ StunMessageIntegrity.withHmac (integrityOf hmac header xs.flatten) :: rs,
      x.length = StunAttribute.size x 0)
    (hle : (xs ++ StunMessageIntegrity.withHmac (integrityOf hmac header xs.flatten) :: rs).flatten.length ≤
      MTU)
    (hmi : ∀ x ∈ xs, StunAttribute.type x 0 ≠ StunAttribute.MESSAGE_INTEGRITY) {fuel : Nat}
    (hfuel :
      (xs ++ StunMessageIntegrity.withHmac (integrityOf hmac header xs.flatten) :: rs).length < fuel) :
    isAuthentic hmac (withAttributes header
      (xs ++ StunMessageIntegrity.withHmac (integrityOf hmac header xs.flatten) :: rs).flatten)
        fuel =
      some true := by
  have hd :=
    drop_of_first hh xs rs (StunMessageIntegrity.withHmac (integrityOf hmac header xs.flatten))
  rw [List.flatten_cons] at hd
  have hl : StunAttribute.length (withAttributes header
      (xs ++ StunMessageIntegrity.withHmac (integrityOf hmac header xs.flatten) :: rs).flatten)
      (20 + xs.flatten.length) = 20 := by
    rw [← StunAttribute.length_drop, hd,
      StunAttribute.length_append (by rw [length_withHmac]; omega), length_field_withHmac]
  -- the digest is read back from where it was written
  have hmatch : StunMessageIntegrity.isMatch (withAttributes header
      (xs ++ StunMessageIntegrity.withHmac (integrityOf hmac header xs.flatten) :: rs).flatten)
      (20 + xs.flatten.length) (integrityOf hmac header xs.flatten) = true := by
    have hbyte : ∀ i : Fin 20, byteAt (withAttributes header
        (xs ++ StunMessageIntegrity.withHmac (integrityOf hmac header xs.flatten) :: rs).flatten)
        (StunAttribute.get (20 + xs.flatten.length) + i) =
        byteAt (integrityOf hmac header xs.flatten).1 i := by
      intro i
      rw [StunAttribute.get, StunAttribute.byteSize, Nat.add_assoc, ← byteAt_drop, hd,
        byteAt_withHmac]
    rw [StunMessageIntegrity.isMatch, decide_eq_true_iff]
    simp only [hbyte]
    exact ofFn_byteAt (integrityOf hmac header xs.flatten).2
  rw [isAuthentic, getAttribute_of_first hh hs hle hmi (type_withHmac _) hfuel, Option.bind_some]
  dsimp only
  rw [if_neg (by rw [hl]; exact not_not.mpr rfl),
    computeHMAC_of_first hh hmac hs hle hmi (type_withHmac _) hfuel, Option.map_some, hmatch]

end Build

section Built

variable (crc32 : Bytes → Nat) (hmac : Bytes → Digest) {header : Bytes} {attrs : List Bytes}
  (hh : header.length = 20) (hs : ∀ x ∈ attrs, x.length = StunAttribute.size x 0)
  (hsize : attrs.flatten.length + 32 ≤ MTU) {fuel : Nat} (hfuel : MTU ≤ fuel)
include hh hs hsize hfuel

/-- **What the calls build.** After `add()` of attributes that are their `size()`, none a
MESSAGE-INTEGRITY or a FINGERPRINT, `addMessageIntegrity` and `addFingerprint` lay out the
attributes, the MESSAGE-INTEGRITY of `integrityOf` and the FINGERPRINT of `fingerprintOf`. -/
theorem build_eq (h0 : StunHeader.length header = 0)
    (hmi : ∀ x ∈ attrs, StunAttribute.type x 0 ≠ StunAttribute.MESSAGE_INTEGRITY)
    (hfp : ∀ x ∈ attrs, StunAttribute.type x 0 ≠ StunAttribute.FINGERPRINT) :
    (addMessageIntegrity hmac (attrs.foldl add header) fuel).bind (addFingerprint crc32 · fuel) =
      some (builtMessage crc32 hmac header attrs) := by
  have hcount := length_le_of_sized hs
  have hMTU : MTU = 1280 := rfl
  have hfold : attrs.foldl add header = withAttributes header attrs.flatten := by
    have h := foldl_add hh attrs [] hs (by rw [List.length_nil]; omega)
    rwa [withAttributes_nil hh h0, List.nil_append] at h
  -- the MESSAGE-INTEGRITY goes after the attributes
  rw [hfold, addMessageIntegrity, computeHMAC_of_none hh hmac hs (by omega) hmi (by omega),
    Option.map_some, Option.bind_some,
    add_withAttributes hh (wellFormed_withHmac _).length_eq (by omega)]
  -- and the FINGERPRINT after it
  have hxs :
      attrs.flatten ++ StunMessageIntegrity.withHmac (integrityOf hmac header attrs.flatten) =
      (attrs ++ [StunMessageIntegrity.withHmac (integrityOf hmac header attrs.flatten)]).flatten := by
    rw [List.flatten_append, List.flatten_singleton]
  have hlen := length_append_withHmac attrs (integrityOf hmac header attrs.flatten)
  rw [addFingerprint, hxs, computeFingerprint_of_none hh crc32 (sized_append_withHmac _ _ hs)
      (by omega) (type_append_withHmac _ _ hfp)
      (by rw [List.length_append, List.length_singleton]; omega), Option.map_some,
    add_withAttributes hh (by rw [length_ofValue, size_ofValue]) (by omega), builtMessage,
    List.flatten_append, List.flatten_append, List.flatten_cons, List.flatten_cons,
    List.flatten_singleton, List.flatten_nil, List.append_nil, List.append_assoc]

theorem computeFingerprint_builtMessage
    (hfp : ∀ x ∈ attrs, StunAttribute.type x 0 ≠ StunAttribute.FINGERPRINT) :
    computeFingerprint crc32 (builtMessage crc32 hmac header attrs) fuel =
      some (fingerprintOf crc32 header
        (attrs ++ [StunMessageIntegrity.withHmac (integrityOf hmac header attrs.flatten)]).flatten) := by
  have hlen := length_append_withHmac attrs (integrityOf hmac header attrs.flatten)
  have hcount :=
    length_le_of_sized (sized_append_withHmac attrs (integrityOf hmac header attrs.flatten) hs)
  have hsplit : ∀ y z : Bytes, attrs ++ [y, z] = (attrs ++ [y]) ++ [z] := fun y z => by
    rw [List.append_assoc, List.singleton_append]
  unfold builtMessage
  unfold MTU at hsize hfuel
  rw [hsplit]
  exact computeFingerprint_of_last hh crc32 _ (sized_append_withHmac _ _ hs) (by unfold MTU; omega)
    (type_append_withHmac _ _ hfp) (by omega)

/-- The one FINGERPRINT of a built message, the last attribute, holds what
`computeFingerprint()` returns. -/
theorem fingerprints_builtMessage
    (hfp : ∀ x ∈ attrs, StunAttribute.type x 0 ≠ StunAttribute.FINGERPRINT) :
    ∀ x ∈ builtAttributes crc32 hmac header attrs,
      StunAttribute.type x 0 = StunAttribute.FINGERPRINT →
        8 ≤ x.length ∧ computeFingerprint crc32 (builtMessage crc32 hmac header attrs) fuel =
          some (StunFingerprint.value x 0) := by
  intro x hx ht
  rcases mem_builtAttributes crc32 hmac header attrs hx with hx | rfl | rfl
  · exact absurd ht (hfp x hx)
  · exact absurd ht (by rw [type_withHmac]; decide)
  · refine ⟨by rw [length_ofValue], ?_⟩
    rw [value_ofValue, Nat.mod_eq_of_lt (fingerprintOf_lt _ _ _)]
    exact computeFingerprint_builtMessage crc32 hmac hh hs hsize hfuel hfp

/-- **A built message is valid.** -/
theorem isValid_builtMessage (hchecks : ∀ x ∈ attrs, AttributeChecks x 0)
    (hfp : ∀ x ∈ attrs, StunAttribute.type x 0 ≠ StunAttribute.FINGERPRINT) :
    StunMessage.isValid crc32 (builtMessage crc32 hmac header attrs) fuel = some true := by
  have hlen := length_builtAttributes crc32 hmac header attrs
  rw [builtMessage_eq]
  refine isValidLoop_attributes crc32 _ fuel _ 20 fuel (drop_withAttributes hh _)
    (cend_withAttributes hh (hlen.trans_le hsize)) (sized_builtAttributes _ _ _ _ hs)
    (fingerprints_builtMessage crc32 hmac hh hs hsize hfuel hfp) ?checks
    (length_builtAttributes_lt _ _ _ _ hs hsize hfuel)
  case checks =>
    intro x hx ht
    rcases mem_builtAttributes crc32 hmac header attrs hx with hx | rfl | rfl
    · exact hchecks x hx
    · exact (wellFormed_withHmac _).checks
    · exact absurd (type_ofValue _) ht

/-- **A built message is a STUN message.** -/
theorem isStunMessage_builtMessage (h0 : StunHeader.length header = 0)
    (hvalid : StunHeader.isValid header = true)
    (hfp : ∀ x ∈ attrs, StunAttribute.type x 0 ≠ StunAttribute.FINGERPRINT) :
    isStunMessage crc32 (builtMessage crc32 hmac header attrs) fuel = some true := by
  have hlen := length_builtAttributes crc32 hmac header attrs
  have hs' := sized_builtAttributes crc32 hmac header attrs hs
  have hMTU : MTU = 1280 := rfl
  -- the header: its length is the attributes', and it stays valid
  have hsz : (builtMessage crc32 hmac header attrs).length = 20 + (attrs.flatten.length + 32) := by
    rw [builtMessage_eq, length_withAttributes hh, hlen]
  have hfield :
      StunHeader.length (builtMessage crc32 hmac header attrs) = attrs.flatten.length + 32 := by
    rw [builtMessage_eq, length_field_withAttributes hh, hlen, Nat.mod_eq_of_lt (by omega)]
  have hheader : StunHeader.isValid (builtMessage crc32 hmac header attrs) = true := by
    rw [builtMessage_eq, isValid_withAttributes hh h0 (by omega) (length_flatten_mod_four hs'),
      hvalid]
  have hcend : cend (builtMessage crc32 hmac header attrs) = 20 + (attrs.flatten.length + 32) := by
    rw [builtMessage_eq, cend_withAttributes hh (by omega), hlen]
  have hend : StunMessage.size (builtMessage crc32 hmac header attrs) =
      cend (builtMessage crc32 hmac header attrs) := by
    rw [StunMessage.size, hfield, hcend, StunHeader.byteSize, Nat.add_comm]
  unfold isStunMessage
  rw [if_neg (by rw [hsz, StunHeader.byteSize]; omega),
    if_neg (by
      rw [hfield, hsz, hheader, StunHeader.byteSize, hMTU]
      simp only [Bool.true_eq_false, or_false]
      omega), hend]
  -- the loop: the last attribute is the FINGERPRINT, which has a value
  rw [builtMessage_eq] at hcend ⊢
  refine isStunMessageLoop_attributes crc32 _ fuel _ 20 fuel (drop_withAttributes hh _)
    (by rw [hcend, hlen]) hs' (fingerprints_builtMessage crc32 hmac hh hs hsize hfuel hfp)
    (fun x hx => ?_) (length_builtAttributes_lt _ _ _ _ hs hsize hfuel)
  rw [builtAttributes, List.getLast?_append_of_ne_nil _ (List.cons_ne_nil _ _),
    List.getLast?_cons_cons,
    List.getLast?_singleton, Option.some_inj] at hx
  rw [← hx, length_ofValue]
  omega

/-- **A built message is authentic.** -/
theorem isAuthentic_builtMessage
    (hmi : ∀ x ∈ attrs, StunAttribute.type x 0 ≠ StunAttribute.MESSAGE_INTEGRITY) :
    isAuthentic hmac (builtMessage crc32 hmac header attrs) fuel = some true := by
  have hlen := length_builtAttributes crc32 hmac header attrs
  exact isAuthentic_of_first hh hmac (sized_builtAttributes _ _ _ _ hs) (hlen.trans_le hsize)
    hmi (length_builtAttributes_lt _ _ _ _ hs hsize hfuel)

/-- **The first XOR-MAPPED-ADDRESS of a built message gives back its address.** -/
theorem getAddress_builtMessage (before rest : List Bytes) (address : SocketAddress) (hdr : Bytes)
    (heq : attrs = before ++ StunXorMappedAddress.setAddress address hdr :: rest)
    (hxor : ∀ x ∈ before, StunAttribute.type x 0 ≠ StunAttribute.XOR_MAPPED_ADDRESS) :
    getAttribute (builtMessage crc32 hmac header attrs) StunAttribute.XOR_MAPPED_ADDRESS fuel =
        some (some (20 + before.flatten.length)) ∧
      StunXorMappedAddress.getAddress (builtMessage crc32 hmac header attrs)
        (20 + before.flatten.length) hdr = address := by
  have hlen := length_builtAttributes crc32 hmac header attrs
  have hs' := sized_builtAttributes crc32 hmac header attrs hs
  have hcount := length_builtAttributes_lt crc32 hmac header attrs hs hsize hfuel
  -- the attributes after the XOR-MAPPED-ADDRESS, the two the calls added among them
  have hsplit : ∀ tr : List Bytes, attrs ++ tr =
      before ++ StunXorMappedAddress.setAddress address hdr :: (rest ++ tr) := fun tr => by
    rw [heq, List.append_assoc, List.cons_append]
  rw [builtMessage_eq]
  rw [builtAttributes, hsplit] at hs' hlen hcount ⊢
  exact ⟨getAttribute_of_first hh hs' (hlen.trans_le hsize) hxor
      (type_setAddress address hdr) hcount,
    StunXorMappedAddress.getAddress_of_drop (by rw [drop_of_first hh, List.flatten_cons])⟩

end Built

/-- **A message built by the calls verifies.** From a fresh valid header, after `add()` of
well-formed attributes of at most `MTU - 32` bytes, none a MESSAGE-INTEGRITY or a FINGERPRINT,
then `addMessageIntegrity` and `addFingerprint`, the message is a STUN message, is valid and is
authentic for the same HMAC, and the first XOR-MAPPED-ADDRESS gives back the address it was set
to. -/
theorem built_message_verifies (crc32 : Bytes → Nat) (hmac : Bytes → Digest) (header : Bytes)
    (attrs : List Bytes) (hh : header.length = 20) (h0 : StunHeader.length header = 0)
    (hvalid : StunHeader.isValid header = true) (hattrs : ∀ x ∈ attrs, WellFormedAttribute x)
    (hmi : ∀ x ∈ attrs, StunAttribute.type x 0 ≠ StunAttribute.MESSAGE_INTEGRITY)
    (hfp : ∀ x ∈ attrs, StunAttribute.type x 0 ≠ StunAttribute.FINGERPRINT)
    (hsize : attrs.flatten.length ≤ MTU - 32) {fuel : Nat} (hfuel : MTU ≤ fuel) :
    ∃ m, (addMessageIntegrity hmac (attrs.foldl add header) fuel).bind (addFingerprint crc32 · fuel) =
        some m ∧
      isStunMessage crc32 m fuel = some true ∧ StunMessage.isValid crc32 m fuel = some true ∧
      isAuthentic hmac m fuel = some true ∧
      ∀ (before rest : List Bytes) (address : SocketAddress) (hdr : Bytes),
        attrs = before ++ StunXorMappedAddress.setAddress address hdr :: rest →
        (∀ x ∈ before, StunAttribute.type x 0 ≠ StunAttribute.XOR_MAPPED_ADDRESS) →
        ∃ a, getAttribute m StunAttribute.XOR_MAPPED_ADDRESS fuel = some (some a) ∧
          StunXorMappedAddress.getAddress m a hdr = address := by
  have hs : ∀ x ∈ attrs, x.length = StunAttribute.size x 0 :=
    fun x hx => (hattrs x hx).length_eq
  have hsize' : attrs.flatten.length + 32 ≤ MTU := by
    unfold MTU at hsize ⊢
    omega
  refine ⟨builtMessage crc32 hmac header attrs, build_eq crc32 hmac hh hs hsize' hfuel h0 hmi hfp,
    isStunMessage_builtMessage crc32 hmac hh hs hsize' hfuel h0 hvalid hfp,
    isValid_builtMessage crc32 hmac hh hs hsize' hfuel (fun x hx => (hattrs x hx).checks) hfp,
    isAuthentic_builtMessage crc32 hmac hh hs hsize' hfuel hmi, ?_⟩
  intro before rest address hdr heq hxor
  exact ⟨_,
    getAddress_builtMessage crc32 hmac hh hs hsize' hfuel before rest address hdr heq hxor⟩

/-- The header of a Binding request with transaction id `0`. -/
def bindingRequest : Bytes := [0x00, 0x01, 0x00, 0x00, 0x21, 0x12, 0xA4, 0x42] ++ List.replicate 12 0

theorem built_message_verifies_binding_request :
    bindingRequest.length = 20 ∧ StunHeader.length bindingRequest = 0 ∧
      StunHeader.isValid bindingRequest = true ∧
      (∀ x ∈ [StunXorMappedAddress.setAddress ⟨.inet, [1, 2, 3, 4], 1, rfl⟩ bindingRequest],
        WellFormedAttribute x) ∧
      (∀ x ∈ [StunXorMappedAddress.setAddress ⟨.inet, [1, 2, 3, 4], 1, rfl⟩ bindingRequest],
        StunAttribute.type x 0 ≠ StunAttribute.MESSAGE_INTEGRITY) ∧
      (∀ x ∈ [StunXorMappedAddress.setAddress ⟨.inet, [1, 2, 3, 4], 1, rfl⟩ bindingRequest],
        StunAttribute.type x 0 ≠ StunAttribute.FINGERPRINT) ∧
      [StunXorMappedAddress.setAddress ⟨.inet, [1, 2, 3, 4], 1, rfl⟩ bindingRequest].flatten.length ≤
        MTU - 32 ∧ MTU ≤ MTU ∧
      ∃ m, (addMessageIntegrity (fun _ => ⟨List.replicate 20 0, List.length_replicate⟩)
          ([StunXorMappedAddress.setAddress ⟨.inet, [1, 2, 3, 4], 1, rfl⟩ bindingRequest].foldl
            add bindingRequest) MTU).bind (addFingerprint List.length · MTU) = some m ∧
        isStunMessage List.length m MTU = some true ∧
        StunMessage.isValid List.length m MTU = some true ∧
        isAuthentic (fun _ => ⟨List.replicate 20 0, List.length_replicate⟩) m MTU = some true ∧
        ∀ (before rest : List Bytes) (address : SocketAddress) (hdr : Bytes),
          [StunXorMappedAddress.setAddress ⟨.inet, [1, 2, 3, 4], 1, rfl⟩ bindingRequest] =
            before ++ StunXorMappedAddress.setAddress address hdr :: rest →
          (∀ x ∈ before, StunAttribute.type x 0 ≠ StunAttribute.XOR_MAPPED_ADDRESS) →
          ∃ a, getAttribute m StunAttribute.XOR_MAPPED_ADDRESS MTU = some (some a) ∧
            StunXorMappedAddress.getAddress m a hdr = address := by
  have hattrs :
      ∀ x ∈ [StunXorMappedAddress.setAddress ⟨.inet, [1, 2, 3, 4], 1, rfl⟩ bindingRequest],
        WellFormedAttribute x := by
    intro x hx
    rw [List.mem_singleton.mp hx]
    exact wellFormed_setAddress _ _
  have htype : ∀ t, t ≠ StunAttribute.XOR_MAPPED_ADDRESS →
      ∀ x ∈ [StunXorMappedAddress.setAddress ⟨.inet, [1, 2, 3, 4], 1, rfl⟩ bindingRequest],
        StunAttribute.type x 0 ≠ t := by
    intro t ht x hx
    rw [List.mem_singleton.mp hx, type_setAddress]
    exact Ne.symm ht
  have hsize :
      [StunXorMappedAddress.setAddress ⟨.inet, [1, 2, 3, 4], 1, rfl⟩ bindingRequest].flatten.length ≤
        MTU - 32 := by
    rw [List.flatten_singleton, StunXorMappedAddress.length_setAddress]
    decide
  exact ⟨rfl, by decide, by decide, hattrs, htype _ (by decide), htype _ (by decide), hsize,
    le_rfl, built_message_verifies List.length
      (fun _ => ⟨List.replicate 20 0, List.length_replicate⟩) bindingRequest _ rfl (by decide)
      (by decide) hattrs (htype _ (by decide)) (htype _ (by decide)) hsize le_rfl⟩

/-- **A second XOR-MAPPED-ADDRESS is never read.** With two XOR-MAPPED-ADDRESS attributes of
different addresses, `getAttribute` finds the first, whose address is not the second's. -/
theorem second_xor_mapped_address_not_found :
    ∃ m, (addMessageIntegrity (fun _ => ⟨List.replicate 20 0, List.length_replicate⟩)
        ([StunXorMappedAddress.setAddress ⟨.inet, [1, 2, 3, 4], 1, rfl⟩ bindingRequest,
          StunXorMappedAddress.setAddress ⟨.inet, [5, 6, 7, 8], 2, rfl⟩ bindingRequest].foldl
          add bindingRequest) MTU).bind (addFingerprint List.length · MTU) = some m ∧
      getAttribute m StunAttribute.XOR_MAPPED_ADDRESS MTU = some (some 20) ∧
      StunXorMappedAddress.getAddress m 20 bindingRequest ≠ ⟨.inet, [5, 6, 7, 8], 2, rfl⟩ := by
  have hs :
      ∀ x ∈ [StunXorMappedAddress.setAddress ⟨.inet, [1, 2, 3, 4], 1, rfl⟩ bindingRequest,
        StunXorMappedAddress.setAddress ⟨.inet, [5, 6, 7, 8], 2, rfl⟩ bindingRequest],
        x.length = StunAttribute.size x 0 := by
    intro x hx
    rcases List.mem_pair.mp hx with rfl | rfl <;> exact (wellFormed_setAddress _ _).length_eq
  have htype : ∀ t, t ≠ StunAttribute.XOR_MAPPED_ADDRESS →
      ∀ x ∈ [StunXorMappedAddress.setAddress ⟨.inet, [1, 2, 3, 4], 1, rfl⟩ bindingRequest,
        StunXorMappedAddress.setAddress ⟨.inet, [5, 6, 7, 8], 2, rfl⟩ bindingRequest],
        StunAttribute.type x 0 ≠ t := by
    intro t ht x hx
    rcases List.mem_pair.mp hx with rfl | rfl <;>
    · rw [type_setAddress]
      exact Ne.symm ht
  have hsize :
      [StunXorMappedAddress.setAddress ⟨.inet, [1, 2, 3, 4], 1, rfl⟩ bindingRequest,
        StunXorMappedAddress.setAddress ⟨.inet, [5, 6, 7, 8], 2, rfl⟩ bindingRequest].flatten.length +
        32 ≤ MTU := by
    simp only [List.flatten_cons, List.flatten_nil, List.append_nil, List.length_append,
      StunXorMappedAddress.length_setAddress]
    decide
  have hh : bindingRequest.length = 20 := rfl
  -- the first attribute is the one found, and it holds the first address
  obtain ⟨hget, haddr⟩ := getAddress_builtMessage List.length
    (fun _ => ⟨List.replicate 20 0, List.length_replicate⟩) hh hs hsize le_rfl []
    [StunXorMappedAddress.setAddress ⟨.inet, [5, 6, 7, 8], 2, rfl⟩ bindingRequest]
    ⟨.inet, [1, 2, 3, 4], 1, rfl⟩ bindingRequest rfl (fun _ hx => absurd hx List.not_mem_nil)
  rw [List.flatten_nil, List.length_nil, Nat.add_zero] at hget haddr
  refine ⟨_, build_eq List.length (fun _ => ⟨List.replicate 20 0, List.length_replicate⟩) hh hs
    hsize le_rfl (by decide) (htype _ (by decide)) (htype _ (by decide)), hget, ?_⟩
  rw [haddr]
  exact fun h => absurd (congrArg SocketAddress.port h) (by decide)

end Ice

end MediaBridge.Transport
