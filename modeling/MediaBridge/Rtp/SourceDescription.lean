import MediaBridge.Rtp.RtcpHeader
import MediaBridge.Lib.BitMask

set_option autoImplicit false

/-! # `RtcpSourceDescription`: SDES chunks

An SDES packet is an RTCP header followed by chunks: a 4-byte ssrc, then items (a type byte,
a length byte and the data) up to an empty item (type `0`), padded with zeros to a word. The
chunks end at `expectedEnd`, `length` words after the header less the padding.

Three loops walk the chunks: `isValid()`, `cend()` (the same loop, with the bound
`expectedEnd - 4`) and a range-for from `cbegin()` to `cend()`, which moves by
`Chunk::size()`. Each chunk is checked by `Chunk::isValid`, whose item loop stops two bytes
before `expectedEnd`. A valid packet is a `ChunkChain`: every loop then visits the same
chunks (`cendLoop_of_chain`, `chain_iterate`).

Every chunk visited lies inside the packet, and on a valid packet `fmtCount` chunks are
visited (`sdes_iteration`) for packets of at most 64 KiB. The size `Chunk::isValid` computes
is masked with `0xFFFC`, which also drops bit 16: a chunk whose items take 65528 to 65531
bytes gets size `0`, and `isValid()` and `cend()` then never move on
(`sdes_long_chunk_loops`).
-/

namespace MediaBridge.Rtp

open Buffer Tlv

/-! ## Items -/

namespace SDESItem

/-- `type`, the first byte. -/
def type (p : Bytes) (o : Nat) : BitVec 8 := byteAt p o

/-- `length`, the second byte. -/
def length (p : Bytes) (o : Nat) : Nat := (byteAt p (o + 1)).toNat

/-- `empty()`: type `0`, which also ends a chunk's item list. -/
def empty (p : Bytes) (o : Nat) : Bool := type p o == 0

/-- `size()`: one byte for the empty item, else the two header bytes and the data. -/
def size (p : Bytes) (o : Nat) : Nat := if type p o == 0 then 1 else length p o + 2

theorem size_pos (p : Bytes) (o : Nat) : 0 < size p o := by
  unfold size; split <;> omega

/-- Past the buffer every byte is `0`, an empty item. -/
theorem empty_of_le (p : Bytes) {o : Nat} (h : p.length ≤ o) : empty p o = true := by
  simp [empty, type, byteAt_of_le p h]

end SDESItem

namespace RtcpSourceDescription

/-! ## Chunks -/

namespace Chunk

/-- `Chunk::cend()`: the first empty item after the ssrc. Bytes past the buffer read as `0`,
an empty item, so `for (; !it->empty(); ++it)` stops by the end of the buffer. -/
def cend (p : Bytes) (c : Nat) : Nat :=
  scan (SDESItem.size p) (SDESItem.size_pos p) p.length (SDESItem.empty p) (c + 4)

/-- `Chunk::size()`: the ssrc and the items before the empty one (their sizes add up to the
distance to it), and one to four bytes of zeros, aligned by `& 0xFFFC`. -/
def size (p : Bytes) (c : Nat) : Nat := (4 + (cend p c - (c + 4)) + 4) &&& 0xFFFC

/-- The item loop of `Chunk::isValid`: past non-empty items while more than two bytes are
left before `expectedEnd`. -/
def itemsEnd (p : Bytes) (expectedEnd c : Nat) : Nat :=
  scan (SDESItem.size p) (SDESItem.size_pos p) (expectedEnd - 2) (SDESItem.empty p) (c + 4)

/-- `Chunk::isValid(expectedEnd, size)`: `some size` where it returns `true`. -/
def isValid (p : Bytes) (expectedEnd c : Nat) : Option Nat :=
  if itemsEnd p expectedEnd c < expectedEnd ∧ SDESItem.empty p (itemsEnd p expectedEnd c) then
    if expectedEnd - c ≥ (itemsEnd p expectedEnd c - c + 4) &&& 0xFFFC then
      some ((itemsEnd p expectedEnd c - c + 4) &&& 0xFFFC)
    else none
  else none

/-- Below 64 KiB the mask `0xFFFC` rounds down to a multiple of four. -/
theorem land_FFFC {x : Nat} (h : x < 65536) : x &&& 0xFFFC = x / 4 * 4 := by
  have hmask : (0xFFFC : Nat) = (2 ^ 14 - 1) <<< 2 := by decide
  rw [hmask, BitMask.land_alignMask]
  norm_num
  omega

/-- The items of a chunk start after its ssrc. -/
theorem le_itemsEnd (p : Bytes) (expectedEnd c : Nat) : c + 4 ≤ itemsEnd p expectedEnd c :=
  (reaches_scan _ _ _).le

/-- **A valid chunk** has the size `Chunk::size()` computes, its items start before
`expectedEnd`, and it ends at or before `expectedEnd`. -/
theorem isValid_some {p : Bytes} {expectedEnd c s : Nat} (h : isValid p expectedEnd c = some s) :
    s = size p c ∧ c + 4 < expectedEnd ∧ c + s ≤ expectedEnd := by
  have hle := le_itemsEnd p expectedEnd c
  unfold isValid at h
  split at h
  · rename_i hend
    split at h
    · rename_i hfit
      cases h
      -- the unbounded item loop of `Chunk::size()` stops on the same empty item
      have hcend : cend p c = itemsEnd p expectedEnd c :=
        scan_eq_of_done (c + 4) hend.2 (fun x hx => SDESItem.empty_of_le p hx)
      refine ⟨?_, by omega, by omega⟩
      rw [size, hcend]
      congr 1
      omega
    · cases h
  · cases h

/-- Inside a packet of at most 64 KiB a valid chunk takes at least two words. -/
theorem eight_le_of_isValid {p : Bytes} {expectedEnd c s : Nat}
    (h : isValid p expectedEnd c = some s) (hc : 4 ≤ c) (hE : expectedEnd ≤ 65536) : 8 ≤ s := by
  have hle := le_itemsEnd p expectedEnd c
  unfold isValid at h
  split at h
  · rename_i hend
    split at h
    · cases h
      rw [land_FFFC (by omega)]
      omega
    · cases h
  · cases h

end Chunk

/-! ## The packet's loops -/

/-- `expectedEnd`: the chunks start after the header and take `length` words less the
padding. -/
def expectedEnd (p : Bytes) : Nat :=
  4 + RtcpHeader.length p 0 * 4 - RtcpHeader.getPaddingSize p 0

/-- The loop of `isValid()` from the chunk at `o`, `chunkCount` chunks in: `some` of what it
returns, `none` when `fuel` rounds do not finish it. -/
def isValidLoop (p : Bytes) (expectedEnd : Nat) : Nat → Nat → Nat → Option Bool
  | 0, _, _ => none
  | fuel + 1, o, chunkCount =>
      if o < expectedEnd then
        match Chunk.isValid p expectedEnd o with
        | some chunkSize => isValidLoop p expectedEnd fuel (o + chunkSize) (chunkCount + 1)
        | none => some false
      else some (chunkCount == RtcpHeader.fmtCount p 0 && o == expectedEnd)

/-- `RtcpSourceDescription::isValid()`, with `fuel` rounds of its loop. -/
def isValid (p : Bytes) (fuel : Nat) : Option Bool :=
  if RtcpHeader.isValid p 0 then isValidLoop p (expectedEnd p) fuel 4 0 else some false

/-- The loop of `cend()`: it runs while four bytes are left before `expectedEnd`, and gives
`cbegin()` (offset `4`) for a corrupt packet. -/
def cendLoop (p : Bytes) (expectedEnd : Nat) : Nat → Nat → Nat → Option Nat
  | 0, _, _ => none
  | fuel + 1, o, count =>
      if o < expectedEnd - 4 then
        match Chunk.isValid p expectedEnd o with
        | some chunkSize => cendLoop p expectedEnd fuel (o + chunkSize) (count + 1)
        | none => some 4
      else if o = expectedEnd ∧ count = RtcpHeader.fmtCount p 0 then some o else some 4

/-- `RtcpSourceDescription::cend()`, with `fuel` rounds of its loop. -/
def cend (p : Bytes) (fuel : Nat) : Option Nat := cendLoop p (expectedEnd p) fuel 4 0

/-- A range-for over the chunks from `cbegin()` to the chunk at `e`, with `fuel` steps. -/
def iterateChunks (p : Bytes) (e fuel : Nat) : Option (List Nat) := iterate (Chunk.size p) e fuel 4

/-! ## Valid packets -/

/-- `n` valid chunks from `o`, each starting where the previous one ends, the last ending at
`expectedEnd`. -/
inductive ChunkChain (p : Bytes) (expectedEnd : Nat) : Nat → Nat → Prop
  | last : ChunkChain p expectedEnd expectedEnd 0
  | chunk {o s n : Nat} : Chunk.isValid p expectedEnd o = some s →
      ChunkChain p expectedEnd (o + s) n → ChunkChain p expectedEnd o (n + 1)

section Loops

variable {p : Bytes} {E : Nat}

/-- What the loop of `isValid()` accepts is a chain of `fmtCount` chunks. -/
theorem isValidLoop_true :
    ∀ fuel o count, isValidLoop p E fuel o count = some true →
      ∃ n, ChunkChain p E o n ∧ count + n = RtcpHeader.fmtCount p 0 := by
  intro fuel
  induction fuel with
  | zero => intro o count h; cases h
  | succ fuel ih =>
      intro o count h
      rw [isValidLoop] at h
      by_cases ho : o < E
      · rw [if_pos ho] at h
        cases hc : Chunk.isValid p E o with
        | none => rw [hc] at h; cases h
        | some s =>
            rw [hc] at h
            obtain ⟨n, hchain, hcount⟩ := ih (o + s) (count + 1) h
            exact ⟨n + 1, .chunk hc hchain, by omega⟩
      · rw [if_neg ho] at h
        simp only [Option.some.injEq, Bool.and_eq_true, beq_iff_eq] at h
        obtain ⟨hcount, rfl⟩ := h
        exact ⟨0, .last, by omega⟩

/-- On a chain the loop of `cend()` passes every chunk (each starts more than four bytes
before `expectedEnd`) and returns `expectedEnd`. -/
theorem cendLoop_of_chain {o n : Nat} (hchain : ChunkChain p E o n) :
    ∀ count fuel, count + n = RtcpHeader.fmtCount p 0 → n < fuel →
      cendLoop p E fuel o count = some E := by
  induction hchain with
  | last =>
      intro count fuel hcount hfuel
      obtain ⟨fuel, rfl⟩ : ∃ f, fuel = f + 1 := ⟨fuel - 1, by omega⟩
      rw [cendLoop, if_neg (by omega), if_pos ⟨rfl, by omega⟩]
  | @chunk o s n hv _ ih =>
      intro count fuel hcount hfuel
      obtain ⟨fuel, rfl⟩ : ∃ f, fuel = f + 1 := ⟨fuel - 1, by omega⟩
      have h4 := (Chunk.isValid_some hv).2.1
      rw [cendLoop, if_pos (by omega), hv]
      exact ih (count + 1) fuel (by omega) (by omega)

/-- `cend()` gives `cbegin()`, or `expectedEnd` at the end of a chain. -/
theorem cendLoop_cases :
    ∀ fuel o count e, cendLoop p E fuel o count = some e →
      e = 4 ∨ (e = E ∧ ∃ n, ChunkChain p E o n) := by
  intro fuel
  induction fuel with
  | zero => intro o count e h; cases h
  | succ fuel ih =>
      intro o count e h
      rw [cendLoop] at h
      by_cases ho : o < E - 4
      · rw [if_pos ho] at h
        cases hc : Chunk.isValid p E o with
        | none => rw [hc] at h; cases h; exact .inl rfl
        | some s =>
            rw [hc] at h
            rcases ih (o + s) (count + 1) e h with h4 | ⟨hE, n, hchain⟩
            · exact .inl h4
            · exact .inr ⟨hE, n + 1, .chunk hc hchain⟩
      · rw [if_neg ho] at h
        split at h
        · rename_i hend
          cases h
          exact .inr ⟨hend.1, 0, hend.1 ▸ .last⟩
        · cases h; exact .inl rfl

/-- **Iterating a chain** from `o` with `Chunk::size()` visits its `n` chunks, each inside
`[o, expectedEnd)`. -/
theorem chain_iterate {o n : Nat} (hchain : ChunkChain p E o n) :
    ∀ fuel, n < fuel → ∃ cs, iterate (Chunk.size p) E fuel o = some cs ∧ cs.length = n ∧
      ∀ c ∈ cs, o ≤ c ∧ c + Chunk.size p c ≤ E := by
  induction hchain with
  | last =>
      intro fuel hfuel
      obtain ⟨fuel, rfl⟩ : ∃ f, fuel = f + 1 := ⟨fuel - 1, by omega⟩
      refine ⟨[], ?_, rfl, by simp⟩
      rw [iterate, if_pos rfl]
  | @chunk o s n hv _ ih =>
      intro fuel hfuel
      obtain ⟨fuel, rfl⟩ : ∃ f, fuel = f + 1 := ⟨fuel - 1, by omega⟩
      obtain ⟨hs, h4, hle⟩ := Chunk.isValid_some hv
      obtain ⟨cs, hit, hlen, hbound⟩ := ih fuel (by omega)
      have hnext : next (Chunk.size p) o = o + s := by rw [next, hs]
      refine ⟨o :: cs, ?_, by simp [hlen], ?_⟩
      · rw [iterate, if_neg (by omega), hnext, hit]
        rfl
      · intro c hc
        rcases List.mem_cons.mp hc with rfl | hc
        · exact ⟨Nat.le_refl c, by omega⟩
        · have := hbound c hc
          exact ⟨by omega, this.2⟩

section Bounded

variable (hE : E ≤ 65536)
include hE

/-- In a packet of at most 64 KiB a chain of `n` chunks takes at least `8 * n` bytes. -/
theorem chain_length_le {o n : Nat} (hchain : ChunkChain p E o n) (ho : 4 ≤ o) :
    o + 8 * n ≤ E := by
  induction hchain with
  | last => omega
  | @chunk o s n hv _ ih =>
      have h8 := Chunk.eight_le_of_isValid hv ho hE
      have := ih (by omega)
      omega

/-- **The loop of `cend()` stops** in a packet of at most 64 KiB: every chunk it passes takes
at least two words. -/
theorem cendLoop_isSome :
    ∀ fuel o count, 4 ≤ o → E - o < fuel → (cendLoop p E fuel o count).isSome := by
  intro fuel
  induction fuel with
  | zero => intro o count _ h; omega
  | succ fuel ih =>
      intro o count ho hfuel
      rw [cendLoop]
      by_cases hlt : o < E - 4
      · rw [if_pos hlt]
        cases hc : Chunk.isValid p E o with
        | none => rfl
        | some s =>
            have h8 := Chunk.eight_le_of_isValid hc ho hE
            have hle := (Chunk.isValid_some hc).2.2
            exact ih (o + s) (count + 1) (by omega) (by omega)
      · rw [if_neg hlt]
        split <;> rfl

/-- The loop of `isValid()` stops as well. -/
theorem isValidLoop_isSome :
    ∀ fuel o count, 4 ≤ o → E - o < fuel → (isValidLoop p E fuel o count).isSome := by
  intro fuel
  induction fuel with
  | zero => intro o count _ h; omega
  | succ fuel ih =>
      intro o count ho hfuel
      rw [isValidLoop]
      by_cases hlt : o < E
      · rw [if_pos hlt]
        cases hc : Chunk.isValid p E o with
        | none => rfl
        | some s =>
            have h8 := Chunk.eight_le_of_isValid hc ho hE
            have hle := (Chunk.isValid_some hc).2.2
            exact ih (o + s) (count + 1) (by omega) (by omega)
      · rw [if_neg hlt]
        rfl

/-- Whatever `cend()` returns, iterating up to it visits only chunks inside the packet. -/
theorem iterate_of_cendLoop {fuel e : Nat} (h : cendLoop p E fuel 4 0 = some e) :
    ∃ cs, iterate (Chunk.size p) e (E + 1) 4 = some cs ∧
      ∀ c ∈ cs, 4 ≤ c ∧ c + Chunk.size p c ≤ E := by
  rcases cendLoop_cases fuel 4 0 e h with rfl | ⟨rfl, n, hchain⟩
  · -- `cbegin()`: nothing is visited
    exact ⟨[], by rw [iterate, if_pos rfl], by simp⟩
  · have hn := chain_length_le hE hchain (Nat.le_refl 4)
    obtain ⟨cs, hit, -, hbound⟩ := chain_iterate hchain (e + 1) (by omega)
    exact ⟨cs, hit, hbound⟩

end Bounded

end Loops

/-! ## Iterating an SDES packet -/

/-- What iterating an SDES packet from `cbegin()` to `cend()` guarantees: `cend()` and
`isValid()` stop, every chunk visited lies inside `[chunks, expectedEnd)`, and on a valid
packet `fmtCount` chunks are visited. -/
def SdesIterationSafe (p : Bytes) : Prop :=
  ∃ e cs, cend p (expectedEnd p + 1) = some e ∧
    iterateChunks p e (expectedEnd p + 1) = some cs ∧
    (∀ c ∈ cs, 4 ≤ c ∧ c + Chunk.size p c ≤ expectedEnd p) ∧
    (isValid p (expectedEnd p + 1)).isSome ∧
    ∀ fuel, isValid p fuel = some true → cs.length = RtcpHeader.fmtCount p 0

theorem expectedEnd_le_size (p : Bytes) : expectedEnd p ≤ RtcpHeader.size p 0 := by
  unfold expectedEnd RtcpHeader.size
  omega

/-- **Iterating an SDES packet of at most 64 KiB is safe.** -/
theorem sdes_iteration (p : Bytes) (hsize : RtcpHeader.size p 0 ≤ 65536) : SdesIterationSafe p := by
  have hE : expectedEnd p ≤ 65536 := Nat.le_trans (expectedEnd_le_size p) hsize
  obtain ⟨e, he⟩ := Option.isSome_iff_exists.mp
    (cendLoop_isSome hE (expectedEnd p + 1) 4 0 (Nat.le_refl 4) (by omega))
  obtain ⟨cs, hit, hbound⟩ := iterate_of_cendLoop hE he
  refine ⟨e, cs, he, hit, hbound, ?_, ?_⟩
  · unfold isValid
    split
    · exact isValidLoop_isSome hE _ 4 0 (Nat.le_refl 4) (by omega)
    · rfl
  · intro fuel hvalid
    unfold isValid at hvalid
    split at hvalid
    · -- a valid packet is a chain of `fmtCount` chunks, which `cend()` passes to the end
      obtain ⟨n, hchain, hcount⟩ := isValidLoop_true fuel 4 0 hvalid
      have hn := chain_length_le hE hchain (Nat.le_refl 4)
      have hend : e = expectedEnd p := by
        have := cendLoop_of_chain hchain 0 (expectedEnd p + 1) hcount (by omega)
        rw [this] at he
        exact (Option.some.inj he).symm
      subst hend
      obtain ⟨cs', hit', hlen, -⟩ := chain_iterate hchain (expectedEnd p + 1) (by omega)
      rw [hit'] at hit
      cases hit
      omega
    · cases hvalid

/-! ## A chunk of 64 KiB -/

/-- The bytes of `longChunkSdes`: a header of `16384` words with one chunk, whose 809 items
of 81 bytes (a CNAME of 79 bytes each) are followed by the empty item at `65537`. -/
def longChunkByte (i : Nat) : BitVec 8 :=
  if i = 0 then 0x81 else if i = 1 then 202 else if i = 2 then 0x40
  else if 8 ≤ i ∧ i < 65537 ∧ (i - 8) % 81 = 0 then 1
  else if 8 ≤ i ∧ i < 65537 ∧ (i - 8) % 81 = 1 then 79
  else 0

/-- An SDES packet of 65540 bytes with one chunk whose items end 65529 bytes after they
start. -/
def longChunkSdes : Bytes := (List.range 65540).map longChunkByte

theorem byteAt_longChunkSdes (i : Nat) :
    byteAt longChunkSdes i = if i < 65540 then longChunkByte i else 0 :=
  byteAt_map_range longChunkByte 65540 i

/- The header's fields are read with `rw`: a `simp` or `unfold` of them leaves the kernel a
closed sum over the bytes, which it evaluates by building the whole buffer. -/
theorem padding_longChunkSdes : RtcpHeader.padding longChunkSdes 0 = false := by
  rw [RtcpHeader.padding, byteAt_longChunkSdes]
  decide

theorem length_longChunkSdes : RtcpHeader.length longChunkSdes 0 = 16384 := by
  rw [RtcpHeader.length, be16, byteAt_longChunkSdes, byteAt_longChunkSdes]
  decide

theorem expectedEnd_longChunkSdes : expectedEnd longChunkSdes = 65540 := by
  rw [expectedEnd, RtcpHeader.getPaddingSize, padding_longChunkSdes, length_longChunkSdes]
  rfl

theorem isValid_header_longChunkSdes : RtcpHeader.isValid longChunkSdes 0 = true := by
  rw [RtcpHeader.isValid, padding_longChunkSdes, RtcpHeader.version, byteAt_longChunkSdes]
  decide

/-- Item `m` of the long chunk: a CNAME of 79 bytes. -/
theorem size_longChunk_item {m : Nat} (hm : m < 809) :
    SDESItem.empty longChunkSdes (8 + 81 * m) = false ∧
      SDESItem.size longChunkSdes (8 + 81 * m) = 81 := by
  have htype : longChunkByte (8 + 81 * m) = 1 := by
    unfold longChunkByte
    rw [if_neg (by omega), if_neg (by omega), if_neg (by omega), if_pos ⟨by omega, by omega, by omega⟩]
  have hlength : longChunkByte (8 + 81 * m + 1) = 79 := by
    unfold longChunkByte
    rw [if_neg (by omega), if_neg (by omega), if_neg (by omega), if_neg (by omega),
      if_pos ⟨by omega, by omega, by omega⟩]
  simp only [SDESItem.empty, SDESItem.size, SDESItem.type, SDESItem.length, byteAt_longChunkSdes,
    if_pos (show 8 + 81 * m < 65540 by omega), if_pos (show 8 + 81 * m + 1 < 65540 by omega),
    htype, hlength]
  decide

/-- The item loop of `Chunk::isValid` runs from the `k`-th last item to the empty one. -/
theorem scan_longChunk :
    ∀ k, k ≤ 809 → scan (SDESItem.size longChunkSdes) (SDESItem.size_pos longChunkSdes) 65538
      (SDESItem.empty longChunkSdes) (65537 - 81 * k) = 65537 := by
  intro k
  induction k with
  | zero =>
      intro _
      have hend : SDESItem.empty longChunkSdes 65537 = true := by
        simp only [SDESItem.empty, SDESItem.type, byteAt_longChunkSdes]
        decide
      exact scan_of_done hend
  | succ k ih =>
      intro hk
      have ho : 65537 - 81 * (k + 1) = 8 + 81 * (808 - k) := by omega
      obtain ⟨hne, hsize⟩ := size_longChunk_item (show 808 - k < 809 by omega)
      rw [ho, scan_of_lt (by omega) hne, next, hsize,
        show 8 + 81 * (808 - k) + 81 = 65537 - 81 * k by omega]
      exact ih (by omega)

/-- `Chunk::isValid` accepts the long chunk with size `65537 & 0xFFFC = 0`. -/
theorem isValid_longChunk : Chunk.isValid longChunkSdes 65540 4 = some 0 := by
  have hit : Chunk.itemsEnd longChunkSdes 65540 4 = 65537 := scan_longChunk 809 (Nat.le_refl _)
  have hend : SDESItem.empty longChunkSdes 65537 = true := by
    simp only [SDESItem.empty, SDESItem.type, byteAt_longChunkSdes]
    decide
  rw [Chunk.isValid, hit, if_pos ⟨by decide, hend⟩, if_pos (by decide)]
  decide

/-- **`cend()` and `isValid()` never return on the long chunk**, a valid SDES header: the
chunk's size is `0`, so both loops stay on it. -/
theorem sdes_long_chunk_loops :
    RtcpHeader.isValid longChunkSdes 0 = true ∧
      RtcpHeader.packetType longChunkSdes 0 = SOURCE_DESCRIPTION ∧
      ∀ fuel, cend longChunkSdes fuel = none ∧ isValid longChunkSdes fuel = none := by
  have hcend : ∀ fuel count, cendLoop longChunkSdes 65540 fuel 4 count = none := by
    intro fuel
    induction fuel with
    | zero => intro count; rfl
    | succ fuel ih =>
        intro count
        rw [cendLoop, if_pos (by decide), isValid_longChunk]
        exact ih (count + 1)
  have hloop : ∀ fuel count, isValidLoop longChunkSdes 65540 fuel 4 count = none := by
    intro fuel
    induction fuel with
    | zero => intro count; rfl
    | succ fuel ih =>
        intro count
        rw [isValidLoop, if_pos (by decide), isValid_longChunk]
        exact ih (count + 1)
  refine ⟨isValid_header_longChunkSdes, ?_, fun fuel => ⟨?_, ?_⟩⟩
  · simp only [RtcpHeader.packetType, byteAt_longChunkSdes]
    decide
  · rw [cend, expectedEnd_longChunkSdes]
    exact hcend fuel 0
  · rw [isValid, if_pos isValid_header_longChunkSdes, expectedEnd_longChunkSdes]
    exact hloop fuel 0

end RtcpSourceDescription

open RtcpSourceDescription

/-! ## Iterating RTCP packets -/

/-- **Iterating a compound packet of any buffer, or an SDES packet of at most 64 KiB, is
safe**: the loops stop, every header or chunk visited lies inside the buffer or packet, a
valid compound packet is visited header by header along its chain, and a valid SDES packet
chunk by chunk, `fmtCount` of them. -/
theorem rtcp_iteration_bounded (p : Bytes) (n : Nat) (q : Bytes)
    (hq : RtcpHeader.size q 0 ≤ 65536) : CompoundIterationSafe p n ∧ SdesIterationSafe q :=
  ⟨compound_iteration p n, sdes_iteration q hq⟩

/-- An SDES packet with one chunk: ssrc `1` and an empty CNAME. -/
def cnameSdes : Bytes := [0x81, 202, 0, 2, 0, 0, 0, 1, 1, 0, 0, 0]

example : CompoundIterationSafe cnameSdes 12 ∧ SdesIterationSafe cnameSdes :=
  rtcp_iteration_bounded cnameSdes 12 cnameSdes (by decide)

end MediaBridge.Rtp
