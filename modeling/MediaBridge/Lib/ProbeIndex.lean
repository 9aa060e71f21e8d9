import Mathlib.Data.List.Nodup
import Mathlib.Data.List.Perm.Basic
import Mathlib.Data.List.Perm.Subperm
import Mathlib.Data.Set.Function

set_option autoImplicit false

/-! # Hash indexes with linear probing and a spread

An index is a list of slots, each empty or holding an entry: a hash and a payload. The entry
of a hash `h` goes to the first empty slot of its probe sequence `pos h 0, pos h 1, …`, and the
*spread* is one more than the largest probe number an insertion has used. A lookup looks at
the first `spread` probes of `h` and does not stop at an empty slot, so an entry is erased by
emptying its slot: there are no tombstones, and no entry ever moves.

`Inv` is what makes the lookups right: every entry lies on one of the first `spread` probes of
its hash, and no two slots hold entries of one hash. Under it `lookup` finds exactly the entry
of its hash (`lookup_of_mem`, `lookup_eq_none_iff`); storing at an empty probe
(`inv_set_some`), emptying a slot (`inv_set_none`) and emptying them all keep it.
`exists_empty` is the counting argument behind every insertion: slots that are distinct and
more than the entries of the index are not all taken.

`positions f xs` is the index a list of elements should have: for every element that `f` gives
a hash, that hash and the element's position plus one. `positions_set_some` and
`positions_set_none` say how it changes when one element gets or loses its hash.
-/

namespace ProbeIndex

variable {H P : Type}

/-- The entries of an index, in slot order. -/
def entries (t : List (Option (H × P))) : List (H × P) := t.filterMap id

theorem mem_entries {t : List (Option (H × P))} {e : H × P} :
    e ∈ entries t ↔ ∃ q : Nat, t[q]? = some (some e) := by
  unfold entries
  rw [List.mem_filterMap]
  constructor
  · rintro ⟨s, hs, hse⟩
    obtain ⟨q, hq⟩ := List.mem_iff_getElem?.mp hs
    rw [id] at hse
    subst hse
    exact ⟨q, hq⟩
  · rintro ⟨q, hq⟩
    exact ⟨some e, List.mem_iff_getElem?.mpr ⟨q, hq⟩, rfl⟩

@[simp] theorem entries_replicate (n : Nat) : entries (List.replicate n (none : Option (H × P))) = [] := by
  simp [entries]

/-- Entries of distinct hashes lie in one slot each. -/
theorem eq_of_nodup_keys {t : List (Option (H × P))} (hnd : ((entries t).map Prod.fst).Nodup)
    {q q' : Nat} {e e' : H × P} (hq : t[q]? = some (some e)) (hq' : t[q']? = some (some e'))
    (he : e.1 = e'.1) : q = q' := by
  induction t generalizing q q' with
  | nil => simp at hq
  | cons x t ih =>
      -- the entries of the tail, and the head's among them when it has one
      have htail : ((entries t).map Prod.fst).Nodup := by
        cases x with
        | none => exact hnd
        | some a => exact (List.nodup_cons.mp hnd).2
      have hhead : ∀ (a : H × P) (q₁ : Nat) (e₁ : H × P), x = some a → t[q₁]? = some (some e₁) →
          a.1 ≠ e₁.1 := by
        rintro a q₁ e₁ rfl h₁ hae
        have hnot := (List.nodup_cons.mp hnd).1
        exact hnot (List.mem_map.mpr ⟨e₁, mem_entries.mpr ⟨q₁, h₁⟩, hae.symm⟩)
      cases q with
      | zero =>
          cases q' with
          | zero => rfl
          | succ q' =>
              simp only [List.getElem?_cons_zero, Option.some.injEq] at hq
              exact absurd he (hhead e q' e' hq hq')
      | succ q =>
          cases q' with
          | zero =>
              simp only [List.getElem?_cons_zero, Option.some.injEq] at hq'
              exact absurd he.symm (hhead e' q e hq' hq)
          | succ q' =>
              simp only [List.getElem?_cons_succ] at hq hq'
              rw [ih htail hq hq']

/-- Filling an empty slot adds its entry to the others. -/
theorem entries_set_some {t : List (Option (H × P))} {q : Nat} (hq : t[q]? = some none)
    (e : H × P) : (entries (t.set q (some e))).Perm (e :: entries t) := by
  obtain ⟨hlt, hnone⟩ := List.getElem?_eq_some_iff.mp hq
  have hold : entries t = entries (t.take q) ++ entries (t.drop (q + 1)) := by
    conv => lhs; rw [← List.take_append_drop q t, ← List.getElem_cons_drop hlt, hnone]
    simp [entries]
  have hset : t.set q (some e) = t.take q ++ some e :: t.drop (q + 1) := by
    rw [List.set_eq_take_append_cons_drop, if_pos hlt]
  rw [hset, hold]
  simp only [entries, List.filterMap_append, List.filterMap_cons, id]
  exact List.perm_middle

/-- Emptying the slot of an entry takes that entry out of the others. -/
theorem entries_set_none {t : List (Option (H × P))} {q : Nat} {e : H × P}
    (hq : t[q]? = some (some e)) : (entries t).Perm (e :: entries (t.set q none)) := by
  obtain ⟨hlt, heq⟩ := List.getElem?_eq_some_iff.mp hq
  have hback : (t.set q none).set q (some e) = t := by
    rw [List.set_set, ← heq, List.set_getElem_self]
  have h := entries_set_some (t := t.set q none) (q := q) (by simp [hlt]) e
  rwa [hback] at h

/-! ## Occupied slots and the counting argument -/

/-- Whether a slot is empty. -/
def isEmptySlot : Option (Option (H × P)) → Bool
  | some none => true
  | _ => false

/-- The positions of the occupied slots, in order. -/
def occupied (t : List (Option (H × P))) : List Nat :=
  (t.zipIdx.filter fun s => s.1.isSome).map Prod.snd

theorem mem_occupied {t : List (Option (H × P))} {q : Nat} :
    q ∈ occupied t ↔ ∃ e, t[q]? = some (some e) := by
  simp only [occupied, List.mem_map, List.mem_filter, List.mem_zipIdx_iff_getElem?]
  constructor
  · rintro ⟨⟨s, q'⟩, ⟨hs, hsome⟩, rfl⟩
    obtain ⟨e, rfl⟩ := Option.isSome_iff_exists.mp hsome
    exact ⟨e, hs⟩
  · rintro ⟨e, he⟩
    exact ⟨(some e, q), ⟨he, rfl⟩, rfl⟩

theorem nodup_occupied (t : List (Option (H × P))) : (occupied t).Nodup := by
  have hsub : (occupied t).Sublist (t.zipIdx.map Prod.snd) :=
    (List.filter_sublist).map Prod.snd
  apply hsub.nodup
  rw [List.zipIdx_map_snd]
  exact List.nodup_range'

theorem length_occupied (t : List (Option (H × P))) : (occupied t).length = (entries t).length := by
  have hfst : t.zipIdx.map Prod.fst = t := List.zipIdx_map_fst 0 t
  calc (occupied t).length
      = t.zipIdx.countP (fun s => s.1.isSome) := by
        rw [occupied, List.length_map, List.countP_eq_length_filter]
    _ = (t.zipIdx.map Prod.fst).countP (fun s => s.isSome) := by rw [List.countP_map]; rfl
    _ = (entries t).length := by rw [hfst, entries, List.length_filterMap_eq_countP]; rfl

/-- **Counting argument.** Distinct slots of the index, more of them than it has entries, are
not all taken. -/
theorem exists_empty (t : List (Option (H × P))) (qs : List Nat) (hnd : qs.Nodup)
    (hlt : ∀ q ∈ qs, q < t.length) (hcount : (entries t).length < qs.length) :
    ∃ q ∈ qs, t[q]? = some none := by
  by_contra hall
  have hsub : qs ⊆ occupied t := by
    intro q hq
    rw [mem_occupied]
    cases hs : t[q]? with
    | none => exact absurd (List.getElem?_eq_none_iff.mp hs) (Nat.not_le.mpr (hlt q hq))
    | some s =>
        cases s with
        | none => exact absurd ⟨q, hq, hs⟩ hall
        | some e => exact ⟨e, rfl⟩
  have hle := (hnd.subperm hsub).length_le
  rw [length_occupied] at hle
  omega

/-! ## The index of a list of elements -/

/-- The index a list of elements should have: for every element that `f` gives a hash, that
hash and the element's position plus one, in the order of the elements. -/
def positions {α : Type} (f : α → Option H) (xs : List α) : List (H × Nat) :=
  xs.zipIdx.filterMap fun s => (f s.1).map fun h => (h, s.2 + 1)

section Positions

variable {α : Type} (f : α → Option H)

theorem mem_positions {xs : List α} {h : H} {n : Nat} :
    (h, n) ∈ positions f xs ↔ ∃ q x, n = q + 1 ∧ xs[q]? = some x ∧ f x = some h := by
  simp only [positions, List.mem_filterMap, Option.map_eq_some_iff, Prod.mk.injEq,
    List.mem_zipIdx_iff_getElem?]
  constructor
  · rintro ⟨⟨x, q⟩, hx, h', hf, rfl, rfl⟩
    exact ⟨q, x, rfl, hx, hf⟩
  · rintro ⟨q, x, rfl, hx, hf⟩
    exact ⟨(x, q), hx, h, hf, rfl, rfl⟩

theorem nodup_filterMap_zipIdx (xs : List α) (k : Nat) :
    (xs.zipIdx k |>.filterMap fun s => (f s.1).map fun h => (h, s.2 + 1)).Nodup := by
  induction xs generalizing k with
  | nil => simp
  | cons x xs ih =>
      rw [List.zipIdx_cons, List.filterMap_cons]
      cases hx : f x with
      | none => exact ih (k + 1)
      | some h =>
          refine List.nodup_cons.mpr ⟨?_, ih (k + 1)⟩
          -- the later elements sit at positions above `k`
          intro hmem
          obtain ⟨⟨y, i⟩, hy, hg⟩ := List.mem_filterMap.mp hmem
          obtain ⟨hki, -⟩ := List.mem_zipIdx hy
          obtain ⟨h', -, hh⟩ := Option.map_eq_some_iff.mp hg
          simp only [Prod.mk.injEq] at hh
          omega

theorem nodup_positions (xs : List α) : (positions f xs).Nodup := nodup_filterMap_zipIdx f xs 0

theorem length_positions (xs : List α) :
    (positions f xs).length = xs.countP fun x => (f x).isSome := by
  calc (positions f xs).length
      = xs.zipIdx.countP (fun s => (f s.1).isSome) := by
        rw [positions, List.length_filterMap_eq_countP]
        simp
    _ = (xs.zipIdx.map Prod.fst).countP (fun x => (f x).isSome) := by rw [List.countP_map]; rfl
    _ = xs.countP fun x => (f x).isSome := by rw [List.zipIdx_map_fst]

/-- An element that gets a hash adds its entry to the index it should have. -/
theorem positions_set_some {xs : List α} {q : Nat} {x y : α} {h : H} (hx : xs[q]? = some x)
    (hfx : f x = none) (hfy : f y = some h) :
    (positions f (xs.set q y)).Perm ((h, q + 1) :: positions f xs) := by
  have hlt : q < xs.length := (List.getElem?_eq_some_iff.mp hx).1
  have hfresh : (h, q + 1) ∉ positions f xs := by
    rw [mem_positions]
    rintro ⟨q', x', hq, hx', hf⟩
    rw [show q' = q by omega, hx] at hx'
    cases hx'
    rw [hfx] at hf
    cases hf
  apply (List.perm_ext_iff_of_nodup (nodup_positions f _)
    (List.nodup_cons.mpr ⟨hfresh, nodup_positions f xs⟩)).mpr
  rintro ⟨h', n⟩
  rw [List.mem_cons, mem_positions, mem_positions, Prod.mk.injEq]
  constructor
  · rintro ⟨q', x', rfl, hx', hf⟩
    by_cases hq : q' = q
    · subst hq
      rw [List.getElem?_set_self hlt] at hx'
      cases hx'
      rw [hfy] at hf
      cases hf
      exact .inl ⟨rfl, rfl⟩
    · rw [List.getElem?_set_ne (Ne.symm hq)] at hx'
      exact .inr ⟨q', x', rfl, hx', hf⟩
  · rintro (⟨rfl, rfl⟩ | ⟨q', x', rfl, hx', hf⟩)
    · exact ⟨q, y, rfl, List.getElem?_set_self hlt, hfy⟩
    · have hq : q' ≠ q := by
        rintro rfl
        rw [hx] at hx'
        cases hx'
        rw [hfx] at hf
        cases hf
      exact ⟨q', x', rfl, by rw [List.getElem?_set_ne (Ne.symm hq)]; exact hx', hf⟩

/-- An element that loses its hash takes its entry out of the index it should have. -/
theorem positions_set_none {xs : List α} {q : Nat} {x y : α} {h : H} (hx : xs[q]? = some x)
    (hfx : f x = some h) (hfy : f y = none) :
    (positions f xs).Perm ((h, q + 1) :: positions f (xs.set q y)) := by
  obtain ⟨hlt, heq⟩ := List.getElem?_eq_some_iff.mp hx
  have hback : (xs.set q y).set q x = xs := by
    rw [List.set_set, ← heq, List.set_getElem_self]
  have h' := positions_set_some f (show (xs.set q y)[q]? = some y by simp [hlt]) hfy hfx
  rwa [hback] at h'

end Positions

section SlotPositions

variable {K V : Type} (keyHash : K → H)

theorem mem_positions_slots {slots : List (Option (K × V))} {h : H} {n : Nat} :
    (h, n) ∈ positions (fun s => s.map fun e => keyHash e.1) slots ↔
      ∃ q k v, n = q + 1 ∧ slots[q]? = some (some (k, v)) ∧ keyHash k = h := by
  rw [mem_positions]
  constructor
  · rintro ⟨q, s, rfl, hs, hf⟩
    cases s with
    | none => cases hf
    | some e => exact ⟨q, e.1, e.2, rfl, hs, Option.some.inj hf⟩
  · rintro ⟨q, k, v, rfl, hs, rfl⟩
    exact ⟨q, some (k, v), rfl, hs, rfl⟩

theorem length_positions_slots (slots : List (Option (K × V))) :
    (positions (fun s => s.map fun e => keyHash e.1) slots).length = (entries slots).length := by
  rw [length_positions, entries, List.length_filterMap_eq_countP]
  simp

theorem positions_replicate_none (n : Nat) :
    positions (fun s => s.map fun e => keyHash e.1) (List.replicate n (none : Option (K × V))) = [] := by
  apply List.eq_nil_of_length_eq_zero
  rw [length_positions_slots, entries_replicate, List.length_nil]

end SlotPositions

/-! ## Linear probes -/

theorem eq_of_mod_eq_of_lt {N x y : Nat} (hxy : x ≤ y) (hlt : y < x + N) (h : x % N = y % N) :
    x = y := by
  have hdvd : N ∣ y - x := Nat.dvd_of_mod_eq_zero (Nat.sub_mod_eq_zero_of_mod_eq h.symm)
  have := Nat.eq_zero_of_dvd_of_lt hdvd (by omega)
  omega

/-- Linear probes, no more of them than there are slots, reach distinct slots. -/
theorem mod_injOn {N a n : Nat} (hn : n ≤ N) :
    ∀ x ∈ List.range' a n, ∀ y ∈ List.range' a n, x % N = y % N → x = y := by
  intro x hx y hy hxy
  rw [List.mem_range'_1] at hx hy
  rcases Nat.le_total x y with hle | hle
  · exact eq_of_mod_eq_of_lt hle (by omega) hxy
  · exact (eq_of_mod_eq_of_lt hle (by omega) hxy.symm).symm

/-! ## Probe sequences -/

variable (pos : H → Nat → Nat)

/-- What makes the lookups of an index right: every entry lies on one of the first `spread`
probes of its hash, and no two slots hold entries of one hash. -/
structure Inv {H P : Type} (pos : H → Nat → Nat) (t : List (Option (H × P))) (spread : Nat) :
    Prop where
  probed : ∀ (q : Nat) (e : H × P), t[q]? = some (some e) → ∃ i < spread, pos e.1 i = q
  unique : ∀ (q q' : Nat) (e e' : H × P), t[q]? = some (some e) → t[q']? = some (some e') →
    e.1 = e'.1 → q = q'

/-- The first of the probes `0, …, n - 1` of `h` whose slot satisfies `p`. -/
def firstProbe (t : List (Option (H × P))) (h : H) (p : Option (Option (H × P)) → Bool)
    (n : Nat) : Option Nat :=
  (List.range n).find? fun i => p t[pos h i]?


theorem firstProbe_eq_some {t : List (Option (H × P))} {h : H}
    {p : Option (Option (H × P)) → Bool} {n i : Nat} (hf : firstProbe pos t h p n = some i) :
    i < n ∧ p t[pos h i]? = true := by
  rw [firstProbe, List.find?_range_eq_some] at hf
  exact ⟨List.mem_range.mp hf.2.1, hf.1⟩

theorem firstProbe_isSome {t : List (Option (H × P))} {h : H}
    {p : Option (Option (H × P)) → Bool} {n i : Nat} (hi : i < n) (hp : p t[pos h i]? = true) :
    (firstProbe pos t h p n).isSome := by
  rw [firstProbe, List.find?_isSome]
  exact ⟨i, List.mem_range.mpr hi, hp⟩
/-! ## The invariant under the changes of an index -/

theorem inv_replicate (n spread : Nat) : Inv pos (List.replicate n (none : Option (H × P))) spread where
  probed q e hq := by simp [List.getElem?_replicate] at hq
  unique q _ e _ hq := by simp [List.getElem?_replicate] at hq

/-- Emptying a slot keeps the invariant. -/
theorem inv_set_none {t : List (Option (H × P))} {spread : Nat} (hI : Inv pos t spread) (q : Nat) :
    Inv pos (t.set q none) spread := by
  -- an emptied slot holds nothing, the others what they held
  have hold : ∀ (q' : Nat) (e : H × P), (t.set q none)[q']? = some (some e) →
      t[q']? = some (some e) := by
    intro q' e hq'
    by_cases hqe : q = q'
    · subst hqe
      rw [List.getElem?_set_self'] at hq'
      cases hl : t[q]? <;> rw [hl] at hq' <;> cases hq'
    · rwa [List.getElem?_set_ne hqe] at hq'
  exact ⟨fun q' e hq' => hI.probed q' e (hold q' e hq'),
    fun q₁ q₂ e e' h₁ h₂ => hI.unique q₁ q₂ e e' (hold q₁ e h₁) (hold q₂ e' h₂)⟩

/-- **Insertion keeps the invariant.** An entry of a new hash stored at its `i`-th probe, an
empty slot, lies within the spread grown to `i + 1`. -/
theorem inv_set_some {t : List (Option (H × P))} {spread : Nat} (hI : Inv pos t spread) {h : H}
    (hnew : ∀ p, (h, p) ∉ entries t) {i : Nat} (he : t[pos h i]? = some none) (p : P) :
    Inv pos (t.set (pos h i) (some (h, p))) (max spread (i + 1)) := by
  have hlt : pos h i < t.length := (List.getElem?_eq_some_iff.mp he).1
  -- a slot of the new index holds either the new entry, at `pos h i`, or an old one elsewhere
  have hcases : ∀ (q : Nat) (e : H × P), (t.set (pos h i) (some (h, p)))[q]? = some (some e) →
      (q = pos h i ∧ e = (h, p)) ∨ (q ≠ pos h i ∧ t[q]? = some (some e)) := by
    intro q e hq
    by_cases hqe : q = pos h i
    · subst hqe
      rw [List.getElem?_set_self hlt] at hq
      cases hq
      exact .inl ⟨rfl, rfl⟩
    · rw [List.getElem?_set_ne (Ne.symm hqe)] at hq
      exact .inr ⟨hqe, hq⟩
  have hfresh : ∀ (q : Nat) (e : H × P), t[q]? = some (some e) → e.1 ≠ h := by
    intro q e hq heq
    exact hnew e.2 (mem_entries.mpr ⟨q, by rw [← heq]; exact hq⟩)
  constructor
  · intro q e hq
    rcases hcases q e hq with ⟨rfl, rfl⟩ | ⟨-, hold⟩
    · exact ⟨i, by omega, rfl⟩
    · obtain ⟨j, hj, hpos⟩ := hI.probed q e hold
      exact ⟨j, by omega, hpos⟩
  · intro q₁ q₂ e₁ e₂ h₁ h₂ heq
    rcases hcases q₁ e₁ h₁ with ⟨rfl, rfl⟩ | ⟨hne₁, hold₁⟩ <;>
      rcases hcases q₂ e₂ h₂ with ⟨rfl, rfl⟩ | ⟨hne₂, hold₂⟩
    · rfl
    · exact absurd heq.symm (hfresh q₂ e₂ hold₂)
    · exact absurd heq (hfresh q₁ e₁ hold₁)
    · exact hI.unique q₁ q₂ e₁ e₂ hold₁ hold₂ heq
/-! ## Lookup -/

variable [DecidableEq H]

/-- The entry of `h` that slot `q` holds, with the slot. -/
def entryAt (t : List (Option (H × P))) (h : H) (q : Nat) : Option (Nat × P) :=
  match t[q]? with
  | some (some (h', p)) => if h' = h then some (q, p) else none
  | _ => none

/-- `lookup`: the first of the probes `0, …, spread - 1` of `h` whose slot holds an entry of
`h`; its slot and payload. -/
def lookup (t : List (Option (H × P))) (spread : Nat) (h : H) : Option (Nat × P) :=
  (List.range spread).findSome? fun i => entryAt t h (pos h i)

theorem entryAt_eq_some {t : List (Option (H × P))} {h : H} {q : Nat} {r : Nat × P} :
    entryAt t h q = some r ↔ r.1 = q ∧ t[q]? = some (some (h, r.2)) := by
  obtain ⟨r1, r2⟩ := r
  unfold entryAt
  split
  · rename_i h' p hq
    rw [hq]
    by_cases hh : h' = h
    · subst hh
      rw [if_pos rfl]
      constructor
      · intro hc
        simp only [Option.some.injEq, Prod.mk.injEq] at hc
        obtain ⟨rfl, rfl⟩ := hc
        exact ⟨rfl, rfl⟩
      · rintro ⟨rfl, hs⟩
        simp only [Option.some.injEq, Prod.mk.injEq] at hs
        rw [hs.2]
    · rw [if_neg hh]
      constructor
      · intro hc
        cases hc
      · rintro ⟨-, hs⟩
        simp only [Option.some.injEq, Prod.mk.injEq] at hs
        exact absurd hs.1 hh
  · rename_i hq
    constructor
    · intro hc
      cases hc
    · rintro ⟨-, hs⟩
      exact absurd hs (hq _ _)

/-- What `lookup` finds is an entry of its hash. -/
theorem lookup_eq_some {t : List (Option (H × P))} {spread : Nat} {h : H} {r : Nat × P}
    (hl : lookup pos t spread h = some r) : t[r.1]? = some (some (h, r.2)) := by
  obtain ⟨i, -, hi⟩ := List.exists_of_findSome?_eq_some hl
  obtain ⟨hq, hs⟩ := (entryAt_eq_some).mp hi
  rw [hq]
  exact hs

/-- **Lookups find every entry.** -/
theorem lookup_of_mem {t : List (Option (H × P))} {spread : Nat} (hI : Inv pos t spread) {q : Nat}
    {h : H} {p : P} (hq : t[q]? = some (some (h, p))) : lookup pos t spread h = some (q, p) := by
  obtain ⟨i, hi, hpos⟩ := hI.probed q (h, p) hq
  have hpos : pos h i = q := hpos
  have hsome : (lookup pos t spread h).isSome := by
    rw [lookup, List.findSome?_isSome_iff]
    refine ⟨i, List.mem_range.mpr hi, ?_⟩
    rw [Option.isSome_iff_exists]
    exact ⟨(q, p), (entryAt_eq_some).mpr ⟨hpos.symm, by rw [hpos]; exact hq⟩⟩
  obtain ⟨⟨q', p'⟩, hr⟩ := Option.isSome_iff_exists.mp hsome
  have hq' := lookup_eq_some pos hr
  -- the slot found holds an entry of `h`, so it is the slot of `h`
  have hqq : q' = q := hI.unique q' q _ _ hq' hq rfl
  subst hqq
  rw [hq'] at hq
  cases hq
  exact hr

/-- **Lookups find nothing else.** -/
theorem lookup_eq_none_iff {t : List (Option (H × P))} {spread : Nat} (hI : Inv pos t spread)
    {h : H} : lookup pos t spread h = none ↔ ∀ p, (h, p) ∉ entries t := by
  constructor
  · intro hl p hmem
    obtain ⟨q, hq⟩ := mem_entries.mp hmem
    rw [lookup_of_mem pos hI hq] at hl
    cases hl
  · intro hnone
    cases hl : lookup pos t spread h with
    | none => rfl
    | some r => exact absurd (mem_entries.mpr ⟨r.1, lookup_eq_some pos hl⟩) (hnone r.2)
/-! ## The index of a list of slots

The index that slots of keys and values should have: for every slot that holds a key, the key's
hash and the slot's position plus one. Over keys that the hash maps injectively, a lookup that
follows the index finds the slot of its key and nothing else. -/

section Slots

variable {K V : Type} {keyHash : K → H} {t : List (Option (H × Nat))} {spread : Nat} {slots : List (Option (K × V))}
  {S : Set K}

/-- **A lookup finds the key's own slot.** The entry found holds the key's hash and the
position of a slot whose key has that hash, which over `S` is the key itself. -/
theorem lookup_slot
    (hperm : (entries t).Perm (positions (fun s => s.map fun e => keyHash e.1) slots))
    (hinj : Set.InjOn keyHash S) (hS : ∀ e ∈ entries slots, e.1 ∈ S) {k : K} (hk : k ∈ S)
    {q n : Nat} (hl : lookup pos t spread (keyHash k) = some (q, n)) :
    t[q]? = some (some (keyHash k, n)) ∧ ∃ v, 0 < n ∧ slots[n - 1]? = some (some (k, v)) := by
  have hq := lookup_eq_some pos hl
  refine ⟨hq, ?_⟩
  obtain ⟨q', k', v, rfl, hs, hh⟩ :=
    (mem_positions_slots keyHash).mp (hperm.subset (mem_entries.mpr ⟨q, hq⟩))
  obtain rfl := hinj (hS (k', v) (mem_entries.mpr ⟨q', hs⟩)) hk hh
  exact ⟨v, by omega, hs⟩

/-- **A lookup finds nothing for an absent key.** -/
theorem lookup_eq_none_iff_keys (hI : Inv pos t spread)
    (hperm : (entries t).Perm (positions (fun s => s.map fun e => keyHash e.1) slots))
    (hinj : Set.InjOn keyHash S) (hS : ∀ e ∈ entries slots, e.1 ∈ S) {k : K} (hk : k ∈ S) :
    lookup pos t spread (keyHash k) = none ↔ k ∉ (entries slots).map Prod.fst := by
  constructor
  · intro hl hmem
    obtain ⟨⟨k', v⟩, he, rfl⟩ := List.mem_map.mp hmem
    obtain ⟨q, hq⟩ := mem_entries.mp he
    have hpos := (mem_positions_slots keyHash).mpr ⟨q, k', v, rfl, hq, rfl⟩
    exact (lookup_eq_none_iff pos hI).mp hl (q + 1) (hperm.symm.subset hpos)
  · intro hk'
    cases hl : lookup pos t spread (keyHash k) with
    | none => rfl
    | some r =>
        obtain ⟨-, v, -, hs⟩ := lookup_slot pos hperm hinj hS hk hl
        exact absurd (List.mem_map.mpr ⟨(k, v), mem_entries.mpr ⟨_, hs⟩, rfl⟩) hk'

end Slots

end ProbeIndex
