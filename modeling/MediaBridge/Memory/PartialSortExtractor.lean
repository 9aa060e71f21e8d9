import Mathlib.Data.List.MinMax
import Mathlib.Data.List.Perm.Basic

set_option autoImplicit false

/-! # `memory::PartialSortExtractor`: the largest elements first

`PartialSortExtractor<T>` makes a heap of a range (`std::make_heap`) and hands out its elements
largest first: `top()` is the largest element left, `pop()` removes it (`std::pop_heap`). The
order is `T`'s `operator<`, which compares one field, `key` here.

The model keeps the elements left in the heap as a list. `top` is a largest element of it, the
first one of the list among equals: the standard leaves open which of several equal elements a
heap yields, and nothing below depends on the choice. What the lemmas say is what a caller of
the extractor relies on: `n` rounds of `top` and `pop` (`extract`) yield the `n` largest
elements, in non-increasing order, and leave the others in the heap.
-/

namespace MediaBridge.Memory

/-- `memory::PartialSortExtractor<T>`: the elements still in the heap. -/
structure PartialSortExtractor (T : Type) where
  heap : List T

namespace PartialSortExtractor

variable {T β : Type} [LinearOrder β] (key : T → β)

/-- `top()`: a largest element, `none` for an empty heap. -/
def top (h : PartialSortExtractor T) : Option T := h.heap.argmax key

def empty (h : PartialSortExtractor T) : Bool := h.heap.isEmpty

section Pop

variable [DecidableEq T]

/-- `pop()`: the heap without its top; nothing for an empty heap. -/
def pop (h : PartialSortExtractor T) : PartialSortExtractor T :=
  match h.top key with
  | none => h
  | some x => ⟨h.heap.erase x⟩

/-- The elements `top()` shows in `n` rounds of `top()` and `pop()` while the heap is not
empty, and the heap left after them. -/
def extract : Nat → PartialSortExtractor T → List T × PartialSortExtractor T
  | 0, h => ([], h)
  | n + 1, h =>
      match h.top key with
      | none => ([], h)
      | some x =>
          let r := extract n (h.pop key)
          (x :: r.1, r.2)

end Pop

variable {key}

theorem top_eq_none_iff {h : PartialSortExtractor T} : h.top key = none ↔ h.heap = [] :=
  List.argmax_eq_none

theorem empty_iff {h : PartialSortExtractor T} : h.empty = true ↔ h.heap = [] :=
  List.isEmpty_iff

theorem top_mem {h : PartialSortExtractor T} {x : T} (hx : h.top key = some x) : x ∈ h.heap :=
  List.argmax_mem hx

/-- The top is a largest element. -/
theorem le_top {h : PartialSortExtractor T} {x y : T} (hx : h.top key = some x) (hy : y ∈ h.heap) :
    key y ≤ key x :=
  List.le_of_mem_argmax hy hx

variable [DecidableEq T]

theorem pop_of_top {h : PartialSortExtractor T} {x : T} (hx : h.top key = some x) :
    h.pop key = ⟨h.heap.erase x⟩ := by
  rw [pop, hx]

theorem extract_succ_of_top {n : Nat} {h : PartialSortExtractor T} {x : T}
    (hx : h.top key = some x) :
    extract key (n + 1) h = (x :: (extract key n (h.pop key)).1, (extract key n (h.pop key)).2) := by
  rw [extract, hx]

/-- **Nothing is lost or made up**: the elements shown and the heap left are the heap's. -/
theorem extract_perm : ∀ (n : Nat) (h : PartialSortExtractor T),
    ((extract key n h).1 ++ (extract key n h).2.heap).Perm h.heap
  | 0, h => by rw [extract]; exact List.Perm.refl _
  | n + 1, h => by
      cases hx : h.top key with
      | none => rw [extract, hx]; exact List.Perm.refl _
      | some x =>
          rw [extract_succ_of_top hx, List.cons_append]
          have hrest := extract_perm n (h.pop key)
          rw [pop_of_top hx] at hrest ⊢
          exact (hrest.cons x).trans (List.perm_cons_erase (top_mem hx)).symm

/-- `n` rounds show `n` elements, or all of them. -/
theorem length_extract : ∀ (n : Nat) (h : PartialSortExtractor T),
    (extract key n h).1.length = min n h.heap.length
  | 0, h => by rw [extract]; simp
  | n + 1, h => by
      cases hx : h.top key with
      | none =>
          rw [extract, hx, top_eq_none_iff.mp hx]
          simp
      | some x =>
          rw [extract_succ_of_top hx, List.length_cons, length_extract n, pop_of_top hx,
            List.length_erase_of_mem (top_mem hx)]
          have := List.length_pos_of_mem (top_mem hx)
          omega

/-- **What is shown comes largest first**, and nothing left in the heap is larger. -/
theorem extract_sorted : ∀ (n : Nat) (h : PartialSortExtractor T),
    (extract key n h).1.Pairwise (fun a b => key b ≤ key a) ∧
      ∀ a ∈ (extract key n h).1, ∀ b ∈ (extract key n h).2.heap, key b ≤ key a
  | 0, h => by rw [extract]; simp
  | n + 1, h => by
      cases hx : h.top key with
      | none => rw [extract, hx]; simp
      | some x =>
          rw [extract_succ_of_top hx]
          obtain ⟨hsorted, hrest⟩ := extract_sorted n (h.pop key)
          -- every element after `x`, shown or left, was in the heap `x` topped
          have hle : ∀ b ∈ (extract key n (h.pop key)).1 ++ (extract key n (h.pop key)).2.heap,
              key b ≤ key x := by
            intro b hb
            have hmem := (extract_perm n (h.pop key)).subset hb
            rw [pop_of_top hx] at hmem
            exact le_top hx (List.mem_of_mem_erase hmem)
          refine ⟨List.pairwise_cons.mpr ⟨fun b hb => hle b (List.mem_append_left _ hb), hsorted⟩,
            fun a ha b hb => ?_⟩
          rcases List.mem_cons.mp ha with rfl | ha
          · exact hle b (List.mem_append_right _ hb)
          · exact hrest a ha b hb

end PartialSortExtractor

end MediaBridge.Memory
