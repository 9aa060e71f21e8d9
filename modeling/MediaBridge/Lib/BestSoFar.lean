import Mathlib.Data.List.Basic

set_option autoImplicit false

/-!
# Best-so-far loops

A loop over a list that keeps the index and the cost of the best item so far, starting from
"nothing taken" (a best cost of `0`), takes an item when nothing is taken yet or it costs more
than the best so far, and when `ok` accepts its cost. The accumulator is
`(best index, best cost, index)`.

Over a list whose costs never rise and are not `0` before its last item, such a loop keeps the
first item `ok` accepts, and keeps its starting index when `ok` accepts none
(`foldl_bestStep_first`). A better budget moves the first accepted item forward
(`findIdx?_le_of_imp`).
-/

namespace BestSoFar

variable {α β : Type} [BEq β] [LawfulBEq β] [Zero β] [LT β] [∀ a b : β, Decidable (a < b)]

/-- One step of the loop. -/
def bestStep (cost : α → β) (ok : β → Bool) (acc : Nat × β × Nat) (x : α) : Nat × β × Nat :=
  if (acc.2.1 == 0 || decide (acc.2.1 < cost x)) && ok (cost x) then (acc.2.2, cost x, acc.2.2 + 1)
  else (acc.1, acc.2.1, acc.2.2 + 1)

variable (cost : α → β) (ok : β → Bool)

/-- Once an item of cost `c ≠ 0` is taken, items that do not cost more leave it taken. -/
theorem foldl_bestStep_keep (l : List α) (b k : Nat) {c : β} (hc : c ≠ 0)
    (hl : ∀ x ∈ l, ¬ c < cost x) : (l.foldl (bestStep cost ok) (b, c, k)).1 = b := by
  induction l generalizing k with
  | nil => rfl
  | cons x l ih =>
      have hstep : bestStep cost ok (b, c, k) x = (b, c, k + 1) := by
        have hne : (c == 0) = false := beq_eq_false_iff_ne.mpr hc
        simp [bestStep, hne, hl x List.mem_cons_self]
      rw [List.foldl_cons, hstep]
      exact ih (k + 1) fun y hy => hl y (List.mem_cons_of_mem x hy)

/-- From "nothing taken", over costs that never rise and are not `0` before the last item, the
loop keeps the first accepted item, `k` places after its start index; with none accepted, it
keeps `b`. -/
theorem foldl_bestStep_first (l : List α) (b k : Nat)
    (hl : l.Pairwise fun x y => ¬ cost x < cost y) (hz : ∀ x ∈ l.dropLast, cost x ≠ 0) :
    (l.foldl (bestStep cost ok) (b, 0, k)).1 =
      ((l.findIdx? fun x => ok (cost x)).map (k + ·)).getD b := by
  induction l generalizing k with
  | nil => rfl
  | cons x l ih =>
      rw [List.pairwise_cons] at hl
      rw [List.foldl_cons, List.findIdx?_cons]
      by_cases hx : ok (cost x) = true
      · -- `x` is taken: either it is the last item, or it costs more than `0` and stays
        have hstep : bestStep cost ok (b, 0, k) x = (k, cost x, k + 1) := by
          simp [bestStep, hx]
        rw [hstep, if_pos hx]
        cases l with
        | nil => rfl
        | cons y l =>
            have hc : cost x ≠ 0 := hz x (by simp)
            exact foldl_bestStep_keep cost ok _ k (k + 1) hc hl.1
      · have hstep : bestStep cost ok (b, 0, k) x = (b, 0, k + 1) := by
          simp [bestStep, hx]
        have hz' : ∀ y ∈ l.dropLast, cost y ≠ 0 := by
          intro y hy
          cases l with
          | nil => cases hy
          | cons z l => exact hz y (by simp [hy])
        rw [hstep, if_neg hx, ih (k + 1) hl.2 hz']
        -- both sides name the same item, one place further on
        cases l.findIdx? fun x => ok (cost x) with
        | none => rfl
        | some i => simp only [Option.map_some, Option.getD_some]; omega

omit [BEq β] [LawfulBEq β] [Zero β] [LT β] [∀ a b : β, Decidable (a < b)] in
/-- A weaker test accepts an item no later than a stronger one. -/
theorem findIdx?_le_of_imp {p q : α → Bool} (h : ∀ x, p x = true → q x = true) :
    ∀ (l : List α) {i : Nat}, l.findIdx? p = some i → ∃ j ≤ i, l.findIdx? q = some j := by
  intro l
  induction l with
  | nil => intro i hi; cases hi
  | cons x l ih =>
      intro i hi
      rw [List.findIdx?_cons] at hi ⊢
      by_cases hq : q x = true
      · exact ⟨0, Nat.zero_le _, by rw [if_pos hq]⟩
      · have hp : p x = false := by
          cases hpx : p x
          · rfl
          · exact absurd (h x hpx) hq
        rw [if_neg hq]
        rw [hp, if_neg Bool.false_ne_true] at hi
        obtain ⟨i', hi', rfl⟩ := Option.map_eq_some_iff.mp hi
        obtain ⟨j, hj, hqj⟩ := ih hi'
        exact ⟨j + 1, by omega, by rw [hqj]; rfl⟩

end BestSoFar
