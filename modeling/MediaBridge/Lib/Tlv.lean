import Mathlib.Order.Basic

set_option autoImplicit false

/-! # Walking a type-length-value chain

A TLV iterator stands on an item at some offset; `++` moves it past the item, by the size
the item's own header gives (`next`). Loops over such iterators come in three shapes, all
here over an arbitrary size function:

* `walk size stop o`: the items from `o` that start before `stop` (a `while (it < stop)`
  loop, and the items visited by `it != stop` when the chain reaches `stop`);
* `walkEnd size stop o`: where that loop leaves the iterator, the first offset at or after
  `stop`;
* `lastWithin size stop o e`: the last item starting at or before `stop` (`e` if none), as a
  loop that records `it` while `it <= stop`;
* `scan size stop done o`: a search, `for (; it < stop && !done(it); ++it)`.

`iterate` is the `it != stop` loop itself, with fuel: it stops when the chain `Reaches`
`stop` (`iterate_of_reaches`), and never when it starts past `stop` or meets an item of size
`0` before it (`iterate_eq_none_of_lt`, `iterate_eq_none_of_size_eq_zero`). `search` is the same
loop with an early `return`: on a chain that reaches `stop` it finds the first `done` item of the
walk (`search_of_reaches`), and it stops on a `done` item met before `stop` whatever comes after
(`search_of_reaches_done`). The lemmas say where the offsets lie; positive sizes
make the loops terminate.
-/

namespace Tlv

/-! ## Steps and reachability -/

/-- One `++`: past the item at `o`. -/
def next (size : Nat → Nat) (o : Nat) : Nat := o + size o

/-- `b` is reached from `a` by `++` steps. -/
inductive Reaches (size : Nat → Nat) : Nat → Nat → Prop
  | refl (a : Nat) : Reaches size a a
  | step {a b : Nat} : Reaches size (next size a) b → Reaches size a b

section Reach

variable {size : Nat → Nat}

theorem Reaches.le {a b : Nat} (h : Reaches size a b) : a ≤ b := by
  induction h with
  | refl => exact Nat.le_refl _
  | step _ ih => unfold next at ih; omega

/-- A chain point strictly before `b` steps to a point still at or before `b`. -/
theorem Reaches.next_of_lt {a b : Nat} (h : Reaches size a b) (hlt : a < b) :
    Reaches size (next size a) b := by
  cases h with
  | refl => omega
  | step h => exact h

theorem Reaches.trans {a b c : Nat} (h₁ : Reaches size a b) (h₂ : Reaches size b c) :
    Reaches size a c := by
  induction h₁ with
  | refl => exact h₂
  | step _ ih => exact .step (ih h₂)

/-- Points of one chain are ordered by reachability. -/
theorem Reaches.total {a b c : Nat} (hb : Reaches size a b) (hc : Reaches size a c) :
    Reaches size b c ∨ Reaches size c b := by
  induction hb generalizing c with
  | refl => exact .inl hc
  | @step a b _ ih =>
      cases hc with
      | refl => exact .inr (.step ‹_›)
      | step hc => exact ih hc

end Reach

/-! ## The loops -/

/-- The items from `o` that start before `stop`. -/
def walk (size : Nat → Nat) (hpos : ∀ o, 0 < size o) (stop o : Nat) : List Nat :=
  if o < stop then o :: walk size hpos stop (next size o) else []
termination_by stop - o
decreasing_by have := hpos o; unfold next; omega

/-- Where the iterator stops when it is moved from `o` while it is before `stop`. -/
def walkEnd (size : Nat → Nat) (hpos : ∀ o, 0 < size o) (stop o : Nat) : Nat :=
  if o < stop then walkEnd size hpos stop (next size o) else o
termination_by stop - o
decreasing_by have := hpos o; unfold next; omega

/-- The last item from `o` that starts at or before `stop`, or `e` when `o` is past it. -/
def lastWithin (size : Nat → Nat) (hpos : ∀ o, 0 < size o) (stop o e : Nat) : Nat :=
  if o ≤ stop then lastWithin size hpos stop (next size o) o else e
termination_by stop + 1 - o
decreasing_by have := hpos o; unfold next; omega

/-- The iterator moved from `o` past every item that starts before `stop` and is not `done`:
where it stands on the first `done` item, or on the first at or after `stop`. -/
def scan (size : Nat → Nat) (hpos : ∀ o, 0 < size o) (stop : Nat) (done : Nat → Bool)
    (o : Nat) : Nat :=
  if o < stop ∧ done o = false then scan size hpos stop done (next size o) else o
termination_by stop - o
decreasing_by have := hpos o; unfold next; omega

/-- The `it != stop` loop from `o`: the items visited, or `none` when `fuel` steps do not
reach `stop`. -/
def iterate (size : Nat → Nat) (stop : Nat) : Nat → Nat → Option (List Nat)
  | 0, _ => none
  | fuel + 1, o => if o = stop then some [] else (iterate size stop fuel (next size o)).map (o :: ·)

/-- The search `for (; it != stop; ++it) if (done(it)) return it;` from `o`, with fuel: the item
found, `some none` when the loop reaches `stop`, and `none` when it has not stopped. -/
def search (size : Nat → Nat) (stop : Nat) (done : Nat → Bool) : Nat → Nat → Option (Option Nat)
  | 0, _ => none
  | fuel + 1, o =>
      if o = stop then some none
      else if done o then some (some o)
      else search size stop done fuel (next size o)

section Lemmas

variable {size : Nat → Nat} {hpos : ∀ o, 0 < size o}

/-- **An iterator past its end never stops**: `++` never moves it back. -/
theorem iterate_eq_none_of_lt {size : Nat → Nat} {stop : Nat} :
    ∀ (fuel o : Nat), stop < o → iterate size stop fuel o = none
  | 0, _, _ => rfl
  | fuel + 1, o, h => by
      rw [iterate, if_neg (by omega), iterate_eq_none_of_lt fuel _ (by unfold next; omega)]
      rfl

/-- **An iterator on an item of size `0` before its end never stops**: `++` leaves it there. -/
theorem iterate_eq_none_of_size_eq_zero {size : Nat → Nat} {stop o : Nat} (hne : o ≠ stop)
    (hz : size o = 0) : ∀ fuel, iterate size stop fuel o = none
  | 0 => rfl
  | fuel + 1 => by
      have hnext : next size o = o := by unfold next; omega
      rw [iterate, if_neg hne, hnext, iterate_eq_none_of_size_eq_zero hne hz fuel]
      rfl

theorem walk_of_lt {stop o : Nat} (h : o < stop) :
    walk size hpos stop o = o :: walk size hpos stop (next size o) := by
  rw [walk, if_pos h]

theorem walk_of_le {stop o : Nat} (h : stop ≤ o) : walk size hpos stop o = [] := by
  rw [walk, if_neg (by omega)]

theorem walkEnd_of_lt {stop o : Nat} (h : o < stop) :
    walkEnd size hpos stop o = walkEnd size hpos stop (next size o) := by
  rw [walkEnd, if_pos h]

theorem walkEnd_of_le {stop o : Nat} (h : stop ≤ o) : walkEnd size hpos stop o = o := by
  rw [walkEnd, if_neg (by omega)]

theorem lt_next (hpos : ∀ o, 0 < size o) (o : Nat) : o < next size o := by
  have := hpos o; unfold next; omega

theorem lastWithin_of_gt {stop o e : Nat} (h : stop < o) : lastWithin size hpos stop o e = e := by
  rw [lastWithin, if_neg (by omega)]

/-- Every item of a walk starts before `stop`, at or after `o`. -/
theorem mem_walk (stop o : Nat) : ∀ o', o' ∈ walk size hpos stop o → o ≤ o' ∧ o' < stop := by
  fun_induction walk size hpos stop o with
  | case1 o hlt ih =>
      intro o' h
      rcases List.mem_cons.mp h with rfl | h
      · exact ⟨Nat.le_refl _, hlt⟩
      · have h2 := ih o' h
        have h3 := lt_next hpos o
        exact ⟨by omega, h2.2⟩
  | case2 o _ => intro o' h; simp at h

/-- The walk reaches where it ends. -/
theorem reaches_walkEnd (stop o : Nat) : Reaches size o (walkEnd size hpos stop o) := by
  fun_induction walkEnd size hpos stop o with
  | case1 o _ ih => exact .step ih
  | case2 o _ => exact .refl o

/-- Items before a reached point are followed by the next one, still at or before it. -/
theorem next_le_of_mem_walk (stop o : Nat) :
    ∀ o', Reaches size o stop → o' ∈ walk size hpos stop o →
      next size o' ≤ stop ∧ Reaches size o' stop := by
  fun_induction walk size hpos stop o with
  | case1 o hlt ih =>
      intro o' hr h
      have hr' := hr.next_of_lt hlt
      rcases List.mem_cons.mp h with rfl | h
      · exact ⟨hr'.le, hr⟩
      · exact ih o' hr' h
  | case2 o _ => intro o' _ h; simp at h

/-- The last item at or before `stop` is reached, and the next one is past `stop`. -/
theorem lastWithin_spec (stop o e : Nat) :
    o ≤ stop → Reaches size o (lastWithin size hpos stop o e) ∧
      lastWithin size hpos stop o e ≤ stop ∧ stop < next size (lastWithin size hpos stop o e) := by
  fun_induction lastWithin size hpos stop o e with
  | case1 o e hle ih =>
      intro _
      by_cases hn : next size o ≤ stop
      · obtain ⟨h1, h2, h3⟩ := ih hn
        exact ⟨.step h1, h2, h3⟩
      · rw [lastWithin_of_gt (by omega)]
        exact ⟨.refl o, hle, by omega⟩
  | case2 o e hgt => intro h; exact absurd h hgt

/-- `lastWithin` is the one chain point at or before `stop` whose successor is past it. -/
theorem lastWithin_eq_of_reaches {stop o e b : Nat} (hb : Reaches size o b) (hle : b ≤ stop)
    (hlt : stop < next size b) : lastWithin size hpos stop o e = b := by
  obtain ⟨hr, hr1, hr2⟩ := @lastWithin_spec size hpos stop o e (Nat.le_trans hb.le hle)
  generalize lastWithin size hpos stop o e = r at hr hr1 hr2 ⊢
  -- two chain points with the same property coincide: the earlier one steps to at most the later
  rcases hr.total hb with h | h
  · cases h with
    | refl => rfl
    | step h => have := h.le; omega
  · cases h with
    | refl => rfl
    | step h => have := h.le; omega

theorem scan_of_lt {stop o : Nat} {done : Nat → Bool} (h : o < stop) (hd : done o = false) :
    scan size hpos stop done o = scan size hpos stop done (next size o) := by
  rw [scan, if_pos ⟨h, hd⟩]

theorem scan_of_done {stop o : Nat} {done : Nat → Bool} (hd : done o = true) :
    scan size hpos stop done o = o := by
  rw [scan, if_neg (by simp [hd])]

theorem reaches_scan (stop : Nat) (done : Nat → Bool) (o : Nat) :
    Reaches size o (scan size hpos stop done o) := by
  fun_induction scan size hpos stop done o with
  | case1 o _ ih => exact .step ih
  | case2 o _ => exact .refl o

/-- **A scan that stops on a `done` item stops there under any bound past which every item
is `done`**: the bound only matters where no `done` item comes first. -/
theorem scan_eq_of_done {stop stop' : Nat} {done : Nat → Bool} (o : Nat)
    (h : done (scan size hpos stop done o) = true) (hs : ∀ x, stop' ≤ x → done x = true) :
    scan size hpos stop' done o = scan size hpos stop done o := by
  fun_induction scan size hpos stop done o with
  | case1 o hcont ih =>
      -- `o` is not done, so it lies before `stop'` as well and the scan moves on
      have hlt : o < stop' := by
        by_contra hge
        have := hs o (by omega)
        rw [hcont.2] at this
        exact Bool.false_ne_true this
      rw [scan_of_lt hlt hcont.2]
      exact ih h
  | case2 o _ => exact scan_of_done h

/-- **The `!=` loop stops where the chain is reached**, after visiting the walk. -/
theorem iterate_of_reaches {o stop : Nat} (hr : Reaches size o stop) :
    ∀ fuel, stop - o < fuel → iterate size stop fuel o = some (walk size hpos stop o) := by
  induction hr with
  | refl a =>
      intro fuel hf
      cases fuel with
      | zero => omega
      | succ fuel => rw [iterate, if_pos rfl, walk_of_le (Nat.le_refl _)]
  | @step a b hr ih =>
      intro fuel hf
      have hn : a < next size a := by have := hpos a; unfold next; omega
      have hab : a < b ∨ a = b := by have := hr.le; omega
      rcases hab with hab | rfl
      · cases fuel with
        | zero => omega
        | succ fuel =>
            rw [iterate, if_neg (by omega), ih fuel (by have := hr.le; omega), walk_of_lt hab]
            rfl
      · have := hr.le; omega

/-- A search that has stopped gives the same result with more fuel. -/
theorem search_add {size : Nat → Nat} {stop : Nat} {done : Nat → Bool} :
    ∀ (fuel o k : Nat) (r : Option Nat), search size stop done fuel o = some r →
      search size stop done (fuel + k) o = some r
  | 0, _, _, _, h => by cases h
  | fuel + 1, o, k, r, h => by
      rw [Nat.add_right_comm, search]
      rw [search] at h
      by_cases hs : o = stop
      · rw [if_pos hs] at h ⊢; exact h
      rw [if_neg hs] at h ⊢
      by_cases hd : done o = true
      · rw [if_pos hd] at h ⊢; exact h
      rw [if_neg hd] at h ⊢
      exact search_add fuel _ k r h

theorem search_mono {size : Nat → Nat} {stop : Nat} {done : Nat → Bool} {fuel fuel' o : Nat}
    {r : Option Nat} (h : search size stop done fuel o = some r) (hle : fuel ≤ fuel') :
    search size stop done fuel' o = some r := by
  obtain ⟨k, rfl⟩ := Nat.exists_eq_add_of_le hle
  exact search_add fuel o k r h

/-- **A search along a chain that reaches its end** stops, on the first `done` item of the walk. -/
theorem search_of_reaches {done : Nat → Bool} {o stop : Nat} (hr : Reaches size o stop) :
    ∀ fuel, stop - o < fuel →
      search size stop done fuel o = some ((walk size hpos stop o).find? done) := by
  induction hr with
  | refl a =>
      intro fuel hf
      cases fuel with
      | zero => omega
      | succ fuel => rw [search, if_pos rfl, walk_of_le (Nat.le_refl _), List.find?_nil]
  | @step a b hr ih =>
      intro fuel hf
      have hab : a < b := Nat.lt_of_lt_of_le (lt_next hpos a) hr.le
      cases fuel with
      | zero => omega
      | succ fuel =>
          rw [search, if_neg (by omega), walk_of_lt hab]
          by_cases hd : done a = true
          · rw [if_pos hd, List.find?_cons_of_pos hd]
          · rw [if_neg hd, List.find?_cons_of_neg hd]
            exact ih fuel (by have := lt_next hpos a; omega)

/-- **A search stops on a `done` item met before its end**, or on an earlier one. -/
theorem search_of_reaches_done (hpos : ∀ o, 0 < size o) {done : Nat → Bool} {o a stop : Nat}
    (hr : Reaches size o a) (hlt : a < stop) (hd : done a = true) :
    ∀ fuel, a - o < fuel → ∃ r, search size stop done fuel o = some (some r) ∧
      Reaches size o r ∧ done r = true := by
  induction hr with
  | refl a =>
      intro fuel hf
      cases fuel with
      | zero => omega
      | succ fuel => exact ⟨a, by rw [search, if_neg (by omega), if_pos hd], .refl a, hd⟩
  | @step o a hr ih =>
      intro fuel hf
      have hlt' : o < a := Nat.lt_of_lt_of_le (lt_next hpos o) hr.le
      cases fuel with
      | zero => omega
      | succ fuel =>
          rw [search, if_neg (by omega)]
          by_cases hdo : done o = true
          · exact ⟨o, by rw [if_pos hdo], .refl o, hdo⟩
          · -- `o` is passed over; the search goes on from the next item
            rw [if_neg hdo]
            obtain ⟨r, hs, hr', hdr⟩ := ih hlt hd fuel (by have := lt_next hpos o; omega)
            exact ⟨r, hs, .step hr', hdr⟩

end Lemmas

end Tlv
