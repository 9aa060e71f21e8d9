import MediaBridge.Lib.Run
import Mathlib.Data.List.Basic

set_option autoImplicit false

/-! # FIFO queues of bounded capacity

A queue of fixed capacity, as systems code keeps them, refuses a push when it is full and
reports it only through a return value, and a pop on an empty queue returns nothing.
`BoundedFifo α` is such a queue: its items oldest first, never more than `capacity` of them.

`step` answers the calls of such a queue, and the trace lemmas say what a FIFO is for: over
every run, the values popped are values pushed and accepted, in the order they were pushed and
each at most once (`popped_sublist_accepted`), and without a `clear` the values popped followed
by those still queued are exactly the values accepted (`popped_append_items`).

A queue shared by threads may turn a push away, or find nothing to pop, while other threads are
half way through their calls. Its histories are those of a FIFO that may refuse a push and answer
a pop with nothing at any time, but takes a push only with room and pops only the oldest item
(`Answers`, `History`); nothing is lost, duplicated or reordered in them either
(`History.popped_append_items`).
-/

/-- A FIFO queue of at most `capacity` items, the oldest first. -/
structure BoundedFifo (α : Type) where
  capacity : Nat
  items : List α
  length_le : items.length ≤ capacity

namespace BoundedFifo

variable {α : Type}

/-- The empty queue of a capacity. -/
def empty (capacity : Nat) : BoundedFifo α := ⟨capacity, [], Nat.zero_le _⟩

/-- The number of items queued. -/
def size (f : BoundedFifo α) : Nat := f.items.length

/-- A push appends the item when there is room and is refused otherwise. -/
def push (f : BoundedFifo α) (x : α) : BoundedFifo α × Bool :=
  if h : f.items.length < f.capacity then
    (⟨f.capacity, f.items ++ [x], by rw [List.length_append, List.length_singleton]; omega⟩, true)
  else (f, false)

/-- A pop takes the oldest item, if there is one. -/
def pop : BoundedFifo α → BoundedFifo α × Option α
  | ⟨c, [], h⟩ => (⟨c, [], h⟩, none)
  | ⟨c, x :: xs, h⟩ => (⟨c, xs, Nat.le_of_succ_le h⟩, some x)

/-- The calls of a bounded queue. -/
inductive Call (α : Type)
  | push (x : α)
  | pop
  | size
  | full
  | empty
  | clear
  | capacity
deriving DecidableEq

/-- The replies: whether a push was taken, the item a pop took, the size, whether the queue is
full or empty, and its capacity. -/
inductive Reply (α : Type)
  | pushed (ok : Bool)
  | popped (x : Option α)
  | size (n : Nat)
  | full (b : Bool)
  | empty (b : Bool)
  | cleared
  | capacity (n : Nat)
deriving DecidableEq

/-- One call on the queue. -/
def step (f : BoundedFifo α) : Call α → BoundedFifo α × Reply α
  | .push x => ((f.push x).1, .pushed (f.push x).2)
  | .pop => ((pop f).1, .popped (pop f).2)
  | .size => (f, .size f.size)
  | .full => (f, .full (decide (f.capacity ≤ f.size)))
  | .empty => (f, .empty (decide (f.size = 0)))
  | .clear => (empty f.capacity, .cleared)
  | .capacity => (f, .capacity f.capacity)

@[simp] theorem capacity_push (f : BoundedFifo α) (x : α) : (f.push x).1.capacity = f.capacity := by
  unfold push
  split <;> rfl

@[simp] theorem capacity_pop (f : BoundedFifo α) : (pop f).1.capacity = f.capacity := by
  obtain ⟨c, _ | ⟨x, xs⟩, h⟩ := f <;> rfl

@[simp] theorem capacity_step (f : BoundedFifo α) (c : Call α) : (f.step c).1.capacity = f.capacity := by
  cases c <;> simp [step, empty]

theorem push_of_lt {f : BoundedFifo α} (h : f.items.length < f.capacity) (x : α) :
    (f.push x).1.items = f.items ++ [x] ∧ (f.push x).2 = true := by
  simp [push, h]

theorem push_of_le {f : BoundedFifo α} (h : f.capacity ≤ f.items.length) (x : α) :
    f.push x = (f, false) := by
  simp [push, Nat.not_lt.mpr h]

theorem pop_of_cons {f : BoundedFifo α} {x : α} {xs : List α} (h : f.items = x :: xs) :
    (pop f).1.items = xs ∧ (pop f).2 = some x := by
  obtain ⟨c, items, hl⟩ := f
  subst h
  exact ⟨rfl, rfl⟩

theorem pop_of_nil {f : BoundedFifo α} (h : f.items = []) : pop f = (f, none) := by
  obtain ⟨c, items, hl⟩ := f
  subst h
  rfl

/-! ## What a run pushes and pops -/

/-- The values of the pushes a trace shows accepted, in order. -/
def accepted : List (Call α × Reply α) → List α :=
  List.filterMap fun
    | (.push x, .pushed true) => some x
    | _ => none

/-- The values a trace shows popped, in order. -/
def popped : List (Call α × Reply α) → List α :=
  List.filterMap fun
    | (_, .popped (some x)) => some x
    | _ => none

@[simp] theorem accepted_nil : accepted ([] : List (Call α × Reply α)) = [] := rfl

@[simp] theorem popped_nil : popped ([] : List (Call α × Reply α)) = [] := rfl

theorem accepted_append (tr tr' : List (Call α × Reply α)) :
    accepted (tr ++ tr') = accepted tr ++ accepted tr' :=
  List.filterMap_append

theorem popped_append (tr tr' : List (Call α × Reply α)) :
    popped (tr ++ tr') = popped tr ++ popped tr' :=
  List.filterMap_append

/-- What one step adds to the values accepted and popped, and to the items: a push that is
taken adds its value to the accepted ones and the items, a pop moves the oldest item to the
popped ones, and a `clear` drops the items. -/
theorem step_trace (f : BoundedFifo α) (c : Call α) :
    (popped [(c, (f.step c).2)] ++ (f.step c).1.items = f.items ++ accepted [(c, (f.step c).2)]
      ∧ c ≠ .clear) ∨ (c = .clear ∧ (f.step c).1.items = [] ∧ popped [(c, (f.step c).2)] = []) := by
  cases c with
  | push x =>
      left
      by_cases h : f.items.length < f.capacity
      · obtain ⟨hitems, hok⟩ := push_of_lt h x
        simp [step, hitems, hok, popped, accepted]
      · rw [Nat.not_lt] at h
        simp [step, push_of_le h x, popped, accepted]
  | pop =>
      left
      cases hf : f.items with
      | nil => simp [step, pop_of_nil hf, popped, accepted, hf]
      | cons x xs =>
          obtain ⟨hitems, hx⟩ := pop_of_cons hf
          simp [step, hitems, hx, popped, accepted]
  | clear => exact .inr ⟨rfl, rfl, rfl⟩
  | size | full | empty | capacity => left; simp [step, popped, accepted]

/-- **FIFO order.** Over every run, the values popped followed by the items left are taken,
in order, from the items at the start followed by the values accepted: nothing is popped
that was not pushed, nothing is popped twice, and the order of the pushes is kept. -/
theorem popped_sublist_accepted (f : BoundedFifo α) (calls : List (Call α)) :
    (popped (calls.zip (Run.run step f calls).2) ++ (Run.run step f calls).1.items).Sublist
      (f.items ++ accepted (calls.zip (Run.run step f calls).2)) := by
  -- the relation carried along the run, between the state and the trace so far
  have h := Run.run_trace_inv step (Q := fun _ => True)
    (P := fun g tr => (popped tr ++ g.items).Sublist (f.items ++ accepted tr))
    (by
      intro g tr c _ hg
      rw [popped_append, accepted_append, List.append_assoc]
      rcases step_trace g c with ⟨heq, -⟩ | ⟨-, hitems, hpop⟩
      · rw [heq]
        simp only [← List.append_assoc]
        exact hg.append_right _
      · rw [hitems, hpop, List.append_nil, List.append_nil, ← List.append_assoc]
        exact ((List.sublist_append_left _ _).trans hg).trans (List.sublist_append_left _ _))
    f calls [] (fun _ _ => trivial) (by simp)
  simpa using h

/-- **No value lost.** Over every run without a `clear`, the values popped followed by the
items left are exactly the items at the start followed by the values accepted. -/
theorem popped_append_items (f : BoundedFifo α) (calls : List (Call α))
    (hclear : Call.clear ∉ calls) :
    popped (calls.zip (Run.run step f calls).2) ++ (Run.run step f calls).1.items =
      f.items ++ accepted (calls.zip (Run.run step f calls).2) := by
  have h := Run.run_trace_inv step (Q := fun c => c ≠ .clear)
    (P := fun g tr => popped tr ++ g.items = f.items ++ accepted tr)
    (by
      intro g tr c hc hg
      rw [popped_append, accepted_append, List.append_assoc]
      rcases step_trace g c with ⟨heq, -⟩ | ⟨hc', -, -⟩
      · rw [heq, ← List.append_assoc, hg, List.append_assoc]
      · exact absurd hc' hc)
    f calls [] (fun c hc heq => hclear (heq ▸ hc)) (by simp)
  simpa using h

/-! ## A FIFO that may refuse -/

/-- `Answers f e f'`: the queue `f` may give the call of `e` the reply of `e` and become `f'`,
when a push may be refused and a pop may find nothing whatever the queue holds: a push taken
needs room and appends, a value popped is the oldest. -/
inductive Answers : BoundedFifo α → Call α × Reply α → BoundedFifo α → Prop
  | push_taken {f : BoundedFifo α} (x : α) : f.items.length < f.capacity →
      Answers f (.push x, .pushed true) (f.push x).1
  | push_refused (f : BoundedFifo α) (x : α) : Answers f (.push x, .pushed false) f
  | pop_oldest {f : BoundedFifo α} {x : α} {xs : List α} : f.items = x :: xs →
      Answers f (.pop, .popped (some x)) (pop f).1
  | pop_nothing (f : BoundedFifo α) : Answers f (.pop, .popped none) f

/-- A history the queue `f` may give, its calls in order, ending in `g`. -/
inductive History (f : BoundedFifo α) : List (Call α × Reply α) → BoundedFifo α → Prop
  | nil : History f [] f
  | snoc {h : List (Call α × Reply α)} {g g' : BoundedFifo α} {e : Call α × Reply α} :
      History f h g → Answers g e g' → History f (h ++ [e]) g'

/-- One answer moves the value of a push taken into the items and the oldest item out to the
values popped. -/
theorem Answers.trace {f f' : BoundedFifo α} {e : Call α × Reply α} (h : Answers f e f') :
    popped [e] ++ f'.items = f.items ++ accepted [e] := by
  cases h with
  | push_taken x hlt =>
      rw [(push_of_lt hlt x).1]
      simp [popped, accepted]
  | push_refused => simp [popped, accepted]
  | pop_oldest hf =>
      rw [(pop_of_cons hf).1, hf]
      simp [popped, accepted]
  | pop_nothing => simp [popped, accepted]

/-- **No value lost by a FIFO that may refuse.** In every history, the values popped followed
by the items left are the items at the start followed by the values of the pushes taken. -/
theorem History.popped_append_items {f g : BoundedFifo α} {h : List (Call α × Reply α)}
    (hist : History f h g) : popped h ++ g.items = f.items ++ accepted h := by
  induction hist with
  | nil => simp
  | snoc _ hans ih =>
      rw [popped_append, accepted_append, List.append_assoc, hans.trace, ← List.append_assoc, ih,
        List.append_assoc]

end BoundedFifo
