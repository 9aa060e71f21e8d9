import Mathlib.Data.List.Basic

set_option autoImplicit false

/-! # Runs of a step function

A component that reacts to a stream of calls is a step function `step : σ → ι → σ × ο`
from a state and the call's input to the next state and the call's output. `run step s xs`
feeds the inputs `xs` in order from `s` and returns the final state and the outputs.

The lemmas are the ones the models need: how a run splits after a prefix (`run_append`), the
`k`-th output as one step from the state the first `k` inputs reach (`getElem?_run_snd`),
every output as one step's (`mem_run_snd`), and the induction rules: an invariant of the
states (`run_inv`, and `run_inv_of` for inputs of a kind), an invariant that relates the state
to the calls made so far with their outputs (`run_trace_inv`), and the simulation of one step
function by another, a relation between their states that each pair of steps keeps
(`run_simulation`, and `run_simulation_of` for inputs of a kind).
-/

namespace Run

variable {σ ι ο : Type}

/-- Feed `xs` to `step` from `s`: the final state and the outputs in order. -/
def run (step : σ → ι → σ × ο) : σ → List ι → σ × List ο
  | s, [] => (s, [])
  | s, x :: xs =>
      let r := run step (step s x).1 xs
      (r.1, (step s x).2 :: r.2)

variable (step : σ → ι → σ × ο)

@[simp] theorem run_nil (s : σ) : run step s [] = (s, []) := rfl

@[simp] theorem run_cons_fst (s : σ) (x : ι) (xs : List ι) :
    (run step s (x :: xs)).1 = (run step (step s x).1 xs).1 := rfl

@[simp] theorem run_cons_snd (s : σ) (x : ι) (xs : List ι) :
    (run step s (x :: xs)).2 = (step s x).2 :: (run step (step s x).1 xs).2 := rfl

@[simp] theorem run_length (s : σ) (xs : List ι) : (run step s xs).2.length = xs.length := by
  induction xs generalizing s with
  | nil => rfl
  | cons x xs ih => simp [ih]

theorem run_append (s : σ) (xs ys : List ι) :
    run step s (xs ++ ys) =
      ((run step (run step s xs).1 ys).1, (run step s xs).2 ++ (run step (run step s xs).1 ys).2) := by
  induction xs generalizing s with
  | nil => rfl
  | cons x xs ih =>
      show (let r := run step (step s x).1 (xs ++ ys); (r.1, (step s x).2 :: r.2)) = _
      rw [ih]
      rfl

theorem run_append_fst (s : σ) (xs ys : List ι) :
    (run step s (xs ++ ys)).1 = (run step (run step s xs).1 ys).1 := by
  rw [run_append]

theorem run_append_snd (s : σ) (xs ys : List ι) :
    (run step s (xs ++ ys)).2 = (run step s xs).2 ++ (run step (run step s xs).1 ys).2 := by
  rw [run_append]

/-- One more input after a prefix is one more step. -/
theorem run_concat_fst (s : σ) (xs : List ι) (x : ι) :
    (run step s (xs ++ [x])).1 = (step (run step s xs).1 x).1 := by
  rw [run_append_fst]; rfl

theorem run_concat_snd (s : σ) (xs : List ι) (x : ι) :
    (run step s (xs ++ [x])).2 = (run step s xs).2 ++ [(step (run step s xs).1 x).2] := by
  rw [run_append_snd]; rfl

/-- The `k`-th output is the output of one step from the state the first `k` inputs reach. -/
theorem getElem?_run_snd (s : σ) (xs : List ι) (k : Nat) (hk : k < xs.length) :
    (run step s xs).2[k]? = some (step (run step s (xs.take k)).1 xs[k]).2 := by
  have hd : xs.drop k = xs[k] :: xs.drop (k + 1) := List.drop_eq_getElem_cons hk
  have h := run_append_snd step s (xs.take k) (xs.drop k)
  rw [List.take_append_drop, hd, run_cons_snd] at h
  have hlen : ((run step s (xs.take k)).2).length = k := by simp; omega
  rw [h, List.getElem?_append_right (by omega)]
  simp [hlen]

/-- **Invariant rule.** A property that holds at `s` and that every step preserves holds
after every run. -/
theorem run_inv {P : σ → Prop} (hstep : ∀ s x, P s → P (step s x).1) :
    ∀ (s : σ) (xs : List ι), P s → P (run step s xs).1 := by
  intro s xs
  induction xs generalizing s with
  | nil => exact id
  | cons x xs ih => exact fun h => ih _ (hstep s x h)

/-- **Invariant rule for inputs of a kind.** A property that every step on an input satisfying
`Q` preserves holds after every run of such inputs. -/
theorem run_inv_of {Q : ι → Prop} {P : σ → Prop} (hstep : ∀ s x, Q x → P s → P (step s x).1) :
    ∀ (s : σ) (xs : List ι), (∀ x ∈ xs, Q x) → P s → P (run step s xs).1 := by
  intro s xs
  induction xs generalizing s with
  | nil => exact fun _ => id
  | cons x xs ih =>
      intro hq h
      exact ih _ (fun y hy => hq y (List.mem_cons_of_mem x hy)) (hstep s x (hq x List.mem_cons_self) h)

/-- **Trace invariant rule.** A relation between the state and the calls made so far, each
with its output, that every step on an input satisfying `Q` preserves, holds after every run
of such inputs. -/
theorem run_trace_inv {Q : ι → Prop} {P : σ → List (ι × ο) → Prop}
    (hstep : ∀ s tr x, Q x → P s tr → P (step s x).1 (tr ++ [(x, (step s x).2)])) :
    ∀ (s : σ) (xs : List ι) (tr : List (ι × ο)), (∀ x ∈ xs, Q x) → P s tr →
      P (run step s xs).1 (tr ++ xs.zip (run step s xs).2) := by
  intro s xs
  induction xs generalizing s with
  | nil => intro tr _ h; simpa using h
  | cons x xs ih =>
      intro tr hq h
      have := ih _ _ (fun y hy => hq y (List.mem_cons_of_mem x hy))
        (hstep s tr x (hq x List.mem_cons_self) h)
      simpa using this

/-- Every output of a run is the output of one step from some state. -/
theorem mem_run_snd {s : σ} {xs : List ι} {o : ο} (h : o ∈ (run step s xs).2) :
    ∃ s' x, x ∈ xs ∧ o = (step s' x).2 := by
  induction xs generalizing s with
  | nil => cases h
  | cons x xs ih =>
      rcases List.mem_cons.mp h with rfl | h
      · exact ⟨s, x, List.mem_cons_self, rfl⟩
      · obtain ⟨s', y, hy, rfl⟩ := ih h
        exact ⟨s', y, List.mem_cons_of_mem x hy, rfl⟩

/-- **Simulation rule for inputs of a kind.** A relation between the states of two step
functions, which every pair of steps on an input satisfying `Q` preserves with equal outputs,
holds after every run of such inputs, and the two runs give the same outputs. -/
theorem run_simulation_of {τ : Type} (step' : τ → ι → τ × ο) {Q : ι → Prop} {R : σ → τ → Prop}
    (hstep : ∀ s t x, Q x → R s t → R (step s x).1 (step' t x).1 ∧ (step s x).2 = (step' t x).2) :
    ∀ (s : σ) (t : τ) (xs : List ι), (∀ x ∈ xs, Q x) → R s t →
      R (run step s xs).1 (run step' t xs).1 ∧ (run step s xs).2 = (run step' t xs).2 := by
  intro s t xs
  induction xs generalizing s t with
  | nil => exact fun _ h => ⟨h, rfl⟩
  | cons x xs ih =>
      intro hq h
      obtain ⟨hR, hout⟩ := hstep s t x (hq x List.mem_cons_self) h
      obtain ⟨hR', houts⟩ := ih _ _ (fun y hy => hq y (List.mem_cons_of_mem x hy)) hR
      exact ⟨hR', by rw [run_cons_snd, run_cons_snd, hout, houts]⟩

/-- **Simulation rule.** A relation between the states of two step functions on the same
inputs, which every pair of steps preserves with equal outputs, holds after every run, and the
two runs give the same outputs. -/
theorem run_simulation {τ : Type} (step' : τ → ι → τ × ο) {R : σ → τ → Prop}
    (hstep : ∀ s t x, R s t → R (step s x).1 (step' t x).1 ∧ (step s x).2 = (step' t x).2) :
    ∀ (s : σ) (t : τ) (xs : List ι), R s t →
      R (run step s xs).1 (run step' t xs).1 ∧ (run step s xs).2 = (run step' t xs).2 :=
  fun s t xs h =>
    run_simulation_of step step' (Q := fun _ => True) (fun s t x _ => hstep s t x) s t xs
      (fun _ _ => trivial) h

end Run
