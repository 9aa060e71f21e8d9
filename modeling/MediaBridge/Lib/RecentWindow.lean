import MediaBridge.Lib.Run

set_option autoImplicit false

/-! # Windows of the most recently taken entries

A cache that refuses a key it holds and otherwise keeps the newest `n` entries it took is
described by its window: the entries it took, newest first, cut at `n`. `put` is one call of
such a cache on the window; `accepted` picks out of a run the inputs whose call returned `true`.
`run_put` describes the window after any run from the empty window by the run's accepted
inputs alone: the window holds the last `n` of them, newest first.
-/

namespace RecentWindow

variable {κ ν ι : Type}

/-- The inputs of a run whose call returned `true`, in order. -/
def accepted (xs : List ι) (oks : List Bool) : List ι :=
  ((xs.zip oks).filter fun e => e.2).map Prod.fst

/-- The window that the accepted inputs of a trace leave: the last `n`, newest first. -/
def window (n : Nat) (key : ι → κ) (val : ι → ν) (tr : List (ι × Bool)) : List (κ × ν) :=
  ((((tr.filter fun e => e.2).map Prod.fst).reverse.take n).map fun x => (key x, val x))

section Trace

variable (n : Nat) (key : ι → κ) (val : ι → ν)

theorem window_append_false (tr : List (ι × Bool)) (x : ι) :
    window n key val (tr ++ [(x, false)]) = window n key val tr := by
  simp [window]

theorem window_append_true (tr : List (ι × Bool)) (x : ι) :
    window n key val (tr ++ [(x, true)]) = (((key x, val x) :: window n key val tr).take n) := by
  cases n with
  | zero => simp [window]
  | succ m => simp [window, List.take_take, List.map_take]

variable [DecidableEq κ]

/-- Put `(k, v)` into the window `w`, newest first: refused when `k` is held, otherwise put in
front, the oldest entry falling out when there are more than `n`. -/
def put (w : List (κ × ν)) (k : κ) (v : ν) : List (κ × ν) × Bool :=
  if k ∈ w.map Prod.fst then (w, false) else (((k, v) :: w).take n, true)

/-- A call is accepted exactly when its key is not held. -/
theorem put_snd (w : List (κ × ν)) (k : κ) (v : ν) :
    (put n w k v).2 = !decide (k ∈ w.map Prod.fst) := by
  unfold put
  by_cases hk : k ∈ w.map Prod.fst
  · rw [if_pos hk, decide_eq_true hk]
    rfl
  · rw [if_neg hk, decide_eq_false hk]
    rfl

/-- One call of the cache takes the trace's window to the window of the longer trace. -/
theorem put_window (tr : List (ι × Bool)) (x : ι) :
    (put n (window n key val tr) (key x) (val x)).1 =
      window n key val (tr ++ [(x, (put n (window n key val tr) (key x) (val x)).2)]) := by
  unfold put
  split
  · rw [window_append_false]
  · rw [window_append_true]

/-- **The window after a run.** From the empty window, the window holds the last `n` accepted
inputs of the run, newest first. -/
theorem run_put (xs : List ι) :
    (Run.run (fun w x => put n w (key x) (val x)) [] xs).1 =
      (((accepted xs (Run.run (fun w x => put n w (key x) (val x)) [] xs).2).reverse.take n).map
        fun x => (key x, val x)) := by
  have hstart : ([] : List (κ × ν)) = window n key val [] := by simp [window]
  have h := Run.run_trace_inv (fun w x => put n w (key x) (val x)) (Q := fun _ => True)
    (P := fun w tr => w = window n key val tr)
    (fun w tr x _ hw => by rw [hw]; exact put_window n key val tr x)
    [] xs [] (fun _ _ => trivial) hstart
  rw [List.nil_append] at h
  exact h

end Trace

end RecentWindow
