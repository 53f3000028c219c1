import Mathlib.Data.List.Basic

/-!
# Transducers

A transducer reads symbols one by one, has a state, and puts out a list for each symbol. What it
puts out for a list does not depend on how the list is cut into pieces.
-/

namespace Ivy.Transducer

variable {σ α β : Type} (step : σ → α → σ × List β)

/-- The last state, and all that is put out. -/
def run : σ → List α → σ × List β
  | s, [] => (s, [])
  | s, a :: as => ((run (step s a).1 as).1, (step s a).2 ++ (run (step s a).1 as).2)

variable {step} (s : σ)

/-- Nothing is put out for no symbols. -/
@[simp] theorem run_nil : run step s [] = (s, []) := rfl

/-- The first symbol, and then the others. -/
theorem run_cons (a : α) (as : List α) :
    run step s (a :: as) = ((run step (step s a).1 as).1,
      (step s a).2 ++ (run step (step s a).1 as).2) := rfl

/-- A list in two pieces: the second is read in the state that the first has left. -/
theorem run_append (as bs : List α) :
    run step s (as ++ bs) = ((run step (run step s as).1 bs).1,
      (run step s as).2 ++ (run step (run step s as).1 bs).2) := by
  induction as generalizing s with
  | nil => rfl
  | cons a as ih => simp [run_cons, ih]

/-- A transducer that puts out at most one symbol per symbol does not make lists longer. -/
theorem length_run_le (h : ∀ s a, (step s a).2.length ≤ 1) (as : List α) :
    (run step s as).2.length ≤ as.length := by
  induction as generalizing s with
  | nil => simp
  | cons a as ih =>
    have hstep := h s a
    have hrest := ih (step s a).1
    rw [run_cons, List.length_append, List.length_cons]
    omega

end Ivy.Transducer
