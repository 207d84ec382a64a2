import FluidAnalysis.Numeric.Summary

/-!
# Running mean

A trailing moving average. The window's sum is carried along: each step adds the value that enters
and removes the one that leaves.
-/

namespace FluidAnalysis.Numeric

variable {α : Type} [Scalar α]

/-- The sums of a sliding window: `total`, and then one more for each pair of a value that enters
and the value that leaves. -/
def slidingSums (total : α) : List (α × α) → List α
  | [] => [total]
  | (entering, leaving) :: rest => total :: slidingSums (total + (entering - leaving)) rest

/-- The mean of each value with the `window - 1` values before it. The first `window - 1` entries
are the values themselves, so the length is kept. A window of at most one value, or one longer than
the list, changes nothing. -/
def runningMean (values : List α) (window : Nat) : List α :=
  if window ≤ 1 ∨ values.length < window then values
  else
    let sums := slidingSums (sum (values.take window)) ((values.drop window).zip values)
    values.take (window - 1) ++ sums.map (· / (window : α))

theorem length_slidingSums : ∀ (total : α) (steps : List (α × α)),
    (slidingSums total steps).length = steps.length + 1
  | _, [] => rfl
  | total, (entering, leaving) :: rest => by
    rw [slidingSums, List.length_cons, length_slidingSums, List.length_cons]

theorem length_runningMean (values : List α) (window : Nat) :
    (runningMean values window).length = values.length := by
  unfold runningMean
  split
  · rfl
  · next h =>
    simp only [List.length_append, List.length_take, List.length_map, length_slidingSums,
      List.length_zip, List.length_drop]
    omega

end FluidAnalysis.Numeric
