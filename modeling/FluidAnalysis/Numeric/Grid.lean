import FluidAnalysis.Scalar

/-!
# Equally spaced grids
-/

namespace FluidAnalysis.Numeric

variable {α : Type} [Scalar α]

/-- The points `start + i · step` from `start` up to `stop`, without `stop` itself. A step of zero,
or one that never arrives, gives no points. -/
def halfOpenGrid (start stop step : α) : List α :=
  if step == 0.0 || !Scalar.isFinite step then []
  else
    let steps := (stop - start) / step
    if Scalar.isFinite steps then
      let count : α := (Scalar.ceil steps : Int)
      (List.range (Scalar.toNat count)).map fun (i : Nat) => start + (i : α) * step
    else []

/-- The points from `low` to `high`. The end is stretched by a millionth of a step, so `high`
is kept when it lies on the grid. -/
def closedGrid (low high step : α) : List α :=
  halfOpenGrid low (high + step * 1.0e-6) step

end FluidAnalysis.Numeric
