import FluidAnalysis.Scalar

/-!
# Sums, means and extremes

The extremes pass over values that are no number and keep the first of equal values, so `0` and
`-0` are told apart by their order.
-/

namespace FluidAnalysis.Numeric

open Scalar

variable {α : Type} [Scalar α]

/-- The sum from left to right. It starts at the neutral element `-0`, so the sum of no values
is `-0`. -/
def sum (values : List α) : α :=
  values.foldl (· + ·) (-0.0)

/-- The arithmetic mean. The mean of no values is undefined. -/
def mean (values : List α) : α :=
  if values.isEmpty then 0.0 / 0.0 else sum values / (values.length : α)

/-- The larger of two values. A value that is no number gives way. -/
def larger (x y : α) : α :=
  if x == x then if x < y then y else x else y

/-- The smaller of two values. A value that is no number gives way. -/
def smaller (x y : α) : α :=
  if x == x then if y < x then y else x else y

/-- The largest number of a list, and `-∞` when it holds none. -/
def maximum (values : List α) : α :=
  match values.filter fun x => x == x with
  | [] => -(1.0 / 0.0)
  | first :: rest => rest.foldl larger first

/-- The smallest number of a list, and `∞` when it holds none. -/
def minimum (values : List α) : α :=
  match values.filter fun x => x == x with
  | [] => 1.0 / 0.0
  | first :: rest => rest.foldl smaller first

/-- The sum of squares, in order. -/
def sumOfSquares (values : List α) : α :=
  sum (values.map fun r => r * r)

end FluidAnalysis.Numeric
