import FluidAnalysis.Numeric.Summary
import FluidAnalysis.SquareWell.System
import FluidAnalysis.Table.Basic

/-!
# Density of states

A flat-histogram run samples every energy with a known weight, so its histogram over the weight is
the density of states: `ln g(E) = ln H(E) - ln w(E)`.
-/

namespace FluidAnalysis.SquareWell

open Numeric

variable {α : Type} [Analytic α]

/-! ## Levels -/

/-- An energy that was visited, with the logarithms of its density of states and of its weight. -/
structure Level (α : Type) where
  energy : α
  lnDos : α
  lnWeight : α
deriving Repr

/-- The row of a weight table that belongs to an energy: its integer part. -/
def weightRow? (energy : α) (rows : Nat) : Option Nat :=
  let row := Scalar.trunc energy
  if Scalar.isFinite energy && decide (0 ≤ row ∧ row < rows) then some row.toNat else none

/-- The weight of an energy. -/
def weightOf (lnWeights : List Float) (energy : Float) : Except Failure Float :=
  match weightRow? energy lnWeights.length with
  | some row => entryAt lnWeights row
  | none => .error (.noWeightRow energy lnWeights.length)

/-- The level of one bin. A bin that was never visited says nothing and has no level. -/
def levelOf (lnWeights : List Float) (bin : Float × Float) : Except Failure (Option (Level Float)) :=
  let (energy, count) := bin
  if count ≤ 0.0 then .ok none
  else
    match weightOf lnWeights energy with
    | .error failure => .error failure
    | .ok lnWeight => .ok (some ⟨energy, Analytic.ln count - lnWeight, lnWeight⟩)

/-- The levels of a run, from its histogram and its table of weights. -/
def levels (histogram weights : Table Float) : Except Failure (List (Level Float)) := do
  let energies ← histogram.column 0
  let counts ← histogram.column 1
  let lnWeights ← weights.column 1
  let found ← (energies.zip counts).mapM (levelOf lnWeights)
  return found.filterMap id

/-! ## Curves -/

/-- Shifts values so that the largest is zero, if it is finite. -/
def peakAtZero (values : List α) : List α :=
  let peak := maximum values
  if Scalar.isFinite peak then values.map (· - peak) else values

/-- The decimal logarithm of e. -/
def log10OfE : α := 0.43429448190325182765

/-- The density of states and the inverse weights in decades. Both curves have their peak at zero. -/
structure DensityCurves (α : Type) where
  energyPerParticle : List α
  logDos : List α
  logInverseWeight : List α
deriving Repr

namespace DensityCurves

/-- The curves with logarithms in a given unit. -/
def inUnit (unit : α) (particles : Nat) (levels : List (Level α)) : DensityCurves α where
  energyPerParticle := SquareWell.energyPerParticle particles (levels.map (·.energy))
  logDos := peakAtZero (levels.map fun level => level.lnDos * unit)
  logInverseWeight := peakAtZero (levels.map fun level => -level.lnWeight * unit)

/-- The curves in decades. -/
def ofLevels (particles : Nat) (levels : List (Level α)) : DensityCurves α :=
  inUnit log10OfE particles levels

/-- The lowest value of both curves, and never more than zero. -/
def lowest (d : DensityCurves α) : α :=
  (d.logDos ++ d.logInverseWeight).foldl smaller 0.0

end DensityCurves

end FluidAnalysis.SquareWell
