import FluidAnalysis.Table.Basic
import FluidAnalysis.Scalar

/-!
# Energy distribution of soft spheres

A run stores the first two moments of its energy. The distribution is drawn as the normal density
with those moments.
-/

namespace FluidAnalysis.SoftSphere

variable {α : Type} [Analytic α]

/-- The normal density with mean `mu` and standard deviation `sigma`. -/
def normalDensity (x mu sigma : α) : α :=
  let z := (x - mu) / sigma
  Analytic.exp (-0.5 * z * z) / (sigma * Analytic.sqrt (2.0 * Analytic.pi))

/-- Mean and standard deviation of an energy. -/
structure EnergyDistribution (α : Type) where
  mean : α
  sigma : α
deriving Repr

namespace EnergyDistribution

/-- The distribution from a file that holds the mean and the mean square first. -/
def ofMoments (t : Table Float) : Except Failure (EnergyDistribution Float) :=
  match t.values with
  | mean :: second :: _ =>
    let variance := second - mean * mean
    if variance < 0.0 || !variance.isFinite then .error (.energyVariance variance)
    else .ok ⟨mean, variance.sqrt⟩
  | values => .error (.energyMoments values.length)

/-- The number of points of a drawn density. -/
def pointCount : Nat := 1000

/-- The density on points from four standard deviations below the mean to four above. -/
def curve (d : EnergyDistribution α) : List (α × α) :=
  let low := d.mean - 4.0 * d.sigma
  let step := 8.0 * d.sigma / ((pointCount - 1 : Nat) : α)
  (List.range pointCount).map fun (i : Nat) =>
    let x := low + (i : α) * step
    (x, normalDensity x d.mean d.sigma)

end EnergyDistribution

end FluidAnalysis.SoftSphere
