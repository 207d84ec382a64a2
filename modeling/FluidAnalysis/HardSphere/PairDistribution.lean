import FluidAnalysis.Numeric.LeastSquares

/-!
# Pair distribution of hard spheres

The analytic pair distribution

`g(r) = 1 + h e^(-a0 z) + a1 sin(a2 z) e^(-a3 z) + a4 sin(a5 z) e^(-a6 z)`, with `z = r - sigma`.

Of its seven coefficients five are free. The other two follow from the compressibility sum rule and
from the slope at contact.
-/

namespace FluidAnalysis.HardSphere

open Scalar (cube fourth)

variable {α : Type} [Analytic α]

/-- The free coefficients. -/
structure Shape (α : Type) where
  a0 : α
  a2 : α
  a3 : α
  a5 : α
  a6 : α
deriving Repr

namespace Shape

def standard : Shape α := ⟨1.706, 1.358, 1.567, 0.675, 0.463⟩

def toList (s : Shape α) : List α := [s.a0, s.a2, s.a3, s.a5, s.a6]

/-- The number of free coefficients. -/
def count : Nat := 5

/-- The coefficients from a list; what the list lacks is zero. -/
def ofList (values : List α) : Shape α :=
  let entry (i : Nat) := (values[i]?).getD 0.0
  ⟨entry 0, entry 1, entry 2, entry 3, entry 4⟩

end Shape

/-- The diameter of a sphere. -/
def sigma : α := 2.0

/-- The integral of `r² sin(p z) e^(-q z)` outside contact, times `4 π`. -/
def oscillatoryIntegral (p q : α) : α :=
  4.0 * Analytic.pi * p
      * (sigma * sigma * fourth p
        + 2.0 * p * p * (-1.0 + sigma * q * (2.0 + sigma * q))
        + q * q * (6.0 + sigma * q * (4.0 + sigma * q)))
    / cube (p * p + q * q)

/-- The contact value of the pair distribution, less one. -/
def contactExcess (eta : α) : α :=
  (1.0 - 0.5 * eta) / cube (1.0 - eta) - 1.0

/-- The number density at a filling fraction. -/
def numberDensity (eta : α) : α :=
  3.0 / (4.0 * Analytic.pi) * eta

/-- The reduced compressibility at a filling fraction. -/
def reducedCompressibility (eta : α) : α :=
  fourth (1.0 - eta) / (1.0 + 4.0 * eta + 4.0 * eta * eta - 4.0 * cube eta + fourth eta) / 3.0

/-- The integral of the first term of the distribution, times `4 π`. -/
def contactIntegral (a0 excess : α) : α :=
  4.0 * Analytic.pi * excess * (2.0 + sigma * a0 * (2.0 + sigma * a0)) / cube a0

/-- The two coefficients that are not free. -/
structure Constrained (α : Type) where
  a1 : α
  a4 : α
deriving Repr

/-- The coefficients that meet both constraints at a filling fraction. -/
def constrained (s : Shape α) (eta : α) : Constrained α :=
  let excess := contactExcess eta
  let a := (reducedCompressibility eta - 1.0) / numberDensity eta - contactIntegral s.a0 excess
  let b := oscillatoryIntegral s.a5 s.a6
  let c := oscillatoryIntegral s.a2 s.a3
  let a1 := (a / c - b * excess / c / s.a5 * (-1.0 - excess + s.a0)) / (1.0 - b * s.a2 / c / s.a5)
  let a4 := excess / s.a5 * (-1.0 - excess + s.a0 - a1 * s.a2 / excess)
  ⟨a1, a4⟩

/-- The pair distribution at a filling fraction and a distance. -/
def pairDistribution (s : Shape α) (eta r : α) : α :=
  let k := constrained s eta
  let z := r - sigma
  1.0 + contactExcess eta * Analytic.exp (-s.a0 * z)
    + k.a1 * Analytic.sin (s.a2 * z) * Analytic.exp (-s.a3 * z)
    + k.a4 * Analytic.sin (s.a5 * z) * Analytic.exp (-s.a6 * z)

/-! ## Measured distributions -/

/-- A sampled pair distribution at one filling fraction. -/
structure Measured (α : Type) where
  filling : α
  r : List α
  g : List α
deriving Repr

namespace Measured

/-- The distribution from a sampled density, which is in units of the filling fraction. -/
def ofDensity (filling : α) (r density : List α) : Measured α :=
  ⟨filling, r, density.map (· / filling)⟩

/-- The analytic distribution at the sampled distances. -/
def model (m : Measured α) (s : Shape α) : List α :=
  m.r.map fun r => pairDistribution s m.filling r

/-- The differences between the analytic and the sampled distribution. -/
def residuals (m : Measured α) (s : Shape α) : List α :=
  (m.r.zip m.g).map fun (r, g) => pairDistribution s m.filling r - g

end Measured

/-- The differences over all samples, in order. -/
def pairResiduals (s : Shape α) (data : List (Measured α)) : List α :=
  data.flatMap fun m => m.residuals s

/-- The sum of their squares. -/
def pairChiSquared (s : Shape α) (data : List (Measured α)) : α :=
  Numeric.sumOfSquares (pairResiduals s data)

/-- Coefficients and how well they fit. -/
structure PairFit (α : Type) where
  shape : Shape α
  chiSquared : α
  iterations : Nat
  converged : Bool
deriving Repr

/-- The given coefficients as they are, or fitted to the samples. -/
def solvePair (start : Shape α) (fitted : Bool) (data : List (Measured α)) :
    Except Numeric.FitFault (PairFit α) :=
  if fitted then
    match Numeric.fit (fun x => pairResiduals (.ofList x) data) start.toList .standard with
    | .ok report =>
      .ok ⟨.ofList report.parameters, report.chiSquared, report.iterations, report.converged⟩
    | .error fault => .error fault
  else .ok ⟨start, pairChiSquared start data, 0, false⟩

end FluidAnalysis.HardSphere
