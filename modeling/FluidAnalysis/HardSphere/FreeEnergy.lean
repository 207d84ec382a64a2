import FluidAnalysis.Numeric.Bisection

/-!
# Free energy of hard spheres

The Carnahan–Starling excess free energy as a function of the filling fraction, and its inverse by
bisection.
-/

namespace FluidAnalysis.HardSphere

variable {α : Type} [Scalar α]

/-- The Carnahan–Starling excess free energy per particle, in units of the temperature. -/
def excessFreeEnergy (eta : α) : α :=
  (4.0 * eta - 3.0 * eta * eta) / ((1.0 - eta) * (1.0 - eta))

/-- The bisection for the filling fraction with a given excess free energy. -/
def fillingFractionSearch (freeEnergy : α) : Numeric.Bisection α :=
  Numeric.bisect excessFreeEnergy freeEnergy 0.0 1.0 1.0e-8 500

/-- The filling fraction with a given excess free energy. -/
def fillingFraction (freeEnergy : α) : α :=
  (fillingFractionSearch freeEnergy).value

end FluidAnalysis.HardSphere
