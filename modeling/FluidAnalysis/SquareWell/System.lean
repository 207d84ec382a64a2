import FluidAnalysis.Decimal.Fixed
import FluidAnalysis.Decimal.Shortest
import FluidAnalysis.Scalar

/-!
# Square-well systems
-/

namespace FluidAnalysis.SquareWell

/-- A periodic square-well fluid. -/
structure System where
  wellWidth : Float
  fillingFraction : Float
  particles : Nat
deriving Repr

namespace System

/-- A parameter in file names. -/
def parameter (x : Float) : String :=
  Decimal.fixedWidth .zero 4 2 x

/-- The beginning of the names of all files of one run. -/
def stem (s : System) (method : String) : String :=
  s!"periodic-ww{parameter s.wellWidth}-ff{parameter s.fillingFraction}-N{s.particles}-{method}"

/-- Well width and filling fraction in titles. -/
def describeFluid (wellWidth fillingFraction : Float) : String :=
  s!"lambda={Decimal.plain wellWidth}, eta={Decimal.plain fillingFraction}"

/-- The system in titles. -/
def describe (s : System) : String :=
  s!"{describeFluid s.wellWidth s.fillingFraction}, N={s.particles}"

end System

/-- Runs store an energy as the number of occupied wells; the energy per particle is negative. -/
def energyPerParticle {α : Type} [Scalar α] (particles : Nat) (energies : List α) : List α :=
  energies.map fun energy => -energy / (particles : α)

end FluidAnalysis.SquareWell
