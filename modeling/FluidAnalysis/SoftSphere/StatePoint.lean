import FluidAnalysis.Decimal.Shortest
import FluidAnalysis.Numeric.Grid

/-!
# State points of soft spheres

The reduced densities and temperatures of a sweep.
-/

namespace FluidAnalysis.SoftSphere

open Numeric

/-- The points of a half-open range. -/
structure Range where
  min : Float
  max : Float
  step : Float
deriving Repr

def Range.values (r : Range) : List Float :=
  halfOpenGrid r.min r.max r.step

/-- A sweep over densities and temperatures. -/
structure Grid where
  density : Range := ⟨0.1, 10.1, 1.0⟩
  temperature : Range := ⟨0.51, 1.0, 0.1⟩
deriving Repr

/-- The beginning of the names of all files of a state point. -/
def stem (density temperature : Float) : String :=
  s!"ff-{Decimal.label density}_temp-{Decimal.label temperature}"

end FluidAnalysis.SoftSphere
