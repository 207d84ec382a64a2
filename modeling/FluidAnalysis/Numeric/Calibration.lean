import FluidAnalysis.Scalar

/-!
# Calibration of a scanned axis
-/

namespace FluidAnalysis.Numeric

variable {α : Type} [Scalar α]

/-- A linear map from pixels on a scanned figure to data units. -/
structure Calibration (α : Type) where
  slope : α
  intercept : α
deriving Repr

namespace Calibration

/-- The line through two points `(pixel, value)`. -/
def through (first second : α × α) : Calibration α :=
  let slope := (second.2 - first.2) / (second.1 - first.1)
  ⟨slope, first.2 - slope * first.1⟩

/-- The value at a pixel. -/
def apply (c : Calibration α) (pixel : α) : α :=
  c.slope * pixel + c.intercept

end Calibration

end FluidAnalysis.Numeric
