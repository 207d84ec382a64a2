import FluidAnalysis.Numeric.Calibration
import FluidAnalysis.Table.Basic

/-!
# Coexistence of liquid and vapour

Coexistence curves from calculations, and curves read off scanned figures.
-/

namespace FluidAnalysis.SquareWell

open Numeric

/-- Where a curve comes from. -/
inductive CurveSource where
  | vapour
  | liquid
  | forte
  | forteConverged
  | white
deriving Repr, DecidableEq

namespace CurveSource

def name : CurveSource → String
  | .vapour => "rg-vapor"
  | .liquid => "rg-liquid"
  | .forte => "forte"
  | .forteConverged => "forte-converged"
  | .white => "white-md"

end CurveSource

/-- Temperature against filling fraction. -/
structure CoexistenceCurve where
  source : CurveSource
  filling : List Float
  temperature : List Float
deriving Repr

/-- How the axes of a scanned figure are read. -/
structure FigureScale where
  density : Calibration Float
  temperature : Calibration Float
deriving Repr

def forteScale : FigureScale :=
  ⟨.through (94.0, 0.0) (504.0, 0.8), .through (52.0, 1.85) (345.0, 0.65)⟩

def whiteScale : FigureScale :=
  ⟨.through (73.0, 0.0) (345.0, 0.7), .through (400.0, 0.8) (76.0, 1.2)⟩

namespace CoexistenceCurve

/-- A curve from pixels, against the reduced density. -/
def digitised (source : CurveSource) (scale : FigureScale) (t : Table Float) :
    Except Failure CoexistenceCurve := do
  let x ← t.column 0
  let y ← t.column 1
  return ⟨source, x.map fun pixel => scale.density.apply pixel * Analytic.pi / 6.0,
    y.map scale.temperature.apply⟩

/-- The filling fractions of spheres of diameter two. -/
def fillings (density : List Float) : List Float :=
  density.map fun n => n * Analytic.pi * 8.0 / 6.0

/-- The two branches of a calculation, from rows of temperature and the two densities. -/
def branches (t : Table Float) : Except Failure (CoexistenceCurve × CoexistenceCurve) := do
  let temperature ← t.column 0
  let vapour ← t.column 1
  let liquid ← t.column 2
  return (⟨.vapour, fillings vapour, temperature⟩, ⟨.liquid, fillings liquid, temperature⟩)

end CoexistenceCurve

end FluidAnalysis.SquareWell
