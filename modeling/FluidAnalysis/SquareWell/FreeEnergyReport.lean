import FluidAnalysis.Numeric.Grid
import FluidAnalysis.Report.Session

/-!
# Free energy report

The free energy of the homogeneous fluid against the filling fraction, with three estimates for each
temperature.
-/

namespace FluidAnalysis.SquareWell

open Files Report Numeric

/-- The free energy analysis. -/
structure FreeEnergyReport where
  wellWidth : Float := 1.3
  temperatures : List Float := halfOpenGrid 1.0 11.0 1.0
deriving Repr

/-- The three estimates at one temperature. -/
structure FreeEnergyCurve where
  temperature : Float
  filling : List Float
  second : List Float
  third : List Float
  fourth : List Float
deriving Repr

namespace FreeEnergyReport

/-- The file of one temperature. -/
def dataFile (a : FreeEnergyReport) (temperature : Float) : Path :=
  Path.join "homogeneous"
    s!"ww{Decimal.general a.wellWidth 6}-kT{Decimal.general temperature 6}.dat"

/-- Reads the estimates of one temperature. -/
def load (a : FreeEnergyReport) (request : Request) (files : Tree) (temperature : Float) :
    Except Failure FreeEnergyCurve := do
  let table ← loadTable files (request.dataPath (a.dataFile temperature)) 5
  let filling ← table.column 0
  let second ← table.column 2
  let third ← table.column 3
  let fourth ← table.column 4
  return ⟨temperature, filling, second, third, fourth⟩

/-- The series of one temperature. -/
def seriesOf (curve : FreeEnergyCurve) (position : Nat) : List (Figure.Series Float) :=
  let colour := Figure.cycleColour position
  [.ofColumns s!"T={Decimal.general curve.temperature 6}" curve.filling curve.second
      ⟨colour, .line⟩,
    .ofColumns "" curve.filling curve.third ⟨colour, .line⟩,
    .ofColumns "" curve.filling curve.fourth ⟨colour, .points⟩]

/-- Writes the table of all temperatures and the figure. -/
def execute (a : FreeEnergyReport) (out : Session.Output) : Session Unit := do
  Session.ask fun _ => out.request.expectKind .freeEnergy
  if a.temperatures.isEmpty then throw .noFreeEnergyTemperatures
  let curves ← Session.ask fun files => a.temperatures.mapM (a.load out.request files)
  Session.columns out "free-energy.dat"
    [curves.flatMap fun curve => List.replicate curve.filling.length curve.temperature,
      curves.flatMap (·.filling), curves.flatMap (·.second), curves.flatMap (·.third),
      curves.flatMap (·.fourth)]
    { header := some "kT eta A2 A3 A4" }
  Session.panel out "free-energy-vs-eta.svg" {
    title := s!"Free energy, lambda={Decimal.general a.wellWidth 6}"
    xLabel := "eta"
    yLabel := "A"
    series := curves.zipIdx.flatMap fun (curve, i) => seriesOf curve i
    yRange := some (-20.0, 50.0) }

end FreeEnergyReport

end FluidAnalysis.SquareWell
