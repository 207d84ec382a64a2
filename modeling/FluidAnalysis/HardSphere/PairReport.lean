import FluidAnalysis.HardSphere.PairDistribution
import FluidAnalysis.Report.Session

/-!
# Pair distribution report

Reads the sampled distributions that exist, fits the analytic one if wanted, and writes its
coefficients, one table per filling fraction and a figure.
-/

namespace FluidAnalysis.HardSphere

open Files Report

/-- The pair distribution analysis. -/
structure PairReport where
  fileBase : String := "gr"
  fillings : List Float := [0.1, 0.2, 0.3, 0.4]
  shape : Shape Float := .standard
  fitted : Bool := false
deriving Repr

namespace PairReport

/-- The file with the distribution at a filling fraction. -/
def dataFile (a : PairReport) (filling : Float) : Path :=
  s!"{a.fileBase}-{Decimal.fixedWidth .blank 4 2 filling}.dat"

/-- The distribution at one filling fraction, unless its file is missing. -/
def loadOne (a : PairReport) (request : Request) (files : Tree) (filling : Float) :
    Except Failure (Option (Measured Float)) := do
  let path := request.dataPath (a.dataFile filling)
  if files.isFile path then
    let table ← loadTable files path 2
    let r ← table.column 0
    let density ← table.column 1
    return some (.ofDensity filling r density)
  else return none

/-- All distributions that exist; there has to be one. -/
def load (a : PairReport) (request : Request) (files : Tree) :
    Except Failure (List (Measured Float)) := do
  let found ← a.fillings.mapM (a.loadOne request files)
  let data := found.filterMap id
  if data.isEmpty then throw (.noPairData a.fileBase request.dataRoot)
  return data

/-- The fit to the given distributions. -/
def solve (a : PairReport) (data : List (Measured Float)) : Except Failure (PairFit Float) :=
  match solvePair a.shape a.fitted data with
  | .ok fit => .ok fit
  | .error fault => .error (.fit fault)

/-- The header of the table of coefficients. -/
def parameterHeader (fit : PairFit Float) : String :=
  let values := " ".intercalate (fit.shape.toList.map fun x => Decimal.general x 8)
  let chi := Decimal.general fit.chiSquared 8
  s!"parameters: {values}\nchi_squared: {chi}\niterations: {fit.iterations}\neta a1 a4 a1/a4"

/-- The two series of one filling fraction. -/
def seriesOf (fit : PairFit Float) (data : Measured Float) (position : Nat) :
    List (Figure.Series Float) :=
  let colour := Figure.cycleColour position
  let eta := Decimal.fixed 2 data.filling
  [.ofColumns s!"MC eta = {eta}" data.r data.g ⟨colour, .points⟩,
    .ofColumns s!"model eta = {eta}" data.r (data.model fit.shape) ⟨colour, .line⟩]

/-- Writes the coefficients, the distributions and the figure. -/
def execute (a : PairReport) (out : Session.Output) : Session Unit := do
  Session.ask fun _ => out.request.expectKind .pairDistribution
  let data ← Session.ask (a.load out.request)
  let fit ← Session.ask fun _ => a.solve data
  let coefficients := data.map fun m => constrained fit.shape m.filling
  Session.columns out "ghs-parameters.dat"
    [data.map (·.filling), coefficients.map (·.a1), coefficients.map (·.a4),
      coefficients.map fun k => k.a1 / k.a4]
    { header := some (parameterHeader fit) }
  data.forM fun m =>
    Session.columns out s!"ghs-{Decimal.fixedWidth .blank 4 2 m.filling}.dat"
      [m.r, m.g, m.model fit.shape] { header := some "r g_mc g_model" }
  Session.panel out "ghs.svg" {
    title := s!"g_HS(r), chi^2 {Decimal.fixed 2 fit.chiSquared}"
    xLabel := "r/R"
    yLabel := "g(r)"
    series := data.zipIdx.flatMap fun (m, i) => seriesOf fit m i
    xRange := some (2.0, 6.5)
    yRange := some (0.0, 3.5)
    verticalLines := [sigma]
    horizontalLines := [1.0] }

end PairReport

end FluidAnalysis.HardSphere
