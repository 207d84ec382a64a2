import FluidAnalysis.Report.Session
import FluidAnalysis.SoftSphere.EnergyDistribution
import FluidAnalysis.SoftSphere.StatePoint

/-!
# Sweep report

Pressure, energy distribution, diffusion and radial distribution of soft spheres over a grid of
state points, each as one long table and one figure.
-/

namespace FluidAnalysis.SoftSphere

open Files Report

/-! ## Plots -/

/-- What is shown of a sweep. -/
inductive Plot where
  | pressure
  | energyDistribution
  | diffusion
  | radial
deriving Repr, DecidableEq

namespace Plot

def all : List Plot := [.pressure, .energyDistribution, .diffusion, .radial]

/-- The name of a plot in settings and on the command line. -/
def name : Plot → String
  | .pressure => "pressure"
  | .energyDistribution => "energy-pdf"
  | .diffusion => "diffusion"
  | .radial => "radial"

def ofName? (text : String) : Option Plot :=
  all.find? fun plot => plot.name == text

/-- The end of the names of the data files. -/
def suffix : Plot → String
  | .pressure => "press"
  | .energyDistribution => "energy"
  | .diffusion => "dif"
  | .radial => "radial"

/-- The name of the results. -/
def stem (plot : Plot) : String :=
  "soft-" ++ plot.name

end Plot

/-! ## Data -/

/-- The pressure is the first value of its file. -/
def pressureOf (t : Table Float) : Except Failure Float :=
  match t.values with
  | value :: _ => .ok value
  | [] => .error .noPressure

/-- The history of a diffusion coefficient over the logarithm of the iterations, without its first
entry. -/
def diffusionOf (t : Table Float) : Except Failure (List (Float × Float)) := do
  let iterations ← t.column 0
  let coefficients ← t.column 1
  return ((iterations.zip coefficients).drop 1).map fun (i, d) => (Analytic.log10 i, d)

/-- Counts against the distance. -/
def radialOf (t : Table Float) : Except Failure (List (Float × Float)) := do
  let r ← t.column 0
  let counts ← t.column 1
  return r.zip counts

/-- Rows as columns. Without rows there are no columns. -/
def columnsOfRows (rows : List (List Float)) : List (List Float) :=
  let width := (rows.head?.map List.length).getD 0
  (List.range width).map fun j => rows.filterMap fun row => row[j]?

/-! ## The report -/

/-- The sweep analysis. -/
structure SweepReport where
  plots : List Plot := Plot.all
  grid : Grid := {}
deriving Repr

namespace SweepReport

/-- What one state point adds to a plot: rows of the table, and a curve. -/
structure Contribution where
  rows : List (List Float)
  points : List (Float × Float)

/-- The path of the data of a state point. -/
def dataPath (request : Request) (plot : Plot) (density temperature : Float) : Path :=
  request.dataPath s!"{stem density temperature}-{plot.suffix}.dat"

/-- The pressure at a state point. -/
def pressureAt (request : Request) (files : Tree) (density temperature : Float) :
    Except Failure Contribution := do
  let table ← loadTable files (dataPath request .pressure density temperature) 1
  let value ← pressureOf table
  return ⟨[[density, temperature, value]], [(temperature, Analytic.log10 value)]⟩

/-- The energy distribution at a state point. -/
def energiesAt (request : Request) (files : Tree) (density temperature : Float) :
    Except Failure Contribution := do
  let path := dataPath request .energyDistribution density temperature
  let table ← loadTable files path 1
  match EnergyDistribution.ofMoments table with
  | .error failure => throw (.within path failure)
  | .ok distribution =>
    return ⟨[[density, temperature, distribution.mean, distribution.sigma]], distribution.curve⟩

/-- A curve at a state point, every point of which is a row. -/
def curveAt (request : Request) (plot : Plot)
    (extract : Table Float → Except Failure (List (Float × Float))) (files : Tree)
    (density temperature : Float) : Except Failure Contribution := do
  let table ← loadTable files (dataPath request plot density temperature) 2
  let points ← extract table
  return ⟨points.map fun (x, y) => [density, temperature, x, y], points⟩

/-- What every state point adds, by density and then by temperature. -/
def sweep (a : SweepReport) (visit : Float → Float → Except Failure Contribution) :
    Except Failure (List (Float × List (Float × Contribution))) :=
  a.grid.density.values.mapM fun density => do
    let found ← a.grid.temperature.values.mapM fun temperature => do
      let contribution ← visit density temperature
      return (temperature, contribution)
    return (density, found)

/-- The rows of all state points. -/
def allRows (found : List (Float × List (Float × Contribution))) : List (List Float) :=
  found.flatMap fun (_, byTemperature) => byTemperature.flatMap fun (_, c) => c.rows

/-- One panel for all densities, with one point for each temperature. -/
def pressurePanel (found : List (Float × List (Float × Contribution))) : Figure.Panel Float where
  title := "Pressure"
  xLabel := "T"
  yLabel := "log10 p"
  series := found.zipIdx.map fun ((density, byTemperature), i) =>
    ⟨s!"n*={Decimal.label density}", byTemperature.flatMap fun (_, c) => c.points,
      ⟨Figure.cycleColour i, .line⟩⟩

/-- One panel for each density, with one curve for each temperature. -/
def densityPanels (title xLabel yLabel : String)
    (found : List (Float × List (Float × Contribution))) : List (Figure.Panel Float) :=
  found.map fun (density, byTemperature) => {
    title := s!"{title}n*={Decimal.label density}"
    xLabel := xLabel
    yLabel := yLabel
    series := byTemperature.zipIdx.map fun ((temperature, c), i) =>
      ⟨s!"T={Decimal.label temperature}", c.points, ⟨Figure.cycleColour i, .line⟩⟩ }

/-- Writes one plot. -/
def writePlot (a : SweepReport) (out : Session.Output) (plot : Plot) : Session Unit := do
  let write (visit : Tree → Float → Float → Except Failure Contribution) (header : String)
      (panels : List (Float × List (Float × Contribution)) → List (Figure.Panel Float)) :
      Session Unit := do
    let found ← Session.ask fun files => a.sweep (visit files)
    Session.columns out s!"{plot.stem}.dat" (columnsOfRows (allRows found))
      { header := some header }
    Session.panels out s!"{plot.stem}.svg" (panels found)
  match plot with
  | .pressure => write (pressureAt out.request) "n T p" fun found => [pressurePanel found]
  | .energyDistribution =>
    write (energiesAt out.request) "n T mean sigma"
      (densityPanels "Energy distribution at " "E" "P(E)")
  | .diffusion =>
    write (curveAt out.request .diffusion diffusionOf) "n T log10(iterations) D"
      (densityPanels "" "log10 iterations" "D")
  | .radial =>
    write (curveAt out.request .radial radialOf) "n T r count" (densityPanels "" "r" "count")

/-- Plots without later repetitions. -/
def distinctPlots (plots : List Plot) : List Plot :=
  plots.foldl (fun seen plot => if seen.contains plot then seen else seen ++ [plot]) []

/-- Writes the plots. -/
def execute (a : SweepReport) (out : Session.Output) : Session Unit := do
  Session.ask fun _ => out.request.expectKind .softSphere
  if a.grid.density.values.isEmpty || a.grid.temperature.values.isEmpty then
    throw .emptyStateGrid
  (distinctPlots a.plots).forM (a.writePlot out)

end SweepReport

end FluidAnalysis.SoftSphere
