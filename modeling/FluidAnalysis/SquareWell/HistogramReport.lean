import FluidAnalysis.Report.Session
import FluidAnalysis.SquareWell.DensityOfStates
import FluidAnalysis.SquareWell.SampleRate

/-!
# Histogram report

Three views of the flat-histogram runs of one system, a table per method and figures over all of
them. A method that is listed again adds nothing.
-/

namespace FluidAnalysis.SquareWell

open Files Report

/-- What is shown of the runs. The densities of states are kept apart by the seed of the run. -/
inductive HistogramView where
  | energies
  | densities (seed : Nat)
  | sampleRates
deriving Repr, DecidableEq

def HistogramView.kind : HistogramView → Kind
  | .energies => .energyHistogram
  | .densities _ => .densityOfStates
  | .sampleRates => .sampleRate

/-- The histogram analysis. -/
structure HistogramReport where
  view : HistogramView
  system : System
  methods : List String
deriving Repr

namespace HistogramReport

/-- The file of a method with one kind of data. -/
def dataFile (a : HistogramReport) (method suffix : String) : Path :=
  let name := s!"{a.system.stem method}-{suffix}.dat"
  match a.view with
  | .densities seed => Path.join s!"s{Decimal.paddedNat 3 seed}" name
  | _ => name

/-- A series in the style of a method. -/
def methodSeries (method : String) (x y : List Float) : Figure.Series Float :=
  .ofColumns (Figure.legendLabel method) x y (.ofMethod method)

/-- Writes the histogram of one method. -/
def writeEnergies (a : HistogramReport) (out : Session.Output) (method : String) :
    Session (Figure.Series Float) := do
  let table ← Session.load out (a.dataFile method "E") 2
  let stored ← Session.ask fun _ => table.column 0
  let counts ← Session.ask fun _ => table.column 1
  let energy := energyPerParticle a.system.particles stored
  Session.columns out s!"energy-histogram-{method}.dat" [energy, counts]
    { header := some "E/N count" }
  return methodSeries method energy (counts.map Analytic.log10)

/-- Writes the density of states of one method. -/
def writeDensities (a : HistogramReport) (out : Session.Output) (method : String) :
    Session (String × DensityCurves Float) := do
  let histogram ← Session.load out (a.dataFile method "E") 2
  let weights ← Session.load out (a.dataFile method "lnw") 2
  let found ← Session.ask fun _ => levels histogram weights
  let curves := DensityCurves.ofLevels a.system.particles found
  Session.columns out s!"dos-{method}.dat"
    [curves.energyPerParticle, curves.logDos, curves.logInverseWeight]
    { header := some "E/N log10(DoS) log10(1/w)" }
  return (method, curves)

/-- Writes the sample rate of one method, unless it has no samples. -/
def writeSampleRate (a : HistogramReport) (out : Session.Output) (method : String) :
    Session (Option (Figure.Series Float)) := do
  let path := out.request.dataPath (a.dataFile method "s")
  let source ← Session.ask fun files => loadSource files path 2
  let rate ← Session.ask fun _ =>
    SampleRate.ofSource a.system.particles source.text source.table
  if rate.hasSamples then
    Session.columns out s!"sample-rate-{method}.dat"
      [rate.energyPerParticle, rate.iterationsPerSample]
      { header := some s!"iterations: {Decimal.plain rate.iterations}\nE/N iterations/sample" }
    return some (methodSeries method rate.energyPerParticle
      (rate.iterationsPerSample.map Analytic.log10))
  else return none

/-- The lower end of the axis that the densities of states share. -/
def sharedFloor (curves : List (String × DensityCurves Float)) : Float :=
  let lowest := (curves.map fun curve => curve.2.lowest).foldl Numeric.smaller 0.0
  if lowest < 0.0 then lowest else -1.0

/-- A figure of one curve of every method. -/
def densityPanel (title yLabel : String) (pick : DensityCurves Float → List Float)
    (curves : List (String × DensityCurves Float)) : Figure.Panel Float where
  title := title
  xLabel := "E/N"
  yLabel := yLabel
  series := curves.map fun (method, curve) =>
    methodSeries method curve.energyPerParticle (pick curve)
  yRange := some (sharedFloor curves, 0.0)

/-- Writes the tables and figures of the view. -/
def execute (a : HistogramReport) (out : Session.Output) : Session Unit := do
  Session.ask fun _ => out.request.expectKind a.view.kind
  if a.methods.isEmpty then throw (.noMethods .histogram)
  let methods := distinct a.methods
  match a.view with
  | .energies =>
    let series ← methods.mapM (a.writeEnergies out)
    Session.panel out "energy-histogram.svg" {
      title := s!"Energy histogram for {a.system.describe}"
      xLabel := "E/N"
      yLabel := "log10 D"
      series := series }
  | .densities _ =>
    let curves ← methods.mapM (a.writeDensities out)
    Session.panel out "dos.svg"
      (densityPanel s!"Density of states for {a.system.describe}" "log10 DoS" (·.logDos) curves)
    Session.panel out "weights.svg"
      (densityPanel s!"Weighting functions for {a.system.describe}" "log10 1/w"
        (·.logInverseWeight) curves)
  | .sampleRates =>
    let series ← methods.mapM (a.writeSampleRate out)
    Session.panel out "sample-rate.svg" {
      title := s!"Iterations per sample for {a.system.describe}"
      xLabel := "U/N"
      yLabel := "log10 iterations per sample"
      series := series.filterMap id }

end HistogramReport

end FluidAnalysis.SquareWell
