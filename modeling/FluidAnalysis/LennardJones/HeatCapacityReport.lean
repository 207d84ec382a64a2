import FluidAnalysis.LennardJones.EntropyRun
import FluidAnalysis.Numeric.Grid
import FluidAnalysis.Report.Session

/-!
# Heat capacity report

The first run is the benchmark. Every run, the benchmark included, is scored against the final heat
capacity of the benchmark at each of its saved times.
-/

namespace FluidAnalysis.LennardJones

open Files Report Numeric

/-- The heat capacity analysis. -/
structure HeatCapacityReport where
  runs : List Path
  temperatures : List Float := closedGrid 0.01 0.06 0.0005
  atoms : Nat := 31
  minTime : Float := 1.0e7
  saveTime : Float := 1.0e12
deriving Repr

namespace HeatCapacityReport

/-- What the motion of the atoms adds to the heat capacity. -/
def kineticOffset (a : HeatCapacityReport) : Float :=
  1.5 * Float.ofNat a.atoms

/-- The heat capacity of an estimate of a run. -/
def curve (a : HeatCapacityReport) (run : EntropyRun) (entropy : List Float) :
    Except Failure (List Float) :=
  run.heatCapacity a.temperatures a.kineticOffset entropy

/-- Writes a heat capacity. -/
def writeCurve (a : HeatCapacityReport) (out : Session.Output) (name : String)
    (values : List Float) : Session Unit :=
  Session.columns out name [a.temperatures, values] { precision := 4, header := some "T CV" }

/-- Scores one estimate, and writes its heat capacity if it was saved at the chosen time. -/
def scoreEstimate (a : HeatCapacityReport) (out : Session.Output) (benchmark : List Float)
    (run : EntropyRun) (estimate : Float × List Float) : Session (Float × CurveError Float) := do
  let (time, entropy) := estimate
  let values ← Session.ask fun _ => a.curve run entropy
  if time == a.saveTime then a.writeCurve out s!"{run.name}-cv.txt" values
  return (time, curveError benchmark values)

/-- Scores one run and writes its errors. `position` is its place among the runs. -/
def scoreRun (a : HeatCapacityReport) (out : Session.Output) (benchmark : List Float)
    (run : EntropyRun) (position : Nat) : Session (Figure.Series Float) := do
  let estimates ← Session.ask fun _ => run.estimatesFrom a.minTime
  let scores ← estimates.mapM (a.scoreEstimate out benchmark run)
  let times := scores.map Prod.fst
  let means := scores.map fun score => score.2.mean
  Session.columns out s!"{run.name}-cv-error.txt"
    [times, means, scores.map fun score => score.2.max]
    { precision := 3, header := some "time mean max" }
  return .ofColumns run.name (times.map Analytic.log10) (means.map Analytic.log10)
    ⟨Figure.cycleColour position, .line⟩

/-- Writes the benchmark, the errors of all runs and the figure. -/
def execute (a : HeatCapacityReport) (out : Session.Output) : Session Unit := do
  Session.ask fun _ => out.request.expectKind .heatCapacity
  let load (base : Path) : Session EntropyRun :=
    Session.ask fun files => EntropyRun.load files (out.request.dataPath base)
  match a.runs with
  | [] => throw .noRuns
  | base :: others =>
    let benchmarkRun ← load base
    let final ← Session.ask fun _ => benchmarkRun.finalEntropy
    let benchmark ← Session.ask fun _ => a.curve benchmarkRun final
    a.writeCurve out "bench-cv.txt" benchmark
    let first ← a.scoreRun out benchmark benchmarkRun 0
    let rest ← others.zipIdx.mapM fun (other, i) => do
      let run ← load other
      a.scoreRun out benchmark run (i + 1)
    Session.panel out "cv-error.svg" {
      title := "Heat capacity error"
      xLabel := "log10 time"
      yLabel := "log10 CV error"
      series := first :: rest }

end HeatCapacityReport

end FluidAnalysis.LennardJones
