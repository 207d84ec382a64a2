import FluidAnalysis.Canonical
import FluidAnalysis.Report.Source

/-!
# Entropy runs of clusters

A run of a cluster keeps its saved times, its energies and one estimate of the entropy for each
saved time, in three files that share the beginning of their name.
-/

namespace FluidAnalysis.LennardJones

open Files Report Numeric

/-- The saved history of one run. -/
structure EntropyRun where
  name : String
  times : List Float
  energies : List Float
  /-- One row for each saved time, one column for each energy. -/
  entropy : Table Float

namespace EntropyRun

/-- Reads the files of a run. -/
def load (files : Tree) (base : Path) : Except Failure EntropyRun := do
  let times ← loadTable files (base ++ ".time") 1
  let energies ← loadTable files (base ++ ".energy") 1
  let entropy ← loadTable files (base ++ ".entropy") 1
  if times.values.length < entropy.rowCount then
    throw (.savedTimes base times.values.length entropy.rowCount)
  return ⟨base.fileName?.getD base, times.values, energies.values, entropy⟩

/-- The last estimate. -/
def finalEntropy (r : EntropyRun) : Except Failure (List Float) :=
  match r.entropy.lastRow? with
  | some row => .ok row
  | none => .error (.noEntropy r.name)

/-- The estimates from a time on, with their times. -/
def estimatesFrom (r : EntropyRun) (minTime : Float) :
    Except Failure (List (Float × List Float)) := do
  let estimates ← r.entropy.rows.zipIdx.mapM fun (entropy, row) => do
    return (← entryAt r.times row, entropy)
  return estimates.filter fun (time, _) => !decide (time < minTime)

/-- The heat capacity of an estimate. A failure names the run. -/
def heatCapacity (r : EntropyRun) (temperatures : List Float) (offset : Float)
    (entropy : List Float) : Except Failure (List Float) :=
  match Canonical.heatCapacity temperatures r.energies entropy offset with
  | .ok curve => .ok curve
  | .error failure => .error (.within s!"run '{r.name}'" failure)

end EntropyRun

/-! ## Errors of a curve -/

/-- Mean and largest deviation of a curve from the benchmark. -/
structure CurveError (α : Type) where
  mean : α
  max : α
deriving Repr

/-- The deviations of an estimate. -/
def deviations {α : Type} [Scalar α] (benchmark estimate : List α) : List α :=
  (benchmark.zip estimate).map fun (expected, value) => Scalar.abs (expected - value)

/-- The error of an estimate. The mean leaves out the first temperature, the lowest one. -/
def curveError {α : Type} [Scalar α] (benchmark estimate : List α) : CurveError α :=
  let errors := deviations benchmark estimate
  ⟨Numeric.mean (errors.drop 1), errors.foldl larger 0.0⟩

end FluidAnalysis.LennardJones
