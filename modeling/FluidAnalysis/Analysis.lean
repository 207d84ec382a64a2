import FluidAnalysis.HardSphere.ContactReport
import FluidAnalysis.HardSphere.PairReport
import FluidAnalysis.LennardJones.HeatCapacityReport
import FluidAnalysis.SoftSphere.SweepReport
import FluidAnalysis.SquareWell.CoexistenceReport
import FluidAnalysis.SquareWell.ConvergenceReport
import FluidAnalysis.SquareWell.FreeEnergyReport
import FluidAnalysis.SquareWell.HistogramReport
import FluidAnalysis.SquareWell.ScalingReport
import FluidAnalysis.SquareWell.ThermodynamicsReport

/-!
# Analyses

All analyses under one type.
-/

namespace FluidAnalysis

open Files Report

/-- An analysis with its parameters. -/
inductive Analysis where
  | contact (report : HardSphere.ContactReport)
  | pairDistribution (report : HardSphere.PairReport)
  | histogram (report : SquareWell.HistogramReport)
  | sizeScaling (report : SquareWell.ScalingReport)
  | convergence (report : SquareWell.ConvergenceReport)
  | heatCapacity (report : LennardJones.HeatCapacityReport)
  | thermodynamics (report : SquareWell.ThermodynamicsReport)
  | freeEnergy (report : SquareWell.FreeEnergyReport)
  | coexistence (report : SquareWell.CoexistenceReport)
  | softSphere (report : SoftSphere.SweepReport)
deriving Repr

namespace Analysis

/-- The kind of request that the analysis runs. -/
def kind : Analysis → Kind
  | contact _ => .contact
  | pairDistribution _ => .pairDistribution
  | histogram report => report.view.kind
  | sizeScaling _ => .sizeScaling
  | convergence _ => .convergence
  | heatCapacity _ => .heatCapacity
  | thermodynamics _ => .thermodynamics
  | freeEnergy _ => .freeEnergy
  | coexistence _ => .coexistence
  | softSphere _ => .softSphere

/-- The session of the analysis. -/
def execute : Analysis → Session.Output → Session Unit
  | contact report => report.execute
  | pairDistribution report => report.execute
  | histogram report => report.execute
  | sizeScaling report => report.execute
  | convergence report => report.execute
  | heatCapacity report => report.execute
  | thermodynamics report => report.execute
  | freeEnergy report => report.execute
  | coexistence report => report.execute
  | softSphere report => report.execute

/-- Runs the analysis on a file tree. The answer has the paths of its results below the output
directory, in the order of writing. -/
def run (a : Analysis) (out : Session.Output) (files : Tree) :
    Except Failure (List Path) × Tree :=
  Session.run (a.execute out) files

end Analysis

end FluidAnalysis
