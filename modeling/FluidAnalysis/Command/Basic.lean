import FluidAnalysis.HardSphere.ContactReport
import FluidAnalysis.Launch.Ladder
import FluidAnalysis.Launch.SoftSphereJob
import FluidAnalysis.LennardJones.HeatCapacityReport
import FluidAnalysis.SoftSphere.SweepReport
import FluidAnalysis.SquareWell.ConvergenceReport
import FluidAnalysis.SquareWell.HistogramReport
import FluidAnalysis.SquareWell.ScalingReport

/-!
# Commands

What a command line asks for, with its options as values. Some values are checked only when the
command runs: a number of particles may be zero here, and a list may have the wrong length.
-/

namespace FluidAnalysis.Command

open Files

/-- How jobs are launched: by which scheduler, and whether they are only shown. -/
structure LaunchMode where
  scheduler : Launch.Scheduler
  shown : Bool
deriving Repr

end FluidAnalysis.Command

namespace FluidAnalysis

open Files

inductive Command where
  | contact (geometry : HardSphere.Geometry)
  | pairDistribution (fileBase : String) (fillings parameters : List Float) (fitted : Bool)
  | histogram (report : SquareWell.HistogramReport)
  | sizeScaling (report : SquareWell.ScalingReport)
  | convergence (report : SquareWell.ConvergenceReport)
  | heatCapacity (report : LennardJones.HeatCapacityReport)
  | thermodynamics (system : SquareWell.System) (methods : List String) (threshold : Float)
  | freeEnergy (wellWidth : Float) (temperatures : List Float)
  | coexistence
  | softSphere (plots : List SoftSphere.Plot) (densities temperatures : List Float)
  | launchLadder (ladder : Launch.AbsoluteLadder) (mode : Command.LaunchMode)
  | launchJob (job : Launch.Job) (mode : Command.LaunchMode)
deriving Repr

/-- The options that every command has. -/
structure Command.Shared where
  settings : Option Path := none
  dataRoot : Option Path := none
  outputRoot : Option Path := none
deriving Repr

/-- Options nearer to the command's own win. -/
def Command.Shared.within (inner outer : Command.Shared) : Command.Shared :=
  { settings := inner.settings <|> outer.settings
    dataRoot := inner.dataRoot <|> outer.dataRoot
    outputRoot := inner.outputRoot <|> outer.outputRoot }

end FluidAnalysis
