import FluidAnalysis.Files.Path

/-!
# Jobs

A job is a program to start in the background, with a log that takes all it writes.
-/

namespace FluidAnalysis.Launch

open Files

structure Job where
  name : String
  program : Path
  arguments : List String
  log : Path
deriving Repr, DecidableEq

/-- How jobs are started: on this machine, or by a queue with a limit on memory in megabytes. -/
inductive Scheduler where
  | direct
  | srun (memory : Nat)
deriving Repr, DecidableEq

namespace Scheduler

/-- The words that stand before a job's own. -/
def leadingWords (s : Scheduler) (job : Job) : List String :=
  match s with
  | .direct => []
  | .srun memory => ["srun", s!"--mem={memory}", "-J", job.name]

/-- The program that is started for a job, and its arguments. -/
def commandLine (s : Scheduler) (job : Job) : List String :=
  s.leadingWords job ++ job.program :: job.arguments

end Scheduler

end FluidAnalysis.Launch
