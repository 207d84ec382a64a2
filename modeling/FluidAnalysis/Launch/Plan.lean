import FluidAnalysis.Launch.Programs
import FluidAnalysis.Launch.Shell
import FluidAnalysis.Report.Session

/-!
# Launch plans

Jobs and the way to start them. A plan can be shown as shell lines or run; a job that cannot be
started ends the run, and what was started before goes on.
-/

namespace FluidAnalysis.Launch

open Files

structure Plan where
  scheduler : Scheduler := .direct
  jobs : List Job
deriving Repr

namespace Plan

def isEmpty (p : Plan) : Bool :=
  p.jobs.isEmpty

/-- One line for each job. -/
def shellLines (p : Plan) : List String :=
  p.jobs.map (shellLine p.scheduler)

/-- Creates an empty log, with the directory for it. -/
def createLog (files : Tree) (log : Path) : Except Failure Unit × Tree :=
  Report.store .logDirectory .unwritableLog files log ""

/-- Starts a command line. The log is created first, so it is there when the program is not. -/
def start (programs : Programs) (log : Path) (command : List String) (files : Tree) :
    Except Failure Unit × Tree :=
  match command with
  | [] => (.error .emptyCommand, files)
  | program :: arguments =>
    match createLog files log with
    | (.error failure, next) => (.error failure, next)
    | (.ok (), next) =>
      match programs.find next program with
      | .error cause => (.error (.notStarted program cause), next)
      | .ok run =>
        match next.write log (run arguments).toUTF8 with
        | .ok last => (.ok (), last)
        | .error cause => (.error (.unwritableLog log cause), next)

/-- Starts jobs in order; `number` is that of the next process. The answer has the numbers of all
processes. -/
def startAll (programs : Programs) (scheduler : Scheduler) (number : Nat) (files : Tree) :
    List Job → Except Failure (List Nat) × Tree
  | [] => (.ok [], files)
  | job :: rest =>
    match start programs job.log (scheduler.commandLine job) files with
    | (.error failure, next) => (.error failure, next)
    | (.ok (), next) =>
      match startAll programs scheduler (number + 1) next rest with
      | (.error failure, last) => (.error failure, last)
      | (.ok numbers, last) => (.ok (number :: numbers), last)

/-- Runs the plan. -/
def execute (p : Plan) (programs : Programs) (files : Tree) : Except Failure (List Nat) × Tree :=
  startAll programs p.scheduler 1 files p.jobs

end Plan

end FluidAnalysis.Launch
