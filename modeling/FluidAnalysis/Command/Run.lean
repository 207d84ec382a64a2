import FluidAnalysis.Analysis
import FluidAnalysis.Command.Menu
import FluidAnalysis.Launch.Plan
import FluidAnalysis.Settings.Stored

/-!
# Running a command

A command line runs on a file tree. Its settings come from the options, from a settings file and
from what is usual, in this order. What is printed are the paths of the results, or a line for
each job; a command that fails prints nothing.
-/

namespace FluidAnalysis.Command

open Files HardSphere Launch Report Settings SquareWell

/-! ## Settings -/

/-- The settings file that is read when there is one. -/
def settingsFile : Path := "fluidpost.json"

/-- Reads a settings file. -/
def readSettings (files : Tree) (path : Path) : Except Failure Stored :=
  match files.readText path with
  | .error cause => .error (.unreadableSettings path cause)
  | .ok text =>
    match (Value.read? text).bind stored? with
    | some stored => .ok stored
    | none => .error (.badSettings path "not a settings object")

/-- A settings file that is named must be there; the usual one need not. -/
def loadSettings (files : Tree) : Option Path → Except Failure Stored
  | some path => readSettings files path
  | none => if files.isFile settingsFile then readSettings files settingsFile else .ok {}

/-- What every command is given. -/
structure Context where
  dataRoot : Path
  outputRoot : Path
  temperatures : Option TemperatureRange
  size : Figure.Size
deriving Repr

def Context.resolve (shared : Shared) (stored : Stored) : Context :=
  { dataRoot := (shared.dataRoot <|> stored.dataRoot).getD "."
    outputRoot := (shared.outputRoot <|> stored.outputRoot).getD "figs"
    temperatures := stored.temperatures
    size := stored.figure.getD {} }

/-! ## Checks -/

/-- An option that counts things must not be zero. -/
def requirePositive (flag : String) (value : Nat) : Except Failure Unit :=
  if value == 0 then
    .error (.usage s!"Invalid value '0' for '{flag}'; expected a positive integer.")
  else .ok ()

/-- The parameters of a shape: none for the usual ones, or all of them. -/
def shapeOf (parameters : List Float) : Except Failure (Shape Float) :=
  if parameters.isEmpty then .ok .standard
  else if parameters.length == Shape.count then .ok (.ofList parameters)
  else
    .error (.usage s!"Expected {Shape.count} values for '--parameters', got {parameters.length}.")

/-- A range: nothing for the usual one, or its three numbers. -/
def rangeOf (flag : String) (usual : SoftSphere.Range) :
    List Float → Except Failure SoftSphere.Range
  | [] => .ok usual
  | [min, max, step] => .ok ⟨min, max, step⟩
  | values =>
    .error (.usage s!"Expected 'min,max,step' for '{flag}', got {values.length} values.")

/-! ## Actions -/

/-- What a command does. -/
inductive Action where
  | report (analysis : Analysis)
  | launch (plan : Plan) (shown : Bool)
deriving Repr

/-- A list, or the usual one in place of an empty list. -/
def orUsual {β : Type} (usual given : List β) : List β :=
  if given.isEmpty then usual else given

/-- What a command does in a context. -/
def action (context : Context) (files : Tree) : Command → Except Failure Action
  | contact geometry => .ok (.report (.contact ⟨geometry⟩))
  | pairDistribution fileBase fillings parameters fitted => do
    let usual : PairReport := {}
    let shape ← shapeOf parameters
    return .report (.pairDistribution ⟨fileBase, orUsual usual.fillings fillings, shape, fitted⟩)
  | histogram report => do
    requirePositive "--particles" report.system.particles
    return .report (.histogram report)
  | sizeScaling report => .ok (.report (.sizeScaling report))
  | convergence report => .ok (.report (.convergence report))
  | heatCapacity report => do
    requirePositive "--atoms" report.atoms
    return .report (.heatCapacity report)
  | thermodynamics system methods threshold => do
    requirePositive "--particles" system.particles
    let usual : ThermodynamicsReport :=
      { system := system, methods := methods, threshold := threshold }
    match context.temperatures with
    | some range => return .report (.thermodynamics { usual with temperatures := range.values })
    | none => return .report (.thermodynamics usual)
  | freeEnergy wellWidth temperatures =>
    let usual : FreeEnergyReport := { wellWidth := wellWidth }
    .ok (.report (.freeEnergy
      { usual with temperatures := orUsual usual.temperatures temperatures }))
  | coexistence => .ok (.report (.coexistence {}))
  | softSphere plots densities temperatures => do
    let usual : SoftSphere.SweepReport := {}
    let density ← rangeOf "--densities" usual.grid.density densities
    let temperature ← rangeOf "--temperatures" usual.grid.temperature temperatures
    return .report (.softSphere ⟨orUsual usual.plots plots, ⟨density, temperature⟩⟩)
  | launchLadder ladder mode =>
    .ok (.launch ⟨mode.scheduler, ladder.jobs files.isFile context.dataRoot⟩ mode.shown)
  | launchJob job mode => .ok (.launch ⟨mode.scheduler, [job]⟩ mode.shown)

/-- The name of an analysis in its request. -/
def requestLabel : Analysis → String
  | .contact _ => "contact"
  | .pairDistribution _ => "ghs"
  | .histogram report =>
    match report.view with
    | .energies => "histogram"
    | .densities _ => "dos"
    | .sampleRates => "samples"
  | .sizeScaling _ => "scaling"
  | .convergence _ => "compare"
  | .heatCapacity _ => "lj-heat-capacity"
  | .thermodynamics _ => "thermo"
  | .freeEnergy _ => "free-energy"
  | .coexistence _ => "coexistence"
  | .softSphere _ => "soft"

/-- The line of a job that was started. -/
def jobLine (job : Job) (number : Nat) : String :=
  s!"{number} {job.name} {job.log}"

/-- Does what a command asks for. The answer has the printed lines. -/
def Action.perform (context : Context) (programs : Programs) (files : Tree) :
    Action → Except Failure (List String) × Tree
  | report analysis =>
    let request : Request :=
      ⟨requestLabel analysis, analysis.kind, context.dataRoot, context.outputRoot⟩
    let (results, after) := analysis.run ⟨request, context.size⟩ files
    (results.map (·.map request.outputPath), after)
  | launch plan true => (.ok plan.shellLines, files)
  | launch plan false =>
    let (numbers, after) := plan.execute programs files
    (numbers.map (List.zipWith jobLine plan.jobs), after)

/-! ## Command lines -/

/-- The answer to a question about the program. -/
def noticeLines : Notice → List String
  | .version => ["fluidpost 0.1.0"]
  | .help =>
    ["Usage: fluidpost [OPTIONS] <COMMAND>", "", "Commands:"] ++ menu.map ("  " ++ ·.1)

/-- Finds out what to do. -/
def prepare (files : Tree) (shared : Shared) (command : Command) :
    Except Failure (Context × Action) := do
  let context := Context.resolve shared (← loadSettings files shared.settings)
  return (context, ← action context files command)

/-- Runs a command line on a file tree. The answer has the printed lines, and the tree after it. -/
def run (programs : Programs) (words : List String) (files : Tree) :
    Except Failure (List String) × Tree :=
  match read words with
  | .error (.notice notice) => (.ok (noticeLines notice), files)
  | .error (.fault fault) => (.error (.usage fault.message), files)
  | .ok (shared, command) =>
    match prepare files shared command with
    | .error failure => (.error failure, files)
    | .ok (context, action) => action.perform context programs files

end FluidAnalysis.Command
