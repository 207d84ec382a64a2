import FluidAnalysis.Decimal.Shortest
import FluidAnalysis.Files.Cause
import FluidAnalysis.Numeric.LeastSquares
import FluidAnalysis.Report.Kind

/-!
# Failures

Every way in which an analysis, a launch or a command can fail, as a cause. What is shown of a
failure is its `Diagnostic`: a category, which fixes the exit status, a stable dotted code that
scripts can match on, and a message.
-/

namespace FluidAnalysis

/-! ## Diagnostics -/

/-- Who has to act on a failure. -/
inductive Category where
  | success
  | input
  | files
  | computation
  | internal
deriving Repr, DecidableEq

namespace Category

def all : List Category := [.success, .input, .files, .computation, .internal]

def exitCode : Category → Nat
  | .success => 0
  | .input => 2
  | .files => 3
  | .computation => 4
  | .internal => 5

def name : Category → String
  | .success => "Success"
  | .input => "InputValidationError"
  | .files => "IoSystemError"
  | .computation => "ComputationError"
  | .internal => "InternalError"

/-- The short class that log scanners look for. -/
def severityClass : Category → String
  | .success => "SUCCESS"
  | .input => "INPUT_FATAL"
  | .files => "IO_FATAL"
  | .computation => "RUN_FATAL"
  | .internal => "SYS_FATAL"

def isFatal : Category → Bool
  | .success => false
  | _ => true

end Category

/-- What is shown of a failure. -/
structure Diagnostic where
  category : Category
  code : String
  message : String
deriving Repr, DecidableEq

namespace Diagnostic

/-- The line on standard error. -/
def line (d : Diagnostic) : String :=
  let severity := if d.category.isFatal then "ERROR" else "INFO"
  s!"{severity}: [{d.code}] {d.message}"

/-- The closing line of a fatal failure. -/
def fatalLine? (d : Diagnostic) : Option String :=
  if d.category.isFatal then some s!"FATAL EXIT CODE: {d.category.exitCode}" else none

/-- The diagnostic in one sentence. -/
def display (d : Diagnostic) : String :=
  s!"{d.category.name} [{d.code}] {d.message}"

end Diagnostic

/-! ## Causes -/

/-- The analyses that need a list of methods. -/
inductive MethodUser where
  | histogram
  | sizeScaling
  | thermodynamics
deriving Repr, DecidableEq

/-- Why something failed. -/
inductive Failure where
  /- Tables. -/
  | notANumber (line : Nat) (token : String)
  | raggedRow (line expected found : Nat)
  | noSuchColumn (column columns : Nat)
  | tooFewColumns (context : String) (needed columns : Nat)
  | noDataRows (context : String)
  | rowWidth (width columns : Nat)
  | columnLengths (first other : Nat)
  | outOfRange (position length : Nat)
  /- Files. -/
  | unreadableTable (path : String) (cause : Files.Cause)
  | outputDirectory (path : String) (cause : Files.Cause)
  | figureDirectory (path : String) (cause : Files.Cause)
  | unwritableText (path : String) (cause : Files.Cause)
  | unwritableFigure (path : String) (cause : Files.Cause)
  | unlistable (path : String) (cause : Files.Cause)
  | badPattern (pattern reason : String)
  /- Requests. -/
  | wrongKind (expected actual : Report.Kind) (label : String)
  | noMethods (user : MethodUser)
  /- Hard spheres. -/
  | contactGrid (context : String)
  | cavityRows
  | noPairData (fileBase root : String)
  | fit (fault : Numeric.FitFault)
  /- Canonical averages. -/
  | levelCounts (energies entropies : Nat)
  | noLevels
  | noTemperatures
  | emptyTemperatureGrid
  | noVisitedEnergies (stem : String)
  /- Square wells. -/
  | noWeightRow (energy : Float) (rows : Nat)
  | noSampleIterations
  | noScalingIterations (path : String)
  | errorTableNumber (line column : Nat)
  | missingHeader (key : String)
  | absentEnergy (state : Int)
  | energyOrder (lowest first : Int)
  | sliceLengths (run reference : Nat)
  | energyOffset (offset count : Nat)
  | noFrameIterations
  | noFreeEnergyTemperatures
  /- Clusters. -/
  | savedTimes (base : String) (times rows : Nat)
  | noEntropy (run : String)
  | noRuns
  /- Soft spheres. -/
  | emptyStateGrid
  | noPressure
  | energyMoments (found : Nat)
  | energyVariance (variance : Float)
  /- Launches. -/
  | emptyCommand
  | logDirectory (path : String) (cause : Files.Cause)
  | unwritableLog (path : String) (cause : Files.Cause)
  | notStarted (program : String) (cause : Files.Cause)
  /- The command line. -/
  | usage (message : String)
  | unreadableSettings (path : String) (cause : Files.Cause)
  | badSettings (path reason : String)
  /- A failure and the thing it happened to. -/
  | within (context : String) (cause : Failure)
deriving Repr

namespace Failure

private def inputError (code message : String) : Diagnostic := ⟨.input, "INPUT." ++ code, message⟩

private def fileError (code message : String) : Diagnostic := ⟨.files, "IO." ++ code, message⟩

private def runError (code message : String) : Diagnostic := ⟨.computation, "RUN." ++ code, message⟩

private def internalError (code message : String) : Diagnostic :=
  ⟨.internal, "INTERNAL." ++ code, message⟩

/-- Category, code and wording of every failure. -/
def diagnostic : Failure → Diagnostic
  | notANumber line token => inputError "TABLE_PARSE" s!"line {line}: '{token}' is not a number"
  | raggedRow line expected found =>
    inputError "TABLE_RAGGED" s!"line {line}: expected {expected} columns but found {found}"
  | noSuchColumn column columns =>
    inputError "TABLE_COLUMNS" s!"column {column} requested from a table with {columns} columns"
  | tooFewColumns context needed columns =>
    inputError "TABLE_COLUMNS" s!"{context} needs at least {needed} columns but has {columns}"
  | noDataRows context => inputError "TABLE_EMPTY" s!"{context} contains no data rows"
  | rowWidth width columns =>
    internalError "TABLE_ROW" s!"row of {width} values cannot extend a {columns}-column table"
  | columnLengths first other =>
    internalError "COLUMN_LENGTH"
      s!"cannot write columns of different lengths ({first} and {other})"
  | outOfRange position length =>
    internalError "OUT_OF_RANGE" s!"position {position} lies outside a list of {length} values"
  | unreadableTable path cause =>
    fileError "TABLE_READ" s!"failed to read table '{path}': {cause.message}"
  | outputDirectory path cause =>
    fileError "OUTPUT_DIRECTORY" s!"failed to create output directory '{path}': {cause.message}"
  | figureDirectory path cause =>
    fileError "OUTPUT_DIRECTORY" s!"failed to create figure directory '{path}': {cause.message}"
  | unwritableText path cause =>
    fileError "ARTIFACT_WRITE" s!"failed to write '{path}': {cause.message}"
  | unwritableFigure path cause =>
    fileError "FIGURE_WRITE" s!"failed to render figure '{path}': {cause.message}"
  | unlistable path cause =>
    fileError "DATA_DIRECTORY" s!"failed to list '{path}': {cause.message}"
  | badPattern pattern reason =>
    internalError "GLOB_PATTERN" s!"invalid discovery pattern '{pattern}': {reason}"
  | wrongKind expected actual label =>
    inputError (expected.tag ++ "_KIND")
      s!"{expected.tag} analysis cannot run a {actual.tag} request ('{label}')"
  | noMethods user =>
    let code :=
      match user with
      | .histogram => "HISTOGRAM_METHODS"
      | .sizeScaling => "SCALING_METHODS"
      | .thermodynamics => "THERMO_METHODS"
    inputError code "at least one method is required"
  | contactGrid context =>
    inputError "CONTACT_GRID" s!"{context} needs at least three increasing positions"
  | cavityRows => inputError "TABLE_EMPTY" "outer-sphere DFT table has no rows"
  | noPairData fileBase root =>
    fileError "GHS_NO_DATA" s!"no {fileBase}-*.dat tables found under '{root}'"
  | fit fault =>
    match fault with
    | .noParameters | .noResiduals => inputError "FIT_SHAPE" fault.message
    | .notFiniteAtStart => runError "FIT_START" fault.message
    | .residualCount _ _ => runError "FIT_RESIDUALS" fault.message
    | .unsettled => runError "FIT_DAMPING" fault.message
  | levelCounts energies entropies =>
    inputError "THERMO_LENGTH" s!"{energies} energies but {entropies} entropy values"
  | noLevels => inputError "THERMO_LENGTH" "no energy levels to average over"
  | noTemperatures => inputError "THERMO_TEMPERATURES" "temperature grid is empty"
  | emptyTemperatureGrid => inputError "THERMO_TEMPERATURES" "the temperature grid is empty"
  | noVisitedEnergies stem => inputError "THERMO_EMPTY" s!"'{stem}-E.dat' has no visited energies"
  | noWeightRow energy rows =>
    inputError "DOS_WEIGHT_INDEX"
      s!"energy {Decimal.plain energy} has no row in a weight table of {rows} rows"
  | noSampleIterations =>
    inputError "SAMPLE_ITERATIONS" "sample table has no 'iterations:' entry"
  | noScalingIterations path =>
    inputError "SCALING_ITERATIONS" s!"'{path}' has no '# iterations:' header"
  | errorTableNumber line column =>
    inputError "ERROR_TABLE_PARSE" s!"line {line}: expected a number in column {column}"
  | missingHeader key => inputError "COMPARISON_HEADER" s!"missing '# {key}:' header"
  | absentEnergy state =>
    inputError "COMPARISON_ENERGY" s!"energy {state} is not present in the table"
  | energyOrder lowest first =>
    runError "COMPARISON_SLICE" s!"energy {lowest} precedes {first} in the table"
  | sliceLengths run reference =>
    runError "COMPARISON_SLICE"
      s!"run covers {run} important energies but the reference covers {reference}"
  | energyOffset offset count =>
    inputError "COMPARISON_ENERGY"
      s!"energy offset {offset} lies outside the {count} important energies"
  | noFrameIterations => inputError "COMPARISON_ITERATIONS" "missing '# iterations:' header"
  | noFreeEnergyTemperatures =>
    inputError "FREE_ENERGY_TEMPERATURES" "no temperatures requested"
  | savedTimes base times rows =>
    inputError "LJ_TIME_ROWS" s!"{base}: {times} saved times for {rows} entropy rows"
  | noEntropy run => inputError "TABLE_EMPTY" s!"run '{run}' saved no entropy"
  | noRuns => inputError "HEAT_CAPACITY_RUNS" "at least one run (the benchmark) is required"
  | emptyStateGrid => inputError "SOFT_GRID" "the density or temperature grid is empty"
  | noPressure => inputError "SOFT_PRESSURE" "pressure file holds no value"
  | energyMoments found =>
    inputError "SOFT_ENERGY" s!"energy file needs <E> and <E^2>, found {found} values"
  | energyVariance variance =>
    runError "SOFT_VARIANCE" s!"energy variance {Decimal.plain variance} is negative"
  | emptyCommand => internalError "LAUNCH_EMPTY" "cannot launch an empty command line"
  | logDirectory path cause =>
    fileError "LAUNCH_DIRECTORY" s!"failed to create '{path}': {cause.message}"
  | unwritableLog path cause => fileError "LAUNCH_LOG" s!"failed to open '{path}': {cause.message}"
  | notStarted program cause =>
    fileError "LAUNCH_SPAWN" s!"failed to start '{program}': {cause.message}"
  | usage message => inputError "CLI_USAGE" message
  | unreadableSettings path cause =>
    fileError "CLI" s!"failed to read config '{path}': {cause.message}"
  | badSettings path reason => fileError "CLI" s!"failed to parse config '{path}': {reason}"
  | within context cause =>
    let inner := cause.diagnostic
    { inner with message := s!"{context}: {inner.message}" }

def category (f : Failure) : Category := f.diagnostic.category

def code (f : Failure) : String := f.diagnostic.code

def message (f : Failure) : String := f.diagnostic.message

end Failure

end FluidAnalysis
