import FluidAnalysis.Report.Session
import FluidAnalysis.SquareWell.ErrorTable
import FluidAnalysis.SquareWell.SizeScaling
import FluidAnalysis.SquareWell.System
import FluidAnalysis.Table.Header

/-!
# Scaling report

Finds the runs of each method at all system sizes, and writes how their cost grows. Error tables
that exist for the given sizes are gathered beside them.
-/

namespace FluidAnalysis.SquareWell

open Files Report

/-- The scaling analysis. -/
structure ScalingReport where
  wellWidth : Float
  fillingFraction : Float
  sizes : List Nat
  methods : List String
deriving Repr

namespace ScalingReport

/-- The system in file names. -/
def tag (a : ScalingReport) : String :=
  let percent := fun x => Decimal.fixedWidth .zero 2 0 (x * 100.0)
  s!"ww{percent a.wellWidth}-ff{percent a.fillingFraction}"

def system (a : ScalingReport) (particles : Nat) : System :=
  ⟨a.wellWidth, a.fillingFraction, particles⟩

/-- The pattern of the weight files of a method. -/
def weightPattern (a : ScalingReport) (method : String) : String :=
  let fluid := s!"ww{System.parameter a.wellWidth}-ff{System.parameter a.fillingFraction}"
  s!"periodic-{fluid}-N*-{method}-lnw.dat"

/-- The name of the weight file of a method at one size. -/
def weightFile (a : ScalingReport) (method : String) (particles : Nat) : String :=
  s!"{(a.system particles).stem method}-lnw.dat"

/-- The size of the run that a weight file of the method belongs to. -/
def sizeOf? (a : ScalingReport) (method name : String) : Option Nat :=
  (nameCount? name).filter fun particles => name == a.weightFile method particles

/-- The sizes at which a method has run, from the smallest to the largest. -/
def findSizes (a : ScalingReport) (request : Request) (files : Tree) (method : String) :
    Except Failure (List Nat) := do
  let names ← matchingNames files request.dataRoot (a.weightPattern method)
  return (names.filterMap (a.sizeOf? method)).mergeSort

/-- The cost of a method at one size. -/
def point (a : ScalingReport) (request : Request) (files : Tree) (method : String)
    (particles : Nat) : Except Failure ScalingPoint := do
  let stem := (a.system particles).stem method
  let weightPath := request.dataPath (a.weightFile method particles)
  let source ← loadSource files weightPath 2
  match Table.headerInteger? source.text "iterations" with
  | none => throw (.noScalingIterations weightPath)
  | some iterations =>
    let energies ← loadTable files (request.dataPath s!"{stem}-E.dat") 2
    let samples ← loadTable files (request.dataPath s!"{stem}-ps.dat") 2
    let visited ← energies.column 0
    let sampled ←
      match samples.lastRow? with
      | some row => entryAt row 1
      | none => pure (0.0 / 0.0)
    return ⟨particles, iterations, Numeric.maximum visited, sampled⟩

/-- The costs of a method at all sizes at which it has run. -/
def discover (a : ScalingReport) (request : Request) (files : Tree) (method : String) :
    Except Failure MethodScaling := do
  let sizes ← a.findSizes request files method
  let points ← sizes.mapM (a.point request files method)
  return ⟨method, points⟩

/-- The error table of one size, unless it is missing. -/
def errorTable (a : ScalingReport) (request : Request) (files : Tree) (particles : Nat) :
    Except Failure (Option (Nat × ErrorTable)) := do
  let path := request.dataPath s!"error-table-{a.tag}-{particles}.dat"
  if files.isFile path then
    match files.readText path with
    | .error cause => throw (.unreadableTable path cause)
    | .ok source =>
      let table ← ErrorTable.parse source
      return some (particles, table)
  else return none

/-- The error tables that exist. -/
def errorTables (a : ScalingReport) (request : Request) (files : Tree) :
    Except Failure (List (Nat × ErrorTable)) := do
  let found ← a.sizes.mapM (a.errorTable request files)
  return found.filterMap id

/-- A figure of one cost of every method. -/
def costPanel (title yLabel : String) (methods : List MethodScaling)
    (value : ScalingPoint → Float) : Figure.Panel Float where
  title := title
  xLabel := "N"
  yLabel := yLabel
  series := methods.map fun scaling =>
    let (sizes, costs) := scaling.curve value
    .ofColumns (Figure.legendLabel scaling.method) sizes costs
      ⟨Figure.methodColour scaling.method, .line⟩

/-- A figure of one error of every method. -/
def errorPanel (title yLabel : String) (errors : ErrorScaling) (value : ErrorRow → Float) :
    Figure.Panel Float where
  title := title
  xLabel := "N"
  yLabel := yLabel
  series := errors.methods.map fun method =>
    ⟨Figure.legendLabel method, errors.series method value, .ofMethod method⟩

/-- Writes the gathered errors. -/
def writeErrors (out : Session.Output) (subtitle : String) (errors : ErrorScaling) :
    Session Unit := do
  Session.text out "error-scaling.dat" errors.render
  let limit :=
    match errors.minTemperature with
    | some t => s!", T_min={Decimal.plain t}"
    | none => ""
  let title := s!"Maximum error with {subtitle}{limit}"
  Session.panel out "u-errors.svg" (errorPanel title "dU/N" errors (·.internalEnergy))
  Session.panel out "cv-errors.svg" (errorPanel title "dCv/N" errors (·.heatCapacity))
  Session.panel out "s-errors.svg" (errorPanel title "dS/Nk" errors (·.entropy))

/-- Writes the table and the figures. -/
def execute (a : ScalingReport) (out : Session.Output) : Session Unit := do
  Session.ask fun _ => out.request.expectKind .sizeScaling
  if a.methods.isEmpty then throw (.noMethods .sizeScaling)
  let methods ← Session.ask fun files => (distinct a.methods).mapM (a.discover out.request files)
  Session.text out s!"scaling-table-{a.tag}.tex" (latexTable methods a.sizes)
  let subtitle := System.describeFluid a.wellWidth a.fillingFraction
  Session.panel out "scaling-iterations.svg"
    (costPanel s!"Scaling for {subtitle}" "log10 initialization iterations" methods
      fun point => Analytic.log10 (Float.ofInt point.iterations))
  Session.panel out "scaling-emin.svg"
    (costPanel s!"Scaling for {subtitle}" "Emin" methods (·.minEnergy))
  let tables ← Session.ask (a.errorTables out.request)
  if !tables.isEmpty then writeErrors out subtitle (.collect tables)

end ScalingReport

end FluidAnalysis.SquareWell
