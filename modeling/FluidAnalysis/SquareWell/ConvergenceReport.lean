import FluidAnalysis.Report.Session
import FluidAnalysis.SquareWell.Convergence

/-!
# Convergence report

Each method keeps its frames in a directory of their own. The report scores them against the
reference and writes two tables for each history.
-/

namespace FluidAnalysis.SquareWell

open Files Report

/-- The convergence analysis. Without methods, all that have a directory of frames are taken. -/
structure ConvergenceReport where
  energy : Int
  reference : Path
  fileBase : String
  methods : List String := []
  window : Option Nat := none
deriving Repr

namespace ConvergenceReport

/-- The end of the names of the directories with frames. -/
def movieEnding : String := "-movie"

/-- The directory with the frames of a method. -/
def movieDirectory (a : ConvergenceReport) (dataRoot : Path) (method : String) : Path :=
  dataRoot.join s!"{a.fileBase}-{method}{movieEnding}"

/-- The method in the name of a directory with frames. -/
def methodOf? (a : ConvergenceReport) (name : String) : Option String := do
  let rest ← Text.after? (a.fileBase ++ "-").toList name.toList
  let reversed ← Text.after? movieEnding.toList.reverse rest.reverse
  return String.ofList reversed.reverse

/-- The methods that are reported. -/
def methodsIn (a : ConvergenceReport) (dataRoot : Path) (files : Tree) :
    Except Failure (List String) := do
  if !a.methods.isEmpty then return distinct a.methods
  let names ← matchingNames files dataRoot s!"{a.fileBase}-*{movieEnding}"
  return (names.filter fun name => files.isDirectory (dataRoot.join name)).filterMap a.methodOf?

/-- Reads one frame. -/
def loadFrame (files : Tree) (path : Path) : Except Failure Frame := do
  let source ← loadSource files path 3
  Frame.ofSource source.text source.table

/-- The histories of one method, unless it has no frames. -/
def compareMethod (a : ConvergenceReport) (dataRoot : Path) (files : Tree) (reference : Reference)
    (method : String) : Except Failure (Option MethodHistory) := do
  let movie := a.movieDirectory dataRoot method
  if !files.isDirectory movie then return none
  let names ← matchingNames files movie "*lndos.dat"
  if names.isEmpty then return none
  let expected ← reference.importantPart
  let scores ← names.mapM fun name => do
    let frame ← loadFrame files (movie.join name)
    reference.score expected a.energy frame
  return some (.ofScores method a.window scores)

/-- Writes the two tables of a history. -/
def writeHistory (a : ConvergenceReport) (out : Session.Output) (directory : Path)
    (history : ErrorHistory Float) : Session Unit := do
  let format : Table.ColumnFormat := { precision := 4, separator := .tab }
  Session.columns out (directory.join s!"energy-{a.energy}.txt")
    [history.roundTrips, history.atEnergy]
    { format with header := some "round trips\tdoserror" }
  Session.columns out (directory.join "errors.txt")
    [history.iterations, history.inEntropy, history.maxError]
    { format with header := some "iterations\terrorinentropy\tmaxerror" }

/-- Where the tables of a method go. -/
def historyDirectory (a : ConvergenceReport) (name : String) : Path :=
  Path.join "comparison" s!"{a.fileBase}-{name}"

/-- Scores and writes one method. -/
def writeMethod (a : ConvergenceReport) (out : Session.Output) (reference : Reference)
    (method : String) : Session Unit := do
  let found ← Session.ask fun files =>
    a.compareMethod out.request.dataRoot files reference method
  match found with
  | none => return ()
  | some history =>
    a.writeHistory out (a.historyDirectory method) history.direct
    match history.fromTransitions with
    | none => return ()
    | some second => a.writeHistory out (a.historyDirectory (method ++ "-tm")) second

/-- Writes the histories of all methods. -/
def execute (a : ConvergenceReport) (out : Session.Output) : Session Unit := do
  Session.ask fun _ => out.request.expectKind .convergence
  let source ← Session.ask fun files => loadSource files (out.request.dataPath a.reference) 2
  let reference ← Session.ask fun _ => Reference.ofSource source.text source.table
  let methods ← Session.ask (a.methodsIn out.request.dataRoot)
  methods.forM (a.writeMethod out reference)

end ConvergenceReport

end FluidAnalysis.SquareWell
