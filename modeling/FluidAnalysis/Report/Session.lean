import FluidAnalysis.Figure.Svg
import FluidAnalysis.Report.Request
import FluidAnalysis.Report.Source
import FluidAnalysis.Table.Columns

/-!
# Sessions

An analysis runs as a session on a file tree: it reads tables, writes results under the output
directory of its request, and keeps the list of what it wrote. When it fails, what was written
before stays.
-/

namespace FluidAnalysis.Report

open Files

/-! ## Writing one file -/

/-- Makes the directory that is to hold a path. -/
def makeParent (noDirectory : Path → Cause → Failure) (files : Tree) (path : Path) :
    Except Failure Unit × Tree :=
  match path.parent? with
  | none => (.ok (), files)
  | some parent =>
    match files.makeDirectories parent with
    | (.ok (), next) => (.ok (), next)
    | (.error cause, next) => (.error (noDirectory parent cause), next)

/-- Stores a text after making the directory for it. `noDirectory` and `noFile` word the two
failures. -/
def store (noDirectory noFile : Path → Cause → Failure) (files : Tree) (path : Path)
    (content : String) : Except Failure Unit × Tree :=
  match makeParent noDirectory files path with
  | (.error failure, next) => (.error failure, next)
  | (.ok (), next) =>
    match next.write path content.toUTF8 with
    | .ok last => (.ok (), last)
    | .error cause => (.error (noFile path cause), next)

/-- What a result is. The two kinds differ in how a failure is worded. -/
inductive Medium where
  | text
  | figure
deriving Repr, DecidableEq

/-- Stores a result. -/
def Medium.store : Medium → Tree → Path → String → Except Failure Unit × Tree
  | .text => Report.store .outputDirectory .unwritableText
  | .figure => Report.store .figureDirectory .unwritableFigure

/-- Stores a text with normalised line ends. -/
def storeText (files : Tree) (path : Path) (content : String) : Except Failure Unit × Tree :=
  Medium.text.store files path (Text.normalize content)

/-- Stores columns of one length as a table. -/
def storeColumns (files : Tree) (path : Path) (columns : List (List Float))
    (format : Table.ColumnFormat) : Except Failure Unit × Tree :=
  match Table.renderColumns columns format with
  | .error failure => (.error failure, files)
  | .ok content => storeText files path content

/-- Stores stacked panels as one figure. -/
def storePanels (files : Tree) (path : Path) (size : Figure.Size)
    (panels : List (Figure.Panel Float)) : Except Failure Unit × Tree :=
  Medium.figure.store files path (Figure.Svg.render size panels)

/-! ## Sessions -/

/-- The files, the results noted so far relative to the output directory, and a log of what was
given to be stored, with the paths. -/
structure State where
  files : Tree
  written : List Path := []
  log : List (Path × String) := []

/-- A computation that reads and writes files and may fail. -/
abbrev Session := ExceptT Failure (StateM State)

namespace Session

/-- Where a session writes, and how large its panels are. -/
structure Output where
  request : Request
  size : Figure.Size

/-- A question to the files as they are now. -/
def ask {β : Type} (question : Tree → Except Failure β) : Session β := do
  match question (← get).files with
  | .ok answer => return answer
  | .error failure => throw failure

/-- A step that may change the files. -/
def act {β : Type} (action : Tree → Except Failure β × Tree) : Session β := do
  let state ← get
  let (outcome, files) := action state.files
  set { state with files := files }
  match outcome with
  | .ok answer => return answer
  | .error failure => throw failure

/-- Notes a result and gives its path. -/
def record (out : Output) (relative : Path) : Session Path := do
  modify fun state => { state with written := state.written ++ [relative] }
  return out.request.outputPath relative

/-- Gives a result to be stored. -/
def write (medium : Medium) (path : Path) (content : String) : Session Unit := do
  modify fun state => { state with log := state.log ++ [(path, content)] }
  act fun files => medium.store files path content

/-- Writes a text. -/
def text (out : Output) (relative : Path) (content : String) : Session Unit := do
  let path ← record out relative
  write .text path (Text.normalize content)

/-- Writes columns. -/
def columns (out : Output) (relative : Path) (columns : List (List Float))
    (format : Table.ColumnFormat) : Session Unit := do
  let path ← record out relative
  let content ← ask fun _ => Table.renderColumns columns format
  write .text path (Text.normalize content)

/-- Writes a figure of stacked panels. -/
def panels (out : Output) (relative : Path) (panels : List (Figure.Panel Float)) :
    Session Unit := do
  let path ← record out relative
  write .figure path (Figure.Svg.render out.size panels)

/-- Writes a figure of one panel. -/
def panel (out : Output) (relative : Path) (p : Figure.Panel Float) : Session Unit :=
  panels out relative [p]

/-- Reads a table of the request. -/
def load (out : Output) (relative : Path) (columns : Nat) : Session (Table Float) :=
  ask fun files => loadTable files (out.request.dataPath relative) columns

/-- Runs a session. The answer is the list of results in the order of writing. -/
def run (session : Session Unit) (files : Tree) : Except Failure (List Path) × Tree :=
  let (outcome, state) := (ExceptT.run session).run { files := files }
  match outcome with
  | .ok () => (.ok state.written, state.files)
  | .error failure => (.error failure, state.files)

end Session

end FluidAnalysis.Report
