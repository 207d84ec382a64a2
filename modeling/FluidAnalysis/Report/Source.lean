import FluidAnalysis.Files.Pattern
import FluidAnalysis.Files.Tree
import FluidAnalysis.Table.Reader

/-!
# Data on disk

Reading tables from a file tree, and finding files by the pattern of their names.
-/

namespace FluidAnalysis.Report

open Files

/-- A table with the text it was read from, which holds its header. -/
structure Source where
  text : String
  table : Table Float

/-- Reads a table. A fault in the text is reported with the path. -/
def readSource (files : Tree) (path : Path) : Except Failure Source :=
  match files.readText path with
  | .error cause => .error (.unreadableTable path cause)
  | .ok text =>
    match Table.parse text with
    | .error fault => .error (.within path fault)
    | .ok table => .ok ⟨text, table⟩

/-- Reads a table that needs a number of columns. -/
def loadSource (files : Tree) (path : Path) (columns : Nat) : Except Failure Source := do
  let source ← readSource files path
  source.table.requireColumns columns path
  return source

/-- Reads a table that needs a number of columns, without its text. -/
def loadTable (files : Tree) (path : Path) (columns : Nat) : Except Failure (Table Float) := do
  return (← loadSource files path columns).table

/-- The names in a directory that match a pattern, sorted. -/
def matchingNames (files : Tree) (directory : Path) (pattern : String) :
    Except Failure (List String) :=
  match Pattern.read pattern with
  | .error fault => .error (.badPattern pattern fault.message)
  | .ok matcher =>
    match files.names directory with
    | .error cause => .error (.unlistable directory cause)
    | .ok names => .ok ((names.filter matcher.isMatch).mergeSort fun a b => decide (a ≤ b))

/-- The methods of a list without later repetitions. -/
def distinct (methods : List String) : List String :=
  methods.foldl (fun seen method => if seen.contains method then seen else seen ++ [method]) []

end FluidAnalysis.Report
