import FluidAnalysis.Decimal.General
import FluidAnalysis.Table.Positions
import FluidAnalysis.Text.Lines

/-!
# Writing columns

Columns of one length are written as rows in general notation, after a header of comment lines.
-/

namespace FluidAnalysis.Table

/-- What stands between the values of a row. -/
inductive Separator where
  | space
  | tab
deriving Repr, DecidableEq

def Separator.char : Separator → Char
  | .space => ' '
  | .tab => '\t'

/-- How columns are written. -/
structure ColumnFormat where
  precision : Nat := 6
  separator : Separator := .space
  header : Option String := none
deriving Repr

/-- One row of values. -/
def renderRow (format : ColumnFormat) (row : List Float) : List Char :=
  let cells := row.map fun x => (Decimal.general x format.precision).toList
  [format.separator.char].intercalate cells ++ ['\n']

/-- The header as comment lines. -/
def renderHeader (header : String) : List Char :=
  ((Text.lines header.toList).map fun line => '#' :: ' ' :: (line ++ ['\n'])).flatten

/-- The row at position `i`. -/
def rowAt {α : Type} (columns : List (List α)) (i : Nat) : Except Failure (List α) :=
  columns.mapM fun column => entryAt column i

/-- Writes columns as rows. All columns must have the length of the first. -/
def renderColumns (columns : List (List Float)) (format : ColumnFormat) :
    Except Failure String :=
  let count := (columns.head?.map List.length).getD 0
  match columns.find? fun column => column.length != count with
  | some column => .error (.columnLengths count column.length)
  | none => do
    let header := (format.header.map renderHeader).getD []
    let rows ← (List.range count).mapM (rowAt columns)
    return String.ofList (header ++ (rows.map (renderRow format)).flatten)

end FluidAnalysis.Table
