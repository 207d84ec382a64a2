import FluidAnalysis.Decimal.General
import FluidAnalysis.Decimal.Reader
import FluidAnalysis.Numeric.Summary
import FluidAnalysis.Table.Positions
import FluidAnalysis.Text.Lines

/-!
# Error tables

Largest errors of thermodynamic properties by method. A line of such a table is
`method u _ cv _ s`, and any line that mentions `min_T` ends with the lowest temperature of the
comparison.
-/

namespace FluidAnalysis.SquareWell

open Text

/-- The largest errors of one method. -/
structure ErrorRow where
  method : String
  internalEnergy : Float
  heatCapacity : Float
  entropy : Float
deriving Repr

structure ErrorTable where
  minTemperature : Option Float := none
  rows : List ErrorRow := []
deriving Repr

/-- Whether a text occurs in another one. -/
def occursIn (part : List Char) : List Char → Bool
  | [] => part.isEmpty
  | c :: rest => part.isPrefixOf (c :: rest) || occursIn part rest

/-- What a line of an error table is. -/
inductive ErrorLine where
  | minTemperature (value : Option Float)
  | row (tokens : List (List Char))
  | comment
deriving Repr

/-- Tells the lines apart. -/
def ErrorLine.ofChars (line : List Char) : ErrorLine :=
  if occursIn "min_T".toList line then
    .minTemperature ((words line).getLast?.bind Decimal.readChars?)
  else if (words line).isEmpty || line.head? == some '#' then .comment
  else .row (words line)

/-- The number at a position among the tokens of a line. -/
def numberAt (line : Nat) (tokens : List (List Char)) (column : Nat) : Except Failure Float :=
  match tokens[column]?.bind Decimal.readChars? with
  | some x => .ok x
  | none => .error (.errorTableNumber line column)

/-- One row from the tokens of a line. -/
def ErrorRow.ofTokens (line : Nat) (tokens : List (List Char)) : Except Failure ErrorRow := do
  let method ← entryAt tokens 0
  let internalEnergy ← numberAt line tokens 1
  let heatCapacity ← numberAt line tokens 3
  let entropy ← numberAt line tokens 5
  return ⟨String.ofList method, internalEnergy, heatCapacity, entropy⟩

namespace ErrorTable

/-- Extends a table by the lines of a text; `line` is the number of the first of them. -/
def extend (t : ErrorTable) (line : Nat) : List (List Char) → Except Failure ErrorTable
  | [] => .ok t
  | chars :: rest =>
    match ErrorLine.ofChars chars with
    | .minTemperature value => extend { t with minTemperature := value } (line + 1) rest
    | .comment => extend t (line + 1) rest
    | .row tokens =>
      match ErrorRow.ofTokens line tokens with
      | .error failure => .error failure
      | .ok row => extend { t with rows := t.rows ++ [row] } (line + 1) rest

/-- Reads an error table. -/
def parse (source : String) : Except Failure ErrorTable :=
  extend {} 1 (lines source.toList)

end ErrorTable

/-! ## Several sizes -/

/-- The rows of several error tables, each with its system size. -/
structure ErrorScaling where
  minTemperature : Option Float
  methods : List String
  rows : List (Nat × ErrorRow)
deriving Repr

namespace ErrorScaling

/-- A list of methods with one more, unless it is there. -/
def addMethod (methods : List String) (method : String) : List String :=
  if methods.contains method then methods else methods ++ [method]

/-- The largest of several temperatures. -/
def largest? : List Float → Option Float
  | [] => none
  | first :: rest => some (rest.foldl Numeric.larger first)

/-- Gathers the tables of several sizes. Of the lowest temperatures the largest counts. -/
def collect (tables : List (Nat × ErrorTable)) : ErrorScaling :=
  let rows := tables.flatMap fun (particles, table) => table.rows.map fun row => (particles, row)
  { minTemperature := largest? (tables.filterMap fun (_, table) => table.minTemperature)
    methods := (rows.map fun (_, row) => row.method).foldl addMethod []
    rows := rows }

/-- One error of one method against the system size. -/
def series (s : ErrorScaling) (method : String) (value : ErrorRow → Float) :
    List (Float × Float) :=
  (s.rows.filter fun (_, row) => row.method == method).map fun (particles, row) =>
    (Float.ofNat particles, value row)

/-- One row as text. -/
def renderRow (entry : Nat × ErrorRow) : String :=
  let (particles, row) := entry
  let number := fun x => Decimal.general x 6
  let errors := s!"{number row.internalEnergy} {number row.heatCapacity} {number row.entropy}"
  s!"{row.method} {particles} {errors}\n"

/-- All rows as text. -/
def render (s : ErrorScaling) : String :=
  let head :=
    match s.minTemperature with
    | some t => s!"# min_T: {Decimal.general t 6}\n"
    | none => ""
  head ++ "# method N u_error cv_error s_error\n" ++ String.join (s.rows.map renderRow)

end ErrorScaling

end FluidAnalysis.SquareWell
