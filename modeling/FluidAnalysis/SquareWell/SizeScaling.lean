import FluidAnalysis.Files.Path
import FluidAnalysis.Text.Integer
import FluidAnalysis.Scalar

/-!
# Scaling with system size

What it costs a method to reach each system size, and the table that sets methods side by side.
-/

namespace FluidAnalysis.SquareWell

open Files

/-- The number of particles that a piece `N<digits>` of a file name states. -/
def pieceCount? : List Char → Option Nat
  | 'N' :: digits => (Text.readDigits? digits).filter (· < Text.wordBound)
  | _ => none

/-- The number of particles in a file name: that of the first of its pieces between hyphens that
states one. -/
def nameCount? (name : String) : Option Nat :=
  (Text.pieces '-' name.toList).findSome? pieceCount?

/-- The number of particles of the run that a path belongs to. -/
def particleCount? (path : Path) : Option Nat :=
  path.fileName?.bind nameCount?

/-- The cost of a method at one system size. -/
structure ScalingPoint where
  particles : Nat
  iterations : Int
  minEnergy : Float
  samples : Float
deriving Repr

/-- The costs of one method, from the smallest system to the largest. -/
structure MethodScaling where
  method : String
  points : List ScalingPoint
deriving Repr

namespace MethodScaling

def point? (s : MethodScaling) (particles : Nat) : Option ScalingPoint :=
  s.points.find? fun point => point.particles == particles

/-- One cost against the system size. -/
def curve (s : MethodScaling) (value : ScalingPoint → Float) : List Float × List Float :=
  (s.points.map fun point => Float.ofNat point.particles, s.points.map value)

end MethodScaling

/-! ## The table -/

/-- The integer part of a number that fits a signed word; larger ones are cut to the ends. -/
def clampedTrunc (x : Float) : Int :=
  max (-Text.signedBound) (min (Text.signedBound - 1) (Scalar.trunc x))

/-- A cell with the integer part of a finite number. -/
def integerCell : Option Float → String
  | some x => if x.isFinite then s!" & {clampedTrunc x} " else " & -- "
  | none => " & -- "

/-- The rows of one system size: label and cost. -/
def tableRows : List (String × (ScalingPoint → Float)) :=
  [("", fun point => Float.ofInt point.iterations), ("Emin", (·.minEnergy)),
    ("samples", (·.samples))]

/-- The rows of the table for one system size. -/
def sizeRows (methods : List MethodScaling) (particles : Nat) : String :=
  let row := fun (entry : String × (ScalingPoint → Float)) =>
    entry.1 ++ String.join (methods.map fun scaling =>
      integerCell ((scaling.point? particles).map entry.2)) ++ "\\\\\n"
  s!" N = {particles} \\\\\n  initialization" ++ String.join (tableRows.map row)

/-- A method name as text. -/
def methodTitle (method : String) : String :=
  method.map fun c => if c == '_' then ' ' else c

/-- A LaTeX table with a column for each method and three rows for each system size. -/
def latexTable (methods : List MethodScaling) (sizes : List Nat) : String :=
  let columns := String.ofList (List.replicate methods.length 'c')
  let titles := String.join (methods.map fun scaling => " & " ++ methodTitle scaling.method)
  "\n\\begin\x7btabular\x7d\x7bc|" ++ columns ++ "\x7d\n" ++ titles ++ "\\\\\n\\hline\\hline\n"
    ++ String.join (sizes.map (sizeRows methods)) ++ "\\end\x7btabular\x7d\n"

end FluidAnalysis.SquareWell
