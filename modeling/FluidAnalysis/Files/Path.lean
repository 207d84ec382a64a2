import FluidAnalysis.Text.Lines

/-!
# Path texts

A path is kept as the text it was given as, because messages show it. A path has pieces between its
slashes. Empty pieces and single dots say nothing about where it leads, except for a dot at the very
start; the others are its steps.
-/

namespace FluidAnalysis.Files

/-- A path as it is written. -/
abbrev Path := String

namespace Path

def isAbsolute (p : Path) : Bool :=
  p.toList.head? == some '/'

/-- The texts between the slashes. -/
def pieces (p : Path) : List String :=
  (Text.pieces '/' p.toList).map String.ofList

/-- The path that leads from `root` along `relative`. An absolute right side stands for itself, and
an empty left side adds no slash. -/
def join (root relative : Path) : Path :=
  if relative.isAbsolute || root.isEmpty then relative
  else if root.toList.getLast? == some '/' then root ++ relative
  else root ++ "/" ++ relative

/-- Whether the piece at a position is a step. -/
def isStep (position : Nat) (piece : String) : Bool :=
  if piece == "." then position == 0 else !piece.isEmpty

/-- The steps of a path with their positions among its pieces, the last one first. -/
def stepsFromEnd (p : Path) : List (Nat × String) :=
  ((p.pieces.zipIdx.map fun (piece, i) => (i, piece)).filter fun (i, piece) =>
    isStep i piece).reverse

/-- The path without its last step. A path without steps has no parent. -/
def parent? (p : Path) : Option Path :=
  match p.stepsFromEnd with
  | [] => none
  | [_] => some (if p.isAbsolute then "/" else "")
  | _ :: (position, _) :: _ => some ("/".intercalate (p.pieces.take (position + 1)))

/-- The name at the end of a path, unless it ends in dots. -/
def fileName? (p : Path) : Option String :=
  match p.stepsFromEnd with
  | [] => none
  | (_, name) :: _ => if name == "." || name == ".." then none else some name

/-- The path, its parent, the parent of that, and so on, `limit` of them at most. -/
def ancestors : (limit : Nat) → Path → List Path
  | 0, _ => []
  | limit + 1, p =>
    if p.isEmpty then []
    else
      match p.parent? with
      | some parent => p :: ancestors limit parent
      | none => [p]

end Path

end FluidAnalysis.Files
