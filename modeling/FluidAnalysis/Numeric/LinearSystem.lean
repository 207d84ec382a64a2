import FluidAnalysis.Numeric.Summary

/-!
# Linear systems

Factorisation of a small dense matrix into a unit lower and an upper triangle, with row exchanges,
and the solution of a system by the two triangles.

The elimination works on the rows that are still open. Each step picks the row with the largest
leading entry, exchanges it with the first open row, closes it, and subtracts multiples of it from
the others. A row carries its factors (the part left of the diagonal) and its open entries apart, so
every step shortens the list of rows.
-/

namespace FluidAnalysis.Numeric

variable {α : Type} [Scalar α]

/-- A dense matrix of a stated shape, row by row. -/
structure DenseMatrix (α : Type) where
  height : Nat
  width : Nat
  rows : List (List α)
deriving Repr

/-- The successive pieces of a list with `width` entries each, `count` of them. -/
def chunks (width : Nat) : (count : Nat) → List α → List (List α)
  | 0, _ => []
  | count + 1, values => values.take width :: chunks width count (values.drop width)

/-- A matrix from its entries in row order. -/
def DenseMatrix.ofEntries (height width : Nat) (entries : List α) : DenseMatrix α :=
  ⟨height, width, chunks width height entries⟩

/-- Why a matrix could not be factorised, or a system not be solved. -/
inductive SystemFault where
  | empty
  | notSquare (height width : Nat)
  | singular (column : Nat)
  | sideLength (expected actual : Nat)
deriving Repr, DecidableEq

def SystemFault.message : SystemFault → String
  | .empty => "cannot factorise an empty matrix"
  | .notSquare height width =>
    s!"cannot factorise a {height}x{width} matrix; it must be square"
  | .singular column => s!"zero pivot in column {column}"
  | .sideLength expected actual =>
    s!"right-hand side has {actual} entries for a system of {expected}"

/-! ## Elimination -/

/-- A row during elimination: the row of the matrix it comes from, its factors so far, and the
entries that are still open. -/
structure OpenRow (α : Type) where
  source : Nat
  factors : List α
  entries : List α
deriving Repr

/-- A pivot of at most this size counts as zero. -/
def pivotFloor : α := 1.0e-15

namespace OpenRow

/-- The entry in the column that is eliminated next. -/
def lead (row : OpenRow α) : α :=
  row.entries.headD 0.0

/-- Subtracts the multiple of the pivot row that clears the leading entry, and keeps the multiple as
a factor. -/
def clear (pivot row : OpenRow α) : OpenRow α :=
  let factor := row.lead / pivot.lead
  { row with
    factors := row.factors ++ [factor]
    entries := (row.entries.tail.zip pivot.entries.tail).map fun (x, p) => x - factor * p }

/-- The finished row: factors, then the part of the upper triangle. -/
def packed (row : OpenRow α) : List α :=
  row.factors ++ row.entries

end OpenRow

/-- The position of the row with the largest leading entry, the last one among equals. `best` is
the position and size of the largest so far. -/
def pivotAmong (best : Nat × α) : (position : Nat) → List (OpenRow α) → Nat
  | _, [] => best.1
  | position, row :: rest =>
    let size := Scalar.abs row.lead
    if Scalar.totalLe best.2 size then pivotAmong (position, size) (position + 1) rest
    else pivotAmong best (position + 1) rest

/-- The position of the pivot row in a non-empty list of open rows. -/
def pivotPosition (first : OpenRow α) (rest : List (OpenRow α)) : Nat :=
  pivotAmong (0, Scalar.abs first.lead) 1 rest

/-- Eliminates column after column, starting from `column`. The first fault is a pivot that counts
as zero. -/
def eliminate (column : Nat) : List (OpenRow α) → Except SystemFault (List (OpenRow α))
  | [] => .ok []
  | first :: rest =>
    let position := pivotPosition first rest
    let pivot := ((first :: rest)[position]?).getD first
    let others := ((first :: rest).set position first).tail
    if Scalar.abs pivot.lead ≤ pivotFloor then .error (.singular column)
    else
      match eliminate (column + 1) (others.map pivot.clear) with
      | .ok closed => .ok (pivot :: closed)
      | .error fault => .error fault
termination_by rows => rows.length
decreasing_by simp

/-! ## Factorisation -/

/-- The two triangles in one matrix. The unit diagonal of the lower one is left out, and row `i` of
the matrix comes from row `rowOrder[i]` of the factorised one. -/
structure Triangles (α : Type) where
  packed : List (List α)
  rowOrder : List Nat
deriving Repr

/-- Factorises a square matrix. -/
def factorize (m : DenseMatrix α) : Except SystemFault (Triangles α) :=
  if m.height == 0 || m.width == 0 then .error .empty
  else if m.height != m.width then .error (.notSquare m.height m.width)
  else
    match eliminate 0 (m.rows.zipIdx.map fun (entries, i) => ⟨i, [], entries⟩) with
    | .ok rows => .ok ⟨rows.map OpenRow.packed, rows.map OpenRow.source⟩
    | .error fault => .error fault

namespace Triangles

/-- The products of corresponding entries, summed from the left. -/
def dot (xs ys : List α) : α :=
  sum ((xs.zip ys).map fun (x, y) => x * y)

def dimension (t : Triangles α) : Nat :=
  t.rowOrder.length

/-- Solves the lower triangle downward. `found` holds the unknowns so far. -/
def forward (found : List α) : List (List α × α) → List α
  | [] => found
  | (row, b) :: rest =>
    let y := if found.isEmpty then b else b - dot (row.take found.length) found
    forward (found ++ [y]) rest

/-- Solves the upper triangle upward. The rows are given with their number; the result holds the
unknowns from the first given row on. -/
def backward : List (Nat × List α × α) → List α
  | [] => []
  | (i, row, y) :: rest =>
    let found := backward rest
    (y - dot (row.drop (i + 1)) found) / (row[i]?).getD 0.0 :: found

/-- Solves the factorised system for one right-hand side. -/
def solve (t : Triangles α) (side : List α) : Except SystemFault (List α) :=
  if side.length != t.dimension then .error (.sideLength t.dimension side.length)
  else
    let permuted := t.rowOrder.map fun source => (side[source]?).getD 0.0
    let y := forward [] (t.packed.zip permuted)
    .ok (backward ((List.range t.dimension).zip (t.packed.zip y)))

end Triangles

/-- Factorises a matrix and solves the system for one right-hand side. -/
def solveSystem (m : DenseMatrix α) (side : List α) : Except SystemFault (List α) := do
  let triangles ← factorize m
  triangles.solve side

end FluidAnalysis.Numeric
