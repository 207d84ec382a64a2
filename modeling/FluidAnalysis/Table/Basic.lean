import FluidAnalysis.Table.Positions

/-!
# Tables

Rectangular tables of numbers. Column meaning is positional; a reader states how many columns it
needs through `requireColumns`, so that a narrow table is reported before any column is taken.

A table is kept as a `Buffer`: the width of its rows, and all its values in one list, row after row.
Rows, columns and single values are cut out of that list. The buffer of a `Table` is `Whole`: its
values fill their last row, and there is a width as soon as there are values.
-/

namespace FluidAnalysis

variable {α : Type}

/-- Cuts a list into pieces of `size` values. `piece` holds the values of the piece that is open, and
the last piece may be shorter than the others. -/
def cut (size : Nat) (piece : List α) : List α → List (List α)
  | [] => if piece.isEmpty then [] else [piece]
  | value :: rest =>
    if piece.length + 1 < size then cut size (piece ++ [value]) rest
    else (piece ++ [value]) :: cut size [] rest

/-- A width and the values of all rows, one after the other. -/
structure Buffer (α : Type) where
  columns : Nat
  values : List α

namespace Buffer

def rowCount (b : Buffer α) : Nat :=
  if b.columns = 0 then 0 else b.values.length / b.columns

def isEmpty (b : Buffer α) : Bool :=
  b.values.isEmpty

def row? (b : Buffer α) (i : Nat) : Option (List α) :=
  if i < b.rowCount then some ((b.values.drop (i * b.columns)).take b.columns) else none

/-- The rows, from top to bottom. -/
def rows (b : Buffer α) : List (List α) :=
  cut (max b.columns 1) [] b.values

def lastRow? (b : Buffer α) : Option (List α) :=
  if b.rowCount = 0 then none else b.row? (b.rowCount - 1)

def value? (b : Buffer α) (i j : Nat) : Option α :=
  if j < b.columns then (b.row? i).bind fun row => row[j]? else none

/-- The column at position `j`, from top to bottom. -/
def column (b : Buffer α) (j : Nat) : Except Failure (List α) :=
  if j < b.columns then b.rows.mapM fun row => entryAt row j
  else .error (.noSuchColumn j b.columns)

/-- The buffer has a row and at least `needed` columns. -/
def requireColumns (b : Buffer α) (needed : Nat) (context : String) : Except Failure Unit :=
  if b.isEmpty then .error (.noDataRows context)
  else if b.columns < needed then .error (.tooFewColumns context needed b.columns)
  else .ok ()

/-- Appends a row, and tells whether it could be done. Without a width the buffer takes that of the
row. -/
def push (b : Buffer α) (row : List α) : Except Failure Unit × Buffer α :=
  let columns := if b.columns = 0 then row.length else b.columns
  if row.length = columns then (.ok (), ⟨columns, b.values ++ row⟩)
  else (.error (.rowWidth row.length columns), ⟨columns, b.values⟩)

/-- The values fill all rows. -/
structure Whole (b : Buffer α) : Prop where
  dvd : b.columns ∣ b.values.length
  columns_eq_zero_iff : b.columns = 0 ↔ b.values = []

/-- A row is added whole, or not at all. -/
theorem Whole.push {b : Buffer α} (h : b.Whole) (row : List α) : (b.push row).2.Whole := by
  unfold Buffer.push
  by_cases hc : b.columns = 0
  · have hv : b.values = [] := h.columns_eq_zero_iff.mp hc
    simp only [hc, hv, if_true, List.nil_append]
    exact ⟨Nat.dvd_refl _, List.length_eq_zero_iff⟩
  · simp only [if_neg hc]
    split
    · next hrow =>
      refine ⟨?_, by simp [hc, mt h.columns_eq_zero_iff.mpr hc]⟩
      rw [List.length_append, hrow]
      exact Nat.dvd_add h.dvd (Nat.dvd_refl _)
    · exact h

end Buffer

/-- A rectangular table. -/
structure Table (α : Type) extends Buffer α where
  whole : toBuffer.Whole

namespace Table

/-- The table without rows. -/
def empty : Table α where
  columns := 0
  values := []
  whole := ⟨Nat.dvd_refl 0, by simp⟩

/-- Appends a row, and tells whether it could be done. -/
def push (t : Table α) (row : List α) : Except Failure Unit × Table α :=
  ((t.toBuffer.push row).1, ⟨(t.toBuffer.push row).2, t.whole.push row⟩)

end Table

end FluidAnalysis
