import FluidAnalysis.Proofs.Table.Grammar

/-!
# The layout of tables

A buffer is seen in four ways: as the pieces its values are cut into, as slices of the values that
are counted by a division, as columns, and as single values. Place `(i, j)` is place
`i * columns + j` of the values. The views agree while the values fill their last row, and no push
can break that: it appends a whole row or nothing, and it takes the width of a row only where there
is none yet.

* `Buffer.RowMajor` — the views of a buffer agree
* `Buffer.Whole.pushAll` — any history of pushes keeps a buffer whole
* `Buffer.rows_pushAll` — the rows after a history of pushes
* `parsed_layout` — the views of a table that was read and then extended
-/

namespace FluidAnalysis

variable {α : Type} {row : List α}

namespace Buffer

variable {b : Buffer α}

/-! ## The views of a buffer -/

/-- The views of a buffer agree, and they are cuts of its values. -/
structure RowMajor (b : Buffer α) : Prop where
  length_values : b.values.length = b.rowCount * b.columns
  rows_eq : b.rows.map some = (List.range b.rowCount).map b.row?
  row_outside : ∀ i, b.rowCount ≤ i → b.row? i = none
  lastRow_eq : b.lastRow? = if b.rowCount = 0 then none else b.row? (b.rowCount - 1)
  value_eq : ∀ i j, b.value? i j =
    if i < b.rowCount ∧ j < b.columns then b.values[i * b.columns + j]? else none
  /-- A place inside the bounds holds one number, in its row, in its column and by itself. -/
  cell : ∀ i j, i < b.rowCount → j < b.columns →
    ∃ x row column, b.value? i j = some x ∧ b.row? i = some row ∧ row[j]? = some x ∧
      b.column j = .ok column ∧ column.length = b.rowCount ∧ column[i]? = some x
  column_outside : ∀ j, b.columns ≤ j →
    ∃ failure, b.column j = .error failure ∧ failure.code = "INPUT.TABLE_COLUMNS"

/-- A value is looked up in its row, and the row is a slice. -/
theorem value?_eq (b : Buffer α) (i j : Nat) :
    b.value? i j =
      if i < b.rowCount ∧ j < b.columns then b.values[i * b.columns + j]? else none := by
  rw [value?, row?]
  by_cases hj : j < b.columns
  · by_cases hi : i < b.rowCount
    · simp only [hi, hj, if_true, and_self, Option.bind_some, List.getElem?_take_of_lt,
        List.getElem?_drop]
    · simp [hi]
  · simp [hj]

namespace Whole

theorem map_row?_range (h : b.Whole) : (List.range b.rowCount).map b.row? = b.rows.map some := by
  rw [h.rowCount_eq]
  refine List.ext_getElem (by simp) fun i hi hi' => ?_
  simp [h.row?_eq]

theorem rowMajor (h : b.Whole) : b.RowMajor where
  length_values := by rw [h.rowCount_eq, h.length_values]
  rows_eq := h.map_row?_range.symm
  row_outside i hi := if_neg (Nat.not_lt.mpr hi)
  lastRow_eq := rfl
  value_eq := b.value?_eq
  cell i j hi hj := by
    obtain ⟨column, hcolumn, hvalues⟩ := h.column_eq_ok hj
    rw [h.rowCount_eq] at hi ⊢
    have hlength : column.length = b.rows.length := by
      rw [← List.length_map some, hvalues, List.length_map]
    have hrow : b.row? i = some b.rows[i] := by rw [h.row?_eq, List.getElem?_eq_getElem hi]
    have hwidth : j < b.rows[i].length := by
      rw [h.row_length _ (List.getElem_mem hi)]
      exact hj
    have hcell : b.rows[i][j]? = some b.rows[i][j] := List.getElem?_eq_getElem hwidth
    refine ⟨b.rows[i][j], b.rows[i], column, ?_, hrow, hcell, hcolumn, hlength, ?_⟩
    · rw [value?, if_pos hj, hrow, Option.bind_some, hcell]
    · have hvalue := congrArg (·[i]?) hvalues
      rw [List.getElem?_map, List.getElem?_map, List.getElem?_eq_getElem hi, Option.map_some, hcell,
        Option.map_eq_some_iff] at hvalue
      obtain ⟨x, hx, hxcell⟩ := hvalue
      rw [hx, hxcell]
  column_outside j hj := ⟨_, if_neg (Nat.not_lt.mpr hj), rfl⟩

end Whole

/-! ## Pushing rows -/

/-- **What one push does.** The row is appended, or it has nothing to append, or it is refused for
its width. -/
theorem push_cases (b : Buffer α) (row : List α) :
    (row ≠ [] ∧ (b.columns = 0 ∨ row.length = b.columns) ∧
        b.push row = (.ok (), ⟨row.length, b.values ++ row⟩)) ∨
      (row = [] ∧ b.columns = 0 ∧ b.push row = (.ok (), b)) ∨
      (b.columns ≠ 0 ∧ row.length ≠ b.columns ∧
        b.push row = (.error (.rowWidth row.length b.columns), b)) := by
  obtain ⟨columns, values⟩ := b
  by_cases hc : columns = 0
  · by_cases hr : row = []
    · exact .inr (.inl ⟨hr, hc, by simp [push, hc, hr]⟩)
    · exact .inl ⟨hr, .inl hc, by simp [push, hc]⟩
  · by_cases hw : row.length = columns
    · have hr : row ≠ [] := fun hnil => hc (by rw [← hw, hnil, List.length_nil])
      exact .inl ⟨hr, .inr hw, by simp [push, hc, hw]⟩
    · exact .inr (.inr ⟨hc, hw, by simp [push, hc, hw]⟩)

/-- The buffer after some rows were pushed, each of them successfully or not. -/
def pushAll (b : Buffer α) (rows : List (List α)) : Buffer α :=
  rows.foldl (fun b row => (b.push row).2) b

/-- Any history of pushes keeps a buffer whole. -/
theorem Whole.pushAll (h : b.Whole) (rows : List (List α)) : (b.pushAll rows).Whole := by
  induction rows generalizing b with
  | nil => exact h
  | cons row rest ih => exact ih (h.push row)

/-- The width after some rows were pushed: a buffer without rows takes that of the first one that is
not empty. -/
def pushedWidth (b : Buffer α) (rows : List (List α)) : Nat :=
  Table.firstWidth (b.rows ++ rows.filter (!·.isEmpty))

/-- Those of the pushed rows that stay. -/
def accepted (b : Buffer α) (rows : List (List α)) : List (List α) :=
  rows.filter fun row => !row.isEmpty && row.length == b.pushedWidth rows

theorem Whole.pushedWidth_eq (h : b.Whole) (hc : b.columns ≠ 0) (rows : List (List α)) :
    b.pushedWidth rows = b.columns := by
  rw [pushedWidth, Table.firstWidth_append _ (mt h.columns_eq_zero_iff_rows.mpr hc)]
  exact (Table.columns_eq_firstWidth ⟨b, h⟩).symm

/-- **A history of pushes.** The buffer keeps its rows and gets those that have its width. -/
theorem rows_pushAll (h : b.Whole) (rows : List (List α)) :
    (b.pushAll rows).rows = b.rows ++ b.accepted rows := by
  induction rows generalizing b with
  | nil => exact (List.append_nil _).symm
  | cons row rest ih =>
    have hstep : b.pushAll (row :: rest) = (b.push row).2.pushAll rest := rfl
    rw [hstep, ih (h.push row)]
    have hnext := h.push row
    obtain ⟨hr, hwidth, hpush⟩ | ⟨rfl, -, hpush⟩ | ⟨hc, hw, hpush⟩ := b.push_cases row
    · -- the row is there now, so it has the width of all rows to come
      have hrows := h.rows_append hr hwidth
      rw [hpush] at hnext ⊢
      have hsame : Buffer.pushedWidth ⟨row.length, b.values ++ row⟩ rest
          = b.pushedWidth (row :: rest) := by
        simp [pushedWidth, hrows, hr]
      have hlength : row.length = b.pushedWidth (row :: rest) := by
        rw [← hsame, hnext.pushedWidth_eq (mt List.length_eq_zero_iff.mp hr)]
      rw [hrows, accepted, accepted, hsame]
      simp [hr, ← hlength]
    · rw [hpush]
      simp [accepted, pushedWidth]
    · rw [hpush, accepted, accepted, h.pushedWidth_eq hc, h.pushedWidth_eq hc]
      simp [hw]

/-! ## The next row -/

/-- What a buffer does with a row. -/
structure Extends (b : Buffer α) (row : List α) : Prop where
  refused_iff : (∃ failure, (b.push row).1 = .error failure) ↔
    b.columns ≠ 0 ∧ row.length ≠ b.columns
  unchanged : ∀ failure, (b.push row).1 = .error failure → (b.push row).2 = b
  added : row ≠ [] → (b.push row).1 = .ok () → (b.push row).2.rows = b.rows ++ [row]
  /-- A row without values fits only a buffer without rows, and adds nothing to it. -/
  empty : row = [] → (b.push row).1 = .ok () → (b.push row).2 = b ∧ b.rows = []

theorem Whole.extends_row (h : b.Whole) (row : List α) : b.Extends row where
  refused_iff := by
    obtain ⟨-, hwidth, hpush⟩ | ⟨-, hc, hpush⟩ | ⟨hc, hw, hpush⟩ := b.push_cases row
    · rw [hpush]
      simpa [Decidable.or_iff_not_imp_left] using hwidth
    · simp [hpush, hc]
    · simp [hpush, hc, hw]
  unchanged failure hfailure := by
    obtain ⟨-, -, hpush⟩ | ⟨-, -, hpush⟩ | ⟨-, -, hpush⟩ := b.push_cases row
    · rw [hpush] at hfailure
      cases hfailure
    · rw [hpush]
    · rw [hpush]
  added hrow hok := by
    obtain ⟨-, hwidth, hpush⟩ | ⟨hnil, -⟩ | ⟨-, -, hpush⟩ := b.push_cases row
    · rw [hpush, h.rows_append hrow hwidth]
    · exact absurd hnil hrow
    · rw [hpush] at hok
      cases hok
  empty hrow hok := by
    obtain ⟨hne, -⟩ | ⟨-, hc, hpush⟩ | ⟨-, -, hpush⟩ := b.push_cases row
    · exact absurd hrow hne
    · exact ⟨by rw [hpush], h.columns_eq_zero_iff_rows.mp hc⟩
    · rw [hpush] at hok
      cases hok

end Buffer

/-! ## Tables that were read and extended -/

namespace Table

/-- **The layout of a table.** A table was read from a text, and then any rows were pushed, each of
them successfully or not. All its views agree. Its rows are the numbers of the text, line by line, and
the rows that were accepted. The next row is added at the end, or it is refused for its width and
nothing changes. -/
theorem parsed_layout (text : String) (t : Table Float) (rows : List (List Float))
    (h : parse text = .ok t) :
    (t.toBuffer.pushAll rows).RowMajor ∧
      (t.toBuffer.pushAll rows).cells
        = (wordRows (Text.lines text.toList)).map (List.map Decimal.readChars?)
          ++ (t.toBuffer.accepted rows).map (List.map some) ∧
      ∀ row, (t.toBuffer.pushAll rows).Extends row := by
  have hwhole := t.whole.pushAll rows
  refine ⟨hwhole.rowMajor, ?_, hwhole.extends_row⟩
  rw [Buffer.cells, Buffer.rows_pushAll t.whole, List.map_append, ← parseWith_eq_ok_iff.mp h,
    Buffer.cells]

/-- Of three rows that are pushed to a table of two columns, one stays. -/
theorem parsed_layout_pairs :
    ∃ t, parse "1 2 # first\n\n3 4\n" = .ok t ∧
      (t.toBuffer.pushAll [[5], [5, 6], []]).rowCount = 3 ∧
      (t.toBuffer.pushAll [[5], [5, 6], []]).values.length = 3 * 2 ∧
      ((t.toBuffer.pushAll [[5], [5, 6], []]).push [7]).2
        = t.toBuffer.pushAll [[5], [5, 6], []] := by
  have hcount : (parse "1 2 # first\n\n3 4\n").toOption.map
      (fun t => ((t.toBuffer.pushAll [[5], [5, 6], []]).rowCount,
        (t.toBuffer.pushAll [[5], [5, 6], []]).columns))
      = some (3, 2) := by decide +kernel
  obtain ⟨t, ht, hsize⟩ := Option.map_eq_some_iff.mp hcount
  obtain ⟨hrows, hcolumns⟩ := Prod.mk.inj hsize
  have hparse := eq_ok_of_toOption ht
  obtain ⟨hlayout, -, hnext⟩ := parsed_layout _ t [[5], [5, 6], []] hparse
  refine ⟨t, hparse, hrows, ?_, ?_⟩
  · rw [hlayout.length_values, hrows, hcolumns]
  · obtain ⟨failure, hfailure⟩ := (hnext [7]).refused_iff.mpr (by rw [hcolumns]; decide)
    exact (hnext [7]).unchanged failure hfailure

end Table

end FluidAnalysis
