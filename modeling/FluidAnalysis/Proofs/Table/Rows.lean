import FluidAnalysis.Proofs.Traversal
import FluidAnalysis.Table.Basic

/-!
# Tables as lists of rows

A buffer holds a width and one list of values. A whole buffer stands for a list of rows: the pieces
into which its values are cut are its rows (`flatten_rows`, `Whole.row_length`), they are counted by
a division (`Whole.rowCount_eq`), and each of them is a slice of the values (`Whole.row?_eq`). A row
that is appended to the values becomes the last row (`Whole.rows_append`).

With these facts a table is its rows (`Table.ext_rows`), and every list of rows of one width that is
not zero is a table (`Table.ofRows`).
-/

namespace FluidAnalysis

variable {α : Type}

/-! ## Cutting a list into pieces -/

theorem flatten_cut (size : Nat) (values piece : List α) :
    (cut size piece values).flatten = piece ++ values := by
  induction values generalizing piece with
  | nil => cases piece <;> rfl
  | cons value rest ih =>
    rw [cut]
    split
    · rw [ih, List.append_assoc, List.singleton_append]
    · rw [List.flatten_cons, ih, List.nil_append, List.append_assoc, List.singleton_append]

/-- An open piece is shorter than the others, so it holds nothing where they fill everything. -/
theorem eq_nil_of_dvd {size : Nat} {piece : List α} (hpiece : piece.length < size)
    (h : size ∣ piece.length + ([] : List α).length) : piece = [] :=
  List.length_eq_zero_iff.mp (Nat.eq_zero_of_dvd_of_lt h (by simpa using hpiece))

/-- Values that fill their last piece are cut into pieces of one length. -/
theorem length_of_mem_cut {size : Nat} {values piece : List α} (hpiece : piece.length < size)
    (h : size ∣ piece.length + values.length) :
    ∀ row ∈ cut size piece values, row.length = size := by
  induction values generalizing piece with
  | nil => simp [cut, eq_nil_of_dvd hpiece h]
  | cons value rest ih =>
    rw [List.length_cons] at h
    rw [cut]
    split
    · next hopen =>
      rw [← Nat.add_assoc, Nat.add_right_comm] at h
      exact ih (by simpa using hopen) (by simpa using h)
    · next hfull =>
      have hsize : piece.length + 1 = size := by omega
      intro row hrow
      rcases List.mem_cons.mp hrow with rfl | hrow
      · simpa using hsize
      · have hrest : size ∣ rest.length := by
          rw [← Nat.add_assoc, Nat.add_right_comm, hsize] at h
          exact (Nat.dvd_add_right (Nat.dvd_refl size)).mp h
        exact ih (by simp; omega) (by simpa using hrest) row hrow

/-- A piece that is filled up is the next piece. -/
theorem cut_eq_singleton {size : Nat} {row piece : List α} (hrow : row ≠ [])
    (h : piece.length + row.length = size) : cut size piece row = [piece ++ row] := by
  induction row generalizing piece with
  | nil => exact absurd rfl hrow
  | cons value rest ih =>
    rw [List.length_cons] at h
    rw [cut]
    cases rest with
    | nil => rw [if_neg (by simp at h; omega)]; rfl
    | cons second rest =>
      rw [List.length_cons] at h
      rw [if_pos (by omega), ih (List.cons_ne_nil _ _) (by simp; omega), List.append_assoc,
        List.singleton_append]

/-- Values behind a full last piece are cut by themselves. -/
theorem cut_append {size : Nat} {values piece : List α} (more : List α)
    (hpiece : piece.length < size) (h : size ∣ piece.length + values.length) :
    cut size piece (values ++ more) = cut size piece values ++ cut size [] more := by
  induction values generalizing piece with
  | nil =>
    rw [eq_nil_of_dvd hpiece h]
    rfl
  | cons value rest ih =>
    rw [List.length_cons] at h
    rw [List.cons_append, cut, cut]
    split
    · next hopen =>
      rw [← Nat.add_assoc, Nat.add_right_comm] at h
      exact ih (by simpa using hopen) (by simpa using h)
    · next hfull =>
      have hsize : piece.length + 1 = size := by omega
      have hrest : size ∣ rest.length := by
        rw [← Nat.add_assoc, Nat.add_right_comm, hsize] at h
        exact (Nat.dvd_add_right (Nat.dvd_refl size)).mp h
      rw [ih (by simp; omega) (by simpa using hrest), List.cons_append]

/-- Rows of one width are cut off one after the other. -/
theorem cut_flatten {size : Nat} {rows : List (List α)} (hsize : 0 < size)
    (h : ∀ row ∈ rows, row.length = size) : cut size [] rows.flatten = rows := by
  induction rows with
  | nil => rfl
  | cons row rest ih =>
    obtain ⟨hrow, hrest⟩ := List.forall_mem_cons.mp h
    have hne : row ≠ [] := List.length_pos_iff.mp (hrow ▸ hsize)
    rw [List.flatten_cons, cut_append _ hsize (by simp [hrow]),
      cut_eq_singleton hne (by simpa using hrow), ih hrest, List.nil_append, List.singleton_append]

/-! ## Rows of one width, one after the other -/

section Flatten

variable {width : Nat} {rows : List (List α)}

theorem length_flatten_of_width (h : ∀ row ∈ rows, row.length = width) :
    rows.flatten.length = rows.length * width := by
  rw [List.length_flatten, List.map_congr_left h, List.map_const', List.sum_replicate_nat]

/-- One of the rows, cut out of all their values. -/
theorem take_drop_flatten (h : ∀ row ∈ rows, row.length = width) {i : Nat} (hi : i < rows.length) :
    (rows.flatten.drop (i * width)).take width = rows[i] := by
  induction rows generalizing i with
  | nil => exact absurd hi (Nat.not_lt_zero i)
  | cons first rest ih =>
    obtain ⟨hfirst, hrest⟩ := List.forall_mem_cons.mp h
    rw [List.flatten_cons]
    cases i with
    | zero => rw [Nat.zero_mul, List.drop_zero, List.take_left' hfirst, List.getElem_cons_zero]
    | succ i =>
      have hi' : i < rest.length := Nat.lt_of_succ_lt_succ hi
      rw [Nat.succ_mul, Nat.add_comm, ← List.drop_drop, List.drop_left' hfirst, ih hrest hi',
        List.getElem_cons_succ]

end Flatten

/-! ## The rows of a buffer -/

namespace Buffer

variable {b : Buffer α} {row : List α}

theorem flatten_rows (b : Buffer α) : b.rows.flatten = b.values :=
  flatten_cut _ _ _

theorem rows_eq_nil_iff (b : Buffer α) : b.rows = [] ↔ b.values = [] := by
  constructor
  · intro h
    rw [← flatten_rows, h, List.flatten_nil]
  · intro h
    rw [rows, h]
    rfl

/-- The rows of a buffer, as what was read for each of its words. -/
def cells (b : Buffer α) : List (List (Option α)) :=
  b.rows.map (List.map some)

theorem isEmpty_eq (b : Buffer α) : b.isEmpty = b.rows.isEmpty := by
  rw [Bool.eq_iff_iff, isEmpty, List.isEmpty_iff, List.isEmpty_iff, rows_eq_nil_iff]

namespace Whole

theorem columns_eq_zero_iff_rows (h : b.Whole) : b.columns = 0 ↔ b.rows = [] := by
  rw [h.columns_eq_zero_iff, rows_eq_nil_iff]

theorem row_length (h : b.Whole) (row : List α) (hrow : row ∈ b.rows) :
    row.length = b.columns := by
  have hc : b.columns ≠ 0 := by
    rw [Ne, h.columns_eq_zero_iff_rows]
    exact List.ne_nil_of_mem hrow
  have hmax : max b.columns 1 = b.columns := by omega
  rw [rows, hmax] at hrow
  refine length_of_mem_cut (Nat.pos_of_ne_zero hc) ?_ row hrow
  simpa using h.dvd

theorem length_values (h : b.Whole) : b.values.length = b.rows.length * b.columns := by
  rw [← flatten_rows, length_flatten_of_width h.row_length]

/-- Division by the width counts the rows. -/
theorem rowCount_eq (h : b.Whole) : b.rowCount = b.rows.length := by
  rw [rowCount]
  split
  · next hc => rw [h.columns_eq_zero_iff_rows.mp hc, List.length_nil]
  · next hc => rw [h.length_values, Nat.mul_div_cancel _ (Nat.pos_of_ne_zero hc)]

/-- The slices of the values are the pieces they are cut into. -/
theorem row?_eq (h : b.Whole) (i : Nat) : b.row? i = b.rows[i]? := by
  rw [row?, h.rowCount_eq]
  split
  · next hi =>
    rw [List.getElem?_eq_getElem hi, ← flatten_rows, take_drop_flatten h.row_length hi]
  · next hi => rw [List.getElem?_eq_none (Nat.not_lt.mp hi)]

theorem lastRow?_eq (h : b.Whole) : b.lastRow? = b.rows.getLast? := by
  rw [lastRow?, h.row?_eq, h.rowCount_eq, List.getLast?_eq_getElem?]
  split
  · next hzero => rw [hzero, List.getElem?_eq_none (Nat.le_of_eq hzero)]
  · rfl

/-- A column has a value from every row. -/
theorem column_eq_ok (h : b.Whole) {j : Nat} (hj : j < b.columns) :
    ∃ column, b.column j = .ok column ∧ column.map some = b.rows.map fun row => row[j]? := by
  have hread : ∀ row ∈ b.rows, ∃ value, entryAt row j = .ok value := fun row hrow =>
    ⟨_, entryAt_eq_ok (by rwa [h.row_length row hrow])⟩
  obtain ⟨column, hcolumn⟩ := exists_map_eq_map_ok hread
  refine ⟨column, by rw [Buffer.column, if_pos hj, mapM_eq_ok_iff.mpr hcolumn], ?_⟩
  exact map_eq_of_map_ok (fun row value hvalue => (entryAt_eq_ok_iff.mp hvalue).symm) hcolumn

/-- **A row that is appended to the values becomes the last row.** -/
theorem rows_append (h : b.Whole) (hrow : row ≠ [])
    (hwidth : b.columns = 0 ∨ row.length = b.columns) :
    Buffer.rows ⟨row.length, b.values ++ row⟩ = b.rows ++ [row] := by
  have hpos : 0 < row.length := List.length_pos_iff.mpr hrow
  have hmax : max row.length 1 = row.length := by omega
  have hfill : row.length ∣ b.values.length := by
    rcases hwidth with hc | hw
    · rw [h.columns_eq_zero_iff.mp hc]
      exact Nat.dvd_zero _
    · rw [hw]
      exact h.dvd
  have hbefore : cut row.length [] b.values = b.rows := by
    rcases hwidth with hc | hw
    · rw [h.columns_eq_zero_iff_rows.mp hc, h.columns_eq_zero_iff.mp hc]
      rfl
    · rw [rows, ← hw, hmax]
  rw [rows, hmax, cut_append row hpos (by simpa using hfill), hbefore,
    cut_eq_singleton hrow (by simp), List.nil_append]

end Whole

end Buffer

/-! ## Tables -/

namespace Table

variable {t u : Table α}

theorem row_length (t : Table α) (row : List α) (h : row ∈ t.rows) : row.length = t.columns :=
  t.whole.row_length row h

theorem columns_eq_zero_iff (t : Table α) : t.columns = 0 ↔ t.rows = [] :=
  t.whole.columns_eq_zero_iff_rows

theorem row_ne_nil {row : List α} (h : row ∈ t.rows) : row ≠ [] := by
  intro hrow
  have hlen := t.row_length row h
  rw [hrow, List.length_nil, eq_comm, t.columns_eq_zero_iff] at hlen
  rw [hlen] at h
  exact List.not_mem_nil h

/-- The width of the first row; without rows it is zero. -/
def firstWidth {β : Type} (rows : List (List β)) : Nat :=
  (rows.head?.map List.length).getD 0

theorem firstWidth_append {β : Type} {rows : List (List β)} (more : List (List β))
    (h : rows ≠ []) : firstWidth (rows ++ more) = firstWidth rows := by
  obtain ⟨row, rest, rfl⟩ := List.exists_cons_of_ne_nil h
  rfl

theorem columns_eq_firstWidth (t : Table α) : t.columns = firstWidth t.rows := by
  cases h : t.rows with
  | nil => exact t.columns_eq_zero_iff.mpr h
  | cons row rest => exact (t.row_length row (by rw [h]; exact List.mem_cons_self)).symm

/-- A table is its rows. -/
theorem ext_rows (h : t.rows = u.rows) : t = u := by
  have hc : t.columns = u.columns := by
    rw [columns_eq_firstWidth, columns_eq_firstWidth, h]
  have hv : t.values = u.values := by
    rw [← t.flatten_rows, ← u.flatten_rows, h]
  obtain ⟨⟨_, _⟩, _⟩ := t
  obtain ⟨⟨_, _⟩, _⟩ := u
  cases hc
  cases hv
  rfl

/-- A table has the rows of another and one more when its values are those of the other and the
row. -/
theorem rows_eq_append_iff {row : List α} (hrow : row ≠ []) :
    u.rows = t.rows ++ [row] ↔
      (t.columns = 0 ∨ row.length = t.columns) ∧ u.toBuffer = ⟨row.length, t.values ++ row⟩ := by
  constructor
  · intro h
    have hlength : row.length = u.columns :=
      u.row_length row (by rw [h]; exact List.mem_append_right _ (List.mem_singleton_self row))
    have hvalues : u.values = t.values ++ row := by
      rw [← u.flatten_rows, h, List.flatten_append, t.flatten_rows, List.flatten_singleton]
    refine ⟨?_, by rw [hlength, ← hvalues]⟩
    by_cases hc : t.columns = 0
    · exact .inl hc
    · have hrows : t.rows ≠ [] := mt t.columns_eq_zero_iff.mpr hc
      rw [hlength, u.columns_eq_firstWidth, h, firstWidth_append _ hrows, ← t.columns_eq_firstWidth]
      exact .inr rfl
  · rintro ⟨hwidth, h⟩
    rw [h, t.whole.rows_append hrow hwidth]

/-- The table with given rows: they have one width, and none is empty. -/
def ofRows (rows : List (List α)) (nonempty : ∀ row ∈ rows, row ≠ [])
    (width : ∀ row ∈ rows, row.length = firstWidth rows) : Table α where
  columns := firstWidth rows
  values := rows.flatten
  whole.dvd := ⟨rows.length, by rw [length_flatten_of_width width, Nat.mul_comm]⟩
  whole.columns_eq_zero_iff := by
    cases rows with
    | nil => simp [firstWidth]
    | cons row rest =>
      have hrow := nonempty row List.mem_cons_self
      simp [firstWidth, hrow]

theorem rows_ofRows {rows : List (List α)} (nonempty : ∀ row ∈ rows, row ≠ [])
    (width : ∀ row ∈ rows, row.length = firstWidth rows) :
    (ofRows rows nonempty width).rows = rows := by
  cases rows with
  | nil => rfl
  | cons first rest =>
    have hfirst : 0 < first.length := List.length_pos_iff.mpr (nonempty first List.mem_cons_self)
    have hmax : max first.length 1 = first.length := by omega
    show cut (max first.length 1) [] (first :: rest).flatten = first :: rest
    rw [hmax, cut_flatten hfirst width]

/-- Some of the rows of a table make a table. -/
theorem exists_of_rows_subset (t : Table α) (rows : List (List α)) (h : ∀ row ∈ rows, row ∈ t.rows) :
    ∃ u : Table α, u.rows = rows := by
  have hwidth : ∀ row ∈ rows, row.length = firstWidth rows := by
    intro row hr
    cases rows with
    | nil => exact absurd hr List.not_mem_nil
    | cons first rest =>
      show row.length = first.length
      rw [t.row_length row (h row hr), t.row_length first (h first List.mem_cons_self)]
  exact ⟨ofRows rows (fun row hr => row_ne_nil (h row hr)) hwidth, rows_ofRows _ _⟩

end Table

end FluidAnalysis
