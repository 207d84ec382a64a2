import FluidAnalysis.Proofs.Decimal.Word
import FluidAnalysis.Proofs.Table.Grammar
import FluidAnalysis.Table.Columns

/-!
# Written columns are read back

A written table consists of comment lines, which the reader passes over, and of one line per row,
whose words are the numbers of the row in general notation (`wordRows_writtenLines`). Reading it gives
the columns back, each number as its text says.

Main statement: `parse_renderColumns`.
-/

namespace FluidAnalysis.Table

/-! ## Rows of columns -/

/-- The values that the columns have at position `i`. -/
def rowOf {α : Type} (columns : List (List α)) (i : Nat) : List α :=
  columns.filterMap (·[i]?)

theorem rowOf_cons {α : Type} {column : List α} {rest : List (List α)} {i : Nat}
    (h : i < column.length) : rowOf (column :: rest) i = column[i] :: rowOf rest i := by
  rw [rowOf, List.filterMap_cons, List.getElem?_eq_getElem h, rowOf]

/-- Taking a row of the columns transposes them. -/
theorem getElem?_rowOf {α : Type} {i : Nat} : ∀ {columns : List (List α)},
    (∀ column ∈ columns, i < column.length) →
      ∀ j : Nat, (rowOf columns i)[j]? = columns[j]?.bind (·[i]?)
  | [], _, j => rfl
  | column :: rest, h, j => by
    have hi := h column List.mem_cons_self
    rw [rowOf_cons hi]
    cases j with
    | zero => rw [List.getElem?_cons_zero, List.getElem?_cons_zero, Option.bind_some,
        List.getElem?_eq_getElem hi]
    | succ j =>
      rw [List.getElem?_cons_succ, List.getElem?_cons_succ]
      exact getElem?_rowOf (fun c hc => h c (List.mem_cons_of_mem _ hc)) j

theorem length_rowOf {α : Type} {i : Nat} : ∀ {columns : List (List α)},
    (∀ column ∈ columns, i < column.length) → (rowOf columns i).length = columns.length
  | [], _ => rfl
  | column :: rest, h => by
    rw [rowOf_cons (h column List.mem_cons_self), List.length_cons, List.length_cons,
      length_rowOf fun c hc => h c (List.mem_cons_of_mem _ hc)]

/-- Every column has a value at a position that lies inside all of them. -/
theorem rowAt_eq_ok {α : Type} {i : Nat} : ∀ {columns : List (List α)},
    (∀ column ∈ columns, i < column.length) → rowAt columns i = .ok (rowOf columns i)
  | [], _ => rfl
  | column :: rest, h => by
    have hrest : rest.mapM (fun column => entryAt column i) = .ok (rowOf rest i) :=
      rowAt_eq_ok fun c hc => h c (List.mem_cons_of_mem _ hc)
    have hi := h column List.mem_cons_self
    rw [rowAt, List.mapM_cons, entryAt_eq_ok hi, hrest, rowOf_cons hi]
    rfl

theorem lt_length_of_mem {columns : List (List Float)} {i : Nat}
    (h : ∀ column ∈ columns, column.length = firstWidth columns) (hi : i < firstWidth columns) :
    ∀ column ∈ columns, i < column.length :=
  fun column hc => by rwa [h column hc]

/-! ## One line -/

/-- The words of a row. -/
def cellWords (format : ColumnFormat) (row : List Float) : List (List Char) :=
  row.map fun x => (Decimal.general x format.precision).toList

/-- The line of a row, without its end. -/
def rowLine (format : ColumnFormat) (row : List Float) : List Char :=
  [format.separator.char].intercalate (cellWords format row)

theorem isNumberWord_of_mem {format : ColumnFormat} {row : List Float} {word : List Char}
    (h : word ∈ cellWords format row) : Decimal.IsNumberWord word := by
  obtain ⟨x, -, rfl⟩ := List.mem_map.mp h
  exact Decimal.general_isNumberWord x format.precision

theorem mem_intercalate {separator c : Char} : ∀ {ws : List (List Char)},
    c ∈ [separator].intercalate ws → c = separator ∨ ∃ w ∈ ws, c ∈ w
  | [], h => absurd h List.not_mem_nil
  | [w], h => Or.inr ⟨w, List.mem_cons_self, by simpa using h⟩
  | w :: v :: rest, h => by
    rw [List.intercalate_cons_cons, List.append_assoc, List.mem_append, List.mem_append,
      List.mem_singleton] at h
    rcases h with h | h | h
    · exact Or.inr ⟨w, List.mem_cons_self, h⟩
    · exact Or.inl h
    · refine (mem_intercalate h).imp_right ?_
      rintro ⟨u, hu, hc⟩
      exact ⟨u, List.mem_cons_of_mem _ hu, hc⟩

theorem length_cellWords {columns : List (List Float)} {format : ColumnFormat} {i : Nat}
    (h : ∀ column ∈ columns, column.length = firstWidth columns) (hi : i < firstWidth columns) :
    (cellWords format (rowOf columns i)).length = columns.length := by
  rw [cellWords, List.length_map, length_rowOf (lt_length_of_mem h hi)]

/-- A character of a row stands in a number or is the separator. -/
theorem rowLine_char {format : ColumnFormat} {row : List Float} {c : Char}
    (h : c ∈ rowLine format row) :
    c = format.separator.char ∨ (Text.isBlank c = false ∧ c ≠ '#') := by
  refine (mem_intercalate h).imp_right ?_
  rintro ⟨word, hw, hc⟩
  exact (isNumberWord_of_mem hw).plain c hc

theorem not_mem_rowLine {format : ColumnFormat} {row : List Float} {c : Char}
    (h : c ∈ ['\n', '\r', '#']) : c ∉ rowLine format row := by
  intro hc
  rcases rowLine_char hc with hsep | ⟨hblank, hhash⟩
  · rw [hsep] at h
    cases hs : format.separator <;> rw [hs] at h <;> exact absurd h (by decide)
  · simp only [List.mem_cons, List.not_mem_nil, or_false] at h
    -- the ends of lines are blanks, and a number holds none
    rcases h with rfl | rfl | rfl
    · exact absurd hblank (by decide)
    · exact absurd hblank (by decide)
    · exact hhash rfl

/-- **The words of a written row are its numbers.** -/
theorem dataWords_rowLine (format : ColumnFormat) (row : List Float) :
    dataWords (rowLine format row) = cellWords format row := by
  have htake : (rowLine format row).takeWhile (· != '#') = rowLine format row := by
    rw [List.takeWhile_eq_self_iff]
    intro c hc
    rw [bne_iff_ne]
    rintro rfl
    exact not_mem_rowLine (by decide) hc
  have hblank : Text.isBlank format.separator.char = true := by
    cases format.separator <;> decide
  rw [dataWords, htake, rowLine, Text.words_intercalate hblank]
  intro word hw
  have hnumber := isNumberWord_of_mem hw
  exact ⟨hnumber.nonempty, fun c hc => (hnumber.plain c hc).1⟩

theorem dropReturn_rowLine (format : ColumnFormat) (row : List Float) :
    Text.dropReturn (rowLine format row) = rowLine format row :=
  Text.dropReturn_of_not_mem (not_mem_rowLine (by decide))

/-- A header line is a comment, whatever stands in it. -/
theorem dataWords_dropReturn_comment (line : List Char) :
    dataWords (Text.dropReturn ('#' :: ' ' :: line)) = [] := by
  have hhead : ∃ rest, Text.dropReturn ('#' :: ' ' :: line) = '#' :: rest := by
    unfold Text.dropReturn
    split
    · exact ⟨_, List.dropLast_cons_of_ne_nil (List.cons_ne_nil _ _)⟩
    · exact ⟨_, rfl⟩
  obtain ⟨rest, hrest⟩ := hhead
  rw [hrest]
  rfl

/-! ## All lines -/

/-- The lines of a header. -/
def headerLines (header : Option String) : List (List Char) :=
  (header.map fun text => (Text.lines text.toList).map ('#' :: ' ' :: ·)).getD []

/-- The lines of written columns. -/
def writtenLines (columns : List (List Float)) (format : ColumnFormat) : List (List Char) :=
  headerLines format.header ++
    (List.range (firstWidth columns)).map fun i => rowLine format (rowOf columns i)

theorem header_eq_flatten (header : Option String) :
    (header.map renderHeader).getD [] = ((headerLines header).map (· ++ ['\n'])).flatten := by
  cases header with
  | none => rfl
  | some text =>
    show renderHeader text = _
    rw [renderHeader, headerLines, Option.map_some, Option.getD_some, List.map_map]
    rfl

theorem firstWidth_eq {columns : List (List Float)} {n : Nat}
    (h : ∀ column ∈ columns, column.length = n) :
    firstWidth columns = if columns = [] then 0 else n := by
  cases columns with
  | nil => rfl
  | cons first rest => exact h first List.mem_cons_self

theorem length_eq_firstWidth {columns : List (List Float)} {n : Nat}
    (h : ∀ column ∈ columns, column.length = n) {column : List Float} (hc : column ∈ columns) :
    column.length = firstWidth columns := by
  rw [firstWidth_eq h, if_neg (List.ne_nil_of_mem hc), h column hc]

/-- Columns of one length are written, and every line ends with a line feed. -/
theorem renderColumns_eq_ok {columns : List (List Float)} (format : ColumnFormat)
    (h : ∀ column ∈ columns, column.length = firstWidth columns) :
    renderColumns columns format =
      .ok (String.ofList ((writtenLines columns format).map (· ++ ['\n'])).flatten) := by
  have hfind : columns.find? (fun column => column.length != firstWidth columns) = none := by
    rw [List.find?_eq_none]
    intro column hc
    rw [bne_iff_ne, not_not]
    exact h column hc
  have hrows : (List.range (firstWidth columns)).mapM (rowAt columns)
      = .ok ((List.range (firstWidth columns)).map (rowOf columns)) := by
    rw [mapM_eq_ok_iff, List.map_map]
    exact List.map_congr_left fun i hi =>
      rowAt_eq_ok (lt_length_of_mem h (List.mem_range.mp hi))
  unfold renderColumns
  simp only
  rw [show (columns.head?.map List.length).getD 0 = firstWidth columns from rfl, hfind, writtenLines,
    List.map_append, List.flatten_append, ← header_eq_flatten, List.map_map]
  simp only [hrows, bind, Except.bind, pure, Except.pure, List.map_map]
  rfl

theorem renderColumns_eq_error {columns : List (List Float)} (format : ColumnFormat)
    {a b : List Float} (ha : a ∈ columns) (hb : b ∈ columns) (h : a.length ≠ b.length) :
    ∃ other, renderColumns columns format = .error (.columnLengths (firstWidth columns) other) := by
  unfold renderColumns
  simp only
  rw [show (columns.head?.map List.length).getD 0 = firstWidth columns from rfl]
  split
  · exact ⟨_, rfl⟩
  · next hfind =>
    rw [List.find?_eq_none] at hfind
    have hall : ∀ column ∈ columns, column.length = firstWidth columns := by
      intro column hc
      have := hfind column hc
      rwa [bne_iff_ne, not_not] at this
    exact absurd ((hall a ha).trans (hall b hb).symm) h

theorem newline_not_mem_writtenLines {columns : List (List Float)} {format : ColumnFormat}
    {line : List Char} (h : line ∈ writtenLines columns format) : '\n' ∉ line := by
  rcases List.mem_append.mp h with hline | hline
  · cases hheader : format.header with
    | none =>
      rw [hheader] at hline
      cases hline
    | some text =>
      rw [hheader] at hline
      obtain ⟨body, hbody, rfl⟩ := List.mem_map.mp hline
      simpa using Text.newline_not_mem_lines hbody
  · obtain ⟨i, -, rfl⟩ := List.mem_map.mp hline
    exact not_mem_rowLine (by decide)

theorem wordRows_eq_nil {lines : List (List Char)} (h : ∀ line ∈ lines, dataWords line = []) :
    wordRows lines = [] := by
  rw [List.eq_nil_iff_forall_not_mem]
  intro words hw
  obtain ⟨hne, line, hline, hwords⟩ := mem_wordRows.mp hw
  exact hne (hwords ▸ h line hline)

theorem wordRows_eq_map {lines : List (List Char)} (h : ∀ line ∈ lines, dataWords line ≠ []) :
    wordRows lines = lines.map dataWords := by
  rw [wordRows, List.filter_eq_self]
  intro words hw
  obtain ⟨line, hline, rfl⟩ := List.mem_map.mp hw
  simpa using h line hline

theorem wordRows_headerLines (header : Option String) :
    wordRows ((headerLines header).map Text.dropReturn) = [] := by
  apply wordRows_eq_nil
  intro line hline
  obtain ⟨body, hbody, rfl⟩ := List.mem_map.mp hline
  cases header with
  | none => cases hbody
  | some text =>
    obtain ⟨line, -, rfl⟩ := List.mem_map.mp hbody
    exact dataWords_dropReturn_comment line

/-- **The data of a written table are its rows, word by word.** -/
theorem wordRows_writtenLines {columns : List (List Float)} (format : ColumnFormat)
    (h : ∀ column ∈ columns, column.length = firstWidth columns) :
    wordRows ((writtenLines columns format).map Text.dropReturn)
      = (List.range (firstWidth columns)).map fun i => cellWords format (rowOf columns i) := by
  rw [writtenLines, List.map_append, wordRows_append, wordRows_headerLines, List.nil_append,
    List.map_map]
  simp only [Function.comp_def, dropReturn_rowLine]
  rw [wordRows_eq_map, List.map_map]
  · simp only [Function.comp_def, dataWords_rowLine]
  · intro line hline
    obtain ⟨i, hi, rfl⟩ := List.mem_map.mp hline
    -- there is a row, so there is a first column, and every row has a value of it
    have hne : columns ≠ [] := by
      rintro rfl
      exact absurd (List.mem_range.mp hi) (Nat.not_lt_zero i)
    rw [dataWords_rowLine, ← List.length_pos_iff, length_cellWords h (List.mem_range.mp hi)]
    exact List.length_pos_iff.mpr hne

/-! ## Reading back -/

theorem parse_writtenLines {columns : List (List Float)} (format : ColumnFormat)
    (h : ∀ column ∈ columns, column.length = firstWidth columns) :
    ∃ t, parse (String.ofList ((writtenLines columns format).map (· ++ ['\n'])).flatten) = .ok t ∧
      t.cells = ((List.range (firstWidth columns)).map fun i =>
        cellWords format (rowOf columns i)).map (List.map Decimal.readChars?) := by
  have hrows := wordRows_writtenLines format h
  rw [← Text.lines_flatten fun _ => newline_not_mem_writtenLines] at hrows
  rw [parse, String.toList_ofList]
  have hok : ∃ t, parseWith Decimal.readChars?
      ((writtenLines columns format).map (· ++ ['\n'])).flatten = .ok t := by
    rw [exists_parseWith_eq_ok_iff, hrows]
    constructor
    · intro words hw word hword
      obtain ⟨i, -, rfl⟩ := List.mem_map.mp hw
      exact (isNumberWord_of_mem hword).number
    · intro a ha b hb
      obtain ⟨i, hi, rfl⟩ := List.mem_map.mp ha
      obtain ⟨j, hj, rfl⟩ := List.mem_map.mp hb
      rw [length_cellWords h (List.mem_range.mp hi), length_cellWords h (List.mem_range.mp hj)]
  obtain ⟨t, ht⟩ := hok
  exact ⟨t, ht, by rw [parseWith_eq_ok_iff.mp ht, hrows]⟩

/-- The value at a place, as what was read for its word. -/
theorem map_some_value? {α : Type} (t : Table α) (i j : Nat) :
    (t.value? i j).map some = t.cells[i]?.bind (·[j]?) := by
  rw [Buffer.value?, t.whole.row?_eq, Buffer.cells, List.getElem?_map]
  cases h : t.rows[i]? with
  | none =>
    rw [Option.bind_none, ite_self]
    rfl
  | some row =>
    have hlength : row.length = t.columns := t.row_length row (List.mem_of_getElem? h)
    rw [Option.bind_some, Option.map_some, Option.bind_some, List.getElem?_map]
    split
    · rfl
    · next hj => rw [List.getElem?_eq_none (by omega)]

/-- The word at a place is the number of the column there. -/
theorem getElem?_cellWords {columns : List (List Float)} {format : ColumnFormat}
    (h : ∀ column ∈ columns, column.length = firstWidth columns) (i j : Nat) :
    (((List.range (firstWidth columns)).map fun i =>
        cellWords format (rowOf columns i)).map (List.map Decimal.readChars?))[i]?.bind (·[j]?)
      = (columns[j]?.bind (·[i]?)).map fun x =>
        Decimal.read? (Decimal.general x format.precision) := by
  rw [List.map_map, List.getElem?_map]
  by_cases hi : i < firstWidth columns
  · rw [List.getElem?_range hi, ← getElem?_rowOf (lt_length_of_mem h hi), ← List.getElem?_map]
    show ((cellWords format (rowOf columns i)).map Decimal.readChars?)[j]? = _
    rw [cellWords, List.map_map]
    rfl
  · rw [List.getElem?_eq_none (by simpa using hi), Option.map_none, Option.bind_none]
    cases hj : columns[j]? with
    | none => rfl
    | some column =>
      have hlen := h column (List.mem_of_getElem? hj)
      rw [Option.bind_some, List.getElem?_eq_none (by omega), Option.map_none]

theorem firstWidth_cellWords {columns : List (List Float)} (format : ColumnFormat)
    (h : ∀ column ∈ columns, column.length = firstWidth columns) :
    firstWidth ((List.range (firstWidth columns)).map fun i => cellWords format (rowOf columns i))
      = if firstWidth columns = 0 then 0 else columns.length := by
  split
  · next hzero => rw [hzero]; rfl
  · next hpos =>
    obtain ⟨n, hn⟩ := Nat.exists_eq_succ_of_ne_zero hpos
    rw [← length_cellWords h (Nat.pos_of_ne_zero hpos), hn, List.range_succ_eq_map]
    rfl

/-- **Written columns are read back, with nothing lost or added.** Columns of one length are written
whatever the header, and reading the text gives a table with a row for each position, a column for
each column, and in each place the number that the written text says. Columns of different lengths
are refused. -/
theorem parse_renderColumns (columns : List (List Float)) (format : ColumnFormat) :
    (∀ n, (∀ column ∈ columns, column.length = n) →
      ∃ text t, renderColumns columns format = .ok text ∧ parse text = .ok t ∧
        t.rowCount = (if columns = [] then 0 else n) ∧
        t.columns = (if n = 0 then 0 else columns.length) ∧
        ∀ i j : Nat, (t.value? i j).map some = (columns[j]?.bind (·[i]?)).map fun x =>
          Decimal.read? (Decimal.general x format.precision)) ∧
    ((∃ a ∈ columns, ∃ b ∈ columns, a.length ≠ b.length) →
      ∃ e, renderColumns columns format = .error e ∧
        e.diagnostic.code = "INTERNAL.COLUMN_LENGTH") := by
  constructor
  · intro n hn
    have h : ∀ column ∈ columns, column.length = firstWidth columns :=
      fun _ => length_eq_firstWidth hn
    obtain ⟨t, ht, hcells⟩ := parse_writtenLines format h
    refine ⟨_, t, renderColumns_eq_ok format h, ht, ?_, ?_, ?_⟩
    · rw [← firstWidth_eq hn]
      rw [t.whole.rowCount_eq]
      simpa [Buffer.cells] using congrArg List.length hcells
    · rw [columns_eq_of_cells hcells, firstWidth_cellWords format h, firstWidth_eq hn]
      -- without columns every length is the common one, and nothing is written for it
      by_cases hnil : columns = []
      · rw [hnil, List.length_nil, ite_self, ite_self]
      · rw [if_neg hnil]
    · intro i j
      rw [map_some_value?, hcells, getElem?_cellWords h]
  · rintro ⟨a, ha, b, hb, hdiffers⟩
    obtain ⟨other, herror⟩ := renderColumns_eq_error format ha hb hdiffers
    exact ⟨_, herror, rfl⟩

/-- Two columns under a header of two lines, one of which looks like data. -/
theorem parse_renderColumns_two :
    (∀ column ∈ [[0.01, -2.5e10], [46.5, 0]], column.length = 2) ∧
    (∃ text t,
      renderColumns [[0.01, -2.5e10], [46.5, 0]] ⟨4, .tab, some "T\tCV\n1 2 3\r"⟩ = .ok text ∧
      parse text = .ok t ∧ t.rowCount = 2 ∧ t.columns = 2 ∧
      (t.value? 1 0).map some = some (Decimal.read? (Decimal.general (-2.5e10) 4))) ∧
    (∃ e, renderColumns [[0.01], [46.5, 0]] ⟨4, .tab, none⟩ = .error e ∧
      e.diagnostic.code = "INTERNAL.COLUMN_LENGTH") := by
  have hlength : ∀ column ∈ ([[0.01, -2.5e10], [46.5, 0]] : List (List Float)),
      column.length = 2 := by simp
  refine ⟨hlength, ?_, ?_⟩
  · obtain ⟨text, t, hwrite, hread, hrows, hcolumns, hvalues⟩ :=
      (parse_renderColumns [[0.01, -2.5e10], [46.5, 0]]
        ⟨4, .tab, some "T\tCV\n1 2 3\r"⟩).1 2 hlength
    exact ⟨text, t, hwrite, hread, hrows, hcolumns, hvalues 1 0⟩
  · exact (parse_renderColumns [[0.01], [46.5, 0]] ⟨4, .tab, none⟩).2
      ⟨[0.01], by simp, [46.5, 0], by simp, by simp⟩

end FluidAnalysis.Table
