import FluidAnalysis.Proofs.Table.RoundTrip
import FluidAnalysis.Proofs.Text.LineEnds

/-!
# Headers of stored tables

A header is written as comment lines, and a stored text has line feeds only. A carriage return within
a line of a header becomes a line feed when the table is stored, and what follows it stands on a line
of its own without a comment sign. That text is read as data where it holds words.

Main statement: `parse_normalize_eq_iff`.
-/

namespace FluidAnalysis.Table

/-- The lines of a stored header that no comment sign stands before: what follows a carriage return
within a line, up to the next one. -/
def uncoveredLines (header : Option String) : List (List Char) :=
  (header.map fun text =>
    (Text.lines text.toList).flatMap fun line => (Text.storedLines line).tail).getD []

theorem dataWords_comment (line : List Char) : dataWords ('#' :: line) = [] := rfl

theorem wordRows_comment (line : List Char) (others : List (List Char)) :
    wordRows (('#' :: line) :: others) = wordRows others := by
  rw [← List.singleton_append, wordRows_append,
    wordRows_singleton_of_nil (dataWords_comment line), List.nil_append]

/-- A stored header line is a comment up to its first carriage return. -/
theorem wordRows_storedLines_comment (line : List Char) :
    wordRows (Text.storedLines ('#' :: ' ' :: line)) = wordRows (Text.storedLines line).tail := by
  obtain ⟨first, others, hline, hspace⟩ := Text.storedLines_cons (c := ' ') (by decide) line
  obtain ⟨first', others', hspace', hcomment⟩ :=
    Text.storedLines_cons (c := '#') (by decide) (' ' :: line)
  rw [hspace, List.cons.injEq] at hspace'
  rw [hcomment, wordRows_comment, hline, List.tail_cons, hspace'.2]

theorem wordRows_flatMap {β : Type} (xs : List β) (f : β → List (List Char)) :
    wordRows (xs.flatMap f) = xs.flatMap fun x => wordRows (f x) := by
  induction xs with
  | nil => rfl
  | cons x xs ih => rw [List.flatMap_cons, wordRows_append, ih, List.flatMap_cons]

/-- **The data of a stored header are those of its uncovered lines.** -/
theorem wordRows_storedHeader (header : Option String) :
    wordRows ((headerLines header).flatMap Text.storedLines)
      = wordRows (uncoveredLines header) := by
  cases header with
  | none => rfl
  | some text =>
    rw [uncoveredLines, headerLines, Option.map_some, Option.map_some, Option.getD_some,
      Option.getD_some, List.flatMap_map, wordRows_flatMap, wordRows_flatMap]
    simp only [wordRows_storedLines_comment]

/-- **The data of stored columns** are those that the header leaves uncovered, and then those of the
text as it was written. -/
theorem wordRows_storedColumns (columns : List (List Float)) (format : ColumnFormat) :
    wordRows ((writtenLines columns format).flatMap Text.storedLines)
      = wordRows (uncoveredLines format.header)
        ++ wordRows ((writtenLines columns format).map Text.dropReturn) := by
  have hrows : ∀ line ∈ (List.range (firstWidth columns)).map fun i =>
      rowLine format (rowOf columns i), '\r' ∉ line := by
    intro line hline
    obtain ⟨i, -, rfl⟩ := List.mem_map.mp hline
    exact not_mem_rowLine (by decide)
  rw [writtenLines, List.flatMap_append, wordRows_append, wordRows_storedHeader, List.map_append,
    wordRows_append, wordRows_headerLines, List.nil_append, Text.flatMap_storedLines hrows]

/-- What is read from stored columns: the rows of the uncovered lines come before those of the
table. -/
theorem parse_normalize_eq_ok_iff {columns : List (List Float)} {format : ColumnFormat}
    {t u : Table Float}
    (ht : parse (String.ofList ((writtenLines columns format).map (· ++ ['\n'])).flatten) = .ok t) :
    parse (Text.normalize
        (String.ofList ((writtenLines columns format).map (· ++ ['\n'])).flatten)) = .ok u ↔
      u.cells = (wordRows (uncoveredLines format.header)).map (List.map Decimal.readChars?)
        ++ t.cells := by
  have hfeed : ∀ line ∈ writtenLines columns format, '\n' ∉ line :=
    fun _ => newline_not_mem_writtenLines
  rw [parse, String.toList_ofList, parseWith_eq_ok_iff, Text.lines_flatten hfeed] at ht
  rw [parse, Text.normalize, String.toList_ofList, String.toList_ofList, parseWith_eq_ok_iff,
    Text.lines_normalizeChars hfeed, wordRows_storedColumns, List.map_append, ht]

/-- **Header text turns into data exactly where a carriage return uncovers a word of it.** Columns of
one length are written whatever the header, and what is read from the stored text has the rows of the
uncovered lines of the header before the rows that were written. So it is the written table if and
only if no uncovered line holds a word before a comment sign of its own. -/
theorem parse_normalize_eq_iff {columns : List (List Float)} {n : Nat} (format : ColumnFormat)
    (h : ∀ column ∈ columns, column.length = n) :
    ∃ text t, renderColumns columns format = .ok text ∧ parse text = .ok t ∧
      (∀ u, parse (Text.normalize text) = .ok u ↔
        u.cells = (wordRows (uncoveredLines format.header)).map (List.map Decimal.readChars?)
          ++ t.cells) ∧
      (parse (Text.normalize text) = parse text ↔
        ∀ line ∈ uncoveredLines format.header, dataWords line = []) := by
  have hwidth : ∀ column ∈ columns, column.length = firstWidth columns :=
    fun _ => length_eq_firstWidth h
  obtain ⟨t, ht, -⟩ := parse_writtenLines format hwidth
  have hstored := fun u : Table Float => parse_normalize_eq_ok_iff (u := u) ht
  refine ⟨_, t, renderColumns_eq_ok format hwidth, ht, hstored, ?_⟩
  rw [ht, hstored t, List.self_eq_append_left, List.map_eq_nil_iff]
  constructor
  · intro hnil line hline
    by_contra hwords
    have hmem := mem_wordRows.mpr ⟨hwords, line, hline, rfl⟩
    rw [hnil] at hmem
    exact List.not_mem_nil hmem
  · exact wordRows_eq_nil

/-- A carriage return in a header makes a row of what follows it. -/
theorem returned_header_adds_row :
    (∀ column ∈ ([[1], [3]] : List (List Float)), column.length = 1) ∧
    ∃ text t, renderColumns [[1], [3]] ⟨6, .space, some "T CV\r2 4"⟩ = .ok text ∧
      parse text = .ok t ∧ parse (Text.normalize text) ≠ .ok t := by
  have hlength : ∀ column ∈ ([[1], [3]] : List (List Float)), column.length = 1 := by simp
  have huncovered : uncoveredLines (some "T CV\r2 4") = [['2', ' ', '4']] := by decide
  refine ⟨hlength, ?_⟩
  obtain ⟨text, t, hwritten, ht, -, hsame⟩ :=
    parse_normalize_eq_iff ⟨6, .space, some "T CV\r2 4"⟩ hlength
  refine ⟨text, t, hwritten, ht, ?_⟩
  intro hstored
  have hblank := hsame.mp (hstored.trans ht.symm) ['2', ' ', '4']
    (by rw [huncovered]; exact List.mem_singleton_self _)
  exact absurd hblank (by decide)

end FluidAnalysis.Table
