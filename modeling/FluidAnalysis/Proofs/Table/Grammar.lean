import FluidAnalysis.Proofs.Table.Rows
import FluidAnalysis.Proofs.Text.Lines
import FluidAnalysis.Proofs.Traversal
import FluidAnalysis.Table.Reader

/-!
# The grammar of tables

Which texts are tables, which table a text stands for, and what is reported of a text that is none.

The reader carries a buffer along and adds one line after the other. What one line adds is said once
(`readLine_eq_ok_iff`), as an equation between the rows before and after it; a whole run then adds
the rows of all its lines (`readLines_eq_ok_iff`). A run that fails has a first line that does not
fit (`readLines_eq_error`), and everything before it was read as a table.

Main statement: `parse_grammar`.
-/

namespace FluidAnalysis.Table

variable {α : Type} {cell : List Char → Option α}

/-! ## The grammar -/

/-- The words of those lines that have some. -/
def wordRows (lines : List (List Char)) : List (List (List Char)) :=
  (lines.map dataWords).filter (!·.isEmpty)

/-- A line that a table of some width takes in: its words are numbers, and there are as many as the
width says unless there are none. -/
structure Fits (cell : List Char → Option α) (width : Nat) (words : List (List Char)) : Prop where
  numbers : ∀ word ∈ words, (cell word).isSome
  width : words ≠ [] → words.length = width

/-- What is shown of a line that does not fit: its first word that is no number, or else its
width. -/
inductive RowFault (cell : List Char → Option α) (width number : Nat) (words : List (List Char)) :
    Diagnostic → Prop where
  | badWord {good rest : List (List Char)} {word : List Char} {token : String}
      (split : words = good ++ word :: rest) (numbers : ∀ w ∈ good, (cell w).isSome)
      (bad : cell word = none) (named : token = String.ofList word) :
      RowFault cell width number words
        ⟨.input, "INPUT.TABLE_PARSE", s!"line {number}: '{token}' is not a number"⟩
  | badWidth {found : Nat} (numbers : ∀ w ∈ words, (cell w).isSome) (count : found = words.length)
      (nonempty : words ≠ []) (differs : found ≠ width) :
      RowFault cell width number words
        ⟨.input, "INPUT.TABLE_RAGGED", s!"line {number}: expected {width} columns but found {found}"⟩

@[simp] theorem wordRows_append (a b : List (List Char)) :
    wordRows (a ++ b) = wordRows a ++ wordRows b := by
  rw [wordRows, List.map_append, List.filter_append]
  rfl

theorem wordRows_singleton_of_nil {line : List Char} (h : dataWords line = []) :
    wordRows [line] = [] := by
  simp [wordRows, h]

theorem wordRows_singleton {line : List Char} (h : dataWords line ≠ []) :
    wordRows [line] = [dataWords line] := by
  simpa [wordRows] using h

theorem mem_wordRows {lines : List (List Char)} {words : List (List Char)} :
    words ∈ wordRows lines ↔ words ≠ [] ∧ ∃ line ∈ lines, dataWords line = words := by
  rw [wordRows, List.mem_filter, List.mem_map, and_comm]
  simp

theorem map_map_some_inj {a b : List (List α)} (h : a.map (List.map some) = b.map (List.map some)) :
    a = b :=
  (List.map_inj_right fun _ _ hrow => (List.map_inj_right fun _ _ => Option.some.inj).mp hrow).mp h

theorem cells_inj {t u : Table α} (h : t.cells = u.cells) : t = u :=
  ext_rows (map_map_some_inj h)

/-- Words that were read as a row are numbers, one for each value. -/
theorem numbers_of_map {row : List α} {words : List (List Char)}
    (h : row.map some = words.map cell) :
    (∀ word ∈ words, (cell word).isSome) ∧ words.length = row.length := by
  constructor
  · intro word hword
    have hmem : cell word ∈ row.map some := by rw [h]; exact List.mem_map_of_mem hword
    obtain ⟨value, -, hvalue⟩ := List.mem_map.mp hmem
    rw [← hvalue]
    rfl
  · simpa using congrArg List.length h.symm

theorem fits_of_cells {t : Table α} {rows : List (List (List Char))}
    (h : t.cells = rows.map (List.map cell)) {words : List (List Char)} (hw : words ∈ rows) :
    (∀ word ∈ words, (cell word).isSome) ∧ words.length = t.columns := by
  have hmem : words.map cell ∈ t.cells := by rw [h]; exact List.mem_map_of_mem hw
  obtain ⟨row, hrow, hcells⟩ := List.mem_map.mp hmem
  rw [← t.row_length row hrow]
  exact numbers_of_map hcells

theorem columns_eq_of_cells {t : Table α} {rows : List (List (List Char))}
    (h : t.cells = rows.map (List.map cell)) : t.columns = firstWidth rows := by
  cases rows with
  | nil => exact t.columns_eq_zero_iff.mpr (List.map_eq_nil_iff.mp h)
  | cons words rest => exact (fits_of_cells h List.mem_cons_self).2.symm

/-! ## One row -/

/-- All words of a row are numbers, and these are its numbers. -/
theorem readRow_eq_ok_iff {number : Nat} : ∀ {words : List (List Char)} {row : List α},
    readRow cell number words = .ok row ↔ row.map some = words.map cell
  | [], row => by
    rw [readRow, Except.ok.injEq, List.map_nil, List.map_eq_nil_iff, eq_comm]
  | word :: rest, row => by
    rw [readRow]
    cases hw : cell word with
    | none => cases row <;> simp [hw]
    | some value =>
      cases hr : readRow cell number rest with
      | error e =>
        have hrest : ∀ tail : List α, tail.map some ≠ rest.map cell := by
          intro tail htail
          rw [readRow_eq_ok_iff.mpr htail] at hr
          cases hr
        cases row <;> simp [hw, Except.map, hrest]
      | ok tail =>
        have htail := readRow_eq_ok_iff.mp hr
        have hinj : ∀ other : List α, tail = other ↔ other.map some = rest.map cell := by
          intro other
          rw [← htail, eq_comm]
          exact (List.map_inj_right fun _ _ => Option.some.inj).symm
        cases row with
        | nil => simp [Except.map]
        | cons first others => simp [hw, Except.map, hinj, eq_comm]

/-- A row is refused for its first word that is no number. -/
theorem readRow_eq_error {number : Nat} : ∀ {words : List (List Char)} {e : Failure},
    readRow cell number words = .error e →
      ∃ good word rest, words = good ++ word :: rest ∧ (∀ w ∈ good, (cell w).isSome) ∧
        cell word = none ∧ e = .notANumber number (String.ofList word)
  | [], _, h => by simp [readRow] at h
  | word :: rest, e, h => by
    rw [readRow] at h
    cases hw : cell word with
    | none =>
      rw [hw] at h
      exact ⟨[], word, rest, rfl, by simp, hw, (Except.error.inj h).symm⟩
    | some value =>
      rw [hw] at h
      cases hr : readRow cell number rest with
      | ok tail => simp [hr, Except.map] at h
      | error e' =>
        obtain ⟨good, bad, after, hsplit, hgood, hbad, he'⟩ := readRow_eq_error hr
        rw [hr] at h
        refine ⟨word :: good, bad, after, by rw [hsplit, List.cons_append], ?_, hbad, ?_⟩
        · intro w hmem
          rcases List.mem_cons.mp hmem with hmem | hmem
          · rw [hmem, hw]; rfl
          · exact hgood w hmem
        · rw [← he', ← Except.error.inj h]

/-! ## One line -/

theorem readLine_eq_ok_iff_row {t : Table α} {b : Buffer α} {number : Nat} {line : List Char} :
    readLine cell t.toBuffer number line = .ok b ↔
      ∃ row : List α, row.map some = (dataWords line).map cell ∧
        ((row = [] ∧ b = t.toBuffer) ∨
          (row ≠ [] ∧ (t.columns = 0 ∨ row.length = t.columns) ∧
            b = ⟨row.length, t.values ++ row⟩)) := by
  unfold readLine
  rw [bind_eq_ok_iff]
  refine exists_congr fun row => and_congr readRow_eq_ok_iff ?_
  cases row with
  | nil => simp [pure, Except.pure, eq_comm]
  | cons first rest =>
    by_cases hc : t.columns = 0
    · simp [hc, pure, Except.pure, eq_comm]
    · by_cases hw : (first :: rest).length = t.columns
      · simp [← hw, pure, Except.pure, eq_comm]
      · rw [List.length_cons] at hw
        simp [hc, hw, throw, throwThe, MonadExceptOf.throw]

/-- **A line adds its row, if it has one, and nothing else.** That there is a table with the row
added says that the row has the right width. -/
theorem readLine_eq_ok_iff {t u : Table α} {number : Nat} {line : List Char} :
    readLine cell t.toBuffer number line = .ok u.toBuffer ↔
      u.cells = t.cells ++ (wordRows [line]).map (List.map cell) := by
  rw [readLine_eq_ok_iff_row]
  by_cases hw : dataWords line = []
  · rw [wordRows_singleton_of_nil hw, hw, List.map_nil, List.map_nil, List.append_nil]
    constructor
    · rintro ⟨row, hrow, ⟨-, hu⟩ | ⟨hne, -⟩⟩
      · rw [hu]
      · exact absurd (List.map_eq_nil_iff.mp hrow) hne
    · intro h
      exact ⟨[], rfl, Or.inl ⟨rfl, by rw [cells_inj h]⟩⟩
  · rw [wordRows_singleton hw]
    constructor
    · rintro ⟨row, hrow, ⟨rfl, -⟩ | ⟨hne, hu⟩⟩
      · exact absurd (List.map_eq_nil_iff.mp hrow.symm) hw
      · rw [Buffer.cells, (rows_eq_append_iff hne).mpr hu, List.map_append, List.map_singleton, hrow]
        rfl
    · intro h
      -- the rows of `u` are those of `t` and one more, which was read from the words
      obtain ⟨before, last, hu, hbefore, hlast⟩ := List.map_eq_append_iff.mp h
      obtain ⟨row, rfl, hrow⟩ := List.map_eq_singleton_iff.mp hlast
      have hne : row ≠ [] := by
        intro hnil
        rw [hnil] at hrow
        exact hw (List.map_eq_nil_iff.mp hrow.symm)
      have hrows : u.rows = t.rows ++ [row] := by
        rw [hu, map_map_some_inj hbefore]
      exact ⟨row, hrow, Or.inr ⟨hne, (rows_eq_append_iff hne).mp hrows⟩⟩

/-- A line is refused for a word that is no number, or else for its width. -/
theorem readLine_eq_error {t : Table α} {number : Nat} {line : List Char} {e : Failure}
    (h : readLine cell t.toBuffer number line = .error e) :
    RowFault cell t.columns number (dataWords line) e.diagnostic ∧
      ((∀ word ∈ dataWords line, (cell word).isSome) → t.rows ≠ []) := by
  unfold readLine at h
  cases hr : readRow cell number (dataWords line) with
  | error e' =>
    rw [hr] at h
    obtain ⟨good, word, rest, hsplit, hgood, hbad, he⟩ := readRow_eq_error hr
    have hee : e = e' := (Except.error.inj h).symm
    rw [hee, he]
    refine ⟨.badWord hsplit hgood hbad rfl, fun hall => ?_⟩
    have hword := hall word (by rw [hsplit]; exact List.mem_append_right _ List.mem_cons_self)
    rw [hbad] at hword
    cases hword
  | ok row =>
    obtain ⟨hnumbers, hlen⟩ := numbers_of_map (readRow_eq_ok_iff.mp hr)
    rw [hr] at h
    cases row with
    | nil => simp [bind, Except.bind, pure, Except.pure] at h
    | cons first others =>
      simp only [bind, Except.bind, pure, Except.pure, List.isEmpty_cons, Bool.false_eq_true,
        if_false] at h
      split at h
      · cases h
      · next hc =>
        split at h
        · cases h
        · next hwidth =>
          rw [← Except.error.inj h, ← hlen]
          refine ⟨.badWidth hnumbers rfl ?_ (by rw [hlen]; exact hwidth),
            fun _ => mt t.columns_eq_zero_iff.mpr hc⟩
          intro hnil
          rw [hnil] at hlen
          cases hlen

/-! ## A run over the lines -/

/-- What a line makes of a table is a table. -/
theorem exists_table_of_readLine {t : Table α} {b : Buffer α} {number : Nat} {line : List Char}
    (h : readLine cell t.toBuffer number line = .ok b) : ∃ u : Table α, u.toBuffer = b := by
  have hrun : readLines cell t.toBuffer number [line] = .ok b := by
    rw [readLines, h]
    rfl
  exact ⟨⟨b, whole_readLines t.whole hrun⟩, rfl⟩

/-- **A run over lines adds the rows of all of them, in order.** -/
theorem readLines_eq_ok_iff : ∀ {lines : List (List Char)} {t u : Table α} {number : Nat},
    readLines cell t.toBuffer number lines = .ok u.toBuffer ↔
      u.cells = t.cells ++ (wordRows lines).map (List.map cell)
  | [], t, u, number => by
    rw [readLines, Except.ok.injEq]
    constructor
    · intro h
      simp [wordRows, h]
    · intro h
      rw [cells_inj (t := t) (u := u) (by simpa [wordRows] using h.symm)]
  | line :: rest, t, u, number => by
    have hcut : wordRows (line :: rest) = wordRows [line] ++ wordRows rest :=
      wordRows_append [line] rest
    rw [readLines, hcut, List.map_append, ← List.append_assoc]
    constructor
    · intro h
      obtain ⟨next, hl, h⟩ := bind_eq_ok_iff.mp h
      obtain ⟨next, rfl⟩ := exists_table_of_readLine hl
      rw [← readLine_eq_ok_iff.mp hl]
      exact readLines_eq_ok_iff.mp h
    · intro h
      -- the rows that `u` had after the first line make the table in between
      obtain ⟨before, after, hu, hbefore, hafter⟩ := List.map_eq_append_iff.mp h
      obtain ⟨next, hnext⟩ := exists_of_rows_subset u before fun row hr => by
        rw [hu]; exact List.mem_append_left _ hr
      have hcells : next.cells = t.cells ++ (wordRows [line]).map (List.map cell) := by
        rw [Buffer.cells, hnext]; exact hbefore
      have hrest : readLines cell next.toBuffer (number + 1) rest = .ok u.toBuffer :=
        readLines_eq_ok_iff.mpr (by rw [hcells]; exact h)
      exact bind_eq_ok_iff.mpr ⟨next.toBuffer, readLine_eq_ok_iff.mpr hcells, hrest⟩

/-- A run that fails has read everything before the line it fails on. -/
theorem readLines_eq_error : ∀ {lines : List (List Char)} {t : Table α} {number : Nat} {e : Failure},
    readLines cell t.toBuffer number lines = .error e →
      ∃ before line after, ∃ u : Table α, lines = before ++ line :: after ∧
        readLines cell t.toBuffer number before = .ok u.toBuffer ∧
        readLine cell u.toBuffer (number + before.length) line = .error e
  | [], _, _, _, h => by simp [readLines] at h
  | line :: rest, t, number, e, h => by
    rw [readLines] at h
    cases hl : readLine cell t.toBuffer number line with
    | error e' =>
      rw [hl] at h
      exact ⟨[], line, rest, t, rfl, rfl, by rw [← h]; exact hl⟩
    | ok next =>
      rw [hl] at h
      obtain ⟨next, rfl⟩ := exists_table_of_readLine hl
      obtain ⟨before, bad, after, u, hsplit, hok, hbad⟩ := readLines_eq_error h
      refine ⟨line :: before, bad, after, u, by rw [hsplit, List.cons_append], ?_, ?_⟩
      · rw [readLines, hl]
        exact hok
      · rw [List.length_cons, Nat.add_comm before.length 1, ← Nat.add_assoc]
        exact hbad

/-! ## Whole texts -/

theorem parseWith_eq_ok_iff {text : List Char} {t : Table α} :
    parseWith cell text = .ok t ↔
      t.cells = (wordRows (Text.lines text)).map (List.map cell) := by
  have hrun : parseWith cell text = .ok t ↔
      readLines cell Table.empty.toBuffer 1 (Text.lines text) = .ok t.toBuffer := by
    unfold parseWith
    split
    · next b h =>
      constructor
      · intro ht
        rw [h, ← Except.ok.inj ht]
      · intro ht
        obtain rfl : b = t.toBuffer := Except.ok.inj (h.symm.trans ht)
        rfl
    · next e h => simp [h]
  rw [hrun, readLines_eq_ok_iff]
  rfl

theorem readLines_eq_error_of_parseWith {text : List Char} {e : Failure}
    (h : parseWith cell text = .error e) :
    readLines cell Table.empty.toBuffer 1 (Text.lines text) = .error e := by
  unfold parseWith at h
  split at h
  · cases h
  · next e' h' => rw [h', Except.error.inj h]

theorem map_some_filterMap {β γ : Type} {f : β → Option γ} : ∀ {xs : List β},
    (∀ x ∈ xs, (f x).isSome) → (xs.filterMap f).map some = xs.map f
  | [], _ => rfl
  | x :: rest, h => by
    obtain ⟨value, hvalue⟩ := Option.isSome_iff_exists.mp (h x List.mem_cons_self)
    rw [List.filterMap_cons_some hvalue, List.map_cons, List.map_cons, hvalue,
      map_some_filterMap fun y hy => h y (List.mem_cons_of_mem _ hy)]

/-- **A text is a table exactly when its words are numbers and its rows have one width.** -/
theorem exists_parseWith_eq_ok_iff {text : List Char} :
    (∃ t, parseWith cell text = .ok t) ↔
      (∀ words ∈ wordRows (Text.lines text), ∀ word ∈ words, (cell word).isSome) ∧
      (∀ a ∈ wordRows (Text.lines text), ∀ b ∈ wordRows (Text.lines text), a.length = b.length) := by
  constructor
  · rintro ⟨t, h⟩
    have hcells := parseWith_eq_ok_iff.mp h
    refine ⟨fun words hw => (fits_of_cells hcells hw).1, fun a ha b hb => ?_⟩
    rw [(fits_of_cells hcells ha).2, (fits_of_cells hcells hb).2]
  · rintro ⟨hnumbers, hwidth⟩
    have hread : ((wordRows (Text.lines text)).map (List.filterMap cell)).map (List.map some)
        = (wordRows (Text.lines text)).map (List.map cell) := by
      rw [List.map_map]
      exact List.map_congr_left fun words hw => map_some_filterMap (hnumbers words hw)
    have hlength : ∀ words ∈ wordRows (Text.lines text),
        (words.filterMap cell).length = words.length := by
      intro words hw
      simpa using congrArg List.length (map_some_filterMap (hnumbers words hw))
    refine ⟨ofRows ((wordRows (Text.lines text)).map (List.filterMap cell)) ?_ ?_,
      parseWith_eq_ok_iff.mpr (by rw [Buffer.cells, rows_ofRows, hread])⟩
    · intro row hrow hnil
      obtain ⟨words, hw, rfl⟩ := List.mem_map.mp hrow
      have hlen := hlength words hw
      rw [hnil, List.length_nil, eq_comm, List.length_eq_zero_iff] at hlen
      exact (mem_wordRows.mp hw).1 hlen
    · intro row hrow
      obtain ⟨words, hw, rfl⟩ := List.mem_map.mp hrow
      rw [hlength words hw]
      cases hrows : wordRows (Text.lines text) with
      | nil => rw [hrows] at hw; exact absurd hw List.not_mem_nil
      | cons first rest =>
        have hfirst : first ∈ wordRows (Text.lines text) := by rw [hrows]; exact List.mem_cons_self
        show words.length = (first.filterMap cell).length
        rw [hlength first hfirst, hwidth words hw first hfirst]

/-- **The first line that does not fit is the one that is reported.** -/
theorem parseWith_eq_error {text : List Char} {e : Failure} (h : parseWith cell text = .error e) :
    ∃ before line after, Text.lines text = before ++ line :: after ∧
      (∀ earlier ∈ before,
        Fits cell (firstWidth (wordRows (Text.lines text))) (dataWords earlier)) ∧
      RowFault cell (firstWidth (wordRows (Text.lines text))) (before.length + 1) (dataWords line)
        e.diagnostic := by
  obtain ⟨before, line, after, u, hsplit, hbefore, hline⟩ :=
    readLines_eq_error (readLines_eq_error_of_parseWith h)
  have hcells : u.cells = (wordRows before).map (List.map cell) := readLines_eq_ok_iff.mp hbefore
  -- once there is a row, the width of the table is that of the first row of the whole text
  have hwidth : wordRows before ≠ [] → u.columns = firstWidth (wordRows (Text.lines text)) := by
    intro hne
    rw [hsplit, wordRows_append, firstWidth_append _ hne, columns_eq_of_cells hcells]
  refine ⟨before, line, after, hsplit, ?_, ?_⟩
  · intro earlier hearlier
    by_cases hw : dataWords earlier = []
    · exact ⟨by simp [hw], fun hne => absurd hw hne⟩
    · have hmem : dataWords earlier ∈ wordRows before :=
        mem_wordRows.mpr ⟨hw, earlier, hearlier, rfl⟩
      obtain ⟨hnumbers, hlen⟩ := fits_of_cells hcells hmem
      exact ⟨hnumbers, fun _ => by rw [hlen, hwidth (List.ne_nil_of_mem hmem)]⟩
  · obtain ⟨hfault, hrows⟩ := readLine_eq_error hline
    rw [Nat.add_comm before.length 1]
    generalize e.diagnostic = d at hfault ⊢
    cases hfault with
    | badWord hwords hgood hbad hnamed => exact .badWord hwords hgood hbad hnamed
    | badWidth hnumbers hcount hne hdiffers =>
      have hu : wordRows before ≠ [] := by
        intro hnil
        rw [hnil] at hcells
        exact hrows hnumbers (List.map_eq_nil_iff.mp hcells)
      rw [hwidth hu] at hdiffers ⊢
      exact .badWidth hnumbers hcount hne hdiffers

/-- **The reader of tables accepts exactly its grammar, and builds exactly the table the text says.**
A text is refused for its first line that does not fit, counted over all lines. -/
theorem parse_grammar (text : String) :
    ((∃ t, parse text = .ok t) ↔
      (∀ line ∈ Text.lines text.toList, ∀ word ∈ dataWords line,
        (Decimal.readChars? word).isSome) ∧
      (∀ a ∈ wordRows (Text.lines text.toList), ∀ b ∈ wordRows (Text.lines text.toList),
        a.length = b.length)) ∧
    match parse text with
    | .ok t =>
      t.rowCount = (wordRows (Text.lines text.toList)).length ∧
      t.columns = firstWidth (wordRows (Text.lines text.toList)) ∧
      (∀ words ∈ wordRows (Text.lines text.toList), words.length = t.columns) ∧
      ∀ i, (t.row? i).map (List.map some)
        = (wordRows (Text.lines text.toList))[i]?.map (List.map Decimal.readChars?)
    | .error e =>
      ∃ before line after, Text.lines text.toList = before ++ line :: after ∧
        (∀ earlier ∈ before, Fits Decimal.readChars?
          (firstWidth (wordRows (Text.lines text.toList))) (dataWords earlier)) ∧
        RowFault Decimal.readChars? (firstWidth (wordRows (Text.lines text.toList)))
          (before.length + 1) (dataWords line) e.diagnostic := by
  have hwords : (∀ line ∈ Text.lines text.toList, ∀ word ∈ dataWords line,
        (Decimal.readChars? word).isSome) ↔
      ∀ words ∈ wordRows (Text.lines text.toList), ∀ word ∈ words,
        (Decimal.readChars? word).isSome := by
    constructor
    · intro h words hw
      obtain ⟨-, line, hline, rfl⟩ := mem_wordRows.mp hw
      exact h line hline
    · intro h line hline word hword
      exact h _ (mem_wordRows.mpr ⟨List.ne_nil_of_mem hword, line, hline, rfl⟩) word hword
  refine ⟨by rw [hwords]; exact exists_parseWith_eq_ok_iff, ?_⟩
  cases hp : parse text with
  | ok t =>
    have hcells : t.cells = (wordRows (Text.lines text.toList)).map (List.map Decimal.readChars?) :=
      parseWith_eq_ok_iff.mp hp
    refine ⟨?_, columns_eq_of_cells hcells, fun words hw => (fits_of_cells hcells hw).2, ?_⟩
    · rw [t.whole.rowCount_eq]
      simpa [Buffer.cells] using congrArg List.length hcells
    · intro i
      rw [t.whole.row?_eq, ← List.getElem?_map, ← List.getElem?_map, ← hcells]
      rfl
  | error e => exact parseWith_eq_error hp

end FluidAnalysis.Table
