import Mathlib
import FluidAnalysis.Proofs.Text.Lines
import FluidAnalysis.Proofs.Traversal
import FluidAnalysis.SquareWell.ErrorTable

/-!
# Error tables, read and gathered

What the lines of an error table say (`IsErrorLine`, `IsRowOf`), apart from the reader that carries a
table along. A line adds a row, replaces the lowest temperature or adds nothing; so a text is read
when every line with errors has its three numbers, and its table has one row for each of them.

Several tables are gathered without loss: the rows of all lines with errors stand one after the other,
and the series of the methods share them out.

* `ErrorTable.extend_eq_ok_iff`, `ErrorTable.extend_eq_error_iff` — what a run over lines gives
* `InFirstOrder` — the methods in the order of their first rows
* `ErrorScaling.perm_rowsOf` — every row belongs to one method
* `ErrorScaling.collect_gathers`
-/

namespace FluidAnalysis.SquareWell

open Text

/-! ## Lines -/

theorem occursIn_iff {part line : List Char} : occursIn part line = true ↔ part <:+: line := by
  induction line with
  | nil => simp [occursIn]
  | cons c rest ih =>
    rw [occursIn, Bool.or_eq_true, List.isPrefixOf_iff_prefix, ih, List.infix_cons_iff]

/-- The line mentions the lowest temperature. -/
def namesTemperature (line : List Char) : Bool :=
  decide ("min_T".toList <:+: line)

/-- The line has errors of a method: it is not blank, it is no comment, and it mentions no
temperature. -/
def isErrorLine (line : List Char) : Bool :=
  !line.all isBlank && line.head? != some '#' && !namesTemperature line

/-- The number at a position among the words of a line. -/
def number? (line : List Char) (column : ℕ) : Option Float :=
  (words line)[column]?.bind Decimal.readChars?

/-- The number at the end of a line. -/
def lastNumber? (line : List Char) : Option Float :=
  (words line).getLast?.bind Decimal.readChars?

/-- The positions of the three errors in a line. -/
def errorColumns : List ℕ := [1, 3, 5]

/-- The line states this row. -/
structure IsRowOf (line : List Char) (row : ErrorRow) : Prop where
  method : (words line).head? = some row.method.toList
  internalEnergy : number? line 1 = some row.internalEnergy
  heatCapacity : number? line 3 = some row.heatCapacity
  entropy : number? line 5 = some row.entropy

/-- The three errors of the line are numbers. -/
def HasNumbers (line : List Char) : Prop :=
  ∀ column ∈ errorColumns, (number? line column).isSome

/-- The first of the three errors that is missing or no number. -/
structure FirstFault (line : List Char) (column : ℕ) : Prop where
  mem : column ∈ errorColumns
  missing : number? line column = none
  earlier : ∀ other ∈ errorColumns, other < column → (number? line other).isSome

/-! ## One line -/

theorem occursIn_eq_namesTemperature (line : List Char) :
    occursIn "min_T".toList line = namesTemperature line := by
  show occursIn "min_T".toList line = decide ("min_T".toList <:+: line)
  rw [Bool.eq_iff_iff, occursIn_iff, decide_eq_true_iff]

theorem isEmpty_words (line : List Char) : (words line).isEmpty = line.all isBlank := by
  rw [Bool.eq_iff_iff, List.isEmpty_iff, words_eq_nil_iff, List.all_eq_true]

/-- What a line is taken for. -/
theorem ofChars_eq (line : List Char) : ErrorLine.ofChars line =
    if namesTemperature line then .minTemperature (lastNumber? line)
    else if isErrorLine line then .row (words line) else .comment := by
  unfold ErrorLine.ofChars isErrorLine
  rw [occursIn_eq_namesTemperature, isEmpty_words]
  cases namesTemperature line with
  | true => rfl
  | false => cases line.all isBlank <;> cases hhead : line.head? == some '#' <;> simp [bne, hhead]

theorem namesTemperature_eq_false {line : List Char} (h : isErrorLine line = true) :
    namesTemperature line = false := by
  simp only [isErrorLine, Bool.and_eq_true, Bool.not_eq_true'] at h
  exact h.2

theorem isErrorLine_eq_false {line : List Char} (h : namesTemperature line = true) :
    isErrorLine line = false := by
  simp [isErrorLine, h]

theorem words_ne_nil {line : List Char} (h : isErrorLine line = true) : words line ≠ [] := by
  rw [← List.isEmpty_eq_false_iff, isEmpty_words]
  simp only [isErrorLine, Bool.and_eq_true, Bool.not_eq_true'] at h
  exact h.1.1

section

variable {n column : ℕ} {line : List Char} {failure : Failure}

theorem numberAt_eq_ok_iff {x : Float} :
    numberAt n (words line) column = .ok x ↔ number? line column = some x := by
  unfold numberAt number?
  cases (words line)[column]?.bind Decimal.readChars? <;> simp

theorem numberAt_eq_error_iff : numberAt n (words line) column = .error failure ↔
    number? line column = none ∧ failure = .errorTableNumber n column := by
  unfold numberAt number?
  cases (words line)[column]?.bind Decimal.readChars? <;> simp [eq_comm]

theorem exists_first_word (hne : words line ≠ []) :
    ∃ first others, words line = first :: others ∧ entryAt (words line) 0 = .ok first := by
  obtain ⟨first, others, hwords⟩ := List.exists_cons_of_ne_nil hne
  exact ⟨first, others, hwords, by rw [hwords]; rfl⟩

/-- A line with words is read as the row that it states. -/
theorem ofTokens_eq_ok_iff (hne : words line ≠ []) {row : ErrorRow} :
    ErrorRow.ofTokens n (words line) = .ok row ↔ IsRowOf line row := by
  obtain ⟨first, others, hwords, hfirst⟩ := exists_first_word hne
  simp only [ErrorRow.ofTokens, hfirst, bind_eq_ok_iff, numberAt_eq_ok_iff, Except.ok.injEq,
    exists_eq_left']
  constructor
  · rintro ⟨u, hu, cv, hcv, s, hs, h⟩
    cases h
    exact ⟨by simp [hwords], hu, hcv, hs⟩
  · rintro ⟨hmethod, hu, hcv, hs⟩
    refine ⟨_, hu, _, hcv, _, hs, ?_⟩
    rw [hwords, List.head?_cons, Option.some.injEq] at hmethod
    rw [hmethod, String.ofList_toList]
    rfl

theorem exists_isRowOf_iff (hne : words line ≠ []) : (∃ row, IsRowOf line row) ↔ HasNumbers line := by
  obtain ⟨first, others, hwords⟩ := List.exists_cons_of_ne_nil hne
  constructor
  · rintro ⟨row, -, hu, hcv, hs⟩
    simp [HasNumbers, errorColumns, hu, hcv, hs]
  · intro h
    simp only [HasNumbers, errorColumns, List.forall_mem_cons, Option.isSome_iff_exists] at h
    obtain ⟨⟨u, hu⟩, ⟨cv, hcv⟩, ⟨s, hs⟩, -⟩ := h
    exact ⟨⟨String.ofList first, u, cv, s⟩, by simp [hwords], hu, hcv, hs⟩

theorem firstFault_iff : FirstFault line column ↔
    (column = 1 ∧ number? line 1 = none) ∨
    (column = 3 ∧ (number? line 1).isSome ∧ number? line 3 = none) ∨
    (column = 5 ∧ (number? line 1).isSome ∧ (number? line 3).isSome ∧ number? line 5 = none) := by
  constructor
  · rintro ⟨hmem, hmissing, hearlier⟩
    simp only [errorColumns, List.mem_cons, List.not_mem_nil, or_false] at hmem
    rcases hmem with rfl | rfl | rfl
    · exact .inl ⟨rfl, hmissing⟩
    · exact .inr (.inl ⟨rfl, hearlier 1 (by decide) (by decide), hmissing⟩)
    · exact .inr (.inr ⟨rfl, hearlier 1 (by decide) (by decide), hearlier 3 (by decide) (by decide),
        hmissing⟩)
  · rintro (⟨rfl, h1⟩ | ⟨rfl, h1, h3⟩ | ⟨rfl, h1, h3, h5⟩)
    · exact ⟨by decide, h1, by simp [errorColumns]⟩
    · exact ⟨by decide, h3, by simp [errorColumns, h1]⟩
    · exact ⟨by decide, h5, by simp [errorColumns, h1, h3]⟩

/-- A line is refused for the first of its errors that is no number. -/
theorem ofTokens_eq_error_iff (hne : words line ≠ []) :
    ErrorRow.ofTokens n (words line) = .error failure ↔
      ∃ column, FirstFault line column ∧ failure = .errorTableNumber n column := by
  obtain ⟨first, -, -, hfirst⟩ := exists_first_word hne
  simp only [ErrorRow.ofTokens, hfirst, bind_eq_error_iff, numberAt_eq_error_iff,
    numberAt_eq_ok_iff, firstFault_iff, reduceCtorEq, false_or, Except.ok.injEq, exists_eq_left']
  constructor
  · rintro (⟨h1, rfl⟩ | ⟨u, h1, ⟨h3, rfl⟩ | ⟨cv, h3, ⟨h5, rfl⟩ | ⟨s, h5, h⟩⟩⟩)
    · exact ⟨1, .inl ⟨rfl, h1⟩, rfl⟩
    · exact ⟨3, .inr (.inl ⟨rfl, by simp [h1], h3⟩), rfl⟩
    · exact ⟨5, .inr (.inr ⟨rfl, by simp [h1], by simp [h3], h5⟩), rfl⟩
    · cases h
  · rintro ⟨column, ⟨rfl, h1⟩ | ⟨rfl, h1, h3⟩ | ⟨rfl, h1, h3, h5⟩, rfl⟩
    · exact .inl ⟨h1, rfl⟩
    · obtain ⟨u, h1⟩ := Option.isSome_iff_exists.mp h1
      exact .inr ⟨u, h1, .inl ⟨h3, rfl⟩⟩
    · obtain ⟨u, h1⟩ := Option.isSome_iff_exists.mp h1
      obtain ⟨cv, h3⟩ := Option.isSome_iff_exists.mp h3
      exact .inr ⟨u, h1, .inr ⟨cv, h3, .inl ⟨h5, rfl⟩⟩⟩

end

/-- Entries that each have a partner have a list of partners. -/
theorem exists_forall₂_iff {β γ : Type} {r : β → γ → Prop} {xs : List β} :
    (∃ ys, List.Forall₂ r xs ys) ↔ ∀ x ∈ xs, ∃ y, r x y := by
  induction xs with
  | nil => simp
  | cons x xs ih =>
    rw [List.forall_mem_cons, ← ih]
    constructor
    · rintro ⟨_, hall⟩
      obtain ⟨y, ys, hy, hys, -⟩ := List.forall₂_cons_left_iff.mp hall
      exact ⟨⟨y, hy⟩, ys, hys⟩
    · rintro ⟨⟨y, hy⟩, ys, hys⟩
      exact ⟨y :: ys, .cons hy hys⟩

/-! ## A run over lines -/

namespace ErrorTable

variable {t u : ErrorTable} {n : ℕ} {line : List Char} {rest lines : List (List Char)}

theorem extend_temperature (h : namesTemperature line = true) :
    t.extend n (line :: rest)
      = extend { t with minTemperature := lastNumber? line } (n + 1) rest := by
  rw [extend, ofChars_eq, if_pos h]

theorem extend_row (h : isErrorLine line = true) : t.extend n (line :: rest)
    = ErrorRow.ofTokens n (words line) >>= fun row =>
      extend { t with rows := t.rows ++ [row] } (n + 1) rest := by
  have hline : ErrorLine.ofChars line = .row (words line) := by
    rw [ofChars_eq, namesTemperature_eq_false h, h]
    rfl
  rw [extend, hline]
  dsimp only
  cases ErrorRow.ofTokens n (words line) <;> rfl

theorem extend_comment (htemperature : namesTemperature line = false)
    (herrors : isErrorLine line = false) : t.extend n (line :: rest) = t.extend (n + 1) rest := by
  have hline : ErrorLine.ofChars line = .comment := by
    rw [ofChars_eq, htemperature, herrors]
    rfl
  rw [extend, hline]

/-- The temperature that is known after some lines: the last one that was mentioned counts, also when
it is no number. -/
def temperatureAfter (known : Option Float) (lines : List (List Char)) : Option Float :=
  (lines.filter namesTemperature).getLast?.elim known lastNumber?

theorem temperatureAfter_cons (known : Option Float) (h : namesTemperature line = true) :
    temperatureAfter known (line :: rest) = temperatureAfter (lastNumber? line) rest := by
  rw [temperatureAfter, temperatureAfter, List.filter_cons_of_pos h, List.getLast?_cons]
  cases (rest.filter namesTemperature).getLast? <;> rfl

theorem temperatureAfter_cons_of_not (known : Option Float) (h : namesTemperature line = false) :
    temperatureAfter known (line :: rest) = temperatureAfter known rest := by
  rw [temperatureAfter, temperatureAfter, List.filter_cons_of_neg (by simp [h])]

/-- **A run reads one row from each line with errors, and the last temperature.** -/
theorem extend_eq_ok_iff : t.extend n lines = .ok u ↔
    ∃ rows, List.Forall₂ IsRowOf (lines.filter isErrorLine) rows ∧
      u = ⟨temperatureAfter t.minTemperature lines, t.rows ++ rows⟩ := by
  induction lines generalizing t n with
  | nil => simp [extend, temperatureAfter, eq_comm]
  | cons line rest ih =>
    cases htemperature : namesTemperature line with
    | true =>
      rw [extend_temperature htemperature, ih, temperatureAfter_cons _ htemperature,
        List.filter_cons_of_neg (by simp [isErrorLine_eq_false htemperature])]
    | false =>
      rw [temperatureAfter_cons_of_not _ htemperature]
      cases herrors : isErrorLine line with
      | false =>
        rw [extend_comment htemperature herrors, ih,
          List.filter_cons_of_neg (by simp [herrors])]
      | true =>
        rw [extend_row herrors, List.filter_cons_of_pos herrors]
        simp only [bind_eq_ok_iff, ofTokens_eq_ok_iff (words_ne_nil herrors), ih,
          List.forall₂_cons_left_iff]
        constructor
        · rintro ⟨row, hrow, rows, hrows, rfl⟩
          exact ⟨row :: rows, ⟨row, rows, hrow, hrows, rfl⟩, by simp⟩
        · rintro ⟨_, ⟨row, rows, hrow, hrows, rfl⟩, rfl⟩
          exact ⟨row, hrow, rows, hrows, by simp⟩

/-- **A run fails at the first line with errors that has not its three numbers.** -/
theorem extend_eq_error_iff {failure : Failure} : t.extend n lines = .error failure ↔
    ∃ before line after, lines = before ++ line :: after ∧
      (∀ other ∈ before, isErrorLine other = true → HasNumbers other) ∧
      isErrorLine line = true ∧
      ∃ column, FirstFault line column ∧
        failure = .errorTableNumber (n + before.length) column := by
  induction lines generalizing t n with
  | nil => simp [extend]
  | cons line rest ih =>
    rw [exists_split_cons_iff]
    have hnumber (before : List (List Char)) :
        n + (line :: before).length = n + 1 + before.length := by
      rw [List.length_cons]
      omega
    cases herrors : isErrorLine line with
    | false =>
      have hskip : ∃ next : ErrorTable, t.extend n (line :: rest) = next.extend (n + 1) rest := by
        cases htemperature : namesTemperature line with
        | true => exact ⟨_, extend_temperature htemperature⟩
        | false => exact ⟨_, extend_comment htemperature herrors⟩
      obtain ⟨next, hnext⟩ := hskip
      rw [hnext, ih]
      simp only [List.forall_mem_cons, herrors, hnumber, Bool.false_eq_true, false_and, and_false,
        false_or, false_implies, true_and]
    | true =>
      rw [extend_row herrors, bind_eq_error_iff]
      simp only [ofTokens_eq_error_iff (words_ne_nil herrors), ofTokens_eq_ok_iff (words_ne_nil herrors), ih, hnumber,
        List.forall_mem_cons, herrors, List.not_mem_nil, false_implies, implies_true, true_and,
        forall_const, List.length_nil, Nat.add_zero, ← exists_isRowOf_iff (words_ne_nil herrors)]
      refine or_congr Iff.rfl ⟨?_, ?_⟩
      · rintro ⟨row, hrow, before, bad, after, hsplit, hbefore, hbad⟩
        exact ⟨before, bad, after, hsplit, ⟨⟨row, hrow⟩, hbefore⟩, hbad⟩
      · rintro ⟨before, bad, after, hsplit, ⟨⟨row, hrow⟩, hbefore⟩, hbad⟩
        exact ⟨row, hrow, before, bad, after, hsplit, hbefore, hbad⟩

/-! ## A whole text -/

/-- The lines of a text that have errors. -/
def errorLines (source : String) : List (List Char) :=
  (Text.lines source.toList).filter isErrorLine

/-- The lowest temperature of a text. -/
def lowestTemperature? (source : String) : Option Float :=
  (((Text.lines source.toList).filter namesTemperature).getLast?).bind lastNumber?

theorem parse_eq_ok_iff {source : String} : parse source = .ok t ↔
    List.Forall₂ IsRowOf (errorLines source) t.rows ∧
      t.minTemperature = lowestTemperature? source := by
  have htemperature : temperatureAfter none (Text.lines source.toList)
      = lowestTemperature? source := by
    unfold temperatureAfter lowestTemperature?
    cases ((Text.lines source.toList).filter namesTemperature).getLast? <;> rfl
  rw [parse, extend_eq_ok_iff]
  constructor
  · rintro ⟨rows, hrows, rfl⟩
    exact ⟨hrows, htemperature⟩
  · rintro ⟨hrows, hlowest⟩
    refine ⟨t.rows, hrows, ?_⟩
    rw [htemperature, ← hlowest]
    rfl

/-- A text is a table if its lines with errors have their numbers. -/
theorem exists_parse_iff {source : String} :
    (∃ t, parse source = .ok t) ↔ ∀ line ∈ errorLines source, HasNumbers line := by
  have hrows : (∃ rows, List.Forall₂ IsRowOf (errorLines source) rows) ↔
      ∀ line ∈ errorLines source, HasNumbers line := by
    rw [exists_forall₂_iff]
    exact forall₂_congr fun line hline =>
      exists_isRowOf_iff (words_ne_nil (List.mem_filter.mp hline).2)
  rw [← hrows]
  constructor
  · rintro ⟨t, ht⟩
    exact ⟨t.rows, (parse_eq_ok_iff.mp ht).1⟩
  · rintro ⟨rows, h⟩
    exact ⟨⟨lowestTemperature? source, rows⟩, parse_eq_ok_iff.mpr ⟨h, rfl⟩⟩

/-- What a text is read as: its table, or the first error that is no number, with its line. -/
structure IsReading (source : String) (result : Except Failure ErrorTable) : Prop where
  accepted_iff : (∃ t, result = .ok t) ↔ ∀ line ∈ errorLines source, HasNumbers line
  rows : ∀ t, result = .ok t → List.Forall₂ IsRowOf (errorLines source) t.rows
  temperature : ∀ t, result = .ok t → t.minTemperature = lowestTemperature? source
  refused : ∀ failure, result = .error failure →
    ∃ before line after, Text.lines source.toList = before ++ line :: after ∧
      (∀ other ∈ before, isErrorLine other = true → HasNumbers other) ∧
      isErrorLine line = true ∧
      ∃ column, FirstFault line column ∧ failure.diagnostic =
        ⟨.input, "INPUT.ERROR_TABLE_PARSE",
          s!"line {before.length + 1}: expected a number in column {column}"⟩

theorem isReading_parse (source : String) : IsReading source (parse source) where
  accepted_iff := exists_parse_iff
  rows t ht := (parse_eq_ok_iff.mp ht).1
  temperature t ht := (parse_eq_ok_iff.mp ht).2
  refused failure hfailure := by
    obtain ⟨before, line, after, hsplit, hbefore, hline, column, hfault, rfl⟩ :=
      extend_eq_error_iff.mp hfailure
    refine ⟨before, line, after, hsplit, hbefore, hline, column, hfault, ?_⟩
    rw [Nat.add_comm]
    rfl

end ErrorTable

/-! ## Methods in order -/

/-- The methods that occur in a list, in the order of their first occurrences. -/
structure InFirstOrder (names methods : List String) : Prop where
  mem_iff : ∀ method, method ∈ methods ↔ method ∈ names
  ordered : methods.Pairwise fun first second => names.idxOf first < names.idxOf second

namespace InFirstOrder

variable {names methods : List String}

theorem nodup (h : InFirstOrder names methods) : methods.Nodup :=
  h.ordered.imp fun hlt heq => by
    rw [heq] at hlt
    exact lt_irrefl _ hlt

/-- What is added keeps the order. -/
theorem add (h : InFirstOrder names methods) (name : String) :
    InFirstOrder (names ++ [name]) (ErrorScaling.addMethod methods name) := by
  have hindex : ∀ method ∈ methods, (names ++ [name]).idxOf method = names.idxOf method :=
    fun method hmethod => List.idxOf_append_of_mem ((h.mem_iff method).mp hmethod)
  have hordered : methods.Pairwise fun first second =>
      (names ++ [name]).idxOf first < (names ++ [name]).idxOf second := by
    refine h.ordered.imp_of_mem fun hfirst hsecond hlt => ?_
    rwa [hindex _ hfirst, hindex _ hsecond]
  unfold ErrorScaling.addMethod
  split
  · next hknown =>
    rw [List.contains_iff_mem] at hknown
    refine ⟨fun method => ?_, hordered⟩
    rw [List.mem_append, List.mem_singleton, ← h.mem_iff]
    refine ⟨.inl, ?_⟩
    rintro (hmethod | rfl)
    · exact hmethod
    · exact hknown
  · next hnew =>
    rw [List.contains_iff_mem] at hnew
    refine ⟨fun method => ?_, List.pairwise_append.mpr ⟨hordered, List.pairwise_singleton _ _, ?_⟩⟩
    · rw [List.mem_append, List.mem_append, h.mem_iff]
    · -- the new method stands behind all names that were there
      intro method hmethod last hlast
      rw [List.mem_singleton.mp hlast, hindex method hmethod,
        List.idxOf_append_of_notMem (mt (h.mem_iff name).mpr hnew)]
      exact Nat.lt_add_right _ (List.idxOf_lt_length_of_mem ((h.mem_iff method).mp hmethod))

/-- A run over further names keeps the order. -/
theorem foldl (h : InFirstOrder names methods) (more : List String) :
    InFirstOrder (names ++ more) (more.foldl ErrorScaling.addMethod methods) := by
  induction more generalizing names methods with
  | nil => simpa using h
  | cons name more ih => simpa using ih (h.add name)

end InFirstOrder

/-! ## Series of methods -/

namespace ErrorScaling

/-- The rows of one method, in their order. -/
def rowsOf (s : ErrorScaling) (method : String) : List (ℕ × ErrorRow) :=
  s.rows.filter fun entry => entry.2.method == method

/-- Different methods share out the rows that they have. -/
theorem perm_flatMap_filter {methods : List String} (hnodup : methods.Nodup)
    (rows : List (ℕ × ErrorRow)) :
    (methods.flatMap fun method => rows.filter fun entry => entry.2.method == method).Perm
      (rows.filter fun entry => methods.contains entry.2.method) := by
  induction methods with
  | nil => simp
  | cons method rest ih =>
    obtain ⟨hnot, hrest⟩ := List.nodup_cons.mp hnodup
    have hown : (rows.filter fun entry => (method :: rest).contains entry.2.method).filter
        (fun entry => entry.2.method == method)
          = rows.filter fun entry => entry.2.method == method := by
      rw [List.filter_filter]
      refine List.filter_congr fun entry _ => ?_
      by_cases h : entry.2.method = method <;> simp [h]
    have hothers : (rows.filter fun entry => (method :: rest).contains entry.2.method).filter
        (fun entry => !(entry.2.method == method))
          = rows.filter fun entry => rest.contains entry.2.method := by
      rw [List.filter_filter]
      refine List.filter_congr fun entry _ => ?_
      by_cases h : entry.2.method = method <;> simp [h, hnot]
    have hsplit := List.filter_append_perm (fun entry => entry.2.method == method)
      (rows.filter fun entry => (method :: rest).contains entry.2.method)
    rw [hown, hothers] at hsplit
    rw [List.flatMap_cons]
    exact ((ih hrest).append_left _).trans hsplit

/-- The series of the methods share out the rows: each row stands in the series of its own method and
in no other, and the rows of a series keep their order. -/
structure IsSharedOut (s : ErrorScaling) : Prop where
  perm : (s.methods.flatMap s.rowsOf).Perm s.rows
  sublist : ∀ method, (s.rowsOf method).Sublist s.rows
  own : ∀ method, ∀ entry ∈ s.rows, entry ∈ s.rowsOf method ↔ entry.2.method = method
  series : ∀ method value, s.series method value
    = (s.rowsOf method).map fun entry => (Float.ofNat entry.1, value entry.2)
  lengths : ∀ value, (s.methods.map fun method => (s.series method value).length).sum
    = s.rows.length

variable {s : ErrorScaling}

theorem isSharedOut (h : InFirstOrder (s.rows.map fun entry => entry.2.method) s.methods) :
    s.IsSharedOut := by
  have hperm : (s.methods.flatMap s.rowsOf).Perm s.rows := by
    have hall : (s.rows.filter fun entry => s.methods.contains entry.2.method) = s.rows := by
      refine List.filter_eq_self.mpr fun entry hentry => ?_
      rw [List.contains_iff_mem, h.mem_iff]
      exact List.mem_map_of_mem hentry
    have hshared := perm_flatMap_filter h.nodup s.rows
    rwa [hall] at hshared
  refine ⟨hperm, fun method => List.filter_sublist, fun method entry hentry => ?_,
    fun method value => rfl, fun value => ?_⟩
  · simp [rowsOf, hentry]
  · rw [← hperm.length_eq, List.length_flatMap]
    simp [series, rowsOf]

/-- The lines with errors of several texts, each with the size of its text. -/
def sizedLines (sources : List (ℕ × String)) : List (ℕ × List Char) :=
  sources.flatMap fun source => (ErrorTable.errorLines source.2).map (source.1, ·)

/-- Each table was read from its text. -/
def AreRead (sources : List (ℕ × String)) (tables : List (ℕ × ErrorTable)) : Prop :=
  List.Forall₂ (fun source table => source.1 = table.1 ∧ ErrorTable.parse source.2 = .ok table.2)
    sources tables

/-- Each row is that of its line. -/
theorem rows_collect {sources : List (ℕ × String)} {tables : List (ℕ × ErrorTable)}
    (h : AreRead sources tables) :
    List.Forall₂ (fun line entry => line.1 = entry.1 ∧ IsRowOf line.2 entry.2)
      (sizedLines sources) (collect tables).rows := by
  refine List.rel_flatMap h fun source table hread => ?_
  rw [List.forall₂_map_left_iff, List.forall₂_map_right_iff]
  exact (ErrorTable.parse_eq_ok_iff.mp hread.2).1.imp fun line row hrow => ⟨hread.1, hrow⟩

/-- **Error tables are read line by line and gathered without loss.** The rows of the gathered tables
are those of all lines with errors, text after text and line after line, each with the size of its
text. The methods stand in the order of their first rows, and their series share out the rows. -/
theorem collect_gathers :
    (∀ source, ErrorTable.IsReading source (ErrorTable.parse source)) ∧
    ∀ sources tables, AreRead sources tables →
      List.Forall₂ (fun line entry => line.1 = entry.1 ∧ IsRowOf line.2 entry.2)
        (sizedLines sources) (collect tables).rows ∧
      InFirstOrder ((collect tables).rows.map fun entry => entry.2.method)
        (collect tables).methods ∧
      (collect tables).IsSharedOut := by
  refine ⟨ErrorTable.isReading_parse, fun sources tables h => ?_⟩
  have hmethods : InFirstOrder ((collect tables).rows.map fun entry => entry.2.method)
      (collect tables).methods := by
    have hnone : InFirstOrder [] [] := ⟨fun _ => Iff.rfl, List.Pairwise.nil⟩
    exact hnone.foldl _
  exact ⟨rows_collect h, hmethods, isSharedOut hmethods⟩

/-- Two tables of the same comparison. -/
def twoSizes : List (ℕ × String) :=
  [(5, "# min_T 0.2\ntmmc 0.1 x 0.2 x 0.3\n"),
    (10, "# min_T: 0.3\n\ntmmc 0.05 x 0.1 x 0.15\nsad 1 x 2 x 3\n")]

theorem twoSizes_gathered : ∃ tables, AreRead twoSizes tables ∧ (collect tables).rows.length = 3 ∧
    ((collect tables).methods.map fun method =>
      ((collect tables).series method (·.heatCapacity)).length).sum = 3 := by
  obtain ⟨hread, hgather⟩ := collect_gathers
  have hnumbers : twoSizes.all (fun source => (ErrorTable.errorLines source.2).all fun line =>
      errorColumns.all fun column => (number? line column).isSome) = true := by
    decide +kernel
  have haccepted : ∀ source ∈ twoSizes, ∃ table : ℕ × ErrorTable,
      source.1 = table.1 ∧ ErrorTable.parse source.2 = .ok table.2 := by
    intro source hsource
    simp only [List.all_eq_true] at hnumbers
    obtain ⟨t, ht⟩ := (hread source.2).accepted_iff.mpr (hnumbers source hsource)
    exact ⟨(source.1, t), rfl, ht⟩
  obtain ⟨tables, htables⟩ := exists_forall₂_iff.mpr haccepted
  obtain ⟨hrows, -, hshared⟩ := hgather twoSizes tables htables
  have hlength : (collect tables).rows.length = 3 := by
    rw [← hrows.length_eq]
    decide +kernel
  exact ⟨tables, htables, hlength, by rw [hshared.lengths, hlength]⟩

end ErrorScaling

end FluidAnalysis.SquareWell
