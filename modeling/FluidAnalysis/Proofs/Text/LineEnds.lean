import FluidAnalysis.Proofs.Text.Lines

/-!
# Line ends of a stored text

A stored text has line feeds only. A line that held carriage returns is therefore read from it as
several lines: it falls apart at each of them, except at one that stood right before its line feed.

* `unifyLineEnds_line` — what becomes of one terminated line
* `lines_normalizeChars` — the lines of a stored text that was written line by line
-/

namespace FluidAnalysis.Text

/-! ## What a line falls into -/

/-- The lines that a terminated line falls into when it is stored. -/
def storedLines (line : List Char) : List (List Char) :=
  pieces '\r' (dropReturn line)

theorem dropReturn_cons {c : Char} {rest : List Char} (h : rest ≠ [] ∨ c ≠ '\r') :
    dropReturn (c :: rest) = c :: dropReturn rest := by
  cases rest with
  | nil => simpa [dropReturn] using h
  | cons d rest =>
    unfold dropReturn
    rw [List.getLast?_cons_cons]
    split
    · rw [List.dropLast_cons_cons]
    · rfl

/-- A carriage return that is not the last character of its line ends a stored line. -/
theorem storedLines_return {rest : List Char} (h : rest ≠ []) :
    storedLines ('\r' :: rest) = [] :: storedLines rest := by
  rw [storedLines, dropReturn_cons (Or.inl h), pieces, if_pos (beq_self_eq_true '\r'), storedLines]

/-- Any other character stays on the first stored line. -/
theorem storedLines_cons {c : Char} (h : c ≠ '\r') (rest : List Char) :
    ∃ first others, storedLines rest = first :: others ∧
      storedLines (c :: rest) = (c :: first) :: others := by
  have hc : ¬(c == '\r') = true := by simpa using h
  unfold storedLines
  rw [dropReturn_cons (Or.inr h), pieces, if_neg hc]
  cases hp : pieces '\r' (dropReturn rest) with
  | nil =>
    rw [pieces_eq_splitOn] at hp
    exact absurd hp (List.splitOn_ne_nil _ _)
  | cons first others => exact ⟨first, others, rfl, rfl⟩

theorem mem_of_mem_storedLines {line stored : List Char} {c : Char} (h : stored ∈ storedLines line)
    (hc : c ∈ stored) : c ∈ line :=
  mem_of_mem_dropReturn (mem_of_mem_pieces h hc)

theorem storedLines_of_not_mem {line : List Char} (h : '\r' ∉ line) : storedLines line = [line] := by
  rw [storedLines, dropReturn_of_not_mem h, pieces_eq_splitOn, List.splitOn_eq_singleton h]

/-- Lines without carriage returns are stored as they are. -/
theorem flatMap_storedLines {ls : List (List Char)} (h : ∀ l ∈ ls, '\r' ∉ l) :
    ls.flatMap storedLines = ls.map dropReturn := by
  induction ls with
  | nil => rfl
  | cons l ls ih =>
    have hl := h l List.mem_cons_self
    rw [List.flatMap_cons, storedLines_of_not_mem hl, List.map_cons, dropReturn_of_not_mem hl,
      ih fun x hx => h x (List.mem_cons_of_mem _ hx), List.singleton_append]

theorem return_not_mem_storedLines {line stored : List Char} (h : stored ∈ storedLines line) :
    '\r' ∉ stored :=
  not_mem_of_mem_pieces h

/-! ## Storing -/

theorem unifyLineEnds_return {c : Char} (h : c ≠ '\n') (rest : List Char) :
    unifyLineEnds ('\r' :: c :: rest) = '\n' :: unifyLineEnds (c :: rest) := by
  simp [unifyLineEnds, h]

theorem unifyLineEnds_cons {c : Char} (h : c ≠ '\r') (rest : List Char) :
    unifyLineEnds (c :: rest) = c :: unifyLineEnds rest := by
  simp [unifyLineEnds, h]

/-- **One terminated line is stored as the lines it falls into,** each with a line feed, whatever
comes after it. -/
theorem unifyLineEnds_line {line : List Char} (h : '\n' ∉ line) (rest : List Char) :
    unifyLineEnds (line ++ '\n' :: rest)
      = ((storedLines line).map (· ++ ['\n'])).flatten ++ unifyLineEnds rest := by
  induction line with
  | nil => exact unifyLineEnds_cons (by decide) rest
  | cons c line ih =>
    have hline : '\n' ∉ line := fun hn => h (List.mem_cons_of_mem _ hn)
    by_cases hc : c = '\r'
    · subst hc
      -- a return is an end of its own unless it stands right before the line feed
      cases line with
      | nil => rfl
      | cons d line =>
        have hd : d ≠ '\n' := fun he => hline (by simp [he])
        rw [storedLines_return (List.cons_ne_nil d line), List.cons_append, List.cons_append,
          unifyLineEnds_return hd, ← List.cons_append, ih hline]
        rfl
    · obtain ⟨first, others, hrest, hcons⟩ := storedLines_cons hc line
      rw [List.cons_append, unifyLineEnds_cons hc, ih hline, hrest, hcons]
      rfl

/-- A text that is written line by line is stored as the lines that its lines fall into. -/
theorem unifyLineEnds_flatten : ∀ {ls : List (List Char)}, (∀ l ∈ ls, '\n' ∉ l) →
    unifyLineEnds (ls.map (· ++ ['\n'])).flatten
      = ((ls.flatMap storedLines).map (· ++ ['\n'])).flatten
  | [], _ => rfl
  | l :: ls, h => by
    rw [List.map_cons, List.flatten_cons, List.append_assoc, List.singleton_append,
      unifyLineEnds_line (h l List.mem_cons_self),
      unifyLineEnds_flatten fun x hx => h x (List.mem_cons_of_mem _ hx), List.flatMap_cons,
      List.map_append, List.flatten_append]

/-- Nothing is added at the end of a text whose lines are all terminated. -/
theorem normalizeChars_flatten {ls : List (List Char)} (h : ∀ l ∈ ls, '\n' ∉ l) :
    normalizeChars (ls.map (· ++ ['\n'])).flatten
      = ((ls.flatMap storedLines).map (· ++ ['\n'])).flatten := by
  unfold normalizeChars
  simp only
  rw [unifyLineEnds_flatten h]
  split
  · rfl
  · next hopen =>
    rcases List.eq_nil_or_concat (ls.flatMap storedLines) with hnil | ⟨before, last, hlast⟩
    · simp [hnil] at hopen
    · simp [hlast] at hopen

/-- **The lines of a stored text** that was written line by line are those that its lines fall
into. -/
theorem lines_normalizeChars {ls : List (List Char)} (h : ∀ l ∈ ls, '\n' ∉ l) :
    lines (normalizeChars (ls.map (· ++ ['\n'])).flatten) = ls.flatMap storedLines := by
  have hfeed : ∀ stored ∈ ls.flatMap storedLines, '\n' ∉ stored := by
    intro stored hs hn
    obtain ⟨line, hline, hmem⟩ := List.mem_flatMap.mp hs
    exact h line hline (mem_of_mem_storedLines hmem hn)
  rw [normalizeChars_flatten h, lines_flatten hfeed]
  refine map_dropReturn fun stored hs => ?_
  obtain ⟨line, -, hmem⟩ := List.mem_flatMap.mp hs
  exact return_not_mem_storedLines hmem

end FluidAnalysis.Text
