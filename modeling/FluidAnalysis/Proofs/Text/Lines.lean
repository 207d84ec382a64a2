import FluidAnalysis.Text.Lines

/-!
# Lines and words as splits

`Text.pieces` and `Text.words` take a text apart one character at a time. They are tied here to
`List.splitOn` and `List.splitOnP`, whose lemmas then give the two facts that reading a written
table needs.

* `lines_flatten` — lines that were written one after the other are read back
* `words_intercalate` — words that were written with a blank between them are read back
-/

namespace FluidAnalysis.Text

/-! ## Pieces -/

theorem pieces_eq_splitOn (separator : Char) :
    ∀ text : List Char, pieces separator text = text.splitOn separator
  | [] => by rw [pieces, List.splitOn_nil]
  | c :: rest => by
    rw [pieces, pieces_eq_splitOn separator rest, List.splitOn_cons_eq_if_modifyHead]
    split
    · rfl
    · cases h : rest.splitOn separator with
      | nil => exact absurd h (List.splitOn_ne_nil _ _)
      | cons first others => rfl

theorem not_mem_of_mem_pieces {separator : Char} :
    ∀ {text piece : List Char}, piece ∈ pieces separator text → separator ∉ piece
  | [], piece, h => by
    rw [pieces, List.mem_singleton] at h
    rw [h]
    exact List.not_mem_nil
  | c :: rest, piece, h => by
    rw [pieces] at h
    split at h
    · rcases List.mem_cons.mp h with h | h
      · rw [h]; exact List.not_mem_nil
      · exact not_mem_of_mem_pieces h
    · next hc =>
      have hcs : separator ≠ c := fun he => hc (by rw [he]; exact beq_self_eq_true c)
      -- the character joins the first piece, which must not hold the separator itself
      split at h
      · rw [List.mem_singleton.mp h]
        simpa using hcs
      · next first others hrest =>
        rcases List.mem_cons.mp h with h | h
        · rw [h, List.mem_cons, not_or]
          exact ⟨hcs, not_mem_of_mem_pieces (by rw [hrest]; exact List.mem_cons_self)⟩
        · exact not_mem_of_mem_pieces (by rw [hrest]; exact List.mem_cons_of_mem _ h)

/-- What is added to a text goes on with its last piece. -/
theorem pieces_append {separator : Char} {text last : List Char} {first : List (List Char)}
    (h : pieces separator text = first ++ [last]) (more : List Char) :
    pieces separator (text ++ more) = first ++ (pieces separator more).modifyHead (last ++ ·) := by
  simp only [pieces_eq_splitOn] at h ⊢
  induction text generalizing first last with
  | nil =>
    obtain ⟨rfl, rfl⟩ : first = [] ∧ last = [] := by
      simpa [List.singleton_eq_append_iff] using h
    exact (congrFun List.modifyHead_id _).symm
  | cons c rest ih =>
    obtain ⟨before, other, hrest⟩ : ∃ before other, rest.splitOn separator = before ++ [other] :=
      ⟨_, _, (List.dropLast_concat_getLast (List.splitOn_ne_nil _ _)).symm⟩
    rw [List.splitOn_cons_eq_if_modifyHead, hrest] at h
    rw [List.cons_append, List.splitOn_cons_eq_if_modifyHead, ih hrest]
    by_cases hc : (c == separator) = true
    · rw [if_pos hc, ← List.cons_append] at h
      rw [if_pos hc]
      obtain ⟨rfl, hlast⟩ := List.append_inj' h rfl
      cases hlast
      rfl
    · rw [if_neg hc] at h ⊢
      -- the character joins the first piece, which may be the last one as well
      cases before with
      | nil =>
        obtain ⟨rfl, rfl⟩ : first = [] ∧ last = c :: other := by
          simpa [List.singleton_eq_append_iff] using h
        simp [List.modifyHead_modifyHead, Function.comp_def]
      | cons piece before =>
        rw [List.cons_append, List.modifyHead_cons, ← List.cons_append] at h
        obtain ⟨rfl, hlast⟩ := List.append_inj' h rfl
        cases hlast
        rfl

theorem mem_of_mem_pieces {separator c : Char} {text piece : List Char}
    (h : piece ∈ pieces separator text) (hc : c ∈ piece) : c ∈ text := by
  induction text generalizing piece with
  | nil => rwa [List.mem_singleton.mp h] at hc
  | cons d rest ih =>
    rw [pieces] at h
    split at h
    · rcases List.mem_cons.mp h with rfl | h
      · exact absurd hc List.not_mem_nil
      · exact List.mem_cons_of_mem _ (ih h hc)
    · cases hrest : pieces separator rest with
      | nil =>
        rw [hrest, List.mem_singleton] at h
        rw [h, List.mem_singleton] at hc
        rw [hc]
        exact List.mem_cons_self
      | cons first others =>
        rw [hrest] at h ih
        -- the first piece took the character in front, the others are those of the rest
        rcases List.mem_cons.mp h with rfl | h
        · rcases List.mem_cons.mp hc with rfl | hc
          · exact List.mem_cons_self
          · exact List.mem_cons_of_mem _ (ih List.mem_cons_self hc)
        · exact List.mem_cons_of_mem _ (ih (List.mem_cons_of_mem _ h) hc)

/-! ## Lines -/

theorem dropReturn_of_not_mem {line : List Char} (h : '\r' ∉ line) : dropReturn line = line := by
  rw [dropReturn, if_neg]
  intro hlast
  exact h (List.mem_of_getLast? (beq_iff_eq.mp hlast))

theorem map_dropReturn {ls : List (List Char)} (h : ∀ l ∈ ls, '\r' ∉ l) : ls.map dropReturn = ls :=
  (List.map_congr_left fun l hl => dropReturn_of_not_mem (h l hl)).trans (List.map_id ls)

theorem mem_of_mem_dropReturn {line : List Char} {c : Char} (h : c ∈ dropReturn line) :
    c ∈ line := by
  unfold dropReturn at h
  split at h
  · exact List.dropLast_subset _ h
  · exact h

/-- No line holds a line feed. -/
theorem newline_not_mem_lines {text line : List Char} (h : line ∈ lines text) : '\n' ∉ line := by
  have hcomplete : line ∈ (pieces '\n' text).dropLast.map dropReturn → '\n' ∉ line := by
    intro hl hn
    obtain ⟨piece, hp, rfl⟩ := List.mem_map.mp hl
    exact not_mem_of_mem_pieces (List.dropLast_subset _ hp) (mem_of_mem_dropReturn hn)
  unfold lines at h
  simp only at h
  split at h
  · next c rest hlast =>
    rcases List.mem_append.mp h with h | h
    · exact hcomplete h
    · rw [List.mem_singleton.mp h]
      exact not_mem_of_mem_pieces (List.mem_of_getLast? hlast)
  · exact hcomplete h

/-- The pieces of terminated lines are the lines, and an empty rest. -/
theorem pieces_flatten : ∀ ls : List (List Char), (∀ l ∈ ls, '\n' ∉ l) →
    pieces '\n' ((ls.map (· ++ ['\n'])).flatten) = ls ++ [[]]
  | [], _ => rfl
  | l :: ls, h => by
    have ih := pieces_flatten ls fun x hx => h x (List.mem_cons_of_mem _ hx)
    rw [pieces_eq_splitOn] at ih ⊢
    rw [List.map_cons, List.flatten_cons, List.append_assoc, List.singleton_append,
      List.splitOn_append_cons_self_of_not_mem (h l List.mem_cons_self), ih, List.cons_append]

/-- **Lines that are written one after the other are read back,** less the carriage returns at their
ends. -/
theorem lines_flatten {ls : List (List Char)} (h : ∀ l ∈ ls, '\n' ∉ l) :
    lines ((ls.map (· ++ ['\n'])).flatten) = ls.map dropReturn := by
  unfold lines
  rw [pieces_flatten ls h]
  simp

/-! ## Words -/

/-- **The words of a text are the non-empty parts between its blanks.** -/
theorem words_eq_splitOnP :
    ∀ text : List Char, words text = (text.splitOnP isBlank).filter (!·.isEmpty)
  | [] => rfl
  | [c] => by
    by_cases hc : isBlank c <;> simp [words, List.splitOnP_cons_eq_if_modifyHead, hc]
  | c :: next :: rest => by
    have ih := words_eq_splitOnP (next :: rest)
    rw [words, List.splitOnP_cons_eq_if_modifyHead]
    by_cases hc : isBlank c
    · simp [hc, ih]
    · by_cases hn : isBlank next
      · rw [List.splitOnP_cons_eq_if_modifyHead] at ih ⊢
        simpa [hc, hn] using ih
      · -- the first part of the rest starts with `next`, so it is a word that takes `c` in front
        rw [List.splitOnP_cons_eq_if_modifyHead] at ih ⊢
        cases hs : rest.splitOnP isBlank with
        | nil => exact absurd hs (List.splitOnP_ne_nil _ _)
        | cons first others =>
          rw [ih]
          simp [hc, hn, hs]

/-- A text without words is blank. -/
theorem words_eq_nil_iff : ∀ {text : List Char}, words text = [] ↔ ∀ c ∈ text, isBlank c = true
  | [] => by simp [words]
  | [c] => by
    by_cases hc : isBlank c <;> simp [words, hc]
  | c :: next :: rest => by
    rw [words, List.forall_mem_cons]
    by_cases hc : isBlank c
    · rw [if_pos hc, words_eq_nil_iff, and_iff_right hc]
    · rw [if_neg hc]
      -- the character belongs to a word, so there is one
      refine iff_of_false ?_ fun h => hc h.1
      split
      · simp
      · split <;> simp

theorem words_eq_singleton {word : List Char} (hne : word ≠ [])
    (h : ∀ c ∈ word, isBlank c = false) : words word = [word] := by
  rw [words_eq_splitOnP, List.splitOnP_eq_singleton h]
  simpa using hne

theorem words_append_cons {word rest : List Char} {blank : Char} (hne : word ≠ [])
    (h : ∀ c ∈ word, isBlank c = false) (hb : isBlank blank = true) :
    words (word ++ blank :: rest) = word :: words rest := by
  rw [words_eq_splitOnP, words_eq_splitOnP, List.splitOnP_append_cons_of_forall_mem h blank hb,
    List.filter_cons_of_pos (by simpa using hne)]

/-- **Words that are written with a blank between them are read back.** -/
theorem words_intercalate {blank : Char} (hb : isBlank blank = true) :
    ∀ ws : List (List Char), (∀ w ∈ ws, w ≠ [] ∧ ∀ c ∈ w, isBlank c = false) →
      words ([blank].intercalate ws) = ws
  | [], _ => rfl
  | [w], h => by
    obtain ⟨hne, hw⟩ := h w List.mem_cons_self
    simpa [List.intercalate] using words_eq_singleton hne hw
  | w :: v :: ws, h => by
    obtain ⟨hne, hw⟩ := h w List.mem_cons_self
    rw [List.intercalate_cons_cons, List.append_assoc, List.singleton_append,
      words_append_cons hne hw hb,
      words_intercalate hb (v :: ws) fun x hx => h x (List.mem_cons_of_mem _ hx)]

/-! ## Beginnings -/

theorem after?_eq_some {beginning text rest : List Char}
    (h : after? beginning text = some rest) : text = beginning ++ rest := by
  induction beginning generalizing text with
  | nil =>
    cases h
    rfl
  | cons b bs ih =>
    cases text with
    | nil => cases h
    | cons c cs =>
      unfold after? at h
      split at h
      · next hbc => rw [ih h, eq_of_beq hbc, List.cons_append]
      · cases h

theorem after?_eq_some_iff {beginning text rest : List Char} :
    after? beginning text = some rest ↔ text = beginning ++ rest := by
  refine ⟨after?_eq_some, ?_⟩
  rintro rfl
  induction beginning with
  | nil => rfl
  | cons b bs ih => rw [List.cons_append, after?, if_pos (beq_self_eq_true b), ih]

end FluidAnalysis.Text
