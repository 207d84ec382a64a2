import FluidAnalysis.Launch.Plan
import Mathlib.Data.List.Forall2

/-!
# What a shell reads from a job's line

A shell takes a line apart into words. Blanks outside quotes separate them; between single quotes
every character is literal, and outside a backslash makes the next character literal. The reader below
follows these rules and keeps, for each character of a word, whether it was quoted.

* `splitFrom_quoteChars` — a quoted word is read back as one word, whatever stands in it
* `splitFrom_intercalate` — words with a space between them are read back one by one

Main statement: `shellLines_read_back`.
-/

namespace FluidAnalysis.Launch

/-! ## The word rules -/

/-- A character of a word. One that is not quoted can be an operator or an expansion. -/
structure Letter where
  char : Char
  quoted : Bool
deriving Repr, DecidableEq

/-- A word with no quoting in it. -/
def bareWord (word : List Char) : List Letter :=
  word.map (⟨·, false⟩)

/-- A word that is quoted as a whole. -/
def quotedWord (word : List Char) : List Letter :=
  word.map (⟨·, true⟩)

/-- The text that a word stands for. -/
def wordText (word : List Letter) : String :=
  String.ofList (word.map (·.char))

def isSeparator (c : Char) : Bool :=
  [' ', '\t', '\n'].contains c

/-- Where a reader stands in a line, with the word so far. -/
inductive Place where
  | between
  | inWord (word : List Letter)
  | inQuotes (word : List Letter)
  | behindBackslash (word : List Letter)

/-- The place behind a character that stands outside quotes and separates nothing. -/
def Place.afterChar (word : List Letter) (c : Char) : Place :=
  if c == '\'' then .inQuotes word
  else if c == '\\' then .behindBackslash word
  else .inWord (word ++ [⟨c, false⟩])

/-- Reads on from a place. There are no words if a quote is left open or nothing follows a
backslash. -/
def splitFrom : Place → List Char → Option (List (List Letter))
  | .between, [] => some []
  | .inWord word, [] => some [word]
  | .inQuotes _, [] => none
  | .behindBackslash _, [] => none
  | .between, c :: rest =>
    if isSeparator c then splitFrom .between rest else splitFrom (.afterChar [] c) rest
  | .inWord word, c :: rest =>
    if isSeparator c then (splitFrom .between rest).map (word :: ·)
    else splitFrom (.afterChar word c) rest
  | .inQuotes word, c :: rest =>
    if c == '\'' then splitFrom (.inWord word) rest
    else splitFrom (.inQuotes (word ++ [⟨c, true⟩])) rest
  | .behindBackslash word, c :: rest => splitFrom (.inWord (word ++ [⟨c, true⟩])) rest

/-- The words of a line. -/
def shellWords (line : String) : Option (List (List Letter)) :=
  splitFrom .between line.toList

/-! ## One word -/

/-- What a shell reads from a word that was written by `quoteChars`. -/
def lettersOf (word : List Char) : List Letter :=
  if !word.isEmpty && word.all isHarmless then bareWord word else quotedWord word

theorem wordText_bareWord (word : List Char) :
    wordText (bareWord word) = String.ofList word := by
  simp [wordText, bareWord, Function.comp_def]

theorem wordText_quotedWord (word : List Char) :
    wordText (quotedWord word) = String.ofList word := by
  simp [wordText, quotedWord, Function.comp_def]

theorem wordText_lettersOf (text : String) : wordText (lettersOf text.toList) = text := by
  unfold lettersOf
  split
  · rw [wordText_bareWord, String.ofList_toList]
  · rw [wordText_quotedWord, String.ofList_toList]

/-- Only harmless characters are left without quotes. -/
theorem isHarmless_of_mem_lettersOf {word : List Char} {letter : Letter}
    (h : letter ∈ lettersOf word) (hq : letter.quoted = false) : isHarmless letter.char = true := by
  unfold lettersOf at h
  split at h
  · next hplain =>
    obtain ⟨c, hc, rfl⟩ := List.mem_map.mp h
    exact List.all_eq_true.mp (Bool.and_eq_true_iff.mp hplain).2 c hc
  · obtain ⟨c, -, rfl⟩ := List.mem_map.mp h
    cases hq

/-- A harmless character separates nothing and neither opens quotes nor escapes. -/
theorem isHarmless_plain {c : Char} (h : isHarmless c = true) :
    isSeparator c = false ∧ c ≠ '\'' ∧ c ≠ '\\' := by
  refine ⟨?_, ?_, ?_⟩
  · rw [Bool.eq_false_iff]
    intro hsep
    simp only [isSeparator, List.contains_iff_mem, List.mem_cons, List.not_mem_nil, or_false]
      at hsep
    rcases hsep with rfl | rfl | rfl <;> exact absurd h (by decide)
  · rintro rfl
    exact absurd h (by decide)
  · rintro rfl
    exact absurd h (by decide)

theorem splitFrom_harmless : ∀ {chars : List Char} (word : List Letter) (rest : List Char),
    (∀ c ∈ chars, isHarmless c = true) →
      splitFrom (.inWord word) (chars ++ rest) = splitFrom (.inWord (word ++ bareWord chars)) rest
  | [], word, rest, _ => by simp [bareWord]
  | c :: chars, word, rest, h => by
    obtain ⟨hsep, hquote, hslash⟩ := isHarmless_plain (h c List.mem_cons_self)
    have ih := splitFrom_harmless (word ++ [⟨c, false⟩]) rest fun x hx =>
      h x (List.mem_cons_of_mem _ hx)
    rw [List.cons_append, splitFrom, hsep]
    simp [Place.afterChar, hquote, hslash, ih, bareWord]

/-- Text between quotes is literal. A quote in it closes them, stands escaped, and opens them again,
which goes on with the same word. -/
theorem splitFrom_inQuotes : ∀ (chars : List Char) (word : List Letter) (rest : List Char),
    splitFrom (.inQuotes word) (chars.flatMap quoteChar ++ '\'' :: rest)
      = splitFrom (.inWord (word ++ quotedWord chars)) rest
  | [], word, rest => by simp [splitFrom, quotedWord]
  | c :: chars, word, rest => by
    have ih := splitFrom_inQuotes chars (word ++ [⟨c, true⟩]) rest
    rw [List.flatMap_cons, List.append_assoc]
    by_cases hc : c = '\''
    · subst hc
      simp [quoteChar, splitFrom, isSeparator, Place.afterChar, ih, quotedWord]
    · simp [quoteChar, hc, splitFrom, ih, quotedWord]

/-- **A written word is read back as one word.** -/
theorem splitFrom_quoteChars (word rest : List Char) :
    splitFrom .between (quoteChars word ++ rest) = splitFrom (.inWord (lettersOf word)) rest := by
  unfold quoteChars lettersOf
  split
  · next hplain =>
    obtain ⟨hne, hall⟩ := Bool.and_eq_true_iff.mp hplain
    rw [List.all_eq_true] at hall
    cases word with
    | nil => cases hne
    | cons c chars =>
      -- the first character begins the word, and the others go on with it
      obtain ⟨hsep, hquote, hslash⟩ := isHarmless_plain (hall c List.mem_cons_self)
      have htail := splitFrom_harmless [⟨c, false⟩] rest fun x hx =>
        hall x (List.mem_cons_of_mem _ hx)
      rw [List.cons_append, splitFrom, hsep]
      simp [Place.afterChar, hquote, hslash, htail, bareWord]
  · have hquotes := splitFrom_inQuotes word [] rest
    rw [List.cons_append, List.append_assoc, List.singleton_append, splitFrom]
    simp [isSeparator, Place.afterChar, hquotes]

example : splitFrom .between (quoteChars "it's".toList) = some [quotedWord "it's".toList] := by decide

/-! ## A line of words -/

/-- A word ends at a blank. -/
theorem splitFrom_quoteChars_blank (word rest : List Char) :
    splitFrom .between (quoteChars word ++ ' ' :: rest)
      = (splitFrom .between rest).map (lettersOf word :: ·) := by
  rw [splitFrom_quoteChars, splitFrom]
  rfl

/-- **Written words with a space between them are read back one by one.** -/
theorem splitFrom_intercalate : ∀ (words : List (List Char)) (rest : List Char),
    splitFrom .between ([' '].intercalate (words.map quoteChars) ++ ' ' :: rest)
      = (splitFrom .between rest).map (words.map lettersOf ++ ·)
  | [], rest => by simp [splitFrom, isSeparator]
  | [word], rest => by simp [splitFrom_quoteChars_blank]
  | word :: next :: words, rest => by
    have ih := splitFrom_intercalate (next :: words) rest
    rw [List.map_cons, List.map_cons, List.intercalate_cons_cons, List.append_assoc,
      List.append_assoc, List.singleton_append, ← List.map_cons, splitFrom_quoteChars_blank, ih]
    simp [Function.comp_def]

theorem shellLine_toList (s : Scheduler) (job : Job) :
    (shellLine s job).toList =
      [' '].intercalate (((s.commandLine job).map String.toList).map quoteChars) ++
        ' ' :: '>' :: ' ' :: (quoteChars job.log.toList ++ ' ' :: "2>&1 &".toList) := by
  show (" ".intercalate ((s.commandLine job).map quote) ++ " > " ++ quote job.log
    ++ " 2>&1 &").toList = _
  simp only [String.toList_append, String.toList_intercalate, List.map_map, Function.comp_def,
    quote, String.toList_ofList, List.append_assoc]
  rfl

/-- The words of a job's line, letter by letter. -/
theorem shellWords_shellLine (s : Scheduler) (job : Job) :
    shellWords (shellLine s job) =
      some ((s.commandLine job).map (lettersOf ·.toList) ++
        [bareWord ['>'], lettersOf job.log.toList, bareWord "2>&1".toList, bareWord ['&']]) := by
  have hend : splitFrom .between "2>&1 &".toList
      = some [bareWord "2>&1".toList, bareWord ['&']] := by decide
  have hlog : splitFrom .between ('>' :: ' ' :: (quoteChars job.log.toList ++ ' ' :: "2>&1 &".toList))
      = some [bareWord ['>'], lettersOf job.log.toList, bareWord "2>&1".toList, bareWord ['&']] := by
    show (splitFrom .between (quoteChars job.log.toList ++ ' ' :: "2>&1 &".toList)).map
      (bareWord ['>'] :: ·) = _
    rw [splitFrom_quoteChars_blank, hend]
    rfl
  rw [shellWords, shellLine_toList, splitFrom_intercalate, hlog, Option.map_some, List.map_map]
  rfl

/-- **A shell reads the words of a job back from its line.** The words are those of the command, then
`>`, the log, `2>&1` and `&`. Whatever characters the program, its arguments, the job's name and the
log hold, only harmless ones are left without quotes, so none of them can be an operator, begin an
expansion or end a word. -/
theorem shellLines_read_back (p : Plan) :
    List.Forall₂
      (fun job line => ∃ (words : List (List Letter)) (log : List Letter),
        shellWords line = some (words ++
          [bareWord ['>'], log, bareWord "2>&1".toList, bareWord ['&']]) ∧
        words.map wordText = p.scheduler.commandLine job ∧
        wordText log = job.log ∧
        ∀ word ∈ log :: words, ∀ letter ∈ word, letter.quoted = false →
          letter.char.isAlphanum ∨ letter.char ∈ "-_./=+:,%".toList)
      p.jobs p.shellLines := by
  rw [Plan.shellLines, List.forall₂_map_right_iff, List.forall₂_same]
  intro job _
  refine ⟨_, _, shellWords_shellLine p.scheduler job, ?_, ?_, ?_⟩
  · rw [List.map_map]
    exact (List.map_congr_left fun text _ => wordText_lettersOf text).trans (List.map_id _)
  · exact wordText_lettersOf job.log
  · intro word hword letter hletter hquoted
    -- the log and the words of the command are all written by `quote`
    have hwritten : ∃ text : String, word = lettersOf text.toList := by
      rcases List.mem_cons.mp hword with hlog | hcommand
      · exact ⟨job.log, hlog⟩
      · obtain ⟨text, -, htext⟩ := List.mem_map.mp hcommand
        exact ⟨text, htext.symm⟩
    obtain ⟨text, rfl⟩ := hwritten
    have hharmless := isHarmless_of_mem_lettersOf hletter hquoted
    rw [isHarmless, Bool.or_eq_true_iff, List.contains_iff_mem] at hharmless
    exact hharmless

end FluidAnalysis.Launch
