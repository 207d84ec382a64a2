import FluidAnalysis.Proofs.Text.LineEnds

/-!
# Line breaks

A line ends with a line feed, with a carriage return, or with a carriage return and a line feed
together. `HasLines` says by these rules alone which lines a text has. A stored text holds the same
lines, each with a line feed (`HasLines.normalizeChars_eq`), and its other properties are read off
from this form.

* `Break`, `HasLines` — the rules
* `exists_hasLines`, `hasLines_iff` — every text has lines by them, namely those of the stored text
* `unifyLineEnds_eq_replaceAll` — two replacements, one after the other, are one scan of the text

Main statement: `normalize_keeps_lines`.
-/

namespace FluidAnalysis.Text

/-! ## Rules -/

/-- A line break at the start of a text, and what follows it. A carriage return is a break of its
own unless a line feed stands behind it. -/
inductive Break : (text rest : List Char) → Prop
  | feed (rest : List Char) : Break ('\n' :: rest) rest
  | returnFeed (rest : List Char) : Break ('\r' :: '\n' :: rest) rest
  | loneReturn {rest : List Char} (h : rest.head? ≠ some '\n') : Break ('\r' :: rest) rest

/-- A text without a part of a line break. -/
def Unbroken (line : List Char) : Prop :=
  '\r' ∉ line ∧ '\n' ∉ line

/-- The lines of a text. The last one may lack its break, and nothing after the last break is no
line. -/
inductive HasLines : (text : List Char) → (ls : List (List Char)) → Prop
  | nil : HasLines [] []
  | unended {line : List Char} (hne : line ≠ []) (hline : Unbroken line) : HasLines line [line]
  | ended {line text rest : List Char} {ls : List (List Char)} (hline : Unbroken line)
      (hbreak : Break text rest) (hrest : HasLines rest ls) : HasLines (line ++ text) (line :: ls)

section

variable {text rest line : List Char} {ls : List (List Char)} {c : Char}

theorem Break.of_lone (h : ∀ tail, rest = '\n' :: tail → False) : Break ('\r' :: rest) rest := by
  refine .loneReturn fun hhead => ?_
  obtain ⟨tail, rfl⟩ := List.head?_eq_some_iff.mp hhead
  exact h tail rfl

theorem unbroken_cons (hreturn : c ≠ '\r') (hfeed : c ≠ '\n') (h : Unbroken line) :
    Unbroken (c :: line) :=
  ⟨List.not_mem_cons_of_ne_of_not_mem hreturn.symm h.1,
    List.not_mem_cons_of_ne_of_not_mem hfeed.symm h.2⟩

theorem unbroken_nil : Unbroken [] :=
  ⟨List.not_mem_nil, List.not_mem_nil⟩

theorem HasLines.unbroken (h : HasLines text ls) : ∀ line ∈ ls, Unbroken line := by
  induction h with
  | nil => simp
  | unended _ hline => simpa using hline
  | ended hline _ _ ih => exact List.forall_mem_cons.mpr ⟨hline, ih⟩

/-- A character that belongs to no break goes to the first line. -/
theorem HasLines.exists_cons (hreturn : c ≠ '\r') (hfeed : c ≠ '\n') (h : HasLines text ls) :
    ∃ others, HasLines (c :: text) others := by
  cases h with
  | nil =>
    exact ⟨[[c]], .unended (List.cons_ne_nil c []) (unbroken_cons hreturn hfeed unbroken_nil)⟩
  | unended hne hline =>
    exact ⟨[c :: text], .unended (List.cons_ne_nil c text) (unbroken_cons hreturn hfeed hline)⟩
  | ended hline hbreak hrest =>
    exact ⟨_, .ended (unbroken_cons hreturn hfeed hline) hbreak hrest⟩

theorem HasLines.of_break (hbreak : Break text rest) (h : HasLines rest ls) :
    HasLines text ([] :: ls) :=
  .ended unbroken_nil hbreak h

/-- Every text has lines. -/
theorem exists_hasLines (text : List Char) : ∃ ls, HasLines text ls := by
  induction text using unifyLineEnds.induct with
  | case1 => exact ⟨[], .nil⟩
  | case2 rest ih =>
    obtain ⟨ls, hls⟩ := ih
    exact ⟨_, hls.of_break (.returnFeed rest)⟩
  | case3 rest hlone ih =>
    obtain ⟨ls, hls⟩ := ih
    exact ⟨_, hls.of_break (.of_lone hlone)⟩
  | case4 c rest _ hreturn ih =>
    obtain ⟨ls, hls⟩ := ih
    by_cases hfeed : c = '\n'
    · subst hfeed
      exact ⟨_, hls.of_break (.feed rest)⟩
    · exact hls.exists_cons hreturn hfeed

/-! ## The stored text -/

theorem unifyLineEnds_append (h : '\r' ∉ line) (rest : List Char) :
    unifyLineEnds (line ++ rest) = line ++ unifyLineEnds rest := by
  induction line with
  | nil => rfl
  | cons c line ih =>
    rw [List.mem_cons, not_or] at h
    rw [List.cons_append, unifyLineEnds_cons (Ne.symm h.1), ih h.2, List.cons_append]

theorem Break.unifyLineEnds_eq (h : Break text rest) :
    unifyLineEnds text = '\n' :: unifyLineEnds rest := by
  cases h with
  | feed => exact unifyLineEnds_cons (by decide) rest
  | returnFeed => rfl
  | loneReturn h =>
    cases rest with
    | nil => rfl
    | cons c rest => exact unifyLineEnds_return (by simpa using h) rest

theorem normalizeChars_eq_ite (text : List Char) :
    normalizeChars text =
      if unifyLineEnds text = [] ∨ (unifyLineEnds text).getLast? = some '\n' then unifyLineEnds text
      else unifyLineEnds text ++ ['\n'] := by
  simp [normalizeChars]

/-- A line and its break are stored as the line and a line feed, whatever comes after them. -/
theorem normalizeChars_ended (hline : '\r' ∉ line) (hbreak : Break text rest) :
    normalizeChars (line ++ text) = line ++ '\n' :: normalizeChars rest := by
  rw [normalizeChars_eq_ite, normalizeChars_eq_ite, unifyLineEnds_append hline,
    hbreak.unifyLineEnds_eq]
  cases unifyLineEnds rest with
  | nil => simp
  | cons c cs =>
    -- with more text behind the break, both texts end in the same character
    have hlast : (line ++ '\n' :: c :: cs).getLast? = (c :: cs).getLast? := by
      simp [List.getLast?_append, List.getLast?_cons]
    rw [hlast]
    split <;> simp_all

/-- **A stored text is its lines, each with a line feed.** -/
theorem HasLines.normalizeChars_eq (h : HasLines text ls) :
    normalizeChars text = (ls.map (· ++ ['\n'])).flatten := by
  induction h with
  | nil => rfl
  | @unended line hne hline =>
    have hunified : unifyLineEnds line = line := by
      simpa [unifyLineEnds] using unifyLineEnds_append hline.1 []
    have hopen : ¬ (line = [] ∨ line.getLast? = some '\n') :=
      not_or.mpr ⟨hne, fun hlast => hline.2 (List.mem_of_getLast? hlast)⟩
    rw [normalizeChars_eq_ite, hunified, if_neg hopen]
    simp
  | ended hline hbreak _ ih =>
    rw [normalizeChars_ended hline.1 hbreak, ih]
    simp

/-- Lines that are written one after the other, each with a line feed, are the lines of that
text. -/
theorem hasLines_flatten (h : ∀ line ∈ ls, Unbroken line) :
    HasLines (ls.map (· ++ ['\n'])).flatten ls := by
  induction ls with
  | nil => exact .nil
  | cons line ls ih =>
    obtain ⟨hline, hrest⟩ := List.forall_mem_cons.mp h
    rw [List.map_cons, List.flatten_cons, List.append_assoc, List.singleton_append]
    exact .ended hline (.feed _) (ih hrest)

/-- A stored text has the lines of the text. -/
theorem HasLines.normalized (h : HasLines text ls) : HasLines (normalizeChars text) ls := by
  rw [h.normalizeChars_eq]
  exact hasLines_flatten h.unbroken

theorem HasLines.lines_eq (h : HasLines text ls) : lines (normalizeChars text) = ls := by
  rw [h.normalizeChars_eq, lines_flatten fun line hline => (h.unbroken line hline).2]
  exact map_dropReturn fun line hline => (h.unbroken line hline).1

/-- **The lines of a text are those that are read from the stored text.** -/
theorem hasLines_iff : HasLines text ls ↔ lines (normalizeChars text) = ls := by
  refine ⟨HasLines.lines_eq, ?_⟩
  rintro rfl
  obtain ⟨ls, hls⟩ := exists_hasLines text
  rwa [hls.lines_eq]

instance decidableHasLines : Decidable (HasLines text ls) :=
  decidable_of_iff _ hasLines_iff.symm

example : HasLines "a\r\r\nb\n\rc".toList [['a'], [], ['b'], [], ['c']] := by decide

theorem return_not_mem_normalizeChars (text : List Char) : '\r' ∉ normalizeChars text := by
  obtain ⟨ls, hls⟩ := exists_hasLines text
  rw [hls.normalizeChars_eq, List.mem_flatten]
  rintro ⟨stored, hstored, hreturn⟩
  obtain ⟨line, hline, rfl⟩ := List.mem_map.mp hstored
  rcases List.mem_append.mp hreturn with hreturn | hreturn
  · exact (hls.unbroken line hline).1 hreturn
  · exact absurd (List.mem_singleton.mp hreturn) (by decide)

theorem normalizeChars_eq_nil_iff : normalizeChars text = [] ↔ text = [] := by
  obtain ⟨ls, hls⟩ := exists_hasLines text
  constructor
  · intro hnil
    rw [hls.normalizeChars_eq] at hnil
    cases hls with
    | nil => rfl
    | unended => simp at hnil
    | ended => simp at hnil
  · rintro rfl
    rfl

theorem getLast?_normalizeChars (h : text ≠ []) : (normalizeChars text).getLast? = some '\n' := by
  obtain ⟨ls, hls⟩ := exists_hasLines text
  rcases List.eq_nil_or_concat ls with rfl | ⟨before, last, rfl⟩
  · exact absurd (normalizeChars_eq_nil_iff.mp hls.normalizeChars_eq) h
  · rw [hls.normalizeChars_eq]
    simp

theorem normalizeChars_normalizeChars (text : List Char) :
    normalizeChars (normalizeChars text) = normalizeChars text := by
  obtain ⟨ls, hls⟩ := exists_hasLines text
  rw [hls.normalized.normalizeChars_eq, hls.normalizeChars_eq]

end

/-! ## Replacing -/

/-- Writes each occurrence of a pattern as another text, from left to right. The number is that of
the characters of an occurrence that are still to be passed over. -/
def replaceFrom (pattern replacement : List Char) : Nat → List Char → List Char
  | _, [] => []
  | passed + 1, _ :: rest => replaceFrom pattern replacement passed rest
  | 0, c :: rest =>
    if pattern.isPrefixOf (c :: rest) then
      replacement ++ replaceFrom pattern replacement (pattern.length - 1) rest
    else c :: replaceFrom pattern replacement 0 rest

/-- Writes each occurrence of a pattern as another text, from left to right. -/
def replaceAll (pattern replacement text : List Char) : List Char :=
  replaceFrom pattern replacement 0 text

section

variable {pattern replacement : List Char} {c : Char} {rest : List Char}

theorem replaceFrom_append (passed : List Char) :
    replaceFrom pattern replacement passed.length (passed ++ rest)
      = replaceAll pattern replacement rest := by
  induction passed with
  | nil => rfl
  | cons c passed ih => exact ih

theorem replaceAll_append (hne : pattern ≠ []) :
    replaceAll pattern replacement (pattern ++ rest)
      = replacement ++ replaceAll pattern replacement rest := by
  obtain ⟨c, tail, rfl⟩ := List.exists_cons_of_ne_nil hne
  have hstart : (c :: tail).isPrefixOf (c :: (tail ++ rest)) = true := by simp
  rw [replaceAll, List.cons_append, replaceFrom, if_pos hstart, List.length_cons,
    Nat.add_sub_cancel, replaceFrom_append]

theorem replaceAll_cons (h : ¬ pattern <+: c :: rest) :
    replaceAll pattern replacement (c :: rest) = c :: replaceAll pattern replacement rest := by
  rw [replaceAll, replaceFrom, if_neg (by simpa using h), replaceAll]

end

/-- **Two replacements are one scan.** When each carriage return with its line feed has become a
line feed, the carriage returns that are left are breaks of their own. -/
theorem unifyLineEnds_eq_replaceAll (text : List Char) :
    unifyLineEnds text = replaceAll ['\r'] ['\n'] (replaceAll ['\r', '\n'] ['\n'] text) := by
  induction text using unifyLineEnds.induct with
  | case1 => rfl
  | case2 rest ih =>
    have hpair : replaceAll ['\r', '\n'] ['\n'] ('\r' :: '\n' :: rest)
        = '\n' :: replaceAll ['\r', '\n'] ['\n'] rest :=
      replaceAll_append (List.cons_ne_nil _ _)
    rw [hpair, replaceAll_cons (by simp), ← ih, unifyLineEnds]
  | case3 rest hlone ih =>
    have hpair : ¬ ['\r', '\n'] <+: '\r' :: rest := by
      rintro ⟨tail, htail⟩
      exact hlone tail (List.cons.inj htail).2.symm
    have hreturn : replaceAll ['\r'] ['\n'] ('\r' :: replaceAll ['\r', '\n'] ['\n'] rest)
        = '\n' :: replaceAll ['\r'] ['\n'] (replaceAll ['\r', '\n'] ['\n'] rest) :=
      replaceAll_append (List.cons_ne_nil _ _)
    rw [replaceAll_cons hpair, hreturn, ← ih]
    exact (Break.of_lone hlone).unifyLineEnds_eq
  | case4 c rest _ hreturn ih =>
    have hpair : ¬ ['\r', '\n'] <+: c :: rest :=
      fun h => hreturn (List.cons_prefix_cons.mp h).1.symm
    have hsingle : ¬ ['\r'] <+: c :: replaceAll ['\r', '\n'] ['\n'] rest :=
      fun h => hreturn (List.cons_prefix_cons.mp h).1.symm
    rw [replaceAll_cons hpair, replaceAll_cons hsingle, ← ih, unifyLineEnds_cons hreturn]

/-! ## All texts -/

/-- **A stored text has the lines of the text, whatever they ended with.** It holds no carriage
return, it is empty for the empty text alone, and otherwise ends with a line feed. What is read from
it are the lines of the text, and storing it again changes nothing. Its line ends are what two
replacements give, first of each carriage return with its line feed and then of each carriage return
that is left. -/
theorem normalize_keeps_lines (text : String) :
    '\r' ∉ (normalize text).toList ∧
      (normalize text = "" ↔ text = "") ∧
      (text ≠ "" → (normalize text).toList.getLast? = some '\n') ∧
      (∀ ls, HasLines text.toList ls ↔ lines (normalize text).toList = ls) ∧
      normalize (normalize text) = normalize text ∧
      unifyLineEnds text.toList
        = replaceAll ['\r'] ['\n'] (replaceAll ['\r', '\n'] ['\n'] text.toList) := by
  have hstored : (normalize text).toList = normalizeChars text.toList := String.toList_ofList
  have hempty : ∀ s : String, s = "" ↔ s.toList = [] := fun s => String.toList_eq_nil_iff.symm
  refine ⟨?_, ?_, ?_, ?_, ?_, unifyLineEnds_eq_replaceAll _⟩
  · rw [hstored]
    exact return_not_mem_normalizeChars _
  · rw [hempty, hempty, hstored, normalizeChars_eq_nil_iff]
  · intro hne
    rw [hstored]
    exact getLast?_normalizeChars (mt (hempty text).mpr hne)
  · intro ls
    rw [hstored, hasLines_iff]
  · rw [normalize, hstored, normalizeChars_normalizeChars, normalize]

end FluidAnalysis.Text
