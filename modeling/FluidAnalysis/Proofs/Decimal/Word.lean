import FluidAnalysis.Proofs.Decimal.General
import FluidAnalysis.Text.Blank

/-!
# A number in general notation is one word

Whatever the double, its text in general notation holds no blank and no comment sign, so that a table
shows it as one word; and the reader of numbers accepts it.
-/

namespace FluidAnalysis.Decimal

/-- A text that starts with a digit and holds only digits, points, exponent signs and signs. -/
structure IsNumberText (text : List Char) : Prop where
  first : ∃ c ∈ text.head?, c.isDigit
  chars : ∀ c ∈ text, c.isDigit ∨ c ∈ ['.', 'e', '+', '-']

/-! ## The characters of a number -/

theorem isDigit_toNat {c : Char} (h : c.isDigit) : 48 ≤ c.toNat ∧ c.toNat ≤ 57 := by
  simpa [Char.isDigit, UInt32.le_iff_toNat_le] using h

/-- No character of a number is a blank or a comment sign. -/
theorem numberChar_plain {c : Char} (h : c.isDigit ∨ c ∈ ['.', 'e', '+', '-']) :
    Text.isBlank c = false ∧ c ≠ '#' := by
  rcases h with h | h
  · obtain ⟨hlow, hhigh⟩ := isDigit_toNat h
    constructor
    · simp [Text.isBlank, Text.blankRanges]
      omega
    · intro hc
      rw [hc] at hlow
      exact absurd hlow (by decide)
  · simp only [List.mem_cons, List.not_mem_nil, or_false] at h
    rcases h with rfl | rfl | rfl | rfl <;> decide

theorem pointed_chars {whole fraction : List Char} (hw : AllDigits whole) (hf : AllDigits fraction) :
    ∀ c ∈ pointed whole fraction, c.isDigit ∨ c ∈ ['.', 'e', '+', '-'] := by
  intro c hc
  rcases mem_pointed hc with hc | rfl | hc
  · exact Or.inl (hw c hc)
  · exact Or.inr List.mem_cons_self
  · exact Or.inl (hf c hc)

theorem head?_pointed {first : Char} {rest fraction : List Char} :
    (pointed (first :: rest) fraction).head? = some first := by
  unfold pointed
  split <;> rfl

theorem IsPositional.isNumberText {text : List Char} (h : IsPositional text) :
    IsNumberText text := by
  obtain ⟨whole, fraction, rfl, hw, hf⟩ := h
  refine ⟨?_, pointed_chars hw.digits hf.digits⟩
  obtain ⟨first, rest, rfl⟩ := List.exists_cons_of_ne_nil hw.nonempty
  exact ⟨first, by rw [head?_pointed]; rfl, hw.digits first List.mem_cons_self⟩

theorem IsScientific.isNumberText {x : ℤ} {text : List Char} (h : IsScientific x text) :
    IsNumberText text := by
  obtain ⟨first, fraction, exponent, rfl, hfirst, -, hf, hexponent, -⟩ := h
  have hone : AllDigits [first] := by
    intro c hc
    rw [List.mem_singleton.mp hc]
    exact hfirst
  constructor
  · refine ⟨first, ?_, hfirst⟩
    rw [List.head?_append, head?_pointed]
    rfl
  · intro c hc
    rcases List.mem_append.mp hc with hc | hc
    · exact pointed_chars hone hf.digits c hc
    · rcases List.mem_cons.mp hc with rfl | hc
      · exact Or.inr (by decide)
      · rcases List.mem_cons.mp hc with rfl | hc
        · split <;> exact Or.inr (by decide)
        · exact Or.inl (hexponent c hc)

/-! ## Words -/

/-- A text that a table shows as one word and reads as a number. -/
structure IsNumberWord (word : List Char) : Prop where
  nonempty : word ≠ []
  plain : ∀ c ∈ word, Text.isBlank c = false ∧ c ≠ '#'
  number : (readChars? word).isSome

theorem takeSign_of_digit {text : List Char} (h : ∃ c ∈ text.head?, c.isDigit) :
    takeSign text = (false, text) := by
  obtain ⟨c, hc, hdigit⟩ := h
  cases text with
  | nil => cases hc
  | cons d rest =>
    obtain rfl : d = c := by simpa using hc
    unfold takeSign
    split
    · next heq =>
      rw [(List.cons.inj heq).1] at hdigit
      cases hdigit
    · next heq =>
      rw [(List.cons.inj heq).1] at hdigit
      cases hdigit
    · rfl

theorem isSome_readMagnitude? {text : List Char} {d : Exact} (h : readExact? text = some d) :
    (readMagnitude? text).isSome := by
  unfold readMagnitude?
  simp only
  split
  · rfl
  · split
    · rfl
    · rw [h]
      rfl

/-- A number text is a word, with a minus in front or without. -/
theorem IsNumberText.isNumberWord {text : List Char} {d : Exact} (negative : Bool)
    (h : IsNumberText text) (hread : readExact? text = some d) :
    IsNumberWord ((if negative then ['-'] else []) ++ text) := by
  have hne : text ≠ [] := by
    obtain ⟨c, hc, -⟩ := h.first
    intro hnil
    rw [hnil] at hc
    cases hc
  have hsome := isSome_readMagnitude? hread
  cases negative with
  | false =>
    refine ⟨hne, fun c hc => numberChar_plain (h.chars c hc), ?_⟩
    show (readChars? text).isSome
    rw [readChars?, takeSign_of_digit h.first]
    simpa using hsome
  | true =>
    refine ⟨List.cons_ne_nil _ _, fun c hc => ?_, ?_⟩
    · rcases List.mem_cons.mp hc with rfl | hc
      · decide
      · exact numberChar_plain (h.chars c hc)
    · show (readChars? ('-' :: text)).isSome
      rw [readChars?, takeSign]
      simpa using hsome

/-- A given word is checked character by character. -/
theorem isNumberWord_of_all {word : List Char} (nonempty : word.isEmpty = false)
    (plain : word.all fun c => !Text.isBlank c && c != '#') (number : (readChars? word).isSome) :
    IsNumberWord word := by
  refine ⟨?_, ?_, number⟩
  · rintro rfl
    cases nonempty
  · intro c hc
    simpa using List.all_eq_true.mp plain c hc

/-- **Every double in general notation is one word, and the word is a number.** -/
theorem general_isNumberWord (x : Float) (significant : ℕ) :
    IsNumberWord (general x significant).toList := by
  cases hx : read x with
  | nan =>
    rw [general, hx]
    show IsNumberWord "nan".toList
    exact isNumberWord_of_all (by decide) (by decide) (by decide)
  | infinite negative =>
    rw [general, hx]
    show IsNumberWord (if negative then "-inf" else "inf").toList
    cases negative <;> exact isNumberWord_of_all (by decide) (by decide) (by decide)
  | finite b =>
    -- zero has no leading place and is written apart
    by_cases hb : b.mantissa = 0
    · have hzero : (general x significant).toList = (if b.negative then ['-'] else []) ++ ['0'] := by
        rw [general, hx]
        simp only [hb, String.toList_ofList]
        rfl
      rw [hzero]
      cases b.negative <;> exact isNumberWord_of_all (by decide) (by decide) (by decide)
    · have hcount : 0 < max significant 1 := Nat.lt_of_lt_of_le Nat.one_pos (Nat.le_max_right _ _)
      obtain ⟨hform, d, hread, -⟩ :=
        magnitudeGeneral_cases hcount hb (toSignificant_magnitude hcount hb)
      have htext : IsNumberText (magnitudeGeneral (max significant 1) b) := by
        split at hform
        · exact hform.isNumberText
        · exact hform.isNumberText
      rw [general_toList significant hx hb]
      exact htext.isNumberWord b.negative hread

end FluidAnalysis.Decimal
