import FluidAnalysis.Proofs.Decimal.Numeral
import FluidAnalysis.Proofs.Decimal.Rounding

/-!
# General notation is exact rounding

A double in general notation shows the exact value of the double, rounded once to the significant
digits that were asked for. The writer reads the exponent off the rounded digits and may then write
the double a second time, with a fixed number of places; `magnitudeFixed_eq` says that the second
text has the digits of the first.

* `IsPositional`, `IsScientific` — the two forms a number may take
* `general_eq_rounded` — the value, the form and the digits of every text in general notation
-/

namespace FluidAnalysis.Decimal

/-! ## The two forms -/

/-- The number that a decimal stands for. -/
def Exact.value (d : Exact) : ℚ :=
  d.coefficient * 10 ^ d.exponent

/-- A fraction that ends in no zero. -/
structure IsFraction (fraction : List Char) : Prop where
  digits : AllDigits fraction
  last : fraction.getLast? ≠ some '0'

/-- Digits that start with zero only if there is no other. -/
structure IsWhole (whole : List Char) : Prop where
  digits : AllDigits whole
  nonempty : whole ≠ []
  first : whole = ['0'] ∨ whole.head? ≠ some '0'

/-- Positional notation: no exponent, no zero at the end of the fraction, and no point without
one. -/
def IsPositional (text : List Char) : Prop :=
  ∃ whole fraction, text = pointed whole fraction ∧ IsWhole whole ∧ IsFraction fraction

/-- Scientific notation: one digit other than zero, a fraction as in positional notation, and the
exponent `x` with its sign and at least two digits. -/
def IsScientific (x : ℤ) (text : List Char) : Prop :=
  ∃ first fraction exponent,
    text = pointed [first] fraction ++ 'e' :: (if x < 0 then '-' else '+') :: exponent ∧
    first.isDigit ∧ first ≠ '0' ∧ IsFraction fraction ∧
    AllDigits exponent ∧ 2 ≤ exponent.length ∧ digitsValue exponent = x.natAbs

/-- The digits of a text from the first that is not zero on. -/
def shownDigits (text : List Char) : List Char :=
  (text.filter Char.isDigit).dropWhile (· == '0')

theorem isFraction_trimmed {fraction : List Char} (h : AllDigits fraction) :
    IsFraction (trimmed fraction) :=
  ⟨h.trimmed, trimmed_getLast? fraction⟩

/-- A positional text has no exponent. -/
theorem IsPositional.not_mem {text : List Char} (h : IsPositional text) : 'e' ∉ text := by
  obtain ⟨whole, fraction, rfl, hw, hf⟩ := h
  intro he
  rcases mem_pointed he with he | he | he
  · exact hw.digits.not_mem rfl he
  · exact absurd he (by decide)
  · exact hf.digits.not_mem rfl he

theorem IsScientific.mem {x : ℤ} {text : List Char} (h : IsScientific x text) : 'e' ∈ text := by
  obtain ⟨first, fraction, exponent, rfl, -⟩ := h
  exact List.mem_append_right _ List.mem_cons_self

/-- Zeros at the end of a fraction do not count. -/
theorem value_trimmed (whole fraction : List Char) (x : ℤ) :
    Exact.value ⟨digitsValue (whole ++ trimmed fraction), x - (trimmed fraction).length⟩
      = digitsValue (whole ++ fraction) * 10 ^ (x - fraction.length) := by
  obtain ⟨k, hk⟩ := trimmed_append_zeros fraction
  have hvalue : digitsValue (whole ++ fraction)
      = digitsValue (whole ++ trimmed fraction) * 10 ^ k := by
    conv_lhs => rw [hk, ← List.append_assoc, digitsValue_append, digitsValue_zeros,
      List.length_replicate, Nat.add_zero]
  have hlength : (fraction.length : ℤ) = (trimmed fraction).length + k := by
    conv_lhs => rw [hk, List.length_append, List.length_replicate]
    push_cast
    rfl
  rw [Exact.value, hvalue, hlength, Nat.cast_mul, cast_pow_ten, mul_assoc,
    ← zpow_add₀ (by norm_num)]
  congr 2
  ring

/-! ## The second writing -/

/-- Rounding a double to places gives the nearest multiple of the last place. -/
theorem roundHalfEven_ratio_eq {b : Binary} {places n : ℕ}
    (h : IsNearestEven (b.magnitude * 10 ^ (places : ℤ)) n) :
    roundHalfEven (b.ratio.1 * 10 ^ places) b.ratio.2 = n := by
  have hround := roundHalfEven_isNearestEven (b.ratio.1 * 10 ^ places) b.ratio_den_pos
  rw [Nat.cast_mul, cast_pow_ten, mul_div_right_comm, b.ratio_eq_magnitude] at hround
  exact hround.unique h

theorem magnitudeFixed_eq_withPoint (places : ℕ) (b : Binary) :
    magnitudeFixed places b
      = withPoint (roundHalfEven (b.ratio.1 * 10 ^ places) b.ratio.2) places := rfl

/-- **A double with the places that belong to its exponent has the digits from which the exponent was
read.** -/
theorem magnitudeFixed_eq {count : ℕ} {b : Binary} {s : Significant} (hcount : 0 < count)
    (hb : b.mantissa ≠ 0) (h : RoundsTo count b.magnitude s) (hx : s.exponent < count) :
    magnitudeFixed ((count : ℤ) - 1 - s.exponent).toNat b
      = withPoint s.digits ((count : ℤ) - 1 - s.exponent).toNat := by
  have hplaces : ((((count : ℤ) - 1 - s.exponent).toNat : ℕ) : ℤ) = (count : ℤ) - 1 - s.exponent :=
    Int.toNat_of_nonneg (by omega)
  have hnear := h.isNearestEven hcount (Binary.magnitude_pos hb)
  rw [← hplaces] at hnear
  rw [magnitudeFixed_eq_withPoint, roundHalfEven_ratio_eq hnear]

theorem shownDigits_of_zeros {n k : ℕ} {text : List Char} (hn : 0 < n)
    (h : text.filter Char.isDigit = List.replicate k '0' ++ digits n) :
    shownDigits text = digits n := by
  obtain ⟨first, rest, hdigits, hfirst⟩ := digits_eq_cons hn
  rw [shownDigits, h, List.dropWhile_append_of_pos (by simp), hdigits,
    List.dropWhile_cons_of_neg (by simpa using hfirst)]

theorem shownDigits_withPoint {n : ℕ} (places : ℕ) (h : 0 < n) :
    shownDigits (withPoint n places) = digits n := by
  refine shownDigits_of_zeros h (k := places + 1 - (digits n).length) ?_
  rw [withPoint_eq_pointed, filter_isDigit_pointed (allDigits_wholePart n places)
    (allDigits_fractionPart n places), wholePart_append_fractionPart, padded]

theorem shownDigits_pointAfterFirst {n : ℕ} (h : 0 < n) :
    shownDigits (pointAfterFirst n) = digits n := by
  obtain ⟨first, rest, hdigits, -⟩ := digits_eq_cons h
  have hall : AllDigits ([first] ++ rest) := by
    rw [List.singleton_append, ← hdigits]
    exact allDigits_digits n
  refine shownDigits_of_zeros h (k := 0) ?_
  rw [pointAfterFirst_eq_pointed hdigits,
    filter_isDigit_pointed (hall.of_subset (List.subset_append_left _ _))
      (hall.of_subset (List.subset_append_right _ _)), hdigits]
  rfl

/-! ## The two branches -/

/-- What a text in positional notation says. -/
theorem trimFraction_withPoint {n : ℕ} (places : ℕ) (h : 0 < n) :
    IsPositional (trimFraction (withPoint n places)) ∧
      ∃ d, readExact? (trimFraction (withPoint n places)) = some d ∧
        d.value = n * 10 ^ (-(places : ℤ)) := by
  have hwhole := allDigits_wholePart n places
  have hfraction := allDigits_fractionPart n places
  have hw : IsWhole (wholePart n places) := by
    rcases wholePart_cases places h with hzero | ⟨first, rest, hcons, hfirst⟩
    · exact ⟨hwhole, by rw [hzero]; exact List.cons_ne_nil _ _, Or.inl hzero⟩
    · refine ⟨hwhole, by rw [hcons]; exact List.cons_ne_nil _ _, Or.inr ?_⟩
      rw [hcons, List.head?_cons, ne_eq, Option.some.injEq]
      exact hfirst
  rw [withPoint_eq_pointed, trimFraction_pointed hwhole hfraction]
  refine ⟨⟨_, _, rfl, hw, isFraction_trimmed hfraction⟩, _,
    readExact?_pointed hw.nonempty hwhole hfraction.trimmed, ?_⟩
  rw [← zero_sub, value_trimmed, wholePart_append_fractionPart, padded, digitsValue_zeros_append,
    digitsValue_digits, length_fractionPart, zero_sub]

/-- What a text in scientific notation says. -/
theorem trimFraction_pointAfterFirst {count n : ℕ} (x : ℤ) (hcount : 0 < count)
    (hlow : 10 ^ (count - 1) ≤ n) (hhigh : n < 10 ^ count) :
    IsScientific x (trimFraction (pointAfterFirst n) ++ 'e' :: exponentText x) ∧
      ∃ d, readExact? (trimFraction (pointAfterFirst n) ++ 'e' :: exponentText x) = some d ∧
        d.value = n * 10 ^ (x + 1 - count) := by
  have hn : 0 < n := lt_of_lt_of_le (Nat.pow_pos (by decide)) hlow
  obtain ⟨first, rest, hdigits, hfirst⟩ := digits_eq_cons hn
  have hall : AllDigits ([first] ++ rest) := by
    rw [List.singleton_append, ← hdigits]
    exact allDigits_digits n
  have hone : AllDigits [first] := hall.of_subset (List.subset_append_left _ _)
  have hrest : AllDigits rest := hall.of_subset (List.subset_append_right _ _)
  have hlength : (rest.length : ℤ) = count - 1 := by
    have hlen := length_digits_eq hcount hlow hhigh
    rw [hdigits, List.length_cons] at hlen
    omega
  rw [pointAfterFirst_eq_pointed hdigits, trimFraction_pointed hone hrest]
  refine ⟨?_, _, readExact?_scientific (List.cons_ne_nil _ _) hone hrest.trimmed x, ?_⟩
  · rw [exponentText_eq]
    exact ⟨first, trimmed rest, exponentDigits x, rfl, hone first List.mem_cons_self, hfirst,
      isFraction_trimmed hrest, allDigits_exponentDigits x, two_le_length_exponentDigits x,
      digitsValue_exponentDigits x⟩
  · rw [value_trimmed, List.singleton_append, ← hdigits, digitsValue_digits, hlength]
    congr 2
    ring

theorem toSignificant_magnitude {count : ℕ} {b : Binary} (hcount : 0 < count)
    (hb : b.mantissa ≠ 0) :
    RoundsTo count b.magnitude (toSignificant count b.ratio.1 b.ratio.2) := by
  rw [← b.ratio_eq_magnitude]
  exact toSignificant_roundsTo hcount (Binary.ratio_num_pos hb) b.ratio_den_pos

/-- What the magnitude of a double in general notation says, in either branch. -/
theorem magnitudeGeneral_cases {count : ℕ} {b : Binary} {s : Significant} (hcount : 0 < count)
    (hb : b.mantissa ≠ 0) (h : RoundsTo count b.magnitude s) :
    (if -4 ≤ s.exponent ∧ s.exponent < count then IsPositional (magnitudeGeneral count b)
      else IsScientific s.exponent (magnitudeGeneral count b)) ∧
      ∃ d, readExact? (magnitudeGeneral count b) = some d ∧ d.value = s.value count := by
  have hs : toSignificant count b.ratio.1 b.ratio.2 = s :=
    (toSignificant_magnitude hcount hb).unique hcount (Binary.magnitude_pos hb) h
  have hdigits : 0 < s.digits := lt_of_lt_of_le (Nat.pow_pos (by decide)) h.le_digits
  unfold magnitudeGeneral
  simp only [hs]
  by_cases hx : -4 ≤ s.exponent ∧ s.exponent < count
  · rw [if_pos hx, if_neg (by omega), magnitudeFixed_eq hcount hb h hx.2]
    obtain ⟨hform, d, hread, hvalue⟩ :=
      trimFraction_withPoint ((count : ℤ) - 1 - s.exponent).toNat hdigits
    refine ⟨hform, d, hread, ?_⟩
    rw [hvalue, Significant.value, Int.toNat_of_nonneg (by omega)]
    congr 2
    ring
  · rw [if_neg hx, if_pos (by omega)]
    exact trimFraction_pointAfterFirst s.exponent hcount h.le_digits h.digits_lt

theorem general_toList {x : Float} {b : Binary} (significant : ℕ) (hx : read x = .finite b)
    (hb : b.mantissa ≠ 0) :
    (general x significant).toList
      = (if b.negative then ['-'] else []) ++ magnitudeGeneral (max significant 1) b := by
  have hm : (b.mantissa == 0) = false := by simpa using hb
  rw [general, hx]
  simp only [hm, String.toList_ofList]
  rfl

/-- What it means that a text shows a double with `count` significant digits. The double rounds to
`s`, and the text is its sign and then `body`, which is read as the decimal `d`. -/
structure Shows (count : ℕ) (b : Binary) (text : List Char) (s : Significant) (body : List Char)
    (d : Exact) : Prop where
  rounded : RoundsTo count b.magnitude s
  unique : ∀ t, RoundsTo count b.magnitude t → t = s
  sign : text = (if b.negative then ['-'] else []) ++ body
  read : readExact? body = some d
  value : d.value = s.value count
  positional : IsPositional body ↔ -4 ≤ s.exponent ∧ s.exponent < count
  scientific : IsScientific s.exponent body ↔ ¬ (-4 ≤ s.exponent ∧ s.exponent < count)
  /-- The second writing, with the places that belong to the exponent, has the digits of the
  first. -/
  digits : -4 ≤ s.exponent ∧ s.exponent < count →
    shownDigits (magnitudeFixed ((count : ℤ) - 1 - s.exponent).toNat b)
      = shownDigits (pointAfterFirst s.digits)
  /-- The number of digits and the number of places are kept in 32 bits with a sign. -/
  digits_lt : (count : ℤ) < 2 ^ 31
  places_lt : -4 ≤ s.exponent → (count : ℤ) - 1 - s.exponent < 2 ^ 31

/-- **A finite double other than zero is written as its exact value, rounded once.** The text stands
for the rounded number itself, in positional notation exactly for exponents from `-4` up to the
number of digits. The number of digits is such that the number of places, which is at most three
higher, has 32 bits too. -/
theorem general_eq_rounded (x : Float) (significant : ℕ) (b : Binary) (hx : read x = .finite b)
    (hb : b.mantissa ≠ 0) (hword : significant + 3 < 2 ^ 31) :
    ∃ s body d, Shows (max significant 1) b (general x significant).toList s body d := by
  have hcount : 0 < max significant 1 := Nat.lt_of_lt_of_le Nat.one_pos (Nat.le_max_right _ _)
  have hround := toSignificant_magnitude hcount hb
  set s := toSignificant (max significant 1) b.ratio.1 b.ratio.2
  have hdigits : 0 < s.digits := lt_of_lt_of_le (Nat.pow_pos (by decide)) hround.le_digits
  obtain ⟨hform, d, hread, hvalue⟩ := magnitudeGeneral_cases hcount hb hround
  -- only scientific notation has an `e`, so that each form excludes the other
  refine ⟨s, _, d, {
    rounded := hround
    unique := fun t ht => ht.unique hcount (Binary.magnitude_pos hb) hround
    sign := general_toList significant hx hb
    read := hread
    value := hvalue
    positional := ?_
    scientific := ?_
    digits := ?_
    digits_lt := by omega
    places_lt := fun _ => by omega }⟩
  · constructor
    · intro hpos
      by_contra hrange
      rw [if_neg hrange] at hform
      exact hpos.not_mem hform.mem
    · intro hrange
      rwa [if_pos hrange] at hform
  · constructor
    · intro hsci hrange
      rw [if_pos hrange] at hform
      exact hform.not_mem hsci.mem
    · intro hrange
      rwa [if_neg hrange] at hform
  · intro hrange
    rw [magnitudeFixed_eq hcount hb hround hrange.2, shownDigits_withPoint _ hdigits,
      shownDigits_pointAfterFirst hdigits]

/-- A negative number just below `10 ^ -4`: the rounding carries it into the decade where positional
notation begins. -/
theorem general_eq_rounded_carry :
    read (-0.000099999996) = .finite ⟨true, 7378697334335915, -66⟩ ∧
      general (-0.000099999996) 6 = "-0.0001" ∧
      ∃ s body d, Shows (max 6 1) ⟨true, 7378697334335915, -66⟩
        (general (-0.000099999996) 6).toList s body d :=
  ⟨by decide, by decide, general_eq_rounded _ 6 _ (by decide) (by decide) (by decide)⟩

end FluidAnalysis.Decimal
