import Mathlib
import FluidAnalysis.Decimal.Shortest
import FluidAnalysis.Proofs.Decimal.ReadBack

/-!
# Shortest notation reads back

The shortest notation of a double is searched for on one decimal grid after the other, and a decimal
is taken if it lies in the neighbourhood of the double. The neighbourhood is the set of all numbers
that are read as the double, and with seventeen digits the search always ends.

* `contains_iff` — the test with natural numbers is a test of the exact decimal
* `contains_shortest` — the search ends in the neighbourhood
* `label_toList` — a label is a sign and digits around a point
* `not_mem_label` — what labels are made of
* `read?_label` — a label is read back
-/

namespace FluidAnalysis.Decimal

open Float.Model
open Double (Canonical gapBelow parts canonical_parts)
open UnpackedFloat (Sign)

/-! ## Neighbourhoods -/

namespace Neighbourhood

variable (h : Neighbourhood)

/-- What the ends of the interval are counted in. -/
def step : ℚ :=
  h.unit.1 / h.unit.2

/-- The two numbers that are compared are brought to a common denominator, which depends on the place
only. -/
theorem align_scaled (hunit : 0 < h.unit.2) (k : ℤ) :
    ∃ c : ℚ, 0 < c ∧ ∀ units n : ℕ, ((h.align units n k).1 : ℚ) = units * h.step * c ∧
      ((h.align units n k).2 : ℚ) = n * 10 ^ k * c := by
  have hne : (h.unit.2 : ℚ) ≠ 0 := by exact_mod_cast hunit.ne'
  unfold align step
  split
  · next hk =>
    obtain ⟨j, rfl⟩ := Int.eq_ofNat_of_zero_le hk
    refine ⟨h.unit.2, by exact_mod_cast hunit, fun units n => ⟨?_, ?_⟩⟩
    · push_cast
      field_simp
    · simp
  · next hk =>
    obtain ⟨j, rfl⟩ : ∃ j : ℕ, k = -j := ⟨(-k).toNat, by omega⟩
    refine ⟨h.unit.2 * 10 ^ j, by positivity, fun units n => ⟨?_, ?_⟩⟩
    · simp
      field_simp
    · simp
      field_simp

theorem contains_eq_true_iff (hunit : 0 < h.unit.2) (n : ℕ) (k : ℤ) :
    h.contains n k = true ↔
      if h.closed then h.low * h.step ≤ n * 10 ^ k ∧ n * 10 ^ k ≤ h.high * h.step
      else h.low * h.step < n * 10 ^ k ∧ n * 10 ^ k < h.high * h.step := by
  obtain ⟨c, hc, hscaled⟩ := h.align_scaled hunit k
  have hle {p q : ℕ} {x y : ℚ} (hp : (p : ℚ) = x * c) (hq : (q : ℚ) = y * c) : p ≤ q ↔ x ≤ y := by
    rw [← Nat.cast_le (α := ℚ), hp, hq, mul_le_mul_iff_left₀ hc]
  have hlt {p q : ℕ} {x y : ℚ} (hp : (p : ℚ) = x * c) (hq : (q : ℚ) = y * c) : p < q ↔ x < y := by
    rw [← Nat.cast_lt (α := ℚ), hp, hq, mul_lt_mul_iff_left₀ hc]
  obtain ⟨hlow, hx⟩ := hscaled h.low n
  obtain ⟨hhigh, -⟩ := hscaled h.high n
  show (if h.closed then decide ((h.align h.low n k).1 ≤ (h.align h.low n k).2 ∧
      (h.align h.low n k).2 ≤ (h.align h.high n k).1)
    else decide ((h.align h.low n k).1 < (h.align h.low n k).2 ∧
      (h.align h.low n k).2 < (h.align h.high n k).1)) = true ↔ _
  cases h.closed with
  | true => simp [hle hlow hx, hle hx hhigh]
  | false => simp [hlt hlow hx, hlt hx hhigh]

/-- The decimal with last place `10 ^ k` next below the double. -/
def below (k : ℤ) : ℕ :=
  (h.align h.value 1 k).1 / (h.align h.value 1 k).2

theorem below_eq_floor (hunit : 0 < h.unit.2) (k : ℤ) :
    h.below k = ⌊h.value * h.step / 10 ^ k⌋₊ := by
  obtain ⟨c, hc, hscaled⟩ := h.align_scaled hunit k
  obtain ⟨hvalue, hone⟩ := hscaled h.value 1
  rw [below, ← Nat.floor_div_eq_div (K := ℚ), hvalue, hone, Nat.cast_one, one_mul,
    mul_div_mul_right _ _ hc.ne']

/-- What is found reads back. -/
theorem contains_of_nearest? {n : ℕ} {k : ℤ} (hn : h.nearest? k = some n) :
    h.contains n k = true := by
  unfold nearest? at hn
  dsimp only at hn
  rw [← below] at hn
  cases hfirst : h.contains (h.below k) k with
  | true =>
    cases hsecond : h.contains (h.below k + 1) k with
    | true =>
      rw [hfirst, hsecond] at hn
      cases hn
      split_ifs
      · exact hfirst
      · exact hsecond
    | false =>
      rw [hfirst, hsecond] at hn
      cases hn
      exact hfirst
  | false =>
    cases hsecond : h.contains (h.below k + 1) k with
    | true =>
      rw [hfirst, hsecond] at hn
      cases hn
      exact hsecond
    | false =>
      rw [hfirst, hsecond] at hn
      cases hn

theorem isSome_nearest? {n : ℕ} {k : ℤ} (hn : n = h.below k ∨ n = h.below k + 1)
    (hcontains : h.contains n k = true) : (h.nearest? k).isSome := by
  unfold nearest?
  dsimp only
  rw [← below]
  rcases hn with rfl | rfl
  · rw [hcontains]
    cases h.contains (h.below k + 1) k <;> rfl
  · rw [hcontains]
    cases h.contains (h.below k) k <;> rfl

end Neighbourhood

/-- The search ends in the neighbourhood if one of the grids meets it. -/
theorem contains_shortestFrom {h : Neighbourhood} {x : ℤ} {tries count : ℕ} (last : ℕ)
    (hfrom : count ≤ last) (hto : last < count + tries)
    (hlast : (h.nearest? (x - last + 1)).isSome) :
    h.contains (shortestFrom h x tries count).1 (shortestFrom h x tries count).2 = true := by
  induction tries generalizing count with
  | zero => omega
  | succ tries ih =>
    unfold shortestFrom
    dsimp only
    cases hnearest : h.nearest? (x - count + 1) with
    | some n => exact h.contains_of_nearest? hnearest
    | none =>
      have hne : count ≠ last := by
        rintro rfl
        rw [hnearest] at hlast
        cases hlast
      exact ih (by omega) (by omega)

/-! ## Numbers that read back -/

theorem IsNearestEven.eq_floor_or {a : ℚ} {n : ℕ} (h : IsNearestEven a n) (ha : 0 ≤ a) :
    n = ⌊a⌋₊ ∨ n = ⌊a⌋₊ + 1 := by
  have hlow : ⌊a⌋₊ ≤ n := h.le_of_le (Nat.floor_le ha)
  have hhigh : n ≤ ⌊a⌋₊ + 1 := by
    refine h.le_of_ge ?_
    push_cast
    exact (Nat.lt_floor_add_one a).le
  omega

namespace Binary

variable (b : Binary)

/-- The numbers up to the middles of the gaps around a double. The middles belong to it if its
mantissa is even. -/
structure Around (a : ℚ) : Prop where
  low : b.mantissa - gapBelow b.mantissa b.exponent ≤ a / 2 ^ b.exponent
  high : a / 2 ^ b.exponent ≤ b.mantissa + 1 / 2
  inner : ¬ Even b.mantissa → b.mantissa - gapBelow b.mantissa b.exponent < a / 2 ^ b.exponent ∧
    a / 2 ^ b.exponent < b.mantissa + 1 / 2

theorem unit_pos : 0 < b.neighbourhood.unit.2 :=
  ratio_den_pos _

theorem step_eq : b.neighbourhood.step = 2 ^ b.exponent / 4 := by
  have hunit : b.neighbourhood.step = (⟨false, 1, b.exponent - 2⟩ : Binary).magnitude :=
    ratio_eq_magnitude _
  rw [hunit, magnitude, zpow_sub₀ (by norm_num)]
  norm_num

variable {b}

theorem low_eq (hb : b.mantissa ≠ 0) :
    (b.neighbourhood.low : ℚ) = 4 * (b.mantissa - gapBelow b.mantissa b.exponent) := by
  have htest : (b.mantissa == Nat.pow 2 52 && b.exponent != -1074) = true ↔
      b.mantissa = 2 ^ 52 ∧ b.exponent ≠ -1074 := by
    simp
  unfold neighbourhood gapBelow
  simp only [htest]
  split_ifs with h
  · rw [Nat.cast_sub (by omega)]
    push_cast
    ring
  · rw [Nat.cast_sub (by omega)]
    push_cast
    ring

theorem contains_iff (hb : b.mantissa ≠ 0) (n : ℕ) (k : ℤ) :
    b.neighbourhood.contains n k = true ↔ b.Around (n * 10 ^ k) := by
  have hpow : (0 : ℚ) < 2 ^ b.exponent := zpow_pos (by norm_num) _
  have hlow : b.neighbourhood.low * b.neighbourhood.step
      = (b.mantissa - gapBelow b.mantissa b.exponent) * 2 ^ b.exponent := by
    rw [low_eq hb, step_eq]
    ring
  have hhigh : b.neighbourhood.high * b.neighbourhood.step
      = (b.mantissa + 1 / 2) * 2 ^ b.exponent := by
    have hcast : (b.neighbourhood.high : ℚ) = 4 * b.mantissa + 2 := by
      show ((4 * b.mantissa + 2 : ℕ) : ℚ) = _
      push_cast
      rfl
    rw [hcast, step_eq]
    ring
  have hclosed : b.neighbourhood.closed = true ↔ Even b.mantissa := by
    rw [Nat.even_iff]
    exact beq_iff_eq
  rw [b.neighbourhood.contains_eq_true_iff b.unit_pos, hlow, hhigh, ← le_div_iff₀ hpow,
    ← div_le_iff₀ hpow, ← lt_div_iff₀ hpow, ← div_lt_iff₀ hpow]
  simp only [hclosed]
  split_ifs with heven
  · exact ⟨fun h => ⟨h.1, h.2, fun hodd => absurd heven hodd⟩, fun h => ⟨h.low, h.high⟩⟩
  · exact ⟨fun h => ⟨h.1.le, h.2.le, fun _ => h⟩, fun h => h.inner heven⟩

theorem Around.roundsTo {a : ℚ} (h : b.Around a) (hb : b.mantissa ≠ 0)
    (hc : Canonical b.mantissa b.exponent) : Double.RoundsTo a b.mantissa b.exponent :=
  .of_gap (Nat.pos_of_ne_zero hb) hc h.low h.high h.inner

theorem Around.pos {a : ℚ} (h : b.Around a) (hb : b.mantissa ≠ 0) : 0 < a := by
  have hone : (1 : ℚ) ≤ b.mantissa := by exact_mod_cast Nat.pos_of_ne_zero hb
  have hgap := Double.gapBelow_le b.mantissa b.exponent
  have hlow := h.low
  have hpow : (0 : ℚ) < 2 ^ b.exponent := zpow_pos (by norm_num) _
  exact (div_pos_iff_of_pos_right hpow).mp (by linarith)

/-- **Seventeen digits always meet the neighbourhood.** The double rounded to seventeen digits is one
of its two neighbours on that grid. -/
theorem isSome_nearest?_seventeen (hb : b.mantissa ≠ 0) (hc : Canonical b.mantissa b.exponent) :
    (b.neighbourhood.nearest? (Int.log 10 b.magnitude + 1 - 17)).isSome := by
  have hround := toSignificant_magnitude (b := b) (by decide : 0 < 17) hb
  obtain ⟨n, hnearest, hvalue⟩ := hround.nearest
  have hnear := hround.near (magnitude_pos hb) le_rfl
  have hcontains : b.neighbourhood.contains n (Int.log 10 b.magnitude + 1 - 17) = true := by
    rw [contains_iff hb]
    rw [← hvalue] at hnear
    obtain ⟨hlow, hhigh⟩ := Double.between_of_near (Nat.pos_of_ne_zero hb) hc hnear
    exact ⟨hlow.le, hhigh.le, fun _ => ⟨hlow, hhigh⟩⟩
  refine b.neighbourhood.isSome_nearest? ?_ hcontains
  have hscaled : b.neighbourhood.value * b.neighbourhood.step
      / 10 ^ (Int.log 10 b.magnitude + 1 - 17)
      = b.magnitude * 10 ^ (((17 : ℕ) : ℤ) - 1 - Int.log 10 b.magnitude) := by
    have hexponent : ((17 : ℕ) : ℤ) - 1 - Int.log 10 b.magnitude
        = -(Int.log 10 b.magnitude + 1 - 17) := by
      push_cast
      ring
    have hcast : (b.neighbourhood.value : ℚ) = 4 * b.mantissa := by
      show ((4 * b.mantissa : ℕ) : ℚ) = _
      push_cast
      rfl
    rw [hcast, step_eq, hexponent, zpow_neg, ← div_eq_mul_inv, magnitude]
    ring
  rw [b.neighbourhood.below_eq_floor b.unit_pos, hscaled]
  exact hnearest.eq_floor_or (mul_nonneg (magnitude_pos hb).le (zpow_pos (by norm_num) _).le)

theorem contains_shortest (hb : b.mantissa ≠ 0) (hc : Canonical b.mantissa b.exponent) :
    b.neighbourhood.contains (shortest b).1 (shortest b).2 = true := by
  have hlog : leadingExponent b.ratio.1 b.ratio.2 = Int.log 10 b.magnitude := by
    rw [leadingExponent_eq_log (ratio_num_pos hb) b.ratio_den_pos, ratio_eq_magnitude]
  have hlast := isSome_nearest?_seventeen hb hc
  rw [← hlog, add_sub_right_comm] at hlast
  exact contains_shortestFrom 17 (by decide) (by decide) hlast

end Binary

/-! ## Texts -/

theorem Exact.coefficient_pos {d : Exact} (h : 0 < d.value) : 0 < d.coefficient := by
  refine Nat.pos_of_ne_zero fun hzero => ?_
  rw [Exact.value, hzero, Nat.cast_zero, zero_mul] at h
  exact lt_irrefl _ h

/-- Digits on both sides of a point stand for a number. There is at least one before the point. -/
structure IsNumeral (whole fraction : List Char) (a : ℚ) : Prop where
  nonempty : whole ≠ []
  wholeDigits : AllDigits whole
  fractionDigits : AllDigits fraction
  value : Exact.value ⟨digitsValue (whole ++ fraction), -(fraction.length : ℤ)⟩ = a

theorem IsNumeral.readExact?_eq {whole fraction : List Char} {a : ℚ}
    (h : IsNumeral whole fraction a) : readExact? (pointed whole fraction)
      = some ⟨digitsValue (whole ++ fraction), -(fraction.length : ℤ)⟩ :=
  readExact?_pointed h.nonempty h.wholeDigits h.fractionDigits

theorem IsNumeral.isNumberText {whole fraction : List Char} {a : ℚ}
    (h : IsNumeral whole fraction a) : IsNumberText (pointed whole fraction) := by
  refine ⟨?_, pointed_chars h.wholeDigits h.fractionDigits⟩
  obtain ⟨first, rest, rfl⟩ := List.exists_cons_of_ne_nil h.nonempty
  exact ⟨first, head?_pointed, h.wholeDigits first List.mem_cons_self⟩

/-- A whole number can be written with a zero behind a point. -/
theorem IsNumeral.withZero {whole : List Char} {a : ℚ} (h : IsNumeral whole [] a) :
    IsNumeral whole ['0'] a := by
  refine ⟨h.nonempty, h.wholeDigits, allDigits_zeros 1, ?_⟩
  have hzero : digitsValue ['0'] = 0 := digitsValue_zeros 1
  rw [← h.value]
  simp [Exact.value, digitsValue_append, hzero]

theorem positional_isNumeral {ds : List Char} (k : ℤ) (hds : AllDigits ds) (hne : ds ≠ []) :
    ∃ whole fraction, positional ds k = pointed whole fraction ∧
      IsNumeral whole fraction (digitsValue ds * 10 ^ k) := by
  unfold positional
  split
  · next hk =>
    obtain ⟨j, rfl⟩ := Int.eq_ofNat_of_zero_le hk
    refine ⟨ds ++ List.replicate j '0', [], (pointed_nil _).symm, by simp [hne],
      hds.append (allDigits_zeros j), allDigits_zeros 0, ?_⟩
    simp [Exact.value, digitsValue_append]
  · next hk =>
    obtain ⟨j, hj, rfl⟩ : ∃ j : ℕ, 0 < j ∧ k = -j := ⟨(-k).toNat, by omega, by omega⟩
    rw [neg_neg, Int.toNat_natCast]
    dsimp only
    split
    · next hlt =>
      have hlength : (ds.drop (ds.length - j)).length = j := by
        rw [List.length_drop]
        omega
      refine ⟨ds.take (ds.length - j), ds.drop (ds.length - j), (pointed_of_ne ?_).symm, ?_,
        hds.of_subset (List.take_subset _ _), hds.of_subset (List.drop_subset _ _), ?_⟩
      · intro hnil
        rw [hnil] at hlength
        exact hj.ne hlength
      · intro hnil
        rcases List.take_eq_nil_iff.mp hnil with hzero | hnil
        · omega
        · exact hne hnil
      · rw [List.take_append_drop, hlength, Exact.value]
    · next hlt =>
      have hlength : (List.replicate (j - ds.length) '0' ++ ds).length = j := by
        simp
        omega
      refine ⟨['0'], List.replicate (j - ds.length) '0' ++ ds, ?_, List.cons_ne_nil _ _,
        allDigits_zeros 1, (allDigits_zeros _).append hds, ?_⟩
      · rw [pointed_of_ne (by simp [hne])]
        rfl
      · have hzeros : ['0'] ++ (List.replicate (j - ds.length) '0' ++ ds)
            = List.replicate (j - ds.length + 1) '0' ++ ds := rfl
        rw [hlength, Exact.value, hzeros, digitsValue_zeros_append]

/-- Zeros at the end of the digits count into the exponent. -/
theorem value_stripZeros (n : ℕ) (k : ℤ) :
    (digitsValue (stripZeros n k).1 : ℚ) * 10 ^ (stripZeros n k).2 = n * 10 ^ k := by
  have hstrip : stripZeros n k
      = (trimmed (digits n), k + ((digits n).length - (trimmed (digits n)).length : ℕ)) := rfl
  obtain ⟨j, hj⟩ := trimmed_append_zeros (digits n)
  have hlength : (digits n).length - (trimmed (digits n)).length = j := by
    have htotal := congrArg List.length hj
    rw [List.length_append, List.length_replicate] at htotal
    omega
  have hvalue : n = digitsValue (trimmed (digits n)) * 10 ^ j := by
    conv_lhs => rw [← digitsValue_digits n, hj, digitsValue_append, digitsValue_zeros,
      List.length_replicate, Nat.add_zero]
  rw [hstrip]
  dsimp only
  rw [hlength, add_comm, zpow_add₀ (by norm_num), ← mul_assoc, zpow_natCast]
  conv_rhs => rw [hvalue]
  push_cast
  rfl

theorem stripZeros_ne_nil {n : ℕ} (k : ℤ) (hn : 0 < n) : (stripZeros n k).1 ≠ [] := by
  intro hnil
  obtain ⟨first, rest, hdigits, hfirst⟩ := digits_eq_cons hn
  obtain ⟨j, hj⟩ := trimmed_append_zeros (digits n)
  have htrimmed : trimmed (digits n) = [] := hnil
  have hmem : first ∈ List.replicate j '0' := by
    rw [htrimmed, List.nil_append, hdigits] at hj
    rw [← hj]
    exact List.mem_cons_self
  exact hfirst (List.eq_of_mem_replicate hmem)

theorem allDigits_stripZeros (n : ℕ) (k : ℤ) : AllDigits (stripZeros n k).1 :=
  (allDigits_digits n).trimmed

/-- The number that the shortest notation of a magnitude stands for. -/
def Binary.shortestValue (b : Binary) : ℚ :=
  if b.mantissa = 0 then 0 else (shortest b).1 * 10 ^ (shortest b).2

theorem Binary.around_shortestValue {b : Binary} (hb : b.mantissa ≠ 0)
    (hc : Canonical b.mantissa b.exponent) : b.Around b.shortestValue := by
  rw [shortestValue, if_neg hb, ← contains_iff hb]
  exact contains_shortest hb hc

theorem magnitudeShortest_isNumeral {b : Binary}
    (hc : b.mantissa ≠ 0 → Canonical b.mantissa b.exponent) :
    ∃ whole fraction, magnitudeShortest b = pointed whole fraction ∧
      IsNumeral whole fraction b.shortestValue := by
  unfold magnitudeShortest
  by_cases hb : b.mantissa = 0
  · rw [if_pos (beq_iff_eq.mpr hb), Binary.shortestValue, if_pos hb]
    refine ⟨['0'], [], (pointed_nil _).symm, List.cons_ne_nil _ _, allDigits_zeros 1,
      allDigits_zeros 0, ?_⟩
    simp [Exact.value, digitsValue]
  · have hvalue := (Binary.around_shortestValue hb (hc hb)).pos hb
    rw [if_neg (mt beq_iff_eq.mp hb)]
    rw [Binary.shortestValue, if_neg hb] at hvalue ⊢
    have hpos : 0 < (shortest b).1 := Exact.coefficient_pos (d := ⟨_, _⟩) hvalue
    have hnumeral := positional_isNumeral (stripZeros (shortest b).1 (shortest b).2).2
      (allDigits_stripZeros (shortest b).1 (shortest b).2) (stripZeros_ne_nil (shortest b).2 hpos)
    rw [value_stripZeros] at hnumeral
    exact hnumeral

theorem plain_toList {x : Float} {b : Binary} (hx : read x = .finite b) :
    (plain x).toList = (if b.negative then ['-'] else []) ++ magnitudeShortest b := by
  simp [plain, signAndMagnitude, hx]

theorem label_eq {x : Float} {b : Binary} (hx : read x = .finite b) :
    label x = if '.' ∈ (plain x).toList then plain x else plain x ++ ".0" := by
  simp [label, hx]

/-- **A label is a sign and digits around a point.** -/
theorem label_toList {x : Float} {b : Binary} (hx : read x = .finite b)
    (hc : b.mantissa ≠ 0 → Canonical b.mantissa b.exponent) :
    ∃ whole fraction, fraction ≠ [] ∧ IsNumeral whole fraction b.shortestValue ∧
      (label x).toList = (if b.negative then ['-'] else []) ++ (whole ++ '.' :: fraction) := by
  obtain ⟨whole, fraction, hmagnitude, hnumeral⟩ := magnitudeShortest_isNumeral hc
  have hplain := plain_toList hx
  rw [hmagnitude] at hplain
  by_cases hnil : fraction = []
  · -- a whole number, whose text has no point
    subst hnil
    rw [pointed_nil] at hplain
    have hpoint : '.' ∉ (plain x).toList := by
      have hwhole : '.' ∉ whole := hnumeral.wholeDigits.not_mem rfl
      rw [hplain]
      split_ifs <;> simpa using hwhole
    refine ⟨whole, ['0'], List.cons_ne_nil _ _, hnumeral.withZero, ?_⟩
    rw [label_eq hx, if_neg hpoint, String.toList_append, hplain, List.append_assoc]
    rfl
  · rw [pointed_of_ne hnil] at hplain
    have hpoint : '.' ∈ (plain x).toList := by
      rw [hplain]
      simp
    refine ⟨whole, fraction, hnil, hnumeral, ?_⟩
    rw [label_eq hx, if_pos hpoint, hplain]

/-- A finite double is a sign and a magnitude. -/
theorem exists_read_eq_finite {x : Float} (hx : x.isFinite = true) :
    ∃ b, read x = .finite b ∧ (b.mantissa ≠ 0 → Canonical b.mantissa b.exponent) := by
  change (parts x).isFinite = true at hx
  have hread := read_eq_reading x
  cases hparts : parts x with
  | infinity | notANumber => simp [hparts, UnpackedFloat.isFinite] at hx
  | zero s =>
    rw [hparts] at hread
    exact ⟨_, hread, fun h => absurd rfl h⟩
  | finite s m e hm =>
    rw [hparts] at hread
    exact ⟨_, hread, fun _ => (canonical_parts hparts).1⟩

theorem point_mem_label {x : Float} (hx : x.isFinite = true) : '.' ∈ (label x).toList := by
  obtain ⟨b, hread, hcanonical⟩ := exists_read_eq_finite hx
  obtain ⟨whole, fraction, -, -, htext⟩ := label_toList hread hcanonical
  rw [htext]
  simp

/-- Digits, a point and a dash are all that labels are made of. -/
theorem not_mem_label {x : Float} (hx : x.isFinite = true) {c : Char} (hdigit : c.isDigit = false)
    (hpoint : c ≠ '.') (hdash : c ≠ '-') : c ∉ (label x).toList := by
  obtain ⟨b, hread, hcanonical⟩ := exists_read_eq_finite hx
  obtain ⟨whole, fraction, -, hnumeral, htext⟩ := label_toList hread hcanonical
  have hwhole : c ∉ whole := hnumeral.wholeDigits.not_mem hdigit
  have hfraction : c ∉ fraction := hnumeral.fractionDigits.not_mem hdigit
  rw [htext]
  split_ifs <;> simp [hwhole, hfraction, hpoint, hdash]

/-! ## Reading back -/

/-- **A label is read back as the same double.** -/
theorem read?_label {x : Float} (hx : x.isFinite = true) : read? (label x) = some x := by
  change (parts x).isFinite = true at hx
  have hread := read_eq_reading x
  cases hparts : parts x with
  | infinity | notANumber => simp [hparts, UnpackedFloat.isFinite] at hx
  | zero s =>
    rw [hparts] at hread
    have htext : label x = if s == .negative then "-0.0" else "0.0" := by
      rw [label, plain, signAndMagnitude, hread]
      cases s <;> rfl
    rw [htext]
    exact read?_of_parts hparts (by cases s <;> rfl)
  | finite s m e hm =>
    rw [hparts] at hread
    have hcanonical := (canonical_parts hparts).1
    obtain ⟨whole, fraction, hne, hnumeral, htext⟩ := label_toList hread fun _ => hcanonical
    rw [← pointed_of_ne hne] at htext
    have haround := Binary.around_shortestValue (b := ⟨s == .negative, m, e⟩) hm.ne' hcanonical
    rw [← hnumeral.value] at haround
    rw [read?, htext, readChars?_signed _ hnumeral.isNumberText hnumeral.readExact?_eq]
    exact congrArg some
      (signed_toFloat hparts (Exact.coefficient_pos (haround.pos hm.ne'))
        (haround.roundsTo hm.ne' hcanonical))

/-- Different finite doubles have different labels. -/
theorem label_inj {x y : Float} (hx : x.isFinite = true) (hy : y.isFinite = true)
    (h : label x = label y) : x = y := by
  have hread := read?_label hx
  rw [h, read?_label hy] at hread
  exact (Option.some.inj hread).symm

end FluidAnalysis.Decimal
