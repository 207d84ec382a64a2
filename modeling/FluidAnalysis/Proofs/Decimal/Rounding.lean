import FluidAnalysis.Decimal.Rounding
import Mathlib.Data.Int.Log
import Mathlib.Data.Rat.Floor
import Mathlib.Algebra.Order.Field.Power
import Mathlib.Algebra.Group.Nat.Even
import Mathlib.Tactic.FieldSimp
import Mathlib.Tactic.Linarith
import Mathlib.Tactic.NormNum
import Mathlib.Tactic.Positivity
import Mathlib.Tactic.Ring

/-!
# What rounding to decimal digits means

The rounding functions work on natural numbers. Here their results are described by exact rational
numbers, without the functions.

* `IsNearestEven` — the nearest whole number, of two the even one
* `RoundsTo` — a positive number rounded to significant digits

The place at which a number is rounded is fixed by the number before the rounding, and the exponent
that is written by the number after it. The two differ when the rounding carries into the next power
of ten. `RoundsTo.isNearestEven` says that this does not matter: rounded at the place that belongs to
the written exponent, the number has the same digits.
-/

namespace FluidAnalysis.Decimal

/-! ## Exact values -/

/-- The magnitude of a finite double. -/
def Binary.magnitude (b : Binary) : ℚ :=
  b.mantissa * 2 ^ b.exponent

/-- The number that `count` digits and an exponent stand for. -/
def Significant.value (count : ℕ) (s : Significant) : ℚ :=
  s.digits * 10 ^ (s.exponent + 1 - count)

theorem Binary.ratio_den_pos (b : Binary) : 0 < b.ratio.2 := by
  unfold ratio
  split
  · exact Nat.one_pos
  · exact Nat.pow_pos (by decide)

theorem Binary.ratio_num_pos {b : Binary} (h : b.mantissa ≠ 0) : 0 < b.ratio.1 := by
  have hm : 0 < b.mantissa := Nat.pos_of_ne_zero h
  unfold ratio
  split
  · exact Nat.mul_pos hm (Nat.pow_pos (by decide))
  · exact hm

theorem Binary.ratio_eq_magnitude (b : Binary) :
    (b.ratio.1 : ℚ) / b.ratio.2 = b.magnitude := by
  unfold ratio magnitude
  split
  · next h =>
    obtain ⟨n, hn⟩ := Int.eq_ofNat_of_zero_le h
    simp [hn]
  · next h =>
    obtain ⟨n, hn⟩ : ∃ n : ℕ, b.exponent = -n := ⟨(-b.exponent).toNat, by omega⟩
    simp [hn, div_eq_mul_inv]

theorem Binary.magnitude_pos {b : Binary} (h : b.mantissa ≠ 0) : 0 < b.magnitude := by
  have hm : (0 : ℚ) < b.mantissa := by exact_mod_cast Nat.pos_of_ne_zero h
  exact mul_pos hm (zpow_pos (by norm_num) _)

/-- Scaling a fraction by a power of ten is exact. -/
theorem scaleByTen_eq (num den : ℕ) (k : ℤ) :
    ((scaleByTen num den k).1 : ℚ) / (scaleByTen num den k).2 = num / den * 10 ^ k := by
  unfold scaleByTen
  split
  · next h =>
    obtain ⟨n, hn⟩ := Int.eq_ofNat_of_zero_le h
    simp [hn, mul_div_right_comm]
  · next h =>
    obtain ⟨n, hn⟩ : ∃ n : ℕ, k = -n := ⟨(-k).toNat, by omega⟩
    simp [hn, div_eq_mul_inv, mul_assoc, mul_comm ((10 : ℚ) ^ n)⁻¹]

theorem scaleByTen_den_pos {den : ℕ} (num : ℕ) (k : ℤ) (h : 0 < den) :
    0 < (scaleByTen num den k).2 := by
  unfold scaleByTen
  split
  · exact h
  · exact Nat.mul_pos h (Nat.pow_pos (by decide))

/-! ## The nearest whole number -/

/-- `n` is the whole number nearest to `a`; of two it is the even one. -/
structure IsNearestEven (a : ℚ) (n : ℕ) : Prop where
  near : |a - n| ≤ 1 / 2
  even : |a - n| = 1 / 2 → Even n

/-- There is only one nearest whole number: two would be neighbours at the same distance, and of
neighbours only one is even. -/
theorem IsNearestEven.unique {a : ℚ} {m n : ℕ} (hm : IsNearestEven a m) (hn : IsNearestEven a n) :
    m = n := by
  have key : ∀ {k l : ℕ}, IsNearestEven a k → IsNearestEven a l → ¬ k < l := by
    intro k l hk hl hlt
    have hkl : (k : ℚ) + 1 ≤ l := by exact_mod_cast hlt
    have hk' := abs_le.mp hk.near
    have hl' := abs_le.mp hl.near
    have hmid : a = k + 1 / 2 := by linarith
    have hsucc : l = k + 1 := by
      have : (l : ℚ) = k + 1 := by linarith
      exact_mod_cast this
    have heven := hk.even (by rw [hmid]; norm_num [abs_of_pos])
    have hodd := hl.even (by rw [hmid, hsucc]; push_cast; norm_num [abs_of_neg])
    rw [hsucc, Nat.even_add_one] at hodd
    exact hodd heven
  exact le_antisymm (not_lt.mp (key hn hm)) (not_lt.mp (key hm hn))

/-- The nearest whole number respects bounds that are whole themselves. -/
theorem IsNearestEven.le_of_le {a : ℚ} {n k : ℕ} (h : IsNearestEven a n) (hk : (k : ℚ) ≤ a) :
    k ≤ n := by
  by_contra hlt
  have hnk : (n : ℚ) + 1 ≤ k := by exact_mod_cast Nat.lt_of_not_le hlt
  have hnear := abs_le.mp h.near
  linarith

theorem IsNearestEven.le_of_ge {a : ℚ} {n k : ℕ} (h : IsNearestEven a n) (hk : a ≤ k) :
    n ≤ k := by
  by_contra hlt
  have hkn : (k : ℚ) + 1 ≤ n := by exact_mod_cast Nat.lt_of_not_le hlt
  have hnear := abs_le.mp h.near
  linarith

theorem div_lt_half_iff {r den : ℕ} (h : 0 < den) : (r : ℚ) / den < 1 / 2 ↔ 2 * r < den := by
  have hd : (0 : ℚ) < den := by exact_mod_cast h
  rw [div_lt_div_iff₀ hd (by norm_num), one_mul, mul_comm]
  exact_mod_cast Iff.rfl

theorem half_lt_div_iff {r den : ℕ} (h : 0 < den) : 1 / 2 < (r : ℚ) / den ↔ den < 2 * r := by
  have hd : (0 : ℚ) < den := by exact_mod_cast h
  rw [div_lt_div_iff₀ (by norm_num) hd, one_mul, mul_comm]
  exact_mod_cast Iff.rfl

/-- A quotient is its whole part and the remainder, as a part of the denominator. -/
theorem div_eq_div_add_mod (num : ℕ) {den : ℕ} (h : 0 < den) :
    (num : ℚ) / den = (num / den : ℕ) + (num % den : ℕ) / den := by
  have hd : (0 : ℚ) < den := by exact_mod_cast h
  have hnat : ((num / den * den + num % den : ℕ) : ℚ) = num := by rw [Nat.div_add_mod']
  push_cast at hnat
  field_simp
  linarith

theorem roundHalfEven_isNearestEven (num : ℕ) {den : ℕ} (h : 0 < den) :
    IsNearestEven (num / den) (roundHalfEven num den) := by
  have hd : (0 : ℚ) < den := by exact_mod_cast h
  have hr0 : (0 : ℚ) ≤ (num % den : ℕ) / den := by positivity
  have hr1 : ((num % den : ℕ) : ℚ) / den < 1 := by
    rw [div_lt_one hd]
    exact_mod_cast Nat.mod_lt num h
  unfold roundHalfEven
  simp only [beq_iff_eq]
  rw [div_eq_div_add_mod num h]
  -- below half the denominator, above it, and in the middle
  split
  · next hlt =>
    have hlt' := (div_lt_half_iff h).mpr hlt
    have habs : |((num / den : ℕ) : ℚ) + (num % den : ℕ) / den - (num / den : ℕ)|
        = (num % den : ℕ) / den := by
      rw [add_sub_cancel_left, abs_of_nonneg hr0]
    exact ⟨by rw [habs]; linarith, fun he => absurd (habs.symm.trans he) (ne_of_lt hlt')⟩
  · next hlt =>
    split
    · next hgt =>
      have hgt' := (half_lt_div_iff h).mpr hgt
      have habs : |((num / den : ℕ) : ℚ) + (num % den : ℕ) / den - ((num / den + 1 : ℕ) : ℚ)|
          = 1 - (num % den : ℕ) / den := by
        push_cast
        rw [abs_sub_comm, abs_of_nonneg] <;> linarith
      exact ⟨by rw [habs]; linarith, fun he => by rw [habs] at he; linarith⟩
    · next hgt =>
      have hmid : ((num % den : ℕ) : ℚ) / den = 1 / 2 :=
        le_antisymm (not_lt.mp (mt (half_lt_div_iff h).mp hgt))
          (not_lt.mp (mt (div_lt_half_iff h).mp hlt))
      rw [hmid]
      split
      · next heven => exact ⟨by norm_num [abs_of_pos], fun _ => Nat.even_iff.mpr heven⟩
      · next hodd =>
        refine ⟨by push_cast; norm_num [abs_of_neg], fun _ => ?_⟩
        rw [Nat.even_add_one, Nat.even_iff]
        exact hodd

/-! ## The leading place -/

/-- The length of a numeral brackets its number between powers of ten. -/
theorem digits_bounds {n : ℕ} (h : 0 < n) :
    10 ^ ((digits n).length - 1) ≤ n ∧ n < 10 ^ (digits n).length := by
  have hpos : 0 < (digits n).length := Nat.length_toDigits_pos
  refine ⟨?_, (Nat.length_toDigits_le_iff (by decide) hpos).mp le_rfl⟩
  by_contra hlt
  rw [not_le] at hlt
  by_cases hone : (digits n).length - 1 = 0
  · rw [hone, pow_zero] at hlt
    omega
  · have hle := (Nat.length_toDigits_le_iff (by decide) (Nat.pos_of_ne_zero hone)).mpr hlt
    unfold digits at hle hpos
    omega

theorem length_digits_eq {n count : ℕ} (hcount : 0 < count) (hlow : 10 ^ (count - 1) ≤ n)
    (hhigh : n < 10 ^ count) : (digits n).length = count := by
  have hn : 0 < n := lt_of_lt_of_le (Nat.pow_pos (by decide)) hlow
  obtain ⟨h1, h2⟩ := digits_bounds hn
  have hpos : 0 < (digits n).length := Nat.length_toDigits_pos
  have hle : (digits n).length - 1 < count :=
    (Nat.pow_lt_pow_iff_right (by decide)).mp (lt_of_le_of_lt h1 hhigh)
  have hge : count - 1 < (digits n).length :=
    (Nat.pow_lt_pow_iff_right (by decide)).mp (lt_of_le_of_lt hlow h2)
  omega

theorem cast_pow_ten (n : ℕ) : ((10 ^ n : ℕ) : ℚ) = 10 ^ (n : ℤ) := by
  rw [zpow_natCast, Nat.cast_pow, Nat.cast_ofNat]

/-- Two powers of the base around a number give its leading place. -/
theorem log_eq_of_bounds {b : ℕ} (hb : 1 < b) {a : ℚ} {x : ℤ} (hlow : (b : ℚ) ^ x ≤ a)
    (hhigh : a < (b : ℚ) ^ (x + 1)) : Int.log b a = x := by
  have hpos : (0 : ℚ) < b := by exact_mod_cast Nat.zero_lt_of_lt hb
  have ha : 0 < a := lt_of_lt_of_le (zpow_pos hpos _) hlow
  have h1 : x ≤ Int.log b a := (Int.zpow_le_iff_le_log hb ha).mp hlow
  have h2 : Int.log b a < x + 1 := (Int.lt_zpow_iff_log_lt hb ha).mp hhigh
  omega

theorem zpow_log_le {a : ℚ} (ha : 0 < a) : (10 : ℚ) ^ Int.log 10 a ≤ a := by
  exact_mod_cast Int.zpow_log_le_self (b := 10) (by decide) ha

theorem lt_zpow_log (a : ℚ) : a < (10 : ℚ) ^ (Int.log 10 a + 1) := by
  exact_mod_cast Int.lt_zpow_succ_log_self (b := 10) (by decide) a

/-- The lengths of two numerals give the leading place of their quotient up to one. -/
theorem div_bounds {num den : ℕ} (hn : 0 < num) (hd : 0 < den) {c : ℤ}
    (hc : c = ((digits num).length : ℤ) - (digits den).length) :
    (10 : ℚ) ^ (c - 1) ≤ num / den ∧ (num : ℚ) / den < 10 ^ (c + 1) := by
  obtain ⟨hn1, hn2⟩ := digits_bounds hn
  obtain ⟨hd1, hd2⟩ := digits_bounds hd
  have hnl : 0 < (digits num).length := Nat.length_toDigits_pos
  have hdl : 0 < (digits den).length := Nat.length_toDigits_pos
  have hdq : (0 : ℚ) < den := by exact_mod_cast hd
  rw [le_div_iff₀ hdq, div_lt_iff₀ hdq]
  constructor
  · have h1 : (10 : ℚ) ^ (((digits num).length - 1 : ℕ) : ℤ) ≤ num := by
      rw [← cast_pow_ten]; exact_mod_cast hn1
    have h2 : (den : ℚ) ≤ 10 ^ ((digits den).length : ℤ) := by
      rw [← cast_pow_ten]; exact_mod_cast hd2.le
    calc (10 : ℚ) ^ (c - 1) * den
        ≤ 10 ^ (c - 1) * 10 ^ ((digits den).length : ℤ) := by gcongr
      _ = 10 ^ (((digits num).length - 1 : ℕ) : ℤ) := by
        rw [← zpow_add₀ (by norm_num)]
        congr 1
        omega
      _ ≤ num := h1
  · have h1 : (num : ℚ) < 10 ^ ((digits num).length : ℤ) := by
      rw [← cast_pow_ten]; exact_mod_cast hn2
    have h2 : (10 : ℚ) ^ (((digits den).length - 1 : ℕ) : ℤ) ≤ den := by
      rw [← cast_pow_ten]; exact_mod_cast hd1
    calc (num : ℚ) < 10 ^ ((digits num).length : ℤ) := h1
      _ = 10 ^ (c + 1) * 10 ^ (((digits den).length - 1 : ℕ) : ℤ) := by
        rw [← zpow_add₀ (by norm_num)]
        congr 1
        omega
      _ ≤ 10 ^ (c + 1) * den := by gcongr

theorem leadingExponent_eq_log {num den : ℕ} (hn : 0 < num) (hd : 0 < den) :
    leadingExponent num den = Int.log 10 ((num : ℚ) / den) := by
  set c : ℤ := ((digits num).length : ℤ) - (digits den).length with hc
  -- the lengths alone leave `c - 1` and `c`, and the test decides between them
  obtain ⟨hlow, hhigh⟩ := div_bounds hn hd hc
  have hscale := scaleByTen_eq num den (-c)
  have hsd : (0 : ℚ) < (scaleByTen num den (-c)).2 := by
    exact_mod_cast scaleByTen_den_pos num (-c) hd
  have htest : (scaleByTen num den (-c)).2 ≤ (scaleByTen num den (-c)).1 ↔
      (10 : ℚ) ^ c ≤ num / den := by
    rw [← Nat.cast_le (α := ℚ), ← one_le_div hsd, hscale, zpow_neg, ← div_eq_mul_inv,
      one_le_div (zpow_pos (by norm_num) _)]
  show (if (scaleByTen num den (-c)).2 ≤ (scaleByTen num den (-c)).1 then c else c - 1) = _
  split
  · next h =>
    exact (log_eq_of_bounds (b := 10) (by decide) (htest.mp h) hhigh).symm
  · next h =>
    have hlt : (num : ℚ) / den < 10 ^ (c - 1 + 1) := by
      rw [sub_add_cancel]
      exact not_le.mp fun hle => h (htest.mpr hle)
    exact (log_eq_of_bounds (b := 10) (by decide) hlow hlt).symm

/-! ## Significant digits -/

/-- `s` is the positive number `a` rounded to `count` significant digits. The last place that is kept
is counted from the leading place of `a`. -/
structure RoundsTo (count : ℕ) (a : ℚ) (s : Significant) : Prop where
  le_digits : 10 ^ (count - 1) ≤ s.digits
  digits_lt : s.digits < 10 ^ count
  nearest : ∃ n : ℕ, IsNearestEven (a * 10 ^ ((count : ℤ) - 1 - Int.log 10 a)) n ∧
    (n : ℚ) * 10 ^ (Int.log 10 a + 1 - count) = s.value count

/-- A number that is scaled by its leading place lies between two powers of ten. -/
theorem scaled_bounds {a : ℚ} {count : ℕ} (ha : 0 < a) (hcount : 0 < count) :
    ((10 ^ (count - 1) : ℕ) : ℚ) ≤ a * 10 ^ ((count : ℤ) - 1 - Int.log 10 a) ∧
      a * 10 ^ ((count : ℤ) - 1 - Int.log 10 a) < ((10 ^ count : ℕ) : ℚ) := by
  have hpos : (0 : ℚ) < 10 ^ ((count : ℤ) - 1 - Int.log 10 a) := zpow_pos (by norm_num) _
  have hone : ((10 ^ (count - 1) : ℕ) : ℚ)
      = 10 ^ Int.log 10 a * 10 ^ ((count : ℤ) - 1 - Int.log 10 a) := by
    rw [cast_pow_ten, ← zpow_add₀ (by norm_num)]
    congr 1
    omega
  have hten : ((10 ^ count : ℕ) : ℚ)
      = 10 ^ (Int.log 10 a + 1) * 10 ^ ((count : ℤ) - 1 - Int.log 10 a) := by
    rw [cast_pow_ten, ← zpow_add₀ (by norm_num)]
    congr 1
    omega
  rw [hone, hten]
  exact ⟨mul_le_mul_of_nonneg_right (zpow_log_le ha) hpos.le,
    mul_lt_mul_of_pos_right (lt_zpow_log a) hpos⟩

theorem toSignificant_roundsTo {count num den : ℕ} (hcount : 0 < count) (hn : 0 < num)
    (hd : 0 < den) : RoundsTo count ((num : ℚ) / den) (toSignificant count num den) := by
  have ha : (0 : ℚ) < num / den := by positivity
  obtain ⟨hlow, hhigh⟩ := scaled_bounds ha hcount
  set x := Int.log 10 ((num : ℚ) / den) with hx
  set p := scaleByTen num den ((count : ℤ) - 1 - x) with hp
  have hnear : IsNearestEven ((num : ℚ) / den * 10 ^ ((count : ℤ) - 1 - x))
      (roundHalfEven p.1 p.2) := by
    rw [← scaleByTen_eq]
    exact roundHalfEven_isNearestEven p.1 (scaleByTen_den_pos num _ hd)
  have hle := hnear.le_of_le hlow
  have hge := hnear.le_of_ge hhigh.le
  have hdef : toSignificant count num den
      = if roundHalfEven p.1 p.2 == Nat.pow 10 count then ⟨Nat.pow 10 (count - 1), x + 1⟩
        else ⟨roundHalfEven p.1 p.2, x⟩ := by
    unfold toSignificant
    rw [leadingExponent_eq_log hn hd]
  rw [hdef]
  split
  · next hcarry =>
    -- `10 ^ count` has a digit too many and is written one place further to the left
    rw [beq_iff_eq] at hcarry
    refine ⟨le_rfl, Nat.pow_lt_pow_right (by decide) (by omega), _, hnear, ?_⟩
    rw [hcarry]
    show ((10 ^ count : ℕ) : ℚ) * 10 ^ (x + 1 - count)
      = ((10 ^ (count - 1) : ℕ) : ℚ) * 10 ^ (x + 1 + 1 - count)
    rw [cast_pow_ten, cast_pow_ten, ← zpow_add₀ (by norm_num), ← zpow_add₀ (by norm_num)]
    congr 1
    omega
  · next hcarry =>
    rw [beq_iff_eq] at hcarry
    exact ⟨hle, lt_of_le_of_ne hge hcarry, _, hnear, rfl⟩

/-- The written exponent is the leading place, or the one after it when the rounding carries; then
the digits are `100…`. -/
theorem RoundsTo.exponent_eq {count : ℕ} {a : ℚ} {s : Significant} (hcount : 0 < count)
    (ha : 0 < a) (h : RoundsTo count a s) :
    (s.exponent = Int.log 10 a ∧
        IsNearestEven (a * 10 ^ ((count : ℤ) - 1 - Int.log 10 a)) s.digits) ∨
      (s.exponent = Int.log 10 a + 1 ∧ s.digits = 10 ^ (count - 1) ∧
        IsNearestEven (a * 10 ^ ((count : ℤ) - 1 - Int.log 10 a)) (10 ^ count)) := by
  obtain ⟨n, hnear, hvalue⟩ := h.nearest
  obtain ⟨hlow, hhigh⟩ := scaled_bounds ha hcount
  have hn1 := hnear.le_of_le hlow
  have hn2 := hnear.le_of_ge hhigh.le
  have hpow : (10 : ℕ) ^ count = 10 * 10 ^ (count - 1) := by
    rw [← pow_succ']
    congr 1
    omega
  -- both sides of the value, brought to whole numbers
  have hscaled : (n : ℚ) = s.digits * 10 ^ (s.exponent - Int.log 10 a) := by
    have h10 : (10 : ℚ) ^ (Int.log 10 a + 1 - count) ≠ 0 := zpow_ne_zero _ (by norm_num)
    rw [Significant.value] at hvalue
    apply mul_right_cancel₀ h10
    rw [hvalue, mul_assoc, ← zpow_add₀ (by norm_num)]
    congr 2
    ring
  have hd1 := h.le_digits
  have hd2 := h.digits_lt
  -- with a smaller exponent the digits would be too many, with one larger by two or more too few
  rcases lt_trichotomy s.exponent (Int.log 10 a) with hlt | heq | hgt
  · exfalso
    obtain ⟨k, hk⟩ : ∃ k : ℕ, s.exponent - Int.log 10 a = -(k + 1 : ℕ) :=
      ⟨(Int.log 10 a - s.exponent - 1).toNat, by omega⟩
    have hnat : n * 10 ^ (k + 1) = s.digits := by
      rw [hk, zpow_neg, zpow_natCast, ← div_eq_mul_inv, eq_div_iff (by positivity)] at hscaled
      exact_mod_cast hscaled
    have : 10 ^ (count - 1) * 10 ≤ n * 10 ^ (k + 1) :=
      Nat.mul_le_mul hn1 (by rw [pow_succ]; exact Nat.le_mul_of_pos_left _ (by positivity))
    omega
  · left
    rw [heq, sub_self, zpow_zero, mul_one] at hscaled
    have hnd : n = s.digits := by exact_mod_cast hscaled
    exact ⟨heq, hnd ▸ hnear⟩
  · right
    obtain ⟨k, hk⟩ : ∃ k : ℕ, s.exponent - Int.log 10 a = (k + 1 : ℕ) :=
      ⟨(s.exponent - Int.log 10 a - 1).toNat, by omega⟩
    have hnat : n = s.digits * 10 ^ k * 10 := by
      rw [hk, zpow_natCast, pow_succ, ← mul_assoc] at hscaled
      exact_mod_cast hscaled
    have hk0 : k = 0 := by
      by_contra hne
      have h100 : 10 ^ (count - 1) * 10 ≤ s.digits * 10 ^ k :=
        Nat.mul_le_mul hd1 (Nat.le_self_pow hne 10)
      have hbig : 0 < 10 ^ (count - 1) := Nat.pow_pos (by decide)
      omega
    rw [hk0, pow_zero, mul_one] at hnat
    refine ⟨by omega, by omega, ?_⟩
    have hn : n = 10 ^ count := by omega
    exact hn ▸ hnear

/-- A number is rounded in one way only. -/
theorem RoundsTo.unique {count : ℕ} {a : ℚ} {s t : Significant} (hcount : 0 < count) (ha : 0 < a)
    (hs : RoundsTo count a s) (ht : RoundsTo count a t) : s = t := by
  have hsame : s.exponent = t.exponent ∧ s.digits = t.digits := by
    rcases hs.exponent_eq hcount ha with ⟨hsx, hsn⟩ | ⟨hsx, hsd, hsn⟩ <;>
      rcases ht.exponent_eq hcount ha with ⟨htx, htn⟩ | ⟨htx, htd, htn⟩
    · exact ⟨by rw [hsx, htx], hsn.unique htn⟩
    · exact absurd (hsn.unique htn) (ne_of_lt hs.digits_lt)
    · exact absurd (htn.unique hsn) (ne_of_lt ht.digits_lt)
    · exact ⟨by rw [hsx, htx], by rw [hsd, htd]⟩
  cases s
  cases t
  obtain ⟨rfl, rfl⟩ := hsame
  rfl

/-- **Rounded at the place of the written exponent, a number has the digits that were written.** When
the rounding carried, that place is one further to the left, where the number is still closer to the
power of ten. -/
theorem RoundsTo.isNearestEven {count : ℕ} {a : ℚ} {s : Significant} (hcount : 0 < count)
    (ha : 0 < a) (h : RoundsTo count a s) :
    IsNearestEven (a * 10 ^ ((count : ℤ) - 1 - s.exponent)) s.digits := by
  rcases h.exponent_eq hcount ha with ⟨hx, hnear⟩ | ⟨hx, hdigits, hnear⟩
  · rw [hx]
    exact hnear
  · have hten : a * 10 ^ ((count : ℤ) - 1 - s.exponent) - (s.digits : ℚ)
        = (a * 10 ^ ((count : ℤ) - 1 - Int.log 10 a) - ((10 ^ count : ℕ) : ℚ)) / 10 := by
      rw [hx, hdigits, cast_pow_ten, cast_pow_ten,
        show (count : ℤ) - 1 - (Int.log 10 a + 1) = (count : ℤ) - 1 - Int.log 10 a - 1 by ring,
        show ((count - 1 : ℕ) : ℤ) = (count : ℤ) - 1 by omega,
        zpow_sub_one₀ (by norm_num), zpow_sub_one₀ (by norm_num)]
      ring
    have hclose : |a * 10 ^ ((count : ℤ) - 1 - s.exponent) - (s.digits : ℚ)| ≤ 1 / 20 := by
      rw [hten, abs_div, abs_of_pos (by norm_num : (0 : ℚ) < 10)]
      linarith [hnear.near]
    exact ⟨by linarith, fun hhalf => by rw [hhalf] at hclose; norm_num at hclose⟩

end FluidAnalysis.Decimal
