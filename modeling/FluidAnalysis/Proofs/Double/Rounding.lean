import Mathlib
import FluidAnalysis.Proofs.Decimal.Rounding
import FluidAnalysis.Proofs.Double.Scaling

/-!
# Rounding to doubles

Every operation on doubles ends with one rounding. It works on a mantissa and two more bits, which
say where in the gap to the next mantissa the exact number lies. Here its result is described by the
exact number alone.

* `Describes` — what a mantissa and its two bits say of a number
* `RoundsTo` — a positive number rounded to a double
* `roundWithAccuracy_eq` — the rounding rounds
* `RoundsTo.of_gap`, `RoundsTo.of_near` — numbers that are rounded to a given double
-/

namespace FluidAnalysis.Double

open Float.Model
open Decimal (IsNearestEven)
open UnpackedFloat (Sign Accuracy ExtendedMantissa roundWithAccuracy shiftToTargetExponent
  accuracyOfFraction)

/-! ## The bits behind a mantissa -/

section Describes

variable {x : ExtendedMantissa} {a : ℚ}

/-- The number is the mantissa, or it lies in the first half of the gap behind it, in the middle, or
in the second half. -/
def Describes (x : ExtendedMantissa) (a : ℚ) : Prop :=
  match x with
  | ⟨m, false, false⟩ => a = m
  | ⟨m, false, true⟩ => m < a ∧ a < m + 1 / 2
  | ⟨m, true, false⟩ => a = m + 1 / 2
  | ⟨m, true, true⟩ => m + 1 / 2 < a ∧ a < m + 1

theorem describes_exact (m : ℕ) : Describes (.ofMantissaAndAccuracy m .exact) m :=
  rfl

theorem describes_fraction (num : ℕ) {den : ℕ} (h : 0 < den) :
    Describes (.ofMantissaAndAccuracy (num / den) (accuracyOfFraction (num % den) den))
      (num / den) := by
  have hr1 : ((num % den : ℕ) : ℚ) / den < 1 := by
    rw [div_lt_one (by exact_mod_cast h)]
    exact_mod_cast Nat.mod_lt num h
  rw [Decimal.div_eq_div_add_mod num h, accuracyOfFraction]
  split
  · next hzero => simp [hzero, ExtendedMantissa.ofMantissaAndAccuracy, Describes]
  · next hzero =>
    have hr0 : 0 < ((num % den : ℕ) : ℚ) / den := by positivity
    rcases lt_trichotomy (2 * (num % den)) den with hlt | heq | hgt
    · rw [compare_lt_iff_lt.mpr hlt]
      have hlt' := (Decimal.div_lt_half_iff h).mpr hlt
      exact ⟨by linarith, by linarith⟩
    · rw [compare_eq_iff_eq.mpr heq]
      have hle := mt (Decimal.div_lt_half_iff h).mp (Nat.not_lt.mpr heq.ge)
      have hge := mt (Decimal.half_lt_div_iff h).mp (Nat.not_lt.mpr heq.le)
      exact congrArg _ (le_antisymm (not_lt.mp hge) (not_lt.mp hle))
    · rw [compare_gt_iff_gt.mpr hgt]
      have hgt' := (Decimal.half_lt_div_iff h).mpr hgt
      exact ⟨by linarith, by linarith⟩

theorem Describes.bounds (h : Describes x a) :
    x.mantissa ≤ a ∧ a < x.mantissa + 1 := by
  rcases x with ⟨m, _ | _, _ | _⟩ <;> simp only [Describes] at h ⊢ <;> constructor <;> linarith

theorem isNearestEven_of_lt {n : ℕ} (h : |a - n| < 1 / 2) : IsNearestEven a n :=
  ⟨h.le, fun heq => absurd heq h.ne⟩

theorem Describes.isNearestEven (h : Describes x a) : IsNearestEven a x.roundedMantissa := by
  rcases x with ⟨m, _ | _, _ | _⟩
  · rw [show a = m from h]
    exact isNearestEven_of_lt (by norm_num [ExtendedMantissa.roundedMantissa,
      ExtendedMantissa.accuracy, Accuracy.roundToNearestEven])
  · obtain ⟨hlow, hhigh⟩ := h
    refine isNearestEven_of_lt (n := m) (abs_lt.mpr ⟨?_, ?_⟩) <;> linarith
  · -- the middle: the mantissa stays if it is even and goes up if it is odd
    rw [show a = m + 1 / 2 from h]
    show IsNearestEven _ (m + m % 2)
    rcases Nat.mod_two_eq_zero_or_one m with hm | hm <;> rw [hm]
    · exact ⟨by norm_num [abs_of_pos], fun _ => Nat.even_iff.mpr hm⟩
    · refine ⟨by push_cast; norm_num [abs_of_neg], fun _ => ?_⟩
      rw [Nat.even_add_one, Nat.even_iff, hm]
      exact one_ne_zero
  · obtain ⟨hlow, hhigh⟩ := h
    refine isNearestEven_of_lt (n := m + 1) (abs_lt.mpr ⟨?_, ?_⟩) <;> push_cast <;> linarith

/-- The last digit of the mantissa says in which half of the wider gap the number lies. -/
theorem Describes.half (h : Describes x a) : Describes x.shiftRightOne (a / 2) := by
  rcases x with ⟨m, round, sticky⟩
  obtain ⟨k, rfl | rfl⟩ := Nat.even_or_odd' m
  · have hshift : ExtendedMantissa.shiftRightOne ⟨2 * k, round, sticky⟩
        = ⟨k, false, round || sticky⟩ := by
      simp [ExtendedMantissa.shiftRightOne]
    rw [hshift]
    cases round <;> cases sticky <;> simp only [Describes, Bool.or_self, Bool.or_true,
      Bool.or_false] at h ⊢ <;> push_cast at h <;> grind
  · have hshift : ExtendedMantissa.shiftRightOne ⟨2 * k + 1, round, sticky⟩
        = ⟨k, true, round || sticky⟩ := by
      simp [ExtendedMantissa.shiftRightOne]
      omega
    rw [hshift]
    cases round <;> cases sticky <;> simp only [Describes, Bool.or_self, Bool.or_true,
      Bool.or_false] at h ⊢ <;> push_cast at h <;> grind

theorem Describes.shiftRight (h : Describes x a) (k : ℕ) : Describes (x >>> k) (a / 2 ^ k) := by
  induction k with
  | zero => simpa [HShiftRight.hShiftRight, Nat.repeat] using h
  | succ k ih =>
    have hstep : x >>> (k + 1) = (x >>> k).shiftRightOne := rfl
    rw [hstep, pow_succ, ← div_div]
    exact ih.half

end Describes

/-! ## The place at which a number is rounded -/

/-- The exponent of the last binary digit that a double near `a` has. -/
def quantum (a : ℚ) : ℤ :=
  max (Int.log 2 a - 52) (-1074)

/-- `m · 2 ^ e` is the positive number `a` rounded to a double, whose exponent may be too large. -/
structure RoundsTo (a : ℚ) (m : ℕ) (e : ℤ) : Prop where
  pos : 0 < m
  canonical : Canonical m e
  nearest : ∃ n : ℕ, IsNearestEven (a / 2 ^ quantum a) n ∧ (n : ℚ) * 2 ^ quantum a = m * 2 ^ e

/-- Zeros at the end of a mantissa count into the exponent. -/
theorem cast_shift (m k : ℕ) (e : ℤ) : ((m * 2 ^ k : ℕ) : ℚ) * 2 ^ e = m * 2 ^ (e + k) := by
  rw [zpow_add₀ (by norm_num), zpow_natCast]
  push_cast
  ring

theorem log_eq_of_scaled {a : ℚ} {k : ℕ} {e : ℤ} (hlow : 2 ^ k ≤ a / 2 ^ e)
    (hhigh : a / 2 ^ e < 2 ^ (k + 1)) : Int.log 2 a = k + e := by
  have hpow : (0 : ℚ) < 2 ^ e := zpow_pos (by norm_num) _
  refine Decimal.log_eq_of_bounds (b := 2) (by decide) ?_ ?_
  · rw [Nat.cast_ofNat, zpow_add₀ (by norm_num), zpow_natCast, ← le_div_iff₀ hpow]
    exact hlow
  · rw [Nat.cast_ofNat, add_right_comm, zpow_add₀ (by norm_num), ← div_lt_iff₀ hpow]
    exact_mod_cast hhigh

/-- A mantissa tells the leading place of every number in the gap behind it. -/
theorem totalExponent_eq_log {a : ℚ} {m : ℕ} {e : ℤ} (hm : 0 < m) (hlow : m ≤ a / 2 ^ e)
    (hhigh : a / 2 ^ e < m + 1) : totalExponent m e = Int.log 2 a + 1 := by
  have hfrom : ((2 ^ m.log2 : ℕ) : ℚ) ≤ m := by exact_mod_cast Nat.log2_self_le hm.ne'
  have hto : (m : ℚ) + 1 ≤ ((2 ^ (m.log2 + 1) : ℕ) : ℚ) := by exact_mod_cast Nat.lt_log2_self
  have hlog : Int.log 2 a = m.log2 + e := by
    refine log_eq_of_scaled ?_ ?_
    · exact_mod_cast hfrom.trans hlow
    · exact_mod_cast hhigh.trans_le hto
  rw [hlog]
  unfold totalExponent
  ring

theorem totalExponent_eq_log_value {m : ℕ} (hm : 0 < m) (e : ℤ) :
    totalExponent m e = Int.log 2 ((m : ℚ) * 2 ^ e) + 1 := by
  have hdiv : (m : ℚ) * 2 ^ e / 2 ^ e = m := mul_div_cancel_right₀ _ (zpow_ne_zero _ (by norm_num))
  exact totalExponent_eq_log hm hdiv.ge (by rw [hdiv]; linarith)

/-- Two ways to write a number have the same leading place. -/
theorem totalExponent_congr {m n : ℕ} {e x : ℤ} (hm : 0 < m) (hn : 0 < n)
    (h : (m : ℚ) * 2 ^ e = n * 2 ^ x) : totalExponent m e = totalExponent n x := by
  rw [totalExponent_eq_log_value hm, h, ← totalExponent_eq_log_value hn]

/-- Away from the last place of all, a number has 53 digits up to the place of its rounding. -/
theorem pow_le_scaled {a : ℚ} (ha : 0 < a) (h : quantum a ≠ -1074) :
    ((2 ^ 52 : ℕ) : ℚ) ≤ a / 2 ^ quantum a := by
  have hlog : quantum a = Int.log 2 a - 52 := by
    unfold quantum at h ⊢
    omega
  have hlow := Int.zpow_log_le_self (b := 2) (by decide) ha
  rw [le_div_iff₀ (zpow_pos (by norm_num) _), hlog, Nat.cast_pow, ← zpow_natCast, Nat.cast_ofNat,
    ← zpow_add₀ (by norm_num)]
  simpa using hlow

/-- No number has more than 53 digits up to the place of its rounding. -/
theorem scaled_le_pow (a : ℚ) : a / 2 ^ quantum a ≤ ((2 ^ 53 : ℕ) : ℚ) := by
  have hlog : Int.log 2 a + 1 ≤ 53 + quantum a := by
    unfold quantum
    omega
  rw [div_le_iff₀ (zpow_pos (by norm_num) _), Nat.cast_pow, ← zpow_natCast, Nat.cast_ofNat,
    ← zpow_add₀ (by norm_num)]
  calc a ≤ (2 : ℕ) ^ (Int.log 2 a + 1) := (Int.lt_zpow_succ_log_self (b := 2) (by decide) a).le
    _ ≤ 2 ^ ((53 : ℕ) + quantum a : ℤ) := by
      rw [Nat.cast_ofNat]
      exact zpow_le_zpow_right₀ (by norm_num) hlog

/-- The rounding picks the place from the mantissa. -/
theorem targetExponent_eq_quantum {a : ℚ} {m : ℕ} {e : ℤ} (ha : 0 < a) (hlow : m ≤ a / 2 ^ e)
    (hhigh : a / 2 ^ e < m + 1) (he : e ≤ quantum a) :
    Format.binary64.targetExponent (totalExponent m e) = quantum a := by
  rw [targetExponent_eq]
  rcases Nat.eq_zero_or_pos m with rfl | hm
  · -- without a mantissa only the last place of all is left
    have hlog : Int.log 2 a < e := by
      refine (Int.lt_zpow_iff_log_lt (by decide) ha).mp ?_
      rw [Nat.cast_zero, zero_add, div_lt_one (zpow_pos (by norm_num) _)] at hhigh
      exact_mod_cast hhigh
    unfold quantum at he ⊢
    simp only [totalExponent, Nat.log2_zero, Nat.cast_zero]
    omega
  · rw [totalExponent_eq_log hm hlow hhigh, quantum]
    congr 1
    ring

theorem shiftToTargetExponent_eq {a : ℚ} {m : ℕ} {e : ℤ} {accuracy : Accuracy} (ha : 0 < a)
    (h : Describes (.ofMantissaAndAccuracy m accuracy) (a / 2 ^ e)) (he : e ≤ quantum a) :
    ∃ x, shiftToTargetExponent .binary64 m e accuracy = (x, quantum a) ∧
      Describes x (a / 2 ^ quantum a) := by
  obtain ⟨hlow, hhigh⟩ := h.bounds
  rw [mantissa_ofMantissaAndAccuracy] at hlow hhigh
  have htarget := targetExponent_eq_quantum ha hlow hhigh he
  obtain ⟨k, hk⟩ : ∃ k : ℕ, quantum a = e + k := ⟨(quantum a - e).toNat, by omega⟩
  have hshift : (quantum a - e).toNat = k := by omega
  refine ⟨ExtendedMantissa.ofMantissaAndAccuracy m accuracy >>> k, ?_, ?_⟩
  · simp only [shiftToTargetExponent, UnpackedFloat.shiftToExponent, htarget, hshift]
    rw [hk]
  · rw [hk, zpow_add₀ (by norm_num), ← div_div, zpow_natCast]
    exact h.shiftRight k

/-- The nearest mantissa at the place of the rounding is the result with some zeros behind it: one
if the rounding carried, and none otherwise. -/
theorem RoundsTo.exists_nearest {a : ℚ} {n : ℕ} {x : ℤ} (h : RoundsTo a n x) (ha : 0 < a) :
    ∃ k : ℕ, IsNearestEven (a / 2 ^ quantum a) (n * 2 ^ k) ∧ x = quantum a + k := by
  obtain ⟨m, hm, hvalue⟩ := h.nearest
  have hpos : 0 < m := by
    have hn : (0 : ℚ) < n * 2 ^ x := mul_pos (by exact_mod_cast h.pos) (zpow_pos (by norm_num) _)
    rw [← hvalue] at hn
    exact_mod_cast pos_of_mul_pos_left hn (zpow_pos (by norm_num) _).le
  have htarget : max (totalExponent m (quantum a) - 53) (-1074) = x := by
    rw [totalExponent_congr hpos h.pos hvalue, ← targetExponent_eq]
    exact h.canonical
  have hle : quantum a ≤ x := by
    by_cases hq : quantum a = -1074
    · omega
    · have hbits : 52 ≤ m.log2 := (Nat.le_log2 hpos.ne').mpr (hm.le_of_le (pow_le_scaled ha hq))
      unfold totalExponent at htarget
      omega
  obtain ⟨k, hk⟩ : ∃ k : ℕ, x = quantum a + k := ⟨(x - quantum a).toNat, by omega⟩
  refine ⟨k, ?_, hk⟩
  have hmk : m = n * 2 ^ k := by
    rw [hk, ← cast_shift] at hvalue
    exact_mod_cast mul_right_cancel₀ (zpow_ne_zero _ (by norm_num)) hvalue
  rwa [← hmk]

/-- **Rounding to a double.** A mantissa with its accuracy describes `a` at a place where no digit of
the result is lost. -/
theorem roundWithAccuracy_eq {a : ℚ} {m n : ℕ} {e x : ℤ} {accuracy : Accuracy} (s : Sign)
    (h : RoundsTo a n x) (ha : 0 < a)
    (hdescribes : Describes (.ofMantissaAndAccuracy m accuracy) (a / 2 ^ e))
    (he : e ≤ quantum a) :
    roundWithAccuracy .binary64 s m e accuracy = .finite s n x h.pos := by
  obtain ⟨x₁, hshift₁, hx₁⟩ := shiftToTargetExponent_eq ha hdescribes he
  obtain ⟨k, hk, hx⟩ := h.exists_nearest ha
  have hround : x₁.roundedMantissa = n * 2 ^ k := hx₁.isNearestEven.unique hk
  -- the second shift takes the zeros away again
  have htarget : Format.binary64.targetExponent (totalExponent (n * 2 ^ k) (quantum a)) = x := by
    have hvalue : ((n * 2 ^ k : ℕ) : ℚ) * 2 ^ quantum a = n * 2 ^ x := by rw [cast_shift, ← hx]
    rw [totalExponent_congr (Nat.mul_pos h.pos (Nat.two_pow_pos k)) h.pos hvalue]
    exact h.canonical
  have hshift₂ : shiftToTargetExponent .binary64 (n * 2 ^ k) (quantum a) .exact
      = (ExtendedMantissa.ofMantissaAndAccuracy (n * 2 ^ k) .exact >>> k, x) := by
    have hshift : (x - quantum a).toNat = k := by omega
    simp only [shiftToTargetExponent, UnpackedFloat.shiftToExponent, htarget, hshift]
    rw [← hx]
  have hmantissa :
      (ExtendedMantissa.ofMantissaAndAccuracy (n * 2 ^ k) .exact >>> k).mantissa = n := by
    rw [mantissa_shiftRight, mantissa_ofMantissaAndAccuracy,
      Nat.mul_div_cancel _ (Nat.two_pow_pos k)]
  simp only [roundWithAccuracy, hshift₁, hround, hshift₂, hmantissa, h.pos.ne', ↓reduceDIte]

/-- A number that is nearer to zero than to the smallest double is rounded to zero, and so is the
number half way between them. -/
theorem roundWithAccuracy_eq_zero {a : ℚ} {m : ℕ} {e : ℤ} {accuracy : Accuracy} (s : Sign)
    (hnear : IsNearestEven (a / 2 ^ quantum a) 0) (ha : 0 < a)
    (hdescribes : Describes (.ofMantissaAndAccuracy m accuracy) (a / 2 ^ e))
    (he : e ≤ quantum a) :
    roundWithAccuracy .binary64 s m e accuracy = .zero s := by
  obtain ⟨x₁, hshift₁, hx₁⟩ := shiftToTargetExponent_eq ha hdescribes he
  have hround : x₁.roundedMantissa = 0 := hx₁.isNearestEven.unique hnear
  have hmantissa :
      (shiftToTargetExponent .binary64 0 (quantum a) .exact).1.mantissa = 0 := by
    simp only [shiftToTargetExponent, UnpackedFloat.shiftToExponent]
    rw [mantissa_shiftRight, mantissa_ofMantissaAndAccuracy, Nat.zero_div]
  simp only [roundWithAccuracy, hshift₁, hround, hmantissa, ↓reduceDIte]

/-! ## Numbers near a double -/

theorem quantum_eq {a : ℚ} {e : ℤ} (he : -1074 ≤ e) (hlow : 2 ^ 52 ≤ a / 2 ^ e)
    (hhigh : a / 2 ^ e < 2 ^ 53) : quantum a = e := by
  have hlog : Int.log 2 a = (52 : ℕ) + e := log_eq_of_scaled hlow hhigh
  unfold quantum
  omega

theorem quantum_eq_of_small {a : ℚ} (ha : 0 < a) (h : a / 2 ^ (-1074 : ℤ) < 2 ^ 52) :
    quantum a = -1074 := by
  have hlog : Int.log 2 a < 52 + -1074 := by
    refine (Int.lt_zpow_iff_log_lt (by decide) ha).mp ?_
    rw [Nat.cast_ofNat, zpow_add₀ (by norm_num), ← div_lt_iff₀ (zpow_pos (by norm_num) _)]
    exact_mod_cast h
  unfold quantum
  omega

theorem RoundsTo.of_quantum {a : ℚ} {m : ℕ} {e : ℤ} (hm : 0 < m) (hc : Canonical m e)
    (hq : quantum a = e) (h : IsNearestEven (a / 2 ^ e) m) : RoundsTo a m e := by
  refine ⟨hm, hc, m, ?_, ?_⟩ <;> rw [hq]
  exact h

/-- Just below a power of two the doubles lie twice as close as above it. -/
theorem RoundsTo.of_below {a : ℚ} {e : ℤ} (he : -1074 < e) (hlow : 2 ^ 52 - 1 / 4 ≤ a / 2 ^ e)
    (hhigh : a / 2 ^ e < 2 ^ 52) : RoundsTo a (2 ^ 52) e := by
  have hc : Canonical (2 ^ 52) e := by
    rw [canonical_iff, Nat.log2_two_pow]
    omega
  have htwice : a / 2 ^ (e - 1) = 2 * (a / 2 ^ e) := by
    rw [zpow_sub_one₀ (by norm_num)]
    field_simp
  have hq : quantum a = e - 1 := by
    refine quantum_eq (by omega) ?_ ?_ <;> rw [htwice] <;> linarith
  refine ⟨by norm_num, hc, 2 ^ 53, ?_, ?_⟩ <;> rw [hq]
  · refine ⟨abs_le.mpr ⟨?_, ?_⟩, fun _ => by decide⟩ <;> rw [htwice] <;> push_cast <;> linarith
  · rw [zpow_sub_one₀ (by norm_num)]
    push_cast
    ring

/-- How far below a double the middle of the gap to its neighbour lies, in units of its last
digit. -/
def gapBelow (m : ℕ) (e : ℤ) : ℚ :=
  if m = 2 ^ 52 ∧ e ≠ -1074 then 1 / 4 else 1 / 2

theorem gapBelow_le (m : ℕ) (e : ℤ) : gapBelow m e ≤ 1 / 2 := by
  unfold gapBelow
  split_ifs <;> norm_num

/-- **A number between the middles of the gaps around a double is rounded to it,** and a double with
an even mantissa also takes the middles. -/
theorem RoundsTo.of_gap {a : ℚ} {m : ℕ} {e : ℤ} (hm : 0 < m) (hc : Canonical m e)
    (hlow : m - gapBelow m e ≤ a / 2 ^ e) (hhigh : a / 2 ^ e ≤ m + 1 / 2)
    (hinner : ¬ Even m → m - gapBelow m e < a / 2 ^ e ∧ a / 2 ^ e < m + 1 / 2) :
    RoundsTo a m e := by
  have hpow : (0 : ℚ) < 2 ^ e := zpow_pos (by norm_num) _
  obtain ⟨hbits, hexponent, hclass⟩ := canonical_iff.mp hc
  have hone : (1 : ℚ) ≤ m := by exact_mod_cast hm
  have hsmall : (m : ℚ) + 1 ≤ 2 ^ 53 := by
    exact_mod_cast (Nat.log2_lt hm.ne').mp (Nat.lt_succ_of_le hbits)
  have hgap := gapBelow_le m e
  have hhalf : IsNearestEven (a / 2 ^ e) m := by
    refine ⟨abs_le.mpr ⟨by linarith, by linarith⟩, fun hmiddle => ?_⟩
    by_contra hodd
    obtain ⟨hlow', hhigh'⟩ := hinner hodd
    exact (abs_lt.mpr ⟨by linarith, by linarith⟩).ne hmiddle
  by_cases hfrom : 2 ^ 52 ≤ a / 2 ^ e
  · exact .of_quantum hm hc (quantum_eq hexponent hfrom (by linarith)) hhalf
  · by_cases he : e = -1074
    · subst he
      have ha : 0 < a := (div_pos_iff_of_pos_right hpow).mp (by linarith)
      exact .of_quantum hm hc (quantum_eq_of_small ha (not_le.mp hfrom)) hhalf
    · -- `a` has a smaller leading place than the double, which is therefore a power of two
      have hmantissa : m = 2 ^ 52 := by
        have hge : 2 ^ 52 ≤ m := (Nat.le_log2 hm.ne').mp (hclass.resolve_right he).ge
        have hlt : (m : ℚ) < (2 ^ 52 : ℕ) + 1 := by
          push_cast
          linarith
        have hle : m < 2 ^ 52 + 1 := by exact_mod_cast hlt
        omega
      subst hmantissa
      rw [gapBelow, if_pos ⟨rfl, he⟩] at hlow
      push_cast at hlow
      exact .of_below (by omega) hlow (not_le.mp hfrom)

theorem div_le_gapBelow {m : ℕ} {e : ℤ} (hc : Canonical m e) (hm : 0 < m) :
    (m : ℚ) / 2 ^ 54 ≤ gapBelow m e := by
  have hsmall : (m : ℚ) ≤ 2 ^ 53 := by
    exact_mod_cast ((Nat.log2_lt hm.ne').mp (Nat.lt_succ_of_le (canonical_iff.mp hc).1)).le
  unfold gapBelow
  split_ifs with h
  · rw [h.1]
    norm_num
  · rw [div_le_iff₀ (by norm_num)]
    linarith

/-- Nearer to a double than one part in `2 ^ 54` is between the middles of the gaps around it. -/
theorem between_of_near {a : ℚ} {m : ℕ} {e : ℤ} (hm : 0 < m) (hc : Canonical m e)
    (h : 2 ^ 54 * |a - m * 2 ^ e| < m * 2 ^ e) :
    m - gapBelow m e < a / 2 ^ e ∧ a / 2 ^ e < m + 1 / 2 := by
  have hpow : (0 : ℚ) < 2 ^ e := zpow_pos (by norm_num) _
  -- everything is counted in units of the last digit
  obtain ⟨b, hb⟩ : ∃ b, a / 2 ^ e = b := ⟨_, rfl⟩
  have hab : a = b * 2 ^ e := by rw [← hb, div_mul_cancel₀ _ hpow.ne']
  have hnear : |b - m| < m / 2 ^ 54 := by
    rw [hab, ← sub_mul, abs_mul, abs_of_pos hpow, ← mul_assoc] at h
    rw [lt_div_iff₀ (by norm_num), mul_comm]
    exact lt_of_mul_lt_mul_right h hpow.le
  have hgap := div_le_gapBelow hc hm
  have hhalf := gapBelow_le m e
  obtain ⟨hlow, hhigh⟩ := abs_lt.mp hnear
  rw [hb]
  constructor <;> linarith

/-- **A number that is nearer to a double than one part in `2 ^ 54` is rounded to it.** The whole
distance is needed only below a power of two. -/
theorem RoundsTo.of_near {a : ℚ} {m : ℕ} {e : ℤ} (hm : 0 < m) (hc : Canonical m e)
    (h : 2 ^ 54 * |a - m * 2 ^ e| < m * 2 ^ e) : RoundsTo a m e :=
  have hbetween := between_of_near hm hc h
  .of_gap hm hc hbetween.1.le hbetween.2.le fun _ => hbetween

end FluidAnalysis.Double
