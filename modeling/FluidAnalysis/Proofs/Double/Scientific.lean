import Mathlib
import FluidAnalysis.Proofs.Decimal.General
import FluidAnalysis.Proofs.Double.Rounding

/-!
# Doubles from decimals

A decimal `c · 10 ^ x` becomes a double by one product or one quotient. For small `c` and `x` both
operands are doubles themselves, otherwise they are exact numbers that no double may hold. Either way
the exact value of the decimal is rounded once.

* `mul_finite`, `div_finite` — products and quotients are rounded
* `parts_toFloat`, `parts_powerOfTen` — the operands of the short way are exact
* `Decimal.Exact.toFloat_eq` — the double nearest to a decimal
-/

namespace FluidAnalysis

namespace Double

open Float.Model
open UnpackedFloat (Sign roundWithAccuracy)

/-! ## Operations -/

theorem value_pos {m : ℕ} (h : 0 < m) (e : ℤ) : (0 : ℚ) < m * 2 ^ e :=
  mul_pos (by exact_mod_cast h) (zpow_pos (by norm_num) _)

/-- A double is rounded to itself. -/
theorem RoundsTo.self {m : ℕ} {e : ℤ} (hm : 0 < m) (hc : Canonical m e) :
    RoundsTo (m * 2 ^ e) m e := by
  refine .of_near hm hc ?_
  rw [sub_self, abs_zero, mul_zero]
  exact value_pos hm e

theorem roundWithAccuracy_exact {m n : ℕ} {e x : ℤ} (s : Sign) (hm : 0 < m)
    (h : RoundsTo (m * 2 ^ e) n x) (he : e ≤ quantum (m * 2 ^ e)) :
    roundWithAccuracy .binary64 s m e .exact = .finite s n x h.pos := by
  refine roundWithAccuracy_eq s h (value_pos hm e) ?_ he
  rw [mul_div_cancel_right₀ _ (zpow_ne_zero _ (by norm_num))]
  exact describes_exact m

theorem mul_values (m₁ m₂ : ℕ) (e₁ e₂ : ℤ) :
    (m₁ * 2 ^ e₁ * (m₂ * 2 ^ e₂) : ℚ) = (m₁ * m₂ : ℕ) * 2 ^ (e₁ + e₂) := by
  rw [zpow_add₀ (by norm_num)]
  push_cast
  ring

theorem mul_finite {m₁ m₂ n : ℕ} {e₁ e₂ x : ℤ} (s₁ s₂ : Sign) (h₁ : 0 < m₁) (h₂ : 0 < m₂)
    (h : RoundsTo (m₁ * 2 ^ e₁ * (m₂ * 2 ^ e₂)) n x)
    (he : e₁ + e₂ ≤ quantum (m₁ * 2 ^ e₁ * (m₂ * 2 ^ e₂))) :
    UnpackedFloat.mul .binary64 (.finite s₁ m₁ e₁ h₁) (.finite s₂ m₂ e₂ h₂)
      = .finite (s₁ * s₂) n x h.pos := by
  rw [mul_values] at he h
  exact roundWithAccuracy_exact _ (Nat.mul_pos h₁ h₂) h he

/-- The leading place of a quotient, up to one. -/
theorem log_div_ge {a b : ℚ} (ha : 0 < a) (hb : 0 < b) :
    Int.log 2 a - Int.log 2 b - 1 ≤ Int.log 2 (a / b) := by
  rw [← Int.zpow_le_iff_le_log (by decide) (div_pos ha hb), le_div_iff₀ hb]
  have hlow := Int.zpow_log_le_self (b := 2) (by decide) ha
  have hhigh := Int.lt_zpow_succ_log_self (b := 2) (by decide) b
  calc ((2 : ℕ) : ℚ) ^ (Int.log 2 a - Int.log 2 b - 1) * b
      ≤ (2 : ℕ) ^ (Int.log 2 a - Int.log 2 b - 1) * (2 : ℕ) ^ (Int.log 2 b + 1) := by gcongr
    _ = (2 : ℕ) ^ Int.log 2 a := by
      rw [← zpow_add₀ (by norm_num)]
      congr 1
      ring
    _ ≤ a := hlow

/-- A quotient of mantissas and its remainder describe the exact quotient, at a place where no digit
of the result is lost. -/
theorem exists_div_describes {m₁ m₂ : ℕ} (e₁ e₂ : ℤ) (s₁ s₂ : Sign) (h₁ : 0 < m₁) (h₂ : 0 < m₂) :
    ∃ m t accuracy,
      UnpackedFloat.div .binary64 (.finite s₁ m₁ e₁ h₁) (.finite s₂ m₂ e₂ h₂)
        = roundWithAccuracy .binary64 (s₁ / s₂) m t accuracy ∧
      Describes (.ofMantissaAndAccuracy m accuracy) (m₁ * 2 ^ e₁ / (m₂ * 2 ^ e₂) / 2 ^ t) ∧
      t ≤ quantum (m₁ * 2 ^ e₁ / (m₂ * 2 ^ e₂)) := by
  have hlog := log_div_ge (value_pos h₁ e₁) (value_pos h₂ e₂)
  -- the place at which the quotient of the mantissas is taken
  obtain ⟨t, ht⟩ : ∃ t, min (e₁ - e₂)
      (Format.binary64.targetExponent (totalExponent m₁ e₁ - totalExponent m₂ e₂)) = t := ⟨_, rfl⟩
  have hplace : t ≤ quantum (m₁ * 2 ^ e₁ / (m₂ * 2 ^ e₂)) := by
    rw [targetExponent_eq, totalExponent_eq_log_value h₁, totalExponent_eq_log_value h₂] at ht
    unfold quantum
    omega
  obtain ⟨k, hk⟩ : ∃ k : ℕ, e₁ - e₂ = t + k := ⟨(e₁ - e₂ - t).toNat, by omega⟩
  have hscaled : (m₁ * 2 ^ e₁ / (m₂ * 2 ^ e₂) / 2 ^ t : ℚ) = (m₁ * 2 ^ k : ℕ) / m₂ := by
    have he : e₁ = e₂ + t + k := by omega
    rw [he, zpow_add₀ (by norm_num), zpow_add₀ (by norm_num), zpow_natCast]
    push_cast
    field_simp
  have hshift : (e₁ - e₂ - t).toNat = k := by omega
  refine ⟨m₁ * 2 ^ k / m₂, t, UnpackedFloat.accuracyOfFraction (m₁ * 2 ^ k % m₂) m₂, ?_, ?_,
    hplace⟩
  · simp only [UnpackedFloat.div, UnpackedFloat.divCore, ht, hshift, Nat.shiftLeft_eq]
  · rw [hscaled]
    exact describes_fraction _ h₂

theorem div_finite {m₁ m₂ n : ℕ} {e₁ e₂ x : ℤ} (s₁ s₂ : Sign) (h₁ : 0 < m₁) (h₂ : 0 < m₂)
    (h : RoundsTo (m₁ * 2 ^ e₁ / (m₂ * 2 ^ e₂)) n x) :
    UnpackedFloat.div .binary64 (.finite s₁ m₁ e₁ h₁) (.finite s₂ m₂ e₂ h₂)
      = .finite (s₁ / s₂) n x h.pos := by
  obtain ⟨m, t, accuracy, hdiv, hdescribes, hplace⟩ := exists_div_describes e₁ e₂ s₁ s₂ h₁ h₂
  rw [hdiv]
  exact roundWithAccuracy_eq _ h (div_pos (value_pos h₁ e₁) (value_pos h₂ e₂)) hdescribes hplace

theorem round_eq {m n : ℕ} {e x : ℤ} (s : Sign) (hm : 0 < m) (h : RoundsTo (m * 2 ^ e) n x) :
    UnpackedFloat.round .binary64 s m e = .finite s n x h.pos := by
  have htarget : Format.binary64.targetExponent (totalExponent m e) = quantum (m * 2 ^ e) := by
    rw [targetExponent_eq, totalExponent_eq_log_value hm, quantum]
    congr 1
    ring
  obtain ⟨k, hk⟩ : ∃ k, (e - quantum (m * 2 ^ e)).toNat = k := ⟨_, rfl⟩
  have hvalue : (m * 2 ^ e : ℚ) = (m * 2 ^ k : ℕ) * 2 ^ (e - k) := by
    rw [cast_shift, sub_add_cancel]
  simp only [UnpackedFloat.round, UnpackedFloat.decreaseExponent, htarget, hk, Nat.shiftLeft_eq]
  have hplace : e - k ≤ quantum (m * 2 ^ e) := by omega
  rw [hvalue] at h hplace
  exact roundWithAccuracy_exact s (Nat.mul_pos hm (Nat.two_pow_pos k)) h hplace

/-! ## Exact operands -/

/-- A number of at most 53 binary digits fills the mantissa when it is shifted to the left. -/
theorem canonical_shifted {c : ℕ} {e : ℤ} (hc : 0 < c) (hbits : c.log2 ≤ 52)
    (he : -1074 ≤ e - (52 - c.log2 : ℕ)) :
    (c * 2 ^ (52 - c.log2)).log2 = 52 ∧
      Canonical (c * 2 ^ (52 - c.log2)) (e - (52 - c.log2 : ℕ)) ∧
      ((c * 2 ^ (52 - c.log2) : ℕ) : ℚ) * 2 ^ (e - (52 - c.log2 : ℕ)) = c * 2 ^ e := by
  have hlog : (c * 2 ^ (52 - c.log2)).log2 = 52 := by
    have hlow := Nat.log2_self_le hc.ne'
    have hhigh : c < 2 ^ (c.log2 + 1) := Nat.lt_log2_self
    refine (Nat.log2_eq_iff (by positivity)).mpr ⟨?_, ?_⟩
    · calc 2 ^ 52 = 2 ^ c.log2 * 2 ^ (52 - c.log2) := by rw [← pow_add]; congr 1; omega
        _ ≤ c * 2 ^ (52 - c.log2) := Nat.mul_le_mul_right _ hlow
    · calc c * 2 ^ (52 - c.log2) < 2 ^ (c.log2 + 1) * 2 ^ (52 - c.log2) :=
          Nat.mul_lt_mul_of_pos_right hhigh (Nat.two_pow_pos _)
        _ = 2 ^ (52 + 1) := by rw [← pow_add]; congr 1; omega
  refine ⟨hlog, canonical_iff.mpr ⟨hlog.le, he, .inl hlog⟩, ?_⟩
  rw [cast_shift, sub_add_cancel]

/-- A whole number of at most 53 binary digits, as a double. -/
theorem parts_toFloat {c : ℕ} (hc : 0 < c) (hc' : c < 2 ^ 53) :
    ∃ m e h, parts c.toUInt64.toFloat = .finite .positive m e h ∧ (m : ℚ) * 2 ^ e = c ∧
      m.log2 = 52 := by
  have hbits : c.log2 ≤ 52 := Nat.le_of_lt_succ ((Nat.log2_lt hc.ne').mpr hc')
  obtain ⟨hlog, hcanonical, hvalue⟩ := canonical_shifted (e := 0) hc hbits (by omega)
  have hpos : 0 < c * 2 ^ (52 - c.log2) := by positivity
  have hround := RoundsTo.self hpos hcanonical
  rw [hvalue] at hround
  have hnat : c.toUInt64.toNat = c := Nat.mod_eq_of_lt (by omega)
  have hcompare : compare (c : ℤ) 0 = .gt := compare_gt_iff_gt.mpr (by exact_mod_cast hc)
  have hof : UnpackedFloat.ofUInt64 .binary64 c.toUInt64
      = UnpackedFloat.round .binary64 .positive c 0 := by
    simp only [UnpackedFloat.ofUInt64, UnpackedFloat.ofNat, UnpackedFloat.ofInt,
      UnpackedFloat.normalize, hnat, hcompare, Int.toNat_natCast]
  refine ⟨_, 0 - (52 - c.log2 : ℕ), hpos, ?_, by rw [hvalue, zpow_zero, mul_one], hlog⟩
  show (pack (UnpackedFloat.ofUInt64 .binary64 c.toUInt64)).unpack = _
  rw [hof, round_eq .positive hc hround, unpack_pack_finite _ _ hcanonical, if_neg (by omega)]

/-- Mantissa and exponent of a positive double. -/
def positive? : UnpackedFloat → Option (ℕ × ℤ)
  | .finite .positive m e _ => some (m, e)
  | _ => none

theorem exists_of_positive? {u : UnpackedFloat} {m : ℕ} {e : ℤ} (h : positive? u = some (m, e)) :
    ∃ hm, u = .finite .positive m e hm := by
  unfold positive? at h
  split at h
  · next hm =>
    cases h
    exact ⟨hm, rfl⟩
  · cases h

/-- The powers of five up to the twenty-second have at most 53 binary digits. -/
theorem positive?_powerOfTen : ∀ k : Fin 23,
    positive? (parts Float.exactlyRepresentablePowersOfTen[k]) =
      some (5 ^ k.val * 2 ^ (52 - (5 ^ k.val).log2), (k.val : ℤ) - (52 - (5 ^ k.val).log2 : ℕ)) := by
  decide +kernel

theorem parts_powerOfTen {k : ℕ} (hk : k < Float.exactlyRepresentablePowersOfTen.size) :
    ∃ m e h, parts Float.exactlyRepresentablePowersOfTen[k] = .finite .positive m e h ∧
      (m : ℚ) * 2 ^ e = 10 ^ k := by
  obtain ⟨hm, hparts⟩ := exists_of_positive? (positive?_powerOfTen ⟨k, hk⟩)
  refine ⟨_, _, hm, hparts, ?_⟩
  have hk' : k ≤ 22 := Nat.le_of_lt_succ hk
  have hbits : (5 ^ k).log2 ≤ 52 := by
    refine Nat.le_of_lt_succ ((Nat.log2_lt (Nat.pow_pos (by decide)).ne').mpr ?_)
    exact (Nat.pow_le_pow_right (by decide) hk').trans_lt (by decide)
  obtain ⟨-, -, hvalue⟩ := canonical_shifted (e := k) (Nat.pow_pos (by decide)) hbits (by omega)
  rw [hvalue]
  push_cast
  rw [zpow_natCast, ← mul_pow]
  norm_num

/-! ## Decimals -/

theorem quantum_ge_of_one_le {a : ℚ} (h : 1 ≤ a) : -52 ≤ quantum a := by
  have hlog : 0 ≤ Int.log 2 a := by
    rw [Int.log_of_one_le_right _ h]
    exact Int.natCast_nonneg _
  unfold quantum
  omega

/-- The long way, through exact numbers. -/
theorem unpacked_ofScientific {c m : ℕ} {x e : ℤ} (hc : 0 < c) (hhigh : x ≤ 2 ^ 11)
    (hlow : -(2 ^ 11 + c.log2) ≤ x) (h : RoundsTo (c * 10 ^ x) m e) :
    UnpackedFloat.ofScientific .binary64 c x = .finite .positive m e h.pos := by
  have hmantissa : Format.binary64.mantissaBits = 53 := rfl
  unfold UnpackedFloat.ofScientific
  simp only [hmantissa]
  rw [dif_neg hc.ne', if_neg (by omega), if_neg (by omega)]
  split
  · next hx =>
    obtain ⟨k, rfl⟩ := Int.eq_ofNat_of_zero_le hx
    have hvalue : ((c <<< 53 : ℕ) * 2 ^ (-53 : ℤ) * ((10 ^ k : ℕ) * 2 ^ (0 : ℤ)) : ℚ)
        = c * 10 ^ (k : ℤ) := by
      rw [Nat.shiftLeft_eq]
      push_cast
      field_simp
      norm_num
    rw [← hvalue] at h
    refine mul_finite .positive .positive _ _ h ?_
    rw [hvalue]
    have hplace : -52 ≤ quantum (c * 10 ^ (k : ℤ)) := quantum_ge_of_one_le ?_
    · omega
    · rw [zpow_natCast]
      exact_mod_cast Nat.mul_pos hc (Nat.pow_pos (by decide))
  · next hx =>
    obtain ⟨k, rfl⟩ : ∃ k : ℕ, x = -k := ⟨(-x).toNat, by omega⟩
    have hvalue : (c * 2 ^ (0 : ℤ) / ((10 ^ (- -(k : ℤ)).toNat : ℕ) * 2 ^ (0 : ℤ)) : ℚ)
        = c * 10 ^ (-(k : ℤ)) := by
      rw [neg_neg, Int.toNat_natCast, zpow_neg, zpow_natCast]
      push_cast
      ring
    rw [← hvalue] at h
    exact div_finite .positive .positive _ _ h

/-- The last digit of a product whose first operand fills its mantissa is not lost. -/
theorem le_quantum_mul {m₁ m₂ : ℕ} (e₁ e₂ : ℤ) (h₁ : 0 < m₁) (h₂ : 0 < m₂) (hlog : m₁.log2 = 52) :
    e₁ + e₂ ≤ quantum (m₁ * 2 ^ e₁ * (m₂ * 2 ^ e₂)) := by
  have htotal := totalExponent_eq_log_value (Nat.mul_pos h₁ h₂) (e₁ + e₂)
  have hmono := totalExponent_mono (Nat.le_mul_of_pos_right m₁ h₂) (e₁ + e₂)
  rw [mul_values, quantum]
  rw [htotal, totalExponent] at hmono
  omega

/-- Both ways round the exact value of the decimal. -/
theorem ofScientific_eq {c m : ℕ} {x e : ℤ} (hc : 0 < c) (hhigh : x ≤ 2 ^ 11)
    (hlow : -(2 ^ 11 + c.log2) ≤ x) (h : RoundsTo (c * 10 ^ x) m e) :
    Float.ofScientific c (decide (x < 0)) x.natAbs
      = .ofModel (pack (.finite .positive m e h.pos)) := by
  unfold Float.ofScientific
  split
  · next hshort =>
    obtain ⟨m₁, e₁, h₁, hparts₁, hvalue₁, hlog₁⟩ := parts_toFloat hc hshort.1
    obtain ⟨m₂, e₂, h₂, hparts₂, hvalue₂⟩ :=
      parts_powerOfTen (k := x.natAbs) (Nat.lt_succ_of_le hshort.2)
    simp only [decide_eq_true_eq]
    split
    · next hx =>
      have hvalue : (m₁ * 2 ^ e₁ / (m₂ * 2 ^ e₂) : ℚ) = c * 10 ^ x := by
        obtain ⟨k, rfl⟩ : ∃ k : ℕ, x = -k := ⟨(-x).toNat, by omega⟩
        rw [hvalue₁, hvalue₂, Int.natAbs_neg, Int.natAbs_natCast, zpow_neg, zpow_natCast,
          div_eq_mul_inv]
      rw [← hvalue] at h
      refine congrArg (fun u => Float.ofModel (pack u)) ?_
      exact (congrArg₂ (UnpackedFloat.div .binary64) hparts₁ hparts₂).trans (div_finite _ _ h₁ h₂ h)
    · next hx =>
      have hvalue : (m₁ * 2 ^ e₁ * (m₂ * 2 ^ e₂) : ℚ) = c * 10 ^ x := by
        obtain ⟨k, rfl⟩ := Int.eq_ofNat_of_zero_le (not_lt.mp hx)
        rw [hvalue₁, hvalue₂, Int.natAbs_natCast, zpow_natCast]
      rw [← hvalue] at h
      refine congrArg (fun u => Float.ofModel (pack u)) ?_
      exact (congrArg₂ (UnpackedFloat.mul .binary64) hparts₁ hparts₂).trans
        (mul_finite _ _ h₁ h₂ h (le_quantum_mul e₁ e₂ h₁ h₂ hlog₁))
  · have hsign : (if decide (x < 0) then Int.negOfNat x.natAbs else Int.ofNat x.natAbs) = x := by
      simp only [decide_eq_true_eq, Int.negOfNat_eq, Int.ofNat_eq_natCast]
      split <;> omega
    simp only [hsign]
    exact congrArg (fun u => Float.ofModel (pack u)) (unpacked_ofScientific hc hhigh hlow h)

/-- Rounding moves a number by less than its size. -/
theorem RoundsTo.bounds {a : ℚ} {m : ℕ} {e : ℤ} (h : RoundsTo a m e) (ha : 0 < a) :
    (m : ℚ) * 2 ^ e / 2 ≤ a ∧ a ≤ 2 * (m * 2 ^ e) := by
  obtain ⟨k, hnear, hk⟩ := h.exists_nearest ha
  have hpow : (0 : ℚ) < 2 ^ quantum a := zpow_pos (by norm_num) _
  have hvalue : (m : ℚ) * 2 ^ e = (m * 2 ^ k : ℕ) * 2 ^ quantum a := by rw [cast_shift, ← hk]
  have hone : (1 : ℚ) ≤ (m * 2 ^ k : ℕ) := by
    exact_mod_cast Nat.mul_pos h.pos (Nat.two_pow_pos k)
  obtain ⟨hleft, hright⟩ := abs_le.mp hnear.near
  rw [hvalue, mul_div_right_comm, ← le_div_iff₀ hpow, ← mul_assoc, ← div_le_iff₀ hpow]
  constructor <;> linarith

/-- The numbers that are rounded to finite doubles other than zero. -/
theorem RoundsTo.range {a : ℚ} {m : ℕ} {e : ℤ} (h : RoundsTo a m e) (ha : 0 < a) (he : e ≤ 971) :
    (2 : ℚ) ^ (-1075 : ℤ) ≤ a ∧ a < 2 ^ (1025 : ℤ) := by
  obtain ⟨hlow, hhigh⟩ := h.bounds ha
  obtain ⟨hbits, hsmall, -⟩ := canonical_iff.mp h.canonical
  have hm : (1 : ℚ) ≤ m := by exact_mod_cast h.pos
  have hm' : (m : ℚ) < 2 ^ 53 := by
    exact_mod_cast (Nat.log2_lt h.pos.ne').mp (Nat.lt_succ_of_le hbits)
  constructor
  · calc (2 : ℚ) ^ (-1075 : ℤ) = 1 * 2 ^ (-1074 : ℤ) / 2 := by
          rw [one_mul, div_eq_mul_inv]
          exact zpow_sub_one₀ (two_ne_zero (α := ℚ)) (-1074)
      _ ≤ m * 2 ^ e / 2 := by gcongr; norm_num
      _ ≤ a := hlow
  · calc a ≤ 2 * (m * 2 ^ e) := hhigh
      _ < 2 * (2 ^ 53 * 2 ^ e) := by gcongr
      _ ≤ 2 * (2 ^ 53 * 2 ^ (971 : ℤ)) := by gcongr; norm_num
      _ = 2 ^ (1025 : ℤ) := by
          rw [← zpow_natCast, ← zpow_add₀ (by norm_num), ← zpow_one_add₀ (by norm_num)]
          rfl

end Double

namespace Decimal

open Double Float.Model

/-! ## The double nearest to a decimal -/

/-- The digits of the coefficient and the exponent give the leading place. -/
theorem Exact.position_eq {d : Exact} (h : 0 < d.coefficient) :
    (digits d.coefficient).length + d.exponent = Int.log 10 d.value + 1 := by
  obtain ⟨hlow, hhigh⟩ := digits_bounds h
  have hpos : 0 < (digits d.coefficient).length := Nat.length_toDigits_pos
  have hten : (0 : ℚ) < 10 ^ d.exponent := zpow_pos (by norm_num) _
  have hlog : Int.log 10 d.value = ((digits d.coefficient).length - 1 : ℕ) + d.exponent := by
    refine log_eq_of_bounds (b := 10) (by decide) ?_ ?_
    · rw [Nat.cast_ofNat, zpow_add₀ (by norm_num), ← cast_pow_ten, Exact.value]
      gcongr
    · have hplace : (((digits d.coefficient).length - 1 : ℕ) : ℤ) + d.exponent + 1
          = (digits d.coefficient).length + d.exponent := by omega
      rw [Nat.cast_ofNat, hplace, zpow_add₀ (by norm_num), ← cast_pow_ten, Exact.value]
      gcongr
  omega

theorem length_digits_le {n : ℕ} (h : 0 < n) : (digits n).length ≤ n.log2 + 1 := by
  obtain ⟨hlow, -⟩ := digits_bounds h
  have hpow : 2 ^ ((digits n).length - 1) ≤ n := (Nat.pow_le_pow_left (by decide) _).trans hlow
  have := (Nat.le_log2 h.ne').mpr hpow
  omega

/-- **Reading a decimal rounds its exact value once.** The bounds behind which a decimal is taken for
zero or for infinite lie outside the range of doubles. -/
theorem Exact.toFloat_eq {d : Exact} {m : ℕ} {e : ℤ} (hd : 0 < d.coefficient)
    (h : Double.RoundsTo d.value m e) (he : e ≤ 971) :
    d.toFloat = .ofModel (pack (.finite .positive m e h.pos)) := by
  have hvalue : 0 < d.value := mul_pos (by exact_mod_cast hd) (zpow_pos (by norm_num) _)
  obtain ⟨hsmall, hlarge⟩ := h.range hvalue he
  have hposition := d.position_eq hd
  have hlow : -331 ≤ Int.log 10 d.value := by
    refine (Int.zpow_le_iff_le_log (by decide) hvalue).mp (le_trans ?_ hsmall)
    have hpow : 2 ^ 1075 ≤ 10 ^ 331 := by decide +kernel
    rw [zpow_neg, zpow_neg]
    refine inv_anti₀ (zpow_pos (by norm_num) _) ?_
    exact_mod_cast hpow
  have hhigh : Int.log 10 d.value < 310 := by
    refine (Int.lt_zpow_iff_log_lt (by decide) hvalue).mp (hlarge.trans ?_)
    have hpow : 2 ^ 1025 < 10 ^ 310 := by decide +kernel
    exact_mod_cast hpow
  have hpos : 0 < (digits d.coefficient).length := Nat.length_toDigits_pos
  have hlength := length_digits_le hd
  have hzero : ¬ (d.coefficient == 0 ||
      decide ((digits d.coefficient).length + d.exponent < -330)) := by
    simp only [Bool.or_eq_true, beq_iff_eq, decide_eq_true_eq, not_or]
    omega
  unfold Exact.toFloat
  rw [if_neg hzero, if_neg (by omega)]
  exact ofScientific_eq hd (by omega) (by omega) h

end Decimal

end FluidAnalysis
