import Mathlib
import FluidAnalysis.Proofs.Decimal.ReadBack

/-!
# The values of doubles

A finite double stands for one rational number. Infinite and undefined doubles stand for none; where
a number is asked of them it is zero.

* `le_iff_value` — finite doubles are compared as the numbers they stand for
* `trunc_eq_towardZero` — the integer part of a double is that of its number
-/

namespace FluidAnalysis.Double

open Float.Model
open UnpackedFloat (Sign)

/-- The number that the parts of a double stand for. -/
def number : UnpackedFloat → ℚ
  | .finite s m e _ => (s.apply m : ℤ) * 2 ^ e
  | _ => 0

/-- The number that a double stands for. -/
def value (x : Float) : ℚ :=
  number (parts x)

/-! ## Order -/

section Order

variable {m n : ℕ} {e f : ℤ}

/-- Of two canonical numbers, the one with the larger exponent is larger. -/
theorem lt_of_exponent_lt (hm : Canonical m e) (hn : Canonical n f) (hn₀ : 0 < n) (h : e < f) :
    (m : ℚ) * 2 ^ e < n * 2 ^ f := by
  obtain ⟨hbits, hlow, -⟩ := canonical_iff.mp hm
  obtain ⟨-, -, hclass⟩ := canonical_iff.mp hn
  have hfrom : ((2 ^ 52 : ℕ) : ℚ) ≤ n := by
    exact_mod_cast (Nat.le_log2 hn₀.ne').mp (by omega)
  have hto : (m : ℚ) < (2 ^ 53 : ℕ) := by
    rcases Nat.eq_zero_or_pos m with rfl | hm₀
    · norm_num
    · exact_mod_cast (Nat.log2_lt hm₀.ne').mp (by omega)
  calc (m : ℚ) * 2 ^ e < (2 ^ 53 : ℕ) * 2 ^ e := by gcongr
    _ = (2 ^ 52 : ℕ) * 2 ^ (e + 1) := by
      rw [zpow_add_one₀ (by norm_num)]
      push_cast
      ring
    _ ≤ n * 2 ^ f := by
      gcongr
      · norm_num
      · omega

/-- Canonical numbers are compared by their exponents, and then by their mantissas. -/
theorem pair_le_iff (hm : Canonical m e) (hn : Canonical n f) (hm₀ : 0 < m) (hn₀ : 0 < n) :
    (e < f ∨ e = f ∧ m ≤ n) ↔ (m : ℚ) * 2 ^ e ≤ n * 2 ^ f := by
  rcases lt_trichotomy e f with hlt | rfl | hgt
  · exact ⟨fun _ => (lt_of_exponent_lt hm hn hn₀ hlt).le, fun _ => .inl hlt⟩
  · have hpow : (0 : ℚ) < 2 ^ e := zpow_pos (by norm_num) _
    rw [mul_le_mul_iff_left₀ hpow, Nat.cast_le]
    simp
  · have hvalue := lt_of_exponent_lt hn hm hm₀ hgt
    constructor
    · omega
    · intro h
      exact absurd h hvalue.not_ge

@[simp] theorem number_zero (s : Sign) : number (.zero s) = 0 := rfl

@[simp] theorem number_positive (hm : 0 < m) : number (.finite .positive m e hm) = m * 2 ^ e := rfl

@[simp] theorem number_negative (hm : 0 < m) :
    number (.finite .negative m e hm) = -(m * 2 ^ e) := by
  show ((-(m : ℤ) : ℤ) : ℚ) * 2 ^ e = _
  push_cast
  ring

/-- **Finite doubles are compared as the numbers they stand for.** -/
theorem le_iff_value {x y : Float} (hx : x.isFinite = true) (hy : y.isFinite = true) :
    x ≤ y ↔ value x ≤ value y := by
  change (parts x).isFinite = true at hx
  change (parts y).isFinite = true at hy
  rw [le_iff_place, value, value]
  rcases hu : parts x with _ | _ | _ | ⟨(_ | _), m, e, hm⟩
  case infinity | notANumber => simp [hu, UnpackedFloat.isFinite] at hx
  all_goals rcases hv : parts y with _ | _ | _ | ⟨(_ | _), n, f, hn⟩
  case zero.infinity | zero.notANumber | finite.negative.infinity | finite.negative.notANumber |
      finite.positive.infinity | finite.positive.notANumber =>
    simp [hv, UnpackedFloat.isFinite] at hy
  case zero.zero => simp [place]
  -- the sign decides, unless both have the same
  case zero.finite.negative => simp [place, Prod.Lex.toLex_le_toLex, value_pos hn f]
  case zero.finite.positive => simp [place, Prod.Lex.toLex_le_toLex, (value_pos hn f).le]
  case finite.negative.zero => simp [place, Prod.Lex.toLex_le_toLex, (value_pos hm e).le]
  case finite.positive.zero => simp [place, Prod.Lex.toLex_le_toLex, value_pos hm e]
  case finite.negative.finite.positive =>
    have hle : -(m * 2 ^ e : ℚ) ≤ n * 2 ^ f := by linarith [value_pos hm e, value_pos hn f]
    simp [place, Prod.Lex.toLex_le_toLex, hle]
  case finite.positive.finite.negative =>
    have hlt : -(n * 2 ^ f : ℚ) < m * 2 ^ e := by linarith [value_pos hm e, value_pos hn f]
    simp [place, Prod.Lex.toLex_le_toLex, hlt]
  case finite.positive.finite.positive =>
    simp [place, Prod.Lex.toLex_le_toLex,
      ← pair_le_iff (canonical_parts hu).1 (canonical_parts hv).1 hm hn]
  case finite.negative.finite.negative =>
    simp [place, Prod.Lex.toLex_le_toLex,
      ← pair_le_iff (canonical_parts hv).1 (canonical_parts hu).1 hn hm, eq_comm]

end Order

/-! ## Integer parts -/

/-- The integer part of a number, toward zero. -/
def towardZero (a : ℚ) : ℤ :=
  if 0 ≤ a then ⌊a⌋ else ⌈a⌉

theorem towardZero_neg (a : ℚ) : towardZero (-a) = -towardZero a := by
  unfold towardZero
  split_ifs with h₁ h₂ h₂
  · obtain rfl : a = 0 := le_antisymm (neg_nonneg.mp h₁) h₂
    simp
  · exact Int.floor_neg
  · exact Int.ceil_neg
  · linarith

theorem trunc_signed (b : Decimal.Binary) :
    b.trunc = towardZero (if b.negative then -b.magnitude else b.magnitude) := by
  have hfloor : ((b.ratio.1 / b.ratio.2 : ℕ) : ℤ) = towardZero b.magnitude := by
    have hnonneg : 0 ≤ b.magnitude := by
      rw [← b.ratio_eq_magnitude]
      positivity
    rw [towardZero, if_pos hnonneg, ← b.ratio_eq_magnitude, Rat.floor_natCast_div_natCast]
    rfl
  unfold Decimal.Binary.trunc Decimal.Binary.signed
  split_ifs
  · rw [towardZero_neg, hfloor]
  · exact hfloor

/-- **The integer part of a finite double is that of the number it stands for.** -/
theorem trunc_eq_towardZero {x : Float} (hx : x.isFinite = true) :
    Scalar.trunc x = towardZero (value x) := by
  have htrunc : Scalar.trunc x = Decimal.toInteger Decimal.Binary.trunc x := rfl
  change (parts x).isFinite = true at hx
  rw [htrunc, Decimal.toInteger, Decimal.read_eq_reading, value]
  cases hu : parts x with
  | infinity | notANumber => simp [hu, UnpackedFloat.isFinite] at hx
  | zero s =>
    show Decimal.Binary.trunc _ = _
    rw [trunc_signed]
    simp [Decimal.Binary.magnitude]
  | finite s m e hm =>
    show Decimal.Binary.trunc _ = _
    rw [trunc_signed]
    cases s <;> simp [Decimal.Binary.magnitude]

end FluidAnalysis.Double
