import Mathlib
import FluidAnalysis.Proofs.Double.Infinite
import FluidAnalysis.Proofs.Double.Value

/-!
# Sums and quotients keep the order

An operation on finite doubles rounds the exact result once, and rounding keeps the order. So a
difference has the sign of the exact one, and a sum of numbers from zero on grows with its terms.
Nothing more is true: the sum of equal terms may be rounded up.

* `RoundsTo.mono` — rounding keeps the order
* `Outcome` — what is left of a number from zero on
* `outcome_add`, `outcome_sub`, `outcome_div` — the operations
* `isNaN_or_zero_le_sub`, `add_mono`, `div_mono` — their order, with infinite terms
-/

namespace FluidAnalysis.Double

open Float.Model
open UnpackedFloat (Sign)
open Decimal (IsNearestEven)

/-! ## Rounding keeps the order -/

section Rounding

variable {a b : ℚ} {m n : ℕ} {e f : ℤ}

theorem isNearestEven_mono (hm : IsNearestEven a m) (hn : IsNearestEven b n) (h : a ≤ b) :
    m ≤ n := by
  by_contra hlt
  have hnm : (n : ℚ) + 1 ≤ m := by exact_mod_cast Nat.lt_of_not_le hlt
  have hm' := abs_le.mp hm.near
  have hn' := abs_le.mp hn.near
  -- both would lie half way between two neighbours, and so be the same number
  obtain rfl : a = b := by linarith
  exact hlt (hm.unique hn).le

theorem isNearestEven_zero (ha : 0 ≤ a) (h : a ≤ 1 / 2) : IsNearestEven a 0 := by
  refine ⟨?_, fun _ => Even.zero⟩
  rw [Nat.cast_zero, sub_zero, abs_of_nonneg ha]
  exact h

theorem quantum_mono (ha : 0 < a) (h : a ≤ b) : quantum a ≤ quantum b := by
  have hlog : Int.log 2 a ≤ Int.log 2 b := Int.log_mono_right ha h
  unfold quantum
  omega

theorem RoundsTo.number_pos (h : RoundsTo a m e) : 0 < a := by
  obtain ⟨n, hn, hvalue⟩ := h.nearest
  have hpow : (0 : ℚ) < 2 ^ quantum a := zpow_pos (by norm_num) _
  have hone : (1 : ℚ) ≤ n := by
    have hpos : (0 : ℚ) < n * 2 ^ quantum a := hvalue ▸ value_pos h.pos e
    exact_mod_cast pos_of_mul_pos_left hpos hpow.le
  have hnear := (abs_le.mp hn.near).1
  have hscaled : 0 < a / 2 ^ quantum a := by linarith
  exact (div_pos_iff_of_pos_right hpow).mp hscaled

/-- **Rounding keeps the order.** A number with a larger place of rounding is rounded at or above the
power of two that bounds the other one. -/
theorem RoundsTo.mono (ha : RoundsTo a m e) (hb : RoundsTo b n f) (h : a ≤ b) :
    (m : ℚ) * 2 ^ e ≤ n * 2 ^ f := by
  obtain ⟨k, hk, hkvalue⟩ := ha.nearest
  obtain ⟨l, hl, hlvalue⟩ := hb.nearest
  rw [← hkvalue, ← hlvalue]
  rcases (quantum_mono ha.number_pos h).eq_or_lt with hsame | hless
  · have hscaled : a / 2 ^ quantum a ≤ b / 2 ^ quantum b := by
      rw [hsame]
      gcongr
    have hkl : (k : ℚ) ≤ l := by exact_mod_cast isNearestEven_mono hk hl hscaled
    rw [hsame]
    gcongr
  · have hlow : -1074 ≤ quantum a := le_max_right _ _
    have hk' : (k : ℚ) ≤ (2 ^ 53 : ℕ) := by exact_mod_cast hk.le_of_ge (scaled_le_pow a)
    have hl' : ((2 ^ 52 : ℕ) : ℚ) ≤ l := by
      exact_mod_cast hl.le_of_le (pow_le_scaled hb.number_pos (by omega))
    calc (k : ℚ) * 2 ^ quantum a ≤ (2 ^ 53 : ℕ) * 2 ^ quantum a := by gcongr
      _ = (2 ^ 52 : ℕ) * 2 ^ (quantum a + 1) := by
        rw [zpow_add_one₀ (by norm_num)]
        push_cast
        ring
      _ ≤ l * 2 ^ quantum b := by
        gcongr
        · norm_num
        · omega

/-- Numbers up to half of the smallest double are rounded to zero. -/
theorem isNearestEven_of_small (ha : 0 < a) (h : a ≤ 2 ^ (-1075 : ℤ)) :
    IsNearestEven (a / 2 ^ quantum a) 0 := by
  have hpow : (0 : ℚ) < 2 ^ (-1074 : ℤ) := zpow_pos (by norm_num) _
  have hhalf : a / 2 ^ (-1074 : ℤ) ≤ 1 / 2 := by
    rw [div_le_iff₀ hpow, ← half_smallest]
    exact h
  rw [quantum_eq_of_small ha (hhalf.trans_lt (by norm_num))]
  exact isNearestEven_zero (div_pos ha hpow).le hhalf

theorem RoundsTo.half_smallest_lt (h : RoundsTo a m e) : 2 ^ (-1075 : ℤ) < a := by
  by_contra hsmall
  obtain ⟨n, hn, hvalue⟩ := h.nearest
  obtain rfl : n = 0 := hn.unique (isNearestEven_of_small h.number_pos (not_lt.mp hsmall))
  have hpos := value_pos h.pos e
  rw [← hvalue, Nat.cast_zero, zero_mul] at hpos
  exact hpos.false

end Rounding

/-! ## What is left of a number -/

/-- What rounding leaves of a number from zero on: a double above zero, which is infinite if the
exponent is too large, or a zero if the number is too small. -/
def Outcome (a : ℚ) (u : UnpackedFloat) : Prop :=
  (∃ m e h, RoundsTo a m e ∧
    u = if 971 < e then .infinity .positive else .finite .positive m e h) ∨
  a ≤ 2 ^ (-1075 : ℤ) ∧ ∃ s, u = .zero s

section Outcome

variable {a b : ℚ} {u v : UnpackedFloat}

theorem outcome_zero (s : Sign) : Outcome 0 (.zero s) :=
  .inr ⟨(zpow_pos (by norm_num) _).le, s, rfl⟩

theorem outcome_pack_zero (s : Sign) : Outcome 0 (pack (.zero s)).unpack := by
  rw [unpack_pack_zero]
  exact outcome_zero s

theorem RoundsTo.outcome {m : ℕ} {e : ℤ} (h : RoundsTo a m e) :
    Outcome a (pack (.finite .positive m e h.pos)).unpack :=
  .inl ⟨m, e, h.pos, h, unpack_pack_finite _ _ h.canonical⟩

theorem Outcome.nonneg (h : Outcome a u) (s : Sign) : (UnpackedFloat.zero s).le u = true := by
  rw [unpacked_le_iff]
  rcases h with ⟨m, e, hm, -, rfl⟩ | ⟨-, t, rfl⟩
  · split_ifs <;> simp [place, Prod.Lex.toLex_le_toLex]
  · simp [place]

/-- **Larger numbers leave larger doubles.** -/
theorem Outcome.le (hu : Outcome a u) (hv : Outcome b v) (h : a ≤ b) : u.le v = true := by
  rcases hu with ⟨m, e, hm, hround, rfl⟩ | ⟨-, s, rfl⟩
  · rcases hv with ⟨n, f, hn, hround', rfl⟩ | ⟨hsmall, -⟩
    · have hpair := (pair_le_iff hround.canonical hround'.canonical hm hn).mpr
        (hround.mono hround' h)
      rw [unpacked_le_iff]
      split_ifs with he hf hf
      · simp [place]
      · omega
      · simp [place, Prod.Lex.toLex_le_toLex]
      · simpa [place, Prod.Lex.toLex_le_toLex] using hpair
    · exact absurd (h.trans hsmall) (not_le.mpr hround.half_smallest_lt)
  · exact hv.nonneg s

end Outcome

/-! ## Operations on finite doubles -/

section Operations

variable {x y : Float}

theorem unpack_pack_parts (x : Float) : (pack (parts x)).unpack = parts x :=
  congrArg parts (Decimal.pack_parts (x := x))

/-- The sign of a double can be changed at will. -/
theorem unpack_pack_signed {s : Sign} {m : ℕ} {e : ℤ} {hm : 0 < m} (h : parts x = .finite s m e hm)
    (t : Sign) : (pack (.finite t m e hm)).unpack = .finite t m e hm := by
  obtain ⟨hc, hlow⟩ := canonical_parts h
  rw [unpack_pack_finite t hm hc, if_neg (by omega)]

theorem parts_neg (x : Float) : parts (-x) = (parts x).neg := by
  show (pack (parts x).neg).unpack = _
  cases hu : parts x with
  | notANumber => exact unpack_pack_notANumber
  | infinity s => exact unpack_pack_infinity (-s)
  | zero s => exact unpack_pack_zero (-s)
  | finite s m e hm => exact unpack_pack_signed hu (-s)

theorem parts_abs (x : Float) : parts (Scalar.abs x) = (parts x).abs := by
  show (pack (parts x).abs).unpack = _
  cases hu : parts x with
  | notANumber => exact unpack_pack_notANumber
  | infinity s => exact unpack_pack_infinity .positive
  | zero s => exact unpack_pack_zero .positive
  | finite s m e hm => exact unpack_pack_signed hu .positive

theorem isNaN_abs_iff : (Scalar.abs x).isNaN = true ↔ x.isNaN = true := by
  rw [isNaN_iff, isNaN_iff, parts_abs]
  cases parts x <;> simp [UnpackedFloat.abs]

theorem parts_sub_eq_add (x y : Float) : parts (x - y) = parts (x + -y) := by
  rw [parts_sub, parts_add, parts_neg]

theorem value_neg (x : Float) : value (-x) = -value x := by
  rw [value, value, parts_neg]
  cases parts x with
  | finite s m e hm =>
    show (((-s).apply m : ℤ) : ℚ) * 2 ^ e = -((s.apply m : ℤ) * 2 ^ e)
    rw [apply_neg]
    push_cast
    ring
  | _ => exact neg_zero.symm

theorem isFinite_neg (h : x.isFinite = true) : (-x).isFinite = true := by
  show (parts (-x)).isFinite = true
  change (parts x).isFinite = true at h
  rw [parts_neg]
  cases hu : parts x <;> simp [hu, UnpackedFloat.isFinite, UnpackedFloat.neg] at h ⊢

/-- A finite double from zero on is a zero or has the positive sign. -/
theorem zero_or_positive (hx : x.isFinite = true) (h : 0 ≤ value x) :
    (∃ s, parts x = .zero s) ∨ ∃ m e hm, parts x = .finite .positive m e hm := by
  change (parts x).isFinite = true at hx
  rw [value] at h
  rcases hu : parts x with _ | _ | s | ⟨(_ | _), m, e, hm⟩
  case infinity | notANumber => simp [hu, UnpackedFloat.isFinite] at hx
  case zero => exact .inl ⟨_, rfl⟩
  case finite.negative =>
    rw [hu, number_negative] at h
    linarith [value_pos hm e]
  case finite.positive => exact .inr ⟨m, e, hm, rfl⟩

theorem outcome_value (hx : x.isFinite = true) (h : 0 ≤ value x) :
    Outcome (value x) (parts x) := by
  rw [value]
  rcases zero_or_positive hx h with ⟨s, hu⟩ | ⟨m, e, hm, hu⟩
  · rw [hu]
    exact outcome_zero s
  · obtain ⟨hc, hlow⟩ := canonical_parts hu
    rw [hu]
    exact .inl ⟨m, e, hm, .self hm hc, (if_neg (by omega)).symm⟩

/-- A whole number of units is rounded as it is. -/
theorem outcome_normalize {k e : ℤ} (hk : 0 ≤ k) (he : -1074 ≤ e) :
    Outcome (k * 2 ^ e) (pack (UnpackedFloat.normalize .binary64 k e .positive)).unpack := by
  rcases hk.eq_or_lt with rfl | hpos
  · rw [Int.cast_zero, zero_mul]
    exact outcome_pack_zero .positive
  · lift k to ℕ using hk
    have hlarge : (2 : ℚ) ^ (-1075 : ℤ) < k * 2 ^ e := by
      have hone : (1 : ℚ) ≤ k := by exact_mod_cast hpos
      calc (2 : ℚ) ^ (-1075 : ℤ) < 2 ^ e := zpow_lt_zpow_right₀ one_lt_two (by omega)
        _ ≤ k * 2 ^ e := le_mul_of_one_le_left (zpow_pos (by norm_num) _).le hone
    obtain ⟨m, f, hround⟩ := exists_roundsTo hlarge
    have hnormalize : UnpackedFloat.normalize .binary64 k e .positive
        = .finite .positive m f hround.pos := by
      unfold UnpackedFloat.normalize
      rw [compare_gt_iff_gt.mpr hpos]
      exact round_eq .positive (by exact_mod_cast hpos) hround
    rw [hnormalize]
    exact hround.outcome

/-- A mantissa is shifted to the left without a loss. -/
theorem shift_signed (s : Sign) (m : ℕ) {e g : ℤ} (h : g ≤ e) :
    ((s.apply (m <<< (e - g).toNat : ℕ) : ℤ) : ℚ) * 2 ^ g = (s.apply m : ℤ) * 2 ^ e := by
  obtain ⟨k, rfl⟩ : ∃ k : ℕ, e = g + k := ⟨(e - g).toNat, by omega⟩
  have hshift : ((m <<< (g + k - g).toNat : ℕ) : ℚ) * 2 ^ g = m * 2 ^ (g + k) := by
    rw [Nat.shiftLeft_eq, cast_shift]
    congr 2
    omega
  cases s with
  | positive => exact hshift
  | negative =>
    show ((-(_ : ℤ) : ℤ) : ℚ) * _ = ((-(m : ℤ) : ℤ) : ℚ) * _
    rw [Int.cast_neg, Int.cast_neg, neg_mul, neg_mul]
    exact congrArg (-·) hshift

/-- A sum is a whole number of units at the smaller exponent. -/
theorem number_add {m n : ℕ} (s t : Sign) (e f : ℤ) (hm : 0 < m) (hn : 0 < n) :
    number (.finite s m e hm) + number (.finite t n f hn)
      = ((s.apply (m <<< (e - min e f).toNat : ℕ)
          + t.apply (n <<< (f - min e f).toNat : ℕ) : ℤ) : ℚ) * 2 ^ min e f := by
  rw [Int.cast_add, add_mul, shift_signed s m (min_le_left e f),
    shift_signed t n (min_le_right e f)]
  rfl

/-- **A sum from zero on is the exact sum, rounded.** -/
theorem outcome_add (hx : x.isFinite = true) (hy : y.isFinite = true)
    (h : 0 ≤ value x + value y) : Outcome (value x + value y) (parts (x + y)) := by
  have hx' : (parts x).isFinite = true := hx
  have hy' : (parts y).isFinite = true := hy
  have hvx : value x = number (parts x) := rfl
  have hvy : value y = number (parts y) := rfl
  rw [parts_add]
  cases hu : parts x with
  | notANumber | infinity s => simp [hu, UnpackedFloat.isFinite] at hx'
  | zero s =>
    rw [hvx, hu, number_zero, zero_add] at h ⊢
    cases hv : parts y with
    | notANumber | infinity t => simp [hv, UnpackedFloat.isFinite] at hy'
    | zero t =>
      rw [hvy, hv, number_zero]
      show Outcome 0 (pack (if s == t then _ else _)).unpack
      split_ifs <;> exact outcome_pack_zero _
    | finite t n f hn =>
      show Outcome _ (pack (.finite t n f hn)).unpack
      rw [← hv, unpack_pack_parts]
      exact outcome_value hy h
  | finite s m e hm =>
    cases hv : parts y with
    | notANumber | infinity t => simp [hv, UnpackedFloat.isFinite] at hy'
    | zero t =>
      show Outcome _ (pack (.finite s m e hm)).unpack
      rw [hvy, hv, number_zero, add_zero] at h ⊢
      rw [← hu, unpack_pack_parts]
      exact outcome_value hx h
    | finite t n f hn =>
      obtain ⟨-, hlow, -⟩ := canonical_iff.mp (canonical_parts hu).1
      obtain ⟨-, hlow', -⟩ := canonical_iff.mp (canonical_parts hv).1
      rw [hvx, hvy, hu, hv, number_add] at h ⊢
      refine outcome_normalize ?_ (le_min hlow hlow')
      exact_mod_cast nonneg_of_mul_nonneg_left h (zpow_pos (by norm_num) _)

/-- A difference from zero on is the exact difference, rounded. -/
theorem outcome_sub (hx : x.isFinite = true) (hy : y.isFinite = true) (h : value y ≤ value x) :
    Outcome (value x - value y) (parts (x - y)) := by
  rw [parts_sub_eq_add, sub_eq_add_neg, ← value_neg]
  refine outcome_add hx (isFinite_neg hy) ?_
  rw [value_neg]
  linarith

/-- A quotient from zero on is the exact quotient, rounded. -/
theorem outcome_div {n : ℕ} {f : ℤ} {hn : 0 < n} (hx : x.isFinite = true) (h : 0 ≤ value x)
    (hy : parts y = .finite .positive n f hn) : Outcome (value x / value y) (parts (x / y)) := by
  rw [parts_div, value, value, hy, number_positive]
  rcases zero_or_positive hx h with ⟨s, hu⟩ | ⟨m, e, hm, hu⟩
  · rw [hu, number_zero, zero_div]
    exact outcome_pack_zero _
  · rw [hu, number_positive]
    have hpos := div_pos (value_pos hm e) (value_pos hn f)
    by_cases hsmall : (m * 2 ^ e / (n * 2 ^ f) : ℚ) ≤ 2 ^ (-1075 : ℤ)
    · obtain ⟨k, t, accuracy, hdiv, hdescribes, hplace⟩ :=
        exists_div_describes e f .positive .positive hm hn
      rw [hdiv, roundWithAccuracy_eq_zero _ (isNearestEven_of_small hpos hsmall) hpos hdescribes
        hplace, unpack_pack_zero]
      exact .inr ⟨hsmall, _, rfl⟩
    · obtain ⟨k, t, hround⟩ := exists_roundsTo (not_le.mp hsmall)
      rw [div_finite _ _ hm hn hround]
      exact hround.outcome

end Operations

/-! ## The order of results -/

section Order

variable {w x y z : Float}

theorem le_iff_parts : x ≤ y ↔ (parts x).le (parts y) = true := by
  rw [le_iff_place, unpacked_le_iff]

theorem Outcome.zero_le {a : ℚ} (h : Outcome a (parts x)) : 0.0 ≤ x :=
  le_iff_parts.mpr (h.nonneg .positive)

theorem isNaN_or_zero_le_abs (x : Float) : x.isNaN = true ∨ 0.0 ≤ Scalar.abs x := by
  rw [isNaN_iff, le_iff_parts, parts_abs]
  cases parts x with
  | notANumber => exact .inl rfl
  | _ => exact .inr rfl

/-- Only zero has size zero. -/
theorem beq_zero_of_abs (h : Scalar.abs x ≤ 0.0) : (x == 0.0) = true := by
  rw [le_iff_parts, parts_abs] at h
  show (parts x).beq _ = true
  cases hu : parts x <;> rw [hu] at h
  case zero s => cases s <;> rfl
  all_goals cases h

theorem isNaN_or_zero_le_of_lostTo (h : LostTo .positive x) : x.isNaN = true ∨ 0.0 ≤ x := by
  rcases h with hinfinite | hnan
  · right
    rw [le_iff_parts, hinfinite]
    rfl
  · exact .inl (isNaN_iff.mpr hnan)

theorem not_isNaN_of_le (h : x ≤ y) : ¬ x.isNaN = true ∧ ¬ y.isNaN = true := by
  obtain ⟨p, hp, q, hq, -⟩ := le_iff_place.mp h
  rw [isNaN_iff, isNaN_iff]
  constructor <;> intro hnan
  · simp [hnan, place] at hp
  · simp [hnan, place] at hq

/-- Where two numbers are ordered and one is infinite, the upper one is above all others or the lower
one below. -/
theorem lostTo_of_le (h : y ≤ x) (hinfinite : ¬ (x.isFinite = true ∧ y.isFinite = true)) :
    LostTo .positive x ∨ LostTo .negative y := by
  change ¬ ((parts x).isFinite = true ∧ (parts y).isFinite = true) at hinfinite
  rw [le_iff_place] at h
  unfold LostTo Lost
  rcases hu : parts x with (_ | _) | _ | _ | ⟨(_ | _), m, e, hm⟩ <;>
  rcases hv : parts y with (_ | _) | _ | _ | ⟨(_ | _), n, f, hn⟩ <;>
  simp [hu, hv, place, UnpackedFloat.isFinite, Prod.Lex.toLex_le_toLex] at h hinfinite ⊢

/-- **What is taken from a larger number leaves a number from zero on**, unless both are infinite. -/
theorem isNaN_or_zero_le_sub (h : y ≤ x) : (x - y).isNaN = true ∨ 0.0 ≤ x - y := by
  by_cases hfinite : x.isFinite = true ∧ y.isFinite = true
  · obtain ⟨hx, hy⟩ := hfinite
    exact .inr (outcome_sub hx hy ((le_iff_value hy hx).mp h)).zero_le
  · apply isNaN_or_zero_le_of_lostTo
    rcases lostTo_of_le h hfinite with hx | hy
    · exact hx.sub_left y
    · exact hy.sub_right x

theorem le_infinity (hx : ¬ x.isNaN = true) (hy : parts y = .infinity .positive) : x ≤ y := by
  rw [isNaN_iff] at hx
  rw [le_iff_place, hy]
  rcases hu : parts x with (_ | _) | _ | _ | ⟨(_ | _), m, e, hm⟩ <;>
  simp [hu, place, Prod.Lex.toLex_le_toLex] at hx ⊢

theorem not_lostTo_negative (h : 0.0 ≤ x) : ¬ LostTo .negative x := by
  rw [le_iff_parts] at h
  rintro (hinfinite | hnan)
  · rw [hinfinite] at h
    exact absurd h (by decide)
  · rw [hnan] at h
    exact absurd h (by decide)

theorem isFinite_or_infinity (h : 0.0 ≤ x) :
    x.isFinite = true ∨ parts x = .infinity .positive := by
  by_cases hx : x.isFinite = true
  · exact .inl hx
  · right
    rcases lostTo_of_le h (fun hfinite => hx hfinite.1) with hlost | hlost
    · exact hlost.resolve_right fun hnan => (not_isNaN_of_le h).2 (isNaN_iff.mpr hnan)
    · exact absurd hlost (not_lostTo_of_isFinite rfl)

/-- Below a finite number there is no infinity, from zero on. -/
theorem values_or_infinity (hx : 0.0 ≤ x) (h : x ≤ y) :
    x.isFinite = true ∧ y.isFinite = true ∧ 0 ≤ value x ∧ value x ≤ value y ∨
      parts y = .infinity .positive := by
  rcases isFinite_or_infinity (le_trans hx h) with hy | hy
  · have hxfinite : x.isFinite = true := by
      by_contra hinfinite
      rcases lostTo_of_le h (fun hfinite => hinfinite hfinite.2) with hlost | hlost
      · exact not_lostTo_of_isFinite hy hlost
      · exact not_lostTo_negative hx hlost
    exact .inl ⟨hxfinite, hy, (le_iff_value rfl hxfinite).mp hx,
      (le_iff_value hxfinite hy).mp h⟩
  · exact .inr hy

/-- Numbers from zero on do not cancel. -/
theorem not_isNaN_add (hx : 0.0 ≤ x) (hy : 0.0 ≤ y) : ¬ (x + y).isNaN = true := by
  rw [isNaN_add_iff]
  rintro (hnan | hnan | ⟨s, hinfinite, hinfinite'⟩)
  · exact (not_isNaN_of_le hx).2 hnan
  · exact (not_isNaN_of_le hy).2 hnan
  · cases s with
    | negative => exact not_lostTo_negative hx (.inl hinfinite)
    | positive => exact not_lostTo_negative hy (.inl hinfinite')

theorem add_eq_infinity (hx : 0.0 ≤ x) (hy : 0.0 ≤ y)
    (h : parts x = .infinity .positive ∨ parts y = .infinity .positive) :
    parts (x + y) = .infinity .positive := by
  have hlost : LostTo .positive (x + y) := by
    rcases h with h | h
    · exact LostTo.add_left (.inl h) y
    · exact LostTo.add_right x (.inl h)
  exact hlost.resolve_right fun hnan => not_isNaN_add hx hy (isNaN_iff.mpr hnan)

/-- **A sum of numbers from zero on grows with its terms.** -/
theorem add_mono (hw : 0.0 ≤ w) (hy : 0.0 ≤ y) (hwx : w ≤ x) (hyz : y ≤ z) :
    w + y ≤ x + z := by
  have hx : 0.0 ≤ x := le_trans hw hwx
  have hz : 0.0 ≤ z := le_trans hy hyz
  rcases values_or_infinity hw hwx with ⟨hwf, hxf, hvw, hvwx⟩ | hinfinite
  · rcases values_or_infinity hy hyz with ⟨hyf, hzf, hvy, hvyz⟩ | hinfinite
    · exact le_iff_parts.mpr ((outcome_add hwf hyf (by linarith)).le
        (outcome_add hxf hzf (by linarith)) (add_le_add hvwx hvyz))
    · exact le_infinity (not_isNaN_add hw hy) (add_eq_infinity hx hz (.inr hinfinite))
  · exact le_infinity (not_isNaN_add hw hy) (add_eq_infinity hx hz (.inl hinfinite))

theorem zero_le_add (hx : 0.0 ≤ x) (hy : 0.0 ≤ y) : 0.0 ≤ x + y := by
  have hzero : (0.0 : Float) ≤ 0.0 := by decide
  have hsum : (0.0 : Float) ≤ 0.0 + 0.0 := by decide
  exact le_trans hsum (add_mono hzero hzero hx hy)

/-- **A quotient of numbers from zero on grows with its numerator.** -/
theorem div_mono {n : ℕ} {f : ℤ} {hn : 0 < n} (hw : 0.0 ≤ w) (hwx : w ≤ x)
    (hy : parts y = .finite .positive n f hn) : w / y ≤ x / y := by
  rcases values_or_infinity hw hwx with ⟨hwf, hxf, hvw, hvwx⟩ | hinfinite
  · refine le_iff_parts.mpr ((outcome_div hwf hvw hy).le
      (outcome_div hxf (hvw.trans hvwx) hy) ?_)
    have hvy : 0 < value y := by
      rw [value, hy]
      exact value_pos hn f
    exact div_le_div_of_nonneg_right hvwx hvy.le
  · have hnumber : ¬ (w / y).isNaN = true := by
      rw [isNaN_div_iff hy]
      exact (not_isNaN_of_le hwx).1
    refine le_infinity hnumber ?_
    rw [parts_div, hinfinite, hy]
    exact unpack_pack_infinity .positive

end Order

end FluidAnalysis.Double
