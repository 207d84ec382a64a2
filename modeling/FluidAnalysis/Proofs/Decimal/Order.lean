import FluidAnalysis.Proofs.Decimal.ReadBack
import FluidAnalysis.Proofs.Double.Monotone

/-!
# General notation keeps the order

Rounding to significant digits keeps the order of numbers, so the larger of two doubles is never
written as the smaller number. It may be written as the same number, and then in the same way,
because the text of a double depends on its rounded digits only.

* `RoundsTo.mono` — rounding keeps the order
* `magnitudeGeneral_congr` — doubles with the same rounded digits have the same text
* `general_le` — the texts of two positive doubles
-/

namespace FluidAnalysis.Decimal

open Float.Model
open Double (parts value)

/-! ## Rounded numbers -/

section

variable {count : ℕ} {a b : ℚ} {s t : Significant}

/-- **Rounding keeps the order.** A number with a larger leading place is rounded at or above the
power of ten that bounds the other one. -/
theorem RoundsTo.mono (hcount : 0 < count) (ha : 0 < a) (hs : RoundsTo count a s)
    (ht : RoundsTo count b t) (h : a ≤ b) : s.value count ≤ t.value count := by
  obtain ⟨m, hm, hmvalue⟩ := hs.nearest
  obtain ⟨n, hn, hnvalue⟩ := ht.nearest
  rw [← hmvalue, ← hnvalue]
  rcases (Int.log_mono_right (b := 10) ha h).eq_or_lt with hsame | hless
  · have hscaled : a * 10 ^ ((count : ℤ) - 1 - Int.log 10 a)
        ≤ b * 10 ^ ((count : ℤ) - 1 - Int.log 10 b) := by
      rw [hsame]
      gcongr
    have hmn : (m : ℚ) ≤ n := by exact_mod_cast Double.isNearestEven_mono hm hn hscaled
    rw [hsame]
    gcongr
  · have hm' : (m : ℚ) ≤ (10 ^ count : ℕ) := by
      exact_mod_cast hm.le_of_ge (scaled_bounds ha hcount).2.le
    have hn' : ((10 ^ (count - 1) : ℕ) : ℚ) ≤ n := by
      exact_mod_cast hn.le_of_le (scaled_bounds (ha.trans_le h) hcount).1
    calc (m : ℚ) * 10 ^ (Int.log 10 a + 1 - count)
        ≤ (10 ^ count : ℕ) * 10 ^ (Int.log 10 a + 1 - count) := by gcongr
      _ = (10 ^ (count - 1) : ℕ) * 10 ^ (Int.log 10 a + 1 + 1 - count) := by
        rw [cast_pow_ten, cast_pow_ten, ← zpow_add₀ (by norm_num), ← zpow_add₀ (by norm_num)]
        congr 1
        omega
      _ ≤ n * 10 ^ (Int.log 10 b + 1 - count) := by
        gcongr
        · norm_num
        · omega

/-- The written exponent is the leading place of the written number. -/
theorem RoundsTo.log_value (hcount : 0 < count) (h : RoundsTo count a s) :
    Int.log 10 (s.value count) = s.exponent := by
  have hpos : (0 : ℚ) < 10 ^ (s.exponent + 1 - count) := zpow_pos (by norm_num) _
  have hlow : ((10 ^ (count - 1) : ℕ) : ℚ) ≤ s.digits := by exact_mod_cast h.le_digits
  have hhigh : (s.digits : ℚ) < (10 ^ count : ℕ) := by exact_mod_cast h.digits_lt
  have hone : (10 : ℚ) ^ s.exponent
      = (10 ^ (count - 1) : ℕ) * 10 ^ (s.exponent + 1 - count) := by
    rw [cast_pow_ten, ← zpow_add₀ (by norm_num)]
    congr 1
    omega
  have hten : (10 : ℚ) ^ (s.exponent + 1) = (10 ^ count : ℕ) * 10 ^ (s.exponent + 1 - count) := by
    rw [cast_pow_ten, ← zpow_add₀ (by norm_num)]
    congr 1
    omega
  refine log_eq_of_bounds (b := 10) (by decide) ?_ ?_
  · rw [Nat.cast_ofNat, hone]
    exact mul_le_mul_of_nonneg_right hlow hpos.le
  · rw [Nat.cast_ofNat, hten]
    exact mul_lt_mul_of_pos_right hhigh hpos

/-- A number of so many digits is written in one way only. -/
theorem RoundsTo.eq_of_value_eq (hcount : 0 < count) (hs : RoundsTo count a s)
    (ht : RoundsTo count b t) (h : s.value count = t.value count) : s = t := by
  have hexponent : s.exponent = t.exponent := by
    rw [← hs.log_value hcount, ← ht.log_value hcount, h]
  have hdigits : s.digits = t.digits := by
    rw [Significant.value, Significant.value, hexponent] at h
    exact_mod_cast mul_right_cancel₀ (zpow_ne_zero _ (by norm_num)) h
  cases s
  cases t
  obtain ⟨rfl, rfl⟩ : _ ∧ _ := ⟨hexponent, hdigits⟩
  rfl

end

/-! ## Texts -/

/-- **The text of a double depends on its rounded digits only.** -/
theorem magnitudeGeneral_congr {count : ℕ} {b c : Binary} {s : Significant} (hcount : 0 < count)
    (hb : b.mantissa ≠ 0) (hc : c.mantissa ≠ 0) (h : RoundsTo count b.magnitude s)
    (h' : RoundsTo count c.magnitude s) : magnitudeGeneral count b = magnitudeGeneral count c := by
  have hs := (toSignificant_magnitude hcount hb).unique hcount (Binary.magnitude_pos hb) h
  have hs' := (toSignificant_magnitude hcount hc).unique hcount (Binary.magnitude_pos hc) h'
  unfold magnitudeGeneral
  simp only [hs, hs']
  split
  · rfl
  · next hx =>
    have hlt : s.exponent < count := by omega
    rw [magnitudeFixed_eq hcount hb h hlt, magnitudeFixed_eq hcount hc h' hlt]

/-- A double above zero and below another one has a positive magnitude. -/
theorem exists_read_positive {x y : Float} (hx : 0 < x) (hxy : x < y) :
    ∃ b, read x = .finite b ∧ b.negative = false ∧ b.mantissa ≠ 0 ∧ b.magnitude = value x ∧
      x.isFinite = true := by
  obtain ⟨p, hp, q, hq, hpq⟩ := Double.lt_iff_place.mp hx
  obtain ⟨q', hq', r, hr, hqr⟩ := Double.lt_iff_place.mp hxy
  obtain rfl : q = q' := Option.mem_unique hq hq'
  have hzero : Double.place (parts 0) = some (toLex (0, toLex (0, 0))) := by decide
  obtain rfl : toLex (0, toLex (0, 0)) = p := Option.some.inj (hzero.symm.trans hp)
  have hread := read_eq_reading x
  rcases hparts : parts x with (_ | _) | _ | _ | ⟨(_ | _), m, e, hm⟩
  all_goals rw [hparts] at hq hread
  case finite.positive =>
    refine ⟨_, hread, rfl, hm.ne', ?_, ?_⟩
    · rw [value, hparts, Double.number_positive]
      rfl
    · show (parts x).isFinite = true
      rw [hparts]
      rfl
  case infinity.positive =>
    cases hq
    exact absurd (Double.place_le_infinity hr) (not_le.mpr hqr)
  -- the others are no numbers, or not above zero
  all_goals cases hq
  all_goals simp [Prod.Lex.toLex_lt_toLex] at hpq

/-- The number that a text without a sign stands for, before it is rounded to a double. -/
def written? (text : String) : Option ℚ :=
  (readExact? text.toList).map Exact.value

/-- **The larger of two positive doubles is not written as the smaller number.** If both are written
as one number, they are written alike. -/
theorem general_le {x y z : Float} (hx : 0 < x) (hxy : x < y) (hyz : y < z) (significant : ℕ) :
    ∃ p q, written? (general x significant) = some p ∧ written? (general y significant) = some q ∧
      p ≤ q ∧ (p = q → general x significant = general y significant) := by
  have hcount : 0 < max significant 1 := Nat.lt_of_lt_of_le Nat.one_pos (Nat.le_max_right _ _)
  obtain ⟨b, hb, hbsign, hbzero, hbvalue, hbfinite⟩ := exists_read_positive hx hxy
  obtain ⟨c, hc, hcsign, hczero, hcvalue, hcfinite⟩ :=
    exists_read_positive (Double.lt_trans hx hxy) hyz
  have hs := toSignificant_magnitude hcount hbzero
  have ht := toSignificant_magnitude hcount hczero
  obtain ⟨-, d, hd, hdvalue⟩ := magnitudeGeneral_cases hcount hbzero hs
  obtain ⟨-, e, he, hevalue⟩ := magnitudeGeneral_cases hcount hczero ht
  have htext := general_toList significant hb hbzero
  have htext' := general_toList significant hc hczero
  simp only [hbsign, hcsign, Bool.false_eq_true, if_false, List.nil_append] at htext htext'
  have hle : b.magnitude ≤ c.magnitude := by
    rw [hbvalue, hcvalue, ← Double.le_iff_value hbfinite hcfinite]
    exact Double.le_of_lt hxy
  refine ⟨d.value, e.value, by rw [written?, htext, hd]; rfl, by rw [written?, htext', he]; rfl, ?_,
    fun heq => ?_⟩
  · rw [hdvalue, hevalue]
    exact hs.mono hcount (Binary.magnitude_pos hbzero) ht hle
  · rw [hdvalue, hevalue] at heq
    have hsame := hs.eq_of_value_eq hcount ht heq
    rw [← String.toList_inj, htext, htext',
      magnitudeGeneral_congr hcount hbzero hczero hs (hsame ▸ ht)]

end FluidAnalysis.Decimal
