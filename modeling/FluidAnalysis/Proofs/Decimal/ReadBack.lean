import Mathlib
import FluidAnalysis.Proofs.Decimal.Word
import FluidAnalysis.Proofs.Double.Scientific

/-!
# Reading back what was written

A double that is written with seventeen significant digits is read again as the same double. The
decimal that is written lies within half a unit of its seventeenth digit from the double, which is
less than one part in `2 ^ 54`, because `2 ^ 53 < 10 ^ 16`; and a decimal as near as that is read as
the double.

* `read_eq_reading` — the two ways to take a double apart agree
* `RoundsTo.near` — how near the decimal is
* `read?_general` — seventeen digits are enough, and sixteen are not
-/

namespace FluidAnalysis.Decimal

open Float.Model
open Double (parts canonical_parts)
open UnpackedFloat (Sign)

/-! ## The bits of a double -/

/-- What the parts of a double stand for. -/
def reading : UnpackedFloat → Reading
  | .notANumber => .nan
  | .infinity s => .infinite (s == .negative)
  | .zero s => .finite ⟨s == .negative, 0, -1074⟩
  | .finite s m e _ => .finite ⟨s == .negative, m, e⟩

section Bits

variable (x : Float)

theorem toNat_mantissa :
    (@UnpackedFloat.unpackMantissa .binary64 x.toModel.toBits.toBitVec).toNat
      = x.toBits.toNat % 2 ^ 52 := by
  rw [UnpackedFloat.unpackMantissa, BitVec.toNat_cast, BitVec.extractLsb_toNat,
    Nat.shiftRight_eq_div_pow, pow_zero, Nat.div_one]
  rfl

theorem toNat_exponent :
    (@UnpackedFloat.unpackExponent .binary64 x.toModel.toBits.toBitVec).toNat
      = x.toBits.toNat / 2 ^ 52 % 2 ^ 11 := by
  rw [UnpackedFloat.unpackExponent, BitVec.toNat_cast, BitVec.extractLsb_toNat,
    Nat.shiftRight_eq_div_pow]
  rfl

theorem toNat_sign :
    (@UnpackedFloat.unpackSign .binary64 x.toModel.toBits.toBitVec).toNat
      = x.toBits.toNat / 2 ^ 63 := by
  rw [UnpackedFloat.unpackSign, BitVec.toNat_cast, BitVec.extractLsb_toNat,
    Nat.shiftRight_eq_div_pow]
  have hbits : x.toBits.toNat / 2 ^ 63 < 2 := by
    have := x.toBits.toNat_lt
    omega
  exact Nat.mod_eq_of_lt hbits

theorem ofBitVec_beq_negative (b : BitVec 1) : (Sign.ofBitVec b == .negative) = (b.toNat == 1) := by
  revert b
  decide

/-- **The digits of a double are read off the parts on which the operations work.** -/
theorem read_eq_reading : read x = reading (parts x) := by
  have hbias : Format.binary64.exponentBias = 1023 := rfl
  obtain ⟨b, hb⟩ : ∃ b, @UnpackedFloat.unpackExponent .binary64 x.toModel.toBits.toBitVec = b :=
    ⟨_, rfl⟩
  obtain ⟨v, hv⟩ : ∃ v, @UnpackedFloat.unpackMantissa .binary64 x.toModel.toBits.toBitVec = v :=
    ⟨_, rfl⟩
  have hfields : fields x =
      (Sign.ofBitVec (@UnpackedFloat.unpackSign .binary64 x.toModel.toBits.toBitVec) == .negative,
        b.toNat, v.toNat) := by
    rw [← hb, ← hv, ofBitVec_beq_negative, toNat_sign, toNat_exponent, toNat_mantissa]
    rfl
  have htop : b.toNat = 2047 ↔ b = -1#11 := BitVec.toNat_inj (y := -1#11)
  have hbottom : b.toNat = 0 ↔ b = 0#11 := BitVec.toNat_inj (y := 0#11)
  have hnone : v.toNat = 0 ↔ v = 0#52 := BitVec.toNat_inj (y := 0#52)
  unfold read parts Float.Model.unpack UnpackedFloat.unpack
  simp only [hfields, hbias, hb, hv, beq_iff_eq, htop, hbottom, hnone]
  split_ifs with h₁ h₂ h₃ h₄
  · rfl
  · rfl
  · rw [hnone.mpr h₄]
    rfl
  · rw [hbottom.mpr h₃]
    rfl
  · have hmantissa : v.toNat + Nat.pow 2 52 = (1#1 ++ v).toNat := by
      rw [Double.toNat_leading_append, Nat.add_comm]
      rfl
    rw [hmantissa]
    rfl

/-- A double is what its parts are packed to; there is only one that is no number. -/
theorem pack_parts : .ofModel (pack (parts x)) = x := by
  have hbits : UnpackedFloat.pack .binary64 (parts x) = x.toModel.toBits.toBitVec :=
    UnpackedFloat.pack_unpack_of_valid x.toModel.valid
  obtain ⟨⟨bits, valid⟩⟩ := x
  simp only [Float.ofModel.injEq, pack, Float.Model.mk.injEq]
  exact congrArg UInt64.ofBitVec hbits

end Bits

/-- Changing the sign of what was packed, if nothing was lost. -/
theorem neg_ofModel {u : UnpackedFloat} (h : (pack u).unpack = u) :
    -(Float.ofModel (pack u)) = .ofModel (pack u.neg) := by
  show Float.ofModel (pack (pack u).unpack.neg) = _
  rw [h]

/-! ## Signed texts -/

/-- A digit has no other case. -/
theorem toLower_of_isDigit {c : Char} (h : c.isDigit) : c.toLower = c := by
  obtain ⟨-, hhigh⟩ := isDigit_toNat h
  refine dif_neg fun hupper => ?_
  have hlow : 'A'.toNat ≤ c.toNat := UInt32.le_iff_toNat_le.mp hupper.1
  have hA : 'A'.toNat = 65 := rfl
  omega

/-- A text that starts with a digit is none of the words for infinity and for no number. -/
theorem readMagnitude?_of_digit {text : List Char} (h : ∃ c ∈ text.head?, c.isDigit) :
    readMagnitude? text = (readExact? text).map Exact.toFloat := by
  have hword : ∀ word : String, word.toList.head?.any Char.isDigit = false →
      (String.ofList (text.map Char.toLower) == word) = false := by
    intro word hword
    rw [beq_eq_false_iff_ne]
    rintro rfl
    obtain ⟨c, hc, hdigit⟩ := h
    rw [String.toList_ofList, List.head?_map, Option.mem_def.mp hc] at hword
    simp only [Option.map_some, Option.any_some, toLower_of_isDigit hdigit, hdigit] at hword
    cases hword
  unfold readMagnitude?
  simp only [hword "inf" (by decide), hword "infinity" (by decide), hword "nan" (by decide)]
  rfl

theorem readChars?_signed {text : List Char} {d : Exact} (negative : Bool) (h : IsNumberText text)
    (hread : readExact? text = some d) :
    readChars? ((if negative then ['-'] else []) ++ text)
      = some (if negative then -d.toFloat else d.toFloat) := by
  have hmagnitude : readMagnitude? text = some d.toFloat := by
    rw [readMagnitude?_of_digit h.first, hread, Option.map_some]
  cases negative with
  | false =>
    show readChars? text = some d.toFloat
    rw [readChars?, takeSign_of_digit h.first]
    simp only [hmagnitude]
    rfl
  | true =>
    show readChars? ('-' :: text) = some (-d.toFloat)
    rw [readChars?, takeSign]
    simp only [hmagnitude]
    rfl

/-! ## The distance -/

/-- **A number with at least seventeen digits is nearer than one part in `2 ^ 54`.** -/
theorem RoundsTo.near {count : ℕ} {a : ℚ} {s : Significant} (h : RoundsTo count a s) (ha : 0 < a)
    (hcount : 17 ≤ count) : 2 ^ 54 * |s.value count - a| < a := by
  obtain ⟨n, hnear, hvalue⟩ := h.nearest
  -- one unit of the last digit
  obtain ⟨u, hu⟩ : ∃ u : ℚ, 10 ^ (Int.log 10 a + 1 - count) = u := ⟨_, rfl⟩
  have hupos : 0 < u := hu ▸ zpow_pos (by norm_num) _
  have hinv : a * 10 ^ ((count : ℤ) - 1 - Int.log 10 a) * u = a := by
    have hzero : (count : ℤ) - 1 - Int.log 10 a + (Int.log 10 a + 1 - count) = 0 := by ring
    rw [← hu, mul_assoc, ← zpow_add₀ (by norm_num), hzero, zpow_zero, mul_one]
  have hdistance : |s.value count - a| ≤ 1 / 2 * u := by
    calc |s.value count - a| = |a * 10 ^ ((count : ℤ) - 1 - Int.log 10 a) - n| * u := by
          rw [← abs_of_pos hupos, ← abs_mul, sub_mul, hinv, ← hvalue, hu, abs_sub_comm]
      _ ≤ 1 / 2 * u := by
          gcongr
          exact hnear.near
  have hsmall : (2 : ℚ) ^ 53 * u < a := by
    calc (2 : ℚ) ^ 53 * u < 10 ^ 16 * u := by gcongr; norm_num
      _ ≤ 10 ^ ((count : ℤ) - 1) * u := by
        gcongr
        rw [← zpow_natCast]
        exact zpow_le_zpow_right₀ (by norm_num) (by push_cast; omega)
      _ = 10 ^ Int.log 10 a := by
        rw [← hu, ← zpow_add₀ (by norm_num)]
        congr 1
        ring
      _ ≤ a := zpow_log_le ha
  linarith

/-! ## Reading back -/

/-- A double other than zero is read back from its sign and any decimal that is rounded to its
magnitude. -/
theorem signed_toFloat {x : Float} {d : Exact} {s : Sign} {m : ℕ} {e : ℤ} {hm : 0 < m}
    (hx : parts x = .finite s m e hm) (hd : 0 < d.coefficient)
    (h : Double.RoundsTo d.value m e) :
    (if s == .negative then -d.toFloat else d.toFloat) = x := by
  obtain ⟨hcanonical, hlarge⟩ := canonical_parts hx
  rw [d.toFloat_eq hd h hlarge, ← pack_parts x, hx]
  cases s with
  | positive => rfl
  | negative =>
    refine neg_ofModel ?_
    rw [Double.unpack_pack_finite _ _ hcanonical, if_neg (by omega)]

theorem read?_general_of_finite {x : Float} {s : Sign} {m : ℕ} {e : ℤ} {hm : 0 < m}
    (hx : parts x = .finite s m e hm) {count : ℕ} (hcount : 17 ≤ count) :
    read? (general x count) = some x := by
  have hread : read x = .finite ⟨s == .negative, m, e⟩ := by rw [read_eq_reading, hx]; rfl
  have hmax : max count 1 = count := by omega
  have hround := toSignificant_magnitude (b := ⟨s == .negative, m, e⟩) (by omega : 0 < count) hm.ne'
  obtain ⟨hform, d, hexact, hvalue⟩ := magnitudeGeneral_cases (by omega) hm.ne' hround
  have htext : IsNumberText (magnitudeGeneral count ⟨s == .negative, m, e⟩) := by
    split at hform
    · exact hform.isNumberText
    · exact hform.isNumberText
  have hnear := hround.near (Binary.magnitude_pos hm.ne') hcount
  rw [← hvalue] at hnear
  have hd : 0 < d.coefficient := by
    refine Nat.pos_of_ne_zero fun hzero => ?_
    have hpos : 0 < Binary.magnitude ⟨s == .negative, m, e⟩ := Binary.magnitude_pos hm.ne'
    rw [Exact.value, hzero, Nat.cast_zero, zero_mul, zero_sub, abs_neg, abs_of_pos hpos] at hnear
    linarith
  rw [read?, general_toList count hread hm.ne', hmax, readChars?_signed _ htext hexact]
  exact congrArg some (signed_toFloat hx hd (.of_near hm (canonical_parts hx).1 hnear))

theorem read?_of_parts {x : Float} {u : UnpackedFloat} {text : String} (hx : parts x = u)
    (h : read? text = some (.ofModel (pack u))) : read? text = some x := by
  rw [h, ← hx, pack_parts]

/-- **Seventeen digits identify a double.** Whatever the double, its text with seventeen digits or
more is read as the same double: its sign, also that of zero, its exponent and its mantissa, also
where both are smallest, and the values that are no finite numbers. Sixteen digits are not enough. -/
theorem read?_general :
    (∀ (x : Float) (k : ℕ), read? (general x (17 + k)) = some x) ∧
      ∃ x y, x ≠ y ∧ general x 16 = general y 16 := by
  refine ⟨fun x k => ?_, 0.3, 0.30000000000000004, by decide, by decide⟩
  have hread := read_eq_reading x
  cases hx : parts x with
  | notANumber =>
    have htext : general x (17 + k) = "nan" := by rw [general, hread, hx]; rfl
    rw [htext]
    exact read?_of_parts hx rfl
  | infinity s =>
    have htext : general x (17 + k) = if s == .negative then "-inf" else "inf" := by
      rw [general, hread, hx]; rfl
    rw [htext]
    exact read?_of_parts hx (by cases s <;> rfl)
  | zero s =>
    have htext : general x (17 + k) = if s == .negative then "-0" else "0" := by
      rw [general, hread, hx]
      cases s <;> rfl
    rw [htext]
    exact read?_of_parts hx (by cases s <;> rfl)
  | finite s m e hm => exact read?_general_of_finite hx (Nat.le_add_right 17 k)

end FluidAnalysis.Decimal
