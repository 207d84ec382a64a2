import Mathlib.Algebra.Order.Floor.Ring
import Mathlib.Data.Rat.Cast.OfScientific
import Mathlib.Tactic.NormNum.OfScientific
import FluidAnalysis.Numeric.Summary

/-!
# Exact scalars

Every ordered field has the operations of a scalar, and with them the numerical methods can be read
as exact arithmetic. Nothing is infinite or undefined there, and the total order is the order of the
field. How a number of the field is turned into an integer is left open, and so are the elementary
functions.

The order need not be compatible with the operations. Where a statement does not ask for that, it is
about every field.
-/

namespace FluidAnalysis.Exact

/-- The passage from a field to the integers, about which the laws of a field say nothing. -/
class IntegerParts (K : Type) where
  round : K → K
  ceil : K → Int
  trunc : K → Int
  toNat : K → Nat

instance integerPartsOfFloor {K : Type} [Field K] [LinearOrder K] [FloorRing K] :
    IntegerParts K where
  round x := if 0 ≤ x then (⌊x + 1 / 2⌋ : K) else (⌈x - 1 / 2⌉ : K)
  ceil x := ⌈x⌉
  trunc x := if 0 ≤ x then ⌊x⌋ else ⌈x⌉
  toNat x := ⌊x⌋.toNat

/-- An ordered field as scalars. -/
scoped instance scalar {K : Type} [Field K] [LinearOrder K] [IntegerParts K] : Scalar K where
  decLt := inferInstance
  decLe := inferInstance
  beq x y := decide (x = y)
  isFinite _ := true
  abs x := |x|
  round := IntegerParts.round
  ceil := IntegerParts.ceil
  trunc := IntegerParts.trunc
  toNat := IntegerParts.toNat
  totalLe x y := decide (x ≤ y)

/-- The elementary functions, about which the laws of a field say nothing. -/
class Elementary (K : Type) where
  pi : K
  exp : K → K
  ln : K → K
  log10 : K → K
  sin : K → K
  sqrt : K → K

/-- A field with elementary functions as scalars. -/
scoped instance analytic {K : Type} [Field K] [LinearOrder K] [IntegerParts K] [Elementary K] :
    Analytic K where
  pi := Elementary.pi
  exp := Elementary.exp
  ln := Elementary.ln
  log10 := Elementary.log10
  sin := Elementary.sin
  sqrt := Elementary.sqrt

variable {K : Type} [Field K] [LinearOrder K] [IntegerParts K]

theorem scalarAbs_eq (x : K) : Scalar.abs x = |x| := rfl

theorem scalarTotalLe_iff {x y : K} : Scalar.totalLe x y = true ↔ x ≤ y := decide_eq_true_iff

theorem literalZero_eq [IsStrictOrderedRing K] : (0.0 : K) = 0 := by norm_num

/-- In every field, whatever its characteristic. -/
theorem literalOne_eq : (1.0 : K) = 1 := by
  have hone : (OfScientific.ofScientific 10 true 1 : ℚ≥0) = 1 := by norm_num
  rw [← NNRat.cast_ofScientific, hone, NNRat.cast_one]

/-- The sum from the left is the sum. -/
theorem scalarSum_eq [IsStrictOrderedRing K] (values : List K) : Numeric.sum values = values.sum := by
  have hstart : (-0.0 : K) = 0 := by norm_num
  rw [Numeric.sum, hstart, List.sum_eq_foldl]

theorem scalarMean_eq [IsStrictOrderedRing K] {values : List K} (hne : values ≠ []) :
    Numeric.mean values = values.sum / (values.length : K) := by
  rw [Numeric.mean, if_neg (by simpa using hne), scalarSum_eq]

/-! ## Extremes -/

theorem larger_eq_max (x y : K) : Numeric.larger x y = max x y := by
  have hself : (x == x) = true := decide_eq_true rfl
  rw [Numeric.larger, if_pos hself]
  split_ifs with h
  · exact (max_eq_right h.le).symm
  · exact (max_eq_left (not_lt.mp h)).symm

theorem smaller_eq_min (x y : K) : Numeric.smaller x y = min x y := by
  have hself : (x == x) = true := decide_eq_true rfl
  rw [Numeric.smaller, if_pos hself]
  split_ifs with h
  · exact (min_eq_right h.le).symm
  · exact (min_eq_left (not_lt.mp h)).symm

/-- Every element of a field is a number. -/
theorem filter_numbers (values : List K) : values.filter (fun x => x == x) = values := by
  rw [List.filter_eq_self]
  intro x _
  exact decide_eq_true rfl

theorem isGreatest_maximum {values : List K} (hne : values ≠ []) :
    IsGreatest {x | x ∈ values} (Numeric.maximum values) := by
  obtain ⟨first, rest, rfl⟩ := List.exists_cons_of_ne_nil hne
  have hmax : (first :: rest).max? = some (Numeric.maximum (first :: rest)) := by
    unfold Numeric.maximum
    rw [filter_numbers, List.max?_cons', funext₂ larger_eq_max]
  exact List.max?_eq_some_iff.mp hmax

theorem isLeast_minimum {values : List K} (hne : values ≠ []) :
    IsLeast {x | x ∈ values} (Numeric.minimum values) := by
  obtain ⟨first, rest, rfl⟩ := List.exists_cons_of_ne_nil hne
  have hmin : (first :: rest).min? = some (Numeric.minimum (first :: rest)) := by
    unfold Numeric.minimum
    rw [filter_numbers, List.min?_cons', funext₂ smaller_eq_min]
  exact List.min?_eq_some_iff.mp hmin

end FluidAnalysis.Exact
