import Mathlib
import FluidAnalysis.LennardJones.EntropyRun
import FluidAnalysis.Proofs.Exact
import FluidAnalysis.Proofs.Numeric.Extremes

/-!
# Errors of a curve

The largest deviation of a curve bounds every deviation that is a number. So if it is zero, the curve
agrees with the benchmark wherever the two can be compared. In exact arithmetic it also bounds the
mean (`mean_le_max`). On doubles the mean is rounded, and of equal deviations it can come out above
them; what bounds it then is the mean of as many largest deviations, rounded in the same way.

* `isExtreme_max` — the largest deviation, on doubles
* `mean_le_max` — exact arithmetic
* `curveError_mean_le` — doubles

Main statement: `curveError_bounds`.
-/

namespace FluidAnalysis.LennardJones

open Numeric

/-! ## Deviations -/

section Deviations

variable {α : Type} [Scalar α] {benchmark estimate : List α}

/-- Benchmark less estimate, at each temperature. -/
def differences (benchmark estimate : List α) : List α :=
  List.zipWith (· - ·) benchmark estimate

theorem deviations_eq (benchmark estimate : List α) :
    deviations benchmark estimate = (differences benchmark estimate).map Scalar.abs := by
  rw [differences, List.map_zipWith]
  exact List.map_zip_eq_zipWith

theorem length_drop_deviations (hlength : benchmark.length = estimate.length) :
    ((deviations benchmark estimate).drop 1).length = benchmark.length - 1 := by
  simp [deviations, hlength]

end Deviations

/-! ## Exact arithmetic -/

section Exact

open Exact

variable {K : Type} [Field K] [LinearOrder K] [IsStrictOrderedRing K] [IntegerParts K]

theorem isGreatest_max (benchmark estimate : List K) :
    IsGreatest {x | x ∈ 0 :: deviations benchmark estimate} (curveError benchmark estimate).max := by
  have hmax : maximum (0 :: deviations benchmark estimate) = (curveError benchmark estimate).max := by
    unfold maximum curveError
    rw [filter_numbers, literalZero_eq]
  rw [← hmax]
  exact isGreatest_maximum (List.cons_ne_nil _ _)

/-- **No mean is above the largest deviation**, if it is not rounded. -/
theorem mean_le_max {benchmark estimate : List K} (hlength : benchmark.length = estimate.length)
    (htwo : 2 ≤ benchmark.length) :
    (curveError benchmark estimate).mean ≤ (curveError benchmark estimate).max := by
  have hgreatest := isGreatest_max benchmark estimate
  have hdrop := length_drop_deviations hlength
  have hne : (deviations benchmark estimate).drop 1 ≠ [] := by
    apply List.ne_nil_of_length_pos
    omega
  have hcount : (0 : K) < ((deviations benchmark estimate).drop 1).length :=
    Nat.cast_pos.mpr (List.length_pos_iff.mpr hne)
  have hsum : ((deviations benchmark estimate).drop 1).sum
      ≤ ((deviations benchmark estimate).drop 1).length • (curveError benchmark estimate).max :=
    List.sum_le_card_nsmul _ _ fun x hx =>
      hgreatest.2 (List.mem_cons_of_mem _ (List.mem_of_mem_drop hx))
  show mean ((deviations benchmark estimate).drop 1) ≤ _
  rw [scalarMean_eq hne, div_le_iff₀' hcount, ← nsmul_eq_mul]
  exact hsum

end Exact

/-! ## Doubles -/

section Doubles

variable {benchmark estimate : List Float}

theorem isExtreme_max (benchmark estimate : List Float) :
    IsExtreme (· ≤ ·) (0.0 :: deviations benchmark estimate) (curveError benchmark estimate).max :=
  isExtreme_foldl_larger (by decide) _

theorem difference_le_max {d : Float} (hd : d ∈ differences benchmark estimate) :
    d.isNaN = true ∨ Scalar.abs d ≤ (curveError benchmark estimate).max := by
  have hmem : Scalar.abs d ∈ deviations benchmark estimate := by
    rw [deviations_eq]
    exact List.mem_map_of_mem hd
  rw [← Double.isNaN_abs_iff]
  exact (isExtreme_max benchmark estimate).bound _ (List.mem_cons_of_mem _ hmem)

theorem zero_le_of_mem_deviations {x : Float} (hx : x ∈ deviations benchmark estimate) :
    x.isNaN = true ∨ 0.0 ≤ x := by
  rw [deviations_eq] at hx
  obtain ⟨d, -, rfl⟩ := List.mem_map.mp hx
  rw [Double.isNaN_abs_iff]
  exact Double.isNaN_or_zero_le_abs d

/-- The mean is at most the mean of as many largest deviations. -/
theorem curveError_mean_le (hlength : benchmark.length = estimate.length)
    (hword : benchmark.length < 2 ^ 64)
    (hnumber : ¬ (curveError benchmark estimate).mean.isNaN = true) :
    (curveError benchmark estimate).mean
      ≤ mean (List.replicate (benchmark.length - 1) (curveError benchmark estimate).max) := by
  have hdrop := length_drop_deviations hlength
  have hne : (deviations benchmark estimate).drop 1 ≠ [] := by
    intro hnil
    apply hnumber
    show (mean ((deviations benchmark estimate).drop 1)).isNaN = true
    rw [hnil]
    decide
  rw [← hdrop]
  refine mean_le_mean_replicate hne (by omega) fun x hx => ?_
  have hmem : x ∈ deviations benchmark estimate := List.mem_of_mem_drop hx
  have hx' := not_isNaN_of_mem hnumber hx
  have hbound := (isExtreme_max benchmark estimate).bound x (List.mem_cons_of_mem _ hmem)
  exact ⟨(zero_le_of_mem_deviations hmem).resolve_left hx', hbound.resolve_left hx'⟩

end Doubles

/-! ## Bounds -/

section Bounds

open Exact

variable {K : Type} [Field K] [LinearOrder K] [IsStrictOrderedRing K] [IntegerParts K]

/-- **What the largest deviation says about a curve.** On doubles it is zero or one of the
deviations, and no deviation that is a number is larger. If it is zero, no difference is a number
other than zero. A mean that is a number is at most the mean of as many largest deviations; without
rounding it is at most the largest deviation. -/
theorem curveError_bounds :
    (∀ benchmark estimate : List Float, benchmark.length = estimate.length →
      benchmark.length < 2 ^ 64 →
      ((curveError benchmark estimate).max = 0.0 ∨
        (curveError benchmark estimate).max ∈ deviations benchmark estimate) ∧
      (((curveError benchmark estimate).max == 0.0) = true →
        ∀ d ∈ differences benchmark estimate, d.isNaN = true ∨ (d == 0.0) = true) ∧
      (∀ d ∈ differences benchmark estimate,
        d.isNaN = true ∨ Scalar.abs d ≤ (curveError benchmark estimate).max) ∧
      (¬ (curveError benchmark estimate).mean.isNaN = true →
        (curveError benchmark estimate).mean
          ≤ mean (List.replicate (benchmark.length - 1) (curveError benchmark estimate).max))) ∧
    ∀ benchmark estimate : List K, benchmark.length = estimate.length → 2 ≤ benchmark.length →
      (curveError benchmark estimate).mean ≤ (curveError benchmark estimate).max := by
  refine ⟨?_, fun benchmark estimate => mean_le_max⟩
  intro benchmark estimate hlength hword
  refine ⟨List.mem_cons.mp (isExtreme_max benchmark estimate).mem, ?_,
    fun d hd => difference_le_max hd, curveError_mean_le hlength hword⟩
  intro hzero d hd
  refine (difference_le_max hd).imp_right fun hle => ?_
  exact Double.beq_zero_of_abs (Double.le_trans hle (Double.le_of_beq hzero))

/-- A curve that is the same at all temperatures but the lowest. -/
def flatCurve : List Float :=
  [0, 0.1, 0.1, 0.1]

/-- Three equal deviations, on doubles and without rounding. -/
theorem curveError_bounds_flat :
    ¬ (curveError flatCurve [0, 0, 0, 0]).mean.isNaN = true ∧
    (curveError flatCurve [0, 0, 0, 0]).mean
      ≤ mean (List.replicate 3 (curveError flatCurve [0, 0, 0, 0]).max) ∧
    (∀ d ∈ differences flatCurve flatCurve, d.isNaN = true ∨ (d == 0.0) = true) ∧
    (curveError [0, 1 / 10, 1 / 10, 1 / 10] [0, 0, 0, (0 : ℚ)]).mean
      ≤ (curveError [0, 1 / 10, 1 / 10, 1 / 10] [0, 0, 0, (0 : ℚ)]).max := by
  obtain ⟨hdoubles, hexact⟩ := @curveError_bounds ℚ _ _ _ _
  have hnumber : ¬ (curveError flatCurve [0, 0, 0, 0]).mean.isNaN = true := by decide +kernel
  obtain ⟨-, -, -, hmean⟩ := hdoubles flatCurve [0, 0, 0, 0] rfl (by decide)
  obtain ⟨-, hagree, -, -⟩ := hdoubles flatCurve flatCurve rfl (by decide)
  exact ⟨hnumber, hmean hnumber, hagree (by decide +kernel), hexact _ _ rfl (by decide)⟩

/-- The mean of the three deviations is above each of them. And an estimate that is no number at the
lowest temperature goes unnoticed. -/
theorem curveError_overshoots :
    ¬ (curveError flatCurve [0, 0, 0, 0]).mean.isNaN = true ∧
    (curveError flatCurve [0, 0, 0, 0]).max < (curveError flatCurve [0, 0, 0, 0]).mean ∧
    ((curveError [1, 2] [Float.nan, 2]).max == 0.0) = true ∧
    ¬ ((1 : Float) - Float.nan == 0.0) = true := by
  decide +kernel

end Bounds

end FluidAnalysis.LennardJones
