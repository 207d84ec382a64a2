import Mathlib
import FluidAnalysis.HardSphere.PairDistribution
import FluidAnalysis.Proofs.Reals

/-!
# The constraints on the pair distribution

Two coefficients of the analytic pair distribution are not free. They solve two linear equations: the
slope at contact and the compressibility sum rule. The slope gives `a4` in terms of `a1`
(`slope_iff`), and the sum rule then gives `a1` (`sumRule_iff`).

Everything here holds in every field, and `π` may be any constant.

Main statement: `constrained_iff`.
-/

namespace FluidAnalysis.HardSphere

open Exact

section Equations

variable {K : Type} [Field K] {a0 a1 a2 a4 a5 h b c total rest : K}

/-- The slope at contact, solved for the coefficient of the second oscillation. -/
theorem slope_iff (h5 : a5 ≠ 0) (hh : h ≠ 0) :
    -a0 * h + a1 * a2 + a4 * a5 = h * (-1 - h) ↔
      a4 = h / a5 * (-1 - h + a0 - a1 * a2 / h) := by
  have hsolved : h / a5 * (-1 - h + a0 - a1 * a2 / h) * a5 = h * (-1 - h) + a0 * h - a1 * a2 := by
    field_simp
  constructor
  · intro hslope
    apply mul_right_cancel₀ h5
    rw [hsolved]
    linear_combination hslope
  · rintro rfl
    linear_combination hsolved

/-- The sum rule, solved for the coefficient of the first oscillation once the second one is known.
`total` is what the three terms have to add up to, and `rest` the contribution of the first. -/
theorem sumRule_iff (h5 : a5 ≠ 0) (hh : h ≠ 0) (hc : c ≠ 0) (hden : 1 - b * a2 / c / a5 ≠ 0) :
    rest + a1 * c + h / a5 * (-1 - h + a0 - a1 * a2 / h) * b = total ↔
      a1 = ((total - rest) / c - b * h / c / a5 * (-1 - h + a0)) / (1 - b * a2 / c / a5) := by
  -- both sides of the equation are divided by `c`, and the terms with `a1` are collected
  have hcollect : rest + a1 * c + h / a5 * (-1 - h + a0 - a1 * a2 / h) * b - total
      = c * (a1 * (1 - b * a2 / c / a5)
          - ((total - rest) / c - b * h / c / a5 * (-1 - h + a0))) := by
    field_simp
    ring
  rw [eq_div_iff hden, ← sub_eq_zero, hcollect, mul_eq_zero, or_iff_right hc, sub_eq_zero]

end Equations

variable {K : Type} [Field K] [LinearOrder K] [IntegerParts K] [Elementary K]

/-- **The coefficients that are not free are the one solution of the two constraints:** the slope at
contact, and the compressibility sum rule. The denominators that matter are the contact excess, `a5`,
the integral of the first oscillation and the determinant of the two equations. -/
theorem constrained_iff (s : Shape K) (eta : K) (k : Constrained K)
    (hexcess : contactExcess eta ≠ 0) (h5 : s.a5 ≠ 0)
    (hfirst : oscillatoryIntegral s.a2 s.a3 ≠ 0)
    (hdet : 1 - oscillatoryIntegral s.a5 s.a6 * s.a2 / oscillatoryIntegral s.a2 s.a3 / s.a5 ≠ 0) :
    k = constrained s eta ↔
      -s.a0 * contactExcess eta + k.a1 * s.a2 + k.a4 * s.a5
          = contactExcess eta * (-1 - contactExcess eta) ∧
      contactIntegral s.a0 (contactExcess eta) + k.a1 * oscillatoryIntegral s.a2 s.a3
          + k.a4 * oscillatoryIntegral s.a5 s.a6
          = (reducedCompressibility eta - 1) / numberDensity eta := by
  obtain ⟨a1, a4⟩ := k
  rw [slope_iff h5 hexcess]
  unfold constrained
  simp only [literalOne_eq, Constrained.mk.injEq]
  constructor
  · rintro ⟨ha1, ha4⟩
    rw [← ha1] at ha4
    refine ⟨ha4, ?_⟩
    rw [ha4]
    exact (sumRule_iff h5 hexcess hfirst hdet).mpr ha1
  · rintro ⟨ha4, hsum⟩
    rw [ha4] at hsum
    have ha1 := (sumRule_iff h5 hexcess hfirst hdet).mp hsum
    refine ⟨ha1, ?_⟩
    rw [← ha1]
    exact ha4

/-- Half filled, over the real numbers. -/
theorem constrained_half :
    contactExcess (1 / 2 : ℝ) ≠ 0 ∧ (2 : ℝ) ≠ 0 ∧ oscillatoryIntegral (1 : ℝ) 1 ≠ 0 ∧
    1 - oscillatoryIntegral (2 : ℝ) 1 * 1 / oscillatoryIntegral 1 1 / 2 ≠ 0 ∧
    ∃ k : Constrained ℝ, k = constrained ⟨1, 1, 1, 2, 1⟩ (1 / 2) ∧
      -1 * contactExcess (1 / 2) + k.a1 * 1 + k.a4 * 2
          = contactExcess (1 / 2) * (-1 - contactExcess (1 / 2)) ∧
      contactIntegral 1 (contactExcess (1 / 2)) + k.a1 * oscillatoryIntegral 1 1
          + k.a4 * oscillatoryIntegral 2 1
          = (reducedCompressibility (1 / 2) - 1) / numberDensity (1 / 2) := by
  have hexcess : contactExcess (1 / 2 : ℝ) = 5 := by norm_num [contactExcess, Scalar.cube]
  have hfirst : oscillatoryIntegral (1 : ℝ) 1 = 18 * Real.pi := by
    norm_num [oscillatoryIntegral, sigma, Scalar.cube, Scalar.fourth, pi_eq]
    ring
  have hsecond : oscillatoryIntegral (2 : ℝ) 1 = 1104 / 125 * Real.pi := by
    norm_num [oscillatoryIntegral, sigma, Scalar.cube, Scalar.fourth, pi_eq]
    ring
  have hexcess_ne : contactExcess (1 / 2 : ℝ) ≠ 0 := by
    rw [hexcess]
    norm_num
  have hfirst_ne : oscillatoryIntegral (1 : ℝ) 1 ≠ 0 := by
    rw [hfirst]
    exact mul_ne_zero (by norm_num) Real.pi_ne_zero
  have hdet : 1 - oscillatoryIntegral (2 : ℝ) 1 * 1 / oscillatoryIntegral 1 1 / 2 ≠ 0 := by
    rw [hfirst, hsecond]
    have hpi := Real.pi_ne_zero
    field_simp
    norm_num
  exact ⟨hexcess_ne, two_ne_zero, hfirst_ne, hdet, _, rfl,
    (constrained_iff ⟨1, 1, 1, 2, 1⟩ (1 / 2) _ hexcess_ne two_ne_zero hfirst_ne hdet).mp rfl⟩

end FluidAnalysis.HardSphere
