import Mathlib
import FluidAnalysis.Launch.Ladder
import FluidAnalysis.Proofs.Numeric.Bisection

/-!
# Filling fractions by bisection

Over exact scalars the excess free energy is a shifted square, `((1 - η)⁻¹ + 1)² - 4`
(`excessFreeEnergy_eq`). So it is strictly increasing up to its pole at one, and over the real
numbers it takes every value from zero on.

The search for a filling fraction is a bisection of this function between zero and one, with all
that follows from that: `bisection_follows_target` and `bisection_homes_in`.
-/

namespace FluidAnalysis.HardSphere

open Exact Numeric Launch

variable {K : Type} [Field K] [LinearOrder K] [IsStrictOrderedRing K] [IntegerParts K]

/-! ## The excess free energy -/

theorem excessFreeEnergy_eq {eta : K} (h : eta < 1) :
    excessFreeEnergy eta = ((1 - eta)⁻¹ + 1) ^ 2 - 4 := by
  have hne : 1 - eta ≠ 0 := (sub_pos.mpr h).ne'
  have hthree : (3.0 : K) = 3 := by norm_num
  have hfour : (4.0 : K) = 4 := by norm_num
  rw [excessFreeEnergy, literalOne_eq, hthree, hfour]
  field_simp
  ring

theorem strictMonoOn_excessFreeEnergy : StrictMonoOn (excessFreeEnergy (α := K)) (Set.Ico 0 1) := by
  rintro x ⟨-, hx⟩ y ⟨-, hy⟩ hxy
  have hy' : 0 < 1 - y := sub_pos.mpr hy
  have hinv : (1 - x)⁻¹ < (1 - y)⁻¹ := inv_strictAnti₀ hy' (sub_lt_sub_left hxy 1)
  have hpos : 0 < (1 - x)⁻¹ := inv_pos.mpr (sub_pos.mpr hx)
  rw [excessFreeEnergy_eq hx, excessFreeEnergy_eq hy]
  gcongr

/-- Over the real numbers, every free energy that is not negative belongs to a filling fraction. -/
theorem exists_excessFreeEnergy_eq {freeEnergy : ℝ} (h : 0 ≤ freeEnergy) :
    ∃ eta ∈ Set.Ico (0 : ℝ) 1, excessFreeEnergy eta = freeEnergy := by
  have hroot : 2 ≤ √(freeEnergy + 4) := Real.le_sqrt_of_sq_le (by linarith)
  have hpos : 0 < √(freeEnergy + 4) - 1 := by linarith
  have hinv : 0 < (√(freeEnergy + 4) - 1)⁻¹ := inv_pos.mpr hpos
  have hle : (√(freeEnergy + 4) - 1)⁻¹ ≤ 1 := inv_le_one_of_one_le₀ (by linarith)
  refine ⟨1 - (√(freeEnergy + 4) - 1)⁻¹, ⟨by linarith, by linarith⟩, ?_⟩
  rw [excessFreeEnergy_eq (by linarith), sub_sub_cancel, inv_inv, sub_add_cancel,
    Real.sq_sqrt (by linarith), add_sub_cancel_right]

/-! ## The search -/

theorem fillingFractionSearch_eq (freeEnergy : K) :
    fillingFractionSearch freeEnergy = bisect excessFreeEnergy freeEnergy 0 1 1.0e-8 500 := by
  rw [fillingFractionSearch, literalZero_eq, literalOne_eq]

theorem monotone_fillingFraction : Monotone (fillingFraction (α := K)) := by
  intro one other h
  rw [fillingFraction, fillingFraction, fillingFractionSearch_eq, fillingFractionSearch_eq]
  exact bisect_value_le excessFreeEnergy 1.0e-8 500 zero_le_one h

/-- A grid with a step that is not negative rises. -/
theorem pairwise_halfOpenGrid (start stop : K) {step : K} (h : 0 ≤ step) :
    (halfOpenGrid start stop step).Pairwise (· ≤ ·) := by
  unfold halfOpenGrid
  split_ifs
  · exact .nil
  · simp only
    split_ifs
    · refine List.pairwise_map.mpr (List.pairwise_lt_range.imp ?_)
      intro i j hij
      have hcast : (i : K) ≤ (j : K) := Nat.cast_le.mpr hij.le
      gcongr
    · exact .nil

/-- **A larger target never gives a smaller value,** whatever the function is. So the filling
fraction does not decrease with the free energy, and the ladder of filling fractions rises. -/
theorem bisection_follows_target :
    (∀ (f : K → K) (low high resolution t₁ t₂ : K) (limit : Nat), low ≤ high → t₁ ≤ t₂ →
      (bisect f t₁ low high resolution limit).value ≤
        (bisect f t₂ low high resolution limit).value) ∧
    Monotone (fillingFraction (α := K)) ∧
    (ladderFractions (α := K)).Pairwise (· ≤ ·) := by
  refine ⟨fun f low high resolution t₁ t₂ limit h ht => bisect_value_le f resolution limit h ht,
    monotone_fillingFraction, ?_⟩
  have hstep : (0 : K) ≤ ln2 := by norm_num [ln2]
  exact List.pairwise_map.mpr
    ((pairwise_halfOpenGrid ln2 20.0 hstep).imp fun h => monotone_fillingFraction h)

theorem bisection_follows_target_squares :
    (bisect (fun x : ℚ => x * x) 2 0 2 (1 / 100) 5).value ≤
        (bisect (fun x : ℚ => x * x) 3 0 2 (1 / 100) 5).value ∧
      fillingFraction (1 : ℚ) ≤ fillingFraction 2 ∧
      (ladderFractions (α := ℚ)).length = 28 ∧
      (ladderFractions (α := ℚ)).Pairwise (· ≤ ·) := by
  obtain ⟨hbisect, hfraction, hladder⟩ := bisection_follows_target (K := ℚ)
  refine ⟨hbisect _ 0 2 (1 / 100) 2 3 5 (by decide) (by decide), hfraction (by decide), ?_, hladder⟩
  rw [ladderFractions, List.length_map]
  decide +kernel

/-- **A bisection keeps the root and homes in on it.** The search for a filling fraction is such a
bisection: its function is strictly increasing up to the pole, no guess touches the pole or zero,
and over the real numbers there is a root for every free energy that is not negative. -/
theorem bisection_homes_in :
    (∀ (f : K → K) (low high x resolution : K) (limit : Nat),
      StrictMonoOn f (Set.Ico low high) → x ∈ Set.Ico low high →
        HomesIn f x low high resolution limit) ∧
    StrictMonoOn (excessFreeEnergy (α := K)) (Set.Ico 0 1) ∧
    (∀ freeEnergy : K,
      fillingFractionSearch freeEnergy =
        outcome excessFreeEnergy freeEnergy 1.0e-8 (Enclosure.middle ⟨0, 1⟩) 0
          (Enclosure.tried excessFreeEnergy freeEnergy 1.0e-8 500 ⟨0, 1⟩) ∧
      ∀ c ∈ Enclosure.tried excessFreeEnergy freeEnergy 1.0e-8 500 ⟨0, 1⟩,
        0 < c.middle ∧ c.middle < 1) ∧
    ∀ freeEnergy : ℝ, 0 ≤ freeEnergy → ∃ eta ∈ Set.Ico (0 : ℝ) 1,
      excessFreeEnergy eta = freeEnergy ∧
      fillingFractionSearch freeEnergy =
        bisect excessFreeEnergy (excessFreeEnergy eta) 0 1 1.0e-8 500 ∧
      HomesIn excessFreeEnergy eta 0 1 1.0e-8 500 := by
  refine ⟨fun f low high x resolution limit hf hx => homesIn hf hx resolution limit,
    strictMonoOn_excessFreeEnergy, ?_, ?_⟩
  · intro freeEnergy
    refine ⟨(fillingFractionSearch_eq freeEnergy).trans (bisect_eq_outcome 0 1 500), ?_⟩
    exact fun c hc => middle_mem_of_mem_tried (b := ⟨0, 1⟩) zero_lt_one hc
  · intro freeEnergy h
    obtain ⟨eta, heta, rfl⟩ := exists_excessFreeEnergy_eq h
    exact ⟨eta, heta, rfl, fillingFractionSearch_eq _,
      homesIn strictMonoOn_excessFreeEnergy heta 1.0e-8 500⟩

/-- Four halvings of an interval of length two, for the root of one ninth. -/
theorem bisection_homes_in_third :
    (bisect (fun x : ℚ => x * x) (1 / 3 * (1 / 3)) 0 2 (1 / 1000) 4).converged = false ∧
      |(bisect (fun x : ℚ => x * x) (1 / 3 * (1 / 3)) 0 2 (1 / 1000) 4).value - 1 / 3| ≤
        (2 - 0) / 2 ^ 4 ∧
      ∃ eta ∈ Set.Ico (0 : ℝ) 1, excessFreeEnergy eta = 1 ∧
        HomesIn excessFreeEnergy eta 0 1 1.0e-8 500 := by
  obtain ⟨hhomes, -, -, hreal⟩ := bisection_homes_in (K := ℚ)
  have hsquare : StrictMonoOn (fun x : ℚ => x * x) (Set.Ico 0 2) := by
    rintro x ⟨hx, -⟩ y - hxy
    exact mul_self_lt_mul_self hx hxy
  have hthird := hhomes _ 0 2 (1 / 3) (1 / 1000) 4 hsquare ⟨by norm_num, by norm_num⟩
  have hunsettled :
      (bisect (fun x : ℚ => x * x) (1 / 3 * (1 / 3)) 0 2 (1 / 1000) 4).converged = false := by
    decide +kernel
  obtain ⟨eta, heta, heq, -, hin⟩ := hreal 1 zero_le_one
  exact ⟨hunsettled, (hthird.unsettled hunsettled).2, eta, heta, heq, hin⟩

end FluidAnalysis.HardSphere
