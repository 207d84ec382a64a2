import Mathlib
import FluidAnalysis.Proofs.Numeric.Extremes
import FluidAnalysis.Proofs.SquareWell.FrameErrors

/-!
# The spread of the errors of a frame

The largest error of a frame is the distance of its extremes. Both pass over rows that are no number,
so the distance is not negative as long as one row is a number. A mean that is undefined leaves none:
every row is taken against it, and the distance of the extremes of nothing is `-∞`. The same happens
where the means are infinitely far apart and no row is finite (`Unmatched`).

* `isFinite_of_isFinite_meanDifference` — finite means come from finite values only
* `residuals_undefined_iff` — when no row is a number

Main statement: `frameErrors_zero_le_maxError_iff`, on doubles.
-/

namespace FluidAnalysis.SquareWell

open Numeric
open Double (parts LostTo)

/-! ## The difference of the means -/

variable {lnDos reference : List Float} {offset : ℕ}

/-- How far the means are apart. -/
def meanDifference (lnDos reference : List Float) : Float :=
  mean lnDos - mean reference

theorem mem_residuals_iff {x : Float} :
    x ∈ residuals lnDos reference ↔
      ∃ p ∈ lnDos.zip reference, p.1 - p.2 - meanDifference lnDos reference = x :=
  List.mem_map

/-- Means that are finitely far apart come from finite values. -/
theorem isFinite_of_isFinite_meanDifference {v : Float}
    (h : (meanDifference lnDos reference).isFinite = true) (hv : v ∈ lnDos ∨ v ∈ reference) :
    v.isFinite = true := by
  by_contra hinfinite
  obtain ⟨s, hlost⟩ := Double.isFinite_eq_false_iff.mp (Bool.eq_false_of_not_eq_true hinfinite)
  rcases hv with hv | hv
  · exact Double.not_lostTo_of_isFinite h ((lostTo_mean hv hlost).sub_left _)
  · exact Double.not_lostTo_of_isFinite h ((lostTo_mean hv hlost).sub_right _)

/-! ## Rows that are no number -/

/-- The means cannot be matched: their difference is undefined, or it is infinite and no row is
finite or on the other side. -/
def Unmatched (lnDos reference : List Float) : Prop :=
  (meanDifference lnDos reference).isNaN = true ∨
    ∃ s, parts (meanDifference lnDos reference) = .infinity s ∧
      ∀ p ∈ lnDos.zip reference, LostTo s (p.1 - p.2)

theorem isNaN_of_unmatched (h : Unmatched lnDos reference) {p : Float × Float}
    (hp : p ∈ lnDos.zip reference) :
    (p.1 - p.2 - meanDifference lnDos reference).isNaN = true := by
  rw [Double.isNaN_sub_iff]
  rcases h with hnan | ⟨s, hinfinite, hlost⟩
  · exact .inr (.inl hnan)
  · rcases hlost p hp with hsame | hnan
    · exact .inr (.inr ⟨s, hsame, hinfinite⟩)
    · exact .inl (Double.isNaN_iff.mpr hnan)

/-- **No row is a number exactly if the means cannot be matched.** -/
theorem residuals_undefined_iff (hlength : lnDos.length = reference.length) (hne : lnDos ≠ []) :
    (∀ x ∈ residuals lnDos reference, x.isNaN = true) ↔ Unmatched lnDos reference := by
  constructor
  · intro hall
    have hrow : ∀ p ∈ lnDos.zip reference,
        (p.1 - p.2 - meanDifference lnDos reference).isNaN = true :=
      fun p hp => hall _ (mem_residuals_iff.mpr ⟨p, hp, rfl⟩)
    by_cases hnan : (meanDifference lnDos reference).isNaN = true
    · exact .inl hnan
    by_cases hfinite : (meanDifference lnDos reference).isFinite = true
    · -- then every value is finite, and so the first row would be a number
      obtain ⟨p, hp⟩ : ∃ p, p ∈ lnDos.zip reference := by
        apply List.exists_mem_of_length_pos
        rw [List.length_zip, ← hlength, min_self]
        exact List.length_pos_iff.mpr hne
      obtain ⟨hmem, hmem'⟩ := List.of_mem_zip hp
      have hnumber := Double.not_isNaN_sub
        (isFinite_of_isFinite_meanDifference hfinite (.inl hmem))
        (isFinite_of_isFinite_meanDifference hfinite (.inr hmem'))
      rcases Double.isNaN_sub_iff.mp (hrow p hp) with h | h | ⟨s, -, hinfinite⟩
      · exact absurd h hnumber
      · exact absurd h hnan
      · exact absurd (.inl hinfinite) (Double.not_lostTo_of_isFinite hfinite)
    · obtain ⟨s, hlost⟩ :=
        Double.isFinite_eq_false_iff.mp (Bool.eq_false_of_not_eq_true hfinite)
      have hinfinite := hlost.resolve_right fun h => hnan (Double.isNaN_iff.mpr h)
      refine .inr ⟨s, hinfinite, fun p hp => ?_⟩
      rcases Double.isNaN_sub_iff.mp (hrow p hp) with h | h | ⟨t, hsame, hinfinite'⟩
      · exact .inr (Double.isNaN_iff.mp h)
      · exact absurd h hnan
      · cases hinfinite.symm.trans hinfinite'
        exact .inl hsame
  · intro h x hx
    obtain ⟨p, hp, rfl⟩ := mem_residuals_iff.mp hx
    exact isNaN_of_unmatched h hp

/-! ## Errors -/

/-- Rows that are no number leave a mean that is none. -/
theorem isNaN_inEntropy {rows : List Float} {atEnergy x : Float} (hx : x ∈ rows)
    (hnan : x.isNaN = true) : (FrameErrors.ofRows rows atEnergy).inEntropy.isNaN = true := by
  have habs : (Scalar.abs x).isNaN = true := Double.isNaN_abs_iff.mpr hnan
  rw [Double.isNaN_iff_lostTo] at habs ⊢
  intro s
  exact (Double.lostTo_sum (List.mem_map_of_mem hx) (habs s)).div_count (List.length_pos_of_mem hx)

/-- **The largest error of a frame is undefined or not negative, unless the means cannot be
matched.** Then it is `-∞`, while the other errors are undefined. -/
theorem frameErrors_zero_le_maxError_iff (hlength : lnDos.length = reference.length)
    (hne : lnDos ≠ []) (hoffset : offset < lnDos.length) :
    ∃ errors, frameErrors lnDos reference offset = .ok errors ∧
      (errors.maxError.isNaN = true ∨ 0.0 ≤ errors.maxError ↔ ¬ Unmatched lnDos reference) ∧
      (Unmatched lnDos reference →
        errors.maxError = -(1.0 / 0.0) ∧ errors.atEnergy.isNaN = true ∧
          errors.inEntropy.isNaN = true) := by
  obtain ⟨atEnergy, hrow⟩ := exists_row hlength hoffset
  refine ⟨_, frameErrors_of_row hlength hne hrow, ?_, ?_⟩
  · have hspread := @zero_le_spread_iff (residuals lnDos reference)
    rw [← residuals_undefined_iff hlength hne]
    push Not
    exact hspread
  · intro h
    have hall := (residuals_undefined_iff hlength hne).mpr h
    have hmem := List.mem_of_getElem? hrow
    exact ⟨spread_of_undefined hall, hall _ hmem, isNaN_inEntropy hmem (hall _ hmem)⟩

/-- One value that is no number among three. -/
theorem maxError_below_zero :
    Unmatched [1, Float.nan, 3] [1, 2, 3] ∧
    ∃ errors, frameErrors [1, Float.nan, 3] [1, 2, 3] 1 = .ok errors ∧
      errors.maxError = -(1.0 / 0.0) ∧ ¬ errors.maxError.isNaN = true ∧ ¬ 0.0 ≤ errors.maxError ∧
      errors.atEnergy.isNaN = true ∧ errors.inEntropy.isNaN = true := by
  have hunmatched : Unmatched [1, Float.nan, 3] [1, 2, 3] := .inl (by decide +kernel)
  have hlength : [1, Float.nan, 3].length = [(1 : Float), 2, 3].length := rfl
  have hoffset : 1 < [1, Float.nan, 3].length := by decide
  obtain ⟨errors, hok, hiff, hundefined⟩ :=
    frameErrors_zero_le_maxError_iff hlength (List.cons_ne_nil _ _) hoffset
  have hnot := not_or.mp fun h => hiff.mp h hunmatched
  obtain ⟨hmax, hat, hin⟩ := hundefined hunmatched
  exact ⟨hunmatched, errors, hok, hmax, hnot.1, hnot.2, hat, hin⟩

end FluidAnalysis.SquareWell
