import Mathlib
import FluidAnalysis.SquareWell.DensityOfStates
import FluidAnalysis.Proofs.Exact
import FluidAnalysis.Proofs.Reals

/-!
# Density curves

A flat-histogram run leaves open where the logarithm of its weights starts. What is added to all
weights is missing from the density of states. Both curves are shifted until their peak is zero, so
neither shows it.

* `PeaksAtZero` — a curve in some unit, shifted as a whole until its peak is zero
* `peaksAtZero_peakAtZero` — the curves are so
* `peakAtZero_shift` — a constant is shifted away

Main statement: `inUnit_peaksAtZero`, in exact arithmetic.
-/

namespace FluidAnalysis.SquareWell

open Exact Numeric

variable {K : Type} [Field K] [LinearOrder K] [IsStrictOrderedRing K]

/-! ## Curves with their peak at zero -/

/-- The values in a unit, shifted as a whole until the greatest of them is zero. -/
structure PeaksAtZero (unit : K) (values curve : List K) : Prop where
  length_eq : curve.length = values.length
  isGreatest : IsGreatest {x | x ∈ curve} 0
  difference : ∀ {i j : ℕ} {v w : K}, values[i]? = some v → values[j]? = some w →
    ∃ x y, curve[i]? = some x ∧ curve[j]? = some y ∧ x - y = (v - w) * unit

namespace PeaksAtZero

variable {unit : K} {values curve : List K}

omit [IsStrictOrderedRing K] in
/-- An entry and the peak, with the values they stand for. -/
theorem exists_peak (h : PeaksAtZero unit values curve) {i : ℕ} {v : K}
    (hv : values[i]? = some v) :
    ∃ x, curve[i]? = some x ∧ ∃ w ∈ values, x = (v - w) * unit := by
  obtain ⟨j, hj⟩ := List.mem_iff_getElem?.mp h.isGreatest.1
  have hlt : j < values.length := h.length_eq ▸ (List.getElem?_eq_some_iff.mp hj).1
  have hw : values[j]? = some values[j] := List.getElem?_eq_getElem hlt
  obtain ⟨x, y, hx, hy, hxy⟩ := h.difference hv hw
  obtain rfl : y = 0 := Option.some.inj (hy.symm.trans hj)
  exact ⟨x, hx, values[j], List.getElem_mem hlt, by rw [← hxy, sub_zero]⟩

/-- **The peak stands where no value is larger in the unit.** -/
theorem eq_zero_iff (h : PeaksAtZero unit values curve) {i : ℕ} {v : K}
    (hv : values[i]? = some v) :
    curve[i]? = some 0 ↔ ∀ w ∈ values, w * unit ≤ v * unit := by
  constructor
  · intro hzero w hw
    obtain ⟨j, hj⟩ := List.mem_iff_getElem?.mp hw
    obtain ⟨x, y, hx, hy, hxy⟩ := h.difference hj hv
    obtain rfl : y = 0 := Option.some.inj (hy.symm.trans hzero)
    have hle : x ≤ 0 := h.isGreatest.2 (List.mem_of_getElem? hx)
    rw [sub_zero] at hxy
    rw [hxy, sub_mul] at hle
    exact sub_nonpos.mp hle
  · intro hall
    obtain ⟨x, hx, w, hw, rfl⟩ := h.exists_peak hv
    have hle : (v - w) * unit ≤ 0 := h.isGreatest.2 (List.mem_of_getElem? hx)
    have hge : 0 ≤ (v - w) * unit := by
      rw [sub_mul]
      exact sub_nonneg.mpr (hall w hw)
    rw [hx, le_antisymm hle hge]

end PeaksAtZero

/-! ## Shifting -/

section Shifting

variable [IntegerParts K] {values : List K}

theorem maximum_shift (hne : values ≠ []) (c : K) :
    maximum (values.map (· + c)) = maximum values + c := by
  have hgreatest := isGreatest_maximum hne
  have hne' : values.map (· + c) ≠ [] := by simpa using hne
  refine (isGreatest_maximum hne').unique ⟨List.mem_map.mpr ⟨_, hgreatest.1, rfl⟩, ?_⟩
  intro y hy
  obtain ⟨x, hx, rfl⟩ := List.mem_map.mp hy
  exact add_le_add_left (hgreatest.2 hx) c

variable [Elementary K]

omit [IsStrictOrderedRing K] in
theorem peakAtZero_eq (values : List K) :
    peakAtZero values = values.map (· - maximum values) := by
  unfold peakAtZero
  exact if_pos rfl

/-- **A constant is shifted away.** -/
theorem peakAtZero_shift (values : List K) (c : K) :
    peakAtZero (values.map (· + c)) = peakAtZero values := by
  by_cases hne : values = []
  · rw [hne]
    rfl
  · rw [peakAtZero_eq, peakAtZero_eq, maximum_shift hne, List.map_map]
    refine List.map_congr_left fun x _ => ?_
    show x + c - (maximum values + c) = x - maximum values
    ring

theorem peaksAtZero_peakAtZero (hne : values ≠ []) (unit : K) :
    PeaksAtZero unit values (peakAtZero (values.map (· * unit))) := by
  have hne' : values.map (· * unit) ≠ [] := by simpa using hne
  have hgreatest := isGreatest_maximum hne'
  rw [peakAtZero_eq]
  refine ⟨by simp, ⟨?_, ?_⟩, ?_⟩
  · exact List.mem_map.mpr ⟨_, hgreatest.1, sub_self _⟩
  · intro y hy
    obtain ⟨x, hx, rfl⟩ := List.mem_map.mp hy
    exact sub_nonpos.mpr (hgreatest.2 hx)
  · intro i j v w hv hw
    refine ⟨v * unit - maximum (values.map (· * unit)),
      w * unit - maximum (values.map (· * unit)), ?_, ?_, ?_⟩
    · simp [hv]
    · simp [hw]
    · ring

end Shifting

/-! ## The curves of a run -/

section Curves

variable [IntegerParts K] [Elementary K]

/-- A level of a run whose weights all have a factor more. -/
def Level.reweighted (c : K) (level : Level K) : Level K :=
  { level with lnDos := level.lnDos - c, lnWeight := level.lnWeight + c }

namespace DensityCurves

theorem peaksAtZero_logDos {levels : List (Level K)} (hne : levels ≠ []) (unit : K)
    (particles : ℕ) :
    PeaksAtZero unit (levels.map (·.lnDos)) (inUnit unit particles levels).logDos := by
  have hne' : levels.map (·.lnDos) ≠ [] := by simpa using hne
  have hpeaks := peaksAtZero_peakAtZero hne' unit
  rw [List.map_map] at hpeaks
  exact hpeaks

/-- The inverse weights are the weights in the opposite unit. -/
theorem peaksAtZero_logInverseWeight {levels : List (Level K)} (hne : levels ≠ []) (unit : K)
    (particles : ℕ) :
    PeaksAtZero (-unit) (levels.map (·.lnWeight))
      (inUnit unit particles levels).logInverseWeight := by
  have hne' : levels.map (·.lnWeight) ≠ [] := by simpa using hne
  have hpeaks := peaksAtZero_peakAtZero hne' (-unit)
  have hunit : levels.map ((fun w => w * -unit) ∘ fun level => level.lnWeight)
      = levels.map fun level => -level.lnWeight * unit := by
    refine List.map_congr_left fun level _ => ?_
    show level.lnWeight * -unit = -level.lnWeight * unit
    ring
  rw [List.map_map, hunit] at hpeaks
  exact hpeaks

/-- **The curves do not see where the weights start.** -/
theorem inUnit_reweighted (unit : K) (particles : ℕ) (levels : List (Level K)) (c : K) :
    inUnit unit particles (levels.map (Level.reweighted c)) = inUnit unit particles levels := by
  have hdos : (levels.map (Level.reweighted c)).map (fun level => level.lnDos * unit)
      = (levels.map fun level => level.lnDos * unit).map (· + -(c * unit)) := by
    rw [List.map_map, List.map_map]
    refine List.map_congr_left fun level _ => ?_
    show (level.lnDos - c) * unit = level.lnDos * unit + -(c * unit)
    ring
  have hweight : (levels.map (Level.reweighted c)).map (fun level => -level.lnWeight * unit)
      = (levels.map fun level => -level.lnWeight * unit).map (· + -(c * unit)) := by
    rw [List.map_map, List.map_map]
    refine List.map_congr_left fun level _ => ?_
    show -(level.lnWeight + c) * unit = -level.lnWeight * unit + -(c * unit)
    ring
  have henergy : (levels.map (Level.reweighted c)).map (·.energy) = levels.map (·.energy) := by
    rw [List.map_map]
    rfl
  unfold inUnit
  rw [hdos, hweight, henergy, peakAtZero_shift, peakAtZero_shift]

theorem lowest_eq (d : DensityCurves K) :
    d.lowest = (d.logDos ++ d.logInverseWeight).foldl min 0 := by
  rw [lowest, funext₂ smaller_eq_min, literalZero_eq]

/-- A curve that reaches zero leaves nothing of the bound that the search for the lowest value
starts from. -/
theorem isLeast_lowest {d : DensityCurves K} (hzero : 0 ∈ d.logDos) :
    IsLeast {x | x ∈ d.logDos ∨ x ∈ d.logInverseWeight} d.lowest := by
  have hmin : (0 :: (d.logDos ++ d.logInverseWeight)).min? = some d.lowest := by
    rw [List.min?_cons', lowest_eq]
  obtain ⟨hmem, hle⟩ := List.min?_eq_some_iff.mp hmin
  refine ⟨?_, fun x hx => hle x ?_⟩
  · rcases List.mem_cons.mp hmem with hlowest | hmem
    · exact .inl (hlowest ▸ hzero)
    · exact List.mem_append.mp hmem
  · exact List.mem_cons_of_mem _ (List.mem_append.mpr hx)

/-- **The curves have their peak at zero, and they do not see where the weights start.** For every
run that visited a level, both curves are the logarithms in the chosen unit, those of the weights
with the opposite sign, shifted as a whole until the greatest entry is zero. The densities reach it
at the levels with the highest density of states, and the inverse weights at those with the lowest
weight. The lowest value is not above zero and is the least entry of the two curves. A constant that
is added to all weights, and so is missing from all densities, changes nothing of the curves. -/
theorem inUnit_peaksAtZero {levels : List (Level K)} (hne : levels ≠ []) {unit : K}
    (hunit : 0 < unit) (particles : ℕ) :
    PeaksAtZero unit (levels.map (·.lnDos)) (inUnit unit particles levels).logDos ∧
    PeaksAtZero (-unit) (levels.map (·.lnWeight))
      (inUnit unit particles levels).logInverseWeight ∧
    (∀ {i : ℕ} {level : Level K}, levels[i]? = some level →
      ((inUnit unit particles levels).logDos[i]? = some 0 ↔
        ∀ other ∈ levels, other.lnDos ≤ level.lnDos) ∧
      ((inUnit unit particles levels).logInverseWeight[i]? = some 0 ↔
        ∀ other ∈ levels, level.lnWeight ≤ other.lnWeight)) ∧
    (inUnit unit particles levels).lowest ≤ 0 ∧
    IsLeast {x | x ∈ (inUnit unit particles levels).logDos ∨
      x ∈ (inUnit unit particles levels).logInverseWeight} (inUnit unit particles levels).lowest ∧
    ∀ c, inUnit unit particles (levels.map (Level.reweighted c)) = inUnit unit particles levels ∧
      (inUnit unit particles (levels.map (Level.reweighted c))).lowest
        = (inUnit unit particles levels).lowest := by
  have hdos := peaksAtZero_logDos hne unit particles
  have hweight := peaksAtZero_logInverseWeight hne unit particles
  have hleast := isLeast_lowest hdos.isGreatest.1
  refine ⟨hdos, hweight, ?_, hleast.2 (.inl hdos.isGreatest.1), hleast, ?_⟩
  · intro i level hlevel
    constructor
    · rw [hdos.eq_zero_iff (v := level.lnDos) (by simp [hlevel]), List.forall_mem_map]
      simp only [mul_le_mul_iff_left₀ hunit]
    · rw [hweight.eq_zero_iff (v := level.lnWeight) (by simp [hlevel]), List.forall_mem_map]
      simp only [mul_neg, neg_le_neg_iff, mul_le_mul_iff_left₀ hunit]
  · intro c
    rw [inUnit_reweighted]
    exact ⟨rfl, rfl⟩

/-- Two levels in decades; the second has the higher density and the lower weight. -/
theorem inUnit_peaksAtZero_two :
    ∃ curves : DensityCurves ℝ,
      curves = ofLevels 2 [⟨0, 1, 3⟩, ⟨2, 5, 1⟩] ∧
      curves = ofLevels 2 [⟨0, -6, 10⟩, ⟨2, -2, 8⟩] ∧
      curves.logDos[1]? = some 0 ∧ curves.logInverseWeight[1]? = some 0 ∧
      curves.lowest ≤ 0 := by
  have hunit : (0 : ℝ) < log10OfE := by norm_num [log10OfE]
  have hne : ([⟨0, 1, 3⟩, ⟨2, 5, 1⟩] : List (Level ℝ)) ≠ [] := by simp
  obtain ⟨-, -, hpeak, hlowest, -, hsame⟩ := inUnit_peaksAtZero hne hunit 2
  obtain ⟨hdos, hweight⟩ := hpeak (i := 1) rfl
  have hconstant := (hsame 7).1
  norm_num [Level.reweighted] at hconstant
  refine ⟨_, rfl, hconstant.symm, hdos.mpr ?_, hweight.mpr ?_, hlowest⟩
  · norm_num
  · norm_num

end DensityCurves

end Curves

end FluidAnalysis.SquareWell
