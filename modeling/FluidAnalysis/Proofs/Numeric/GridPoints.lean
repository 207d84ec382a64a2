import Mathlib
import FluidAnalysis.Numeric.Grid
import FluidAnalysis.Proofs.Exact

/-!
# The points of a grid

No point of a grid is compared with its end. A grid has as many points as the ceiling of the distance
in steps says, and a whole number is below the ceiling exactly if it is below the distance itself
(`mem_halfOpenGrid_iff`). The sign of the step then says on which side of the end its points lie.

* `mem_halfOpenGrid_of_pos`, `mem_halfOpenGrid_of_neg` — the points before the end, in both directions
* `high_mem_closedGrid_iff` — when the upper end of a closed grid is one of its points
* `grid_points` — what grids hold
-/

namespace FluidAnalysis.Numeric

open Exact

variable {K : Type} [Field K] [LinearOrder K] [IsStrictOrderedRing K] [FloorRing K]
  {start stop step low high x : K}

/-! ## Half-open grids -/

theorem halfOpenGrid_eq (hstep : step ≠ 0) :
    halfOpenGrid start stop step
      = (List.range ⌈(stop - start) / step⌉₊).map fun i : ℕ => start + i * step := by
  have hzero : (step == 0.0 || !Scalar.isFinite step) = false := by
    rw [literalZero_eq]
    simpa [Scalar.isFinite] using hstep
  have hcount : Scalar.toNat ((Scalar.ceil ((stop - start) / step) : Int) : K)
      = ⌈(stop - start) / step⌉₊ := by
    show ⌊((⌈(stop - start) / step⌉ : ℤ) : K)⌋.toNat = _
    rw [Int.floor_intCast]
    rfl
  rw [halfOpenGrid, hzero, ← hcount]
  rfl

theorem mem_halfOpenGrid_iff (hstep : step ≠ 0) :
    x ∈ halfOpenGrid start stop step ↔
      ∃ i : ℕ, x = start + i * step ∧ (i : K) < (stop - start) / step := by
  simp only [halfOpenGrid_eq hstep, List.mem_map, List.mem_range, Nat.lt_ceil]
  exact exists_congr fun i => ⟨fun h => ⟨h.2.symm, h.1⟩, fun h => ⟨h.2, h.1.symm⟩⟩

theorem mem_halfOpenGrid_of_pos (hstep : 0 < step) :
    x ∈ halfOpenGrid start stop step ↔ ∃ i : ℕ, x = start + i * step ∧ x < stop := by
  rw [mem_halfOpenGrid_iff hstep.ne']
  refine exists_congr fun i => and_congr_right ?_
  rintro rfl
  rw [lt_div_iff₀ hstep, lt_sub_iff_add_lt']

theorem mem_halfOpenGrid_of_neg (hstep : step < 0) :
    x ∈ halfOpenGrid start stop step ↔ ∃ i : ℕ, x = start + i * step ∧ stop < x := by
  rw [mem_halfOpenGrid_iff hstep.ne]
  refine exists_congr fun i => and_congr_right ?_
  rintro rfl
  rw [lt_div_iff_of_neg hstep, sub_lt_iff_lt_add']

theorem halfOpenGrid_increasing (hstep : 0 < step) :
    (halfOpenGrid start stop step).Pairwise (· < ·) := by
  rw [halfOpenGrid_eq hstep.ne', List.pairwise_map]
  refine List.pairwise_lt_range.imp fun hij => ?_
  gcongr

theorem halfOpenGrid_decreasing (hstep : step < 0) :
    (halfOpenGrid start stop step).Pairwise (· > ·) := by
  rw [halfOpenGrid_eq hstep.ne, List.pairwise_map]
  refine List.pairwise_lt_range.imp fun {i j} hij => ?_
  have hcast : (i : K) < j := Nat.cast_lt.mpr hij
  exact add_lt_add_right (mul_lt_mul_of_neg_right hcast hstep) start

/-- A grid that has points starts with its start. -/
theorem halfOpenGrid_head (hstep : 0 < step) (h : start < stop) :
    (halfOpenGrid start stop step).head? = some start := by
  have hcount : 0 < ⌈(stop - start) / step⌉₊ := Nat.ceil_pos.mpr (div_pos (sub_pos.mpr h) hstep)
  obtain ⟨n, hn⟩ := Nat.exists_eq_add_of_lt hcount
  rw [halfOpenGrid_eq hstep.ne', hn, zero_add, List.range_succ_eq_map]
  simp

theorem halfOpenGrid_eq_nil_iff (hstep : 0 < step) :
    halfOpenGrid start stop step = [] ↔ stop ≤ start := by
  rw [halfOpenGrid_eq hstep.ne', List.map_eq_nil_iff, List.range_eq_nil, Nat.ceil_eq_zero]
  exact (div_le_iff₀ hstep).trans (by rw [zero_mul, sub_nonpos])

/-! ## Closed grids -/

omit [IsStrictOrderedRing K] in
theorem closedGrid_eq : closedGrid low high step = halfOpenGrid low (high + step / 10 ^ 6) step := by
  have hmillionth : (1.0e-6 : K) = 1 / 10 ^ 6 := by norm_num
  rw [closedGrid, hmillionth, mul_one_div]

theorem mem_closedGrid_iff (hstep : 0 < step) :
    x ∈ closedGrid low high step ↔ ∃ i : ℕ, x = low + i * step ∧ x < high + step / 10 ^ 6 := by
  rw [closedGrid_eq, mem_halfOpenGrid_of_pos hstep]

theorem mem_closedGrid_of_le (hstep : 0 < step) (i : ℕ) (h : low + i * step ≤ high) :
    low + i * step ∈ closedGrid low high step :=
  (mem_closedGrid_iff hstep).mpr ⟨i, rfl, h.trans_lt (lt_add_of_pos_right _ (by positivity))⟩

/-- The upper end is a point of the grid exactly if it lies a whole number of steps above the lower
end. -/
theorem high_mem_closedGrid_iff (hstep : 0 < step) (h : low ≤ high) :
    high ∈ closedGrid low high step ↔ ∃ n : ℤ, (high - low) / step = n := by
  constructor
  · intro hmem
    obtain ⟨i, hi, -⟩ := (mem_closedGrid_iff hstep).mp hmem
    refine ⟨i, ?_⟩
    rw [div_eq_iff hstep.ne', Int.cast_natCast]
    exact sub_eq_of_eq_add' hi
  · rintro ⟨n, hn⟩
    have hnonneg : 0 ≤ n := by
      have hquotient : 0 ≤ (high - low) / step := div_nonneg (sub_nonneg.mpr h) hstep.le
      rw [hn] at hquotient
      exact_mod_cast hquotient
    obtain ⟨i, rfl⟩ := Int.eq_ofNat_of_zero_le hnonneg
    have hend : low + i * step = high := by
      rw [div_eq_iff hstep.ne', Int.cast_natCast] at hn
      rw [← hn, add_sub_cancel]
    have hmem := mem_closedGrid_of_le hstep i hend.le
    rwa [hend] at hmem

/-- **A grid has the points that it promises.** A half-open grid holds the points before its end, each
once and in their order, whether its step leads up or down. A closed grid starts at its lower end and
misses no point up to its upper end, which is one of them only if the steps lead there. -/
theorem grid_points (start stop step : K) :
    (0 < step →
      (halfOpenGrid start stop step).Pairwise (· < ·) ∧
      (∀ x, x ∈ halfOpenGrid start stop step ↔ ∃ i : ℕ, x = start + i * step ∧ x < stop) ∧
      (halfOpenGrid start stop step = [] ↔ stop ≤ start)) ∧
    (step < 0 →
      (halfOpenGrid start stop step).Pairwise (· > ·) ∧
      (∀ x, x ∈ halfOpenGrid start stop step ↔ ∃ i : ℕ, x = start + i * step ∧ stop < x)) ∧
    (0 < step → start ≤ stop →
      (closedGrid start stop step).head? = some start ∧
      (closedGrid start stop step).Pairwise (· < ·) ∧
      (∀ x ∈ closedGrid start stop step,
        (∃ i : ℕ, x = start + i * step) ∧ x ≤ stop + step / 10 ^ 6) ∧
      (stop ∈ closedGrid start stop step ↔ ∃ n : ℤ, (stop - start) / step = n) ∧
      ∀ i : ℕ, start + i * step ≤ stop → start + i * step ∈ closedGrid start stop step) := by
  refine ⟨fun hstep => ?_, fun hstep => ?_, fun hstep hle => ?_⟩
  · exact ⟨halfOpenGrid_increasing hstep, fun x => mem_halfOpenGrid_of_pos hstep,
      halfOpenGrid_eq_nil_iff hstep⟩
  · exact ⟨halfOpenGrid_decreasing hstep, fun x => mem_halfOpenGrid_of_neg hstep⟩
  · have hstretched : start < stop + step / 10 ^ 6 :=
      hle.trans_lt (lt_add_of_pos_right _ (by positivity))
    refine ⟨?_, ?_, fun x hx => ?_, high_mem_closedGrid_iff hstep hle, mem_closedGrid_of_le hstep⟩
    · rw [closedGrid_eq]
      exact halfOpenGrid_head hstep hstretched
    · rw [closedGrid_eq]
      exact halfOpenGrid_increasing hstep
    · obtain ⟨i, hi, hlt⟩ := (mem_closedGrid_iff hstep).mp hx
      exact ⟨⟨i, hi⟩, hlt.le⟩

/-- Steps of a quarter hit both ends of the unit interval. Steps of two sevenths miss the upper
one. -/
theorem unit_grid_points :
    (0 : ℚ) < 1 / 4 ∧ (-(1 / 4) : ℚ) < 0 ∧ (0 : ℚ) < 2 / 7 ∧
    3 / 4 ∈ halfOpenGrid (0 : ℚ) 1 (1 / 4) ∧ 1 ∉ halfOpenGrid (0 : ℚ) 1 (1 / 4) ∧
    1 / 4 ∈ halfOpenGrid (1 : ℚ) 0 (-(1 / 4)) ∧ 0 ∉ halfOpenGrid (1 : ℚ) 0 (-(1 / 4)) ∧
    1 ∈ closedGrid (0 : ℚ) 1 (1 / 4) ∧ 1 ∉ closedGrid (0 : ℚ) 1 (2 / 7) := by
  have hup : (0 : ℚ) < 1 / 4 := by norm_num
  have hdown : (-(1 / 4) : ℚ) < 0 := by norm_num
  have hseventh : (0 : ℚ) < 2 / 7 := by norm_num
  obtain ⟨-, hmem, -⟩ := (grid_points (0 : ℚ) 1 (1 / 4)).1 hup
  obtain ⟨-, hmem'⟩ := (grid_points (1 : ℚ) 0 (-(1 / 4))).2.1 hdown
  obtain ⟨-, -, -, hend, -⟩ := (grid_points (0 : ℚ) 1 (1 / 4)).2.2 hup zero_le_one
  obtain ⟨-, -, -, hend', -⟩ := (grid_points (0 : ℚ) 1 (2 / 7)).2.2 hseventh zero_le_one
  refine ⟨hup, hdown, hseventh, (hmem _).mpr ⟨3, by norm_num, by norm_num⟩, ?_,
    (hmem' _).mpr ⟨3, by norm_num, by norm_num⟩, ?_, hend.mpr ⟨4, by norm_num⟩, ?_⟩
  · intro h
    obtain ⟨-, -, hlt⟩ := (hmem 1).mp h
    exact lt_irrefl 1 hlt
  · intro h
    obtain ⟨-, -, hlt⟩ := (hmem' 0).mp h
    exact lt_irrefl 0 hlt
  · -- three and a half steps
    intro h
    obtain ⟨n, hn⟩ := hend'.mp h
    have htwice : ((2 * n : ℤ) : ℚ) = (7 : ℤ) := by
      push_cast
      rw [← hn]
      norm_num
    have hodd : 2 * n = 7 := by exact_mod_cast htwice
    omega

end FluidAnalysis.Numeric
