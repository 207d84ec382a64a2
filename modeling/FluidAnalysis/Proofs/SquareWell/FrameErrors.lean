import Mathlib
import FluidAnalysis.SquareWell.Convergence
import FluidAnalysis.Proofs.Exact

/-!
# Errors of a frame

A density of states is known up to a factor, so its logarithm is known up to a constant. The errors
of a frame are those that are left when the mean error has been taken away. No constant changes them
(`frameErrors_shift`), and they sum to zero (`sum_residuals`). Hence the largest of them is not
negative, the smallest not positive, and none is further from zero than the two are apart
(`FrameErrors.Summarizes.abs_le_maxError`).

Main statement: `frameErrors_balanced`, in exact arithmetic.
-/

namespace FluidAnalysis.SquareWell

open Exact Numeric

/-! ## Outcomes -/

section Outcomes

variable {α : Type} [Scalar α] {lnDos reference : List α} {offset : ℕ}

/-- The errors of a frame from those of its rows. -/
def FrameErrors.ofRows (errors : List α) (atEnergy : α) : FrameErrors α where
  inEntropy := sum (errors.map Scalar.abs) / (errors.length : α)
  atEnergy := atEnergy
  maxError := maximum errors - minimum errors

theorem length_residuals (hlength : lnDos.length = reference.length) :
    (residuals lnDos reference).length = lnDos.length := by
  simp [residuals, hlength]

theorem frameErrors_of_slices (h : lnDos.length ≠ reference.length ∨ lnDos = []) :
    frameErrors lnDos reference offset
      = .error (.sliceLengths lnDos.length reference.length) := by
  refine if_pos ?_
  simpa using h

/-- Slices that match leave only the offset to fail. -/
theorem frameErrors_of_matched (hlength : lnDos.length = reference.length) (hne : lnDos ≠ []) :
    frameErrors lnDos reference offset
      = ((residuals lnDos reference)[offset]?.elim
          (.error (.energyOffset offset lnDos.length))
          fun atEnergy => .ok (.ofRows (residuals lnDos reference) atEnergy)) := by
  have hmatched : ¬ (lnDos.length != reference.length || lnDos.isEmpty) = true := by
    simpa [hlength] using hne
  unfold frameErrors
  rw [if_neg hmatched, ← length_residuals hlength]
  dsimp only
  cases (residuals lnDos reference)[offset]? <;> rfl

theorem frameErrors_of_offset (hlength : lnDos.length = reference.length) (hne : lnDos ≠ [])
    (hoffset : lnDos.length ≤ offset) :
    frameErrors lnDos reference offset = .error (.energyOffset offset lnDos.length) := by
  rw [frameErrors_of_matched hlength hne,
    List.getElem?_eq_none ((length_residuals hlength).trans_le hoffset)]
  rfl

theorem frameErrors_of_row {atEnergy : α} (hlength : lnDos.length = reference.length)
    (hne : lnDos ≠ []) (hrow : (residuals lnDos reference)[offset]? = some atEnergy) :
    frameErrors lnDos reference offset = .ok (.ofRows (residuals lnDos reference) atEnergy) := by
  rw [frameErrors_of_matched hlength hne, hrow]
  rfl

theorem exists_row (hlength : lnDos.length = reference.length) (hoffset : offset < lnDos.length) :
    ∃ atEnergy, (residuals lnDos reference)[offset]? = some atEnergy :=
  ⟨_, List.getElem?_eq_getElem (hoffset.trans_eq (length_residuals hlength).symm)⟩

/-- The failures, in the order in which they are looked for. -/
theorem frameErrors_eq_error_iff {failure : Failure} :
    frameErrors lnDos reference offset = .error failure ↔
      (lnDos.length ≠ reference.length ∨ lnDos = []) ∧
        failure = .sliceLengths lnDos.length reference.length ∨
      (lnDos.length = reference.length ∧ lnDos ≠ [] ∧ lnDos.length ≤ offset) ∧
        failure = .energyOffset offset lnDos.length := by
  constructor
  · intro h
    by_cases hslices : lnDos.length ≠ reference.length ∨ lnDos = []
    · rw [frameErrors_of_slices hslices] at h
      exact .inl ⟨hslices, (Except.error.inj h).symm⟩
    · push Not at hslices
      obtain ⟨hlength, hne⟩ := hslices
      rcases Nat.lt_or_ge offset lnDos.length with hin | hout
      · obtain ⟨atEnergy, hrow⟩ := exists_row hlength hin
        rw [frameErrors_of_row hlength hne hrow] at h
        cases h
      · rw [frameErrors_of_offset hlength hne hout] at h
        exact .inr ⟨⟨hlength, hne, hout⟩, (Except.error.inj h).symm⟩
  · rintro (⟨hslices, rfl⟩ | ⟨⟨hlength, hne, hout⟩, rfl⟩)
    · exact frameErrors_of_slices hslices
    · exact frameErrors_of_offset hlength hne hout

theorem frameErrors_code_iff {code : String} :
    (∃ failure, frameErrors lnDos reference offset = .error failure ∧ failure.code = code) ↔
      (lnDos.length ≠ reference.length ∨ lnDos = []) ∧ "RUN.COMPARISON_SLICE" = code ∨
      (lnDos.length = reference.length ∧ lnDos ≠ [] ∧ lnDos.length ≤ offset) ∧
        "INPUT.COMPARISON_ENERGY" = code := by
  simp only [frameErrors_eq_error_iff, or_and_right, exists_or, and_assoc, exists_eq_left,
    exists_and_left]
  rfl

end Outcomes

variable {K : Type} [Field K] [LinearOrder K] [IsStrictOrderedRing K] [IntegerParts K]

/-! ## Rows that sum to zero -/

/-- What the errors of a frame say about those of its rows. -/
structure FrameErrors.Summarizes (errors : FrameErrors K) (rows : List K) (offset : ℕ) : Prop where
  atEnergy : rows[offset]? = some errors.atEnergy
  inEntropy : errors.inEntropy = (rows.map (|·|)).sum / rows.length
  maxError : ∃ highest lowest, IsGreatest {x | x ∈ rows} highest ∧ IsLeast {x | x ∈ rows} lowest ∧
    errors.maxError = highest - lowest

theorem FrameErrors.summarizes_ofRows {rows : List K} {offset : ℕ} {atEnergy : K}
    (h : rows[offset]? = some atEnergy) :
    (FrameErrors.ofRows rows atEnergy).Summarizes rows offset := by
  have hne : rows ≠ [] := List.ne_nil_of_mem (List.mem_of_getElem? h)
  exact ⟨h, congrArg (· / (rows.length : K)) (scalarSum_eq _), _, _, isGreatest_maximum hne,
    isLeast_minimum hne, rfl⟩

section Balanced

variable {rows : List K} {offset : ℕ} {errors : FrameErrors K}

theorem highest_nonneg {highest : K} (h : IsGreatest {x | x ∈ rows} highest)
    (hsum : rows.sum = 0) : 0 ≤ highest := by
  have hbound : rows.sum ≤ rows.length • highest := List.sum_le_card_nsmul rows _ h.2
  rw [hsum] at hbound
  exact (nsmul_nonneg_iff (List.length_pos_of_mem h.1).ne').mp hbound

theorem lowest_nonpos {lowest : K} (h : IsLeast {x | x ∈ rows} lowest) (hsum : rows.sum = 0) :
    lowest ≤ 0 := by
  have hbound : rows.length • lowest ≤ rows.sum := List.card_nsmul_le_sum rows _ h.2
  rw [hsum] at hbound
  exact (nsmul_nonpos_iff (List.length_pos_of_mem h.1).ne').mp hbound

namespace FrameErrors.Summarizes

/-- **No row is further from zero than the extremes are apart.** -/
theorem abs_le_maxError (h : errors.Summarizes rows offset) (hsum : rows.sum = 0) {x : K}
    (hx : x ∈ rows) : |x| ≤ errors.maxError := by
  obtain ⟨highest, lowest, hhighest, hlowest, hmax⟩ := h.maxError
  have hupper : x ≤ highest := hhighest.2 hx
  have hlower : lowest ≤ x := hlowest.2 hx
  have hnonneg := highest_nonneg hhighest hsum
  have hnonpos := lowest_nonpos hlowest hsum
  rw [hmax, abs_le]
  constructor <;> linarith

theorem inEntropy_nonneg (h : errors.Summarizes rows offset) : 0 ≤ errors.inEntropy := by
  rw [h.inEntropy]
  refine div_nonneg (List.sum_nonneg ?_) (Nat.cast_nonneg _)
  simp

theorem inEntropy_le_maxError (h : errors.Summarizes rows offset) (hsum : rows.sum = 0) :
    errors.inEntropy ≤ errors.maxError := by
  have hlength : (0 : K) < rows.length :=
    Nat.cast_pos.mpr (List.length_pos_of_mem (List.mem_of_getElem? h.atEnergy))
  have hbound : (rows.map (|·|)).sum ≤ (rows.map (|·|)).length • errors.maxError := by
    refine List.sum_le_card_nsmul _ _ fun y hy => ?_
    obtain ⟨x, hx, rfl⟩ := List.mem_map.mp hy
    exact h.abs_le_maxError hsum hx
  rw [List.length_map, nsmul_eq_mul] at hbound
  rw [h.inEntropy, div_le_iff₀' hlength]
  exact hbound

omit [IsStrictOrderedRing K] in
theorem maxError_eq_zero_iff (h : errors.Summarizes rows offset) :
    errors.maxError = 0 ↔ ∃ c, ∀ x ∈ rows, x = c := by
  obtain ⟨highest, lowest, hhighest, hlowest, hmax⟩ := h.maxError
  rw [hmax, sub_eq_zero]
  constructor
  · rintro rfl
    exact ⟨highest, fun x hx => le_antisymm (hhighest.2 hx) (hlowest.2 hx)⟩
  · rintro ⟨c, hc⟩
    rw [hc _ hhighest.1, hc _ hlowest.1]

end FrameErrors.Summarizes

end Balanced

/-! ## Residuals -/

section Residuals

variable {lnDos reference : List K}

theorem mean_shift {values : List K} (hne : values ≠ []) (c : K) :
    mean (values.map (· + c)) = mean values + c := by
  have hlength : (values.length : K) ≠ 0 := by simpa using hne
  have hsum : (values.map (· + c)).sum = values.sum + values.length * c := by
    simp [List.sum_map_add]
  rw [scalarMean_eq (by simpa using hne), scalarMean_eq hne, hsum, List.length_map]
  field_simp

/-- A constant in either list goes into the norm. -/
theorem residuals_shift (hlength : lnDos.length = reference.length) (hne : lnDos ≠ []) (c d : K) :
    residuals (lnDos.map (· + c)) (reference.map (· + d)) = residuals lnDos reference := by
  have hne' : reference ≠ [] :=
    List.ne_nil_of_length_pos (hlength ▸ List.length_pos_iff.mpr hne)
  unfold residuals
  simp only [mean_shift hne, mean_shift hne', List.zip_map, List.map_map]
  refine List.map_congr_left fun p _ => ?_
  show p.1 + c - (p.2 + d) - _ = p.1 - p.2 - _
  ring

theorem sum_differences (hlength : lnDos.length = reference.length) (norm : K) :
    ((lnDos.zip reference).map fun p => p.1 - p.2 - norm).sum
      = lnDos.sum - reference.sum - lnDos.length * norm := by
  induction lnDos generalizing reference with
  | nil =>
    obtain rfl : reference = [] := List.length_eq_zero_iff.mp hlength.symm
    simp
  | cons value rest ih =>
    cases reference with
    | nil => cases hlength
    | cons expected others =>
      rw [List.zip_cons_cons, List.map_cons, List.sum_cons, ih (Nat.succ.inj hlength)]
      simp only [List.sum_cons, List.length_cons, Nat.cast_succ]
      ring

/-- **The residuals sum to zero.** -/
theorem sum_residuals (hlength : lnDos.length = reference.length) (hne : lnDos ≠ []) :
    (residuals lnDos reference).sum = 0 := by
  have hne' : reference ≠ [] :=
    List.ne_nil_of_length_pos (hlength ▸ List.length_pos_iff.mpr hne)
  have hcount : (reference.length : K) ≠ 0 := by simpa using hne'
  refine (sum_differences hlength (mean lnDos - mean reference)).trans ?_
  rw [scalarMean_eq hne, scalarMean_eq hne', hlength]
  field_simp
  ring

omit [IsStrictOrderedRing K] in
theorem residuals_constant_iff :
    (∃ c, ∀ x ∈ residuals lnDos reference, x = c) ↔
      ∃ c, ∀ p ∈ lnDos.zip reference, p.1 - p.2 = c := by
  constructor
  · rintro ⟨c, hc⟩
    refine ⟨c + (mean lnDos - mean reference), fun p hp => ?_⟩
    exact sub_eq_iff_eq_add.mp (hc _ (List.mem_map_of_mem hp))
  · rintro ⟨c, hc⟩
    refine ⟨c - (mean lnDos - mean reference), fun x hx => ?_⟩
    obtain ⟨p, hp, rfl⟩ := List.mem_map.mp hx
    exact congrArg (· - (mean lnDos - mean reference)) (hc p hp)

end Residuals

/-! ## Errors -/

/-- **No constant changes the errors of a frame,** nor whether there are any. -/
theorem frameErrors_shift (lnDos reference : List K) (offset : ℕ) (c d : K) :
    frameErrors (lnDos.map (· + c)) (reference.map (· + d)) offset
      = frameErrors lnDos reference offset := by
  by_cases h : lnDos.length ≠ reference.length ∨ lnDos = []
  · rw [frameErrors_of_slices h, frameErrors_of_slices (by simpa using h), List.length_map,
      List.length_map]
  · push Not at h
    obtain ⟨hlength, hne⟩ := h
    rw [frameErrors_of_matched hlength hne, frameErrors_of_matched (by simpa using hlength)
      (by simpa using hne), residuals_shift hlength hne, List.length_map]

/-- **The errors of a frame fit together, and no constant changes them.** Slices of one length that
are not empty have errors for every offset inside them. They summarize the residuals, which are the
differences of the slices less a constant, and sum to zero. The mean error lies between zero and the
largest error, the error at the tracked energy is no larger than that in either direction, and the
largest error is zero exactly if the slices differ by a constant. A constant that is added to either
slice changes nothing. Slices that do not match, or are empty, are reported as such, and of the
others those that do not reach the offset. -/
theorem frameErrors_balanced (lnDos reference : List K) (offset : ℕ) :
    (lnDos ≠ [] → lnDos.length = reference.length → offset < lnDos.length →
      ∃ errors, frameErrors lnDos reference offset = .ok errors ∧
        errors.Summarizes (residuals lnDos reference) offset ∧
        (∃ norm, residuals lnDos reference
          = (lnDos.zip reference).map fun p => p.1 - p.2 - norm) ∧
        (residuals lnDos reference).sum = 0 ∧
        0 ≤ errors.inEntropy ∧ errors.inEntropy ≤ errors.maxError ∧
        |errors.atEnergy| ≤ errors.maxError ∧
        (errors.maxError = 0 ↔ ∃ c, ∀ p ∈ lnDos.zip reference, p.1 - p.2 = c)) ∧
    (∀ c, frameErrors (lnDos.map (· + c)) reference offset = frameErrors lnDos reference offset ∧
      frameErrors lnDos (reference.map (· + c)) offset = frameErrors lnDos reference offset) ∧
    ((∃ failure, frameErrors lnDos reference offset = .error failure ∧
      failure.code = "RUN.COMPARISON_SLICE") ↔
        lnDos.length ≠ reference.length ∨ lnDos = []) ∧
    ((∃ failure, frameErrors lnDos reference offset = .error failure ∧
      failure.code = "INPUT.COMPARISON_ENERGY") ↔
        lnDos.length = reference.length ∧ lnDos ≠ [] ∧ lnDos.length ≤ offset) := by
  refine ⟨fun hne hlength hoffset => ?_, fun c => ⟨?_, ?_⟩, ?_, ?_⟩
  · obtain ⟨atEnergy, hrow⟩ := exists_row hlength hoffset
    have hsum : (residuals lnDos reference).sum = 0 := sum_residuals hlength hne
    have hall := FrameErrors.summarizes_ofRows hrow
    refine ⟨_, frameErrors_of_row hlength hne hrow, hall, ⟨_, rfl⟩, hsum, hall.inEntropy_nonneg,
      hall.inEntropy_le_maxError hsum, hall.abs_le_maxError hsum (List.mem_of_getElem? hrow), ?_⟩
    rw [hall.maxError_eq_zero_iff, residuals_constant_iff]
  · simpa using frameErrors_shift lnDos reference offset c 0
  · simpa using frameErrors_shift lnDos reference offset 0 c
  · rw [frameErrors_code_iff]
    simp
  · rw [frameErrors_code_iff]
    simp

/-- Residuals `0`, `1/2` and `-1/2`, before and after a constant. -/
theorem frameErrors_balanced_three :
    ∃ errors : FrameErrors ℚ, frameErrors [11, 25 / 2, 25 / 2] [1, 2, 3] 1 = .ok errors ∧
      frameErrors [18, 39 / 2, 39 / 2] [1, 2, 3] 1 = .ok errors ∧
      0 ≤ errors.inEntropy ∧ errors.inEntropy ≤ errors.maxError ∧
      |errors.atEnergy| ≤ errors.maxError ∧ errors.maxError ≠ 0 := by
  obtain ⟨hin, hshift, -, -⟩ := frameErrors_balanced ([11, 25 / 2, 25 / 2] : List ℚ) [1, 2, 3] 1
  obtain ⟨errors, hok, -, -, -, hnonneg, hle, hat, hzero⟩ := hin (by simp) (by rfl) (by simp)
  have hconstant := (hshift 7).1
  norm_num at hconstant
  refine ⟨errors, hok, hconstant.trans hok, hnonneg, hle, hat, fun h => ?_⟩
  obtain ⟨c, hc⟩ := hzero.mp h
  have hfirst := hc (11, 1) (by simp)
  have hsecond := hc (25 / 2, 2) (by simp)
  norm_num at hfirst hsecond
  linarith

end FluidAnalysis.SquareWell
