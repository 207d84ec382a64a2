import Mathlib
import FluidAnalysis.Proofs.Canonical.Levels
import FluidAnalysis.Proofs.Reals

/-!
# Ensembles over the real numbers

Over the real numbers the shift by the largest exponent cancels. The probabilities of an ensemble are
the Boltzmann weights of its levels over their sum, and its logarithm of the sum of states is the
logarithm of that sum (`probabilities_eq`, `lnPartition_eq`).

Adding a constant to the logarithmic density multiplies all weights by the same number, so it changes
no probability (`probabilities_shift`). The normalised density differs from the given one by such a
constant, and it is the same for all densities that do.

Main statement: `heatCapacity_agrees`.
-/

namespace FluidAnalysis.Canonical

open Exact Numeric

/-! ## Weights -/

/-- The Boltzmann weight of a level: its logarithmic density and its energy. -/
noncomputable def weight (t : ℝ) (level : ℝ × ℝ) : ℝ :=
  Real.exp (level.1 - level.2 / t)

/-- The sum of states. -/
noncomputable def partition (t : ℝ) (levels : List (ℝ × ℝ)) : ℝ :=
  (levels.map (weight t)).sum

/-- The share of a level in the sum of states. -/
noncomputable def probability (t : ℝ) (levels : List (ℝ × ℝ)) (level : ℝ × ℝ) : ℝ :=
  weight t level / partition t levels

theorem weight_pos (t : ℝ) (level : ℝ × ℝ) : 0 < weight t level := Real.exp_pos _

theorem sum_map_pos {β : Type} {f : β → ℝ} (hf : ∀ x, 0 < f x) {xs : List β} (h : xs ≠ []) :
    0 < (xs.map f).sum := by
  apply List.sum_pos
  · intro y hy
    obtain ⟨x, -, rfl⟩ := List.mem_map.mp hy
    exact hf x
  · simpa using h

theorem partition_pos {t : ℝ} {levels : List (ℝ × ℝ)} (h : levels ≠ []) :
    0 < partition t levels :=
  sum_map_pos (weight_pos t) h

/-- A shift of the exponents is a factor of the sum. -/
theorem sum_exp_sub (shift : ℝ) (xs : List ℝ) :
    (xs.map fun x => Real.exp (x - shift)).sum = (xs.map Real.exp).sum / Real.exp shift := by
  simp only [Real.exp_sub, div_eq_mul_inv]
  rw [List.sum_map_mul_right]

theorem ln_sum_exp_sub (shift : ℝ) {xs : List ℝ} (h : xs ≠ []) :
    shift + Real.log (xs.map fun x => Real.exp (x - shift)).sum = Real.log (xs.map Real.exp).sum := by
  have hpos : 0 < (xs.map Real.exp).sum := sum_map_pos Real.exp_pos h
  rw [sum_exp_sub, Real.log_div hpos.ne' (Real.exp_ne_zero shift), Real.log_exp,
    add_sub_cancel]

theorem partition_eq_sum_exp (t : ℝ) (levels : List (ℝ × ℝ)) :
    partition t levels = ((levels.map fun l => l.1 - l.2 / t).map Real.exp).sum := by
  rw [List.map_map]
  rfl

/-! ## Ensembles -/

section Ensemble

variable (t : ℝ) (energies lnDos : List ℝ)

/-- **The probabilities are the shares of the levels,** whatever the exponents were shifted by. -/
theorem probabilities_eq :
    (ensemble t energies lnDos).probabilities
      = (lnDos.zip energies).map (probability t (lnDos.zip energies)) := by
  have hshare : ∀ shift x : ℝ,
      Real.exp (x - shift) / (partition t (lnDos.zip energies) / Real.exp shift)
        = Real.exp x / partition t (lnDos.zip energies) := by
    intro shift x
    rw [Real.exp_sub, div_div_div_cancel_right₀ (Real.exp_ne_zero shift)]
  simp only [ensemble, scalarSum_eq, exp_eq, sum_exp_sub]
  rw [← partition_eq_sum_exp, List.map_map, List.map_map]
  exact List.map_congr_left fun level _ => hshare _ _

theorem lnPartition_eq (h : lnDos.zip energies ≠ []) :
    (ensemble t energies lnDos).lnPartition = Real.log (partition t (lnDos.zip energies)) := by
  simp only [ensemble, scalarSum_eq, exp_eq, ln_eq]
  rw [ln_sum_exp_sub _ (by simpa using h), ← partition_eq_sum_exp]

end Ensemble

/-- The mean energy of levels. -/
noncomputable def meanEnergy (t : ℝ) (levels : List (ℝ × ℝ)) : ℝ :=
  (levels.map fun l => l.2 * probability t levels l).sum

/-- The variance of their energy. -/
noncomputable def energyVariance (t : ℝ) (levels : List (ℝ × ℝ)) : ℝ :=
  (levels.map fun l =>
    (l.2 - meanEnergy t levels) * (l.2 - meanEnergy t levels) * probability t levels l).sum

/-- An energy with its probability is a level with its share. -/
theorem zip_map_levels {β : Type} (f : ℝ × ℝ → β) (energies lnDos : List ℝ) :
    energies.zip ((lnDos.zip energies).map f) = (lnDos.zip energies).map fun l => (l.2, f l) := by
  induction lnDos generalizing energies with
  | nil => simp
  | cons g lnDos ih =>
    cases energies with
    | nil => rfl
    | cons e energies =>
      rw [List.zip_cons_cons, List.map_cons, List.zip_cons_cons, ih, List.map_cons]

theorem moments_eq (t : ℝ) (energies lnDos : List ℝ) :
    moments (ensemble t energies lnDos).probabilities energies
      = (meanEnergy t (lnDos.zip energies), energyVariance t (lnDos.zip energies)) := by
  simp only [moments, probabilities_eq, zip_map_levels, List.map_map, scalarSum_eq]
  rfl

/-! ## A constant added to the density -/

theorem weight_shift (t c : ℝ) (level : ℝ × ℝ) :
    weight t (Prod.map (· + c) id level) = Real.exp c * weight t level := by
  rw [weight, weight, ← Real.exp_add]
  congr 1
  show level.1 + c - level.2 / t = c + (level.1 - level.2 / t)
  ring

theorem partition_shift (t c : ℝ) (levels : List (ℝ × ℝ)) :
    partition t (levels.map (Prod.map (· + c) id)) = Real.exp c * partition t levels := by
  rw [partition, List.map_map, partition, ← List.sum_map_mul_left]
  exact congrArg List.sum (List.map_congr_left fun level _ => weight_shift t c level)

theorem probability_shift (t c : ℝ) (levels : List (ℝ × ℝ)) (level : ℝ × ℝ) :
    probability t (levels.map (Prod.map (· + c) id)) (Prod.map (· + c) id level)
      = probability t levels level := by
  rw [probability, weight_shift, partition_shift, probability,
    mul_div_mul_left _ _ (Real.exp_ne_zero c)]

/-- **A constant that is added to the logarithmic density changes no probability.** -/
theorem probabilities_shift (t c : ℝ) (energies lnDos : List ℝ) :
    (ensemble t energies (lnDos.map (· + c))).probabilities
      = (ensemble t energies lnDos).probabilities := by
  rw [probabilities_eq, probabilities_eq, List.zip_map_left, List.map_map]
  exact List.map_congr_left fun level _ => probability_shift t c _ level

/-- The normalised density is the given one less the logarithm of its sum of states. -/
theorem normalizeLnDos_eq (lnDos : List ℝ) :
    normalizeLnDos lnDos = lnDos.map (· + -Real.log (lnDos.map Real.exp).sum) := by
  cases lnDos with
  | nil => rfl
  | cons first rest =>
    simp only [normalizeLnDos, scalarSum_eq, exp_eq, ln_eq]
    rw [ln_sum_exp_sub _ (List.cons_ne_nil first rest)]
    simp only [sub_eq_add_neg]

theorem normalizeLnDos_shift (c : ℝ) (lnDos : List ℝ) :
    normalizeLnDos (lnDos.map (· + c)) = normalizeLnDos lnDos := by
  cases lnDos with
  | nil => rfl
  | cons first rest =>
    have hsum := ln_sum_exp_sub (-c) (List.cons_ne_nil first rest)
    simp only [sub_neg_eq_add] at hsum
    rw [normalizeLnDos_eq, normalizeLnDos_eq, ← hsum, List.map_map, List.map_map]
    refine List.map_congr_left fun value _ => ?_
    show value + c + -Real.log ((first :: rest).map fun x => Real.exp (x + c)).sum = _
    ring

/-! ## The two heat capacities -/

theorem checkLevels_map (energies lnDos : List ℝ) (f : ℝ → ℝ) :
    checkLevels energies (lnDos.map f) = checkLevels energies lnDos := by
  rw [checkLevels, List.length_map, checkLevels]

theorem firstDepleted_shift (c : ℝ) (energies lnDos : List ℝ) (threshold : ℝ)
    (temperatures : List ℝ) :
    firstDepleted energies (lnDos.map (· + c)) threshold temperatures
      = firstDepleted energies lnDos threshold temperatures := by
  induction temperatures with
  | nil => rfl
  | cons t rest ih =>
    rw [firstDepleted, firstDepleted, groundProbability, probabilities_shift, groundProbability, ih]

/-- The properties of levels at one temperature. -/
noncomputable def propertiesAt (levels : List (ℝ × ℝ)) (t : ℝ) : Properties ℝ :=
  ⟨t, meanEnergy t levels, energyVariance t levels / (t * t),
    (meanEnergy t levels - -t * Real.log (partition t levels)) / t⟩

/-- The levels with the normalised density. -/
noncomputable def normalizedLevels (energies lnDos : List ℝ) : List (ℝ × ℝ) :=
  (normalizeLnDos lnDos).zip energies

theorem length_normalizeLnDos (lnDos : List ℝ) :
    (normalizeLnDos lnDos).length = lnDos.length := by
  rw [normalizeLnDos_eq, List.length_map]

theorem normalizedLevels_ne_nil {energies lnDos : List ℝ} (hlength : energies.length = lnDos.length)
    (hne : energies ≠ []) : normalizedLevels energies lnDos ≠ [] := by
  rw [← List.length_pos_iff, normalizedLevels, List.length_zip, length_normalizeLnDos, ← hlength,
    Nat.min_self]
  exact List.length_pos_iff.mpr hne

theorem properties_eq_ok (temperatures : List ℝ) {energies lnDos : List ℝ}
    (hlength : energies.length = lnDos.length) (hne : energies ≠ []) :
    properties temperatures energies lnDos
      = .ok (temperatures.map (propertiesAt (normalizedLevels energies lnDos))) := by
  have hlevels := normalizedLevels_ne_nil hlength hne
  simp only [properties, checkLevels_of_length hlength hne, moments_eq,
    lnPartition_eq _ _ _ hlevels]
  rfl

theorem map_temperature_propertiesAt (levels : List (ℝ × ℝ)) (temperatures : List ℝ) :
    (temperatures.map (propertiesAt levels)).map Properties.temperature = temperatures := by
  rw [List.map_map]
  exact List.map_id temperatures

theorem heatCapacity_eq_ok (temperatures : List ℝ) {energies lnDos : List ℝ}
    (hlength : energies.length = lnDos.length) (hne : energies ≠ []) (offset : ℝ) :
    heatCapacity temperatures energies lnDos offset
      = .ok (temperatures.map fun t => energyVariance t (lnDos.zip energies) / (t * t) + offset) := by
  simp only [heatCapacity, checkLevels_of_length hlength hne, moments_eq]
  rfl

/-- The variance of the energy does not depend on the normalisation. -/
theorem energyVariance_normalizedLevels (t : ℝ) (energies lnDos : List ℝ) :
    energyVariance t (normalizedLevels energies lnDos) = energyVariance t (lnDos.zip energies) := by
  have hmoments : moments (ensemble t energies (normalizeLnDos lnDos)).probabilities energies
      = moments (ensemble t energies lnDos).probabilities energies := by
    rw [normalizeLnDos_eq, probabilities_shift]
  rw [moments_eq, moments_eq] at hmoments
  exact congrArg Prod.snd hmoments

/-- **Both ways to the heat capacity agree, and neither depends on the normalisation.** One of them
normalises the density first. Entry by entry they differ by the offset alone, and a constant added to
the logarithmic density changes no heat capacity, no property and no lowest temperature to trust. -/
theorem heatCapacity_agrees (temperatures : List ℝ) {energies lnDos : List ℝ}
    (hlength : energies.length = lnDos.length) (hne : energies ≠ []) (offset threshold c : ℝ) :
    (∃ ps, properties temperatures energies lnDos = .ok ps ∧
      ps.map Properties.temperature = temperatures ∧
      heatCapacity temperatures energies lnDos offset
        = .ok (ps.map fun p => p.heatCapacity + offset)) ∧
    heatCapacity temperatures energies (lnDos.map (· + c)) offset
      = heatCapacity temperatures energies lnDos offset ∧
    properties temperatures energies (lnDos.map (· + c)) = properties temperatures energies lnDos ∧
    minimumTemperature temperatures energies (lnDos.map (· + c)) threshold
      = minimumTemperature temperatures energies lnDos threshold := by
  refine ⟨⟨_, properties_eq_ok temperatures hlength hne, map_temperature_propertiesAt _ _, ?_⟩,
    ?_, ?_, ?_⟩
  · rw [heatCapacity_eq_ok temperatures hlength hne, List.map_map]
    refine congrArg Except.ok (List.map_congr_left fun t _ => ?_)
    rw [← energyVariance_normalizedLevels]
    rfl
  · simp only [heatCapacity, checkLevels_map, probabilities_shift]
  · simp only [properties, checkLevels_map, normalizeLnDos_shift]
  · simp only [minimumTemperature, checkLevels_map, firstDepleted_shift]

/-- Two levels, below and above zero temperature. -/
theorem heatCapacity_agrees_two :
    ([0, 1] : List ℝ).length = ([3, 5] : List ℝ).length ∧ ([0, 1] : List ℝ) ≠ [] ∧
    (∃ ps, properties [-1, 1 / 2] [0, 1] [3, 5] = .ok ps ∧
      ps.map Properties.temperature = ([-1, 1 / 2] : List ℝ) ∧
      heatCapacity [-1, 1 / 2] [0, 1] [3, 5] (3 / 2)
        = .ok (ps.map fun p => p.heatCapacity + 3 / 2)) ∧
    heatCapacity [-1, 1 / 2] [0, 1] (([3, 5] : List ℝ).map (· + 7)) (3 / 2)
      = heatCapacity [-1, 1 / 2] [0, 1] [3, 5] (3 / 2) ∧
    properties [-1, 1 / 2] [0, 1] (([3, 5] : List ℝ).map (· + 7))
      = properties [-1, 1 / 2] [0, 1] [3, 5] ∧
    minimumTemperature [-1, 1 / 2] [0, 1] (([3, 5] : List ℝ).map (· + 7)) (1 / 2)
      = minimumTemperature [-1, 1 / 2] [0, 1] [3, 5] (1 / 2) := by
  have hlength : ([0, 1] : List ℝ).length = ([3, 5] : List ℝ).length := rfl
  have hne : ([0, 1] : List ℝ) ≠ [] := List.cons_ne_nil 0 [1]
  exact ⟨hlength, hne, heatCapacity_agrees [-1, 1 / 2] hlength hne (3 / 2) (1 / 2) 7⟩

end FluidAnalysis.Canonical
