import Mathlib
import FluidAnalysis.Proofs.Canonical.Ensemble

/-!
# Bounds on canonical averages

The probabilities of an ensemble are not negative and add up to one, so a mean over them lies between
the extremes of what it averages (`le_mean`, `mean_le`). For the entropy the density of states must
add up to one as well. Then `S = ∑ p (E / T + ln Z)` compares the probabilities with the density, and
each of its terms is at most the density of the level less its probability
(`add_one_mul_exp_neg_le`).

Main statement: `properties_bounds`.
-/

namespace FluidAnalysis.Canonical

open Exact Numeric

section Probability

variable {t : ℝ} {levels : List (ℝ × ℝ)}

theorem probability_nonneg (h : levels ≠ []) (level : ℝ × ℝ) : 0 ≤ probability t levels level :=
  div_nonneg (weight_pos t level).le (partition_pos h).le

theorem sum_probability (h : levels ≠ []) : (levels.map (probability t levels)).sum = 1 := by
  have hshare : ∀ l ∈ levels, probability t levels l = weight t l * (partition t levels)⁻¹ :=
    fun _ _ => div_eq_mul_inv _ _
  rw [List.map_congr_left hshare, List.sum_map_mul_right]
  exact mul_inv_cancel₀ (partition_pos h).ne'

/-- A constant has itself as its mean. -/
theorem mean_const (h : levels ≠ []) (value : ℝ) :
    (levels.map fun l => value * probability t levels l).sum = value := by
  rw [List.sum_map_mul_left, sum_probability h, mul_one]

theorem mean_le {f : ℝ × ℝ → ℝ} {high : ℝ} (h : levels ≠ []) (hf : ∀ l ∈ levels, f l ≤ high) :
    (levels.map fun l => f l * probability t levels l).sum ≤ high := by
  calc (levels.map fun l => f l * probability t levels l).sum
      ≤ (levels.map fun l => high * probability t levels l).sum :=
        List.sum_le_sum fun l hl => mul_le_mul_of_nonneg_right (hf l hl) (probability_nonneg h l)
    _ = high := mean_const h high

theorem le_mean {f : ℝ × ℝ → ℝ} {low : ℝ} (h : levels ≠ []) (hf : ∀ l ∈ levels, low ≤ f l) :
    low ≤ (levels.map fun l => f l * probability t levels l).sum := by
  calc low = (levels.map fun l => low * probability t levels l).sum := (mean_const h low).symm
    _ ≤ (levels.map fun l => f l * probability t levels l).sum :=
        List.sum_le_sum fun l hl => mul_le_mul_of_nonneg_right (hf l hl) (probability_nonneg h l)

theorem energyVariance_nonneg (h : levels ≠ []) : 0 ≤ energyVariance t levels :=
  le_mean h fun _ _ => mul_self_nonneg _

/-! ## Entropy -/

/-- The entropy is the mean of `E / T + ln Z`. -/
theorem entropy_eq_mean (h : levels ≠ []) (ht : t ≠ 0) :
    (propertiesAt levels t).entropy
      = (levels.map fun l =>
          (l.2 / t + Real.log (partition t levels)) * probability t levels l).sum := by
  have hsplit : ∀ l : ℝ × ℝ,
      (l.2 / t + Real.log (partition t levels)) * probability t levels l
        = t⁻¹ * (l.2 * probability t levels l)
          + Real.log (partition t levels) * probability t levels l := by
    intro l
    ring
  simp only [hsplit]
  rw [List.sum_map_add, List.sum_map_mul_left, mean_const h]
  show (meanEnergy t levels - -t * Real.log (partition t levels)) / t
    = t⁻¹ * meanEnergy t levels + Real.log (partition t levels)
  field_simp
  ring

/-- The probability of a level, from its density and `E / T + ln Z`. -/
theorem probability_eq_exp (h : levels ≠ []) (level : ℝ × ℝ) :
    probability t levels level
      = Real.exp level.1 * Real.exp (-(level.2 / t + Real.log (partition t levels))) := by
  have hexponent : level.1 + -(level.2 / t + Real.log (partition t levels))
      = level.1 - level.2 / t - Real.log (partition t levels) := by ring
  rw [← Real.exp_add, hexponent, Real.exp_sub, Real.exp_log (partition_pos h)]
  rfl

theorem add_one_mul_exp_neg_le (x : ℝ) : (x + 1) * Real.exp (-x) ≤ 1 := by
  calc (x + 1) * Real.exp (-x)
      ≤ Real.exp x * Real.exp (-x) :=
        mul_le_mul_of_nonneg_right (Real.add_one_le_exp x) (Real.exp_pos _).le
    _ = 1 := by rw [← Real.exp_add, add_neg_cancel, Real.exp_zero]

/-- **The entropy is not positive** when the density of states adds up to one. -/
theorem entropy_nonpos (h : levels ≠ []) (ht : t ≠ 0)
    (hnormal : (levels.map fun l => Real.exp l.1).sum = 1) :
    (propertiesAt levels t).entropy ≤ 0 := by
  have hterm : ∀ l ∈ levels,
      (l.2 / t + Real.log (partition t levels)) * probability t levels l + probability t levels l
        ≤ Real.exp l.1 := by
    intro l _
    have hdensity := mul_le_mul_of_nonneg_left
      (add_one_mul_exp_neg_le (l.2 / t + Real.log (partition t levels))) (Real.exp_pos l.1).le
    rw [probability_eq_exp h]
    linarith
  have hsum := List.sum_le_sum hterm
  rw [List.sum_map_add, ← entropy_eq_mean h ht, sum_probability h, hnormal] at hsum
  linarith

/-- Levels of one energy have the entropy of the density alone, which is zero when that adds up to
one. -/
theorem entropy_eq_zero (h : levels ≠ []) (ht : t ≠ 0)
    (hnormal : (levels.map fun l => Real.exp l.1).sum = 1) {energy : ℝ}
    (hsame : ∀ l ∈ levels, l.2 = energy) : (propertiesAt levels t).entropy = 0 := by
  have hpartition : partition t levels = Real.exp (-(energy / t)) := by
    have hweight : ∀ l ∈ levels, weight t l = Real.exp l.1 * Real.exp (-(energy / t)) := by
      intro l hl
      rw [weight, hsame l hl, sub_eq_add_neg, Real.exp_add]
    rw [partition, List.map_congr_left hweight, List.sum_map_mul_right, hnormal, one_mul]
  have hterm : ∀ l ∈ levels,
      (l.2 / t + Real.log (partition t levels)) * probability t levels l = 0 := by
    intro l hl
    rw [hsame l hl, hpartition, Real.log_exp, add_neg_cancel, zero_mul]
  rw [entropy_eq_mean h ht, List.map_congr_left hterm]
  simp

end Probability

/-! ## The normalised density -/

/-- The states of the normalised density add up to one. -/
theorem sum_exp_normalizeLnDos {lnDos : List ℝ} (h : lnDos ≠ []) :
    ((normalizeLnDos lnDos).map Real.exp).sum = 1 := by
  have hpos : 0 < (lnDos.map Real.exp).sum := sum_map_pos Real.exp_pos h
  rw [normalizeLnDos_eq, List.map_map]
  show (lnDos.map fun x => Real.exp (x + -Real.log (lnDos.map Real.exp).sum)).sum = 1
  simp only [← sub_eq_add_neg]
  rw [sum_exp_sub, Real.exp_log hpos, div_self hpos.ne']

theorem map_fst_normalizedLevels {energies lnDos : List ℝ}
    (hlength : energies.length = lnDos.length) :
    (normalizedLevels energies lnDos).map Prod.fst = normalizeLnDos lnDos :=
  List.map_fst_zip (by rw [length_normalizeLnDos, hlength])

theorem energy_mem_of_mem {energies lnDos : List ℝ} {level : ℝ × ℝ}
    (h : level ∈ normalizedLevels energies lnDos) : level.2 ∈ energies :=
  (List.of_mem_zip h).2

/-- **Canonical averages obey their bounds.** There is an answer for every temperature, in order. Its
internal energy lies between the smallest and the largest energy, its heat capacity is not negative,
and its entropy is not positive, since the states of the density it uses add up to one. It is zero
when all energies are the same. -/
theorem properties_bounds {temperatures energies lnDos : List ℝ}
    (hlength : energies.length = lnDos.length) (hne : energies ≠ [])
    (htemperatures : ∀ t ∈ temperatures, t ≠ 0) :
    ((normalizeLnDos lnDos).map Real.exp).sum = 1 ∧
    ∃ low ∈ energies, ∃ high ∈ energies, (∀ e ∈ energies, low ≤ e ∧ e ≤ high) ∧
      ∃ ps, properties temperatures energies lnDos = .ok ps ∧
        ps.map Properties.temperature = temperatures ∧
        ∀ p ∈ ps, (low ≤ p.internalEnergy ∧ p.internalEnergy ≤ high) ∧ 0 ≤ p.heatCapacity ∧
          p.entropy ≤ 0 ∧ ((∀ e ∈ energies, ∀ other ∈ energies, e = other) → p.entropy = 0) := by
  have hstates : lnDos ≠ [] := by
    rwa [← List.length_pos_iff, ← hlength, List.length_pos_iff]
  have hlevels := normalizedLevels_ne_nil hlength hne
  have hnormal : ((normalizedLevels energies lnDos).map fun l => Real.exp l.1).sum = 1 := by
    rw [← sum_exp_normalizeLnDos hstates, ← map_fst_normalizedLevels hlength, List.map_map]
    rfl
  obtain ⟨low, hlow, hleast⟩ := Set.exists_min_image {e | e ∈ energies} id
    (List.finite_toSet energies) (List.exists_mem_of_ne_nil energies hne)
  obtain ⟨high, hhigh, hgreatest⟩ := Set.exists_max_image {e | e ∈ energies} id
    (List.finite_toSet energies) (List.exists_mem_of_ne_nil energies hne)
  refine ⟨sum_exp_normalizeLnDos hstates, low, hlow, high, hhigh,
    fun e he => ⟨hleast e he, hgreatest e he⟩, _, properties_eq_ok temperatures hlength hne,
    map_temperature_propertiesAt _ _, ?_⟩
  intro p hp
  obtain ⟨t, ht, rfl⟩ := List.mem_map.mp hp
  refine ⟨⟨?_, ?_⟩, ?_, ?_, ?_⟩
  · exact le_mean hlevels fun l hl => hleast l.2 (energy_mem_of_mem hl)
  · exact mean_le hlevels fun l hl => hgreatest l.2 (energy_mem_of_mem hl)
  · exact div_nonneg (energyVariance_nonneg hlevels) (mul_self_nonneg t)
  · exact entropy_nonpos hlevels (htemperatures t ht) hnormal
  · intro hsame
    exact entropy_eq_zero hlevels (htemperatures t ht) hnormal fun l hl =>
      hsame l.2 (energy_mem_of_mem hl) low hlow

/-- Two levels, below and above zero temperature, and two levels of one energy. -/
theorem properties_bounds_two :
    (∀ t ∈ ([-1, 1 / 2] : List ℝ), t ≠ 0) ∧
    (∃ ps : List (Properties ℝ), properties [-1, 1 / 2] [0, 1] [3, 5] = .ok ps ∧
      ∀ p ∈ ps, (0 ≤ p.internalEnergy ∧ p.internalEnergy ≤ 1) ∧ 0 ≤ p.heatCapacity ∧
        p.entropy ≤ 0) ∧
    ∃ ps : List (Properties ℝ), properties [-1, 1 / 2] [2, 2] [3, 5] = .ok ps ∧
      ∀ p ∈ ps, p.entropy = 0 := by
  have htemperatures : ∀ t ∈ ([-1, 1 / 2] : List ℝ), t ≠ 0 := by norm_num
  have hlength : ∀ a b : ℝ, [a, b].length = ([3, 5] : List ℝ).length := fun _ _ => rfl
  refine ⟨htemperatures, ?_, ?_⟩
  · obtain ⟨-, low, hlow, high, hhigh, -, ps, hps, -, hbounds⟩ :=
      properties_bounds (hlength 0 1) (List.cons_ne_nil 0 [1]) htemperatures
    have hlow_nonneg : 0 ≤ low := by
      rcases List.mem_pair.mp hlow with rfl | rfl
      · exact le_refl 0
      · exact zero_le_one
    have hhigh_le : high ≤ 1 := by
      rcases List.mem_pair.mp hhigh with rfl | rfl
      · exact zero_le_one
      · exact le_refl 1
    refine ⟨ps, hps, fun p hp => ?_⟩
    obtain ⟨⟨hleast, hgreatest⟩, hcapacity, hentropy, -⟩ := hbounds p hp
    exact ⟨⟨hlow_nonneg.trans hleast, hgreatest.trans hhigh_le⟩, hcapacity, hentropy⟩
  · obtain ⟨-, low, -, high, -, -, ps, hps, -, hbounds⟩ :=
      properties_bounds (hlength 2 2) (List.cons_ne_nil 2 [2]) htemperatures
    exact ⟨ps, hps, fun p hp => (hbounds p hp).2.2.2 (by simp)⟩

end FluidAnalysis.Canonical
