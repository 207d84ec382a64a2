import Mathlib
import FluidAnalysis.Proofs.Canonical.Ensemble
import FluidAnalysis.Proofs.TotalOrder

/-!
# The share of the ground state

The lowest temperature to trust is the first one, from below, at which the ground state has less
than a given share of the ensemble. It is found in the sorted list of temperatures, so their order
does not matter (`minimumTemperature_perm`).

Over the real numbers the share of the ground state does not increase with the temperature
(`probability_le`): every other level lies higher and gains weight relative to it. So the first
temperature with a small share marks a threshold, and the ones above it have a small share too.

* `IsGround` — a position that holds the lowest energy, and the first one that does
* `Depleted` — the level at that position has less than a given share
* `MarksDepletion` — which temperature is the answer

Main statement: `minimumTemperature_marks_depletion`.
-/

namespace FluidAnalysis.Canonical

open Exact
open Scalar (totalLe TotalOrderLaws)

section Search

variable {α : Type} [Analytic α]

/-! ## The position of the ground state -/

/-- A position holds the lowest energy, and none before it holds the same. -/
structure IsGround (energies : List α) (position : ℕ) (energy : α) : Prop where
  holds : energies[position]? = some energy
  least : ∀ other ∈ energies, totalLe energy other = true
  first : ∀ i < position, energies[i]? ≠ some energy

theorem IsGround.lt_length {energies : List α} {position : ℕ} {energy : α}
    (h : IsGround energies position energy) : position < energies.length :=
  (List.getElem?_eq_some_iff.mp h.holds).1

variable [TotalOrderLaws α]

omit [TotalOrderLaws α] in
/-- The lowest energy stays the lowest when one that is not below it is added. -/
theorem IsGround.keep {seen : List α} {position : ℕ} {energy next : α}
    (h : IsGround seen position energy) (hle : totalLe energy next = true) :
    IsGround (seen ++ [next]) position energy := by
  refine ⟨?_, ?_, ?_⟩
  · rw [List.getElem?_append_left h.lt_length]
    exact h.holds
  · intro other hother
    rcases List.mem_append.mp hother with hother | hother
    · exact h.least other hother
    · rw [List.mem_singleton.mp hother]
      exact hle
  · intro i hi
    rw [List.getElem?_append_left (hi.trans h.lt_length)]
    exact h.first i hi

/-- An energy that is not above the lowest one so far takes its place. -/
theorem IsGround.replace {seen : List α} {position : ℕ} {energy next : α}
    (h : IsGround seen position energy) (hnot : ¬ totalLe energy next = true) :
    IsGround (seen ++ [next]) seen.length next := by
  have hbelow : totalLe next energy = true := totalLe_of_not hnot
  refine ⟨by simp, ?_, ?_⟩
  · intro other hother
    rcases List.mem_append.mp hother with hother | hother
    · exact TotalOrderLaws.trans _ _ _ hbelow (h.least other hother)
    · rw [List.mem_singleton.mp hother]
      exact totalLe_refl next
  · intro i hi hsame
    rw [List.getElem?_append_left hi] at hsame
    exact hnot (h.least next (List.mem_of_getElem? hsame))

/-- The search for the lowest energy. Its state is a ground state of what was seen. -/
theorem isGround_lowestFrom {seen rest : List α} {position : ℕ} {energy : α}
    (h : IsGround seen position energy) :
    ∃ lowest, IsGround (seen ++ rest) (lowestFrom (position, energy) seen.length rest) lowest := by
  induction rest generalizing seen position energy with
  | nil =>
    rw [List.append_nil]
    exact ⟨energy, h⟩
  | cons next rest ih =>
    have hlength : seen.length + 1 = (seen ++ [next]).length := by simp
    have hsplit : seen ++ next :: rest = (seen ++ [next]) ++ rest := by simp
    rw [lowestFrom, hlength, hsplit]
    by_cases hle : totalLe energy next = true
    · rw [if_pos hle]
      exact ih (h.keep hle)
    · rw [if_neg hle]
      exact ih (h.replace hle)

theorem exists_isGround {energies : List α} (hne : energies ≠ []) :
    ∃ energy, IsGround energies (groundState energies) energy := by
  cases energies with
  | nil => exact absurd rfl hne
  | cons first rest =>
    have hfirst : IsGround [first] 0 first := by
      refine ⟨rfl, ?_, fun i hi => absurd hi (Nat.not_lt_zero i)⟩
      intro other hother
      rw [List.mem_singleton.mp hother]
      exact totalLe_refl first
    exact isGround_lowestFrom hfirst

/-- There is one ground state. -/
theorem IsGround.position_eq {energies : List α} {i j : ℕ} {energy other : α}
    (h : IsGround energies i energy) (h' : IsGround energies j other) : i = j := by
  have heq : energy = other := TotalOrderLaws.antisymm _ _
    (h.least other (List.mem_of_getElem? h'.holds)) (h'.least energy (List.mem_of_getElem? h.holds))
  subst heq
  rcases Nat.lt_trichotomy i j with hlt | heq | hlt
  · exact absurd h.holds (h'.first i hlt)
  · exact heq
  · exact absurd h'.holds (h.first j hlt)

/-- The ground state has less than the given share of the ensemble. -/
def Depleted (energies lnDos : List α) (threshold t : α) : Prop :=
  ∃ ground energy share, IsGround energies ground energy ∧
    (ensemble t energies lnDos).probabilities[ground]? = some share ∧ share < threshold

/-- The share that is compared with the threshold is that of the ground state. -/
theorem depleted_iff {energies lnDos : List α} {threshold t share : α} (hne : energies ≠ [])
    (h : groundProbability t energies lnDos = .ok share) :
    Depleted energies lnDos threshold t ↔ share < threshold := by
  rw [groundProbability, entryAt_eq_ok_iff] at h
  obtain ⟨lowest, hlowest⟩ := exists_isGround hne
  constructor
  · rintro ⟨ground, energy, found, hground, hfound, hless⟩
    rw [hground.position_eq hlowest, h] at hfound
    exact Option.some.inj hfound ▸ hless
  · exact fun hless => ⟨_, lowest, share, hlowest, h, hless⟩

/-! ## The search for the temperature -/

/-- The least of the temperatures at which something is depleted, and the greatest temperature if it
is depleted at none of them. -/
def MarksDepletion (depleted : α → Prop) (temperatures : List α) (t : α) : Prop :=
  t ∈ temperatures ∧
    (depleted t ∧ (∀ s ∈ temperatures, depleted s → totalLe t s = true) ∨
      (∀ s ∈ temperatures, ¬ depleted s) ∧ ∀ s ∈ temperatures, totalLe s t = true)

variable {temperatures energies lnDos : List α} (threshold : α)

/-- **The order of the temperatures does not matter.** -/
theorem minimumTemperature_perm {other : List α} (h : other.Perm temperatures) :
    minimumTemperature other energies lnDos threshold
      = minimumTemperature temperatures energies lnDos threshold := by
  simp only [minimumTemperature, mergeSort_eq_of_perm h]

omit [TotalOrderLaws α] in
theorem minimumTemperature_nil (hlength : energies.length = lnDos.length) (hne : energies ≠ []) :
    minimumTemperature [] energies lnDos threshold = .error .noTemperatures := by
  simp only [minimumTemperature, checkLevels_of_length hlength hne, List.mergeSort_nil]
  rfl

/-- There is an answer as soon as there is a temperature. -/
theorem exists_marksDepletion (hlength : energies.length = lnDos.length) (hne : energies ≠ [])
    (htemperatures : temperatures ≠ []) :
    ∃ t, minimumTemperature temperatures energies lnDos threshold = .ok t ∧
      MarksDepletion (Depleted energies lnDos threshold) temperatures t := by
  have hlevels := checkLevels_of_length hlength hne
  obtain ⟨share, hshare⟩ := exists_share hlevels
  have hdepleted : ∀ t, Depleted energies lnDos threshold t ↔ share t < threshold :=
    fun t => depleted_iff hne (hshare t)
  simp only [minimumTemperature, hlevels, firstDepleted_eq_find? hshare]
  cases hfind : (temperatures.mergeSort totalLe).find? fun t => decide (share t < threshold) with
  | some t =>
    obtain ⟨hmem, hless, hleast⟩ := find?_mergeSort hfind
    refine ⟨t, rfl, hmem, .inl ⟨(hdepleted t).mpr (of_decide_eq_true hless), fun s hs h => ?_⟩⟩
    exact hleast s hs (decide_eq_true ((hdepleted s).mp h))
  | none =>
    obtain ⟨t, hlast⟩ : ∃ t, (temperatures.mergeSort totalLe).getLast? = some t := by
      rw [← Option.isSome_iff_exists, List.getLast?_isSome, Ne, ← List.length_eq_zero_iff,
        List.length_mergeSort, List.length_eq_zero_iff]
      exact htemperatures
    obtain ⟨hmem, hgreatest⟩ := getLast?_mergeSort hlast
    simp only [hlast]
    refine ⟨t, rfl, hmem, .inr ⟨fun s hs h => ?_, hgreatest⟩⟩
    exact List.find?_eq_none.mp hfind s (List.mem_mergeSort.mpr hs)
      (decide_eq_true ((hdepleted s).mp h))

end Search

/-! ## Over the real numbers -/

section Monotone

variable {s t : ℝ}

/-- The share of a level, from the weights of the others relative to its own. -/
theorem probability_eq_inv (t : ℝ) (levels : List (ℝ × ℝ)) (level : ℝ × ℝ) :
    probability t levels level
      = (levels.map fun l => Real.exp (l.1 - level.1 - (l.2 - level.2) / t)).sum⁻¹ := by
  have hratio : ∀ l : ℝ × ℝ,
      Real.exp (l.1 - level.1 - (l.2 - level.2) / t) = weight t l * (weight t level)⁻¹ := by
    intro l
    rw [weight, weight, ← div_eq_mul_inv, ← Real.exp_sub]
    congr 1
    ring
  simp only [hratio]
  rw [List.sum_map_mul_right, mul_inv, inv_inv, mul_comm]
  exact div_eq_mul_inv _ _

/-- **The share of the lowest level does not increase with the temperature.** -/
theorem probability_le {levels : List (ℝ × ℝ)} {ground : ℝ × ℝ} (hne : levels ≠ [])
    (hground : ∀ l ∈ levels, ground.2 ≤ l.2) (ht : 0 < t) (hts : t ≤ s) :
    probability s levels ground ≤ probability t levels ground := by
  rw [probability_eq_inv, probability_eq_inv]
  refine inv_anti₀ (sum_map_pos (fun _ => Real.exp_pos _) hne) (List.sum_le_sum fun l hl => ?_)
  have hgap : 0 ≤ l.2 - ground.2 := sub_nonneg.mpr (hground l hl)
  have hquotient : (l.2 - ground.2) / s ≤ (l.2 - ground.2) / t :=
    div_le_div_of_nonneg_left hgap ht hts
  exact Real.exp_le_exp.mpr (by linarith)

/-- The ground state is a level, and no level lies lower. -/
theorem exists_ground_level {energies lnDos : List ℝ} (hlength : energies.length = lnDos.length)
    (hne : energies ≠ []) :
    ∃ ground ∈ lnDos.zip energies, (∀ l ∈ lnDos.zip energies, ground.2 ≤ l.2) ∧
      ∀ threshold t, Depleted energies lnDos threshold t ↔
        probability t (lnDos.zip energies) ground < threshold := by
  obtain ⟨energy, hground⟩ := exists_isGround hne
  obtain ⟨density, hdensity⟩ : ∃ density, lnDos[groundState energies]? = some density :=
    ⟨_, List.getElem?_eq_getElem (hlength ▸ hground.lt_length)⟩
  have hlevel : (lnDos.zip energies)[groundState energies]? = some (density, energy) :=
    List.getElem?_zip_eq_some.mpr ⟨hdensity, hground.holds⟩
  refine ⟨(density, energy), List.mem_of_getElem? hlevel, ?_, ?_⟩
  · intro l hl
    exact scalarTotalLe_iff.mp (hground.least l.2 (List.of_mem_zip hl).2)
  · intro threshold t
    refine depleted_iff hne (entryAt_eq_ok_iff.mpr ?_)
    rw [probabilities_eq, List.getElem?_map, hlevel]
    rfl

theorem Depleted.mono {energies lnDos : List ℝ} {threshold : ℝ}
    (hlength : energies.length = lnDos.length) (hne : energies ≠ []) (ht : 0 < t) (hts : t ≤ s)
    (h : Depleted energies lnDos threshold t) : Depleted energies lnDos threshold s := by
  obtain ⟨ground, hmem, hlowest, hdepleted⟩ := exists_ground_level hlength hne
  rw [hdepleted] at h ⊢
  exact (probability_le (List.ne_nil_of_mem hmem) hlowest ht hts).trans_lt h

end Monotone

/-- **The lowest temperature to trust marks a threshold.** For doubles with all their bits it does not
depend on the order in which the temperatures are listed. It is one of them: the least at which the
share of the ground state is below the threshold, and the greatest one if there is none. There is no
answer only if no temperature is listed. Over the real numbers, with positive temperatures, the share
stays below the threshold at every temperature above an answer at which it is. -/
theorem minimumTemperature_marks_depletion :
    (∀ (temperatures energies lnDos : List Binary64) (threshold : Binary64),
      energies.length = lnDos.length → energies ≠ [] →
      (∃ ground energy, IsGround energies ground energy ∧
        ∀ t, ∃ share, (ensemble t energies lnDos).probabilities[ground]? = some share) ∧
      (∀ other : List Binary64, other.Perm temperatures →
        minimumTemperature other energies lnDos threshold
          = minimumTemperature temperatures energies lnDos threshold) ∧
      (temperatures ≠ [] → ∃ t, minimumTemperature temperatures energies lnDos threshold = .ok t ∧
        MarksDepletion (Depleted energies lnDos threshold) temperatures t) ∧
      ((∃ failure, minimumTemperature temperatures energies lnDos threshold = .error failure ∧
        failure.code = "INPUT.THERMO_TEMPERATURES") ↔ temperatures = [])) ∧
    ∀ (temperatures energies lnDos : List ℝ) (threshold t : ℝ),
      energies.length = lnDos.length → energies ≠ [] → (∀ s ∈ temperatures, 0 < s) →
      minimumTemperature temperatures energies lnDos threshold = .ok t →
      Depleted energies lnDos threshold t →
      ∀ s ∈ temperatures, t < s → Depleted energies lnDos threshold s := by
  refine ⟨?_, ?_⟩
  · intro temperatures energies lnDos threshold hlength hne
    obtain ⟨energy, hground⟩ := exists_isGround hne
    obtain ⟨share, hshare⟩ := exists_share (checkLevels_of_length hlength hne)
    refine ⟨⟨_, energy, hground, fun t => ⟨share t, entryAt_eq_ok_iff.mp (hshare t)⟩⟩,
      fun other h => minimumTemperature_perm threshold h,
      exists_marksDepletion threshold hlength hne, ?_, ?_⟩
    · rintro ⟨failure, hfailure, -⟩
      by_contra htemperatures
      obtain ⟨t, ht, -⟩ := exists_marksDepletion threshold hlength hne htemperatures
      rw [ht] at hfailure
      cases hfailure
    · rintro rfl
      exact ⟨.noTemperatures, minimumTemperature_nil threshold hlength hne, by decide⟩
  · intro temperatures energies lnDos threshold t hlength hne hpositive hanswer hdepleted s hs hts
    -- the answer is itself a listed temperature, so it is positive
    obtain ⟨answer, heq, hmem, -⟩ :=
      exists_marksDepletion threshold hlength hne (List.ne_nil_of_mem hs)
    obtain rfl : answer = t := Except.ok.inj (heq.symm.trans hanswer)
    exact hdepleted.mono hlength hne (hpositive answer hmem) hts.le

/-- Of two levels, the lower one has less than half of the states above the temperature `1 / 2`. -/
theorem depleted_twoLevels (t : ℝ) : Depleted [-1, 0] [0, 2] (1 / 2) t ↔ t⁻¹ < 2 := by
  have hlength : ([-1, 0] : List ℝ).length = ([0, 2] : List ℝ).length := rfl
  obtain ⟨ground, hmem, hlowest, hdepleted⟩ := exists_ground_level hlength (List.cons_ne_nil _ _)
  have hground : ground = ((0 : ℝ), (-1 : ℝ)) := by
    rcases List.mem_pair.mp hmem with rfl | rfl
    · rfl
    · have habove := hlowest (0, -1) List.mem_cons_self
      norm_num at habove
  have hexponents : ∀ x y : ℝ, Real.exp x / (Real.exp x + Real.exp y) < 1 / 2 ↔ x < y := by
    intro x y
    rw [div_lt_iff₀ (by positivity), ← Real.exp_lt_exp (x := x)]
    constructor <;> intro h <;> linarith
  have hlevels : probability t ([0, 2].zip [-1, 0]) (0, -1)
      = Real.exp t⁻¹ / (Real.exp t⁻¹ + Real.exp 2) := by
    simp [probability, partition, weight, neg_div]
  rw [hdepleted, hground, hlevels, hexponents]

/-- A value that is no number, with a sign. -/
def signedNaN : Binary64 := ⟨0xFFF8000000000000⟩

/-- A threshold between `1 / 2` and `1`. A temperature that is no number comes first if it has a
sign, and its place in the list changes nothing. -/
theorem minimumTemperature_marks_depletion_two :
    totalLe signedNaN (0.5 : Binary64) = true ∧
    minimumTemperature [signedNaN, 2.0, 0.5] [-1.0, 0.0] [0.0, 2.0] (0.5 : Binary64)
      = minimumTemperature [2.0, signedNaN, 0.5] [-1.0, 0.0] [0.0, 2.0] 0.5 ∧
    (∃ t, minimumTemperature [2.0, signedNaN, 0.5] [-1.0, 0.0] [0.0, 2.0] 0.5 = .ok t ∧
      MarksDepletion (Depleted [-1.0, 0.0] [0.0, 2.0] 0.5) [2.0, signedNaN, 0.5] t) ∧
    minimumTemperature [2, 1 / 2, 1] [-1, 0] [0, 2] (1 / 2 : ℝ) = .ok 1 ∧
    Depleted [-1, 0] [0, 2] (1 / 2) (1 : ℝ) ∧ Depleted [-1, 0] [0, 2] (1 / 2) (2 : ℝ) := by
  obtain ⟨-, hperm, hanswer, -⟩ := minimumTemperature_marks_depletion.1 [2.0, signedNaN, 0.5]
    [-1.0, 0.0] [0.0, 2.0] 0.5 rfl (List.cons_ne_nil _ _)
  refine ⟨by decide +kernel, hperm _ (List.Perm.swap _ _ _), hanswer (List.cons_ne_nil _ _), ?_⟩
  have hlength : ([-1, 0] : List ℝ).length = ([0, 2] : List ℝ).length := rfl
  have hne : ([-1, 0] : List ℝ) ≠ [] := List.cons_ne_nil _ _
  have hone : Depleted [-1, 0] [0, 2] (1 / 2) (1 : ℝ) := (depleted_twoLevels 1).mpr (by norm_num)
  have hmin : minimumTemperature [2, 1 / 2, 1] [-1, 0] [0, 2] (1 / 2 : ℝ) = .ok 1 := by
    obtain ⟨t, ht, hmem, ⟨hdepleted, hleast⟩ | ⟨hnone, -⟩⟩ :=
      exists_marksDepletion (1 / 2) hlength hne (List.cons_ne_nil 2 [1 / 2, 1])
    · have hle : t ≤ 1 := scalarTotalLe_iff.mp (hleast 1 (by simp) hone)
      have hinv := (depleted_twoLevels t).mp hdepleted
      simp only [List.mem_cons, List.not_mem_nil, or_false] at hmem
      rcases hmem with rfl | rfl | rfl
      · norm_num at hle
      · norm_num at hinv
      · exact ht
    · exact absurd hone (hnone 1 (by simp))
  refine ⟨hmin, hone, ?_⟩
  exact minimumTemperature_marks_depletion.2 [2, 1 / 2, 1] [-1, 0] [0, 2] (1 / 2) 1 hlength hne
    (by norm_num) hmin hone 2 (by simp) (by norm_num)

end FluidAnalysis.Canonical
