import FluidAnalysis.Canonical

/-!
# Levels of an ensemble

What is known of levels that have passed their check: there is one, each has an energy and a density,
and the ground state is one of them. So its share of the ensemble can be looked up at every
temperature (`exists_share`), and the search for the first temperature at which it is small is a
plain search (`firstDepleted_eq_find?`).
-/

namespace FluidAnalysis.Canonical

variable {α : Type}

/-! ## The check -/

theorem checkLevels_of_length {energies lnDos : List α} (hlength : energies.length = lnDos.length)
    (hne : energies ≠ []) : checkLevels energies lnDos = .ok () := by
  simp [checkLevels, hlength, hne]

theorem checkLevels_eq_ok {energies lnDos : List α} (h : checkLevels energies lnDos = .ok ()) :
    energies ≠ [] ∧ energies.length = lnDos.length := by
  unfold checkLevels at h
  split at h
  · cases h
  · next hlength =>
    split at h
    · cases h
    · next hempty =>
      exact ⟨fun hnil => hempty (List.isEmpty_iff.mpr hnil), by simpa using hlength⟩

/-! ## The ground state -/

variable [Analytic α] {energies lnDos : List α}

/-- The search for the lowest energy stays among the positions that it has seen. -/
theorem lowestFrom_lt {best : Nat × α} {position count : Nat} {energies : List α}
    (hbest : best.1 < count) (hcount : position + energies.length ≤ count) :
    lowestFrom best position energies < count := by
  -- the position grows as the list shrinks, so their sum carries the bound
  induction energies generalizing best position with
  | nil => exact hbest
  | cons energy rest ih =>
    rw [List.length_cons] at hcount
    unfold lowestFrom
    split
    · exact ih hbest (by omega)
    · exact ih (by dsimp only; omega) (by omega)

theorem groundState_lt (h : energies ≠ []) : groundState energies < energies.length := by
  cases energies with
  | nil => exact absurd rfl h
  | cons first rest =>
    exact lowestFrom_lt (Nat.zero_lt_succ _) (by rw [List.length_cons]; omega)

theorem length_probabilities (t : α) (energies lnDos : List α) :
    (ensemble t energies lnDos).probabilities.length = min lnDos.length energies.length := by
  simp [ensemble]

/-- The ground state has a share of the ensemble at every temperature. -/
theorem exists_share (h : checkLevels energies lnDos = .ok ()) :
    ∃ share : α → α, ∀ t, groundProbability t energies lnDos = .ok (share t) := by
  obtain ⟨hne, hlength⟩ := checkLevels_eq_ok h
  have hlt : ∀ t, groundState energies < (ensemble t energies lnDos).probabilities.length := by
    intro t
    rw [length_probabilities, ← hlength, Nat.min_self]
    exact groundState_lt hne
  exact ⟨fun t => (ensemble t energies lnDos).probabilities.get ⟨_, hlt t⟩,
    fun t => entryAt_eq_ok (hlt t)⟩

/-! ## The search for a temperature -/

theorem firstDepleted_eq_find? {share : α → α}
    (h : ∀ t, groundProbability t energies lnDos = .ok (share t)) (threshold : α)
    (temperatures : List α) :
    firstDepleted energies lnDos threshold temperatures
      = .ok (temperatures.find? fun t => decide (share t < threshold)) := by
  induction temperatures with
  | nil => rfl
  | cons t rest ih =>
    rw [firstDepleted, h, List.find?_cons, ih]
    by_cases hshare : share t < threshold
    · simp [hshare, bind, Except.bind, pure, Except.pure]
    · simp [hshare, bind, Except.bind]

/-- A single temperature is the answer, whatever the share of the ground state. -/
theorem minimumTemperature_singleton (threshold t : α) :
    minimumTemperature [t] energies lnDos threshold = do
      checkLevels energies lnDos
      return t := by
  unfold minimumTemperature
  rw [List.mergeSort_singleton]
  cases hlevels : checkLevels energies lnDos with
  | error failure => rfl
  | ok _ =>
    obtain ⟨share, hshare⟩ := exists_share hlevels
    simp only [firstDepleted_eq_find? hshare, List.find?_singleton, bind, Except.bind]
    cases decide (share t < threshold) <;> rfl

end FluidAnalysis.Canonical
