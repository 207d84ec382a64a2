import Mathlib
import FluidAnalysis.Proofs.Files.Directories
import FluidAnalysis.Proofs.Report.Reading

/-!
# Discovery by name

Data is found by a pattern for the names in a directory. What is found is sorted, so it is said here
by its members alone.
-/

namespace FluidAnalysis.Report

open Files

variable {files : Tree} {directory : Path} {pattern : String}

/-- What is found are the names that the directory holds and the pattern takes. -/
theorem matchingNames_eq_ok {names : List String}
    (h : matchingNames files directory pattern = .ok names) :
    ∃ matcher, Pattern.read pattern = .ok matcher ∧ ∀ name, name ∈ names ↔
      matcher.isMatch name = true ∧ ∃ node, files.Holds directory name node := by
  unfold matchingNames at h
  cases hread : Pattern.read pattern with
  | error fault =>
    rw [hread] at h
    cases h
  | ok matcher =>
    rw [hread] at h
    cases hlisted : files.names directory with
    | error cause =>
      rw [hlisted] at h
      cases h
    | ok listed =>
      rw [hlisted] at h
      cases h
      refine ⟨matcher, rfl, fun name => ?_⟩
      rw [List.mem_mergeSort, List.mem_filter, Tree.mem_names_iff hlisted, and_comm]

/-- A directory can be searched for every pattern that can be read. -/
theorem exists_matchingNames {matcher : Pattern} (hread : Pattern.read pattern = .ok matcher)
    (hdirectory : files.isDirectory directory = true) :
    ∃ names, matchingNames files directory pattern = .ok names := by
  obtain ⟨listed, hlisted⟩ := Tree.exists_names_iff.mpr hdirectory
  unfold matchingNames
  rw [hread, hlisted]
  exact ⟨_, rfl⟩

end FluidAnalysis.Report
