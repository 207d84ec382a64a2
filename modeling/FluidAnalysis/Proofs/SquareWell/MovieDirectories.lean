import Mathlib
import FluidAnalysis.Proofs.Files.Patterns
import FluidAnalysis.Proofs.Report.Discovery
import FluidAnalysis.Proofs.SquareWell.HistoryPaths

/-!
# Directories of frames

A convergence report without methods looks for the directories of frames. The file base has two
readings there: it is part of the pattern that the names must match, and it is the text that they
must start with. For a plain base the two agree, and every directory of frames is found. A base with
a bracket, a brace or a backslash need not match itself, and then directories are missed.

* `ConvergenceReport.methodOf?_eq_some_iff`
* `ConvergenceReport.mem_discovered_iff` — which methods are found
* `ConvergenceReport.bracketedBase_missed` — a directory of frames that is not found
-/

namespace FluidAnalysis.SquareWell.ConvergenceReport

open Files Report

variable (a : ConvergenceReport)

/-- The name of the directory with the frames of a method. -/
def movieName (method : String) : String :=
  a.fileBase ++ "-" ++ method ++ movieEnding

/-- The pattern for the names of all directories of frames. -/
def moviePattern : String :=
  a.fileBase ++ "-*" ++ movieEnding

theorem methodOf?_eq_some_iff {name method : String} :
    a.methodOf? name = some method ↔ name = a.movieName method := by
  refine ⟨a.methodOf?_eq_some, ?_⟩
  rintro rfl
  have hbase : Text.after? (a.fileBase ++ "-").toList (a.movieName method).toList
      = some (method ++ movieEnding).toList := by
    rw [Text.after?_eq_some_iff]
    simp [movieName]
  have hending : Text.after? movieEnding.toList.reverse (method ++ movieEnding).toList.reverse
      = some method.toList.reverse := by
    rw [Text.after?_eq_some_iff]
    simp
  unfold methodOf?
  rw [hbase, Option.bind_eq_bind, Option.bind_some, hending]
  simp

/-- The pattern of a plain base takes the directories of all methods. -/
theorem exists_movieMatcher (hbase : Pattern.IsPlain a.fileBase.toList) :
    ∃ matcher, Pattern.read a.moviePattern = .ok matcher ∧
      ∀ method, matcher.isMatch (a.movieName method) = true := by
  have hstar : "-*" = "-" ++ "*" := rfl
  have hending : Pattern.IsPlain movieEnding.toList := by simp [Pattern.IsPlain, movieEnding]
  have hbeginning : Pattern.IsPlain (a.fileBase ++ "-").toList := by
    rw [String.toList_append]
    exact hbase.append (by simp [Pattern.IsPlain])
  rw [moviePattern, hstar, ← String.append_assoc]
  exact Pattern.exists_isMatch_between hbeginning hending

variable {a} {dataRoot : Path} {files : Tree}

/-- What is found of the directories that a data root holds: those whose name matches. -/
theorem mem_methodsIn_iff (hwf : files.WellFormed) (hnone : a.methods = []) {methods : List String}
    (h : a.methodsIn dataRoot files = .ok methods) :
    ∃ matcher, Pattern.read a.moviePattern = .ok matcher ∧ ∀ method, method ∈ methods ↔
      files.Holds dataRoot (a.movieName method) .directory ∧
        (dataRoot.join (a.movieName method)).utf8ByteSize ≤ Tree.maxPath ∧
        matcher.isMatch (a.movieName method) = true := by
  unfold methodsIn at h
  rw [hnone, if_neg (by simp)] at h
  obtain ⟨names, hnames, h⟩ := bind_eq_ok_iff.mp h
  cases h
  obtain ⟨matcher, hread, hmem⟩ := matchingNames_eq_ok hnames
  refine ⟨matcher, hread, fun method => ?_⟩
  simp only [List.mem_filterMap, List.mem_filter, methodOf?_eq_some_iff, hmem]
  constructor
  · rintro ⟨name, ⟨⟨hmatch, node, hholds⟩, hdirectory⟩, rfl⟩
    obtain ⟨rfl, hshort⟩ := (Tree.isDirectory_join_iff hwf hholds).mp hdirectory
    exact ⟨hholds, hshort, hmatch⟩
  · rintro ⟨hholds, hshort, hmatch⟩
    exact ⟨_, ⟨⟨hmatch, _, hholds⟩, (Tree.isDirectory_join_iff hwf hholds).mpr ⟨rfl, hshort⟩⟩, rfl⟩

/-- **Discovery finds the directories of frames whose name matches the pattern,** each of them once.
If the base holds no bracket, brace or backslash these are all of them; otherwise a base need not
match its own text. What no path can name is not found either. -/
theorem mem_discovered_iff (a : ConvergenceReport) (hnone : a.methods = []) (dataRoot : Path)
    {files : Tree} (hwf : files.WellFormed) {methods : List String}
    (h : a.methodsIn dataRoot files = .ok methods) :
    methods.Nodup ∧
    (∃ matcher, Pattern.read a.moviePattern = .ok matcher ∧ ∀ method, method ∈ methods ↔
      files.Holds dataRoot (a.movieName method) .directory ∧
        (dataRoot.join (a.movieName method)).utf8ByteSize ≤ Tree.maxPath ∧
        matcher.isMatch (a.movieName method) = true) ∧
    (Pattern.IsPlain a.fileBase.toList → ∀ method, method ∈ methods ↔
      files.Holds dataRoot (a.movieName method) .directory ∧
        (dataRoot.join (a.movieName method)).utf8ByteSize ≤ Tree.maxPath) := by
  obtain ⟨matcher, hread, hmem⟩ := mem_methodsIn_iff hwf hnone h
  refine ⟨a.nodup_methodsIn hwf.nodup h, ⟨matcher, hread, hmem⟩, fun hbase method => ?_⟩
  obtain ⟨matcher', hread', hmatch⟩ := a.exists_movieMatcher hbase
  cases hread.symm.trans hread'
  rw [hmem, hmatch, eq_self, and_true]

/-- A data root with one directory of frames. -/
def bracketedTree : Tree :=
  ⟨[(["data"], .directory), (["data", "s[0]-tmmc-movie"], .directory)]⟩

def bracketedReport : ConvergenceReport :=
  { energy := 2, reference := "ref.dat", fileBase := "s[0]" }

theorem wellFormed_bracketedTree : bracketedTree.WellFormed where
  nodup := by decide
  entryNames := by
    intro entry hentry
    simp only [bracketedTree, List.mem_cons, List.not_mem_nil, or_false] at hentry
    rcases hentry with rfl | rfl
    · exact ⟨"data", rfl, isPlainName_of_lt_length (by decide), by decide, by decide⟩
    · exact ⟨"s[0]-tmmc-movie", rfl, isPlainName_of_lt_length (by decide), by decide, by decide⟩

theorem methodsIn_bracketedReport : bracketedReport.methodsIn "data" bracketedTree = .ok [] := by
  apply eq_ok_of_toOption
  delta methodsIn
  rw [matchingNames_eq_insertionSort]
  decide +kernel

/-- The directory is there, but the pattern takes `s0` where the name has `s[0]`. -/
theorem bracketedBase_missed :
    bracketedTree.Holds "data" (bracketedReport.movieName "tmmc") .directory ∧
    bracketedReport.methodsIn "data" bracketedTree = .ok [] ∧
    ∃ matcher, Pattern.read bracketedReport.moviePattern = .ok matcher ∧
      matcher.isMatch (bracketedReport.movieName "tmmc") = false := by
  have hname : bracketedReport.movieName "tmmc" = "s[0]-tmmc-movie" := by decide
  have hholds : bracketedTree.Holds "data" (bracketedReport.movieName "tmmc") .directory :=
    ⟨["data"], eq_ok_of_toOption (by decide +kernel), rfl, by simp [hname, bracketedTree]⟩
  obtain ⟨-, ⟨matcher, hread, hmem⟩, -⟩ := bracketedReport.mem_discovered_iff rfl "data"
    wellFormed_bracketedTree methodsIn_bracketedReport
  refine ⟨hholds, methodsIn_bracketedReport, matcher, hread, ?_⟩
  by_contra hmatch
  exact absurd ((hmem "tmmc").mpr ⟨hholds, by decide +kernel, by simpa using hmatch⟩) (by simp)

end FluidAnalysis.SquareWell.ConvergenceReport
