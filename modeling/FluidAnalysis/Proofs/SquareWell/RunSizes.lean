import Mathlib
import FluidAnalysis.Proofs.Decimal.Numeral
import FluidAnalysis.Proofs.Files.Patterns
import FluidAnalysis.Proofs.Report.Discovery
import FluidAnalysis.SquareWell.ScalingReport

/-!
# Sizes of the runs of a method

A scaling report finds the runs of a method by the names of their weight files. Three filters stand
behind one another: a pattern whose star takes any text, the first piece of the name that states a
number of particles, and a comparison with the name that this number should give. The last one makes
sure that nothing else is found. That nothing is missed rests on the first two: in the name of a
weight file no piece before the size states a number, whatever well width and filling fraction are.

* `parameter_cases` — how a parameter is written
* `ScalingReport.sizeOf?_eq_some_iff` — a name gives a size if it is the weight file of this size
* `ScalingReport.discover_sizes`
-/

namespace FluidAnalysis.SquareWell

open Files Report Decimal

/-! ## Parameters in names -/

theorem mem_magnitudeFixed {places : ℕ} {b : Binary} {c : Char}
    (h : c ∈ magnitudeFixed places b) : c.isDigit = true ∨ c = '.' := by
  obtain ⟨n, hn⟩ : ∃ n, magnitudeFixed places b = withPoint n places := ⟨_, rfl⟩
  rw [hn, withPoint_eq_pointed] at h
  rcases mem_pointed h with h | h | h
  · exact .inl (allDigits_wholePart n places c h)
  · exact .inr h
  · exact .inl (allDigits_fractionPart n places c h)

/-- The characters of a parameter that is a number. -/
def isParameterChar (c : Char) : Bool :=
  c.isDigit || ['-', '.', 'i', 'n', 'f'].contains c

theorem isParameterChar_ne {c : Char} (h : isParameterChar c = true) :
    c ≠ 'N' ∧ c ∉ ['[', '\x7b', '\x7d', '\\'] := by
  have hne (d : Char) (hd : isParameterChar d = false) : c ≠ d := by
    rintro rfl
    rw [h] at hd
    cases hd
  simp only [List.mem_cons, List.not_mem_nil, or_false, not_or]
  exact ⟨hne _ rfl, hne _ rfl, hne _ rfl, hne _ rfl, hne _ rfl⟩

/-- A parameter that is no number has a text of its own; the others hold no capital letter. -/
theorem parameter_cases (x : Float) : System.parameter x = "0NaN" ∨
    ∀ c ∈ (System.parameter x).toList, isParameterChar c = true := by
  unfold System.parameter fixedWidth signAndMagnitude
  cases Decimal.read x with
  | nan => exact .inl rfl
  | infinite negative =>
    right
    rw [← List.all_eq_true]
    cases negative <;> rfl
  | finite b =>
    right
    intro c hc
    simp only [String.toList_ofList, List.mem_append] at hc
    rcases hc with (hsign | hzero) | hbody
    · split at hsign
      · rw [List.mem_singleton.mp hsign]
        rfl
      · cases hsign
    · rw [List.eq_of_mem_replicate hzero]
      rfl
    · rcases mem_magnitudeFixed hbody with h | h
      · rw [isParameterChar, h, Bool.true_or]
      · rw [h]
        rfl

theorem isPlain_parameter (x : Float) : Pattern.IsPlain (System.parameter x).toList := by
  rcases parameter_cases x with h | h
  · rw [h]
    simp [Pattern.IsPlain]
  · exact fun c hc => (isParameterChar_ne (h c hc)).2

/-- No piece of a labelled parameter starts like a size. -/
theorem head?_pieces_parameter {label : List Char} (hlabel : label ≠ []) (hdash : '-' ∉ label)
    (hN : 'N' ∉ label) (x : Float) {piece : List Char}
    (h : piece ∈ Text.pieces '-' (label ++ (System.parameter x).toList)) :
    piece.head? ≠ some 'N' := by
  intro hhead
  rcases parameter_cases x with hx | hx
  · -- without a dash the label starts the only piece
    have hnone : '-' ∉ label ++ (System.parameter x).toList := by simp [hx, hdash]
    rw [Text.pieces_eq_splitOn, List.splitOn_eq_singleton hnone, List.mem_singleton] at h
    rw [h, List.head?_append_of_ne_nil _ hlabel] at hhead
    exact hN (List.mem_of_head? hhead)
  · rcases List.mem_append.mp (Text.mem_of_mem_pieces h (List.mem_of_head? hhead)) with hc | hc
    · exact hN hc
    · exact (isParameterChar_ne (hx _ hc)).1 rfl

/-! ## Sizes in names -/

theorem toList_toString (n : ℕ) : (toString n).toList = digits n := by
  show n.repr.toList = _
  rw [Nat.repr_eq_ofList_toDigits, String.toList_ofList]
  rfl

theorem pieceCount?_eq_none {piece : List Char} (h : piece.head? ≠ some 'N') :
    pieceCount? piece = none := by
  unfold pieceCount?
  split
  · exact absurd rfl h
  · rfl

theorem pieceCount?_digits {n : ℕ} (h : n < Text.wordBound) :
    pieceCount? ('N' :: digits n) = some n := by
  have hdigits : Text.readDigits? (digits n) = some n := by
    have hne : (digits n).isEmpty = false := by
      rw [List.isEmpty_eq_false_iff]
      exact Nat.toDigits_ne_nil
    rw [Text.readDigits?, hne, List.all_eq_true.mpr (allDigits_digits n), digitsValue_digits]
    rfl
  show (Text.readDigits? (digits n)).filter _ = _
  rw [hdigits, Option.filter_some_pos (by simpa using h)]

theorem pieceCount?_lt {piece : List Char} {n : ℕ} (h : pieceCount? piece = some n) :
    n < Text.wordBound := by
  unfold pieceCount? at h
  split at h
  · simpa using (Option.filter_eq_some_iff.mp h).2
  · cases h

namespace ScalingReport

variable (a : ScalingReport) (method : String)

/-- How the names of all runs of a fluid start. -/
def fluidStem : String :=
  "periodic-ww" ++ System.parameter a.wellWidth ++ "-ff" ++ System.parameter a.fillingFraction

/-- How the names of all weight files of a method end. -/
def weightEnding : String :=
  "-" ++ method ++ "-lnw.dat"

theorem weightPattern_eq :
    a.weightPattern method = a.fluidStem ++ "-N" ++ "*" ++ weightEnding method := by
  have hstart : "periodic-ww" = "periodic-" ++ "ww" := rfl
  have hstar : "-N*-" = "-N" ++ ("*" ++ "-") := rfl
  show "periodic-" ++ ("ww" ++ System.parameter a.wellWidth ++ "-ff"
    ++ System.parameter a.fillingFraction) ++ "-N*-" ++ method ++ "-lnw.dat" = _
  rw [fluidStem, weightEnding, hstart, hstar]
  simp only [String.append_assoc]

theorem weightFile_eq (n : ℕ) :
    a.weightFile method n = a.fluidStem ++ "-N" ++ toString n ++ weightEnding method := by
  show "periodic-ww" ++ System.parameter a.wellWidth ++ "-ff" ++ System.parameter a.fillingFraction
    ++ "-N" ++ toString n ++ "-" ++ method ++ "-lnw.dat" = _
  rw [fluidStem, weightEnding]
  simp only [String.append_assoc]

theorem pieceCount?_fluidStem {piece : List Char}
    (h : piece ∈ Text.pieces '-' a.fluidStem.toList) : pieceCount? piece = none := by
  have hstem : a.fluidStem.toList = "periodic".toList ++ '-' ::
      (("ww".toList ++ (System.parameter a.wellWidth).toList) ++ '-' ::
        ("ff".toList ++ (System.parameter a.fillingFraction).toList)) := by
    simp [fluidStem]
  rw [hstem] at h
  simp only [Text.pieces_eq_splitOn, List.splitOn_append_cons_self, List.mem_append] at h
  simp only [← Text.pieces_eq_splitOn] at h
  apply pieceCount?_eq_none
  rcases h with h | h | h
  · intro hhead
    exact absurd (Text.mem_of_mem_pieces h (List.mem_of_head? hhead)) (by simp)
  · exact head?_pieces_parameter (by simp) (by simp) (by simp) _ h
  · exact head?_pieces_parameter (by simp) (by simp) (by simp) _ h

/-- The first piece of a weight file's name that states a number states the size. -/
theorem nameCount?_weightFile {n : ℕ} (h : n < Text.wordBound) :
    nameCount? (a.weightFile method n) = some n := by
  have hname : (a.weightFile method n).toList = a.fluidStem.toList ++ '-' ::
      (('N' :: digits n) ++ '-' :: (method ++ "-lnw.dat").toList) := by
    rw [weightFile_eq, ← toList_toString]
    simp [weightEnding]
  have hdash : '-' ∉ 'N' :: digits n := by
    simpa using (allDigits_digits n).not_mem rfl
  have hstem : (Text.pieces '-' a.fluidStem.toList).findSome? pieceCount? = none :=
    List.findSome?_eq_none_iff.mpr fun piece hpiece => a.pieceCount?_fluidStem hpiece
  rw [Text.pieces_eq_splitOn] at hstem
  rw [nameCount?, hname, Text.pieces_eq_splitOn, List.splitOn_append_cons_self,
    List.splitOn_append_cons_self_of_not_mem hdash, List.findSome?_append, hstem,
    List.findSome?_cons, pieceCount?_digits h]
  rfl

variable {method}

/-- **A name gives a size if it is the name of the weight file of this size.** -/
theorem sizeOf?_eq_some_iff {name : String} {n : ℕ} : a.sizeOf? method name = some n ↔
    n < Text.wordBound ∧ name = a.weightFile method n := by
  rw [sizeOf?, Option.filter_eq_some_iff, beq_iff_eq]
  constructor
  · rintro ⟨hcount, hname⟩
    obtain ⟨piece, -, hpiece⟩ := List.exists_of_findSome?_eq_some hcount
    exact ⟨pieceCount?_lt hpiece, hname⟩
  · rintro ⟨hn, rfl⟩
    exact ⟨a.nameCount?_weightFile method hn, rfl⟩

variable {request : Request} {files : Tree}

/-- The sizes that are found are those of the weight files that the pattern takes. -/
theorem findSizes_eq_ok {sizes : List ℕ} (h : a.findSizes request files method = .ok sizes) :
    ∃ matcher, Pattern.read (a.weightPattern method) = .ok matcher ∧
      ∀ n, n ∈ sizes ↔ n < Text.wordBound ∧ matcher.isMatch (a.weightFile method n) = true ∧
        ∃ node, files.Holds request.dataRoot (a.weightFile method n) node := by
  obtain ⟨names, hnames, h⟩ := bind_eq_ok_iff.mp h
  cases h
  obtain ⟨matcher, hmatcher, hmem⟩ := matchingNames_eq_ok hnames
  refine ⟨matcher, hmatcher, fun n => ?_⟩
  simp only [List.mem_mergeSort, List.mem_filterMap, sizeOf?_eq_some_iff]
  constructor
  · rintro ⟨name, hname, hn, rfl⟩
    exact ⟨hn, (hmem _).mp hname⟩
  · rintro ⟨hn, hfile⟩
    exact ⟨_, (hmem _).mpr hfile, hn, rfl⟩

theorem sortedLT_findSizes {sizes : List ℕ} (hfiles : (files.entries.map Prod.fst).Nodup)
    (h : a.findSizes request files method = .ok sizes) : sizes.SortedLT := by
  obtain ⟨names, hnames, h⟩ := bind_eq_ok_iff.mp h
  cases h
  have hnodup : (names.filterMap (a.sizeOf? method)).Nodup := by
    refine (nodup_matchingNames hfiles hnames).filterMap fun first second n hfirst hsecond => ?_
    rw [(a.sizeOf?_eq_some_iff.mp hfirst).2, (a.sizeOf?_eq_some_iff.mp hsecond).2]
  exact List.sortedLE_mergeSort.sortedLT_of_nodup ((List.mergeSort_perm _ _).nodup_iff.mpr hnodup)

/-- The pattern of a plain method takes all its weight files. -/
theorem exists_matcher (hmethod : Pattern.IsPlain method.toList) :
    ∃ matcher, Pattern.read (a.weightPattern method) = .ok matcher ∧
      ∀ n, matcher.isMatch (a.weightFile method n) = true := by
  have hstem : Pattern.IsPlain (a.fluidStem ++ "-N").toList := by
    simp only [fluidStem, String.toList_append]
    have hfirst : Pattern.IsPlain "periodic-ww".toList := by simp [Pattern.IsPlain]
    have hsecond : Pattern.IsPlain "-ff".toList := by simp [Pattern.IsPlain]
    have hlast : Pattern.IsPlain "-N".toList := by simp [Pattern.IsPlain]
    exact (((hfirst.append (isPlain_parameter _)).append hsecond).append
      (isPlain_parameter _)).append hlast
  have hending : Pattern.IsPlain (weightEnding method).toList := by
    simp only [weightEnding, String.toList_append]
    have hfirst : Pattern.IsPlain "-".toList := by simp [Pattern.IsPlain]
    have hlast : Pattern.IsPlain "-lnw.dat".toList := by simp [Pattern.IsPlain]
    exact (hfirst.append hmethod).append hlast
  obtain ⟨matcher, hread, hmatch⟩ := Pattern.exists_isMatch_between hstem hending
  refine ⟨matcher, by rw [weightPattern_eq, hread], fun n => ?_⟩
  rw [weightFile_eq]
  exact hmatch (toString n)

/-- **Discovery finds exactly the runs of the method.** Every size that is used has its weight file,
and none is used twice. If the method holds no bracket, brace or backslash, every size that has a
weight file is found. -/
theorem discover_sizes (a : ScalingReport) (request : Request) {files : Tree} (method : String)
    (hfiles : (files.entries.map Prod.fst).Nodup) :
    (∀ sizes, a.findSizes request files method = .ok sizes →
      sizes.SortedLT ∧
      (∀ n ∈ sizes, ∃ node, files.Holds request.dataRoot (a.weightFile method n) node) ∧
      a.discover request files method
        = (sizes.mapM (a.point request files method)).map (MethodScaling.mk method)) ∧
    (Pattern.IsPlain method.toList → ∀ n < Text.wordBound,
      (∃ node, files.Holds request.dataRoot (a.weightFile method n) node) →
        ∃ sizes, a.findSizes request files method = .ok sizes ∧ n ∈ sizes) := by
  refine ⟨fun sizes hsizes => ⟨a.sortedLT_findSizes hfiles hsizes, fun n hn => ?_, ?_⟩,
    fun hmethod n hn hfile => ?_⟩
  · obtain ⟨matcher, -, hmem⟩ := a.findSizes_eq_ok hsizes
    exact ((hmem n).mp hn).2.2
  · rw [discover, hsizes]
    show (sizes.mapM (a.point request files method) >>= fun points =>
      .ok (MethodScaling.mk method points)) = _
    cases sizes.mapM (a.point request files method) <;> rfl
  · obtain ⟨matcher, hread, hmatch⟩ := a.exists_matcher hmethod
    have hdirectory : files.isDirectory request.dataRoot = true := by
      obtain ⟨node, place, hplace, hnode, -⟩ := hfile
      exact Tree.isDirectory_iff.mpr ⟨place, hplace, hnode⟩
    obtain ⟨names, hnames⟩ := exists_matchingNames hread hdirectory
    have hsizes : a.findSizes request files method
        = .ok (names.filterMap (a.sizeOf? method)).mergeSort := by
      rw [findSizes, hnames]
      rfl
    obtain ⟨matcher', hread', hmem⟩ := a.findSizes_eq_ok hsizes
    cases hread.symm.trans hread'
    exact ⟨_, hsizes, (hmem n).mpr ⟨hn, hmatch n, hfile⟩⟩

/-- Two runs of `tmmc` among names that only resemble theirs: a padded number, a longer method, and
two numbers. -/
def crowdedTree : Tree :=
  ⟨[(["data"], .directory),
    (["data", "periodic-ww1.30-ff0.30-N20-tmmc-lnw.dat"], .file .empty),
    (["data", "periodic-ww1.30-ff0.30-N007-tmmc-lnw.dat"], .file .empty),
    (["data", "periodic-ww1.30-ff0.30-N8-sad-tmmc-lnw.dat"], .file .empty),
    (["data", "periodic-ww1.30-ff0.30-N9-N10-tmmc-lnw.dat"], .file .empty),
    (["data", "periodic-ww1.30-ff0.30-N5-tmmc-lnw.dat"], .file .empty)]⟩

def crowdedReport : ScalingReport :=
  ⟨1.3, 0.3, [], ["tmmc"]⟩

def crowdedRequest : Request :=
  ⟨"sizes", .sizeScaling, "data", "figs"⟩

theorem crowdedTree_sizes : ∃ sizes,
    crowdedReport.findSizes crowdedRequest crowdedTree "tmmc" = .ok sizes ∧ sizes.SortedLT ∧
      5 ∈ sizes ∧ 20 ∈ sizes ∧ ∀ n ∈ [7, 8, 9, 10], n ∉ sizes := by
  have hentries : (crowdedTree.entries.map Prod.fst).Nodup := by decide
  have hdata : crowdedTree.locate "data" = .ok ["data"] := eq_ok_of_toOption (by decide +kernel)
  have hholds (n : ℕ) :
      (∃ node, crowdedTree.Holds "data" (crowdedReport.weightFile "tmmc" n) node) ↔
        ["data", crowdedReport.weightFile "tmmc" n] ∈ crowdedTree.entries.map Prod.fst :=
    Tree.exists_holds_iff hdata rfl
  obtain ⟨hsound, hcomplete⟩ := crowdedReport.discover_sizes crowdedRequest "tmmc" hentries
  have hplain : Pattern.IsPlain "tmmc".toList := by simp [Pattern.IsPlain]
  obtain ⟨sizes, hsizes, h5⟩ := hcomplete hplain 5 (by decide) ((hholds 5).mpr (by decide +kernel))
  obtain ⟨other, hother, h20⟩ :=
    hcomplete hplain 20 (by decide) ((hholds 20).mpr (by decide +kernel))
  cases hsizes.symm.trans hother
  obtain ⟨hsorted, hfile, -⟩ := hsound sizes hsizes
  refine ⟨sizes, hsizes, hsorted, h5, h20, fun n hn hmem => ?_⟩
  have hnone : ∀ n ∈ [7, 8, 9, 10],
      ["data", crowdedReport.weightFile "tmmc" n] ∉ crowdedTree.entries.map Prod.fst := by
    decide +kernel
  exact hnone n hn ((hholds n).mp (hfile n hmem))

end ScalingReport

end FluidAnalysis.SquareWell
