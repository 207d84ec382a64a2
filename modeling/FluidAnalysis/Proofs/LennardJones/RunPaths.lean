import Mathlib
import FluidAnalysis.Proofs.Analysis.Courses
import FluidAnalysis.Proofs.Files.Names

/-!
# Paths of scored runs

A heat capacity report writes an error table for every run, and a curve for every estimate of the run
that was saved at the chosen time. Both are named after the run, and a run is named after the last
step of its path. So the directory of a run, and which of its estimates a curve belongs to, are not
in the names.

* `HeatCapacityReport.readRuns` — the runs as a report reads them
* `HeatCapacityReport.KeptApart` — no two results have the same path
* `HeatCapacityReport.nodup_paths_iff` — when the results of a report are kept apart
-/

namespace FluidAnalysis.LennardJones

open Files Report Session

namespace EntropyRun

/-- The name of a run. -/
def nameOf (base : Path) : String :=
  base.fileName?.getD base

theorem load_name {files : Tree} {base : Path} {run : EntropyRun} (h : load files base = .ok run) :
    run.name = nameOf base := by
  obtain ⟨times, -, h⟩ := bind_eq_ok_iff.mp h
  obtain ⟨energies, -, h⟩ := bind_eq_ok_iff.mp h
  obtain ⟨entropy, -, h⟩ := bind_eq_ok_iff.mp h
  dsimp only at h
  split at h
  · cases h
  · cases h
    rfl

end EntropyRun

namespace HeatCapacityReport

variable (a : HeatCapacityReport)

/-! ## What a run notes -/

/-- The estimates of a run whose curves are written. -/
def saved (run : EntropyRun) : List (Float × List Float) :=
  (run.timedFrom a.minTime).filter fun estimate => estimate.1 == a.saveTime

/-- The tables of a run: a curve for every saved estimate, and the errors. -/
def runTables (run : EntropyRun) : List Path :=
  (a.saved run).map (fun _ => run.name ++ "-cv.txt") ++ [run.name ++ "-cv-error.txt"]

theorem scoreEstimate_written {out : Output} {benchmark : List Float} {run : EntropyRun}
    {estimate : Float × List Float} {score : Float × CurveError Float} {before after : State}
    (h : runFrom (a.scoreEstimate out benchmark run estimate) before = (.ok score, after)) :
    after.written = before.written ++
      if estimate.1 == a.saveTime then [run.name ++ "-cv.txt"] else [] := by
  obtain ⟨values, -, h⟩ := runFrom_ask_bind_eq_ok h
  dsimp only at h
  split at h
  · next hsaved =>
    obtain ⟨_, middle, hcurve, h⟩ := runFrom_bind_eq_ok h
    cases h
    rw [if_pos hsaved]
    exact written_columns hcurve
  · next hsaved =>
    cases h
    rw [if_neg hsaved, List.append_nil]

theorem scoreEstimates_written {out : Output} {benchmark : List Float} {run : EntropyRun}
    {estimates : List (Float × List Float)} {scores : List (Float × CurveError Float)}
    {before after : State}
    (h : runFrom (estimates.mapM (a.scoreEstimate out benchmark run)) before = (.ok scores, after)) :
    after.written = before.written ++
      (estimates.filter fun estimate => estimate.1 == a.saveTime).map
        fun _ => run.name ++ "-cv.txt" := by
  induction estimates generalizing before scores with
  | nil =>
    cases h
    exact (List.append_nil _).symm
  | cons estimate rest ih =>
    rw [List.mapM_cons] at h
    obtain ⟨score, middle, hfirst, h⟩ := runFrom_bind_eq_ok h
    obtain ⟨others, last, hrest, h⟩ := runFrom_bind_eq_ok h
    cases h
    rw [ih hrest, a.scoreEstimate_written hfirst, List.append_assoc, List.filter_cons]
    split <;> rfl

/-- A run that is scored adds its tables to the results. -/
theorem scoreRun_written {out : Output} {benchmark : List Float} {run : EntropyRun}
    {position : Nat} {series : Figure.Series Float} {before after : State}
    (hrun : run.entropy.rows.length ≤ run.times.length)
    (h : runFrom (a.scoreRun out benchmark run position) before = (.ok series, after)) :
    after.written = before.written ++ a.runTables run := by
  obtain ⟨estimates, hestimates, h⟩ := runFrom_ask_bind_eq_ok h
  obtain rfl : run.timedFrom a.minTime = estimates :=
    Except.ok.inj ((EntropyRun.estimatesFrom_eq_ok hrun a.minTime).symm.trans hestimates)
  obtain ⟨scores, middle, hscores, h⟩ := runFrom_bind_eq_ok h
  obtain ⟨_, last, herrors, h⟩ := runFrom_bind_eq_ok h
  cases h
  rw [written_columns herrors, a.scoreEstimates_written hscores, List.append_assoc]
  rfl

/-- Reads a run other than the first and scores it. -/
def scoreOther (out : Output) (benchmark : List Float) (other : Path × Nat) :
    Session (Figure.Series Float) := do
  let run ← Session.ask fun files => EntropyRun.load files (out.request.dataPath other.1)
  a.scoreRun out benchmark run (other.2 + 1)

/-- The runs behind the first, each as it is read after the ones before it have been written. -/
def readOthers (out : Output) (benchmark : List Float) : State → List (Path × Nat) → List EntropyRun
  | _, [] => []
  | state, other :: rest =>
    let found := EntropyRun.load state.files (out.request.dataPath other.1)
    found.toOption.toList ++
      readOthers out benchmark (runFrom (a.scoreOther out benchmark other) state).2 rest

theorem scoreOthers_written {out : Output} {benchmark : List Float} {others : List (Path × Nat)}
    {series : List (Figure.Series Float)} {before after : State}
    (h : runFrom (others.mapM (a.scoreOther out benchmark)) before = (.ok series, after)) :
    (a.readOthers out benchmark before others).map (·.name)
        = others.map (fun other => EntropyRun.nameOf (out.request.dataPath other.1)) ∧
      after.written
        = before.written ++ (a.readOthers out benchmark before others).flatMap a.runTables := by
  induction others generalizing before series with
  | nil =>
    cases h
    exact ⟨rfl, (List.append_nil _).symm⟩
  | cons other rest ih =>
    rw [List.mapM_cons] at h
    obtain ⟨first, middle, hfirst, h⟩ := runFrom_bind_eq_ok h
    obtain ⟨later, last, hrest, h⟩ := runFrom_bind_eq_ok h
    cases h
    obtain ⟨hnames, hwritten⟩ := ih hrest
    have hmiddle : (runFrom (a.scoreOther out benchmark other) before).2 = middle := by rw [hfirst]
    obtain ⟨run, hload, hscore⟩ := runFrom_ask_bind_eq_ok hfirst
    rw [readOthers, hmiddle, hload]
    refine ⟨?_, ?_⟩
    · simp [Except.toOption, hnames, EntropyRun.load_name hload]
    · rw [hwritten, a.scoreRun_written (EntropyRun.load_eq_ok hload) hscore]
      simp [Except.toOption]

/-- The state after the benchmark and the tables of the first run have been written. -/
def afterFirst (out : Output) (files : Tree) (benchmark : List Float) (first : EntropyRun) : State :=
  let begun := (runFrom (a.writeCurve out "bench-cv.txt" benchmark) { files := files }).2
  (runFrom (a.scoreRun out benchmark first 0) begun).2

/-- The runs of a report, each as it is read after the ones before it have been written. The first
one gives the benchmark. -/
def readRuns (out : Output) (files : Tree) : Except Failure (List EntropyRun) :=
  match a.runs with
  | [] => .error .noRuns
  | base :: others => do
    let first ← EntropyRun.load files (out.request.dataPath base)
    let final ← first.finalEntropy
    let benchmark ← a.curve first final
    return first ::
      a.readOthers out benchmark (a.afterFirst out files benchmark first) others.zipIdx

/-- The results of a report in the order of writing. -/
def resultPaths (runs : List EntropyRun) : List Path :=
  "bench-cv.txt" :: (runs.flatMap a.runTables ++ ["cv-error.svg"])

theorem execute_paths {out : Output} {files : Tree} {after : State}
    (h : runFrom (a.execute out) { files := files } = (.ok (), after)) :
    ∃ runs, a.readRuns out files = .ok runs ∧
      runs.map (·.name) = a.runs.map (fun base => EntropyRun.nameOf (out.request.dataPath base)) ∧
      after.written = a.resultPaths runs := by
  obtain ⟨_, -, h⟩ := runFrom_ask_bind_eq_ok h
  unfold readRuns
  dsimp only at h
  cases hruns : a.runs with
  | nil =>
    rw [hruns] at h
    cases h
  | cons base others =>
    rw [hruns] at h
    obtain ⟨first, hfirst, h⟩ := runFrom_ask_bind_eq_ok h
    obtain ⟨final, hfinal, h⟩ := runFrom_ask_bind_eq_ok h
    obtain ⟨benchmark, hbenchmark, h⟩ := runFrom_ask_bind_eq_ok h
    obtain ⟨_, begun, hbegun, h⟩ := runFrom_bind_eq_ok h
    obtain ⟨_, state, hstate, h⟩ := runFrom_bind_eq_ok h
    obtain ⟨series, last, hothers, h⟩ := runFrom_bind_eq_ok h
    obtain ⟨hnames, hwritten⟩ := a.scoreOthers_written hothers
    refine ⟨first :: a.readOthers out benchmark state others.zipIdx, ?_, ?_, ?_⟩
    · refine bind_eq_ok_iff.mpr ⟨first, hfirst, bind_eq_ok_iff.mpr ⟨final, hfinal, ?_⟩⟩
      refine bind_eq_ok_iff.mpr ⟨benchmark, hbenchmark, ?_⟩
      rw [afterFirst, hbegun, hstate]
      rfl
    · rw [List.map_cons, List.map_cons, hnames, EntropyRun.load_name hfirst]
      simp [← Function.comp_def, ← List.map_map]
    · rw [written_panel h, hwritten, a.scoreRun_written (EntropyRun.load_eq_ok hfirst) hstate,
        written_columns hbegun]
      simp [resultPaths]

/-! ## Names of results -/

theorem curve_ne_errors (x y : String) : x ++ "-cv.txt" ≠ y ++ "-cv-error.txt" := by
  intro h
  -- counted from the end, the fifth letters differ
  have hletter := congrArg (fun text => text.toList.reverse[4]?) h
  simp at hletter

theorem figure_ne_curve (x : String) : "cv-error.svg" ≠ x ++ "-cv.txt" := by
  intro h
  have hletter := congrArg (fun text => text.toList.reverse[0]?) h
  simp at hletter

theorem figure_ne_errors (x : String) : "cv-error.svg" ≠ x ++ "-cv-error.txt" := by
  intro h
  have hletter := congrArg (fun text => text.toList.reverse[0]?) h
  simp at hletter

theorem bench_eq_curve_iff (x : String) : "bench-cv.txt" = x ++ "-cv.txt" ↔ x = "bench" := by
  have hbench : "bench-cv.txt" = "bench" ++ "-cv.txt" := by decide
  rw [hbench, String.append_left_inj, eq_comm]

theorem mem_runTables_iff {run : EntropyRun} {path : Path} :
    path ∈ a.runTables run ↔
      (a.saved run ≠ [] ∧ path = run.name ++ "-cv.txt") ∨ path = run.name ++ "-cv-error.txt" := by
  unfold runTables
  rw [List.mem_append, List.mem_singleton, List.mem_map]
  cases a.saved run with
  | nil => simp
  | cons estimate rest => simp [eq_comm]

theorem nodup_runTables_iff {run : EntropyRun} :
    (a.runTables run).Nodup ↔ (a.saved run).length ≤ 1 := by
  unfold runTables
  rw [List.map_const', List.nodup_append, List.nodup_replicate]
  have hne := curve_ne_errors run.name run.name
  simp only [List.nodup_singleton, List.mem_singleton, true_and]
  exact and_iff_left fun path hpath other hother => by
    rw [List.eq_of_mem_replicate hpath, hother]
    exact hne

theorem runTables_disjoint_iff {run other : EntropyRun} :
    (a.runTables run).Disjoint (a.runTables other) ↔ run.name ≠ other.name := by
  constructor
  · intro h hname
    refine h ((a.mem_runTables_iff).mpr (.inr rfl)) ((a.mem_runTables_iff).mpr (.inr ?_))
    rw [hname]
  · intro hname path hpath hother
    rcases a.mem_runTables_iff.mp hpath with ⟨-, rfl⟩ | rfl
    · rcases a.mem_runTables_iff.mp hother with ⟨-, h⟩ | h
      · exact hname ((String.append_left_inj _).mp h)
      · exact curve_ne_errors _ _ h
    · rcases a.mem_runTables_iff.mp hother with ⟨-, h⟩ | h
      · exact curve_ne_errors _ _ h.symm
      · exact hname ((String.append_left_inj _).mp h)

/-- What keeps the results of runs apart: their names differ, none of them has two estimates from the
time whose curve is written, and one that is called `bench` has none. -/
structure KeptApart (runs : List EntropyRun) : Prop where
  names : (runs.map (·.name)).Nodup
  once : ∀ run ∈ runs, (a.saved run).length ≤ 1
  bench : ∀ run ∈ runs, run.name = "bench" → a.saved run = []

theorem nodup_resultPaths_iff {runs : List EntropyRun} :
    (a.resultPaths runs).Nodup ↔ a.KeptApart runs := by
  have hfigure : "cv-error.svg" ∉ runs.flatMap a.runTables := by
    intro hmem
    obtain ⟨run, -, hrun⟩ := List.mem_flatMap.mp hmem
    rcases a.mem_runTables_iff.mp hrun with ⟨-, h⟩ | h
    · exact figure_ne_curve _ h
    · exact figure_ne_errors _ h
  have hbench : "bench-cv.txt" ∉ runs.flatMap a.runTables ++ ["cv-error.svg"] ↔
      ∀ run ∈ runs, run.name = "bench" → a.saved run = [] := by
    constructor
    · intro h run hrun hname
      by_contra hsaved
      have hcurve := a.mem_runTables_iff.mpr (.inl ⟨hsaved, (bench_eq_curve_iff _).mpr hname⟩)
      exact h (List.mem_append_left _ (List.mem_flatMap.mpr ⟨run, hrun, hcurve⟩))
    · intro h hmem
      rcases List.mem_append.mp hmem with hmem | hmem
      · obtain ⟨run, hrun, hpath⟩ := List.mem_flatMap.mp hmem
        rcases a.mem_runTables_iff.mp hpath with ⟨hsaved, hcurve⟩ | herrors
        · exact hsaved (h run hrun ((bench_eq_curve_iff _).mp hcurve))
        · exact curve_ne_errors "bench" _ herrors
      · exact absurd hmem (by decide)
  have hruns : (runs.flatMap a.runTables ++ ["cv-error.svg"]).Nodup ↔
      (runs.map (·.name)).Nodup ∧ ∀ run ∈ runs, (a.saved run).length ≤ 1 := by
    rw [← List.concat_eq_append, List.nodup_concat, and_iff_right hfigure, List.nodup_flatMap]
    constructor
    · rintro ⟨hown, hpairs⟩
      exact ⟨List.pairwise_map.mpr (hpairs.imp a.runTables_disjoint_iff.mp),
        fun run hrun => a.nodup_runTables_iff.mp (hown run hrun)⟩
    · rintro ⟨hnames, honce⟩
      exact ⟨fun run hrun => a.nodup_runTables_iff.mpr (honce run hrun),
        (List.pairwise_map.mp hnames).imp a.runTables_disjoint_iff.mpr⟩
  rw [resultPaths, List.nodup_cons, hbench, hruns]
  exact ⟨fun h => ⟨h.2.1, h.2.2, h.1⟩, fun h => ⟨h.bench, h.names, h.once⟩⟩

/-! ## Results as files -/

theorem slash_not_mem_nameOf {base : Path} (h : base.fileName?.isSome) :
    '/' ∉ (EntropyRun.nameOf base).toList := by
  obtain ⟨name, hname⟩ := Option.isSome_iff_exists.mp h
  rw [EntropyRun.nameOf, hname, Option.getD_some]
  exact Path.slash_not_mem_of_fileName? hname

/-- Runs with plain names have results with plain names. -/
theorem plain_of_mem_resultPaths {runs : List EntropyRun}
    (hnames : ∀ run ∈ runs, '/' ∉ run.name.toList) {path : Path} (hpath : path ∈ a.resultPaths runs) :
    '/' ∉ path.toList ∧ IsPlainName path := by
  have hends : ∀ name ending : String, '/' ∉ name.toList → '/' ∉ ending.toList →
      2 < ending.length → '/' ∉ (name ++ ending).toList ∧ IsPlainName (name ++ ending) := by
    intro name ending hname hending hlength
    refine ⟨by simp [hname, hending], isPlainName_of_lt_length ?_⟩
    rw [String.length_append]
    omega
  rcases List.mem_cons.mp hpath with rfl | hpath
  · exact hends "" "bench-cv.txt" (by decide) (by decide) (by decide)
  · rcases List.mem_append.mp hpath with hpath | hpath
    · obtain ⟨run, hrun, hpath⟩ := List.mem_flatMap.mp hpath
      rcases a.mem_runTables_iff.mp hpath with ⟨-, rfl⟩ | rfl
      · exact hends _ _ (hnames run hrun) (by decide) (by decide)
      · exact hends _ _ (hnames run hrun) (by decide) (by decide)
    · rw [List.mem_singleton.mp hpath]
      exact hends "" "cv-error.svg" (by decide) (by decide) (by decide)

/-- **When the results of a report are kept apart.** The results are the benchmark, the tables of the
runs and the figure. They have paths of their own if and only if the runs have different last names,
no run has two estimates from the time whose curve is written, and a run called `bench` has none. If
every path of a run ends in a name, the results are then different files in every file tree. -/
theorem nodup_paths_iff (out : Output) (files after : Tree) (paths : List Path)
    (h : (Analysis.heatCapacity a).run out files = (.ok paths, after)) :
    ∃ runs, a.readRuns out files = .ok runs ∧
      runs.map (·.name) = a.runs.map (fun base => EntropyRun.nameOf (out.request.dataPath base)) ∧
      paths = a.resultPaths runs ∧ (paths.Nodup ↔ a.KeptApart runs) ∧
      ((∀ base ∈ a.runs, (out.request.dataPath base).fileName?.isSome) → a.KeptApart runs →
        ∀ tree : Tree, paths.Pairwise fun one other => ∀ place,
          tree.locate (out.request.outputPath one) = .ok place →
            tree.locate (out.request.outputPath other) ≠ .ok place) := by
  obtain ⟨state, hrun, rfl, -⟩ := run_eq_ok h
  obtain ⟨runs, hread, hnames, hpaths⟩ := a.execute_paths hrun
  refine ⟨runs, hread, hnames, hpaths, by rw [hpaths, nodup_resultPaths_iff], ?_⟩
  intro hbases hapart tree
  have hslash : ∀ run ∈ runs, '/' ∉ run.name.toList := by
    intro run hmem
    have hname : run.name ∈ runs.map (·.name) := List.mem_map_of_mem hmem
    rw [hnames] at hname
    obtain ⟨base, hbase, hname⟩ := List.mem_map.mp hname
    rw [← hname]
    exact slash_not_mem_nameOf (hbases base hbase)
  rw [hpaths]
  refine List.Pairwise.imp_of_mem ?_ (a.nodup_resultPaths_iff.mpr hapart)
  intro one other hone hother hne place hplace hplace'
  obtain ⟨hslash₁, hplain₁⟩ := a.plain_of_mem_resultPaths hslash hone
  obtain ⟨hslash₂, hplain₂⟩ := a.plain_of_mem_resultPaths hslash hother
  exact hne (Tree.locate_join_inj hslash₁ hslash₂ hplain₁ hplain₂ hplace hplace')

/-! ## Two runs of one name -/

/-- Two runs called `x` in different directories. -/
def namesakeTree : Tree :=
  ⟨[(["data"], .directory), (["data", "a"], .directory), (["data", "b"], .directory),
    (["data", "a", "x.time"], .file "1e7\n".toUTF8),
    (["data", "a", "x.energy"], .file "-2\n-1\n".toUTF8),
    (["data", "a", "x.entropy"], .file "0 1\n".toUTF8),
    (["data", "b", "x.time"], .file "1e8\n".toUTF8),
    (["data", "b", "x.energy"], .file "-2\n-1\n".toUTF8),
    (["data", "b", "x.entropy"], .file "0 2\n".toUTF8)]⟩

def namesakeReport : HeatCapacityReport :=
  { runs := ["a/x", "b/x"], temperatures := [0.5, 1.0] }

def namesakeOutput : Output :=
  ⟨⟨"clusters", .heatCapacity, "data", "figs"⟩, {}⟩

def namesakePaths : List Path :=
  ["bench-cv.txt", "x-cv-error.txt", "x-cv-error.txt", "cv-error.svg"]

theorem run_namesakeReport :
    ((Analysis.heatCapacity namesakeReport).run namesakeOutput namesakeTree).1.toOption
      = some namesakePaths := by
  decide +kernel

/-- The run succeeds, and the errors of the second run replace those of the first. -/
theorem namesakes_share_paths :
    ∃ after runs,
      (Analysis.heatCapacity namesakeReport).run namesakeOutput namesakeTree
        = (.ok namesakePaths, after) ∧
      runs.map (·.name) = ["x", "x"] ∧ ¬ namesakePaths.Nodup ∧ ¬ namesakeReport.KeptApart runs := by
  have hrun := pair_eq_of_toOption run_namesakeReport
  have hrepeated : ¬ namesakePaths.Nodup := by decide
  obtain ⟨runs, -, hnames, -, hiff, -⟩ :=
    namesakeReport.nodup_paths_iff namesakeOutput namesakeTree _ _ hrun
  have hx : namesakeReport.runs.map (fun base =>
      EntropyRun.nameOf (namesakeOutput.request.dataPath base)) = ["x", "x"] := by decide +kernel
  exact ⟨_, runs, hrun, hnames.trans hx, hrepeated, mt hiff.mpr hrepeated⟩

end HeatCapacityReport

end FluidAnalysis.LennardJones
