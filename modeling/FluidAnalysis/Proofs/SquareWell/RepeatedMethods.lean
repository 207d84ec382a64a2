import Mathlib
import FluidAnalysis.Analysis
import FluidAnalysis.Proofs.Canonical.GroundState
import FluidAnalysis.Proofs.Report.Reading

/-!
# Repeated methods

Reports over methods take every method once, at the place where it is listed first. So a list of
methods can be shortened to its first occurrences before anything is read, and a session that notes
one table per method and then its figures never notes a path twice.

* `distinct_eq_eraseDups` — the methods of a report are the first occurrences
* `Session.Notes` — the results that a session notes when it succeeds
* `repetitions_change_nothing` — a repeated method changes neither the answer nor the files
-/

namespace FluidAnalysis.Report

/-! ## First occurrences -/

/-- `seen` are the methods that were kept so far. -/
theorem foldl_distinct (methods seen : List String) :
    methods.foldl (fun seen method => if seen.contains method then seen else seen ++ [method]) seen
      = seen ++ (methods.filter fun method => !seen.contains method).eraseDups := by
  induction methods generalizing seen with
  | nil => simp
  | cons method rest ih =>
    rw [List.foldl_cons, ih]
    by_cases hseen : seen.contains method
    · rw [if_pos hseen, List.filter_cons_of_neg (by simpa using hseen)]
    · have hrest : (rest.filter fun other => !(seen ++ [method]).contains other)
          = (rest.filter fun other => !seen.contains other).filter fun other => !other == method := by
        rw [List.filter_filter]
        refine List.filter_congr fun other _ => ?_
        simp [Bool.and_comm, beq_eq_decide]
      rw [if_neg hseen, List.filter_cons_of_pos (by simpa using hseen), List.eraseDups_cons, hrest,
        List.append_assoc]
      rfl

theorem distinct_eq_eraseDups (methods : List String) : distinct methods = methods.eraseDups := by
  rw [distinct, foldl_distinct]
  simp

theorem eraseDups_of_nodup {methods : List String} (h : methods.Nodup) :
    methods.eraseDups = methods := by
  induction methods with
  | nil => rfl
  | cons method rest ih =>
    obtain ⟨hnew, hrest⟩ := List.nodup_cons.mp h
    have hkept : (rest.filter fun other => !other == method) = rest := by
      refine List.filter_eq_self.mpr fun other hother => ?_
      have hne : other ≠ method := fun heq => hnew (heq ▸ hother)
      simpa using hne
    rw [List.eraseDups_cons, hkept, ih hrest]

@[simp] theorem distinct_eraseDups (methods : List String) :
    distinct methods.eraseDups = distinct methods := by
  rw [distinct_eq_eraseDups methods.eraseDups, ← distinct_eq_eraseDups methods]
  exact eraseDups_of_nodup (nodup_distinct methods)

@[simp] theorem isEmpty_eraseDups (methods : List String) :
    methods.eraseDups.isEmpty = methods.isEmpty := by
  cases methods with
  | nil => rfl
  | cons method rest =>
    rw [List.eraseDups_cons]
    rfl

/-! ## Noted results -/

namespace Session

open Files

variable {β γ : Type}

/-- A session that succeeds has noted some of the results, in this order. -/
def Notes (session : Session β) (results : List Path) : Prop :=
  ∀ before value after, runFrom session before = (.ok value, after) →
    ∃ noted, noted.Sublist results ∧ after.written = before.written ++ noted

namespace Notes

variable {session : Session β} {next : β → Session γ} {results rest : List Path} {out : Output}

theorem pure (value : β) : Notes (pure value : Session β) [] := by
  intro before value after h
  rw [runFrom_pure] at h
  cases h
  exact ⟨[], .slnil, by simp⟩

theorem mono (h : Notes session results) (hresults : results.Sublist rest) :
    Notes session rest := by
  intro before value after hrun
  obtain ⟨noted, hnoted, hwritten⟩ := h before value after hrun
  exact ⟨noted, hnoted.trans hresults, hwritten⟩

theorem bind (h : Notes session results) (h' : ∀ value, Notes (next value) rest) :
    Notes (session >>= next) (results ++ rest) := by
  intro before value after hrun
  obtain ⟨first, middle, hfirst, hrun⟩ := runFrom_bind_eq_ok hrun
  obtain ⟨noted, hnoted, hmiddle⟩ := h before first middle hfirst
  obtain ⟨noted', hnoted', hafter⟩ := h' first middle value after hrun
  refine ⟨noted ++ noted', hnoted.append hnoted', ?_⟩
  rw [hafter, hmiddle, List.append_assoc]

theorem ask_bind {question : Tree → Except Failure β} (h : ∀ answer, Notes (next answer) results) :
    Notes (ask question >>= next) results := by
  intro before value after hrun
  obtain ⟨answer, -, hrun⟩ := runFrom_ask_bind_eq_ok hrun
  exact h answer before value after hrun

/-- A check in front of what follows. -/
theorem check {c : Prop} [Decidable c] {failure : Failure} {next : PUnit → Session β}
    (h : Notes (next ()) results) :
    Notes (if c then MonadExcept.throw failure >>= next else next ()) results := by
  split
  · intro before value after hrun
    cases congrArg Prod.fst hrun
  · exact h

theorem mapM {step : String → Session β} {name : String → Path}
    (h : ∀ item, Notes (step item) [name item]) (items : List String) :
    Notes (items.mapM step) (items.map name) := by
  induction items with
  | nil => exact pure []
  | cons item items ih =>
    rw [List.mapM_cons]
    refine bind (h item) fun value => ?_
    rw [← List.append_nil (items.map name)]
    exact bind ih fun values => pure _

theorem columns (relative : Path) (values : List (List Float)) (format : Table.ColumnFormat) :
    Notes (Session.columns out relative values format) [relative] :=
  fun _ _ _ hrun => ⟨[relative], .refl _, written_columns hrun⟩

theorem panel (relative : Path) (figure : Figure.Panel Float) :
    Notes (Session.panel out relative figure) [relative] :=
  fun _ _ _ hrun => ⟨[relative], .refl _, written_panel hrun⟩

/-- Results without repetitions are noted without repetitions. -/
theorem nodup {session : Session Unit} (h : Notes session results) (hresults : results.Nodup)
    {files after : Tree} {paths : List Path} (hrun : run session files = (.ok paths, after)) :
    paths.Nodup := by
  obtain ⟨state, hstate, rfl, -⟩ := run_eq_ok hrun
  obtain ⟨noted, hnoted, hwritten⟩ := h _ _ _ hstate
  rw [hwritten, List.nil_append]
  exact hresults.sublist hnoted

end Notes

end Session

end FluidAnalysis.Report

namespace FluidAnalysis.SquareWell

open Files Report Session

/-- The results of a report over methods: a table of each method, and then the figures. -/
def methodResults (start : String) (methods : List String) (figures : List Path) : List Path :=
  methods.map (fun method => start ++ method ++ ".dat") ++ figures

theorem nodup_methodResults (start : String) {methods : List String} {figures : List Path}
    (hmethods : methods.Nodup) (hfigures : figures.Nodup)
    (hend : ∀ figure ∈ figures, figure.toList.getLast? = some 'g') :
    (methodResults start methods figures).Nodup := by
  refine List.Nodup.append (hmethods.map fun first second h => ?_) hfigures ?_
  · exact (String.append_right_inj start).mp ((String.append_left_inj ".dat").mp h)
  · intro path htable hfigure
    obtain ⟨method, -, rfl⟩ := List.mem_map.mp htable
    have hlast := hend _ hfigure
    simp at hlast

/-! ## Histogram report -/

/-- What the tables of a view are called, before the name of the method. -/
def HistogramView.tableStart : HistogramView → String
  | .energies => "energy-histogram-"
  | .densities _ => "dos-"
  | .sampleRates => "sample-rate-"

def HistogramView.figures : HistogramView → List Path
  | .energies => ["energy-histogram.svg"]
  | .densities _ => ["dos.svg", "weights.svg"]
  | .sampleRates => ["sample-rate.svg"]

namespace HistogramReport

variable (a : HistogramReport) (out : Output)

theorem execute_eraseDups :
    execute { a with methods := a.methods.eraseDups } out = a.execute out := by
  unfold execute
  simp only [distinct_eraseDups, isEmpty_eraseDups]
  rfl

theorem writeEnergies_notes (method : String) :
    Notes (a.writeEnergies out method) ["energy-histogram-" ++ method ++ ".dat"] := by
  refine .ask_bind fun table => .ask_bind fun stored => .ask_bind fun counts => ?_
  exact .bind (.columns _ _ _) fun _ => .pure _

theorem writeDensities_notes (method : String) :
    Notes (a.writeDensities out method) ["dos-" ++ method ++ ".dat"] := by
  refine .ask_bind fun histogram => .ask_bind fun weights => .ask_bind fun found => ?_
  exact .bind (.columns _ _ _) fun _ => .pure _

/-- A method without samples has no table. -/
theorem writeSampleRate_notes (method : String) :
    Notes (a.writeSampleRate out method) ["sample-rate-" ++ method ++ ".dat"] := by
  refine .ask_bind fun source => .ask_bind fun rate => ?_
  split
  · exact .bind (.columns _ _ _) fun _ => .pure _
  · exact (Notes.pure _).mono (List.nil_sublist _)

theorem execute_notes :
    Notes (a.execute out)
      (methodResults a.view.tableStart (distinct a.methods) a.view.figures) := by
  refine .ask_bind fun _ => .check ?_
  dsimp only
  cases a.view with
  | energies => exact .bind (.mapM (a.writeEnergies_notes out) _) fun _ => .panel _ _
  | densities seed =>
    exact .bind (.mapM (a.writeDensities_notes out) _) fun _ =>
      .bind (.panel _ _) fun _ => .panel _ _
  | sampleRates => exact .bind (.mapM (a.writeSampleRate_notes out) _) fun _ => .panel _ _

theorem nodup_results :
    (methodResults a.view.tableStart (distinct a.methods) a.view.figures).Nodup := by
  refine nodup_methodResults _ (nodup_distinct _) ?_ ?_
  · cases a.view with
    | energies | sampleRates => decide
    | densities seed =>
      show ["dos.svg", "weights.svg"].Nodup
      decide
  · cases a.view with
    | energies | sampleRates => decide
    | densities seed =>
      show ∀ figure ∈ ["dos.svg", "weights.svg"], figure.toList.getLast? = some 'g'
      decide

end HistogramReport

/-! ## Thermodynamics report -/

namespace ThermodynamicsReport

variable (a : ThermodynamicsReport) (out : Output)

theorem execute_eraseDups :
    execute { a with methods := a.methods.eraseDups } out = a.execute out := by
  unfold execute
  simp only [distinct_eraseDups, isEmpty_eraseDups]
  rfl

theorem writeMethod_notes (method : String) :
    Notes (a.writeMethod out method) ["thermo-" ++ method ++ ".dat"] := by
  refine .ask_bind fun curve => ?_
  exact .bind (.columns _ _ _) fun _ => .pure _

theorem execute_notes :
    Notes (a.execute out) (methodResults "thermo-" (distinct a.methods)
      ["thermo-u.svg", "thermo-cv.svg", "thermo-s.svg"]) := by
  refine .ask_bind fun _ => .check (.check ?_)
  exact .bind (.mapM (a.writeMethod_notes out) _) fun _ =>
    .bind (.panel _ _) fun _ => .bind (.panel _ _) fun _ => .panel _ _

end ThermodynamicsReport

/-! ## Scaling report -/

theorem ScalingReport.execute_eraseDups (a : ScalingReport) (out : Output) :
    execute { a with methods := a.methods.eraseDups } out = a.execute out := by
  have htag : tag { a with methods := a.methods.eraseDups } = a.tag := rfl
  have hdiscover : discover { a with methods := a.methods.eraseDups } = a.discover := rfl
  have htables : errorTables { a with methods := a.methods.eraseDups } = a.errorTables := by
    funext request files
    unfold errorTables errorTable
    rw [htag]
  unfold execute
  simp only [distinct_eraseDups, isEmpty_eraseDups, htag, hdiscover, htables]

end FluidAnalysis.SquareWell

namespace FluidAnalysis.Analysis

open Files Report SquareWell

/-- **A repeated method changes nothing.** -/
theorem repetitions_change_nothing (out : Session.Output) (files : Tree) :
    (∀ a : HistogramReport,
      (histogram { a with methods := a.methods.eraseDups }).run out files
        = (histogram a).run out files ∧
      ∀ paths after, (histogram a).run out files = (.ok paths, after) → paths.Nodup) ∧
    (∀ a : ThermodynamicsReport,
      (thermodynamics { a with methods := a.methods.eraseDups }).run out files
        = (thermodynamics a).run out files ∧
      ∀ paths after, (thermodynamics a).run out files = (.ok paths, after) → paths.Nodup) ∧
    ∀ a : ScalingReport,
      (sizeScaling { a with methods := a.methods.eraseDups }).run out files
        = (sizeScaling a).run out files := by
  refine ⟨fun a => ⟨?_, fun paths after hrun => ?_⟩, fun a => ⟨?_, fun paths after hrun => ?_⟩,
    fun a => ?_⟩
  · exact congrArg (Session.run · files) (a.execute_eraseDups out)
  · exact (a.execute_notes out).nodup a.nodup_results hrun
  · exact congrArg (Session.run · files) (a.execute_eraseDups out)
  · refine (a.execute_notes out).nodup ?_ hrun
    exact nodup_methodResults _ (nodup_distinct _) (by decide) (by decide)
  · exact congrArg (Session.run · files) (a.execute_eraseDups out)

/-- The tables of two runs of one system. -/
def wellTree : Tree :=
  ⟨[(["data"], .directory),
    (["data", "periodic-ww1.30-ff0.30-N5-nw-E.dat"], .file "0 10\n1 5\n".toUTF8),
    (["data", "periodic-ww1.30-ff0.30-N5-nw-lnw.dat"], .file "0 0\n1 0\n".toUTF8),
    (["data", "periodic-ww1.30-ff0.30-N5-tmmc-E.dat"], .file "0 20\n1 8\n".toUTF8),
    (["data", "periodic-ww1.30-ff0.30-N5-tmmc-lnw.dat"], .file "0 0\n1 1\n".toUTF8)]⟩

def wellOutput (kind : Kind) : Session.Output :=
  ⟨⟨"well", kind, "data", "results"⟩, {}⟩

def wellEnergies (methods : List String) : HistogramReport :=
  ⟨.energies, ⟨1.3, 0.3, 5⟩, methods⟩

def wellThermodynamics (methods : List String) : ThermodynamicsReport :=
  { system := ⟨1.3, 0.3, 5⟩, methods := methods, temperatures := [1.0] }

def energyPaths : List Path :=
  ["energy-histogram-tmmc.dat", "energy-histogram-nw.dat", "energy-histogram.svg"]

def thermodynamicsPaths : List Path :=
  ["thermo-tmmc.dat", "thermo-nw.dat", "thermo-u.svg", "thermo-cv.svg", "thermo-s.svg"]

theorem run_wellEnergies :
    ((histogram (wellEnergies ["tmmc", "nw", "tmmc"])).run (wellOutput .energyHistogram)
      wellTree).1.toOption = some energyPaths := by
  decide +kernel

theorem run_wellThermodynamics :
    ((thermodynamics (wellThermodynamics ["tmmc", "nw", "tmmc"])).run (wellOutput .thermodynamics)
      wellTree).1.toOption = some thermodynamicsPaths := by
  -- the share of the ground state cannot be computed here, and with one temperature it does not matter
  unfold run execute ThermodynamicsReport.execute ThermodynamicsReport.writeMethod
    ThermodynamicsReport.method
  simp only [wellThermodynamics, Canonical.minimumTemperature_singleton]
  decide +kernel

/-- Two tables are written where three methods are listed. -/
theorem repeated_method_once :
    (∃ after,
      (histogram (wellEnergies ["tmmc", "nw", "tmmc"])).run (wellOutput .energyHistogram) wellTree
        = (.ok energyPaths, after) ∧
      (histogram (wellEnergies ["tmmc", "nw"])).run (wellOutput .energyHistogram) wellTree
        = (.ok energyPaths, after)) ∧
    energyPaths.Nodup ∧
    (∃ after,
      (thermodynamics (wellThermodynamics ["tmmc", "nw", "tmmc"])).run
        (wellOutput .thermodynamics) wellTree = (.ok thermodynamicsPaths, after) ∧
      (thermodynamics (wellThermodynamics ["tmmc", "nw"])).run
        (wellOutput .thermodynamics) wellTree = (.ok thermodynamicsPaths, after)) ∧
    thermodynamicsPaths.Nodup := by
  have henergies := pair_eq_of_toOption run_wellEnergies
  have hthermodynamics := pair_eq_of_toOption run_wellThermodynamics
  obtain ⟨hsame, hnodup⟩ := (repetitions_change_nothing (wellOutput .energyHistogram) wellTree).1
    (wellEnergies ["tmmc", "nw", "tmmc"])
  obtain ⟨hsame', hnodup'⟩ := (repetitions_change_nothing (wellOutput .thermodynamics) wellTree).2.1
    (wellThermodynamics ["tmmc", "nw", "tmmc"])
  exact ⟨⟨_, henergies, hsame.trans henergies⟩, hnodup _ _ henergies,
    ⟨_, hthermodynamics, hsame'.trans hthermodynamics⟩, hnodup' _ _ hthermodynamics⟩

end FluidAnalysis.Analysis
