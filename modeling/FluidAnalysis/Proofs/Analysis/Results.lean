import FluidAnalysis.Proofs.Analysis.Courses
import FluidAnalysis.Proofs.Files.Changes

/-!
# What a run answers and writes

A run that fails does so over its input or its files, and never over the shape of data that it made
itself. The list that a run answers names the files that it wrote, in the order of writing, and
there are no others. A run of an analysis that reads all its data first writes nothing unless its
data is good.

* `Course.listing` — the files that a course stores are those that it notes
* `Analysis.run_wellShaped` — the failures that no run has
* `Analysis.run_listing` — the answer of a run and the changes of its files
* `Analysis.run_unchanged` — refusals that leave the files as they were
-/

namespace FluidAnalysis

open Files Report Session

/-! ## Storing one result -/

namespace Report

theorem makeParent_written {noDirectory : Path → Cause → Failure} {files next : Tree} {path : Path}
    {outcome : Except Failure Unit} (h : makeParent noDirectory files path = (outcome, next)) :
    Written files [] next := by
  unfold makeParent at h
  split at h
  · cases h
    exact .unchanged files
  · next parent _ =>
    have hmade := files.ensureDirectory_written (parent.ancestors (parent.length + 1))
    unfold Tree.makeDirectories at h
    split at h
    · next heq =>
      cases h
      rw [heq] at hmade
      exact hmade
    · next heq =>
      cases h
      rw [heq] at hmade
      exact hmade

/-- A result that is stored is one file, at the end of its path. -/
theorem store_eq_ok {noDirectory noFile : Path → Cause → Failure} {files next : Tree} {path : Path}
    {content : String} (h : store noDirectory noFile files path content = (.ok (), next)) :
    ∃ place, Written files [(place, content.toUTF8)] next ∧ next.locate path = .ok place := by
  unfold store at h
  split at h
  · cases h
  · next middle hparent =>
    split at h
    · next hwrite =>
      cases h
      obtain ⟨place, hplace, hnode, rfl⟩ := Tree.write_eq_ok hwrite
      have hfile : Written middle [(place, content.toUTF8)]
          (middle.set place (.file content.toUTF8)) := .file hnode (.unchanged _)
      exact ⟨place, (makeParent_written hparent).trans hfile, hfile.locate_eq_ok hplace⟩
    · cases h

/-- The places of the writes are the ends of the logged paths, and the contents are the logged
contents. -/
def Logged (files : Tree) (log : List (Path × String)) (writes : List (Place × ByteArray)) : Prop :=
  log.map (fun entry => (files.locate entry.1, entry.2.toUTF8))
    = writes.map fun write => (.ok write.1, write.2)

theorem Stores.written {out : Output} {relative : Path} {before after : State}
    (h : Stores out relative before (.ok ()) after) :
    ∃ content place, Written before.files [(place, content.toUTF8)] after.files ∧
      after.files.locate (out.request.outputPath relative) = .ok place ∧
      after.written = before.written ++ [relative] ∧
      after.log = before.log ++ [(out.request.outputPath relative, content)] := by
  obtain ⟨medium, content, hstore, hnoted, hlogged⟩ := h
  obtain ⟨noDirectory, noFile, hstore⟩ : ∃ noDirectory noFile,
      store noDirectory noFile before.files (out.request.outputPath relative) content
        = (.ok (), after.files) := by
    cases medium with
    | text => exact ⟨.outputDirectory, .unwritableText, hstore⟩
    | figure => exact ⟨.figureDirectory, .unwritableFigure, hstore⟩
  obtain ⟨place, hwritten, hlocate⟩ := store_eq_ok hstore
  exact ⟨content, place, hwritten, hlocate, hnoted, hlogged⟩

/-! ## Courses -/

/-- A course notes what it logs, and it writes what it logs, one by one. -/
theorem Course.listing {out : Output} {refuses : Failure → Prop} {before after : State}
    (h : Course out refuses before (.ok ()) after) :
    ∃ paths log writes, after.written = before.written ++ paths ∧ after.log = before.log ++ log ∧
      log.map Prod.fst = paths.map out.request.outputPath ∧
      Written before.files writes after.files ∧ Logged after.files log writes := by
  generalize hdone : Except.ok () = outcome at h
  induction h with
  | done =>
    exact ⟨[], [], [], (List.append_nil _).symm, (List.append_nil _).symm, rfl, .unchanged _, rfl⟩
  | refused => cases hdone
  | @stored _ _ _ relative _ hstored _ ih =>
    obtain ⟨paths, log, writes, hpaths, hlog, hlisted, hwrites, hlogged⟩ := ih hdone
    obtain ⟨content, place, hfirst, hplace, hnoted, hentry⟩ := hstored.written
    refine ⟨relative :: paths, (out.request.outputPath relative, content) :: log,
      (place, content.toUTF8) :: writes, ?_, ?_, ?_, hfirst.trans hwrites, ?_⟩
    · rw [hpaths, hnoted, List.append_assoc, List.singleton_append]
    · rw [hlog, hentry, List.append_assoc, List.singleton_append]
    · rw [List.map_cons, List.map_cons, hlisted]
    · -- later results do not move the place of this one
      unfold Logged at hlogged ⊢
      rw [List.map_cons, List.map_cons, hwrites.locate_eq_ok hplace, hlogged]
  | notStored => cases hdone

end Report

/-! ## Runs -/

namespace Analysis

/-! ### Failures -/

/-- **A run never stumbles over its own data.** No columns of different lengths are given to be
written, no row is appended to a table of another width, and no position outside of a list is read
or changed. -/
theorem run_wellShaped (a : Analysis) (out : Output) (files after : Tree) (failure : Failure)
    (h : a.run out files = (.error failure, after)) :
    failure.code ≠ "INTERNAL.COLUMN_LENGTH" ∧ failure.code ≠ "INTERNAL.TABLE_ROW" ∧
      failure.code ≠ "INTERNAL.OUT_OF_RANGE" := by
  obtain ⟨state, hrun, -⟩ := run_eq_error h
  have hcourse := a.execute_orderly out { files := files }
  rw [hrun] at hcourse
  have hordinary : Ordinary failure := hcourse.eq_error.elim id ordinary_of_mem_storeCodes
  simpa [Ordinary, shapeCodes] using hordinary

/-- A run with two estimates of the entropy and one saved time. -/
def unsavedTree : Tree :=
  ⟨[(["data"], .directory), (["data", "run.time"], .file "100\n".toUTF8),
    (["data", "run.energy"], .file "-3\n-2\n".toUTF8),
    (["data", "run.entropy"], .file "1 2\n1 3\n".toUTF8)]⟩

def unsavedAnswer : Except Failure (List Path) × Tree :=
  (heatCapacity { runs := ["run"], temperatures := [1] }).run
    ⟨⟨"clusters", .heatCapacity, "data", "results"⟩, {}⟩ unsavedTree

/-- An estimate without a saved time is noticed before its time is looked up. -/
theorem run_wellShaped_unsaved :
    ∃ failure after, unsavedAnswer = (.error failure, after) ∧
      failure.code = "INPUT.LJ_TIME_ROWS" ∧ failure.code ≠ "INTERNAL.COLUMN_LENGTH" ∧
      failure.code ≠ "INTERNAL.TABLE_ROW" ∧ failure.code ≠ "INTERNAL.OUT_OF_RANGE" := by
  have hcode : codeOf? unsavedAnswer.1 = some "INPUT.LJ_TIME_ROWS" := by decide +kernel
  obtain ⟨failure, hrun, hcode⟩ := exists_eq_error_of_codeOf? hcode
  exact ⟨failure, _, hrun, hcode, run_wellShaped _ _ _ _ _ hrun⟩

/-! ### Results -/

/-- **The answer of a run tells what it wrote.** The paths of the answer are those that were given to
be stored, in this order. The files at their ends were created or rewritten in this order with the
contents given for them; each of them is a file in the end, and holds what was given for it last. At
every other place there is what was there before, unless a directory was made where nothing was. -/
theorem run_listing (a : Analysis) (out : Output) (files after : Tree) (paths : List Path)
    (h : a.run out files = (.ok paths, after)) :
    ∃ state writes, runFrom (a.execute out) { files := files } = (.ok (), state) ∧
      state.files = after ∧ state.log.map Prod.fst = paths.map out.request.outputPath ∧
      Written files writes after ∧ Logged after state.log writes ∧
      (∀ path ∈ paths, after.isFile (out.request.outputPath path)) ∧
      (∀ earlier place content later, writes = earlier ++ (place, content) :: later →
        place ∉ later.map Prod.fst → after.node? place = some (.file content)) ∧
      ∀ place, place ∉ writes.map Prod.fst →
        after.node? place = files.node? place ∨
          files.node? place = none ∧ after.node? place = some .directory := by
  obtain ⟨state, hrun, rfl, rfl⟩ := run_eq_ok h
  have hcourse := a.execute_orderly out { files := files }
  rw [hrun] at hcourse
  obtain ⟨paths, log, writes, hpaths, hlog, hlisted, hwrites, hlogged⟩ := hcourse.listing
  rw [List.nil_append] at hpaths hlog
  rw [hpaths]
  refine ⟨state, writes, hrun, rfl, hlog ▸ hlisted, hwrites, hlog ▸ hlogged, fun path hpath => ?_,
    fun _ _ _ _ hsplit => hwrites.node?_of_last hsplit, fun place => hwrites.node?_of_not_mem⟩
  have hmem : out.request.outputPath path ∈ log.map Prod.fst := by
    rw [hlisted]
    exact List.mem_map_of_mem hpath
  obtain ⟨entry, hentry, hend⟩ := List.mem_map.mp hmem
  obtain ⟨write, hwrite, hplace⟩ := List.mem_map.mp (hlogged ▸ List.mem_map_of_mem hentry)
  obtain ⟨content, hcontent⟩ := hwrites.exists_file_of_mem (List.mem_map_of_mem hwrite)
  have hlocate : state.files.locate (out.request.outputPath path) = .ok write.1 := by
    rw [← hend]
    exact (congrArg Prod.fst hplace).symm
  simp [Tree.isFile, Tree.lookup, hlocate, hcontent]

/-- The tables of a coexistence report, in the order of reading. -/
def curveTables : List (Place × Node) :=
  [(["data", "npart_RG-i0-out.dat"], .file "1 0.1 0.5\n".toUTF8),
    (["data", "forte_data.dat"], .file "94 52\n".toUTF8),
    (["data", "forte_data_conv.dat"], .file "94 52\n".toUTF8),
    (["data", "white_MD.dat"], .file "73 400\n".toUTF8)]

/-- Some tables, and the table that an earlier report has left. -/
def curvesTree (tables : List (Place × Node)) : Tree :=
  ⟨(["data"], .directory) :: (["results"], .directory) ::
    (["results", "coexistence.dat"], .file "old\n".toUTF8) :: tables⟩

def curvesOutput : Output :=
  ⟨⟨"curves", .coexistence, "data", "results"⟩, {}⟩

def curvesAnswer (tables : List (Place × Node)) : Except Failure (List Path) × Tree :=
  (coexistence {}).run curvesOutput (curvesTree tables)

/-- The table is rewritten and then the figure is created. -/
theorem run_listing_curves :
    ∃ after state writes,
      curvesAnswer curveTables = (.ok ["coexistence.dat", "coexistence.svg"], after) ∧
      runFrom ((coexistence {}).execute curvesOutput) { files := curvesTree curveTables }
        = (.ok (), state) ∧
      Written (curvesTree curveTables) writes after ∧ Logged after state.log writes ∧
      writes.map Prod.fst = [["results", "coexistence.dat"], ["results", "coexistence.svg"]] ∧
      ∀ earlier place content later, writes = earlier ++ (place, content) :: later →
        place ∉ later.map Prod.fst → after.node? place = some (.file content) := by
  have hpaths : (curvesAnswer curveTables).1.toOption
      = some ["coexistence.dat", "coexistence.svg"] := by decide +kernel
  have hrun := pair_eq_of_toOption hpaths
  obtain ⟨state, writes, hstate, -, hlisted, hwritten, hlogged, -, hlast, -⟩ := run_listing
    (coexistence {}) curvesOutput (curvesTree curveTables) _ _ hrun
  refine ⟨_, state, writes, hrun, hstate, hwritten, hlogged, ?_, hlast⟩
  have hplaces : ∀ path ∈ ["coexistence.dat", "coexistence.svg"],
      (curvesAnswer curveTables).2.locate (curvesOutput.request.outputPath path)
        = .ok ["results", path] := by
    refine List.forall_mem_cons.mpr ⟨eq_ok_of_toOption ?_, List.forall_mem_singleton.mpr
      (eq_ok_of_toOption ?_)⟩
    · decide +kernel
    · decide +kernel
  have hok : Function.Injective (Except.ok : Place → Except Cause Place) := fun _ _ => Except.ok.inj
  refine List.map_injective_iff.mpr hok ?_
  calc (writes.map Prod.fst).map Except.ok
      = (state.log.map Prod.fst).map (curvesAnswer curveTables).2.locate := by
        simpa [List.map_map, Function.comp_def] using (congrArg (List.map Prod.fst) hlogged).symm
    _ = [["results", "coexistence.dat"], ["results", "coexistence.svg"]].map Except.ok := by
        rw [hlisted, List.map_map]
        exact List.map_congr_left hplaces

/-- **Bad data changes nothing.** An analysis that reads all its data first either cannot store a
result or leaves the files as they were when it fails. -/
theorem run_unchanged (a : Analysis) (out : Output) (files after : Tree) (failure : Failure)
    (hkind : a.kind ∈ [.contact, .pairDistribution, .freeEnergy, .coexistence])
    (h : a.run out files = (.error failure, after))
    (hcode : failure.code ∉ ["IO.OUTPUT_DIRECTORY", "IO.ARTIFACT_WRITE", "IO.FIGURE_WRITE"]) :
    after = files := by
  obtain ⟨state, hrun, rfl⟩ := run_eq_error h
  rcases (execute_prepared hkind out).eq_error hrun with hstore | rfl
  · exact absurd hstore hcode
  · rfl

/-- The last table is missing. The three before it have been read, and nothing is written. -/
theorem run_unchanged_missing :
    ∃ failure after, curvesAnswer curveTables.dropLast = (.error failure, after) ∧
      failure.code = "IO.TABLE_READ" ∧
      after = curvesTree curveTables.dropLast := by
  have hcode : codeOf? (curvesAnswer curveTables.dropLast).1 = some "IO.TABLE_READ" := by
    decide +kernel
  obtain ⟨failure, hrun, hcode⟩ := exists_eq_error_of_codeOf? hcode
  refine ⟨failure, _, hrun, hcode, ?_⟩
  have hstored :
      failure.code ∉ ["IO.OUTPUT_DIRECTORY", "IO.ARTIFACT_WRITE", "IO.FIGURE_WRITE"] := by
    rw [hcode]
    decide
  exact run_unchanged (coexistence {}) curvesOutput (curvesTree curveTables.dropLast) _ failure
    (by decide) hrun hstored

end Analysis

end FluidAnalysis
