import FluidAnalysis.Analysis
import FluidAnalysis.Proofs.HardSphere.Courses
import FluidAnalysis.Proofs.SquareWell.Courses

/-!
# Courses of all analyses

The reports on clusters and on soft spheres, and then every analysis: its session is orderly, and
four of them refuse only before they write.

* `Analysis.execute_orderly` — no analysis fails over the shape of its own tables
* `Analysis.execute_prepared` — which analyses read everything first
-/

namespace FluidAnalysis

open Files Report Session

/-! ## Heat capacity report -/

namespace LennardJones

namespace EntropyRun

@[simp] theorem refusesOnly_load (files : Tree) (base : Path) :
    RefusesOnly Ordinary (load files base) := by
  refine refusesOnly_bind (refusesOnly_loadTable _ _ _) fun times _ => ?_
  refine refusesOnly_bind (refusesOnly_loadTable _ _ _) fun energies _ => ?_
  refine refusesOnly_bind (refusesOnly_loadTable _ _ _) fun entropy _ => ?_
  dsimp only
  split
  · exact refusesOnly_throw rfl
  · exact refusesOnly_pure _

/-- Every estimate of a run that was read has a saved time. -/
theorem load_eq_ok {files : Tree} {base : Path} {run : EntropyRun} (h : load files base = .ok run) :
    run.entropy.rows.length ≤ run.times.length := by
  obtain ⟨times, -, h⟩ := bind_eq_ok_iff.mp h
  obtain ⟨energies, -, h⟩ := bind_eq_ok_iff.mp h
  obtain ⟨entropy, -, h⟩ := bind_eq_ok_iff.mp h
  dsimp only at h
  split at h
  · cases h
  · next hcount =>
    cases h
    rw [← entropy.whole.rowCount_eq]
    exact Nat.le_of_not_lt hcount

/-- The times next to the estimates, from a time on. -/
def timedFrom (run : EntropyRun) (minTime : Float) : List (Float × List Float) :=
  (run.times.zip run.entropy.rows).filter fun estimate => !decide (estimate.1 < minTime)

theorem estimatesFrom_eq_ok {run : EntropyRun} (h : run.entropy.rows.length ≤ run.times.length)
    (minTime : Float) : run.estimatesFrom minTime = .ok (run.timedFrom minTime) := by
  have htimes : run.entropy.rows.zipIdx.mapM (fun estimate => do
      return (← entryAt run.times estimate.2, estimate.1))
      = .ok (run.times.zip run.entropy.rows) := by
    rw [mapM_eq_ok_iff]
    refine List.ext_getElem (by simpa using h) fun i hi _ => ?_
    have hrow : i < run.entropy.rows.length := by simpa using hi
    rw [List.getElem_map, List.getElem_map, List.getElem_zipIdx, List.getElem_zip, Nat.zero_add]
    simp only [entryAt_eq_ok (Nat.lt_of_lt_of_le hrow h)]
    rfl
  exact congrArg (· >>= fun estimates => .ok (estimates.filter fun estimate =>
    !decide (estimate.1 < minTime))) htimes

@[simp] theorem refusesOnly_finalEntropy (r : EntropyRun) :
    RefusesOnly Ordinary r.finalEntropy := by
  unfold finalEntropy
  split
  · exact refusesOnly_ok _
  · exact refusesOnly_error rfl

@[simp] theorem refusesOnly_heatCapacity (r : EntropyRun) (temperatures : List Float)
    (offset : Float) (entropy : List Float) :
    RefusesOnly Ordinary (r.heatCapacity temperatures offset entropy) := by
  unfold heatCapacity
  split
  · exact refusesOnly_ok _
  · next failure hfailure =>
    intro _ h
    cases h
    exact (Report.refusesOnly_heatCapacity _ _ _ _ failure hfailure).within _

theorem heatCapacity_eq_ok {r : EntropyRun} {temperatures : List Float} {offset : Float}
    {entropy curve : List Float} (h : r.heatCapacity temperatures offset entropy = .ok curve) :
    curve.length = temperatures.length := by
  unfold heatCapacity at h
  split at h
  · next hcurve =>
    obtain ⟨_, -, hcurve⟩ := bind_eq_ok_iff.mp hcurve
    cases hcurve
    cases h
    simp
  · cases h

end EntropyRun

namespace HeatCapacityReport

variable (a : HeatCapacityReport) {refuses : Failure → Prop} (out : Output)

theorem writeCurve_orderly (name : String) {values : List Float}
    (h : values.length = a.temperatures.length) :
    Orderly out refuses (a.writeCurve out name values) :=
  .columns _ _ a.temperatures.length (by simp [h])

theorem scoreEstimate_orderly (benchmark : List Float) (run : EntropyRun)
    (estimate : Float × List Float) :
    Orderly out Ordinary (a.scoreEstimate out benchmark run estimate) := by
  refine .ask_bind (fun _ => run.refusesOnly_heatCapacity _ _ _) fun _ values hvalues => ?_
  dsimp only
  split
  · have hlength := EntropyRun.heatCapacity_eq_ok hvalues
    exact .bind (a.writeCurve_orderly out _ hlength) fun _ => .pure _
  · exact .pure _

theorem scoreRun_orderly (benchmark : List Float) {run : EntropyRun}
    (h : run.entropy.rows.length ≤ run.times.length) (position : Nat) :
    Orderly out Ordinary (a.scoreRun out benchmark run position) := by
  refine .ask_bind (fun _ => ?_) fun _ estimates _ => ?_
  · rw [EntropyRun.estimatesFrom_eq_ok h]
    exact refusesOnly_ok _
  refine .bind (.mapM fun estimate _ => a.scoreEstimate_orderly out benchmark run estimate)
    fun scores => ?_
  refine .bind (.columns _ _ scores.length ?_) fun _ => .pure _
  simp

theorem execute_orderly : Orderly out Ordinary (a.execute out) := by
  refine .ask_bind (fun _ => refusesOnly_expectKind _ _) fun _ _ _ => ?_
  dsimp only
  split
  · exact .throw (ordinary_of_isShape rfl)
  · refine .ask_bind (fun _ => EntropyRun.refusesOnly_load _ _) fun _ benchmarkRun hrun => ?_
    refine .ask_bind (fun _ => benchmarkRun.refusesOnly_finalEntropy) fun _ final _ => ?_
    refine .ask_bind (fun _ => benchmarkRun.refusesOnly_heatCapacity _ _ _)
      fun _ benchmark hbenchmark => ?_
    refine .bind (a.writeCurve_orderly out _ (EntropyRun.heatCapacity_eq_ok hbenchmark)) fun _ => ?_
    refine .bind (a.scoreRun_orderly out _ (EntropyRun.load_eq_ok hrun) _) fun first => ?_
    refine .bind (.mapM fun other _ => ?_) fun rest => .panel _ _
    refine .ask_bind (fun _ => EntropyRun.refusesOnly_load _ _) fun _ run hrun => ?_
    exact a.scoreRun_orderly out _ (EntropyRun.load_eq_ok hrun) _

end HeatCapacityReport

end LennardJones

/-! ## Sweep report -/

namespace SoftSphere

/-- Rows of one width make columns of one length. -/
theorem length_of_mem_columnsOfRows {rows : List (List Float)} (width : Nat)
    (h : ∀ row ∈ rows, row.length = width) :
    ∀ column ∈ columnsOfRows rows, column.length = rows.length := by
  intro column hcolumn
  obtain ⟨j, hj, rfl⟩ := List.mem_map.mp hcolumn
  rw [List.length_filterMap_eq_countP, List.countP_eq_length]
  intro row hrow
  have hwidth : j < row.length := by
    cases rows with
    | nil => cases hrow
    | cons first rest =>
      rw [h row hrow, ← h first List.mem_cons_self]
      exact List.mem_range.mp hj
  rw [List.getElem?_eq_getElem hwidth]
  rfl

@[simp] theorem refusesOnly_pressureOf (t : Table Float) :
    RefusesOnly Ordinary (pressureOf t) := by
  unfold pressureOf
  split
  · exact refusesOnly_ok _
  · exact refusesOnly_error rfl

theorem refusesOnly_ofMoments (t : Table Float) :
    RefusesOnly Ordinary (EnergyDistribution.ofMoments t) := by
  unfold EnergyDistribution.ofMoments
  split
  · dsimp only
    split
    · exact refusesOnly_error rfl
    · exact refusesOnly_ok _
  · exact refusesOnly_error rfl

namespace SweepReport

/-- A visit of a state point: it fails in an ordinary way, or gives rows of one width. -/
structure Regular (visit : Tree → Float → Float → Except Failure Contribution) (width : Nat) :
    Prop where
  refuses : ∀ files density temperature, RefusesOnly Ordinary (visit files density temperature)
  width : ∀ {files density temperature contribution},
    visit files density temperature = .ok contribution →
      ∀ row ∈ contribution.rows, row.length = width

theorem pressureAt_regular (request : Request) : Regular (pressureAt request) 3 where
  refuses := fun files density temperature => by simp [pressureAt]
  width := by
    intro files density temperature contribution h
    obtain ⟨table, -, h⟩ := bind_eq_ok_iff.mp h
    obtain ⟨value, -, h⟩ := bind_eq_ok_iff.mp h
    cases h
    simp

theorem energiesAt_regular (request : Request) : Regular (energiesAt request) 4 where
  refuses := by
    intro files density temperature
    refine refusesOnly_bind (refusesOnly_loadTable _ _ _) fun table _ => ?_
    split
    · next failure hfailure =>
      intro _ h
      cases h
      exact (refusesOnly_ofMoments _ failure hfailure).within _
    · exact refusesOnly_pure _
  width := by
    intro files density temperature contribution h
    obtain ⟨table, -, h⟩ := bind_eq_ok_iff.mp h
    split at h
    · cases h
    · cases h
      simp

theorem curveAt_regular (request : Request) (plot : Plot)
    {extract : Table Float → Except Failure (List (Float × Float))}
    (hextract : ∀ t, RefusesOnly Ordinary (extract t)) :
    Regular (curveAt request plot extract) 4 where
  refuses := fun files density temperature => by simp [curveAt, hextract]
  width := by
    intro files density temperature contribution h
    obtain ⟨table, -, h⟩ := bind_eq_ok_iff.mp h
    obtain ⟨points, -, h⟩ := bind_eq_ok_iff.mp h
    cases h
    exact List.forall_mem_map.mpr fun _ _ => rfl

variable (a : SweepReport)

theorem refusesOnly_sweep {visit : Float → Float → Except Failure Contribution}
    (h : ∀ density temperature, RefusesOnly Ordinary (visit density temperature)) :
    RefusesOnly Ordinary (a.sweep visit) := by
  refine refusesOnly_mapM fun density => ?_
  refine refusesOnly_bind (refusesOnly_mapM fun temperature => ?_) fun _ _ => refusesOnly_pure _
  exact refusesOnly_bind (h density temperature) fun _ _ => refusesOnly_pure _

variable {a}

/-- Every row comes from a visit. -/
theorem exists_visit_of_mem_allRows {visit : Float → Float → Except Failure Contribution}
    {found : List (Float × List (Float × Contribution))} (h : a.sweep visit = .ok found)
    {row : List Float} (hrow : row ∈ allRows found) :
    ∃ density temperature contribution,
      visit density temperature = .ok contribution ∧ row ∈ contribution.rows := by
  obtain ⟨⟨density, byTemperature⟩, hdensity, hrow⟩ := List.mem_flatMap.mp hrow
  obtain ⟨⟨temperature, contribution⟩, htemperature, hrow⟩ := List.mem_flatMap.mp hrow
  obtain ⟨_, -, hvisits⟩ := exists_of_mem_mapM h hdensity
  obtain ⟨_, hvisits, hpair⟩ := bind_eq_ok_iff.mp hvisits
  cases hpair
  obtain ⟨_, -, hvisit⟩ := exists_of_mem_mapM hvisits htemperature
  obtain ⟨_, hvisit, hpair⟩ := bind_eq_ok_iff.mp hvisit
  cases hpair
  exact ⟨_, _, _, hvisit, hrow⟩

variable (a) (out : Output)

theorem writePlot_orderly (plot : Plot) : Orderly out Ordinary (a.writePlot out plot) := by
  have write {visit : Tree → Float → Float → Except Failure Contribution} {width : Nat}
      (hvisit : Regular visit width) (header : String)
      (panels : List (Float × List (Float × Contribution)) → List (Figure.Panel Float)) :
      Orderly out Ordinary (do
        let found ← Session.ask fun files => a.sweep (visit files)
        Session.columns out s!"{plot.stem}.dat" (columnsOfRows (allRows found))
          { header := some header }
        Session.panels out s!"{plot.stem}.svg" (panels found)) := by
    refine .ask_bind (fun files => a.refusesOnly_sweep (hvisit.refuses files))
      fun files found hfound => ?_
    refine .bind (.columns _ _ (allRows found).length ?_) fun _ => .panels _ _
    refine length_of_mem_columnsOfRows width fun row hrow => ?_
    obtain ⟨_, _, _, hcontribution, hrow⟩ := exists_visit_of_mem_allRows hfound hrow
    exact hvisit.width hcontribution row hrow
  cases plot with
  | pressure => exact write (pressureAt_regular _) _ _
  | energyDistribution => exact write (energiesAt_regular _) _ _
  | diffusion => exact write (curveAt_regular _ _ fun t => by simp [diffusionOf]) _ _
  | radial => exact write (curveAt_regular _ _ fun t => by simp [radialOf]) _ _

theorem execute_orderly : Orderly out Ordinary (a.execute out) := by
  refine .ask_bind (fun _ => refusesOnly_expectKind _ _) fun _ _ _ => ?_
  refine .check (ordinary_of_isShape rfl) ?_
  exact .forM fun plot _ => a.writePlot_orderly out plot

end SweepReport

end SoftSphere

/-! ## All analyses -/

namespace Analysis

/-- The analyses that read all their data before they write. -/
def readsFirst : List Kind :=
  [.contact, .pairDistribution, .freeEnergy, .coexistence]

theorem execute_prepared {a : Analysis} (h : a.kind ∈ readsFirst) (out : Output) :
    Prepared out Ordinary (a.execute out) := by
  cases a with
  | contact report => exact report.execute_prepared out
  | pairDistribution report => exact report.execute_prepared out
  | freeEnergy report => exact report.execute_prepared out
  | coexistence report => exact report.execute_prepared out
  | histogram report =>
    cases hview : report.view <;> simp [kind, hview, SquareWell.HistogramView.kind, readsFirst] at h
  | _ => simp [kind, readsFirst] at h

theorem execute_orderly (a : Analysis) (out : Output) :
    Orderly out Ordinary (a.execute out) := by
  cases a with
  | contact report => exact (report.execute_prepared out).orderly
  | pairDistribution report => exact (report.execute_prepared out).orderly
  | histogram report => exact report.execute_orderly out
  | sizeScaling report => exact report.execute_orderly out
  | convergence report => exact report.execute_orderly out
  | heatCapacity report => exact report.execute_orderly out
  | thermodynamics report => exact report.execute_orderly out
  | freeEnergy report => exact (report.execute_prepared out).orderly
  | coexistence report => exact (report.execute_prepared out).orderly
  | softSphere report => exact report.execute_orderly out

end Analysis

end FluidAnalysis
