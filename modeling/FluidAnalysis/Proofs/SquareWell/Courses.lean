import FluidAnalysis.Proofs.Report.Reading
import FluidAnalysis.Proofs.SquareWell.Histories
import FluidAnalysis.SquareWell.CoexistenceReport
import FluidAnalysis.SquareWell.ConvergenceReport
import FluidAnalysis.SquareWell.FreeEnergyReport
import FluidAnalysis.SquareWell.HistogramReport
import FluidAnalysis.SquareWell.ScalingReport
import FluidAnalysis.SquareWell.ThermodynamicsReport

/-!
# Courses of the square-well reports

Every table that these reports write has columns of one length, and every position they look up lies
inside their data: the row of a weight, the rows of the important energies, the round trips of a
state. Free energies and coexistence
curves are read completely before anything is written; the other reports read and write method by
method.

* `execute_orderly` — the session of a report stores results and refuses ordinarily
* `execute_prepared` — nothing is refused after the first write
-/

namespace FluidAnalysis.SquareWell

open Files Report Session

/-! ## Levels -/

@[simp] theorem length_energyPerParticle {α : Type} [Scalar α] (particles : Nat)
    (energies : List α) : (energyPerParticle particles energies).length = energies.length :=
  List.length_map _

@[simp] theorem length_peakAtZero {α : Type} [Analytic α] (values : List α) :
    (peakAtZero values).length = values.length := by
  dsimp only [peakAtZero]
  split <;> simp

theorem weightRow?_lt {energy : Float} {rows row : Nat} (h : weightRow? energy rows = some row) :
    row < rows := by
  dsimp only [weightRow?] at h
  split at h
  · next hrow =>
    cases h
    have hbounds := of_decide_eq_true (Bool.and_eq_true_iff.mp hrow).2
    omega
  · cases h

@[simp] theorem refusesOnly_weightOf (lnWeights : List Float) (energy : Float) :
    RefusesOnly Ordinary (weightOf lnWeights energy) := by
  unfold weightOf
  split
  · next row hrow =>
    rw [entryAt_eq_ok (weightRow?_lt hrow)]
    exact refusesOnly_ok _
  · exact refusesOnly_error rfl

@[simp] theorem refusesOnly_levelOf (lnWeights : List Float) (bin : Float × Float) :
    RefusesOnly Ordinary (levelOf lnWeights bin) := by
  dsimp only [levelOf]
  split
  · exact refusesOnly_ok _
  · split
    · next hfailure => exact (refusesOnly_weightOf _ _).error hfailure
    · exact refusesOnly_ok _

@[simp] theorem refusesOnly_levels (histogram weights : Table Float) :
    RefusesOnly Ordinary (levels histogram weights) := by
  simp [levels, refusesOnly_mapM]

/-! ## Histogram report -/

@[simp] theorem refusesOnly_sampleRate (particles : Nat) (source : String) (t : Table Float) :
    RefusesOnly Ordinary (SampleRate.ofSource particles source t) := by
  unfold SampleRate.ofSource
  split
  · exact refusesOnly_throw rfl
  · simp

theorem sampleRate_eq_ok {particles : Nat} {source : String} {t : Table Float} {rate : SampleRate}
    (h : SampleRate.ofSource particles source t = .ok rate) :
    rate.energyPerParticle.length = rate.iterationsPerSample.length := by
  unfold SampleRate.ofSource at h
  split at h
  · cases h
  · obtain ⟨energies, -, h⟩ := bind_eq_ok_iff.mp h
    obtain ⟨samples, -, h⟩ := bind_eq_ok_iff.mp h
    cases h
    simp

namespace HistogramReport

variable (a : HistogramReport) (out : Output) (method : String)

theorem writeEnergies_orderly : Orderly out Ordinary (a.writeEnergies out method) := by
  refine .ask_bind (fun _ => refusesOnly_loadTable _ _ _) fun _ table _ => ?_
  refine .ask_bind (fun _ => refusesOnly_column _ _) fun _ stored hstored => ?_
  refine .ask_bind (fun _ => refusesOnly_column _ _) fun _ counts hcounts => ?_
  refine .bind (.columns _ _ table.rowCount ?_) fun _ => .pure _
  simp [length_column hstored, length_column hcounts]

theorem writeDensities_orderly : Orderly out Ordinary (a.writeDensities out method) := by
  refine .ask_bind (fun _ => refusesOnly_loadTable _ _ _) fun _ histogram _ => ?_
  refine .ask_bind (fun _ => refusesOnly_loadTable _ _ _) fun _ weights _ => ?_
  refine .ask_bind (fun _ => refusesOnly_levels _ _) fun _ found _ => ?_
  refine .bind (.columns _ _ found.length ?_) fun _ => .pure _
  simp [DensityCurves.ofLevels, DensityCurves.inUnit]

theorem writeSampleRate_orderly : Orderly out Ordinary (a.writeSampleRate out method) := by
  refine .ask_bind (fun _ => refusesOnly_loadSource _ _ _) fun _ source _ => ?_
  refine .ask_bind (fun _ => refusesOnly_sampleRate _ _ _) fun _ rate hrate => ?_
  split
  · refine .bind (.columns _ _ rate.iterationsPerSample.length ?_) fun _ => .pure _
    simp [sampleRate_eq_ok hrate]
  · exact .pure _

theorem execute_orderly : Orderly out Ordinary (a.execute out) := by
  refine .ask_bind (fun _ => refusesOnly_expectKind _ _) fun _ _ _ => ?_
  refine .check (ordinary_of_isShape rfl) ?_
  dsimp only
  cases a.view with
  | energies =>
    exact .bind (.mapM fun method _ => a.writeEnergies_orderly out method) fun _ => .panel _ _
  | densities =>
    exact .bind (.mapM fun method _ => a.writeDensities_orderly out method) fun _ =>
      .bind (.panel _ _) fun _ => .panel _ _
  | sampleRates =>
    exact .bind (.mapM fun method _ => a.writeSampleRate_orderly out method) fun _ => .panel _ _

end HistogramReport

/-! ## Scaling report -/

@[simp] theorem refusesOnly_numberAt (line : Nat) (tokens : List (List Char)) (column : Nat) :
    RefusesOnly Ordinary (numberAt line tokens column) := by
  unfold numberAt
  split
  · exact refusesOnly_ok _
  · exact refusesOnly_error rfl

/-- A line of errors has a first word. -/
theorem ne_nil_of_ofChars {chars : List Char} {tokens : List (List Char)}
    (h : ErrorLine.ofChars chars = .row tokens) : tokens ≠ [] := by
  unfold ErrorLine.ofChars at h
  split at h
  · cases h
  · split at h
    · cases h
    · next hwords =>
      cases h
      intro hnil
      simp [hnil] at hwords

theorem refusesOnly_errorRow (line : Nat) {tokens : List (List Char)} (h : tokens ≠ []) :
    RefusesOnly Ordinary (ErrorRow.ofTokens line tokens) := by
  have hfirst := entryAt_eq_ok (List.length_pos_of_ne_nil h)
  refine refusesOnly_bind (hfirst ▸ refusesOnly_ok _) fun method _ => ?_
  simp

theorem refusesOnly_extend (t : ErrorTable) (line : Nat) (rest : List (List Char)) :
    RefusesOnly Ordinary (t.extend line rest) := by
  induction rest generalizing t line with
  | nil => exact refusesOnly_ok _
  | cons chars rest ih =>
    unfold ErrorTable.extend
    split
    · exact ih _ _
    · exact ih _ _
    · next tokens hrow =>
      split
      · next hfailure => exact (refusesOnly_errorRow _ (ne_nil_of_ofChars hrow)).error hfailure
      · exact ih _ _

namespace ScalingReport

variable (a : ScalingReport) (request : Request) (files : Tree)

@[simp] theorem refusesOnly_findSizes (method : String) :
    RefusesOnly Ordinary (a.findSizes request files method) := by
  simp [findSizes]

@[simp] theorem refusesOnly_point (method : String) (particles : Nat) :
    RefusesOnly Ordinary (a.point request files method particles) := by
  refine refusesOnly_bind (refusesOnly_loadSource _ _ _) fun source _ => ?_
  split
  · exact refusesOnly_throw rfl
  · refine refusesOnly_bind (refusesOnly_loadTable _ _ _) fun energies _ => ?_
    refine refusesOnly_bind (refusesOnly_loadTable _ _ _) fun samples hsamples => ?_
    refine refusesOnly_bind (refusesOnly_column _ _) fun visited _ => ?_
    split
    · next row hrow =>
      -- the table was asked for two columns, and every row has them
      rw [samples.whole.lastRow?_eq] at hrow
      have hwidth : 1 < row.length := by
        rw [samples.row_length row (List.mem_of_getLast? hrow)]
        exact (loadTable_eq_ok hsamples).2
      rw [entryAt_eq_ok hwidth]
      exact refusesOnly_ok _
    · exact refusesOnly_ok _

@[simp] theorem refusesOnly_discover (method : String) :
    RefusesOnly Ordinary (a.discover request files method) := by
  simp [discover, refusesOnly_mapM]

@[simp] theorem refusesOnly_errorTable (particles : Nat) :
    RefusesOnly Ordinary (a.errorTable request files particles) := by
  dsimp only [errorTable]
  split
  · split
    · exact refusesOnly_throw rfl
    · simp [ErrorTable.parse, refusesOnly_extend]
  · exact refusesOnly_pure _

@[simp] theorem refusesOnly_errorTables : RefusesOnly Ordinary (a.errorTables request files) := by
  simp [errorTables, refusesOnly_mapM]

variable {refuses : Failure → Prop} (out : Output)

theorem writeErrors_orderly (subtitle : String) (errors : ErrorScaling) :
    Orderly out refuses (writeErrors out subtitle errors) :=
  .bind (.text _ _) fun _ => .bind (.panel _ _) fun _ => .bind (.panel _ _) fun _ => .panel _ _

theorem execute_orderly : Orderly out Ordinary (a.execute out) := by
  refine .ask_bind (fun _ => refusesOnly_expectKind _ _) fun _ _ _ => ?_
  refine .check (ordinary_of_isShape rfl) ?_
  refine .ask_bind (fun _ => refusesOnly_mapM fun method => by simp) fun _ methods _ => ?_
  refine .bind (.text _ _) fun _ => .bind (.panel _ _) fun _ => .bind (.panel _ _) fun _ => ?_
  refine .ask_bind (fun _ => a.refusesOnly_errorTables _ _) fun _ tables _ => ?_
  split
  · exact writeErrors_orderly out _ _
  · exact .pure _

end ScalingReport

/-! ## Convergence report -/

@[simp] theorem refusesOnly_energyRow (energies : List Float) (state : Int) :
    RefusesOnly Ordinary (energyRow energies state) := by
  unfold energyRow
  split
  · exact refusesOnly_ok _
  · exact refusesOnly_error rfl

@[simp] theorem refusesOnly_rowsBetween (energies : List Float) (first last : Int) :
    RefusesOnly Ordinary (rowsBetween energies first last) := by
  refine refusesOnly_bind (refusesOnly_energyRow _ _) fun _ _ => ?_
  refine refusesOnly_bind (refusesOnly_energyRow _ _) fun _ _ => ?_
  dsimp only
  split
  · exact refusesOnly_throw rfl
  · exact refusesOnly_pure _

@[simp] theorem refusesOnly_referenceHeader (source key : String) :
    RefusesOnly Ordinary (referenceHeader source key) := by
  unfold referenceHeader
  split
  · exact refusesOnly_ok _
  · exact refusesOnly_error rfl

@[simp] theorem refusesOnly_reference (source : String) (t : Table Float) :
    RefusesOnly Ordinary (Reference.ofSource source t) := by
  simp [Reference.ofSource]

@[simp] theorem refusesOnly_secondEstimate (t : Table Float) :
    RefusesOnly Ordinary (Frame.secondEstimate t) := by
  unfold Frame.secondEstimate
  split
  · simp
  · exact refusesOnly_ok _

@[simp] theorem refusesOnly_frame (source : String) (t : Table Float) :
    RefusesOnly Ordinary (Frame.ofSource source t) := by
  unfold Frame.ofSource
  split
  · exact refusesOnly_throw rfl
  · simp

@[simp] theorem refusesOnly_frameErrors (lnDos reference : List Float) (offset : Nat) :
    RefusesOnly Ordinary (frameErrors lnDos reference offset) := by
  dsimp only [frameErrors]
  split
  · exact refusesOnly_error rfl
  · split
    · exact refusesOnly_error rfl
    · exact refusesOnly_ok _

/-! ### Rows of states -/

theorem energyRow_lt {energies : List Float} {state : Int} {row : Nat}
    (h : energyRow energies state = .ok row) : row < energies.length := by
  unfold energyRow at h
  split at h
  · next hrow =>
    cases h
    exact (List.findIdx?_eq_some_iff_findIdx_eq.mp hrow).1
  · cases h

theorem rowsBetween_eq_ok {energies : List Float} {first last : Int} {rows : RowRange}
    (h : rowsBetween energies first last = .ok rows) :
    rows.first ≤ rows.last ∧ rows.last < energies.length := by
  obtain ⟨top, -, h⟩ := bind_eq_ok_iff.mp h
  obtain ⟨bottom, hbottom, h⟩ := bind_eq_ok_iff.mp h
  dsimp only at h
  split at h
  · cases h
  · next horder =>
    cases h
    exact ⟨Nat.le_of_not_lt horder, energyRow_lt hbottom⟩

/-- The rows of states exist in every column that is as long as the energies. -/
theorem refusesOnly_entries {energies values : List Float} {first last : Int} {rows : RowRange}
    (h : rowsBetween energies first last = .ok rows) (hlength : values.length = energies.length) :
    RefusesOnly Ordinary (rows.entries values) := by
  obtain ⟨horder, hlast⟩ := rowsBetween_eq_ok h
  rw [RowRange.entries, entriesFrom_eq_ok (by omega) (by omega)]
  exact refusesOnly_ok _

theorem reference_eq_ok {source : String} {t : Table Float} {r : Reference}
    (h : Reference.ofSource source t = .ok r) : r.lnDos.length = r.energies.length := by
  obtain ⟨_, -, h⟩ := bind_eq_ok_iff.mp h
  obtain ⟨_, -, h⟩ := bind_eq_ok_iff.mp h
  obtain ⟨energies, henergies, h⟩ := bind_eq_ok_iff.mp h
  obtain ⟨lnDos, hlnDos, h⟩ := bind_eq_ok_iff.mp h
  cases h
  exact (length_column hlnDos).trans (length_column henergies).symm

/-- All columns of a frame have the length of its energies. -/
structure Frame.Even (f : Frame) : Prop where
  lnDos : f.lnDos.length = f.energies.length
  roundTrips : f.roundTrips.length = f.energies.length
  fromTransitions : ∀ second ∈ f.fromTransitions, second.length = f.energies.length

theorem length_secondEstimate {t : Table Float} {column : List Float}
    (h : Frame.secondEstimate t = .ok (some column)) : column.length = t.rowCount := by
  unfold Frame.secondEstimate at h
  split at h
  · cases hcolumn : t.column 3 with
    | error failure =>
      rw [hcolumn] at h
      cases h
    | ok values =>
      rw [hcolumn] at h
      cases h
      exact length_column hcolumn
  · cases h

theorem frame_eq_ok {source : String} {t : Table Float} {f : Frame}
    (h : Frame.ofSource source t = .ok f) : f.Even := by
  unfold Frame.ofSource at h
  split at h
  · cases h
  · obtain ⟨energies, henergies, h⟩ := bind_eq_ok_iff.mp h
    obtain ⟨lnDos, hlnDos, h⟩ := bind_eq_ok_iff.mp h
    obtain ⟨roundTrips, hroundTrips, h⟩ := bind_eq_ok_iff.mp h
    obtain ⟨fromTransitions, hfromTransitions, h⟩ := bind_eq_ok_iff.mp h
    cases h
    refine ⟨?_, ?_, fun second hsecond => ?_⟩
    · exact (length_column hlnDos).trans (length_column henergies).symm
    · exact (length_column hroundTrips).trans (length_column henergies).symm
    · cases hsecond
      exact (length_secondEstimate hfromTransitions).trans (length_column henergies).symm

theorem refusesOnly_importantPart {r : Reference} (h : r.lnDos.length = r.energies.length) :
    RefusesOnly Ordinary r.importantPart :=
  refusesOnly_bind (refusesOnly_rowsBetween _ _ _) fun _ hrows => refusesOnly_entries hrows h

theorem refusesOnly_roundTripsAt {frame : Frame} (h : frame.Even) (state : Int) :
    RefusesOnly Ordinary (frame.roundTripsAt state) := by
  refine refusesOnly_bind (refusesOnly_energyRow _ _) fun row hrow => ?_
  rw [entryAt_eq_ok (by rw [h.roundTrips]; exact energyRow_lt hrow)]
  exact refusesOnly_ok _

theorem refusesOnly_score {frame : Frame} (h : frame.Even) (r : Reference) (reference : List Float)
    (energy : Int) : RefusesOnly Ordinary (r.score reference energy frame) := by
  refine refusesOnly_bind (refusesOnly_rowsBetween _ _ _) fun rows hrows => ?_
  refine refusesOnly_bind (refusesOnly_roundTripsAt h energy) fun roundTrips _ => ?_
  refine refusesOnly_bind (refusesOnly_entries hrows h.lnDos) fun lnDos _ => ?_
  refine refusesOnly_bind (refusesOnly_frameErrors _ _ _) fun errors _ => ?_
  split
  · exact refusesOnly_pure _
  · next second hsecond =>
    refine refusesOnly_bind (refusesOnly_entries hrows (h.fromTransitions second hsecond))
      fun lnDos _ => ?_
    simp

namespace ConvergenceReport

variable (a : ConvergenceReport) (dataRoot : Path) (files : Tree)

@[simp] theorem refusesOnly_methodsIn : RefusesOnly Ordinary (a.methodsIn dataRoot files) := by
  unfold methodsIn
  split
  · exact refusesOnly_pure _
  · simp

@[simp] theorem refusesOnly_loadFrame (path : Path) :
    RefusesOnly Ordinary (loadFrame files path) := by
  simp [loadFrame]

variable {files} in
theorem loadFrame_eq_ok {path : Path} {frame : Frame} (h : loadFrame files path = .ok frame) :
    frame.Even := by
  obtain ⟨source, -, h⟩ := bind_eq_ok_iff.mp h
  exact frame_eq_ok h

theorem refusesOnly_compareMethod {reference : Reference}
    (h : reference.lnDos.length = reference.energies.length) (method : String) :
    RefusesOnly Ordinary (a.compareMethod dataRoot files reference method) := by
  dsimp only [compareMethod]
  split
  · exact refusesOnly_pure _
  · refine refusesOnly_bind (refusesOnly_matchingNames _ _ _) fun names _ => ?_
    split
    · exact refusesOnly_pure _
    · refine refusesOnly_bind (refusesOnly_importantPart h) fun expected _ => ?_
      refine refusesOnly_bind (refusesOnly_mapM fun name => ?_) fun scores _ => refusesOnly_pure _
      refine refusesOnly_bind (refusesOnly_loadFrame _ _) fun frame hframe => ?_
      exact refusesOnly_score (loadFrame_eq_ok hframe) _ _ _

/-- The histories of a comparison are those of scored frames. -/
theorem compareMethod_eq_some {reference : Reference} {method : String} {history : MethodHistory}
    (h : a.compareMethod dataRoot files reference method = .ok (some history)) :
    ∃ scores, history = .ofScores method a.window scores := by
  dsimp only [compareMethod] at h
  split at h
  · cases h
  · obtain ⟨names, -, h⟩ := bind_eq_ok_iff.mp h
    split at h
    · cases h
    · obtain ⟨expected, -, h⟩ := bind_eq_ok_iff.mp h
      obtain ⟨scores, -, h⟩ := bind_eq_ok_iff.mp h
      cases h
      exact ⟨scores, rfl⟩

variable {refuses : Failure → Prop} (out : Output)

theorem writeHistory_orderly (directory : Path) {history : ErrorHistory Float} (h : history.Even) :
    Orderly out refuses (a.writeHistory out directory history) := by
  refine .bind (.columns _ _ history.iterations.length ?_) fun _ =>
    .columns _ _ history.iterations.length ?_
  · simp [h.roundTrips, h.atEnergy]
  · simp [h.inEntropy, h.maxError]

theorem writeMethod_orderly {reference : Reference}
    (h : reference.lnDos.length = reference.energies.length) (method : String) :
    Orderly out Ordinary (a.writeMethod out reference method) := by
  refine .ask_bind (fun _ => a.refusesOnly_compareMethod _ _ h _) fun _ found hfound => ?_
  split
  · exact .pure _
  · obtain ⟨scores, rfl⟩ := a.compareMethod_eq_some _ _ hfound
    obtain ⟨hdirect, hsecond⟩ := MethodHistory.ofScores_even method a.window scores
    refine .bind (a.writeHistory_orderly out _ hdirect) fun _ => ?_
    split
    · exact .pure _
    · next second heq => exact a.writeHistory_orderly out _ (hsecond second heq)

theorem execute_orderly : Orderly out Ordinary (a.execute out) := by
  refine .ask_bind (fun _ => refusesOnly_expectKind _ _) fun _ _ _ => ?_
  refine .ask_bind (fun _ => refusesOnly_loadSource _ _ _) fun _ source _ => ?_
  refine .ask_bind (fun _ => refusesOnly_reference _ _) fun _ reference hreference => ?_
  refine .ask_bind (fun _ => a.refusesOnly_methodsIn _ _) fun _ methods _ => ?_
  exact .forM fun method _ => a.writeMethod_orderly out (reference_eq_ok hreference) method

end ConvergenceReport

/-! ## Thermodynamics report -/

namespace ThermodynamicsReport

variable (a : ThermodynamicsReport) (out : Output)

@[simp] theorem refusesOnly_method (request : Request) (files : Tree) (method : String) :
    RefusesOnly Ordinary (a.method request files method) := by
  refine refusesOnly_bind (refusesOnly_loadTable _ _ _) fun histogram _ => ?_
  refine refusesOnly_bind (refusesOnly_loadTable _ _ _) fun weights _ => ?_
  refine refusesOnly_bind (refusesOnly_levels _ _) fun found _ => ?_
  dsimp only
  split
  · exact refusesOnly_throw rfl
  · simp

theorem writeMethod_orderly (method : String) :
    Orderly out Ordinary (a.writeMethod out method) := by
  refine .ask_bind (fun _ => a.refusesOnly_method _ _ _) fun _ curve _ => ?_
  refine .bind (.columns _ _ curve.properties.length ?_) fun _ => .pure _
  simp

theorem execute_orderly : Orderly out Ordinary (a.execute out) := by
  refine .ask_bind (fun _ => refusesOnly_expectKind _ _) fun _ _ _ => ?_
  refine .check (ordinary_of_isShape rfl) ?_
  refine .check (ordinary_of_isShape rfl) ?_
  refine .bind (.mapM fun method _ => a.writeMethod_orderly out method) fun curves => ?_
  exact .bind (.panel _ _) fun _ => .bind (.panel _ _) fun _ => .panel _ _

end ThermodynamicsReport

/-! ## Free energy report -/

namespace FreeEnergyReport

variable (a : FreeEnergyReport)

@[simp] theorem refusesOnly_load (request : Request) (files : Tree) (temperature : Float) :
    RefusesOnly Ordinary (a.load request files temperature) := by
  simp [load]

variable {a}

/-- Every filling fraction has all three estimates. -/
theorem load_eq_ok {request : Request} {files : Tree} {temperature : Float}
    {curve : FreeEnergyCurve} (h : a.load request files temperature = .ok curve) :
    curve.second.length = curve.filling.length ∧ curve.third.length = curve.filling.length ∧
      curve.fourth.length = curve.filling.length := by
  obtain ⟨table, -, h⟩ := bind_eq_ok_iff.mp h
  obtain ⟨filling, hfilling, h⟩ := bind_eq_ok_iff.mp h
  obtain ⟨second, hsecond, h⟩ := bind_eq_ok_iff.mp h
  obtain ⟨third, hthird, h⟩ := bind_eq_ok_iff.mp h
  obtain ⟨fourth, hfourth, h⟩ := bind_eq_ok_iff.mp h
  cases h
  simp [length_column hfilling, length_column hsecond, length_column hthird, length_column hfourth]

/-- Columns of several curves, one curve after the other. -/
theorem length_flatMap_eq {curves : List FreeEnergyCurve} {pick : FreeEnergyCurve → List Float}
    (h : ∀ curve ∈ curves, (pick curve).length = curve.filling.length) :
    (curves.flatMap pick).length = (curves.flatMap (·.filling)).length := by
  rw [List.length_flatMap, List.length_flatMap, List.map_congr_left h]

theorem execute_prepared (out : Output) : Prepared out Ordinary (a.execute out) := by
  refine .ask_bind (fun _ => refusesOnly_expectKind _ _) fun _ _ _ => ?_
  refine .check (ordinary_of_isShape rfl) ?_
  refine .ask_bind (fun _ => refusesOnly_mapM fun _ => by simp) fun _ curves hcurves => ?_
  have hlengths : ∀ curve ∈ curves, curve.second.length = curve.filling.length ∧
      curve.third.length = curve.filling.length ∧ curve.fourth.length = curve.filling.length := by
    intro curve hcurve
    obtain ⟨temperature, -, hload⟩ := exists_of_mem_mapM hcurves hcurve
    exact load_eq_ok hload
  refine .of_orderly
    (.bind (.columns _ _ (curves.flatMap (·.filling)).length ?_) fun _ => .panel _ _)
  simp only [List.forall_mem_cons]
  refine ⟨length_flatMap_eq fun curve _ => List.length_replicate, trivial,
    length_flatMap_eq fun curve hcurve => (hlengths curve hcurve).1,
    length_flatMap_eq fun curve hcurve => (hlengths curve hcurve).2.1,
    length_flatMap_eq fun curve hcurve => (hlengths curve hcurve).2.2, by simp⟩

end FreeEnergyReport

/-! ## Coexistence report -/

namespace CoexistenceReport

@[simp] theorem refusesOnly_curves (request : Request) (files : Tree) :
    RefusesOnly Ordinary (curves request files) := by
  simp [curves, CoexistenceCurve.branches, CoexistenceCurve.digitised]

theorem execute_prepared (a : CoexistenceReport) (out : Output) :
    Prepared out Ordinary (a.execute out) := by
  refine .ask_bind (fun _ => refusesOnly_expectKind _ _) fun _ _ _ => ?_
  refine .ask_bind (fun _ => refusesOnly_curves _ _) fun _ found _ => ?_
  exact .of_orderly (.bind (.text _ _) fun _ => .panel _ _)

end CoexistenceReport

end FluidAnalysis.SquareWell
