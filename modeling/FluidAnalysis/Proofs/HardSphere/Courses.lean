import FluidAnalysis.HardSphere.ContactReport
import FluidAnalysis.HardSphere.PairReport
import FluidAnalysis.Proofs.Report.Reading
import FluidAnalysis.Proofs.Table.Layout

/-!
# Courses of the hard-sphere reports

Both reports read all their data first. What they then write are columns of one length: the curves
of a contact profile have the length of its positions, and a sampled pair distribution has as many
values as distances.

* `compare_even` — the profiles of a comparison can be written
* `ContactReport.execute_prepared`, `PairReport.execute_prepared` — nothing is refused after the
  first write
-/

namespace FluidAnalysis.HardSphere

open Files Report

/-! ## Lengths of curves -/

@[simp] theorem length_whole {α : Type} (values : List α) : (whole values).length = values.length :=
  List.length_map _

/-- A mask keeps the length. -/
theorem length_masked {α : Type} {values : List α} {keep : Nat → Except Failure Bool}
    {curve : List (Option α)} (h : masked values keep = .ok curve) :
    curve.length = values.length := by
  rw [masked, mapM_eq_ok_iff] at h
  simpa using (congrArg List.length h).symm

section

variable {α : Type} [Analytic α]

@[simp] theorem length_fillings (density : List α) : (fillings density).length = density.length :=
  List.length_map _

@[simp] theorem length_ratios (numerator denominator : List α) :
    (ratios numerator denominator).length = min numerator.length denominator.length := by
  simp [ratios]

@[simp] theorem length_halved (position : List α) : (halved position).length = position.length :=
  List.length_map _

@[simp] theorem length_present (values : List (Option α)) :
    (Profile.present values).length = values.length :=
  List.length_map _

/-! ## Profiles -/

/-- Every curve has a value or a gap at every position. -/
def Profile.Even (p : Profile α) : Prop :=
  ∀ curve ∈ p.curves, curve.2.length = p.position.length

theorem monteCarloProfile_even {mc : Table α} {shell : Nat} {p : Profile α}
    (h : monteCarloProfile mc shell = .ok p) : p.Even := by
  unfold monteCarloProfile at h
  obtain ⟨r, hr, h⟩ := bind_eq_ok_iff.mp h
  obtain ⟨n, hn, h⟩ := bind_eq_ok_iff.mp h
  obtain ⟨n0, hn0, h⟩ := bind_eq_ok_iff.mp h
  obtain ⟨nA, hnA, h⟩ := bind_eq_ok_iff.mp h
  obtain ⟨histogramA, hA, h⟩ := bind_eq_ok_iff.mp h
  obtain ⟨histogramS, hS, h⟩ := bind_eq_ok_iff.mp h
  obtain ⟨contactS, hshown, h⟩ := bind_eq_ok_iff.mp h
  cases h
  simp [Profile.Even, -Prod.forall, length_column hr, length_column hn, length_column hn0,
    length_column hnA, length_column hA, length_column hS, length_masked hshown]

theorem innerSphere_even {tag : String} {radius : α} {dft mc : Table α} {c : Comparison α}
    (h : innerSphere tag radius dft mc = .ok c) : ∀ p ∈ c.profiles, p.Even := by
  unfold innerSphere at h
  obtain ⟨_, -, h⟩ := bind_eq_ok_iff.mp h
  obtain ⟨_, -, h⟩ := bind_eq_ok_iff.mp h
  obtain ⟨r, hr, h⟩ := bind_eq_ok_iff.mp h
  obtain ⟨n, hn, h⟩ := bind_eq_ok_iff.mp h
  obtain ⟨contactS, hS, h⟩ := bind_eq_ok_iff.mp h
  obtain ⟨yuWu, hyuWu, h⟩ := bind_eq_ok_iff.mp h
  obtain ⟨contactA, hA, h⟩ := bind_eq_ok_iff.mp h
  obtain ⟨gross, hgross, h⟩ := bind_eq_ok_iff.mp h
  obtain ⟨shownA, hshownA, h⟩ := bind_eq_ok_iff.mp h
  obtain ⟨shownS, hshownS, h⟩ := bind_eq_ok_iff.mp h
  obtain ⟨outside, houtside, h⟩ := bind_eq_ok_iff.mp h
  obtain ⟨monteCarlo, hmc, h⟩ := bind_eq_ok_iff.mp h
  cases h
  refine List.forall_mem_cons.mpr ⟨monteCarloProfile_even hmc, List.forall_mem_singleton.mpr ?_⟩
  simp [Profile.Even, -Prod.forall, length_column hr, length_column hn, length_column hS,
    length_column hyuWu, length_column hA, length_column hgross, length_masked hshownA,
    length_masked hshownS, length_masked houtside]

theorem outerSphere_even {tag : String} {dft mc : Table α} {c : Comparison α}
    (h : outerSphere tag dft mc = .ok c) : ∀ p ∈ c.profiles, p.Even := by
  unfold outerSphere at h
  obtain ⟨_, -, h⟩ := bind_eq_ok_iff.mp h
  obtain ⟨_, -, h⟩ := bind_eq_ok_iff.mp h
  obtain ⟨radius, -, h⟩ := bind_eq_ok_iff.mp h
  obtain ⟨spacing, -, h⟩ := bind_eq_ok_iff.mp h
  obtain ⟨empty, -, h⟩ := bind_eq_ok_iff.mp h
  obtain ⟨wall, -, h⟩ := bind_eq_ok_iff.mp h
  obtain ⟨_, -, h⟩ := bind_eq_ok_iff.mp h
  obtain ⟨r, hr, h⟩ := bind_eq_ok_iff.mp h
  obtain ⟨n, hn, h⟩ := bind_eq_ok_iff.mp h
  obtain ⟨contactS, hS, h⟩ := bind_eq_ok_iff.mp h
  obtain ⟨contactA, hA, h⟩ := bind_eq_ok_iff.mp h
  obtain ⟨yuWu, hyuWu, h⟩ := bind_eq_ok_iff.mp h
  obtain ⟨gross, hgross, h⟩ := bind_eq_ok_iff.mp h
  obtain ⟨shownA, hshownA, h⟩ := bind_eq_ok_iff.mp h
  obtain ⟨shownS, hshownS, h⟩ := bind_eq_ok_iff.mp h
  obtain ⟨monteCarlo, hmc, h⟩ := bind_eq_ok_iff.mp h
  cases h
  refine List.forall_mem_cons.mpr ⟨monteCarloProfile_even hmc, List.forall_mem_singleton.mpr ?_⟩
  simp [Profile.Even, -Prod.forall, length_column hr, length_column hn, length_column hS,
    length_column hyuWu, length_column hA, length_column hgross, length_masked hshownA,
    length_masked hshownS]

theorem walls_even {tables : WallTables α} {c : Comparison α} (h : walls tables = .ok c) :
    ∀ p ∈ c.profiles, p.Even := by
  unfold walls at h
  obtain ⟨_, -, h⟩ := bind_eq_ok_iff.mp h
  obtain ⟨_, -, h⟩ := bind_eq_ok_iff.mp h
  obtain ⟨_, -, h⟩ := bind_eq_ok_iff.mp h
  obtain ⟨_, -, h⟩ := bind_eq_ok_iff.mp h
  obtain ⟨spacing, -, h⟩ := bind_eq_ok_iff.mp h
  obtain ⟨mcX, hmcX, h⟩ := bind_eq_ok_iff.mp h
  obtain ⟨mcN, hmcN, h⟩ := bind_eq_ok_iff.mp h
  obtain ⟨mcN0, hmcN0, h⟩ := bind_eq_ok_iff.mp h
  obtain ⟨mcNA, hmcNA, h⟩ := bind_eq_ok_iff.mp h
  obtain ⟨x, hx, h⟩ := bind_eq_ok_iff.mp h
  obtain ⟨n, hn, h⟩ := bind_eq_ok_iff.mp h
  obtain ⟨contactS, hS, h⟩ := bind_eq_ok_iff.mp h
  obtain ⟨yuWu, hyuWu, h⟩ := bind_eq_ok_iff.mp h
  obtain ⟨contactA, hA, h⟩ := bind_eq_ok_iff.mp h
  obtain ⟨n0, hn0, h⟩ := bind_eq_ok_iff.mp h
  obtain ⟨gross, hgross, h⟩ := bind_eq_ok_iff.mp h
  obtain ⟨nA, hnA, h⟩ := bind_eq_ok_iff.mp h
  obtain ⟨shownA, hshownA, h⟩ := bind_eq_ok_iff.mp h
  obtain ⟨shownS, hshownS, h⟩ := bind_eq_ok_iff.mp h
  obtain ⟨secondX, hsecondX, h⟩ := bind_eq_ok_iff.mp h
  obtain ⟨secondN, hsecondN, h⟩ := bind_eq_ok_iff.mp h
  obtain ⟨secondS, hsecondS, h⟩ := bind_eq_ok_iff.mp h
  obtain ⟨secondA, hsecondA, h⟩ := bind_eq_ok_iff.mp h
  obtain ⟨secondShownA, hsecondShownA, h⟩ := bind_eq_ok_iff.mp h
  obtain ⟨secondShownS, hsecondShownS, h⟩ := bind_eq_ok_iff.mp h
  obtain ⟨tensorialX, htensorialX, h⟩ := bind_eq_ok_iff.mp h
  obtain ⟨tensorialN, htensorialN, h⟩ := bind_eq_ok_iff.mp h
  cases h
  simp only [List.forall_mem_cons]
  refine ⟨?_, ?_, ?_, ?_, by simp⟩
  · simp [Profile.Even, -Prod.forall, length_column hmcX, length_column hmcN, length_column hmcN0,
      length_column hmcNA]
  · simp [Profile.Even, -Prod.forall, length_column hx, length_column hn, length_column hS,
      length_column hyuWu, length_column hA, length_column hn0, length_column hgross,
      length_column hnA, length_masked hshownA, length_masked hshownS]
  · simp [Profile.Even, -Prod.forall, length_column hsecondX, length_column hsecondN,
      length_column hsecondS, length_column hsecondA, length_masked hsecondShownA,
      length_masked hsecondShownS]
  · simp [Profile.Even, -Prod.forall, length_column htensorialX, length_column htensorialN]

/-! ## Refusals -/

omit [Analytic α] in
/-- A mask looks at the rows of its curve only. -/
theorem refusesOnly_masked {values : List α} {keep : Nat → Except Failure Bool}
    (h : ∀ row, row < values.length → RefusesOnly Ordinary (keep row)) :
    RefusesOnly Ordinary (masked values keep) := by
  intro failure hfailure
  obtain ⟨⟨value, row⟩, hmem, hrow⟩ := exists_eq_error_of_mapM hfailure
  have hlt : row < values.length := by
    simpa using List.snd_lt_add_of_mem_zipIdx hmem
  exact refusesOnly_bind (h row hlt) (fun _ _ => refusesOnly_pure _) failure hrow

/-- A column that is as long as the curve has a value for every row of it. -/
theorem refusesOnly_masked_atLeast {values column : List α} (limit : α)
    (h : values.length = column.length) :
    RefusesOnly Ordinary (masked values (atLeast limit column)) := by
  refine refusesOnly_masked fun row hrow => ?_
  rw [atLeast, entryAt_eq_ok (h ▸ hrow)]
  exact refusesOnly_ok _

theorem refusesOnly_masked_below (limit : α) (values : List α) :
    RefusesOnly Ordinary (masked values (below limit values)) := by
  refine refusesOnly_masked fun row hrow => ?_
  rw [below, entryAt_eq_ok hrow]
  exact refusesOnly_ok _

omit [Analytic α] in
theorem refusesOnly_masked_between (values : List α) (start stop : Nat) :
    RefusesOnly Ordinary (masked values (between start stop)) :=
  refusesOnly_masked fun _ _ => refusesOnly_pure _

omit [Analytic α] in
/-- A row with a value for every column can be added. -/
theorem push_eq_ok {b : Buffer α} {row : List α} (h : row.length = b.columns) :
    (b.push row).1 = .ok () := by
  obtain ⟨-, -, hpush⟩ | ⟨-, -, hpush⟩ | ⟨-, hwidth, -⟩ := b.push_cases row
  · rw [hpush]
  · rw [hpush]
  · exact absurd h hwidth

/-- The row of the wall has a value for every column. -/
theorem wall_eq_ok {t : Table α} (h : 12 ≤ t.columns) (radius : α) :
    ∃ first wall : List α,
      withEntry (List.replicate t.columns (0.0 : α)) 0 radius = .ok first ∧
      withEntry first 10 1.0 = .ok wall ∧ wall.length = t.columns := by
  have hzeros : 0 < (List.replicate t.columns (0.0 : α)).length := by
    rw [List.length_replicate]
    omega
  have hfirst : 10 < ((List.replicate t.columns (0.0 : α)).set 0 radius).length := by
    rw [List.length_set, List.length_replicate]
    omega
  exact ⟨_, _, withEntry_eq_ok hzeros radius, withEntry_eq_ok hfirst 1.0, by simp⟩

@[simp] theorem refusesOnly_gridSpacing (t : Table α) (context : String) :
    RefusesOnly Ordinary (gridSpacing t context) := by
  unfold gridSpacing
  split
  · split
    · exact refusesOnly_ok _
    · exact refusesOnly_error rfl
  · exact refusesOnly_error rfl

/-- Every row has a first value. -/
@[simp] theorem refusesOnly_cavityRadius (dft : Table α) :
    RefusesOnly Ordinary (cavityRadius dft) := by
  unfold cavityRadius
  split
  · exact refusesOnly_error rfl
  · next row hrow =>
    rw [dft.whole.lastRow?_eq] at hrow
    have hne : row ≠ [] := Table.row_ne_nil (List.mem_of_getLast? hrow)
    rw [entryAt_eq_ok (List.length_pos_iff.mpr hne)]
    exact refusesOnly_ok _

@[simp] theorem refusesOnly_monteCarloProfile (mc : Table α) (shell : Nat) :
    RefusesOnly Ordinary (monteCarloProfile mc shell) := by
  simp [monteCarloProfile, refusesOnly_masked_below]

@[simp] theorem refusesOnly_innerSphere (tag : String) (radius : α) (dft mc : Table α) :
    RefusesOnly Ordinary (innerSphere tag radius dft mc) := by
  unfold innerSphere
  simp only [refusesOnly_bind_iff, refusesOnly_requireColumns, refusesOnly_column, true_and]
  intro _ _ _ _ r hr n hn contactS hS yuWu _ contactA hA gross _
  have hlength : ∀ {column : List α} {j : Nat}, dft.column j = .ok column →
      column.length = r.length := fun hcolumn => (length_column hcolumn).trans (length_column hr).symm
  refine ⟨refusesOnly_masked_atLeast _ (hlength hA), fun shownA _ => ?_⟩
  refine ⟨refusesOnly_masked_atLeast _ (hlength hS), fun shownS _ => ?_⟩
  refine ⟨refusesOnly_masked_atLeast _ ?_, fun outside _ => by simp⟩
  rw [length_fillings, hlength hn]

@[simp] theorem refusesOnly_outerSphere (tag : String) (dft mc : Table α) :
    RefusesOnly Ordinary (outerSphere tag dft mc) := by
  unfold outerSphere
  refine refusesOnly_bind (refusesOnly_requireColumns _ _ _) fun _ _ => ?_
  refine refusesOnly_bind (refusesOnly_requireColumns _ _ _) fun _ hmc => ?_
  refine refusesOnly_bind (refusesOnly_cavityRadius dft) fun radius _ => ?_
  refine refusesOnly_bind (refusesOnly_gridSpacing _ _) fun spacing _ => ?_
  -- the table of the run has enough columns for the row of the wall
  obtain ⟨first, wall, hfirst, hwall, hwidth⟩ := wall_eq_ok (requireColumns_eq_ok hmc).2 radius
  rw [hfirst]
  refine refusesOnly_bind (refusesOnly_ok first) fun _ h => ?_
  rw [← Except.ok.inj h, hwall]
  refine refusesOnly_bind (refusesOnly_ok wall) fun _ h => ?_
  rw [← Except.ok.inj h]
  refine refusesOnly_bind (by rw [push_eq_ok hwidth]; exact refusesOnly_ok _) fun _ _ => ?_
  simp only [refusesOnly_bind_iff, refusesOnly_column, refusesOnly_masked_between,
    refusesOnly_monteCarloProfile, refusesOnly_pure, implies_true, and_true, true_and]
  intro r hr n _ contactS _ contactA hA yuWu _ gross _
  exact refusesOnly_masked_atLeast _ ((length_column hA).trans (length_column hr).symm)

@[simp] theorem refusesOnly_walls (tables : WallTables α) :
    RefusesOnly Ordinary (walls tables) := by
  simp [walls, refusesOnly_masked_between]

end

namespace Geometry

@[simp] theorem refusesOnly_compare (g : Geometry) (request : Request) (files : Tree) :
    RefusesOnly Ordinary (g.compare request files) := by
  cases g <;> simp [compare]

theorem compare_even {g : Geometry} {request : Request} {files : Tree} {c : Comparison Float}
    (h : g.compare request files = .ok c) : ∀ p ∈ c.profiles, p.Even := by
  cases g with
  | innerSphere radius digit =>
    obtain ⟨dft, -, h⟩ := bind_eq_ok_iff.mp h
    obtain ⟨mc, -, h⟩ := bind_eq_ok_iff.mp h
    exact innerSphere_even h
  | outerSphere radius digit =>
    obtain ⟨dft, -, h⟩ := bind_eq_ok_iff.mp h
    obtain ⟨mc, -, h⟩ := bind_eq_ok_iff.mp h
    exact outerSphere_even h
  | walls =>
    obtain ⟨whiteBear, -, h⟩ := bind_eq_ok_iff.mp h
    obtain ⟨mc, -, h⟩ := bind_eq_ok_iff.mp h
    obtain ⟨tensorial, -, h⟩ := bind_eq_ok_iff.mp h
    obtain ⟨markTwo, -, h⟩ := bind_eq_ok_iff.mp h
    exact walls_even h

end Geometry

/-! ## Contact report -/

open Session

theorem ContactReport.execute_prepared (a : ContactReport) (out : Output) :
    Prepared out Ordinary (a.execute out) := by
  refine .ask_bind (fun _ => refusesOnly_expectKind _ _) fun _ _ _ => ?_
  refine .ask_bind (fun _ => a.geometry.refusesOnly_compare _ _) fun files comparison h => ?_
  refine .of_orderly (.bind (.forM fun profile hprofile => ?_) fun _ => .panels _ _)
  refine .columns _ _ profile.position.length
    (List.forall_mem_cons.mpr ⟨rfl, List.forall_mem_map.mpr fun curve hcurve => ?_⟩)
  rw [length_present, Geometry.compare_even h profile hprofile curve hcurve]

/-! ## Pair distribution report -/

namespace PairReport

@[simp] theorem refusesOnly_loadOne (a : PairReport) (request : Request) (files : Tree)
    (filling : Float) : RefusesOnly Ordinary (a.loadOne request files filling) := by
  dsimp only [loadOne]
  split
  · simp
  · exact refusesOnly_pure _

theorem loadOne_eq_ok {a : PairReport} {request : Request} {files : Tree} {filling : Float}
    {m : Measured Float} (h : a.loadOne request files filling = .ok (some m)) :
    m.g.length = m.r.length := by
  dsimp only [loadOne] at h
  split at h
  · obtain ⟨table, -, h⟩ := bind_eq_ok_iff.mp h
    obtain ⟨r, hr, h⟩ := bind_eq_ok_iff.mp h
    obtain ⟨density, hdensity, h⟩ := bind_eq_ok_iff.mp h
    cases h
    simp [Measured.ofDensity, length_column hr, length_column hdensity]
  · cases h

@[simp] theorem refusesOnly_load (a : PairReport) (request : Request) (files : Tree) :
    RefusesOnly Ordinary (a.load request files) := by
  refine refusesOnly_bind (refusesOnly_mapM fun filling => by simp) fun found _ => ?_
  dsimp only
  split
  · exact refusesOnly_throw rfl
  · exact refusesOnly_pure _

/-- Every sampled distance has a sampled value. -/
theorem load_eq_ok {a : PairReport} {request : Request} {files : Tree}
    {data : List (Measured Float)} (h : a.load request files = .ok data) :
    ∀ m ∈ data, m.g.length = m.r.length := by
  obtain ⟨found, hfound, h⟩ := bind_eq_ok_iff.mp h
  dsimp only at h
  split at h
  · cases h
  · cases h
    intro m hm
    obtain ⟨_, hone, rfl⟩ := List.mem_filterMap.mp hm
    obtain ⟨filling, -, hfilling⟩ := exists_of_mem_mapM hfound hone
    exact loadOne_eq_ok hfilling

@[simp] theorem refusesOnly_solve (a : PairReport) (data : List (Measured Float)) :
    RefusesOnly Ordinary (a.solve data) := by
  unfold solve
  split
  · exact refusesOnly_ok _
  · exact refusesOnly_error rfl

theorem execute_prepared (a : PairReport) (out : Output) :
    Prepared out Ordinary (a.execute out) := by
  refine .ask_bind (fun _ => refusesOnly_expectKind _ _) fun _ _ _ => ?_
  refine .ask_bind (fun _ => a.refusesOnly_load _ _) fun files data hdata => ?_
  refine .ask_bind (fun _ => a.refusesOnly_solve _) fun _ fit _ => ?_
  refine .of_orderly (.bind (.columns _ _ data.length ?_) fun _ =>
    .bind (.forM fun m hm => .columns _ _ m.r.length ?_) fun _ => .panel _ _)
  · simp
  · simp [load_eq_ok hdata m hm, Measured.model]

end PairReport

end FluidAnalysis.HardSphere
