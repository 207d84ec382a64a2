import Mathlib
import FluidAnalysis.Proofs.Extended
import FluidAnalysis.Proofs.HardSphere.Courses
import FluidAnalysis.Proofs.Reals
import FluidAnalysis.Proofs.Table.Layout

/-!
# Where contact values end inside a cavity

The contact values of a density functional are shown up to one radius before the end of its grid.
They are cut by counting: one radius takes `1 / spacing` rows, so all but that many rows are kept, and
the number is rounded down. Rows are equally spaced from the second one on, and therefore the last row
that is kept is the last one at a distance of at least one from the end.

* `outerSphere_eq_ok` — the profiles of a cavity, and the curve that is cut
* `lt_rowsBeforeEnd_iff` — which rows are counted
* `outerSphere_cut` — the values that are shown are those up to one radius before the end
-/

namespace FluidAnalysis.HardSphere

open Exact Numeric

/-! ## The curve -/

section Curve

variable {α : Type} [Analytic α] {dft mc : Table α}

omit [Analytic α] in
theorem requireColumns_eq_ok_of_le {t : Table α} {needed : ℕ} (context : String) (hpos : 0 < needed)
    (h : needed ≤ t.columns) : t.requireColumns needed context = .ok () := by
  have hrows : t.isEmpty = false := by
    rw [t.isEmpty_eq, List.isEmpty_eq_false_iff]
    exact mt t.columns_eq_zero_iff.mpr (by omega)
  rw [Buffer.requireColumns, hrows, if_neg Bool.false_ne_true, if_neg (by omega)]

omit [Analytic α] in
/-- A row of the right width makes a table longer, and not wider. -/
theorem columns_push {t : Table α} {row : List α} (h : row.length = t.columns) :
    (t.push row).2.columns = t.columns := by
  show (t.toBuffer.push row).2.columns = t.columns
  obtain ⟨-, -, hpush⟩ | ⟨-, -, hpush⟩ | ⟨-, -, hpush⟩ := t.toBuffer.push_cases row
  · rw [hpush]
    exact h
  · rw [hpush]
  · rw [hpush]

omit [Analytic α] in
theorem masked_eq_ok {values : List α} {keep : ℕ → Except Failure Bool}
    (h : ∀ row, row < values.length → ∃ kept, keep row = .ok kept) :
    ∃ curve, masked values keep = .ok curve := by
  have hrows : ∀ entry ∈ values.zipIdx, ∃ shown : Option α,
      (do return if ← keep entry.2 then some entry.1 else none) = Except.ok shown := by
    rintro ⟨value, row⟩ hmem
    have hlt : row < values.length := by
      simpa using List.snd_lt_add_of_mem_zipIdx hmem
    obtain ⟨kept, hkept⟩ := h row hlt
    exact ⟨_, by rw [hkept]; rfl⟩
  obtain ⟨curve, hcurve⟩ := exists_map_eq_map_ok hrows
  exact ⟨curve, mapM_eq_ok_iff.mpr hcurve⟩

omit [Analytic α] in
/-- A curve that is cut by counting rows. -/
theorem masked_between (values : List α) (start stop : ℕ) :
    masked values (between start stop)
      = .ok (values.zipIdx.map fun entry =>
        if start ≤ entry.2 ∧ entry.2 < stop then some entry.1 else none) := by
  rw [masked, mapM_eq_ok_iff, List.map_map]
  refine List.map_congr_left fun entry _ => ?_
  by_cases h : start ≤ entry.2 ∧ entry.2 < stop <;> simp [between, h, pure, Except.pure, bind,
    Except.bind]

theorem monteCarloProfile_eq_ok {shell : ℕ} (hmc : 12 ≤ mc.columns)
    (hshell : 3 + 2 * shell < mc.columns) : ∃ p, monteCarloProfile mc shell = .ok p := by
  obtain ⟨r, hr, -⟩ := mc.whole.column_eq_ok (j := 0) (by omega)
  obtain ⟨n, hn, -⟩ := mc.whole.column_eq_ok (j := 1) (by omega)
  obtain ⟨n0, hn0, -⟩ := mc.whole.column_eq_ok (j := 10) (by omega)
  obtain ⟨nA, hnA, -⟩ := mc.whole.column_eq_ok (j := 11) (by omega)
  obtain ⟨histogramA, hA, -⟩ := mc.whole.column_eq_ok (j := 2 + 2 * shell) (by omega)
  obtain ⟨histogramS, hS, -⟩ := mc.whole.column_eq_ok (j := 3 + 2 * shell) (by omega)
  obtain ⟨shown, hshown⟩ : ∃ shown, masked (ratios histogramS n0)
      (below noiseLimit (ratios histogramS n0)) = .ok shown :=
    masked_eq_ok fun row hrow => ⟨_, by rw [below, entryAt_eq_ok hrow]; rfl⟩
  unfold monteCarloProfile
  rw [hr, hn, hn0, hnA, hA, hS]
  dsimp only [bind, Except.bind]
  rw [hshown]
  exact ⟨_, rfl⟩

theorem gridSpacing_eq_ok {first second : α} (context : String)
    (hfirst : dft.value? 1 0 = some first) (hsecond : dft.value? 2 0 = some second)
    (h : first < second) : gridSpacing dft context = .ok (second - first) := by
  unfold gridSpacing
  rw [hfirst, hsecond]
  exact if_pos h

theorem cavityRadius_eq_ok (h : 0 < dft.columns) : ∃ radius, cavityRadius dft = .ok radius := by
  have hrows : dft.rows ≠ [] := mt dft.columns_eq_zero_iff.mpr h.ne'
  have hwidth := dft.row_length _ (List.getLast_mem hrows)
  obtain ⟨last, rest, hlast⟩ : ∃ last rest, dft.rows.getLast hrows = last :: rest := by
    refine List.exists_cons_of_ne_nil fun hnil => ?_
    rw [hnil] at hwidth
    exact h.ne hwidth
  unfold cavityRadius
  rw [dft.whole.lastRow?_eq, List.getLast?_eq_some_getLast hrows, hlast]
  exact ⟨_, rfl⟩

/-- **Inside a cavity there are two profiles, and one curve of the second is cut by counting rows.** -/
theorem outerSphere_eq_ok {first second : α} (tag : String) (hdft : 8 ≤ dft.columns)
    (hmc : 12 ≤ mc.columns) (hfirst : dft.value? 1 0 = some first)
    (hsecond : dft.value? 2 0 = some second) (hlt : first < second) :
    ∃ c monteCarlo functional contactS shown, outerSphere tag dft mc = .ok c ∧
      c.profiles = [monteCarlo, functional] ∧ functional.slug = "dft" ∧
      dft.column 4 = .ok contactS ∧
      masked contactS (between 0 (rowsBeforeEnd dft.rowCount (second - first))) = .ok shown ∧
      functional.curve? .contactS = some shown := by
  obtain ⟨radius, hradius⟩ : ∃ radius, cavityRadius dft = .ok radius :=
    cavityRadius_eq_ok (by omega)
  obtain ⟨row, wall, hrow, hwall, hwidth⟩ := wall_eq_ok hmc radius
  have hpush : (mc.push wall).1 = .ok () := push_eq_ok hwidth
  have hcolumns : (mc.push wall).2.columns = mc.columns := columns_push hwidth
  obtain ⟨monteCarlo, hmonteCarlo⟩ : ∃ p, monteCarloProfile (mc.push wall).2 1 = .ok p :=
    monteCarloProfile_eq_ok (by omega) (by omega)
  obtain ⟨r, hr, -⟩ := dft.whole.column_eq_ok (j := 0) (by omega)
  obtain ⟨n, hn, -⟩ := dft.whole.column_eq_ok (j := 1) (by omega)
  obtain ⟨contactS, hS, -⟩ := dft.whole.column_eq_ok (j := 4) (by omega)
  obtain ⟨contactA, hA, -⟩ := dft.whole.column_eq_ok (j := 5) (by omega)
  obtain ⟨yuWu, hyuWu, -⟩ := dft.whole.column_eq_ok (j := 6) (by omega)
  obtain ⟨gross, hgross, -⟩ := dft.whole.column_eq_ok (j := 7) (by omega)
  have hlength : contactA.length = r.length :=
    (Report.length_column hA).trans (Report.length_column hr).symm
  obtain ⟨shownA, hshownA⟩ : ∃ shown,
      masked contactA (atLeast (radius - 6.0) r) = .ok shown :=
    masked_eq_ok fun row hrow => ⟨_, by rw [atLeast, entryAt_eq_ok (hlength ▸ hrow)]; rfl⟩
  have hshownS := masked_between contactS 0 (rowsBeforeEnd dft.rowCount (second - first))
  unfold outerSphere
  rw [requireColumns_eq_ok_of_le _ (by decide) hdft, requireColumns_eq_ok_of_le _ (by decide) hmc,
    hradius, gridSpacing_eq_ok _ hfirst hsecond hlt, hr, hn, hS, hA, hyuWu, hgross]
  dsimp only [bind, Except.bind]
  rw [hrow]
  dsimp only
  rw [hwall]
  dsimp only
  rw [hpush, hshownA, hshownS]
  dsimp only
  rw [hmonteCarlo]
  exact ⟨_, monteCarlo, _, contactS, _, rfl, rfl, rfl, rfl, hshownS, rfl⟩

end Curve

/-! ## The rows -/

section Rows

variable {K : Type} [Field K] [LinearOrder K] [IsStrictOrderedRing K] [FloorRing K] [Elementary K]

theorem rowsBeforeEnd_eq {rows : ℕ} {spacing : K} (hspacing : 0 < spacing) :
    rowsBeforeEnd rows (Extended.finite spacing)
      = ⌊max (rows - 1 / spacing) 0⌋₊ := by
  have hlast : (rows : Extended K) - 1.0 / Extended.finite spacing
      = Extended.finite (rows - 1 / spacing) := by
    rw [Extended.literalOne_finite, Extended.finite_div hspacing.ne']
    rfl
  rw [rowsBeforeEnd, hlast, Extended.literalZero_finite, Extended.larger_finite, larger_eq_max]
  show ⌊max (rows - 1 / spacing) 0⌋.toNat = _
  rw [Int.floor_toNat]

/-- A row is counted if one radius fits between it and the end of the grid. -/
theorem lt_rowsBeforeEnd_iff {rows i : ℕ} {spacing : K} (hspacing : 0 < spacing) :
    i < rowsBeforeEnd rows (Extended.finite spacing) ↔ (i : K) + 1 + 1 / spacing ≤ rows := by
  have hpos : (0 : K) < (i + 1 : ℕ) := by exact_mod_cast Nat.succ_pos i
  rw [rowsBeforeEnd_eq hspacing, ← Nat.succ_le_iff, Nat.le_floor_iff (le_max_right _ _), le_max_iff,
    or_iff_left (not_le.mpr hpos), le_sub_iff_add_le, Nat.cast_succ]

variable {r : ℕ → K} {spacing : K} {n : ℕ}

omit [IsStrictOrderedRing K] [Elementary K] in
theorem position_add (hgrid : ∀ i, 1 ≤ i → i + 1 < n → r (i + 1) = r i + spacing) {i k : ℕ}
    (hi : 1 ≤ i) (hk : i + k < n) : r (i + k) = r i + k * spacing := by
  induction k with
  | zero => simp
  | succ k ih =>
    rw [← Nat.add_assoc, hgrid (i + k) (by omega) hk, ih (by omega)]
    push_cast
    ring

/-- **Counting rows is measuring radii.** -/
theorem lt_rowsBeforeEnd_iff_position (hspacing : 0 < spacing)
    (hgrid : ∀ i, 1 ≤ i → i + 1 < n → r (i + 1) = r i + spacing) {i : ℕ} (hi : 1 ≤ i)
    (hn : i < n) :
    i < rowsBeforeEnd n (Extended.finite spacing) ↔ r i ≤ r (n - 1) - 1 := by
  -- the rows behind the row in question
  obtain ⟨k, rfl⟩ : ∃ k, n = i + k + 1 := ⟨n - i - 1, by omega⟩
  have hlast : r (i + k + 1 - 1) = r i + k * spacing := position_add hgrid hi (by omega)
  have hcast : ((i + k + 1 : ℕ) : K) = i + 1 + k := by
    push_cast
    ring
  rw [lt_rowsBeforeEnd_iff hspacing, hlast, hcast, add_le_add_iff_left,
    div_le_iff₀ hspacing, le_sub_iff_add_le, add_le_add_iff_left]

/-- **Cutting a cavity by rows cuts it by radius.** The table of the functional has at least three
rows, and equally spaced positions from the second row on. The first position and the other columns
may hold anything. Then the comparison exists, and the profile of the functional has a contact value
in every row behind the first whose position is at most the last one less one radius. In the other
rows the value is missing, which is written as the undefined number. -/
theorem outerSphere_cut (tag : String) (dft mc : Table (Extended K)) (r : ℕ → K) (spacing : K)
    (hdft : 8 ≤ dft.columns) (hmc : 12 ≤ mc.columns) (hrows : 3 ≤ dft.rowCount)
    (hspacing : 0 < spacing)
    (hpositions : ∀ i, 1 ≤ i → i < dft.rowCount → dft.value? i 0 = some (.finite (r i)))
    (hgrid : ∀ i, 1 ≤ i → i + 1 < dft.rowCount → r (i + 1) = r i + spacing) :
    ∃ c monteCarlo functional values, outerSphere tag dft mc = .ok c ∧
      c.profiles = [monteCarlo, functional] ∧ functional.slug = "dft" ∧
      functional.curve? .contactS = some values ∧
      ∀ i, 1 ≤ i → i < dft.rowCount → ∃ g, dft.value? i 4 = some g ∧
        values[i]? = some (if r i ≤ r (dft.rowCount - 1) - 1 then some g else none) ∧
        (Profile.present values)[i]?
          = some (if r i ≤ r (dft.rowCount - 1) - 1 then g else .undefined) := by
  have hstep : r 2 = r 1 + spacing := hgrid 1 le_rfl (by omega)
  have hlt : Extended.finite (r 1) < Extended.finite (r 2) := by
    rw [Extended.finite_lt_iff, hstep]
    exact lt_add_of_pos_right _ hspacing
  obtain ⟨c, monteCarlo, functional, contactS, shown, hok, hprofiles, hslug, hS, hshown, hcurve⟩ :=
    outerSphere_eq_ok tag hdft hmc (hpositions 1 le_rfl (by omega)) (hpositions 2 (by omega) hrows)
      hlt
  rw [Extended.finite_sub, hstep, add_sub_cancel_left, masked_between, Except.ok.injEq] at hshown
  refine ⟨c, monteCarlo, functional, _, hok, hprofiles, hslug, hcurve, fun i hi hn => ?_⟩
  obtain ⟨g, row, column, hg, -, -, hcolumn, hlength, hvalue⟩ :=
    dft.whole.rowMajor.cell i 4 hn (by omega)
  obtain rfl : contactS = column := Except.ok.inj (hS.symm.trans hcolumn)
  have hcut : shown[i]? = some (if r i ≤ r (dft.rowCount - 1) - 1 then some g else none) := by
    rw [← hshown, List.getElem?_map, List.getElem?_zipIdx, hvalue]
    simp only [Option.map_some, Nat.zero_add, Nat.zero_le, true_and,
      lt_rowsBeforeEnd_iff_position hspacing hgrid hi hn]
  refine ⟨g, hg, hcut, ?_⟩
  have hgap : (0.0 / 0.0 : Extended K) = .undefined := by
    rw [Extended.literalZero_finite, Extended.zero_div_zero]
  rw [Profile.present, List.getElem?_map, hcut, Option.map_some, hgap]
  split_ifs <;> rfl

end Rows

/-! ## A short cavity -/

/-- Positions one radius apart behind a first one that is further away, and ones in all other
columns. -/
noncomputable def cavityTable : Table (Extended ℝ) where
  columns := 8
  values := [0, 2, 3, 4].flatMap fun position : ℕ =>
    .finite position :: List.replicate 7 (.finite 1)
  whole := ⟨by simp, by simp⟩

noncomputable def cavityRuns : Table (Extended ℝ) where
  columns := 12
  values := List.replicate 12 (.finite 1)
  whole := ⟨by simp, by simp⟩

/-- The last row but one lies exactly one radius before the end and is kept. -/
theorem cavityTable_cut :
    8 ≤ cavityTable.columns ∧ 12 ≤ cavityRuns.columns ∧ cavityTable.rowCount = 4 ∧
    (∀ i, 1 ≤ i → i < 4 → cavityTable.value? i 0 = some (.finite (i + 1))) ∧
    ∃ c monteCarlo functional values, outerSphere "cavity" cavityTable cavityRuns = .ok c ∧
      c.profiles = [monteCarlo, functional] ∧ functional.slug = "dft" ∧
      functional.curve? .contactS = some values ∧
      values[1]? = some (some (.finite 1)) ∧ values[2]? = some (some (.finite 1)) ∧
      values[3]? = some none := by
  have hrows : cavityTable.rowCount = 4 := by simp [Buffer.rowCount, cavityTable]
  have hpositions : ∀ i, 1 ≤ i → i < 4 →
      cavityTable.value? i 0 = some (.finite ((i : ℕ) + 1)) := by
    intro i hi hlt
    interval_cases i <;> simp [Buffer.value?, Buffer.row?, Buffer.rowCount, cavityTable] <;> norm_num
  have hcontact : ∀ i, i < 4 → cavityTable.value? i 4 = some (.finite 1) := by
    intro i hlt
    interval_cases i <;> simp [Buffer.value?, Buffer.row?, Buffer.rowCount, cavityTable]
  refine ⟨le_rfl, le_rfl, hrows, hpositions, ?_⟩
  obtain ⟨c, monteCarlo, functional, values, hok, hprofiles, hslug, hcurve, hcut⟩ :=
    outerSphere_cut "cavity" cavityTable cavityRuns (fun i => (i : ℕ) + 1) 1 le_rfl le_rfl
      (by omega) one_pos (by rwa [hrows]) (by intro i _ _; push_cast; ring)
  refine ⟨c, monteCarlo, functional, values, hok, hprofiles, hslug, hcurve, ?_⟩
  have hvalue : ∀ i, 1 ≤ i → i < 4 →
      values[i]? = some (if ((i : ℕ) + 1 : ℝ) ≤ 3 then some (.finite 1) else none) := by
    intro i hi hlt
    obtain ⟨g, hg, hvalue, -⟩ := hcut i hi (by omega)
    rw [hcontact i hlt] at hg
    cases hg
    rw [hvalue, hrows]
    norm_num
  refine ⟨?_, ?_, ?_⟩
  · rw [hvalue 1 (by norm_num) (by norm_num), if_pos (by norm_num)]
  · rw [hvalue 2 (by norm_num) (by norm_num), if_pos (by norm_num)]
  · rw [hvalue 3 (by norm_num) (by norm_num), if_neg (by norm_num)]

end FluidAnalysis.HardSphere
