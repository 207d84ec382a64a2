import Mathlib
import FluidAnalysis.SquareWell.DensityOfStates
import FluidAnalysis.Proofs.Double.Value
import FluidAnalysis.Proofs.Table.Layout

/-!
# Levels from visited bins

A run keeps one level for each bin that it visited, in the order of the histogram. The weight stands
in the row of the weight table that the integer part of the energy counts out. A bin that was not
visited is not even looked up, so its energy may be anything.

* `visited` — the bins that count
* `LacksRow` — the energies that no row of weights belongs to
* `levels_eq_mapM` — the levels are those of the visited bins

Main statement: `levels_visited`.
-/

namespace FluidAnalysis.SquareWell

open Double (value towardZero)

/-! ## Bins -/

/-- The bins of a histogram from top to bottom, each with its energy and its count. -/
def bins (histogram : Table Float) : List (Float × Float) :=
  histogram.rows.map fun row => (row.getD 0 0.0, row.getD 1 0.0)

/-- The bins that were visited. A count that is no number counts as a visit. -/
def visited (histogram : Table Float) : List (Float × Float) :=
  (bins histogram).filter fun bin => !decide (bin.2 ≤ 0.0)

theorem column_eq_map {t : Table Float} {j : ℕ} (hj : j < t.columns) :
    t.column j = .ok (t.rows.map fun row => row.getD j 0.0) := by
  obtain ⟨column, hcolumn, hvalues⟩ := t.whole.column_eq_ok hj
  have hsome : column.map some = (t.rows.map fun row => row.getD j 0.0).map some := by
    rw [hvalues, List.map_map]
    refine List.map_congr_left fun row hrow => ?_
    have hlt : j < row.length := (t.row_length row hrow).symm ▸ hj
    simp [hlt]
  rw [hcolumn, List.map_injective_iff.mpr (Option.some_injective _) hsome]

/-- The weights of a table, as the places of its second column. -/
theorem getElem?_weights {t : Table Float} (ht : 2 ≤ t.columns) (row : ℕ) :
    (t.rows.map fun entries => entries.getD 1 0.0)[row]? = t.value? row 1 := by
  rw [List.getElem?_map, Buffer.value?, if_pos (Nat.lt_of_succ_le ht), t.whole.row?_eq]
  cases hrow : t.rows[row]? with
  | none => rfl
  | some entries =>
    have hlt : 1 < entries.length := by
      rw [t.row_length entries (List.mem_of_getElem? hrow)]
      exact ht
    simp [hlt]

/-! ## Rows of weights -/

/-- No row of weights belongs to the energy: it is not finite, or its integer part is negative or
counts beyond the last row. -/
def LacksRow (rows : ℕ) (energy : Float) : Prop :=
  energy.isFinite = false ∨ towardZero (value energy) < 0 ∨ (rows : ℤ) ≤ towardZero (value energy)

section Rows

variable {rows : ℕ} {energy : Float}

theorem weightRow?_of_lacksRow (h : LacksRow rows energy) : weightRow? energy rows = none := by
  refine if_neg ?_
  intro hrow
  rw [Bool.and_eq_true, decide_eq_true_eq] at hrow
  obtain ⟨hfinite, hbounds⟩ := hrow
  rw [Double.trunc_eq_towardZero hfinite] at hbounds
  rcases h with h | h | h
  · exact Bool.noConfusion (hfinite.symm.trans h)
  · omega
  · omega

theorem weightRow?_of_not_lacksRow (h : ¬ LacksRow rows energy) :
    weightRow? energy rows = some (towardZero (value energy)).toNat ∧
      (towardZero (value energy)).toNat < rows := by
  simp only [LacksRow, not_or, Bool.not_eq_false, not_lt, not_le] at h
  obtain ⟨hfinite, hlow, hhigh⟩ := h
  have htrunc := Double.trunc_eq_towardZero hfinite
  refine ⟨?_, by omega⟩
  rw [← htrunc]
  refine if_pos ?_
  rw [Bool.and_eq_true, decide_eq_true_eq, htrunc]
  exact ⟨hfinite, hlow, hhigh⟩

theorem weightRow?_eq_none_iff : weightRow? energy rows = none ↔ LacksRow rows energy := by
  constructor
  · intro hnone
    by_contra h
    rw [(weightRow?_of_not_lacksRow h).1] at hnone
    cases hnone
  · exact weightRow?_of_lacksRow

end Rows

section Weights

variable {lnWeights : List Float} {energy : Float}

theorem weightOf_of_lacksRow (h : LacksRow lnWeights.length energy) :
    weightOf lnWeights energy = .error (.noWeightRow energy lnWeights.length) := by
  rw [weightOf, weightRow?_of_lacksRow h]

theorem weightOf_of_not_lacksRow (h : ¬ LacksRow lnWeights.length energy) :
    ∃ lnWeight, lnWeights[(towardZero (value energy)).toNat]? = some lnWeight ∧
      weightOf lnWeights energy = .ok lnWeight := by
  obtain ⟨hrow, hlt⟩ := weightRow?_of_not_lacksRow h
  refine ⟨_, List.getElem?_eq_getElem hlt, ?_⟩
  rw [weightOf, hrow]
  exact entryAt_eq_ok hlt

end Weights

/-! ## Levels -/

/-- The level of a visited bin. -/
def visitedLevel (lnWeights : List Float) (bin : Float × Float) : Except Failure (Level Float) :=
  weightOf lnWeights bin.1 >>= fun lnWeight =>
    .ok ⟨bin.1, Analytic.ln bin.2 - lnWeight, lnWeight⟩

/-- **The levels of a run are those of its visited bins.** -/
theorem levels_eq_mapM {histogram weights : Table Float} (hhistogram : 2 ≤ histogram.columns)
    (hweights : 2 ≤ weights.columns) :
    levels histogram weights
      = (visited histogram).mapM (visitedLevel (weights.rows.map fun row => row.getD 1 0.0)) := by
  have hzip : (histogram.rows.map fun row => row.getD 0 0.0).zip
      (histogram.rows.map fun row => row.getD 1 0.0) = bins histogram := List.zip_map' ..
  rw [visited, ← mapM_filterMap (f := levelOf (weights.rows.map fun row => row.getD 1 0.0))]
  · rw [levels, column_eq_map (by omega), column_eq_map (by omega), column_eq_map (by omega), ← hzip]
    rfl
  · intro bin hbin
    have hcount : bin.2 ≤ 0.0 := by simpa using hbin
    exact if_pos hcount
  · intro bin hbin
    have hcount : ¬ bin.2 ≤ 0.0 := by simpa using hbin
    rw [visitedLevel, levelOf, if_neg hcount]
    cases weightOf _ bin.1 <;> rfl

/-- The level that a visited bin has. -/
structure IsLevelOf (weights : Table Float) (bin : Float × Float) (level : Level Float) : Prop where
  energy : level.energy = bin.1
  lnWeight : weights.value? (towardZero (value bin.1)).toNat 1 = some level.lnWeight
  lnDos : level.lnDos = Analytic.ln bin.2 - level.lnWeight

section Outcomes

variable {histogram weights : Table Float} {bin : Float × Float}

theorem visitedLevel_of_lacksRow (h : LacksRow weights.rowCount bin.1) :
    visitedLevel (weights.rows.map fun row => row.getD 1 0.0) bin
      = .error (.noWeightRow bin.1 weights.rowCount) := by
  have hlength : (weights.rows.map fun row => row.getD 1 0.0).length = weights.rowCount := by
    rw [List.length_map, weights.whole.rowCount_eq]
  rw [← hlength] at h ⊢
  rw [visitedLevel, weightOf_of_lacksRow h]
  rfl

theorem visitedLevel_of_not_lacksRow (hweights : 2 ≤ weights.columns)
    (h : ¬ LacksRow weights.rowCount bin.1) :
    ∃ level, visitedLevel (weights.rows.map fun row => row.getD 1 0.0) bin = .ok level ∧
      IsLevelOf weights bin level := by
  have hlength : (weights.rows.map fun row => row.getD 1 0.0).length = weights.rowCount := by
    rw [List.length_map, weights.whole.rowCount_eq]
  rw [← hlength] at h
  obtain ⟨lnWeight, hrow, hweight⟩ := weightOf_of_not_lacksRow h
  rw [getElem?_weights hweights] at hrow
  refine ⟨⟨bin.1, Analytic.ln bin.2 - lnWeight, lnWeight⟩, ?_, rfl, hrow, rfl⟩
  rw [visitedLevel, hweight]
  rfl

/-- The first visited bin without a row is the one that is reported. -/
theorem levels_eq_error_iff (hhistogram : 2 ≤ histogram.columns) (hweights : 2 ≤ weights.columns)
    {failure : Failure} :
    levels histogram weights = .error failure ↔
      ∃ before bin after, visited histogram = before ++ bin :: after ∧
        (∀ earlier ∈ before, ¬ LacksRow weights.rowCount earlier.1) ∧
        LacksRow weights.rowCount bin.1 ∧ failure = .noWeightRow bin.1 weights.rowCount := by
  rw [levels_eq_mapM hhistogram hweights, mapM_eq_error_iff]
  constructor
  · rintro ⟨before, bin, after, hsplit, hbefore, hbin⟩
    refine ⟨before, bin, after, hsplit, ?_, ?_⟩
    · intro earlier hearlier hlacks
      obtain ⟨level, hlevel⟩ := hbefore earlier hearlier
      rw [visitedLevel_of_lacksRow hlacks] at hlevel
      cases hlevel
    · by_cases hlacks : LacksRow weights.rowCount bin.1
      · rw [visitedLevel_of_lacksRow hlacks] at hbin
        exact ⟨hlacks, (Except.error.inj hbin).symm⟩
      · obtain ⟨level, hlevel, -⟩ := visitedLevel_of_not_lacksRow hweights hlacks
        rw [hlevel] at hbin
        cases hbin
  · rintro ⟨before, bin, after, hsplit, hbefore, hlacks, rfl⟩
    refine ⟨before, bin, after, hsplit, ?_, visitedLevel_of_lacksRow hlacks⟩
    intro earlier hearlier
    obtain ⟨level, hlevel, -⟩ := visitedLevel_of_not_lacksRow hweights (hbefore earlier hearlier)
    exact ⟨level, hlevel⟩

/-- Some bin without a row means a first one. -/
theorem exists_first_lacksRow {rows : ℕ} {found : List (Float × Float)}
    (h : ∃ bin ∈ found, LacksRow rows bin.1) :
    ∃ before bin after, found = before ++ bin :: after ∧
      (∀ earlier ∈ before, ¬ LacksRow rows earlier.1) ∧ LacksRow rows bin.1 := by
  classical
  have hany : (found.find? fun bin => decide (LacksRow rows bin.1)).isSome := by
    rw [List.find?_isSome]
    simpa using h
  obtain ⟨bin, hbin⟩ := Option.isSome_iff_exists.mp hany
  obtain ⟨hlacks, before, after, hsplit, hbefore⟩ := List.find?_eq_some_iff_append.mp hbin
  exact ⟨before, bin, after, hsplit, by simpa using hbefore, by simpa using hlacks⟩

theorem exists_levels (hhistogram : 2 ≤ histogram.columns) (hweights : 2 ≤ weights.columns)
    (h : ∀ bin ∈ visited histogram, ¬ LacksRow weights.rowCount bin.1) :
    ∃ found, levels histogram weights = .ok found ∧
      List.Forall₂ (IsLevelOf weights) (visited histogram) found := by
  rw [levels_eq_mapM hhistogram hweights]
  generalize visited histogram = bins at h ⊢
  induction bins with
  | nil => exact ⟨[], rfl, .nil⟩
  | cons bin rest ih =>
    obtain ⟨hbin, hrest⟩ := List.forall_mem_cons.mp h
    obtain ⟨level, hlevel, hof⟩ := visitedLevel_of_not_lacksRow hweights hbin
    obtain ⟨found, hfound, hall⟩ := ih hrest
    refine ⟨level :: found, ?_, .cons hof hall⟩
    rw [List.mapM_cons, hlevel, hfound]
    rfl

theorem visited_insert {other : Table Float} {before after : List (List Float)} {row : List Float}
    (hrows : histogram.rows = before ++ after) (hother : other.rows = before ++ row :: after)
    (hcount : row.getD 1 0.0 ≤ 0.0) : visited other = visited histogram := by
  simp only [visited, bins, hrows, hother, List.map_append, List.map_cons, List.filter_append,
    List.filter_cons, hcount, decide_true, Bool.not_true, Bool.false_eq_true, if_false]

end Outcomes

/-- **A run keeps exactly the bins that it visited.** For every histogram and every table of weights
with two columns or more: some visited bin has an energy to which no row of weights belongs if and
only if this is what is reported, and the first such bin is the one that is named. Otherwise there is
one level for each visited bin, in order, with the energy of the bin, the weight in the row of its
integer part, and the logarithm of the count less this weight. Histograms with the same visited bins
give the same, so a row that was not visited changes nothing, wherever it stands. -/
theorem levels_visited (histogram weights : Table Float) (hhistogram : 2 ≤ histogram.columns)
    (hweights : 2 ≤ weights.columns) :
    ((∃ failure, levels histogram weights = .error failure ∧
      failure.code = "INPUT.DOS_WEIGHT_INDEX") ↔
        ∃ bin ∈ visited histogram, LacksRow weights.rowCount bin.1) ∧
    (∀ failure, levels histogram weights = .error failure ↔
      ∃ before bin after, visited histogram = before ++ bin :: after ∧
        (∀ earlier ∈ before, ¬ LacksRow weights.rowCount earlier.1) ∧
        LacksRow weights.rowCount bin.1 ∧ failure = .noWeightRow bin.1 weights.rowCount) ∧
    ((∀ bin ∈ visited histogram, ¬ LacksRow weights.rowCount bin.1) →
      ∃ found, levels histogram weights = .ok found ∧
        List.Forall₂ (IsLevelOf weights) (visited histogram) found) ∧
    (∀ other : Table Float, 2 ≤ other.columns → visited other = visited histogram →
      levels other weights = levels histogram weights) ∧
    ∀ (other : Table Float) (before after : List (List Float)) (row : List Float),
      histogram.rows = before ++ after → other.rows = before ++ row :: after →
      row.getD 1 0.0 ≤ 0.0 → levels other weights = levels histogram weights := by
  have hsame : ∀ other : Table Float, 2 ≤ other.columns → visited other = visited histogram →
      levels other weights = levels histogram weights := by
    intro other hother hvisited
    rw [levels_eq_mapM hother hweights, levels_eq_mapM hhistogram hweights, hvisited]
  refine ⟨⟨?_, ?_⟩, fun failure => levels_eq_error_iff hhistogram hweights,
    exists_levels hhistogram hweights, hsame, ?_⟩
  · rintro ⟨failure, hfailure, -⟩
    obtain ⟨before, bin, after, hsplit, -, hlacks, -⟩ :=
      (levels_eq_error_iff hhistogram hweights).mp hfailure
    exact ⟨bin, by simp [hsplit], hlacks⟩
  · intro h
    obtain ⟨before, bin, after, hsplit, hbefore, hlacks⟩ := exists_first_lacksRow h
    exact ⟨_, (levels_eq_error_iff hhistogram hweights).mpr
      ⟨before, bin, after, hsplit, hbefore, hlacks, rfl⟩, rfl⟩
  · intro other before after row hrows hother hcount
    refine hsame other ?_ (visited_insert hrows hother hcount)
    -- the two tables share a row, and with it the width
    obtain ⟨shared, hshared⟩ : ∃ shared, shared ∈ histogram.rows := by
      refine List.exists_mem_of_ne_nil _ fun hnil => ?_
      have hzero := histogram.columns_eq_zero_iff.mpr hnil
      omega
    have hmem : shared ∈ other.rows := by
      rw [hother, List.mem_append]
      rcases List.mem_append.mp (hrows ▸ hshared) with hbefore | hafter
      · exact .inl hbefore
      · exact .inr (List.mem_cons_of_mem _ hafter)
    rw [← other.row_length shared hmem, histogram.row_length shared hshared]
    exact hhistogram

/-- Four bins, of which the two with energies outside the table were not visited. -/
def sparseHistogram : Table Float where
  columns := 2
  values := [0, 10, -7, 0, 2.5, 100, Float.inf, -1]
  whole := ⟨by decide, by simp⟩

def threeWeights : Table Float where
  columns := 2
  values := [0, 0, 1, 5, 2, 1]
  whole := ⟨by decide, by simp⟩

/-- The two visited bins are kept, the second with the weight of row two. -/
theorem levels_visited_two :
    visited sparseHistogram = [(0, 10), (2.5, 100)] ∧
    ∃ first second, levels sparseHistogram threeWeights = .ok [first, second] ∧
      first.energy = 0 ∧ second.energy = 2.5 ∧
      second.lnDos = Analytic.ln 100 - second.lnWeight := by
  have hvisited : visited sparseHistogram = [(0, 10), (2.5, 100)] := rfl
  have hrows : ∀ bin ∈ visited sparseHistogram, ¬ LacksRow threeWeights.rowCount bin.1 := by
    rw [hvisited, List.forall_mem_cons, List.forall_mem_singleton, ← weightRow?_eq_none_iff,
      ← weightRow?_eq_none_iff]
    decide +kernel
  obtain ⟨-, -, hlevels, -, -⟩ :=
    levels_visited sparseHistogram threeWeights (by decide) (by decide)
  obtain ⟨found, hfound, hall⟩ := hlevels hrows
  rw [hvisited] at hall
  obtain ⟨first, _, hfirst, hrest, rfl⟩ := List.forall₂_cons_left_iff.mp hall
  obtain ⟨second, _, hsecond, hnone, rfl⟩ := List.forall₂_cons_left_iff.mp hrest
  obtain rfl := List.forall₂_nil_left_iff.mp hnone
  exact ⟨hvisited, first, second, hfound, hfirst.energy, hsecond.energy, hsecond.lnDos⟩

end FluidAnalysis.SquareWell
