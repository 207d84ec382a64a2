import FluidAnalysis.Proofs.Canonical.Levels
import FluidAnalysis.Proofs.Report.Course
import FluidAnalysis.Report.Source

/-!
# Reading data

What the readers of tables promise to the analyses that use them: a table that was loaded has rows
and as many columns as were asked for, all its columns have one length, and a failure is never about
the shape of data that the program put together itself, or about a position outside its data.

* `Ordinary` — failures that are not about such shapes
* `loadTable_eq_ok` — what is known of a loaded table
* `length_column` — columns have the length of the table
-/

namespace FluidAnalysis

open Files Report

/-! ## Failures about shapes -/

/-- A failure about the shape of data that the program put together itself, or about a position
outside its data. -/
def Failure.isShape : Failure → Bool
  | .columnLengths .. => true
  | .rowWidth .. => true
  | .outOfRange .. => true
  | .within _ cause => cause.isShape
  | _ => false

namespace Report

/-- The codes of failures about shapes. -/
def shapeCodes : List String :=
  ["INTERNAL.COLUMN_LENGTH", "INTERNAL.TABLE_ROW", "INTERNAL.OUT_OF_RANGE"]

/-- A failure that is not about shapes. -/
def Ordinary (failure : Failure) : Prop :=
  failure.code ∉ shapeCodes

/-- The code of the failure, if there is one. -/
def codeOf? {β : Type} : Except Failure β → Option String
  | .ok _ => none
  | .error failure => some failure.code

theorem exists_eq_error_of_codeOf? {β γ : Type} {x : Except Failure β × γ} {code : String}
    (h : codeOf? x.1 = some code) :
    ∃ failure, x = (.error failure, x.2) ∧ failure.code = code := by
  rcases x with ⟨outcome, rest⟩
  cases outcome with
  | ok => cases h
  | error failure => exact ⟨failure, rfl, Option.some.inj h⟩

/-- No other failure has one of the codes. -/
theorem ordinary_of_isShape {failure : Failure} (h : failure.isShape = false) :
    Ordinary failure := by
  unfold Ordinary
  rw [← List.elem_iff]
  intro hcode
  induction failure with
  | within _ _ ih => exact ih h hcode
  | columnLengths => cases h
  | rowWidth => cases h
  | outOfRange => cases h
  | fit fault => cases fault <;> cases hcode
  | wrongKind expected => cases expected <;> cases hcode
  | noMethods user => cases user <;> cases hcode
  | _ => cases hcode

/-- Naming the thing that failed keeps the code. -/
theorem Ordinary.within {failure : Failure} (h : Ordinary failure) (context : String) :
    Ordinary (.within context failure) :=
  h

theorem ordinary_of_mem_storeCodes {failure : Failure} (h : failure.code ∈ storeCodes) :
    Ordinary failure := by
  unfold Ordinary
  generalize failure.code = code at h
  simp only [storeCodes, List.mem_cons, List.not_mem_nil, or_false] at h
  rcases h with rfl | rfl | rfl <;> decide

/-! ## Computations that refuse -/

section

variable {β γ : Type} {refuses : Failure → Prop}

@[simp] theorem refusesOnly_ok (value : β) : RefusesOnly refuses (.ok value) := by
  intro failure h
  cases h

@[simp] theorem refusesOnly_pure (value : β) :
    RefusesOnly refuses (pure value : Except Failure β) :=
  refusesOnly_ok value

@[simp] theorem refusesOnly_error {failure : Failure} (h : failure.isShape = false) :
    RefusesOnly Ordinary (.error failure : Except Failure β) := by
  intro _ heq
  cases heq
  exact ordinary_of_isShape h

@[simp] theorem refusesOnly_throw {failure : Failure} (h : failure.isShape = false) :
    RefusesOnly Ordinary (throw failure : Except Failure β) :=
  refusesOnly_error h

/-- A failure that is passed on. -/
theorem RefusesOnly.error {x : Except Failure β} {failure : Failure} (h : RefusesOnly refuses x)
    (hx : x = .error failure) : RefusesOnly refuses (.error failure : Except Failure γ) := by
  intro _ heq
  cases heq
  exact h failure hx

theorem refusesOnly_bind {x : Except Failure β} {f : β → Except Failure γ}
    (h : RefusesOnly refuses x) (h' : ∀ value, x = .ok value → RefusesOnly refuses (f value)) :
    RefusesOnly refuses (x >>= f) := by
  intro failure hfailure
  rcases bind_eq_error hfailure with hx | ⟨value, hx, hf⟩
  · exact h failure hx
  · exact h' value hx failure hf

@[simp] theorem refusesOnly_bind_iff {x : Except Failure β} {f : β → Except Failure γ} :
    RefusesOnly refuses (x >>= f) ↔
      RefusesOnly refuses x ∧ ∀ value, x = .ok value → RefusesOnly refuses (f value) := by
  constructor
  · intro h
    constructor
    · intro failure hx
      exact h failure (by rw [hx]; rfl)
    · intro value hx failure hf
      exact h failure (by rw [hx]; exact hf)
  · exact fun h => refusesOnly_bind h.1 h.2

@[simp] theorem refusesOnly_map_iff {x : Except Failure β} {f : β → γ} :
    RefusesOnly refuses (f <$> x) ↔ RefusesOnly refuses x := by
  rw [map_eq_pure_bind, refusesOnly_bind_iff]
  exact and_iff_left fun value _ => refusesOnly_pure (f value)

theorem refusesOnly_mapM {f : β → Except Failure γ} {items : List β}
    (h : ∀ item, RefusesOnly refuses (f item)) : RefusesOnly refuses (items.mapM f) := by
  intro failure hfailure
  obtain ⟨item, -, hf⟩ := exists_eq_error_of_mapM hfailure
  exact h item failure hf

end

/-! ## Tables -/

section

variable {α : Type} (t : Table α)

@[simp] theorem refusesOnly_requireColumns (needed : Nat) (context : String) :
    RefusesOnly Ordinary (t.requireColumns needed context) := by
  unfold Buffer.requireColumns
  split
  · exact refusesOnly_error rfl
  · split
    · exact refusesOnly_error rfl
    · exact refusesOnly_ok _

@[simp] theorem refusesOnly_column (j : Nat) : RefusesOnly Ordinary (t.column j) := by
  by_cases hj : j < t.columns
  · obtain ⟨column, hcolumn, -⟩ := t.whole.column_eq_ok hj
    rw [hcolumn]
    exact refusesOnly_ok column
  · rw [Buffer.column, if_neg hj]
    exact refusesOnly_error rfl

variable {t}

theorem requireColumns_eq_ok {needed : Nat} {context : String}
    (h : t.requireColumns needed context = .ok ()) : t.rows ≠ [] ∧ needed ≤ t.columns := by
  unfold Buffer.requireColumns at h
  split at h
  · cases h
  · next hempty =>
    split at h
    · cases h
    · next hcolumns => exact ⟨by simpa [Buffer.isEmpty_eq] using hempty, Nat.le_of_not_lt hcolumns⟩

/-- Every row has a value in every column, so a column is as long as the table. -/
theorem length_column {j : Nat} {column : List α} (h : t.column j = .ok column) :
    column.length = t.rowCount := by
  by_cases hj : j < t.columns
  · obtain ⟨read, hread, hvalues⟩ := t.whole.column_eq_ok hj
    rw [hread] at h
    rw [← Except.ok.inj h, t.whole.rowCount_eq, ← List.length_map some, hvalues, List.length_map]
  · rw [Buffer.column, if_neg hj] at h
    cases h

end

/-! ## Files -/

theorem parse_ordinary {text : String} {fault : Failure} (h : Table.parse text = .error fault) :
    Ordinary fault := by
  obtain ⟨before, line, after, -, -, hfault⟩ := Table.parseWith_eq_error h
  unfold Ordinary Failure.code
  generalize fault.diagnostic = diagnostic at hfault
  cases hfault with
  | badWord =>
    show "INPUT.TABLE_PARSE" ∉ shapeCodes
    decide
  | badWidth =>
    show "INPUT.TABLE_RAGGED" ∉ shapeCodes
    decide

variable (files : Tree) (path : Path)

@[simp] theorem refusesOnly_readSource : RefusesOnly Ordinary (readSource files path) := by
  unfold readSource
  split
  · exact refusesOnly_error rfl
  · split
    · next fault hfault =>
      intro failure hfailure
      rw [← Except.error.inj hfailure]
      exact (parse_ordinary hfault).within path
    · exact refusesOnly_ok _

@[simp] theorem refusesOnly_loadSource (columns : Nat) :
    RefusesOnly Ordinary (loadSource files path columns) := by
  simp [loadSource]

@[simp] theorem refusesOnly_loadTable (columns : Nat) :
    RefusesOnly Ordinary (loadTable files path columns) := by
  simp [loadTable]

@[simp] theorem refusesOnly_matchingNames (pattern : String) :
    RefusesOnly Ordinary (matchingNames files path pattern) := by
  unfold matchingNames
  split
  · exact refusesOnly_error rfl
  · split
    · exact refusesOnly_error rfl
    · exact refusesOnly_ok _

@[simp] theorem refusesOnly_expectKind (request : Request) (kind : Kind) :
    RefusesOnly Ordinary (request.expectKind kind) := by
  unfold Request.expectKind
  split
  · exact refusesOnly_ok _
  · exact refusesOnly_error rfl

variable {files path}

theorem loadSource_eq_ok {columns : Nat} {source : Source}
    (h : loadSource files path columns = .ok source) :
    source.table.rows ≠ [] ∧ columns ≤ source.table.columns := by
  obtain ⟨read, -, h⟩ := bind_eq_ok_iff.mp h
  obtain ⟨_, hcolumns, h⟩ := bind_eq_ok_iff.mp h
  cases h
  exact requireColumns_eq_ok hcolumns

/-- A loaded table has rows and the columns that were asked for. -/
theorem loadTable_eq_ok {columns : Nat} {t : Table Float}
    (h : loadTable files path columns = .ok t) : t.rows ≠ [] ∧ columns ≤ t.columns := by
  obtain ⟨source, hsource, h⟩ := bind_eq_ok_iff.mp h
  cases h
  exact loadSource_eq_ok hsource

/-! ## Methods and names -/

theorem nodup_distinct (methods : List String) : (distinct methods).Nodup := by
  have hstep : ∀ seen : List String, seen.Nodup → (methods.foldl
      (fun seen method => if seen.contains method then seen else seen ++ [method]) seen).Nodup := by
    induction methods with
    | nil => exact fun _ h => h
    | cons method rest ih =>
      intro seen h
      refine ih _ ?_
      dsimp only
      split
      · exact h
      · next hnew =>
        rw [List.nodup_append_comm]
        exact List.nodup_cons.mpr ⟨by simpa using hnew, h⟩
  exact hstep [] List.nodup_nil

/-- In a tree with one node at each place, a directory lists every name once. -/
theorem nodup_names {files : Tree} {path : Path} {names : List String}
    (hfiles : (files.entries.map Prod.fst).Nodup) (h : files.names path = .ok names) :
    names.Nodup := by
  unfold Tree.names at h
  split at h
  · cases h
  · next place _ =>
    split at h
    · cases h
    · cases h
    · cases h
      have hnames : files.entries.filterMap (fun entry =>
          if entry.1.dropLast == place then entry.1.getLast? else none)
            = (files.entries.map Prod.fst).filterMap fun entry =>
              if entry.dropLast == place then entry.getLast? else none := by
        rw [List.filterMap_map]
        rfl
      rw [hnames]
      refine hfiles.filterMap fun first second name hfirst hsecond => ?_
      simp only [Option.mem_def, Option.ite_none_right_eq_some, beq_iff_eq] at hfirst hsecond
      rw [← List.dropLast_append_getLast? name hfirst.2,
        ← List.dropLast_append_getLast? name hsecond.2, hfirst.1, hsecond.1]

theorem nodup_matchingNames {files : Tree} {path : Path} {pattern : String} {names : List String}
    (hfiles : (files.entries.map Prod.fst).Nodup)
    (h : matchingNames files path pattern = .ok names) : names.Nodup := by
  unfold matchingNames at h
  split at h
  · cases h
  · split at h
    · cases h
    · next hnames =>
      cases h
      exact (List.mergeSort_perm _ _).nodup_iff.mpr ((nodup_names hfiles hnames).filter _)

/-! ## Averages over levels -/

section

variable (temperatures energies lnDos : List Float)

@[simp] theorem refusesOnly_checkLevels :
    RefusesOnly Ordinary (Canonical.checkLevels energies lnDos) := by
  unfold Canonical.checkLevels
  split
  · exact refusesOnly_error rfl
  · split
    · exact refusesOnly_error rfl
    · exact refusesOnly_ok _

@[simp] theorem refusesOnly_heatCapacity (offset : Float) :
    RefusesOnly Ordinary (Canonical.heatCapacity temperatures energies lnDos offset) := by
  simp [Canonical.heatCapacity]

@[simp] theorem refusesOnly_properties :
    RefusesOnly Ordinary (Canonical.properties temperatures energies lnDos) := by
  simp [Canonical.properties]

@[simp] theorem refusesOnly_minimumTemperature (threshold : Float) :
    RefusesOnly Ordinary
      (Canonical.minimumTemperature temperatures energies lnDos threshold) := by
  refine refusesOnly_bind (refusesOnly_checkLevels _ _) fun _ hlevels => ?_
  -- the levels have passed their check, so the share of the ground state can be looked up
  obtain ⟨share, hshare⟩ := Canonical.exists_share hlevels
  simp only [Canonical.firstDepleted_eq_find? hshare]
  refine refusesOnly_bind (refusesOnly_ok _) fun found _ => ?_
  cases found with
  | some t => exact refusesOnly_pure t
  | none =>
    dsimp only
    split
    · exact refusesOnly_pure _
    · exact refusesOnly_throw rfl

end

end Report

end FluidAnalysis
