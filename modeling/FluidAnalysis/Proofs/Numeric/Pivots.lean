import Mathlib.LinearAlgebra.Matrix.Determinant.Basic
import Mathlib.LinearAlgebra.Matrix.ToLinearEquiv
import FluidAnalysis.Proofs.Numeric.LinearSystem

/-!
# Pivots and singular matrices

The pivots of an elimination decide whether a matrix is factorised: it is refused at the first pivot
that counts as zero. `pivotSizes` lists the sizes of all pivots, as they are found when no pivot
counts as zero.

Over exact scalars:

* `eliminate_eq_error_iff` — the test, in terms of the sizes
* `prod_pivotSizes` — the product of the sizes is the size of the determinant
* `pivotSizes_scaled` — a factor of the matrix is a factor of every size
* `exists_near_kernel` — a vector that the rows send to no more than a given pivot size

So a singular matrix is always refused. A regular one is refused if its pivots are small, and then a
singular matrix is near. Main statement: `factorize_singular_iff`.
-/

namespace FluidAnalysis.Numeric

open Exact

/-! ## The sizes of the pivots -/

section

variable {α : Type} [Scalar α]

/-- The row that a step closes. -/
def pivotRow (first : OpenRow α) (rest : List (OpenRow α)) : OpenRow α :=
  ((first :: rest)[pivotPosition first rest]?).getD first

/-- The rows that a step clears. -/
def otherRows (first : OpenRow α) (rest : List (OpenRow α)) : List (OpenRow α) :=
  ((first :: rest).set (pivotPosition first rest) first).tail

/-- The rows that are open after a step. -/
def clearedRows (first : OpenRow α) (rest : List (OpenRow α)) : List (OpenRow α) :=
  (otherRows first rest).map (pivotRow first rest).clear

theorem length_clearedRows (first : OpenRow α) (rest : List (OpenRow α)) :
    (clearedRows first rest).length = rest.length := by
  simp [clearedRows, otherRows]

/-- The sizes of the pivots, whether they count as zero or not. -/
def pivotSizes : List (OpenRow α) → List α
  | [] => []
  | first :: rest =>
    Scalar.abs (pivotRow first rest).lead :: pivotSizes (clearedRows first rest)
termination_by rows => rows.length
decreasing_by
  rw [length_clearedRows]
  exact Nat.lt_succ_self _

/-- A pivot of this size counts as zero. -/
def isSmall (size : α) : Bool :=
  decide (size ≤ pivotFloor)

theorem eliminate_cons (column : Nat) (first : OpenRow α) (rest : List (OpenRow α)) :
    eliminate column (first :: rest) =
      if isSmall (Scalar.abs (pivotRow first rest).lead) then .error (.singular column)
      else (eliminate (column + 1) (clearedRows first rest)).map (pivotRow first rest :: ·) := by
  have hpivot : ((first :: rest)[pivotPosition first rest]?).getD first = pivotRow first rest := rfl
  have hcleared : ((first :: rest).set (pivotPosition first rest) first).tail.map
      (pivotRow first rest).clear = clearedRows first rest := rfl
  rw [eliminate]
  simp only [hpivot, hcleared, isSmall, decide_eq_true_eq]
  split_ifs
  · rfl
  · cases eliminate (column + 1) (clearedRows first rest) <;> rfl

theorem map_eq_error_iff {ε β γ : Type} {x : Except ε β} {f : β → γ} {e : ε} :
    x.map f = .error e ↔ x = .error e := by
  cases x <;> simp [Except.map]

/-- **When elimination stops:** at the first pivot that counts as zero. -/
theorem eliminate_eq_error_iff {column : Nat} {rows : List (OpenRow α)} {fault : SystemFault} :
    eliminate column rows = .error fault ↔
      ∃ k, (pivotSizes rows).findIdx? isSmall = some k ∧ fault = .singular (column + k) := by
  induction rows using pivotSizes.induct generalizing column with
  | case1 =>
    rw [eliminate, pivotSizes]
    simp
  | case2 first rest ih =>
    rw [eliminate_cons, pivotSizes, List.findIdx?_cons]
    split_ifs with hsmall
    · simp [eq_comm]
    · rw [map_eq_error_iff, ih]
      constructor
      · rintro ⟨k, hk, rfl⟩
        exact ⟨k + 1, by rw [hk, Option.map_some], by rw [Nat.add_assoc, Nat.add_comm 1]⟩
      · rintro ⟨k, hk, rfl⟩
        obtain ⟨j, hj, rfl⟩ := Option.map_eq_some_iff.mp hk
        exact ⟨j, hj, by rw [Nat.add_assoc, Nat.add_comm 1]⟩

theorem length_pivotSizes (rows : List (OpenRow α)) : (pivotSizes rows).length = rows.length := by
  induction rows using pivotSizes.induct with
  | case1 => rw [pivotSizes, List.length_nil, List.length_nil]
  | case2 first rest ih =>
    rw [pivotSizes, List.length_cons, ih, length_clearedRows, List.length_cons]

end

/-! ## One step over exact scalars -/

section

variable {K : Type} [Field K] [LinearOrder K] [IntegerParts K]

/-- The row that a step closes has the largest leading entry, and no row is lost. -/
theorem pivotRow_spec (first : OpenRow K) (rest : List (OpenRow K)) :
    (pivotRow first rest :: otherRows first rest).Perm (first :: rest) ∧
      ∀ row ∈ first :: rest, |row.lead| ≤ |(pivotRow first rest).lead| := by
  obtain ⟨pivot, hpivot, hlargest⟩ := pivotPosition_spec first rest
  have hrow : pivotRow first rest = pivot := by rw [pivotRow, hpivot, Option.getD_some]
  rw [hrow]
  exact ⟨perm_exchange hpivot, hlargest⟩

theorem pivotSizes_cons (first : OpenRow K) (rest : List (OpenRow K)) :
    pivotSizes (first :: rest) =
      |(pivotRow first rest).lead| :: pivotSizes (clearedRows first rest) := by
  rw [pivotSizes, scalarAbs_eq]

section

variable {n : Nat} {first : OpenRow K} {rest : List (OpenRow K)}
  (hwidth : ∀ row ∈ first :: rest, row.entries.length = n + 1)
include hwidth

theorem length_pivotRow_entries : (pivotRow first rest).entries.length = n + 1 :=
  hwidth _ ((pivotRow_spec first rest).1.subset List.mem_cons_self)

theorem length_entries_of_mem_otherRows {row : OpenRow K} (h : row ∈ otherRows first rest) :
    row.entries.length = (pivotRow first rest).entries.length := by
  rw [length_pivotRow_entries hwidth]
  exact hwidth _ ((pivotRow_spec first rest).1.subset (List.mem_cons_of_mem _ h))

theorem length_entries_of_mem_clearedRows {row : OpenRow K} (h : row ∈ clearedRows first rest) :
    row.entries.length = n := by
  obtain ⟨orig, horig, rfl⟩ := List.mem_map.mp h
  have hlength := length_entries_of_mem_otherRows hwidth horig
  rw [length_clear_entries hlength, hlength, length_pivotRow_entries hwidth, Nat.add_sub_cancel]

end

end

/-! ## Rows over a field -/

section

variable {K : Type} [Field K]

/-- A vector with one more entry in front. -/
def extended (first : K) (rest : Nat → K) : Nat → K
  | 0 => first
  | j + 1 => rest j

/-- A row times a vector. -/
def rowTimes (n : Nat) (row : OpenRow K) (v : Nat → K) : K :=
  ∑ j ∈ Finset.range n, row.entries.getD j 0 * v j

theorem rowTimes_extended (n : Nat) (row : OpenRow K) (first : K) (rest : Nat → K) :
    rowTimes (n + 1) row (extended first rest) =
      ∑ j ∈ Finset.range n, row.entries.getD (j + 1) 0 * rest j + row.entries.getD 0 0 * first :=
  Finset.sum_range_succ' _ n

/-- A vector with an entry in front that makes the pivot row vanish on it. -/
def lifted (n : Nat) (pivot : OpenRow K) (v : Nat → K) : Nat → K :=
  extended (-(∑ j ∈ Finset.range n, pivot.entries.getD (j + 1) 0 * v j) / pivot.entries.getD 0 0) v

theorem rowTimes_lifted_self {n : Nat} {pivot : OpenRow K} (h : pivot.entries.getD 0 0 ≠ 0)
    (v : Nat → K) : rowTimes (n + 1) pivot (lifted n pivot v) = 0 := by
  rw [lifted, rowTimes_extended, mul_div_cancel₀ _ h, add_neg_cancel]

/-- The matrix of the open entries. -/
def openMatrix (n : Nat) (rows : List (OpenRow K)) : Matrix (Fin n) (Fin n) K :=
  Matrix.of fun i j => ((rows.map OpenRow.entries).getD i []).getD j 0

theorem openMatrix_apply {n : Nat} {rows : List (OpenRow K)} {i : Fin n} {row : OpenRow K}
    (h : rows[i.val]? = some row) (j : Fin n) : openMatrix n rows i j = row.entries.getD j 0 := by
  have hrow : (rows.map OpenRow.entries).getD i [] = row.entries := by
    rw [List.getD_eq_getElem?_getD, List.getElem?_map, h, Option.map_some, Option.getD_some]
  rw [openMatrix, Matrix.of_apply, hrow]

/-- A row whose open entries are multiplied by a constant. -/
def OpenRow.scaled (c : K) (row : OpenRow K) : OpenRow K :=
  { row with entries := row.entries.map (c * ·) }

theorem openMatrix_startRows {n : Nat} (A : Matrix (Fin n) (Fin n) K) :
    openMatrix n (startRows A) = A := by
  ext i j
  have hi : (startRows A)[i.val]? = some ⟨i, [], List.ofFn (A i)⟩ := by simp [startRows]
  rw [openMatrix_apply hi, getD_ofFn]

theorem rowTimes_startRow {n : Nat} (A : Matrix (Fin n) (Fin n) K) (i : Fin n) (v : Nat → K) :
    rowTimes n ⟨i, [], List.ofFn (A i)⟩ v = A.mulVec (fun j => v j) i := by
  rw [rowTimes, ← Fin.sum_univ_eq_sum_range fun j => (List.ofFn (A i)).getD j 0 * v j]
  exact Finset.sum_congr rfl fun j _ => by rw [getD_ofFn]

theorem startRows_smul {n : Nat} (A : Matrix (Fin n) (Fin n) K) (c : K) :
    startRows (c • A) = (startRows A).map (OpenRow.scaled c) := by
  rw [startRows, startRows, List.map_ofFn]
  refine congrArg List.ofFn (funext fun i => ?_)
  simp only [Function.comp_apply, OpenRow.scaled, List.map_ofFn]
  rfl

omit [Field K] in
theorem length_startRows {n : Nat} (A : Matrix (Fin n) (Fin n) K) :
    (startRows A).length = n := List.length_ofFn

omit [Field K] in
theorem length_entries_startRows {n : Nat} (A : Matrix (Fin n) (Fin n) K) :
    ∀ row ∈ startRows A, row.entries.length = n := by
  intro row hrow
  obtain ⟨i, rfl⟩ := (List.mem_ofFn' _ _).mp hrow
  exact List.length_ofFn

end

variable {K : Type} [Field K] [LinearOrder K] [IsStrictOrderedRing K] [IntegerParts K]

theorem pivotSizes_nonneg {rows : List (OpenRow K)} {size : K} (h : size ∈ pivotSizes rows) :
    0 ≤ size := by
  induction rows using pivotSizes.induct with
  | case1 =>
    rw [pivotSizes] at h
    exact absurd h List.not_mem_nil
  | case2 first rest ih =>
    rw [pivotSizes_cons] at h
    rcases List.mem_cons.mp h with rfl | hrest
    · exact abs_nonneg _
    · exact ih hrest

/-- A row does to the lifted vector what it does, cleared, to the vector. -/
theorem rowTimes_lifted {n : Nat} {pivot row : OpenRow K} (hlead : pivot.lead ≠ 0)
    (hlen : row.entries.length = pivot.entries.length) (v : Nat → K) :
    rowTimes (n + 1) row (lifted n pivot v) = rowTimes n (pivot.clear row) v := by
  rw [lifted, rowTimes_extended, rowTimes]
  simp only [clear_entries_getD hlen, sub_mul, Finset.sum_sub_distrib, mul_assoc, ← Finset.mul_sum]
  rw [← lead_eq_getD, ← lead_eq_getD]
  field_simp
  ring

/-- **A vector that the rows nearly vanish on.** If no pivot before it is zero, a pivot of some size
comes with a vector whose entry there is one, and which every row sends to no more than that
size. -/
theorem exists_near_kernel {n k : Nat} {rows : List (OpenRow K)} {size : K} (hn : rows.length = n)
    (hwidth : ∀ row ∈ rows, row.entries.length = n) (hsize : (pivotSizes rows)[k]? = some size)
    (hbefore : ∀ j < k, (pivotSizes rows)[j]? ≠ some 0) :
    ∃ v : Nat → K, v k = 1 ∧ ∀ row ∈ rows, |rowTimes n row v| ≤ size := by
  induction n generalizing rows k with
  | zero =>
    rw [List.length_eq_zero_iff.mp hn, pivotSizes] at hsize
    simp at hsize
  | succ n ih =>
    obtain ⟨first, rest, rfl⟩ := List.exists_cons_of_length_eq_add_one hn
    obtain ⟨hperm, hlargest⟩ := pivotRow_spec first rest
    have hnonneg := pivotSizes_nonneg (List.mem_of_getElem? hsize)
    rw [pivotSizes_cons] at hsize hbefore
    cases k with
    | zero =>
      -- no row has a larger leading entry
      obtain rfl : |(pivotRow first rest).lead| = size := by simpa using hsize
      refine ⟨extended 1 fun _ => 0, rfl, fun row hrow => ?_⟩
      rw [rowTimes_extended, ← lead_eq_getD]
      simpa using hlargest row hrow
    | succ k =>
      have hlead : (pivotRow first rest).lead ≠ 0 := by
        intro hzero
        apply hbefore 0 (Nat.succ_pos k)
        simp [hzero]
      obtain ⟨v, hv, hrows⟩ := ih (by rw [length_clearedRows]; exact Nat.succ.inj hn)
        (fun row hrow => length_entries_of_mem_clearedRows hwidth hrow) hsize
        (fun j hj => hbefore (j + 1) (Nat.succ_lt_succ hj))
      refine ⟨lifted n (pivotRow first rest) v, hv, fun row hrow => ?_⟩
      rcases List.mem_cons.mp (hperm.symm.subset hrow) with rfl | hother
      · rw [rowTimes_lifted_self (by rwa [← lead_eq_getD]), abs_zero]
        exact hnonneg
      · rw [rowTimes_lifted hlead (length_entries_of_mem_otherRows hwidth hother)]
        exact hrows _ (List.mem_map_of_mem hother)

/-! ## The determinant -/

/-- The exchange that brings the pivot to the front, position by position. -/
theorem getElem?_exchange {β : Type} {first pivot : β} {rest : List β} {position : Nat}
    (h : (first :: rest)[position]? = some pivot) (i : Nat) :
    (pivot :: ((first :: rest).set position first).tail)[i]? =
      (first :: rest)[if i = 0 then position else if i = position then 0 else i]? := by
  cases i with
  | zero => rw [if_pos rfl, h, List.getElem?_cons_zero]
  | succ i =>
    rw [List.getElem?_cons_succ, List.getElem?_tail, List.getElem?_set, if_neg (Nat.succ_ne_zero i)]
    by_cases hi : i + 1 = position
    · rw [if_pos hi.symm, if_pos hi, if_pos (hi ▸ (List.getElem?_eq_some_iff.mp h).1),
        List.getElem?_cons_zero]
    · rw [if_neg (Ne.symm hi), if_neg hi]

omit [IsStrictOrderedRing K] in
theorem openMatrix_exchange {n : Nat} (first : OpenRow K) {rest : List (OpenRow K)}
    (hn : rest.length = n) :
    ∃ position : Fin (n + 1), openMatrix (n + 1) (pivotRow first rest :: otherRows first rest) =
      (openMatrix (n + 1) (first :: rest)).submatrix (Equiv.swap 0 position) id := by
  obtain ⟨pivot, hpivot, -⟩ := pivotPosition_spec first rest
  have hlt : pivotPosition first rest < n + 1 := by
    rw [← hn]
    exact (List.getElem?_eq_some_iff.mp hpivot).1
  have hrow : pivotRow first rest = pivot := by rw [pivotRow, hpivot, Option.getD_some]
  refine ⟨⟨pivotPosition first rest, hlt⟩, ?_⟩
  ext i j
  have hswap : (Equiv.swap 0 (⟨pivotPosition first rest, hlt⟩ : Fin (n + 1)) i).val =
      if i.val = 0 then pivotPosition first rest
      else if i.val = pivotPosition first rest then 0 else i.val := by
    rw [Equiv.swap_apply_def, apply_ite Fin.val, apply_ite Fin.val]
    simp only [Fin.ext_iff, Fin.val_zero]
  have hget : ((pivotRow first rest :: otherRows first rest).map OpenRow.entries).getD i [] =
      ((first :: rest).map OpenRow.entries).getD
        (Equiv.swap 0 (⟨pivotPosition first rest, hlt⟩ : Fin (n + 1)) i) [] := by
    rw [List.getD_eq_getElem?_getD, List.getD_eq_getElem?_getD, List.getElem?_map,
      List.getElem?_map, hrow, otherRows, getElem?_exchange hpivot, hswap]
  rw [Matrix.submatrix_apply, openMatrix, openMatrix, Matrix.of_apply, Matrix.of_apply, hget, id]

/-- Clearing the first column leaves the pivot as a factor. -/
theorem det_openMatrix_cons {n : Nat} {pivot : OpenRow K} {others : List (OpenRow K)}
    (hn : others.length = n) (hlead : pivot.lead ≠ 0)
    (hlen : ∀ row ∈ others, row.entries.length = pivot.entries.length) :
    (openMatrix (n + 1) (pivot :: others)).det =
      pivot.lead * (openMatrix n (others.map pivot.clear)).det := by
  have hrows : ∀ i : Fin n, ∃ row, others[i.val]? = some row := fun i =>
    ⟨_, List.getElem?_eq_getElem (hn ▸ i.isLt)⟩
  choose row hrow using hrows
  let reduced : Matrix (Fin (n + 1)) (Fin (n + 1)) K :=
    Matrix.of (Fin.cons (fun j => pivot.entries.getD j 0) fun i j =>
      (row i).entries.getD j 0 - (row i).lead / pivot.lead * pivot.entries.getD j 0)
  have hdet : (openMatrix (n + 1) (pivot :: others)).det = reduced.det := by
    refine Matrix.det_eq_of_forall_row_eq_smul_add_const
      (Fin.cons 0 fun i => (row i).lead / pivot.lead) 0 rfl fun i j => ?_
    refine Fin.cases ?_ (fun i => ?_) i
    · have hfirst : (pivot :: others)[(0 : Fin (n + 1)).val]? = some pivot := rfl
      rw [openMatrix_apply hfirst]
      simp [reduced]
    · have hnext : (pivot :: others)[i.succ.val]? = some (row i) := hrow i
      rw [openMatrix_apply hnext]
      simp [reduced]
  have hcolumn : ∀ i : Fin n, reduced i.succ 0 = 0 := by
    intro i
    show (row i).entries.getD 0 0 - (row i).lead / pivot.lead * pivot.entries.getD 0 0 = 0
    rw [← lead_eq_getD, ← lead_eq_getD, div_mul_cancel₀ _ hlead, sub_self]
  have hminor : reduced.submatrix (Fin.succAbove 0) Fin.succ =
      openMatrix n (others.map pivot.clear) := by
    ext i j
    have hclear : (others.map pivot.clear)[i.val]? = some (pivot.clear (row i)) := by
      rw [List.getElem?_map, hrow i, Option.map_some]
    rw [openMatrix_apply hclear, clear_entries_getD (hlen _ (List.mem_of_getElem? (hrow i)))]
    simp [reduced]
  have hcorner : reduced 0 0 = pivot.lead := (lead_eq_getD pivot).symm
  rw [hdet, Matrix.det_succ_column_zero, Fin.sum_univ_succ, hminor, hcorner]
  simp [hcolumn]

/-- **The product of the pivots is the determinant,** up to its sign. -/
theorem prod_pivotSizes {n : Nat} {rows : List (OpenRow K)} (hn : rows.length = n)
    (hwidth : ∀ row ∈ rows, row.entries.length = n) :
    (pivotSizes rows).prod = |(openMatrix n rows).det| := by
  induction n generalizing rows with
  | zero =>
    rw [List.length_eq_zero_iff.mp hn, pivotSizes, List.prod_nil, Matrix.det_isEmpty, abs_one]
  | succ n ih =>
    obtain ⟨first, rest, rfl⟩ := List.exists_cons_of_length_eq_add_one hn
    have hrest : rest.length = n := Nat.succ.inj hn
    obtain ⟨hperm, hlargest⟩ := pivotRow_spec first rest
    rw [pivotSizes_cons, List.prod_cons, ih (by rw [length_clearedRows, hrest])
      fun row hrow => length_entries_of_mem_clearedRows hwidth hrow]
    by_cases hlead : (pivotRow first rest).lead = 0
    · -- the whole column vanishes
      rw [hlead, abs_zero, zero_mul, Matrix.det_eq_zero_of_column_eq_zero 0, abs_zero]
      intro i
      have hi : (first :: rest)[i.val]? = some (first :: rest)[i.val] := List.getElem?_eq_getElem _
      have hrow := hlargest _ (List.mem_of_getElem? hi)
      rw [hlead, abs_zero, abs_nonpos_iff] at hrow
      rw [openMatrix_apply hi, Fin.val_zero, ← lead_eq_getD, hrow]
    · obtain ⟨position, hexchange⟩ := openMatrix_exchange first hrest
      rw [← abs_mul, clearedRows, ← det_openMatrix_cons _ hlead, hexchange]
      · exact Matrix.abs_det_submatrix_equiv_equiv (Equiv.swap 0 position) (Equiv.refl _) _
      · exact fun row hrow => length_entries_of_mem_otherRows hwidth hrow
      · rw [← hrest, otherRows]
        simp

/-! ## Scaled rows -/

theorem lead_scaled (c : K) (row : OpenRow K) : (row.scaled c).lead = c * row.lead := by
  rw [lead_eq_getD, lead_eq_getD, OpenRow.scaled]
  cases row.entries with
  | nil => simp
  | cons x rest => simp

/-- A constant factor does not change the multiples that clear the rows. -/
theorem clear_scaled {c : K} (hc : c ≠ 0) (pivot row : OpenRow K) :
    (pivot.scaled c).clear (row.scaled c) = (pivot.clear row).scaled c := by
  have hentries : ∀ (f : K) (xs ps : List K),
      ((xs.map (c * ·)).zip (ps.map (c * ·))).map (fun pair => pair.1 - f * pair.2) =
        ((xs.zip ps).map fun pair => pair.1 - f * pair.2).map (c * ·) := by
    intro f xs ps
    rw [List.zip_map, List.map_map, List.map_map]
    refine List.map_congr_left fun pair _ => ?_
    simp only [Function.comp_apply, Prod.map_fst, Prod.map_snd]
    ring
  rw [OpenRow.clear, lead_scaled, lead_scaled, mul_div_mul_left _ _ hc]
  simp only [OpenRow.scaled, OpenRow.clear, ← List.map_tail]
  exact congrArg (OpenRow.mk _ _) (hentries _ _ _)

theorem pivotAmong_scaled {c : K} (hc : c ≠ 0) (rows : List (OpenRow K)) (position : Nat) (size : K)
    (next : Nat) :
    pivotAmong (position, |c| * size) next (rows.map (OpenRow.scaled c)) =
      pivotAmong (position, size) next rows := by
  induction rows generalizing position size next with
  | nil => rfl
  | cons row rest ih =>
    have hsize : |c| * size ≤ |c| * |row.lead| ↔ size ≤ |row.lead| :=
      mul_le_mul_iff_right₀ (abs_pos.mpr hc)
    simp only [List.map_cons, pivotAmong, lead_scaled, scalarAbs_eq, abs_mul, scalarTotalLe_iff,
      hsize, ih]

section

variable {c : K} (hc : c ≠ 0)
include hc

theorem pivotPosition_scaled (first : OpenRow K) (rest : List (OpenRow K)) :
    pivotPosition (first.scaled c) (rest.map (OpenRow.scaled c)) = pivotPosition first rest := by
  rw [pivotPosition, pivotPosition, lead_scaled, scalarAbs_eq, abs_mul]
  exact pivotAmong_scaled hc rest 0 |first.lead| 1

theorem pivotRow_scaled (first : OpenRow K) (rest : List (OpenRow K)) :
    pivotRow (first.scaled c) (rest.map (OpenRow.scaled c)) = (pivotRow first rest).scaled c := by
  rw [pivotRow, pivotPosition_scaled hc, ← List.map_cons, List.getElem?_map, Option.getD_map,
    pivotRow]

theorem clearedRows_scaled (first : OpenRow K) (rest : List (OpenRow K)) :
    clearedRows (first.scaled c) (rest.map (OpenRow.scaled c)) =
      (clearedRows first rest).map (OpenRow.scaled c) := by
  rw [clearedRows, clearedRows, pivotRow_scaled hc, otherRows, otherRows, pivotPosition_scaled hc,
    ← List.map_cons, ← List.map_set, ← List.map_tail, List.map_map, List.map_map]
  exact List.map_congr_left fun row _ => clear_scaled hc _ row

/-- **A constant factor of the rows is a factor of every pivot.** -/
theorem pivotSizes_scaled (rows : List (OpenRow K)) :
    pivotSizes (rows.map (OpenRow.scaled c)) = (pivotSizes rows).map (|c| * ·) := by
  induction rows using pivotSizes.induct with
  | case1 => rw [List.map_nil, pivotSizes, List.map_nil]
  | case2 first rest ih =>
    rw [List.map_cons, pivotSizes_cons, pivotSizes_cons, pivotRow_scaled hc, clearedRows_scaled hc,
      ih, lead_scaled, abs_mul, List.map_cons]

end

/-! ## The test of a factorisation -/

section

variable {n : Nat} (A : Matrix (Fin n) (Fin n) K)

theorem prod_pivotSizes_startRows : (pivotSizes (startRows A)).prod = |A.det| := by
  rw [prod_pivotSizes (length_startRows A) (length_entries_startRows A), openMatrix_startRows]

variable {A} (hn : 0 < n)
include hn

omit [IsStrictOrderedRing K] in
/-- A square matrix is refused at the first pivot that counts as zero, and for no other reason. -/
theorem factorize_eq_error_iff {fault : SystemFault} :
    factorize (.ofMatrix A) = .error fault ↔
      ∃ column, (pivotSizes (startRows A)).findIdx? isSmall = some column ∧
        fault = .singular column := by
  have heliminate : factorize (.ofMatrix A) = .error fault ↔
      eliminate 0 (startRows A) = .error fault := by
    unfold factorize
    rw [startRows_eq, if_neg (by simp [DenseMatrix.ofMatrix, hn.ne']),
      if_neg (by simp [DenseMatrix.ofMatrix])]
    cases eliminate 0 (startRows A) <;> simp
  rw [heliminate, eliminate_eq_error_iff]
  simp only [Nat.zero_add]

omit [IsStrictOrderedRing K] in
theorem factorize_accepts_iff :
    (∃ t, factorize (.ofMatrix A) = .ok t) ↔
      ∀ size ∈ pivotSizes (startRows A), pivotFloor < size := by
  have hnone : (pivotSizes (startRows A)).findIdx? isSmall = none ↔
      ∀ size ∈ pivotSizes (startRows A), pivotFloor < size := by
    rw [List.findIdx?_eq_none_iff]
    simp only [isSmall, decide_eq_false_iff_not, not_le]
  rw [← hnone]
  cases hresult : factorize (.ofMatrix A) with
  | ok t =>
    refine ⟨fun _ => ?_, fun _ => ⟨t, rfl⟩⟩
    rw [Option.eq_none_iff_forall_ne_some]
    intro column hcolumn
    have herror := (factorize_eq_error_iff hn).mpr ⟨column, hcolumn, rfl⟩
    rw [hresult] at herror
    cases herror
  | error fault =>
    obtain ⟨column, hcolumn, -⟩ := (factorize_eq_error_iff hn).mp hresult
    rw [hcolumn]
    simp

/-- A singular matrix is refused, because the product of its pivots is zero. -/
theorem factorize_singular_of_det_eq_zero (hdet : A.det = 0) :
    ∃ column, factorize (.ofMatrix A) = .error (.singular column) := by
  cases hresult : factorize (.ofMatrix A) with
  | ok t =>
    have hsizes := (factorize_accepts_iff hn).mp ⟨t, hresult⟩
    have hprod := prod_pivotSizes_startRows A
    rw [hdet, abs_zero, List.prod_eq_zero_iff] at hprod
    exact absurd (hsizes 0 hprod) (not_lt.mpr pivotFloor_pos.le)
  | error fault =>
    obtain ⟨column, -, rfl⟩ := (factorize_eq_error_iff hn).mp hresult
    exact ⟨column, rfl⟩

/-- A regular matrix has a smallest pivot, and with it the scale from which on it is accepted. -/
theorem exists_scale (hdet : A.det ≠ 0) :
    ∃ smallest ∈ pivotSizes (startRows A), 0 < smallest ∧
      (∀ size ∈ pivotSizes (startRows A), smallest ≤ size) ∧
      ∀ c : K, (∃ t, factorize (.ofMatrix (c • A)) = .ok t) ↔ pivotFloor / smallest < |c| := by
  have hne : (pivotSizes (startRows A)).toFinset.Nonempty := by
    rw [List.toFinset_nonempty_iff, ← List.length_pos_iff, length_pivotSizes, length_startRows]
    exact hn
  obtain ⟨smallest, hmem, hle⟩ := Finset.exists_min_image _ id hne
  simp only [List.mem_toFinset, id] at hmem hle
  have hpos : 0 < smallest := by
    refine lt_of_le_of_ne (pivotSizes_nonneg hmem) fun hzero => hdet ?_
    rw [← abs_eq_zero, ← prod_pivotSizes_startRows]
    exact List.prod_eq_zero (hzero ▸ hmem)
  refine ⟨smallest, hmem, hpos, hle, fun c => ?_⟩
  rw [div_lt_iff₀ hpos]
  rcases eq_or_ne c 0 with rfl | hc
  · -- the zero matrix is singular
    have hzero : ((0 : K) • A).det = 0 := by
      rw [Matrix.det_smul, Fintype.card_fin, zero_pow hn.ne', zero_mul]
    obtain ⟨column, hcolumn⟩ := factorize_singular_of_det_eq_zero hn hzero
    rw [hcolumn, abs_zero, zero_mul]
    simp [pivotFloor_pos.le]
  · rw [factorize_accepts_iff hn, startRows_smul, pivotSizes_scaled hc]
    constructor
    · exact fun h => h _ (List.mem_map_of_mem hmem)
    · intro h size hsize
      obtain ⟨unscaled, hunscaled, rfl⟩ := List.mem_map.mp hsize
      exact h.trans_le (mul_le_mul_of_nonneg_left (hle unscaled hunscaled) (abs_nonneg c))

/-- A matrix that is refused is near a singular one. -/
theorem exists_singular_near {column : Nat}
    (h : factorize (.ofMatrix A) = .error (.singular column)) :
    ∃ B : Matrix (Fin n) (Fin n) K, B.det = 0 ∧
      ∀ i j, (j.val ≠ column → B i j = A i j) ∧ |A i j - B i j| ≤ pivotFloor := by
  obtain ⟨position, hfirst, heq⟩ := (factorize_eq_error_iff hn).mp h
  obtain rfl := SystemFault.singular.inj heq
  obtain ⟨hlt, hsmall, hbefore⟩ := List.findIdx?_eq_some_iff_getElem.mp hfirst
  have hcolumn : column < n := by rwa [length_pivotSizes, length_startRows] at hlt
  obtain ⟨v, hv, hrows⟩ := exists_near_kernel (length_startRows A) (length_entries_startRows A)
    (List.getElem?_eq_getElem hlt) (by
      intro j hj hzero
      apply hbefore j hj
      rw [(List.getElem?_eq_some_iff.mp hzero).2, isSmall, decide_eq_true_iff]
      exact pivotFloor_pos.le)
  have hbound : ∀ i, |A.mulVec (fun j => v j) i| ≤ pivotFloor := by
    intro i
    rw [← rowTimes_startRow]
    exact (hrows _ ((List.mem_ofFn' _ _).mpr ⟨i, rfl⟩)).trans (of_decide_eq_true hsmall)
  -- what the rows do to the vector is taken away in the one column where the vector is one
  let u : Fin n → K := fun j => v j
  have hu : u ⟨column, hcolumn⟩ = 1 := hv
  refine ⟨A - Matrix.vecMulVec (A.mulVec u) (Pi.single ⟨column, hcolumn⟩ 1), ?_, fun i j => ?_⟩
  · refine Matrix.exists_mulVec_eq_zero_iff.mp ⟨u, fun hzero => ?_, ?_⟩
    · rw [hzero] at hu
      exact zero_ne_one hu
    · rw [Matrix.sub_mulVec, Matrix.vecMulVec_mulVec, single_one_dotProduct, hu, MulOpposite.op_one,
        one_smul, sub_self]
  · rw [Matrix.sub_apply, Matrix.vecMulVec_apply, sub_sub_cancel]
    by_cases hj : j = ⟨column, hcolumn⟩
    · subst hj
      rw [Pi.single_eq_same, mul_one]
      exact ⟨fun hne => absurd rfl hne, hbound i⟩
    · rw [Pi.single_eq_of_ne hj, mul_zero, sub_zero, abs_zero]
      exact ⟨fun _ => rfl, pivotFloor_pos.le⟩

end

/-- **Which square matrices are refused.** A matrix is refused at its first pivot that counts as
zero, and for no other reason. The product of the pivots is the determinant, up to its sign. So a
singular matrix is refused. A regular one is accepted from some scale on, and where it is refused, a
singular matrix differs from it in one column only, and there by no more than what counts as
zero. -/
theorem factorize_singular_iff {n : Nat} (hn : 0 < n) (A : Matrix (Fin n) (Fin n) K) :
    (∀ fault, factorize (.ofMatrix A) = .error fault ↔
      ∃ column, (pivotSizes (startRows A)).findIdx? isSmall = some column ∧
        fault = .singular column) ∧
    (pivotSizes (startRows A)).prod = |A.det| ∧
    (A.det = 0 → ∃ column, factorize (.ofMatrix A) = .error (.singular column)) ∧
    (A.det ≠ 0 → ∃ smallest ∈ pivotSizes (startRows A), 0 < smallest ∧
      (∀ size ∈ pivotSizes (startRows A), smallest ≤ size) ∧
      ∀ c : K, (∃ t, factorize (.ofMatrix (c • A)) = .ok t) ↔ pivotFloor / smallest < |c|) ∧
    ∀ column, factorize (.ofMatrix A) = .error (.singular column) →
      ∃ B : Matrix (Fin n) (Fin n) K, B.det = 0 ∧
        ∀ i j, (j.val ≠ column → B i j = A i j) ∧ |A i j - B i j| ≤ pivotFloor :=
  ⟨fun _ => factorize_eq_error_iff hn, prod_pivotSizes_startRows A,
    factorize_singular_of_det_eq_zero hn, exists_scale hn, fun _ => exists_singular_near hn⟩

/-- A small multiple of the unit matrix. -/
def tinyMatrix : Matrix (Fin 2) (Fin 2) ℚ :=
  !![1 / 2 ^ 50, 0; 0, 1 / 2 ^ 50]

theorem det_tinyMatrix : tinyMatrix.det ≠ 0 := by
  norm_num [tinyMatrix, Matrix.det_fin_two_of]

theorem findIdx?_tinyMatrix :
    (pivotSizes (startRows tinyMatrix)).findIdx? isSmall = some 0 := by
  decide +kernel

theorem tinyMatrix_near_singular :
    (∃ smallest : ℚ, 0 < smallest ∧
      ∀ c : ℚ, (∃ t, factorize (.ofMatrix (c • tinyMatrix)) = .ok t) ↔
        pivotFloor / smallest < |c|) ∧
    ∃ column, factorize (.ofMatrix tinyMatrix) = .error (.singular column) ∧
      ∃ B : Matrix (Fin 2) (Fin 2) ℚ, B.det = 0 ∧
        ∀ i j, (j.val ≠ column → B i j = tinyMatrix i j) ∧
          |tinyMatrix i j - B i j| ≤ pivotFloor := by
  obtain ⟨htest, -, -, hregular, hnear⟩ := factorize_singular_iff (by decide : 0 < 2) tinyMatrix
  obtain ⟨smallest, -, hpos, -, hscale⟩ := hregular det_tinyMatrix
  have hrefused := (htest _).mpr ⟨0, findIdx?_tinyMatrix, rfl⟩
  exact ⟨⟨smallest, hpos, hscale⟩, 0, hrefused, hnear 0 hrefused⟩

/-- A regular matrix may be refused, and its double accepted. -/
theorem tinyMatrix_refused :
    tinyMatrix.det ≠ 0 ∧ factorize (.ofMatrix tinyMatrix) = .error (.singular 0) ∧
      ∃ t, factorize (.ofMatrix ((2 : ℚ) • tinyMatrix)) = .ok t := by
  have hdouble :
      (pivotSizes (startRows ((2 : ℚ) • tinyMatrix))).all (fun size => !isSmall size) = true := by
    decide +kernel
  refine ⟨det_tinyMatrix, ?_, ?_⟩
  · exact (factorize_eq_error_iff (by decide)).mpr ⟨0, findIdx?_tinyMatrix, rfl⟩
  · rw [factorize_accepts_iff (by decide)]
    simpa [isSmall] using hdouble

end FluidAnalysis.Numeric
