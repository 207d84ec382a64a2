import Mathlib.Data.Fintype.EquivFin
import Mathlib.Data.Rat.Floor
import Mathlib.LinearAlgebra.Matrix.Notation
import FluidAnalysis.Proofs.Numeric.Elimination

/-!
# Factorised systems are solved

Read over exact scalars, the two triangles of a factorised matrix multiply back to its rows in the
order of the factorisation, and solving by the two triangles gives the exact solution.

* `factorize_row` — a row of the matrix from a row of the lower triangle
* `forward_spec`, `backward_spec` — what solving a triangle gives, one equation for each row
* `Triangles.solve_eq_ok`, `solve_ofMatrix` — the two together, and the system that they solve

Main statement: `factorize_solve_correct`.
-/

namespace FluidAnalysis.Numeric

open Exact

/-! ## Triangles as matrices -/

/-- A square matrix as its rows. -/
def DenseMatrix.ofMatrix {K : Type} {n : Nat} (A : Matrix (Fin n) (Fin n) K) : DenseMatrix K :=
  ⟨n, n, List.ofFn fun i => List.ofFn (A i)⟩

theorem getD_ofFn {β : Type} {n : Nat} (u : Fin n → β) (i : Fin n) (x : β) :
    (List.ofFn u).getD i x = u i := by
  rw [List.getD_eq_getElem _ _ (i.isLt.trans_eq List.length_ofFn.symm), List.getElem_ofFn]

namespace Triangles

section

variable {K : Type} [Zero K]

/-- An entry of the packed matrix. -/
def entry (t : Triangles K) (i j : Nat) : K :=
  (t.packed.getD i []).getD j 0

/-- An entry of the lower triangle, with its unit diagonal. -/
def lowerEntry [One K] (t : Triangles K) (i j : Nat) : K :=
  if j < i then t.entry i j else if j = i then 1 else 0

def upperEntry (t : Triangles K) (i j : Nat) : K :=
  if i ≤ j then t.entry i j else 0

def lower [One K] (t : Triangles K) (n : Nat) : Matrix (Fin n) (Fin n) K :=
  Matrix.of fun i j => t.lowerEntry i j

def upper (t : Triangles K) (n : Nat) : Matrix (Fin n) (Fin n) K :=
  Matrix.of fun i j => t.upperEntry i j

end

variable {K : Type} [Field K]

/-- A row of a matrix times a vector, over the positions as numbers. -/
theorem mulVec_apply_range {n : Nat} (f : Nat → Nat → K) (g : Nat → K) (i : Fin n) :
    (Matrix.of fun i j : Fin n => f i j).mulVec (fun k => g k) i
      = ∑ k ∈ Finset.range n, f i k * g k :=
  Fin.sum_univ_eq_sum_range (fun k => f i k * g k) n

/-- The equations of a triangle, one for each row. -/
theorem zip_packed_getElem? {t : Triangles K} {n : Nat} {values : List K}
    (hpacked : t.packed.length = n) (hvalues : values.length = n) {i : Nat} (hi : i < n) :
    (t.packed.zip values)[i]? = some (t.packed.getD i [], values.getD i 0) := by
  have hp : i < t.packed.length := hpacked ▸ hi
  have hv : i < values.length := hvalues ▸ hi
  rw [List.getElem?_zip_eq_some, List.getD_eq_getElem _ _ hp, List.getD_eq_getElem _ _ hv]
  exact ⟨List.getElem?_eq_getElem hp, List.getElem?_eq_getElem hv⟩

/-- The part of a row of the lower triangle behind the diagonal does not count. -/
theorem sum_lowerEntry_mul (t : Triangles K) (g : Nat → K) {i n : Nat} (hi : i < n) :
    ∑ k ∈ Finset.range n, t.lowerEntry i k * g k
      = ∑ k ∈ Finset.range i, t.entry i k * g k + g i := by
  have hzero : ∀ k ∈ Finset.range n, k ∉ Finset.range (i + 1) → t.lowerEntry i k * g k = 0 := by
    intro k _ hk
    rw [Finset.mem_range] at hk
    rw [lowerEntry, if_neg (by omega), if_neg (by omega), zero_mul]
  rw [← Finset.sum_subset (Finset.range_subset_range.mpr hi) hzero, Finset.sum_range_succ]
  congr 1
  · refine Finset.sum_congr rfl fun k hk => ?_
    rw [lowerEntry, if_pos (Finset.mem_range.mp hk)]
  · rw [lowerEntry, if_neg (by omega), if_pos rfl, one_mul]

/-- The part of a row of the upper triangle before the diagonal does not count. -/
theorem sum_upperEntry_mul (t : Triangles K) (g : Nat → K) {i n : Nat} (hi : i < n) :
    ∑ k ∈ Finset.range n, t.upperEntry i k * g k
      = t.entry i i * g i
        + ∑ k ∈ Finset.range (n - (i + 1)), t.entry i (i + 1 + k) * g (i + 1 + k) := by
  obtain ⟨m, rfl⟩ := Nat.exists_eq_add_of_le hi
  have hbefore : ∑ k ∈ Finset.range i, t.upperEntry i k * g k = 0 := by
    refine Finset.sum_eq_zero fun k hk => ?_
    rw [upperEntry, if_neg (by rw [Finset.mem_range] at hk; omega), zero_mul]
  rw [Finset.sum_range_add, Finset.sum_range_succ, hbefore, zero_add, Nat.add_sub_cancel_left]
  congr 1
  · rw [upperEntry, if_pos (le_refl i)]
  · refine Finset.sum_congr rfl fun k _ => ?_
    rw [upperEntry, if_pos (by omega)]

end Triangles

/-! ## Factorisation -/

section

variable {K : Type}

/-- The rows that a factorisation starts from. -/
def startRows {n : Nat} (A : Matrix (Fin n) (Fin n) K) : List (OpenRow K) :=
  List.ofFn fun i => ⟨i, [], List.ofFn (A i)⟩

theorem startRows_eq {n : Nat} (A : Matrix (Fin n) (Fin n) K) :
    (DenseMatrix.ofMatrix A).rows.zipIdx.map (fun (entries, i) => (⟨i, [], entries⟩ : OpenRow K))
      = startRows A := by
  refine List.ext_getElem (by simp [DenseMatrix.ofMatrix, startRows]) fun i hi hi' => ?_
  simp [DenseMatrix.ofMatrix, startRows]

theorem source_startRows {n : Nat} (A : Matrix (Fin n) (Fin n) K) :
    (startRows A).map OpenRow.source = List.range n := by
  refine List.ext_getElem (by simp [startRows]) fun i hi hi' => ?_
  simp [startRows]

end

section

variable {K : Type} [Zero K] {closed : List (OpenRow K)} {i : Nat} {last : OpenRow K}

/-- The triangles of closed rows. -/
def Triangles.ofRows (closed : List (OpenRow K)) : Triangles K :=
  ⟨closed.map OpenRow.packed, closed.map OpenRow.source⟩

omit [Zero K] in
theorem packed_getD_ofRows (h : closed[i]? = some last) :
    (Triangles.ofRows closed).packed.getD i [] = last.factors ++ last.entries := by
  simp [Triangles.ofRows, List.getD_eq_getElem?_getD, h, OpenRow.packed]

theorem entry_ofRows_of_lt (h : closed[i]? = some last) (hcount : last.factors.length = i) {k : Nat}
    (hk : k < i) : (Triangles.ofRows closed).entry i k = last.factors.getD k 0 := by
  rw [Triangles.entry, packed_getD_ofRows h, List.getD_append _ _ _ _ (hcount ▸ hk)]

theorem entry_ofRows_self (h : closed[i]? = some last) (hcount : last.factors.length = i) :
    (Triangles.ofRows closed).entry i i = last.entries.getD 0 0 := by
  rw [Triangles.entry, packed_getD_ofRows h, List.getD_append_right _ _ _ _ (le_of_eq hcount),
    hcount, Nat.sub_self]

theorem upperEntry_ofRows (h : closed[i]? = some last) (hcount : last.factors.length = i) (j : Nat) :
    (Triangles.ofRows closed).upperEntry i j = stairEntry (closed.map OpenRow.entries) i j := by
  have hrow : (closed.map OpenRow.entries).getD i [] = last.entries := by
    simp [List.getD_eq_getElem?_getD, h]
  unfold Triangles.upperEntry stairEntry
  split
  · next hij =>
    rw [Triangles.entry, packed_getD_ofRows h, hrow,
      List.getD_append_right _ _ _ _ (hcount ▸ hij), hcount]
  · rfl

end

variable {K : Type} [Field K] [LinearOrder K] [IsStrictOrderedRing K] [IntegerParts K]

/-- What a factorisation says of row `i`: it comes from row `source` of the matrix, which is the
product of the lower row with the upper triangle. -/
structure FactorisedRow {n : Nat} (A : Matrix (Fin n) (Fin n) K) (t : Triangles K) (i : Nat)
    (source : Fin n) : Prop where
  order : t.rowOrder[i]? = some source.val
  width : (t.packed.getD i []).length = n
  bounded : ∀ k < i, |t.entry i k| ≤ 1
  pivot : pivotFloor < |t.entry i i|
  product : ∀ j : Fin n, A source j =
    ∑ k ∈ Finset.range i, t.entry i k * t.upperEntry k j + t.upperEntry i j

omit [IsStrictOrderedRing K] in
theorem factorize_eq_ok {n : Nat} {A : Matrix (Fin n) (Fin n) K} {t : Triangles K}
    (h : factorize (.ofMatrix A) = .ok t) :
    ∃ closed, eliminate 0 (startRows A) = .ok closed ∧
      t = .ofRows closed := by
  unfold factorize at h
  rw [startRows_eq] at h
  split at h
  · cases h
  · split at h
    · cases h
    · split at h
      · next closed hclosed =>
        cases h
        exact ⟨closed, hclosed, rfl⟩
      · cases h

/-- **A row of the matrix from the triangles.** -/
theorem factorize_row {n : Nat} {A : Matrix (Fin n) (Fin n) K} {t : Triangles K}
    (h : factorize (.ofMatrix A) = .ok t) :
    t.packed.length = n ∧ t.rowOrder.Perm (List.range n) ∧
      ∀ i < n, ∃ source, FactorisedRow A t i source := by
  obtain ⟨closed, hclosed, rfl⟩ := factorize_eq_ok h
  have hwidth : ∀ row ∈ startRows A, row.entries.length = n := by
    intro row hrow
    obtain ⟨i, rfl⟩ := (List.mem_ofFn' _ _).mp hrow
    exact List.length_ofFn
  obtain ⟨hlen, hrows⟩ := eliminate_row List.length_ofFn hwidth hclosed
  have hreduced : ∀ i < n, ∃ (last : OpenRow K) (source : Fin n) (factors : List K),
      closed[i]? = some last ∧
      Reduction (closed.map OpenRow.entries) i ⟨source, [], List.ofFn (A source)⟩ last factors := by
    intro i hi
    have hlast : closed[i]? = some closed[i] := List.getElem?_eq_getElem (hlen ▸ hi)
    obtain ⟨row, hrow, factors, hred⟩ := hrows i _ hlast
    obtain ⟨source, rfl⟩ := (List.mem_ofFn' _ _).mp hrow
    exact ⟨_, source, factors, hlast, hred⟩
  refine ⟨by rw [Triangles.ofRows, List.length_map, hlen], ?_, ?_⟩
  · rw [← source_startRows A]
    exact eliminate_sources List.length_ofFn hclosed
  · intro i hi
    obtain ⟨last, source, factors, hlast, hred⟩ := hreduced i hi
    have hfactors : last.factors = factors := hred.factors_eq
    have hcount : last.factors.length = i := by rw [hfactors, hred.count]
    have hfactor : ∀ k < i, (Triangles.ofRows closed).entry i k = factors.getD k 0 := by
      intro k hk
      rw [entry_ofRows_of_lt hlast hcount hk, hfactors]
    refine ⟨source, ?_, ?_, ?_, ?_, ?_⟩
    · simp [Triangles.ofRows, hlast, hred.source_eq]
    · have hw := hred.width
      rw [List.length_map, hlen] at hw
      rw [packed_getD_ofRows hlast, List.length_append, hcount, Nat.add_comm, hw]
    · intro k hk
      rw [hfactor k hk, List.getD_eq_getElem _ _ (hred.count ▸ hk)]
      exact hred.bounded _ (List.getElem_mem _)
    · rw [entry_ofRows_self hlast hcount, ← lead_eq_getD]
      exact hred.pivot
    · intro j
      have hj := hred.combination j
      rw [List.getD_eq_getElem _ _ (by simp), List.getElem_ofFn] at hj
      rw [hj, upperEntry_ofRows hlast hcount]
      congr 1
      refine Finset.sum_congr rfl fun k hk => ?_
      have hk' : k < i := Finset.mem_range.mp hk
      obtain ⟨above, _, above', habove, hredAbove⟩ := hreduced k (hk'.trans hi)
      rw [hfactor k hk', upperEntry_ofRows habove]
      rw [hredAbove.factors_eq]
      exact hredAbove.count

/-! ## Solving the triangles -/

namespace Triangles

omit [LinearOrder K] [IsStrictOrderedRing K] [IntegerParts K] in
theorem getD_take (xs : List K) {k m : Nat} (h : k < m) : (xs.take m).getD k 0 = xs.getD k 0 := by
  rw [List.getD_eq_getElem?_getD, List.getD_eq_getElem?_getD, List.getElem?_take_of_lt h]

omit [LinearOrder K] [IsStrictOrderedRing K] [IntegerParts K] in
theorem getD_drop (xs : List K) (m k : Nat) : (xs.drop m).getD k 0 = xs.getD (m + k) 0 := by
  rw [List.getD_eq_getElem?_getD, List.getD_eq_getElem?_getD, List.getElem?_drop]

theorem dot_eq_sum : ∀ xs ys : List K,
    dot xs ys = ∑ k ∈ Finset.range ys.length, xs.getD k 0 * ys.getD k 0
  | _, [] => by simp [dot, scalarSum_eq]
  | [], y :: ys => by simp [dot, scalarSum_eq]
  | x :: xs, y :: ys => by
    have ih := dot_eq_sum xs ys
    rw [dot, scalarSum_eq] at ih ⊢
    rw [List.length_cons, Finset.sum_range_succ', List.zip_cons_cons, List.map_cons, List.sum_cons, ih]
    simp [add_comm]

/-- **Solving the lower triangle downward.** -/
theorem forward_spec : ∀ (rows : List (List K × K)) (found : List K),
    ∃ ys, forward found rows = found ++ ys ∧ ys.length = rows.length ∧
      ∀ j row b, rows[j]? = some (row, b) →
        ∑ k ∈ Finset.range (found.length + j), row.getD k 0 * (found ++ ys).getD k 0
          + (found ++ ys).getD (found.length + j) 0 = b
  | [], found => ⟨[], (List.append_nil _).symm, rfl, fun j row b h => absurd h (by simp)⟩
  | (first, b₀) :: rest, found => by
    -- the unknown of the first row, from the unknowns above it
    let y := if found.isEmpty then b₀ else b₀ - dot (first.take found.length) found
    have hy : ∑ k ∈ Finset.range found.length, first.getD k 0 * found.getD k 0 + y = b₀ := by
      cases found with
      | nil => simp [y]
      | cons x found =>
        have hdot : dot (first.take (x :: found).length) (x :: found)
            = ∑ k ∈ Finset.range (x :: found).length, first.getD k 0 * (x :: found).getD k 0 := by
          rw [dot_eq_sum]
          refine Finset.sum_congr rfl fun k hk => ?_
          rw [getD_take _ (Finset.mem_range.mp hk)]
        show _ + (b₀ - dot (first.take (x :: found).length) (x :: found)) = b₀
        rw [hdot, add_sub_cancel]
    obtain ⟨ys, hys, hlen, hrows⟩ := forward_spec rest (found ++ [y])
    rw [List.append_assoc, List.singleton_append] at hys hrows
    refine ⟨y :: ys, hys, by rw [List.length_cons, List.length_cons, hlen], ?_⟩
    intro j row b hrow
    cases j with
    | zero =>
      cases hrow
      rw [Nat.add_zero, List.getD_append_right _ _ _ _ (le_refl _), Nat.sub_self,
        List.getD_cons_zero, ← hy]
      congr 1
      refine Finset.sum_congr rfl fun k hk => ?_
      rw [List.getD_append _ _ _ _ (Finset.mem_range.mp hk)]
    | succ j =>
      have hnext := hrows j row b hrow
      rw [List.length_append, List.length_singleton, Nat.add_assoc, Nat.add_comm 1 j] at hnext
      exact hnext

/-- **Solving the upper triangle upward.** -/
theorem backward_spec : ∀ rows : List (Nat × List K × K),
    (∀ i row y, (i, row, y) ∈ rows → row.getD i 0 ≠ 0) →
      (backward rows).length = rows.length ∧
      ∀ j i row y, rows[j]? = some (i, row, y) →
        row.getD i 0 * (backward rows).getD j 0
          + ∑ k ∈ Finset.range (rows.length - (j + 1)),
              row.getD (i + 1 + k) 0 * (backward rows).getD (j + 1 + k) 0 = y
  | [], _ => ⟨rfl, fun j i row y h => absurd h (by simp)⟩
  | (i₀, first, y₀) :: rest, hdiag => by
    obtain ⟨hlen, hrest⟩ := backward_spec rest fun i row y h =>
      hdiag i row y (List.mem_cons_of_mem _ h)
    have hpivot : first.getD i₀ 0 ≠ 0 := hdiag i₀ first y₀ List.mem_cons_self
    have hdot : dot (first.drop (i₀ + 1)) (backward rest)
        = ∑ k ∈ Finset.range rest.length,
            first.getD (i₀ + 1 + k) 0 * (backward rest).getD k 0 := by
      rw [dot_eq_sum, hlen]
      refine Finset.sum_congr rfl fun k _ => ?_
      rw [getD_drop]
    have hfirst : backward ((i₀, first, y₀) :: rest)
        = (y₀ - dot (first.drop (i₀ + 1)) (backward rest)) / first.getD i₀ 0 :: backward rest := by
      rw [backward, literalZero_eq, List.getD_eq_getElem?_getD]
    rw [hfirst]
    refine ⟨by rw [List.length_cons, List.length_cons, hlen], ?_⟩
    intro j i row y hrow
    cases j with
    | zero =>
      cases hrow
      rw [List.getD_cons_zero, mul_div_cancel₀ _ hpivot, hdot, List.length_cons,
        Nat.add_sub_cancel]
      simp only [Nat.zero_add, Nat.add_comm 1, List.getD_cons_succ, sub_add_cancel]
    | succ j =>
      have hnext := hrest j i row y hrow
      simpa only [List.getD_cons_succ, List.length_cons, Nat.add_sub_add_right, Nat.add_right_comm _ 1]
        using hnext

section

variable {t : Triangles K} {n : Nat} (hpacked : t.packed.length = n)
include hpacked

/-- What is found downward solves the lower triangle. -/
theorem lower_mulVec_forward {side : List K} (hside : side.length = n) :
    (forward [] (t.packed.zip side)).length = n ∧
      (t.lower n).mulVec (fun i : Fin n => (forward [] (t.packed.zip side)).getD i 0)
        = fun i : Fin n => side.getD i 0 := by
  obtain ⟨y, hy, hlen, hrows⟩ := forward_spec (t.packed.zip side) []
  simp only [List.nil_append, List.length_nil, Nat.zero_add] at hy hrows
  rw [List.length_zip, hpacked, hside, Nat.min_self] at hlen
  rw [hy]
  refine ⟨hlen, funext fun i => ?_⟩
  rw [lower, mulVec_apply_range t.lowerEntry (y.getD · 0), sum_lowerEntry_mul _ _ i.isLt]
  exact hrows i _ _ (zip_packed_getElem? hpacked hside i.isLt)

/-- What is found upward solves the upper triangle. -/
theorem upper_mulVec_backward (hdiag : ∀ i < n, t.entry i i ≠ 0) {y : List K} (hy : y.length = n) :
    (backward ((List.range n).zip (t.packed.zip y))).length = n ∧
      (t.upper n).mulVec (fun i : Fin n => (backward ((List.range n).zip (t.packed.zip y))).getD i 0)
        = fun i : Fin n => y.getD i 0 := by
  let rows := (List.range n).zip (t.packed.zip y)
  have hcount : rows.length = n := by simp [rows, hpacked, hy]
  have hrow : ∀ i < n, rows[i]? = some (i, t.packed.getD i [], y.getD i 0) := by
    intro i hi
    rw [List.getElem?_zip_eq_some, List.getElem?_range hi]
    exact ⟨rfl, zip_packed_getElem? hpacked hy hi⟩
  have hnonzero : ∀ i row v, (i, row, v) ∈ rows → row.getD i 0 ≠ 0 := by
    intro i row v hmem
    obtain ⟨k, hk⟩ := List.getElem?_of_mem hmem
    have hkn : k < n := hcount ▸ (List.getElem?_eq_some_iff.mp hk).1
    rw [hrow k hkn] at hk
    cases hk
    exact hdiag i hkn
  obtain ⟨hlen, hrows⟩ := backward_spec rows hnonzero
  refine ⟨hlen.trans hcount, funext fun i => ?_⟩
  have hi := hrows i i _ _ (hrow i i.isLt)
  rw [hcount] at hi
  rw [upper, mulVec_apply_range t.upperEntry ((backward rows).getD · 0),
    sum_upperEntry_mul _ _ i.isLt]
  exact hi

/-- **Solving by both triangles.** -/
theorem solve_eq_ok (horder : t.rowOrder.length = n) (hdiag : ∀ i < n, t.entry i i ≠ 0)
    {side : List K} (hside : side.length = n) :
    ∃ x : Fin n → K, t.solve side = .ok (List.ofFn x) ∧
      (t.lower n * t.upper n).mulVec x = fun i : Fin n => side.getD (t.rowOrder.getD i 0) 0 := by
  let permuted := t.rowOrder.map fun source => (side[source]?).getD (0.0 : K)
  have hpermuted : permuted.length = n := by rw [List.length_map, horder]
  let y := forward [] (t.packed.zip permuted)
  let x := backward ((List.range n).zip (t.packed.zip y))
  obtain ⟨hylen, hlower⟩ := lower_mulVec_forward hpacked hpermuted
  obtain ⟨hxlen, hupper⟩ := upper_mulVec_backward hpacked hdiag hylen
  refine ⟨fun i => x.getD i 0, ?_, ?_⟩
  · rw [solve, dimension, horder, hside, if_neg (by simp)]
    refine congrArg Except.ok (List.ext_getElem (by rw [List.length_ofFn, hxlen]) fun i hi _ => ?_)
    rw [List.getElem_ofFn]
    exact (List.getD_eq_getElem _ _ hi).symm
  · rw [← Matrix.mulVec_mulVec, hupper, hlower]
    funext i
    have hi : i.val < t.rowOrder.length := horder ▸ i.isLt
    rw [List.getD_eq_getElem?_getD, List.getElem?_map, List.getElem?_eq_getElem hi, Option.map_some,
      Option.getD_some, literalZero_eq, List.getD_eq_getElem _ _ hi, List.getD_eq_getElem?_getD]

end

end Triangles

section

variable {n : Nat} {A : Matrix (Fin n) (Fin n) K} {t : Triangles K}

omit [IsStrictOrderedRing K] in
/-- A row of the product of the triangles. -/
theorem FactorisedRow.mul_apply {i source : Fin n} (h : FactorisedRow A t i source) (j : Fin n) :
    (t.lower n * t.upper n) i j = A source j := by
  rw [h.product j, ← Triangles.sum_lowerEntry_mul _ _ i.isLt]
  exact Fin.sum_univ_eq_sum_range (fun k => t.lowerEntry i k * t.upperEntry k j) n

/-- The order of the rows is a permutation, because no row comes twice. -/
theorem exists_order (h : factorize (.ofMatrix A) = .ok t) :
    ∃ order : Equiv.Perm (Fin n), ∀ i : Fin n, FactorisedRow A t i (order i) := by
  obtain ⟨-, hperm, hrows⟩ := factorize_row h
  choose source hsource using hrows
  let order : Fin n → Fin n := fun i => source i i.isLt
  have hget : ∀ i : Fin n, t.rowOrder[i.val]? = some (order i).val := fun i =>
    (hsource i i.isLt).order
  have hinj : Function.Injective order := by
    intro i j hij
    have hnodup : t.rowOrder.Nodup := hperm.nodup_iff.mpr List.nodup_range
    have hlt : i.val < t.rowOrder.length := by
      rw [hperm.length_eq, List.length_range]
      exact i.isLt
    refine Fin.ext ((List.getElem?_inj hlt hnodup).mp ?_)
    rw [hget i, hget j, hij]
  exact ⟨Equiv.ofBijective order hinj.bijective_of_finite, fun i => hsource i i.isLt⟩

/-- **Systems with a factorised matrix are solved.** -/
theorem solve_ofMatrix (h : factorize (.ofMatrix A) = .ok t) (b : Fin n → K) :
    ∃ x : Fin n → K, t.solve (List.ofFn b) = .ok (List.ofFn x) ∧ A.mulVec x = b := by
  obtain ⟨hlen, hperm, -⟩ := factorize_row h
  obtain ⟨order, hrows⟩ := exists_order h
  have horder : t.rowOrder.length = n := by rw [hperm.length_eq, List.length_range]
  have hdiag : ∀ i < n, t.entry i i ≠ 0 := fun i hi =>
    abs_pos.mp (pivotFloor_pos.trans (hrows ⟨i, hi⟩).pivot)
  obtain ⟨x, hx, hsolved⟩ := Triangles.solve_eq_ok hlen horder hdiag (List.length_ofFn (f := b))
  refine ⟨x, hx, funext fun k => ?_⟩
  -- every row of the matrix is some row of the product
  obtain ⟨i, rfl⟩ := order.surjective k
  have hrow : t.rowOrder.getD i 0 = (order i).val := by
    rw [List.getD_eq_getElem?_getD, (hrows i).order, Option.getD_some]
  calc A.mulVec x (order i) = (t.lower n * t.upper n).mulVec x i := by
        simp only [Matrix.mulVec, dotProduct, (hrows i).mul_apply]
    _ = (List.ofFn b).getD (t.rowOrder.getD i 0) 0 := congrFun hsolved i
    _ = b (order i) := by rw [hrow, getD_ofFn]

end

/-- **A matrix that is factorised is factorised rightly, and its systems are solved.** The rows are
put in a new order, and in that order they are the product of a lower triangle with entries of at most
one below its unit diagonal and an upper triangle with no small entry on its diagonal. Every system
with the matrix is then solved exactly. -/
theorem factorize_solve_correct {n : Nat} (A : Matrix (Fin n) (Fin n) K) (t : Triangles K)
    (h : factorize (.ofMatrix A) = .ok t) :
    (t.packed.length = n ∧ ∀ row ∈ t.packed, row.length = n) ∧
    t.rowOrder.Perm (List.range n) ∧
    (∃ order : Equiv.Perm (Fin n), (∀ i, t.rowOrder[i.val]? = some (order i).val) ∧
      ∀ i j, (t.lower n * t.upper n) i j = A (order i) j) ∧
    (∀ i j, j < i → |t.lower n i j| ≤ 1) ∧
    (∀ i, pivotFloor < |t.upper n i i|) ∧
    ∀ b : Fin n → K, ∃ x : Fin n → K, t.solve (List.ofFn b) = .ok (List.ofFn x) ∧
      A.mulVec x = b := by
  obtain ⟨hlen, hperm, -⟩ := factorize_row h
  obtain ⟨order, hrows⟩ := exists_order h
  refine ⟨⟨hlen, ?_⟩, hperm, ⟨order, fun i => (hrows i).order, fun i => (hrows i).mul_apply⟩, ?_, ?_,
    solve_ofMatrix h⟩
  · intro row hrow
    obtain ⟨i, hi, rfl⟩ := List.getElem_of_mem hrow
    have hw := (hrows ⟨i, hlen ▸ hi⟩).width
    rwa [List.getD_eq_getElem _ _ hi] at hw
  · intro i j hij
    rw [Triangles.lower, Matrix.of_apply, Triangles.lowerEntry, if_pos (Fin.lt_def.mp hij)]
    exact (hrows i).bounded j hij
  · intro i
    rw [Triangles.upper, Matrix.of_apply, Triangles.upperEntry, if_pos (le_refl _)]
    exact (hrows i).pivot

/-- A matrix whose rows are exchanged twice. -/
def exchangedMatrix : Matrix (Fin 3) (Fin 3) ℚ :=
  !![0, 2, 1; 1, -2, -3; 2, 3, 1]

def exchangedTriangles : Triangles ℚ :=
  ⟨[[2, 3, 1], [1 / 2, -7 / 2, -7 / 2], [0, -4 / 7, -1]], [2, 1, 0]⟩

theorem factorize_exchangedMatrix :
    factorize (.ofMatrix exchangedMatrix) = .ok exchangedTriangles := by
  have h : (factorize (.ofMatrix exchangedMatrix)).toOption.map (fun t => (t.packed, t.rowOrder))
      = some (exchangedTriangles.packed, exchangedTriangles.rowOrder) := by decide +kernel
  cases hf : factorize (.ofMatrix exchangedMatrix) with
  | error fault =>
    rw [hf] at h
    cases h
  | ok t =>
    rw [hf] at h
    obtain ⟨hpacked, horder⟩ := Prod.mk.inj (Option.some.inj h)
    exact congrArg Except.ok (congrArg₂ Triangles.mk hpacked horder)

theorem exchangedMatrix_solved :
    factorize (.ofMatrix exchangedMatrix) = .ok exchangedTriangles ∧
      ∀ b : Fin 3 → ℚ, ∃ x : Fin 3 → ℚ, exchangedTriangles.solve (List.ofFn b) = .ok (List.ofFn x) ∧
        exchangedMatrix.mulVec x = b := by
  obtain ⟨-, -, -, -, -, hsolve⟩ := factorize_solve_correct _ _ factorize_exchangedMatrix
  exact ⟨factorize_exchangedMatrix, hsolve⟩

end FluidAnalysis.Numeric
