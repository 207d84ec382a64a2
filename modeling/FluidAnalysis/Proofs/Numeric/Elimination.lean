import Mathlib.Algebra.BigOperators.Group.Finset.Basic
import Mathlib.Algebra.Order.Field.Basic
import Mathlib.Data.List.GetD
import Mathlib.Tactic.FieldSimp
import Mathlib.Tactic.LinearCombination
import FluidAnalysis.Proofs.Exact
import FluidAnalysis.Numeric.LinearSystem

/-!
# What elimination does to the rows

A run of `eliminate` over exact scalars. One step closes the row with the largest leading entry and
clears that entry in the others (`eliminate_cons_eq_ok`). Over a whole run every row keeps its source,
and its entries can be put together again from its new factors and the closed rows
(`eliminate_row`).
-/

namespace FluidAnalysis.Numeric

open Exact

/-! ## Upper triangles without their zeros -/

section

variable {K : Type} [Zero K]

/-- Entry `j` of row `k` of an upper triangle whose rows are given from the diagonal on. -/
def stairEntry (uppers : List (List K)) (k j : Nat) : K :=
  if k ≤ j then (uppers.getD k []).getD (j - k) 0 else 0

theorem stairEntry_zero (upper : List K) (uppers : List (List K)) (j : Nat) :
    stairEntry (upper :: uppers) 0 j = upper.getD j 0 := by
  simp [stairEntry]

theorem stairEntry_succ_zero (uppers : List (List K)) (k : Nat) :
    stairEntry uppers (k + 1) 0 = 0 := by
  simp [stairEntry]

theorem stairEntry_succ_succ (upper : List K) (uppers : List (List K)) (k j : Nat) :
    stairEntry (upper :: uppers) (k + 1) (j + 1) = stairEntry uppers k j := by
  simp [stairEntry]

end

variable {K : Type} [Field K] [LinearOrder K] [IntegerParts K]

/-! ## The pivot -/

theorem pivotAmong_spec : ∀ (rows : List (OpenRow K)) (best : Nat × K) (position : Nat),
    (pivotAmong best position rows = best.1 ∧ ∀ row ∈ rows, |row.lead| ≤ best.2) ∨
      ∃ k pivot, rows[k]? = some pivot ∧ pivotAmong best position rows = position + k ∧
        best.2 ≤ |pivot.lead| ∧ ∀ row ∈ rows, |row.lead| ≤ |pivot.lead|
  | [], best, position => Or.inl ⟨rfl, fun _ h => absurd h List.not_mem_nil⟩
  | row :: rest, best, position => by
    simp only [pivotAmong, scalarAbs_eq]
    by_cases hle : best.2 ≤ |row.lead|
    · -- the row is the largest so far, and stays so or is passed by a later one
      rw [if_pos (scalarTotalLe_iff.mpr hle)]
      right
      rcases pivotAmong_spec rest (position, |row.lead|) (position + 1) with
        ⟨hkept, hall⟩ | ⟨k, pivot, hpivot, hpos, hbest, hall⟩
      · exact ⟨0, row, rfl, hkept, hle, List.forall_mem_cons.mpr ⟨le_refl _, hall⟩⟩
      · refine ⟨k + 1, pivot, hpivot, ?_, hle.trans hbest, List.forall_mem_cons.mpr ⟨hbest, hall⟩⟩
        rw [hpos]
        omega
    · rw [if_neg (fun h => hle (scalarTotalLe_iff.mp h))]
      have hlt : |row.lead| ≤ best.2 := le_of_lt (not_le.mp hle)
      rcases pivotAmong_spec rest best (position + 1) with
        ⟨hkept, hall⟩ | ⟨k, pivot, hpivot, hpos, hbest, hall⟩
      · exact Or.inl ⟨hkept, List.forall_mem_cons.mpr ⟨hlt, hall⟩⟩
      · refine Or.inr ⟨k + 1, pivot, hpivot, ?_, hbest,
          List.forall_mem_cons.mpr ⟨hlt.trans hbest, hall⟩⟩
        rw [hpos]
        omega

/-- The pivot has the largest leading entry. -/
theorem pivotPosition_spec (first : OpenRow K) (rest : List (OpenRow K)) :
    ∃ pivot, (first :: rest)[pivotPosition first rest]? = some pivot ∧
      ∀ row ∈ first :: rest, |row.lead| ≤ |pivot.lead| := by
  rcases pivotAmong_spec rest (0, |first.lead|) 1 with
    ⟨hfirst, hall⟩ | ⟨k, pivot, hpivot, hpos, hbest, hall⟩
  · refine ⟨first, ?_, List.forall_mem_cons.mpr ⟨le_refl _, hall⟩⟩
    rw [pivotPosition, scalarAbs_eq, hfirst]
    rfl
  · refine ⟨pivot, ?_, List.forall_mem_cons.mpr ⟨hbest, hall⟩⟩
    rw [pivotPosition, scalarAbs_eq, hpos, Nat.add_comm]
    exact hpivot

/-- Exchanging the first row with the pivot loses no row. -/
theorem perm_exchange {α : Type} {first pivot : α} {rest : List α} {position : Nat}
    (h : (first :: rest)[position]? = some pivot) :
    (pivot :: ((first :: rest).set position first).tail).Perm (first :: rest) := by
  cases position with
  | zero =>
    cases h
    exact List.Perm.refl _
  | succ k =>
    obtain ⟨hk, rfl⟩ := List.getElem?_eq_some_iff.mp h
    have hk' : k < rest.length := Nat.lt_of_succ_lt_succ hk
    have hset : (rest.set k first).Perm (first :: rest.eraseIdx k) :=
      List.set_perm_cons_eraseIdx hk' first
    have hswap : (rest[k] :: first :: rest.eraseIdx k).Perm (first :: rest[k] :: rest.eraseIdx k) :=
      List.Perm.swap _ _ _
    have hback : (rest[k] :: rest.eraseIdx k).Perm rest := List.getElem_cons_eraseIdx_perm hk'
    exact ((hset.cons _).trans hswap).trans (hback.cons _)

/-- **What one step does.** It closes a row and clears its leading entry, the largest one, in all the
others. -/
theorem eliminate_cons_eq_ok {column : Nat} {first : OpenRow K} {rest closed : List (OpenRow K)}
    (h : eliminate column (first :: rest) = .ok closed) :
    ∃ pivot others below,
      (pivot :: others).Perm (first :: rest) ∧
      (∀ row ∈ others, |row.lead| ≤ |pivot.lead|) ∧ pivotFloor < |pivot.lead| ∧
      eliminate (column + 1) (others.map pivot.clear) = .ok below ∧ closed = pivot :: below := by
  obtain ⟨pivot, hpivot, hlargest⟩ := pivotPosition_spec first rest
  have hperm := perm_exchange hpivot
  rw [eliminate] at h
  simp only [hpivot, Option.getD_some, scalarAbs_eq] at h
  split at h
  · cases h
  · next hfloor =>
    split at h
    · next below hbelow =>
      cases h
      refine ⟨pivot, _, below, hperm, ?_, not_le.mp hfloor, hbelow, rfl⟩
      exact fun row hrow => hlargest row (hperm.subset (List.mem_cons_of_mem _ hrow))
    · cases h

/-! ## The rows of a run -/

/-- A run drops no row and adds none. -/
theorem eliminate_sources {n column : Nat} {rows closed : List (OpenRow K)}
    (hn : rows.length = n) (h : eliminate column rows = .ok closed) :
    (closed.map OpenRow.source).Perm (rows.map OpenRow.source) := by
  induction n generalizing column rows closed with
  | zero =>
    rw [List.length_eq_zero_iff.mp hn, eliminate] at h
    cases h
    rw [List.length_eq_zero_iff.mp hn]
  | succ n ih =>
    obtain ⟨first, rest, rfl⟩ := List.exists_cons_of_length_eq_add_one hn
    obtain ⟨pivot, others, below, hperm, -, -, hbelow, rfl⟩ := eliminate_cons_eq_ok h
    have hlen : (others.map pivot.clear).length = n := by
      rw [List.length_map]
      exact Nat.succ.inj (hperm.length_eq.trans hn)
    have hsources := ih hlen hbelow
    rw [List.map_map] at hsources
    exact (hsources.cons _).trans (hperm.map OpenRow.source)

theorem length_clear_entries {pivot row : OpenRow K}
    (h : row.entries.length = pivot.entries.length) :
    (pivot.clear row).entries.length = row.entries.length - 1 := by
  simp [OpenRow.clear, h]

theorem clear_entries_getD {pivot row : OpenRow K}
    (h : row.entries.length = pivot.entries.length) (j : Nat) :
    (pivot.clear row).entries.getD j 0 =
      row.entries.getD (j + 1) 0 - row.lead / pivot.lead * pivot.entries.getD (j + 1) 0 := by
  have hlen := length_clear_entries h
  by_cases hj : j + 1 < row.entries.length
  · have hj' : j + 1 < pivot.entries.length := h ▸ hj
    rw [List.getD_eq_getElem _ _ (by omega), List.getD_eq_getElem _ _ hj,
      List.getD_eq_getElem _ _ hj']
    simp [OpenRow.clear]
  · rw [List.getD_eq_default _ _ (by omega), List.getD_eq_default _ _ (by omega),
      List.getD_eq_default _ _ (by omega), mul_zero, sub_zero]

variable [IsStrictOrderedRing K]

/-- What a run makes of an open row that it closes in position `i`. The row gets `i` new factors, and
with them its open entries are a combination of the closed rows up to its own. -/
structure Reduction (uppers : List (List K)) (i : Nat) (row closed : OpenRow K)
    (factors : List K) : Prop where
  source_eq : closed.source = row.source
  factors_eq : closed.factors = row.factors ++ factors
  count : factors.length = i
  bounded : ∀ factor ∈ factors, |factor| ≤ 1
  width : closed.entries.length + i = uppers.length
  pivot : pivotFloor < |closed.lead|
  combination : ∀ j, row.entries.getD j 0 =
    ∑ k ∈ Finset.range i, factors.getD k 0 * stairEntry uppers k j + stairEntry uppers i j

theorem lead_eq_getD (row : OpenRow K) : row.lead = row.entries.getD 0 0 := by
  rw [OpenRow.lead, literalZero_eq]
  cases row.entries <;> rfl

theorem pivotFloor_pos : (0 : K) < pivotFloor := by
  norm_num [pivotFloor]

/-- A row that was cleared before the run went on. -/
theorem Reduction.of_clear {uppers : List (List K)} {i : Nat} {pivot row closed : OpenRow K}
    {factors : List K} (h : Reduction uppers i (pivot.clear row) closed factors)
    (hlen : row.entries.length = pivot.entries.length)
    (hlead : |row.lead| ≤ |pivot.lead|) (hpivot : pivotFloor < |pivot.lead|) :
    Reduction (pivot.entries :: uppers) (i + 1) row closed (row.lead / pivot.lead :: factors) where
  source_eq := h.source_eq
  factors_eq := by
    rw [h.factors_eq]
    simp [OpenRow.clear]
  count := by rw [List.length_cons, h.count]
  bounded := by
    refine List.forall_mem_cons.mpr ⟨?_, h.bounded⟩
    rw [abs_div]
    exact div_le_one_of_le₀ hlead (abs_nonneg _)
  width := by
    rw [List.length_cons, ← h.width]
    omega
  pivot := h.pivot
  combination := by
    have hne : pivot.lead ≠ 0 := abs_pos.mp (pivotFloor_pos.trans hpivot)
    intro j
    rw [Finset.sum_range_succ', List.getD_cons_zero, stairEntry_zero]
    simp only [List.getD_cons_succ]
    cases j with
    | zero =>
      simp only [stairEntry_succ_zero, mul_zero, Finset.sum_const_zero, ← lead_eq_getD, zero_add,
        add_zero]
      rw [div_mul_cancel₀ _ hne]
    | succ j =>
      simp only [stairEntry_succ_succ]
      have hc := h.combination j
      rw [clear_entries_getD hlen] at hc
      linear_combination hc

/-- **What a run does to the rows.** Each closed row comes from an open one. -/
theorem eliminate_row {n column : Nat} {rows closed : List (OpenRow K)} (hn : rows.length = n)
    (hwidth : ∀ row ∈ rows, row.entries.length = n) (h : eliminate column rows = .ok closed) :
    closed.length = n ∧ ∀ i last, closed[i]? = some last →
      ∃ row ∈ rows, ∃ factors, Reduction (closed.map OpenRow.entries) i row last factors := by
  induction n generalizing column rows closed with
  | zero =>
    rw [List.length_eq_zero_iff.mp hn, eliminate] at h
    cases h
    exact ⟨rfl, fun i last hlast => absurd hlast (by simp)⟩
  | succ n ih =>
    obtain ⟨first, rest, rfl⟩ := List.exists_cons_of_length_eq_add_one hn
    obtain ⟨pivot, others, below, hperm, hlargest, hpivot, hbelow, rfl⟩ := eliminate_cons_eq_ok h
    have hmem : ∀ row ∈ pivot :: others, row ∈ first :: rest := fun row hrow => hperm.subset hrow
    have hlen : (others.map pivot.clear).length = n := by
      rw [List.length_map]
      exact Nat.succ.inj (hperm.length_eq.trans hn)
    have hpivotWidth : pivot.entries.length = n + 1 := hwidth pivot (hmem pivot List.mem_cons_self)
    have hothers : ∀ row ∈ others, row.entries.length = pivot.entries.length := by
      intro row hrow
      rw [hpivotWidth, hwidth row (hmem row (List.mem_cons_of_mem _ hrow))]
    have hcleared : ∀ row ∈ others.map pivot.clear, row.entries.length = n := by
      intro row hrow
      obtain ⟨orig, horig, rfl⟩ := List.mem_map.mp hrow
      rw [length_clear_entries (hothers orig horig), hothers orig horig, hpivotWidth,
        Nat.add_sub_cancel]
    obtain ⟨hcount, hrows⟩ := ih hlen hcleared hbelow
    refine ⟨by rw [List.length_cons, hcount], ?_⟩
    intro i last hlast
    rw [List.map_cons]
    cases i with
    | zero =>
      -- the pivot is closed as it is
      cases hlast
      refine ⟨pivot, hmem pivot List.mem_cons_self, [], rfl, (List.append_nil _).symm, rfl,
        fun _ hin => absurd hin List.not_mem_nil, ?_, hpivot, ?_⟩
      · rw [List.length_cons, List.length_map, hcount, hpivotWidth]
      · intro j
        rw [stairEntry_zero, Finset.range_zero, Finset.sum_empty, zero_add]
    | succ i =>
      obtain ⟨cleared, hin, factors, hred⟩ := hrows i last hlast
      obtain ⟨row, hrow, rfl⟩ := List.mem_map.mp hin
      exact ⟨row, hmem row (List.mem_cons_of_mem _ hrow), _,
        hred.of_clear (hothers row hrow) (hlargest row hrow) hpivot⟩

end FluidAnalysis.Numeric
