import Mathlib
import FluidAnalysis.Binary64
import FluidAnalysis.Proofs.Exact

/-!
# The total order of scalars

Comparisons of doubles leave out the values that are no number and do not tell the two zeros apart.
Sorting uses the total order instead, in which every bit pattern has a place of its own.

* `Scalar.TotalOrderLaws` — it is total and transitive, and values at one place are the same
* `TotalOrderLaws.float`, `TotalOrderLaws.binary64`, `TotalOrderLaws.exact` — doubles, their bit
  patterns and ordered fields obey these laws
* `mergeSort_eq_of_perm` — the sorted list does not depend on the order of the values
* `find?_mergeSort`, `getLast?_mergeSort` — the first hit in it is the least one, and its last value
  is the greatest
-/

namespace FluidAnalysis

/-- The laws of the total order. -/
class Scalar.TotalOrderLaws (α : Type) [Scalar α] : Prop where
  total : ∀ x y : α, (Scalar.totalLe x y || Scalar.totalLe y x) = true
  trans : ∀ x y z : α, Scalar.totalLe x y = true → Scalar.totalLe y z = true →
    Scalar.totalLe x z = true
  antisymm : ∀ x y : α, Scalar.totalLe x y = true → Scalar.totalLe y x = true → x = y

/-! ## Doubles and exact numbers -/

namespace Double

theorem toBits_injective : Function.Injective Float.toBits := by
  rintro ⟨⟨bits, hbits⟩⟩ ⟨⟨bits', hbits'⟩⟩ h
  have heq : bits = bits' := h
  subst heq
  rfl

/-- No two bit patterns have the same place. -/
theorem patternKey_injective : Function.Injective Decimal.patternKey := by
  intro x y h
  apply UInt64.toNat_inj.mp
  simp only [Decimal.patternKey] at h
  split at h <;> split at h <;> omega

theorem orderKey_injective : Function.Injective Decimal.orderKey :=
  patternKey_injective.comp toBits_injective

theorem bits_injective : Function.Injective Binary64.bits := by
  rintro ⟨bits⟩ ⟨bits'⟩ h
  exact congrArg Binary64.mk h

end Double

/-- An order by a key that tells all values apart. -/
theorem TotalOrderLaws.of_key {α : Type} [Scalar α] {key : α → Int} (hkey : Function.Injective key)
    (h : ∀ x y : α, Scalar.totalLe x y = true ↔ key x ≤ key y) : Scalar.TotalOrderLaws α where
  total x y := by
    rw [Bool.or_eq_true, h, h]
    exact le_total _ _
  trans x y z hxy hyz := (h x z).mpr (((h x y).mp hxy).trans ((h y z).mp hyz))
  antisymm x y hxy hyx := hkey (le_antisymm ((h x y).mp hxy) ((h y x).mp hyx))

instance TotalOrderLaws.float : Scalar.TotalOrderLaws Float :=
  TotalOrderLaws.of_key Double.orderKey_injective fun _ _ => decide_eq_true_iff

instance TotalOrderLaws.binary64 : Scalar.TotalOrderLaws Binary64 :=
  TotalOrderLaws.of_key (Double.patternKey_injective.comp Double.bits_injective)
    fun _ _ => decide_eq_true_iff

open Exact in
instance TotalOrderLaws.exact {K : Type} [Field K] [LinearOrder K] [IntegerParts K] :
    Scalar.TotalOrderLaws K where
  total x y := by
    rw [Bool.or_eq_true, scalarTotalLe_iff, scalarTotalLe_iff]
    exact le_total x y
  trans x y z hxy hyz := scalarTotalLe_iff.mpr
    ((scalarTotalLe_iff.mp hxy).trans (scalarTotalLe_iff.mp hyz))
  antisymm x y hxy hyx := le_antisymm (scalarTotalLe_iff.mp hxy) (scalarTotalLe_iff.mp hyx)

/-! ## Sorted lists -/

section Sorted

variable {α : Type} [Scalar α] [Scalar.TotalOrderLaws α] {xs : List α} {x : α}

open Scalar (totalLe TotalOrderLaws)

theorem totalLe_refl (x : α) : totalLe x x = true := by
  simpa using TotalOrderLaws.total x x

theorem totalLe_of_not {x y : α} (h : ¬ totalLe x y = true) : totalLe y x = true := by
  simpa [h] using TotalOrderLaws.total x y

theorem pairwise_mergeSort (xs : List α) :
    (xs.mergeSort totalLe).Pairwise fun x y => totalLe x y = true :=
  List.pairwise_mergeSort TotalOrderLaws.trans TotalOrderLaws.total xs

/-- **The sorted list does not depend on the order of the values.** -/
theorem mergeSort_eq_of_perm {ys : List α} (h : xs.Perm ys) :
    xs.mergeSort totalLe = ys.mergeSort totalLe := by
  have hperm : (xs.mergeSort totalLe).Perm (ys.mergeSort totalLe) :=
    (List.mergeSort_perm xs totalLe).trans (h.trans (List.mergeSort_perm ys totalLe).symm)
  exact hperm.eq_of_pairwise (fun x y _ _ => TotalOrderLaws.antisymm x y) (pairwise_mergeSort xs)
    (pairwise_mergeSort ys)

/-- The first hit in the sorted list is the least of all hits. -/
theorem find?_mergeSort {p : α → Bool} (h : (xs.mergeSort totalLe).find? p = some x) :
    x ∈ xs ∧ p x = true ∧ ∀ y ∈ xs, p y = true → totalLe x y = true := by
  obtain ⟨hx, before, after, hsplit, hbefore⟩ := List.find?_eq_some_iff_append.mp h
  have hmem : ∀ y, y ∈ xs ↔ y ∈ before ++ x :: after := by
    intro y
    rw [← hsplit, List.mem_mergeSort]
  have hsorted := pairwise_mergeSort xs
  rw [hsplit, List.pairwise_append, List.pairwise_cons] at hsorted
  refine ⟨(hmem x).mpr (by simp), hx, fun y hy hp => ?_⟩
  rcases List.mem_append.mp ((hmem y).mp hy) with hy | hy
  · simpa [hp] using hbefore y hy
  · rcases List.mem_cons.mp hy with rfl | hy
    · exact totalLe_refl y
    · exact hsorted.2.1.1 y hy

/-- The last value of the sorted list is the greatest. -/
theorem getLast?_mergeSort (h : (xs.mergeSort totalLe).getLast? = some x) :
    x ∈ xs ∧ ∀ y ∈ xs, totalLe y x = true := by
  obtain ⟨before, hsplit⟩ := List.getLast?_eq_some_iff.mp h
  have hmem : ∀ y, y ∈ xs ↔ y ∈ before ++ [x] := by
    intro y
    rw [← hsplit, List.mem_mergeSort]
  have hsorted := pairwise_mergeSort xs
  rw [hsplit, List.pairwise_append] at hsorted
  refine ⟨(hmem x).mpr (by simp), fun y hy => ?_⟩
  rcases List.mem_append.mp ((hmem y).mp hy) with hy | hy
  · exact hsorted.2.2 y hy x (List.mem_singleton_self x)
  · rw [List.mem_singleton.mp hy]
    exact totalLe_refl x

end Sorted

end FluidAnalysis
