import Mathlib
import FluidAnalysis.Proofs.Double.Infinite
import FluidAnalysis.Proofs.Numeric.RunningMean

/-!
# Running means that are spoiled

Over the doubles the sum that is carried along remembers the values that have left the window. The
infinite ones cancel against themselves on their way out, and from there on the sum is undefined,
even if all values of the later windows are finite. Finite values leave no such trace, unless the sum
overflowed.

* `lostTo_carriedSum` — an infinite value stays in the sum
* `isNaN_carriedSum_of_left` — and makes it undefined when it leaves
* `isNaN_runningMean_iff` — which means of finite windows are undefined

Main statement: `isNaN_runningMean_agree_iff`, on two lists with a common window.
-/

namespace FluidAnalysis.Numeric

open Double (LostTo Cancel)

variable {values : List Float} {window : ℕ}

/-- What one step adds to the carried sum: the value that enters less the value that leaves. -/
def stepChange (values : List Float) (window n : ℕ) : Float :=
  values.getD (n + window) 0.0 - values.getD n 0.0

theorem carriedSum_succ (values : List Float) (window n : ℕ) :
    carriedSum values window (n + 1) = carriedSum values window n + stepChange values window n :=
  rfl

/-- What is undefined once stays undefined. -/
theorem isNaN_carriedSum_mono {n k : ℕ} (h : (carriedSum values window n).isNaN = true)
    (hk : n ≤ k) : (carriedSum values window k).isNaN = true := by
  induction k, hk using Nat.le_induction with
  | base => exact h
  | succ k _ ih =>
    rw [carriedSum_succ, Double.isNaN_add_iff]
    exact .inl ih

/-! ## Values that are not finite -/

/-- A value that is not finite enters the sum and is in it from then on. -/
theorem lostTo_carriedSum {s : Float.Model.UnpackedFloat.Sign} {j n : ℕ} (hj : j < values.length)
    (h : LostTo s (values.getD j 0.0)) (hn : j < n + window) :
    LostTo s (carriedSum values window n) := by
  induction n with
  | zero =>
    have hmem : values.getD j 0.0 ∈ values.take window := by
      rw [List.getD_eq_getElem _ _ hj]
      exact List.mem_take_iff_getElem.mpr ⟨j, by omega, rfl⟩
    exact Double.lostTo_sum hmem h
  | succ n ih =>
    rw [carriedSum_succ]
    by_cases hbefore : j < n + window
    · exact (ih hbefore).add_left _
    · obtain rfl : j = n + window := by omega
      exact (h.sub_left _).add_right _

/-- **A value that is not finite leaves an undefined sum behind.** -/
theorem isNaN_carriedSum_of_left {j n : ℕ} (hwindow : 0 < window) (hj : j < values.length)
    (h : (values.getD j 0.0).isFinite = false) (hn : j < n) :
    (carriedSum values window n).isNaN = true := by
  obtain ⟨s, hlost⟩ := Double.isFinite_eq_false_iff.mp h
  have hleaves : (carriedSum values window (j + 1)).isNaN = true := by
    rw [carriedSum_succ]
    exact (lostTo_carriedSum hj hlost (by omega)).cancel (hlost.sub_right _)
  exact isNaN_carriedSum_mono hleaves hn

/-! ## Finite values -/

/-- A sum of finite values is undefined only after it has overflowed one way and a step overflows
the other way. -/
theorem isNaN_carriedSum_iff_cancel {n : ℕ}
    (hfinite : ∀ j < n + window, (values.getD j 0.0).isFinite = true) :
    (carriedSum values window n).isNaN = true ↔
      ∃ j < n, Cancel (carriedSum values window j) (stepChange values window j) := by
  induction n with
  | zero =>
    have hsum : ¬ (carriedSum values window 0).isNaN = true := by
      refine Double.not_isNaN_sum fun v hv => ?_
      obtain ⟨j, hj, rfl⟩ := List.mem_take_iff_getElem.mp hv
      have := hfinite j (by omega)
      rwa [List.getD_eq_getElem _ _ (by omega)] at this
    constructor
    · intro hnan
      exact absurd hnan hsum
    · rintro ⟨j, hj, -⟩
      omega
  | succ n ih =>
    have hchange : ¬ (stepChange values window n).isNaN = true :=
      Double.not_isNaN_sub (hfinite _ (by omega)) (hfinite _ (by omega))
    rw [carriedSum_succ, Double.isNaN_add_iff, ih fun j hj => hfinite j (by omega),
      or_iff_right hchange, Nat.exists_lt_succ_right]

/-! ## Means -/

/-- The mean that ends at position `i` is spoiled by what has left the window before: a value that
is not finite, or a step at which two infinities cancelled. -/
def Spoiled (values : List Float) (window i : ℕ) : Prop :=
  ∃ j, j + window ≤ i ∧ ((values.getD j 0.0).isFinite = false ∨
    Cancel (carriedSum values window j) (stepChange values window j))

/-- **A mean of finite values is undefined if it is spoiled,** and not otherwise. -/
theorem isNaN_runningMean_iff {i : ℕ} (hwindow : 2 ≤ window) (hword : window < 2 ^ 64)
    (hfrom : window - 1 ≤ i) (hto : i < values.length)
    (hfinite : ∀ j ≤ i, i < j + window → (values.getD j 0.0).isFinite = true) :
    ∃ x, (runningMean values window)[i]? = some x ∧
      (x.isNaN = true ↔ Spoiled values window i) := by
  obtain ⟨n, rfl⟩ : ∃ n, i = window - 1 + n := ⟨i - (window - 1), by omega⟩
  refine ⟨_, getElem?_runningMean hwindow (by omega) (by omega), ?_⟩
  rw [Double.isNaN_div_count (by omega) hword]
  constructor
  · intro hnan
    by_cases hleft : ∃ j < n, (values.getD j 0.0).isFinite = false
    · obtain ⟨j, hj, h⟩ := hleft
      exact ⟨j, by omega, .inl h⟩
    · -- neither in the window nor before it is there anything but finite values
      have hall : ∀ j < n + window, (values.getD j 0.0).isFinite = true := by
        intro j hj
        by_cases hbefore : j < n
        · exact Bool.not_eq_false _ ▸ fun h => hleft ⟨j, hbefore, h⟩
        · exact hfinite j (by omega) (by omega)
      obtain ⟨j, hj, h⟩ := (isNaN_carriedSum_iff_cancel hall).mp hnan
      exact ⟨j, by omega, .inr h⟩
  · rintro ⟨j, hj, h | h⟩
    · exact isNaN_carriedSum_of_left (by omega) (by omega) h (by omega)
    · have hstep : (carriedSum values window (j + 1)).isNaN = true := by
        rw [carriedSum_succ, Double.isNaN_add_iff]
        exact .inr (.inr h)
      exact isNaN_carriedSum_mono hstep (by omega)

/-- **What one mean tells about the values before its window.** Take two lists that agree on the
window that ends at position `i`, with finite values there. Both have a mean at `i`, and each of
them is undefined if and only if it is spoiled by what left the window before. So the two agree on
being undefined exactly if both lists are spoiled or neither of them is. -/
theorem isNaN_runningMean_agree_iff {first second : List Float} {i : ℕ}
    (hlength : first.length = second.length) (hwindow : 2 ≤ window) (hword : window < 2 ^ 64)
    (hfrom : window - 1 ≤ i) (hto : i < first.length)
    (hagree : ∀ j ≤ i, i < j + window → first.getD j 0.0 = second.getD j 0.0)
    (hfinite : ∀ j ≤ i, i < j + window → (first.getD j 0.0).isFinite = true) :
    ∃ x y, (runningMean first window)[i]? = some x ∧ (runningMean second window)[i]? = some y ∧
      (x.isNaN = true ↔ Spoiled first window i) ∧ (y.isNaN = true ↔ Spoiled second window i) ∧
      ((x.isNaN = true ↔ y.isNaN = true) ↔
        (Spoiled first window i ↔ Spoiled second window i)) := by
  obtain ⟨x, hx, hxnan⟩ := isNaN_runningMean_iff hwindow hword hfrom hto hfinite
  obtain ⟨y, hy, hynan⟩ := isNaN_runningMean_iff hwindow hword hfrom (hlength ▸ hto)
    fun j hj hin => hagree j hj hin ▸ hfinite j hj hin
  exact ⟨x, y, hx, hy, hxnan, hynan, by rw [hxnan, hynan]⟩

/-- Four values, the first of which has left the window when the others are averaged. -/
def followed (first : Float) : List Float :=
  [first, 1, 2, 3]

/-- An undefined value in front of a window with `1` and `2`, and a zero in its place. -/
theorem undefined_value_outlives_window :
    Spoiled (followed Float.nan) 2 2 ∧ ¬ Spoiled (followed 0) 2 2 ∧
    ∃ x y, (runningMean (followed Float.nan) 2)[2]? = some x ∧
      (runningMean (followed 0) 2)[2]? = some y ∧ x.isNaN = true ∧ y.isNaN = false := by
  have hlength : (followed Float.nan).length = (followed 0).length := rfl
  have hagree : ∀ j ≤ 2, 2 < j + 2 →
      (followed Float.nan).getD j 0.0 = (followed 0).getD j 0.0 := by
    intro j hj hin
    obtain ⟨k, rfl⟩ : ∃ k, j = k + 1 := ⟨j - 1, by omega⟩
    rfl
  have hfinite : ∀ j ≤ 2, 2 < j + 2 → ((followed Float.nan).getD j 0.0).isFinite = true := by
    decide +kernel
  obtain ⟨x, y, hx, hy, hxnan, hynan, -⟩ := isNaN_runningMean_agree_iff hlength
    (by decide) (by decide) (by decide) (by decide) hagree hfinite
  have hspoiled : Spoiled (followed Float.nan) 2 2 := ⟨0, by decide, .inl (by decide)⟩
  have hdefined : y.isNaN = false := by
    have hvalue : (runningMean (followed 0) 2)[2]?.map Float.isNaN = some false := by
      decide +kernel
    rw [hy] at hvalue
    exact Option.some.inj hvalue
  refine ⟨hspoiled, ?_, x, y, hx, hy, hxnan.mpr hspoiled, hdefined⟩
  intro h
  rw [hynan.mpr h] at hdefined
  cases hdefined

end FluidAnalysis.Numeric
