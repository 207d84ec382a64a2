import Mathlib
import FluidAnalysis.Numeric.RunningMean
import FluidAnalysis.Proofs.Exact

/-!
# The running mean as a mean

The running mean never adds up a window again. It carries one sum along, and each step adds the
value that enters the window and removes the one that leaves it (`carriedSum`). In exact arithmetic
this sum is that of the current window at every step (`carriedSum_eq_sum`).

Main statement: `runningMean_eq_windowMean`.
-/

namespace FluidAnalysis.Numeric

open Exact

section Entries

variable {α : Type} [Scalar α]

/-- The sum that is carried along, `n` steps behind the first full window. -/
def carriedSum (values : List α) (window : ℕ) : ℕ → α
  | 0 => sum (values.take window)
  | n + 1 => carriedSum values window n + (values.getD (n + window) 0.0 - values.getD n 0.0)

theorem head?_slidingSums (total : α) (steps : List (α × α)) :
    (slidingSums total steps)[0]? = some total := by
  cases steps <;> rfl

/-- One step of the sliding sum. -/
theorem getElem?_slidingSums_succ {total current : α} {steps : List (α × α)} {n : ℕ}
    {entering leaving : α} (hcurrent : (slidingSums total steps)[n]? = some current)
    (hstep : steps[n]? = some (entering, leaving)) :
    (slidingSums total steps)[n + 1]? = some (current + (entering - leaving)) := by
  induction steps generalizing total n with
  | nil => cases hstep
  | cons first rest ih =>
    cases n with
    | zero =>
      obtain rfl : total = current := Option.some.inj hcurrent
      obtain rfl : first = (entering, leaving) := Option.some.inj hstep
      exact head?_slidingSums _ rest
    | succ n => exact ih hcurrent hstep

variable {values : List α} {window : ℕ}

/-- The sums of the windows are those that are carried along. -/
theorem getElem?_slidingSums {n : ℕ} (h : n + window ≤ values.length) :
    (slidingSums (sum (values.take window)) ((values.drop window).zip values))[n]?
      = some (carriedSum values window n) := by
  induction n with
  | zero => exact head?_slidingSums _ _
  | succ n ih =>
    have hentering : n + window < values.length := by omega
    have hleaving : n < values.length := by omega
    have hstep : ((values.drop window).zip values)[n]?
        = some (values.getD (n + window) 0.0, values.getD n 0.0) := by
      rw [List.getElem?_zip_eq_some, List.getElem?_drop, Nat.add_comm window n,
        List.getElem?_eq_getElem hentering, List.getElem?_eq_getElem hleaving]
      simp [hentering, hleaving]
    exact getElem?_slidingSums_succ (ih (by omega)) hstep

theorem runningMean_of_narrow (h : window ≤ 1 ∨ values.length < window) :
    runningMean values window = values :=
  if_pos h

theorem runningMean_of_wide (hwindow : 2 ≤ window) (hfits : window ≤ values.length) :
    runningMean values window = values.take (window - 1) ++
      (slidingSums (sum (values.take window)) ((values.drop window).zip values)).map
        (· / (window : α)) :=
  if_neg (by omega)

/-- In front of the first full window the values themselves stand. -/
theorem getElem?_runningMean_of_lt (hwindow : 2 ≤ window) (hfits : window ≤ values.length) {i : ℕ}
    (hi : i < window - 1) : (runningMean values window)[i]? = values[i]? := by
  have hlength : (values.take (window - 1)).length = window - 1 := by
    rw [List.length_take]
    omega
  rw [runningMean_of_wide hwindow hfits, List.getElem?_append_left (by omega),
    List.getElem?_take_of_lt hi]

/-- From the first full window on, an entry is the carried sum over the length of the window. -/
theorem getElem?_runningMean (hwindow : 2 ≤ window) (hfits : window ≤ values.length) {n : ℕ}
    (hn : n + window ≤ values.length) :
    (runningMean values window)[window - 1 + n]?
      = some (carriedSum values window n / (window : α)) := by
  have hlength : (values.take (window - 1)).length = window - 1 := by
    rw [List.length_take]
    omega
  rw [runningMean_of_wide hwindow hfits, List.getElem?_append_right (by omega), hlength,
    Nat.add_sub_cancel_left, List.getElem?_map, getElem?_slidingSums hn]
  rfl

end Entries

/-! ## Exact arithmetic -/

section Exact

variable {K : Type} [Field K] [LinearOrder K] [IsStrictOrderedRing K] [IntegerParts K]

/-- The values of a window, from a position on. -/
def windowAt (values : List K) (window first : ℕ) : List K :=
  (values.drop first).take window

omit [IsStrictOrderedRing K] in
/-- A window that moves on loses its first value and gains the one behind it. -/
theorem sum_windowAt_succ {values : List K} {window n : ℕ} (hwindow : 0 < window)
    (h : n + window < values.length) :
    (windowAt values window (n + 1)).sum
      = (windowAt values window n).sum + (values.getD (n + window) 0.0 - values.getD n 0.0) := by
  obtain ⟨k, rfl⟩ : ∃ k, window = k + 1 := ⟨window - 1, by omega⟩
  have hn : n < values.length := by omega
  have hlast : k < (values.drop (n + 1)).length := by
    rw [List.length_drop]
    omega
  -- both windows share the values between the one that leaves and the one that enters
  have hbefore : windowAt values (k + 1) n
      = values.getD n 0.0 :: (values.drop (n + 1)).take k := by
    rw [windowAt, List.drop_eq_getElem_cons hn, List.take_succ_cons]
    simp [hn]
  have hafter : windowAt values (k + 1) (n + 1)
      = (values.drop (n + 1)).take k ++ [values.getD (n + (k + 1)) 0.0] := by
    rw [windowAt, List.take_succ_eq_append_getElem hlast, List.getElem_drop]
    simp [h, Nat.add_assoc, Nat.add_comm 1 k]
  rw [hbefore, hafter, List.sum_cons, List.sum_append, List.sum_singleton]
  ring

/-- **The sum that is carried along is that of the current window,** at every step. -/
theorem carriedSum_eq_sum {values : List K} {window n : ℕ} (hwindow : 0 < window)
    (h : n + window ≤ values.length) :
    carriedSum values window n = (windowAt values window n).sum := by
  induction n with
  | zero => exact scalarSum_eq _
  | succ n ih =>
    rw [carriedSum, ih (by omega), sum_windowAt_succ hwindow (by omega)]

/-- **The running mean is the mean of the window.** It has as many entries as there are values. A
window of at most one value, or of more than there are, leaves the values as they are. Otherwise
each entry is the mean of the window that ends at its position, and the values themselves stand
where no window ends. -/
theorem runningMean_eq_windowMean (values : List K) (window : ℕ) :
    (runningMean values window).length = values.length ∧
    (window ≤ 1 ∨ values.length < window → runningMean values window = values) ∧
    (1 < window → window ≤ values.length →
      (∀ i < window - 1, (runningMean values window)[i]? = values[i]?) ∧
      ∀ i, window - 1 ≤ i → i < values.length →
        (windowAt values window (i + 1 - window)).length = window ∧
        (runningMean values window)[i]?
          = some ((windowAt values window (i + 1 - window)).sum / window)) := by
  refine ⟨length_runningMean values window, runningMean_of_narrow, fun hwindow hfits => ⟨?_, ?_⟩⟩
  · intro i hi
    exact getElem?_runningMean_of_lt hwindow hfits hi
  · intro i hfrom hto
    obtain ⟨n, rfl⟩ : ∃ n, i = window - 1 + n := ⟨i - (window - 1), by omega⟩
    have hfirst : window - 1 + n + 1 - window = n := by omega
    have hn : n + window ≤ values.length := by omega
    rw [hfirst, getElem?_runningMean hwindow hfits hn, carriedSum_eq_sum (by omega) hn]
    refine ⟨?_, rfl⟩
    rw [windowAt, List.length_take, List.length_drop]
    omega

/-- A window of two values and one of all. -/
theorem runningMean_eq_windowMean_four :
    (runningMean [1, 3, 5, 7] 2 : List ℚ)[0]? = some 1 ∧
    (runningMean [1, 3, 5, 7] 2 : List ℚ)[2]? = some 4 ∧
    (runningMean [1, 3, 5, 7] 4 : List ℚ)[3]? = some 4 := by
  obtain ⟨-, -, htwo⟩ := runningMean_eq_windowMean ([1, 3, 5, 7] : List ℚ) 2
  obtain ⟨-, -, hall⟩ := runningMean_eq_windowMean ([1, 3, 5, 7] : List ℚ) 4
  obtain ⟨hraw, hmeans⟩ := htwo (by decide) (by decide)
  obtain ⟨-, hmean⟩ := (hall (by decide) (by decide)).2 3 (by decide) (by decide)
  refine ⟨hraw 0 (by decide), ?_, ?_⟩
  · rw [(hmeans 2 (by decide) (by decide)).2]
    norm_num [windowAt]
  · rw [hmean]
    norm_num [windowAt]

end Exact

end FluidAnalysis.Numeric
