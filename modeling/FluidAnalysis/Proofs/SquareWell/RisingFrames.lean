import Mathlib
import FluidAnalysis.Proofs.Numeric.Extremes
import FluidAnalysis.Proofs.SquareWell.TrackedRows

/-!
# Counted frames rise

Frames are counted as long as each has no fewer iterations than the one before. Only neighbours are
compared; that no frame has fewer iterations than any earlier one follows because iterations are
numbers, and the order of numbers is transitive.

* `isChain_take_monotoneCount`, `exists_decrease` — the neighbours that are counted, and the two at
  which the count stops
* `monotoneCount_longest` — the counted frames are the longest beginning without a decrease
* `pairwise_iterations_direct` — the iterations of a comparison never decrease
-/

namespace FluidAnalysis

/-! ## Integers are numbers -/

namespace Double

theorem not_isNaN_ofNat (n : ℕ) : ¬ (Float.ofNat n).isNaN = true := by
  rcases Nat.eq_zero_or_pos n with rfl | hpos
  · decide
  · obtain ⟨m, e, hm, -, hparts⟩ := exists_parts_count hpos
    have hparts' : parts (Float.ofNat n)
        = if 971 < e then .infinity .positive else .finite .positive m e hm := hparts
    rw [isNaN_iff, hparts']
    split <;> simp

theorem not_isNaN_ofInt (n : ℤ) : ¬ (Float.ofInt n).isNaN = true := by
  cases n with
  | ofNat n => exact not_isNaN_ofNat n
  | negSucc n =>
    have hnumber := not_isNaN_ofNat n.succ
    rw [isNaN_iff] at hnumber ⊢
    show ¬ parts (-Float.ofNat n.succ) = _
    rw [parts_neg]
    cases hparts : parts (Float.ofNat n.succ) <;> simp_all [Float.Model.UnpackedFloat.neg]

end Double

namespace SquareWell

open Files Report

/-! ## Neighbours -/

section

variable {α : Type} [Scalar α]

theorem monotoneCount_le_length (xs : List α) : monotoneCount xs ≤ xs.length := by
  fun_induction monotoneCount xs with
  | case1 => exact Nat.le_refl 0
  | case2 => exact Nat.le_refl 1
  | case3 x y rest h => simp
  | case4 x y rest h ih => exact Nat.succ_le_succ ih

theorem monotoneCount_eq_zero_iff {xs : List α} : monotoneCount xs = 0 ↔ xs = [] := by
  constructor
  · intro hzero
    by_contra hne
    exact (monotoneCount_pos hne).ne' hzero
  · rintro rfl
    rfl

/-- No counted frame is below the one before. -/
theorem isChain_take_monotoneCount (xs : List α) :
    (xs.take (monotoneCount xs)).IsChain fun x y => ¬ y < x := by
  fun_induction monotoneCount xs with
  | case1 => exact List.isChain_nil
  | case2 x => exact List.isChain_singleton x
  | case3 x y rest h => exact List.isChain_singleton x
  | case4 x y rest h ih =>
    -- `y` counts as the first frame of the rest, and it is the only neighbour of `x`
    obtain ⟨counted, hcounted⟩ := exists_take_monotoneCount y rest
    rw [hcounted] at ih
    rw [List.take_succ_cons, hcounted]
    exact List.isChain_cons_cons.mpr ⟨h, ih⟩

/-- Where the count stops before the end, the first frame that is not counted is below the last one
that is. -/
theorem exists_decrease {xs : List α} (h : monotoneCount xs < xs.length) :
    ∃ before x y, before ++ [x, y] <+: xs ∧ before.length + 1 = monotoneCount xs ∧ y < x := by
  fun_induction monotoneCount xs with
  | case1 => exact absurd h (Nat.lt_irrefl 0)
  | case2 => exact absurd h (Nat.lt_irrefl 1)
  | case3 x y rest hlt => exact ⟨[], x, y, ⟨rest, rfl⟩, rfl, hlt⟩
  | case4 x y rest _ ih =>
    obtain ⟨before, v, w, hstart, hlength, hlt⟩ := ih (Nat.lt_of_succ_lt_succ h)
    refine ⟨x :: before, v, w, ?_, congrArg (· + 1) hlength, hlt⟩
    rw [List.cons_append]
    exact List.cons_prefix_cons.mpr ⟨rfl, hstart⟩

/-- Every longer beginning holds the two frames at which the count stops. -/
theorem exists_decrease_take {xs : List α} {n : ℕ} (hn : n ≤ xs.length)
    (h : monotoneCount xs < n) : ∃ x y, [x, y] <:+: xs.take n ∧ y < x := by
  obtain ⟨before, x, y, hstart, hlength, hlt⟩ := exists_decrease (h.trans_le hn)
  have htake : before ++ [x, y] <+: xs.take n := by
    refine List.prefix_take_iff.mpr ⟨hstart, ?_⟩
    rw [List.length_append, List.length_cons, List.length_singleton]
    omega
  exact ⟨x, y, (List.suffix_append before [x, y]).isInfix.trans htake.isInfix, hlt⟩

end

/-! ## All counted frames -/

/-- **No counted frame has fewer iterations than any earlier one.** -/
theorem pairwise_take_monotoneCount {iterations : List Float}
    (h : ∀ x ∈ iterations, ¬ x.isNaN = true) :
    (iterations.take (monotoneCount iterations)).Pairwise (· ≤ ·) := by
  have : Trans (α := Float) (· ≤ ·) (· ≤ ·) (· ≤ ·) := ⟨Double.le_trans⟩
  refine ((isChain_take_monotoneCount iterations).imp_of_mem_imp ?_).pairwise
  intro x y hx hy hle
  exact Double.le_of_not_lt (h y (List.mem_of_mem_take hy)) (h x (List.mem_of_mem_take hx)) hle

/-- **The counted frames are the longest beginning in which the iterations never decrease.** They
are a beginning of the frames, in which no frame has fewer iterations than any before it, and every
longer beginning has a frame with fewer iterations than its neighbour before. Only where there are
no frames does none count. -/
theorem monotoneCount_longest (iterations : List Float) (h : ∀ x ∈ iterations, ¬ x.isNaN = true) :
    monotoneCount iterations ≤ iterations.length ∧
      (iterations.take (monotoneCount iterations)).Pairwise (· ≤ ·) ∧
      (∀ n ≤ iterations.length, monotoneCount iterations < n →
        ∃ x y, [x, y] <:+: iterations.take n ∧ y < x) ∧
      (monotoneCount iterations = 0 ↔ iterations = []) :=
  ⟨monotoneCount_le_length iterations, pairwise_take_monotoneCount h,
    fun _ hn hlonger => exists_decrease_take hn hlonger, monotoneCount_eq_zero_iff⟩

/-- The iterations of a run that was started again after its third frame. -/
def restartedCounts : List Float :=
  [10, 20, 20, 5, 30].map Float.ofInt

/-- The three frames before the restart count, and the fourth is the decrease. -/
theorem restarted_run_counts_three :
    (∀ x ∈ restartedCounts, ¬ x.isNaN = true) ∧ monotoneCount restartedCounts = 3 ∧
      (restartedCounts.take 3).Pairwise (· ≤ ·) ∧
      ∃ x y, [x, y] <:+: restartedCounts.take 4 ∧ y < x := by
  have hnumbers : ∀ x ∈ restartedCounts, ¬ x.isNaN = true := by
    intro x hx
    obtain ⟨n, -, rfl⟩ := List.mem_map.mp hx
    exact Double.not_isNaN_ofInt n
  have hcount : monotoneCount restartedCounts = 3 := by decide +kernel
  obtain ⟨-, hsorted, hlonger, -⟩ := monotoneCount_longest restartedCounts hnumbers
  rw [hcount] at hsorted hlonger
  exact ⟨hnumbers, hcount, hsorted, hlonger 4 (by decide) (by decide)⟩

/-! ## Comparisons -/

theorem Frame.not_isNaN_iterations {source : String} {t : Table Float} {frame : Frame}
    (h : Frame.ofSource source t = .ok frame) : ¬ frame.iterations.isNaN = true := by
  unfold Frame.ofSource at h
  cases hiterations : Table.headerInteger? source "iterations" with
  | none =>
    rw [hiterations] at h
    cases h
  | some iterations =>
    rw [hiterations] at h
    obtain ⟨energies, -, h⟩ := bind_eq_ok_iff.mp h
    obtain ⟨lnDos, -, h⟩ := bind_eq_ok_iff.mp h
    obtain ⟨roundTrips, -, h⟩ := bind_eq_ok_iff.mp h
    obtain ⟨fromTransitions, -, h⟩ := bind_eq_ok_iff.mp h
    cases h
    exact Double.not_isNaN_ofInt iterations

/-- **The iterations of a comparison never decrease,** whatever the frames of the method are. -/
theorem pairwise_iterations_direct {a : ConvergenceReport} {dataRoot : Path} {files : Tree}
    {reference : Reference} {method : String} {history : MethodHistory}
    (h : a.compareMethod dataRoot files reference method = .ok (some history)) :
    history.direct.iterations.Pairwise (· ≤ ·) := by
  obtain ⟨frames, expected, scores, hframes, -, hscores, rfl⟩ := exists_frames h
  rw [MethodHistory.iterations_ofScores_direct, MethodHistory.frameCount, iterations_scores hscores]
  refine pairwise_take_monotoneCount ?_
  intro x hx
  obtain ⟨frame, hframe, rfl⟩ := List.mem_map.mp hx
  obtain ⟨path, hpath⟩ := hframes.exists_loaded hframe
  obtain ⟨source, -, hsource⟩ := bind_eq_ok_iff.mp hpath
  exact Frame.not_isNaN_iterations hsource

end SquareWell

end FluidAnalysis
