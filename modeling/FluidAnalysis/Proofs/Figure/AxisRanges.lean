import Mathlib
import FluidAnalysis.Figure.Basic
import FluidAnalysis.Proofs.Extended

/-!
# Axis ranges

A range that is not given lies around the finite values of its axis: the coordinates of the points
that can be drawn, and the guide lines. It depends on nothing else, and every one of these values
stands strictly inside.

* `Panel.HasValue` — the finite values of an axis
* `widened_encloses` — a pair of bounds is moved apart, whatever its distance
* `automaticRange_eq_widened` — a range comes from the least and the greatest finite value
* `Panel.resolved_congr` — a range depends on the set of values only

Main statement: `Panel.resolved_encloses`, in exact arithmetic with infinite and undefined values.
-/

namespace FluidAnalysis.Figure

open Exact Extended Numeric

/-! ## Two bounds moved apart -/

/-- Two bounds moved apart by five percent of their distance on each side, or by a half when they
are as good as equal. -/
def widened {α : Type} [Scalar α] (low high : α) : α × α :=
  if high - low ≤ epsilon * larger (Scalar.abs low) 1.0 then (low - 0.5, high + 0.5)
  else (low - 0.05 * (high - low), high + 0.05 * (high - low))

variable {K : Type} [Field K] [LinearOrder K] [IsStrictOrderedRing K] [IntegerParts K]

theorem epsilon_pos : 0 < (epsilon : K) := by
  unfold epsilon
  norm_num

theorem epsilon_finite : (epsilon : Extended K) = finite epsilon := by
  have hscale : (4503599627370496.0 : K) ≠ 0 := by norm_num
  exact finite_div hscale

theorem widened_finite (low high : K) :
    widened (finite low) (finite high) = Prod.map finite finite (widened low high) := by
  have hsize : larger (Scalar.abs (finite low)) 1.0 = finite (larger (Scalar.abs low) 1.0) :=
    larger_finite |low| 1.0
  unfold widened
  rw [hsize, epsilon_finite, finite_mul, finite_sub]
  by_cases h : high - low ≤ epsilon * larger (Scalar.abs low) 1.0
  · rw [if_pos h, if_pos (finite_le_iff.mpr h)]
    rfl
  · rw [if_neg h, if_neg (mt finite_le_iff.mp h)]
    rfl

theorem widened_encloses (low high : K) :
    (widened low high).1 < low ∧ high < (widened low high).2 := by
  unfold widened
  split_ifs with hclose
  · norm_num
  · -- The limit for closeness is positive, and so is a distance above it.
    have hlimit : 0 < epsilon * larger (Scalar.abs low) 1.0 := by
      rw [larger_eq_max, literalOne_eq]
      exact mul_pos epsilon_pos (lt_max_of_lt_right one_pos)
    have hspan : 0 < high - low := hlimit.trans (not_le.mp hclose)
    have hstep : 0 < 0.05 * (high - low) := mul_pos (by norm_num) hspan
    exact ⟨sub_lt_self low hstep, lt_add_of_pos_right high hstep⟩

/-! ## Ranges around values -/

/-- An infinity above all values gives way to the first of them. -/
theorem foldl_smaller_infinity (first : K) (rest : List K) :
    ((first :: rest).map finite).foldl smaller (1.0 / 0.0) = finite (minimum (first :: rest)) := by
  have hfirst : smaller (infinite false) (finite first) = finite first := rfl
  unfold minimum
  rw [infinity_eq, filter_numbers, List.map_cons, List.foldl_cons, hfirst, List.foldl_map,
    List.foldl_hom finite fun x y => smaller_finite x y]

theorem foldl_larger_infinity (first : K) (rest : List K) :
    ((first :: rest).map finite).foldl larger (-(1.0 / 0.0)) = finite (maximum (first :: rest)) := by
  have hfirst : larger (-infinite false) (finite first) = finite first := rfl
  unfold maximum
  rw [infinity_eq, filter_numbers, List.map_cons, List.foldl_cons, hfirst, List.foldl_map,
    List.foldl_hom finite fun x y => larger_finite x y]

theorem automaticRange_eq_widened {values : List (Extended K)} (hne : finiteValues values ≠ []) :
    automaticRange values = Prod.map finite finite
      (widened (minimum (finiteValues values)) (maximum (finiteValues values))) := by
  obtain ⟨first, rest, hcons⟩ := List.exists_cons_of_ne_nil hne
  rw [hcons, ← widened_finite]
  unfold automaticRange
  rw [filter_isFinite, hcons]
  simp only [foldl_smaller_infinity, foldl_larger_infinity]
  rfl

/-- Without a finite value the bounds stay infinite. -/
theorem automaticRange_of_nil {values : List (Extended K)} (hnil : finiteValues values = []) :
    automaticRange values = (finite 0, finite 1) := by
  unfold automaticRange
  rw [filter_isFinite, hnil, infinity_eq]
  exact Prod.ext (congrArg finite literalZero_eq) (congrArg finite literalOne_eq)

/-- Neither the order of the values nor how often one occurs plays a part. -/
theorem automaticRange_congr {values others : List (Extended K)}
    (h : ∀ v : K, finite v ∈ values ↔ finite v ∈ others) :
    automaticRange values = automaticRange others := by
  have hsame : ∀ v, v ∈ finiteValues values ↔ v ∈ finiteValues others := by
    intro v
    rw [mem_finiteValues_iff, mem_finiteValues_iff, h]
  have hset : {v | v ∈ finiteValues values} = {v | v ∈ finiteValues others} := Set.ext hsame
  by_cases hnil : finiteValues values = []
  · have hothers : finiteValues others = [] :=
      List.eq_nil_iff_forall_not_mem.mpr fun v hv => by simpa [hnil] using (hsame v).mpr hv
    rw [automaticRange_of_nil hnil, automaticRange_of_nil hothers]
  · have hothers : finiteValues others ≠ [] := by
      obtain ⟨v, hv⟩ := List.exists_mem_of_ne_nil _ hnil
      exact List.ne_nil_of_mem ((hsame v).mp hv)
    have hlow := (isLeast_minimum hnil).unique (hset ▸ isLeast_minimum hothers)
    have hhigh := (isGreatest_maximum hnil).unique (hset ▸ isGreatest_maximum hothers)
    rw [automaticRange_eq_widened hnil, automaticRange_eq_widened hothers, hlow, hhigh]

theorem automaticRange_encloses (values : List (Extended K)) :
    ∃ low high : K, automaticRange values = (finite low, finite high) ∧ low < high ∧
      ∀ v, finite v ∈ values → low < v ∧ v < high := by
  by_cases hnil : finiteValues values = []
  · refine ⟨0, 1, automaticRange_of_nil hnil, one_pos, fun v hv => ?_⟩
    rw [← mem_finiteValues_iff, hnil] at hv
    simp at hv
  · have hleast := isLeast_minimum hnil
    have hgreatest := isGreatest_maximum hnil
    have hordered := hleast.2 hgreatest.1
    obtain ⟨hlow, hhigh⟩ :=
      widened_encloses (minimum (finiteValues values)) (maximum (finiteValues values))
    refine ⟨_, _, automaticRange_eq_widened hnil, hlow.trans_le (hordered.trans hhigh.le), ?_⟩
    intro v hv
    have hmem : v ∈ finiteValues values := mem_finiteValues_iff.mpr hv
    exact ⟨hlow.trans_le (hleast.2 hmem), (hgreatest.2 hmem).trans_lt hhigh⟩

/-! ## The axes of a panel -/

inductive Axis where
  | x
  | y
deriving Repr, DecidableEq

def Axis.coordinate {α : Type} : Axis → α × α → α
  | .x, point => point.1
  | .y, point => point.2

namespace Panel

section

variable {α : Type}

/-- The range that was asked for. -/
def given (p : Panel α) : Axis → Option (α × α)
  | .x => p.xRange
  | .y => p.yRange

/-- The guide lines that cross an axis. -/
def guides (p : Panel α) : Axis → List α
  | .x => p.verticalLines
  | .y => p.horizontalLines

/-- A panel with its series, the points of each series and its guide lines in another order.
Nothing is said of titles, labels and styles. -/
structure Reordered (p q : Panel α) : Prop where
  given_eq : ∀ axis, q.given axis = p.given axis
  series : ∃ middle, p.series.Perm middle ∧
    List.Forall₂ (fun s t => s.points.Perm t.points) middle q.series
  guides : ∀ axis, (p.guides axis).Perm (q.guides axis)

variable [Scalar α]

/-- The range that is drawn. -/
def resolved (p : Panel α) : Axis → α × α
  | .x => p.resolvedX
  | .y => p.resolvedY

/-- A panel without the points that have a coordinate that is not finite. -/
def drawable (p : Panel α) : Panel α :=
  { p with series := p.series.map fun s => { s with points := s.finitePoints } }

theorem resolved_eq (p : Panel α) (axis : Axis) :
    p.resolved axis
      = (p.given axis).getD (automaticRange (p.finitePoints.map axis.coordinate ++ p.guides axis)) := by
  cases axis with
  | x => rfl
  | y => rfl

theorem finitePoints_drawable (p : Panel α) : p.drawable.finitePoints = p.finitePoints := by
  unfold finitePoints drawable Series.finitePoints
  rw [List.flatMap_map]
  simp only [List.filter_filter, Bool.and_self]

theorem resolved_drawable (p : Panel α) (axis : Axis) :
    p.drawable.resolved axis = p.resolved axis := by
  rw [resolved_eq, resolved_eq, finitePoints_drawable]
  cases axis with
  | x => rfl
  | y => rfl

theorem Reordered.finitePoints_perm {p q : Panel α} (h : p.Reordered q) :
    p.finitePoints.Perm q.finitePoints := by
  obtain ⟨middle, hseries, hpoints⟩ := h.series
  refine (hseries.flatMap_right Series.finitePoints).trans ?_
  -- Series after series, the points that remain of it stay the same.
  rw [List.flatMap_def, finitePoints, List.flatMap_def]
  apply List.Perm.flatten_congr
  rw [List.forall₂_map_left_iff, List.forall₂_map_right_iff]
  exact hpoints.imp fun _ _ hperm => hperm.filter _

end

/-- The finite values of an axis. A point counts when both of its coordinates are finite. -/
inductive HasValue (p : Panel (Extended K)) (axis : Axis) (v : K) : Prop where
  | point (s : Series (Extended K)) (x y : K) (hs : s ∈ p.series)
      (hpoint : (finite x, finite y) ∈ s.points) (hv : axis.coordinate (x, y) = v)
  | guide (hguide : finite v ∈ p.guides axis)

omit [IsStrictOrderedRing K] in
theorem mem_finitePoints_iff {p : Panel (Extended K)} {point : Extended K × Extended K} :
    point ∈ p.finitePoints ↔
      ∃ s ∈ p.series, ∃ x y : K, (finite x, finite y) ∈ s.points ∧ point = (finite x, finite y) := by
  unfold finitePoints Series.finitePoints
  simp only [List.mem_flatMap, List.mem_filter, Bool.and_eq_true, isFinite_iff]
  constructor
  · rintro ⟨s, hs, hpoint, ⟨x, hx⟩, y, hy⟩
    obtain rfl : point = (finite x, finite y) := Prod.ext hx hy
    exact ⟨s, hs, x, y, hpoint, rfl⟩
  · rintro ⟨s, hs, x, y, hpoint, rfl⟩
    exact ⟨s, hs, hpoint, ⟨x, rfl⟩, y, rfl⟩

omit [IsStrictOrderedRing K] in
theorem hasValue_iff {p : Panel (Extended K)} {axis : Axis} {v : K} :
    p.HasValue axis v ↔ finite v ∈ p.finitePoints.map axis.coordinate ++ p.guides axis := by
  have hcoordinate : ∀ x y : K,
      axis.coordinate (finite x, finite y) = finite (axis.coordinate (x, y)) := by
    cases axis with
    | x => exact fun _ _ => rfl
    | y => exact fun _ _ => rfl
  rw [List.mem_append, List.mem_map]
  constructor
  · rintro (⟨s, x, y, hs, hpoint, rfl⟩ | hguide)
    · exact .inl ⟨_, mem_finitePoints_iff.mpr ⟨s, hs, x, y, hpoint, rfl⟩, hcoordinate x y⟩
    · exact .inr hguide
  · rintro (⟨point, hpoint, hv⟩ | hguide)
    · obtain ⟨s, hs, x, y, hmem, rfl⟩ := mem_finitePoints_iff.mp hpoint
      rw [hcoordinate] at hv
      exact .point s x y hs hmem (Extended.finite.inj hv)
    · exact .guide hguide

/-- A range depends on the values of its axis and on nothing else. -/
theorem resolved_congr {p q : Panel (Extended K)} {axis : Axis}
    (hgiven : q.given axis = p.given axis) (h : ∀ v, q.HasValue axis v ↔ p.HasValue axis v) :
    q.resolved axis = p.resolved axis := by
  rw [resolved_eq, resolved_eq, hgiven]
  congr 1
  apply automaticRange_congr
  intro v
  rw [← hasValue_iff, ← hasValue_iff, h]

omit [IsStrictOrderedRing K] in
theorem Reordered.hasValue_iff {p q : Panel (Extended K)} (h : p.Reordered q) (axis : Axis) (v : K) :
    q.HasValue axis v ↔ p.HasValue axis v := by
  rw [Panel.hasValue_iff, Panel.hasValue_iff]
  exact ((h.finitePoints_perm.map axis.coordinate).append (h.guides axis)).mem_iff.symm

/-! ## Ranges that hold the data -/

/-- A range that is not given is finite and not empty, and it holds every finite point and every
finite guide line strictly inside. Points that cannot be drawn and the order of things do not
change it, and without any value it is the range from zero to one. -/
theorem resolved_encloses (p : Panel (Extended K)) (axis : Axis) (hnone : p.given axis = none) :
    (∃ low high : K, p.resolved axis = (finite low, finite high) ∧ low < high ∧
      ∀ v, p.HasValue axis v → low < v ∧ v < high) ∧
    p.drawable.resolved axis = p.resolved axis ∧
    (∀ q, p.Reordered q → q.resolved axis = p.resolved axis) ∧
    ((∀ v, ¬p.HasValue axis v) → p.resolved axis = (finite 0, finite 1)) := by
  have hrange : p.resolved axis
      = automaticRange (p.finitePoints.map axis.coordinate ++ p.guides axis) := by
    rw [resolved_eq, hnone, Option.getD_none]
  refine ⟨?_, resolved_drawable p axis, ?_, ?_⟩
  · obtain ⟨low, high, heq, hlt, hinside⟩ :=
      automaticRange_encloses (p.finitePoints.map axis.coordinate ++ p.guides axis)
    exact ⟨low, high, hrange.trans heq, hlt, fun v hv => hinside v (hasValue_iff.mp hv)⟩
  · intro q hq
    exact resolved_congr (hq.given_eq axis) (hq.hasValue_iff axis)
  · intro hempty
    rw [hrange]
    apply automaticRange_of_nil
    rw [List.eq_nil_iff_forall_not_mem]
    intro v hv
    exact hempty v (hasValue_iff.mpr (mem_finiteValues_iff.mp hv))

/-- Two of the four points cannot be drawn, and one of the two guide lines. -/
def mixedPanel : Panel (Extended ℚ) where
  title := "t"
  xLabel := "x"
  yLabel := "y"
  series := [.mk "a" [(finite 0, finite 1), (undefined, finite 100), (finite 10, finite 3),
    (finite 50, infinite false)] ⟨.pureBlack, .line⟩]
  verticalLines := [infinite true, finite 20]

theorem mixedPanel_resolved :
    mixedPanel.given .x = none ∧ mixedPanel.HasValue .x 10 ∧ mixedPanel.HasValue .x 20 ∧
    (∃ low high : ℚ, mixedPanel.resolved .x = (finite low, finite high) ∧
      low < 10 ∧ 20 < high) ∧
    mixedPanel.resolved .x = (finite (-1), finite 21) ∧
    mixedPanel.drawable.resolved .x = mixedPanel.resolved .x := by
  have hpoint : mixedPanel.HasValue .x 10 :=
    .point _ 10 3 (List.mem_singleton_self _) (by simp) rfl
  have hguide : mixedPanel.HasValue .x 20 := .guide (by simp [mixedPanel, guides])
  obtain ⟨⟨low, high, heq, -, hinside⟩, hdrawable, -, -⟩ := resolved_encloses mixedPanel .x rfl
  exact ⟨rfl, hpoint, hguide, ⟨low, high, heq, (hinside 10 hpoint).1, (hinside 20 hguide).2⟩,
    by decide +kernel, hdrawable⟩

end Panel

end FluidAnalysis.Figure
