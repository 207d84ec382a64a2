import Mathlib
import FluidAnalysis.Proofs.Double.Monotone

/-!
# Extremes and means of doubles

The extremes of a list pass over the values that are no number. So they are numbers of the list, and
bound all its numbers (`IsExtreme`), as long as the list holds one. If it holds none, the largest
number is `-∞` and the smallest one `∞`.

* `IsExtreme.foldl` — what a scan keeps, for both extremes
* `isExtreme_maximum`, `isExtreme_minimum`
* `zero_le_spread_iff` — the largest number is not below the smallest one, unless there is none
* `mean_le_mean_replicate` — the mean of numbers between zero and a bound
-/

namespace FluidAnalysis

open Double

/-! ## Numbers are ordered -/

namespace Double

variable {x y : Float}

theorem exists_place (h : ¬ x.isNaN = true) : ∃ p, p ∈ place (parts x) := by
  rw [isNaN_iff] at h
  rcases hu : parts x with (_ | _) | _ | _ | ⟨(_ | _), m, e, hm⟩ <;> simp [hu, place] at h ⊢

theorem le_self (h : ¬ x.isNaN = true) : x ≤ x := by
  obtain ⟨p, hp⟩ := exists_place h
  exact le_iff_place.mpr ⟨p, hp, p, hp, le_rfl⟩

theorem le_of_not_lt (hx : ¬ x.isNaN = true) (hy : ¬ y.isNaN = true) (h : ¬ x < y) : y ≤ x := by
  obtain ⟨p, hp⟩ := exists_place hx
  obtain ⟨q, hq⟩ := exists_place hy
  refine le_iff_place.mpr ⟨q, hq, p, hp, le_of_not_gt fun hpq => h ?_⟩
  exact lt_iff_place.mpr ⟨p, hp, q, hq, hpq⟩

theorem le_of_beq (h : (x == y) = true) : x ≤ y := by
  obtain ⟨p, hp, hq⟩ := beq_iff_place.mp h
  exact le_iff_place.mpr ⟨p, hp, p, hq, le_rfl⟩

/-- What is no number differs from itself. -/
theorem beq_self_iff : (x == x) = true ↔ ¬ x.isNaN = true := by
  rw [beq_iff_place]
  constructor
  · rintro ⟨p, hp, -⟩ hnan
    rw [isNaN_iff.mp hnan] at hp
    cases hp
  · intro h
    obtain ⟨p, hp⟩ := exists_place h
    exact ⟨p, hp, hp⟩

end Double

namespace Numeric

/-! ## Scans for an extreme -/

/-- The value is a number of the list, and no number of the list comes after it. -/
structure IsExtreme (le : Float → Float → Prop) (values : List Float) (extreme : Float) : Prop where
  mem : extreme ∈ values
  number : ¬ extreme.isNaN = true
  bound : ∀ v ∈ values, v.isNaN = true ∨ le v extreme

/-- A choice between a number and a value takes the one that comes after, and never a value that is
no number. -/
def Chooses (le : Float → Float → Prop) (choose : Float → Float → Float) : Prop :=
  ∀ x y, ¬ x.isNaN = true →
    choose x y = x ∧ (y.isNaN = true ∨ le y x) ∨
      choose x y = y ∧ ¬ y.isNaN = true ∧ le x y

section Scan

variable {le : Float → Float → Prop} {choose : Float → Float → Float} {values : List Float}
  {extreme : Float}

theorem isExtreme_singleton {x : Float} (hx : ¬ x.isNaN = true) (hself : le x x) :
    IsExtreme le [x] x where
  mem := List.mem_singleton_self x
  number := hx
  bound v hv := by
    rw [List.mem_singleton.mp hv]
    exact .inr hself

/-- One more value. -/
theorem IsExtreme.step (h : IsExtreme le values extreme) (hchoose : Chooses le choose)
    (htrans : ∀ {x y z}, le x y → le y z → le x z) (hself : ∀ {x : Float}, ¬ x.isNaN = true → le x x)
    (y : Float) : IsExtreme le (values ++ [y]) (choose extreme y) := by
  rcases hchoose extreme y h.number with ⟨hkeep, hy⟩ | ⟨htake, hnumber, hafter⟩
  · rw [hkeep]
    refine ⟨List.mem_append_left _ h.mem, h.number, fun v hv => ?_⟩
    rcases List.mem_append.mp hv with hv | hv
    · exact h.bound v hv
    · rw [List.mem_singleton.mp hv]
      exact hy
  · rw [htake]
    refine ⟨List.mem_append_right _ (List.mem_singleton_self y), hnumber, fun v hv => ?_⟩
    rcases List.mem_append.mp hv with hv | hv
    · exact (h.bound v hv).imp_right fun hle => htrans hle hafter
    · rw [List.mem_singleton.mp hv]
      exact .inr (hself hnumber)

/-- A whole scan. -/
theorem IsExtreme.foldl (h : IsExtreme le values extreme) (hchoose : Chooses le choose)
    (htrans : ∀ {x y z}, le x y → le y z → le x z) (hself : ∀ {x : Float}, ¬ x.isNaN = true → le x x)
    (more : List Float) : IsExtreme le (values ++ more) (more.foldl choose extreme) := by
  induction more generalizing values extreme with
  | nil => simpa using h
  | cons y more ih =>
    rw [← List.singleton_append, ← List.append_assoc]
    exact ih (h.step hchoose htrans hself y)

theorem IsExtreme.of_filter (h : IsExtreme le (values.filter fun x => x == x) extreme) :
    IsExtreme le values extreme where
  mem := List.mem_of_mem_filter h.mem
  number := h.number
  bound v hv := by
    by_cases hnan : v.isNaN = true
    · exact .inl hnan
    · exact h.bound v (List.mem_filter.mpr ⟨hv, beq_self_iff.mpr hnan⟩)

end Scan

/-! ## The largest and the smallest number -/

theorem chooses_larger : Chooses (· ≤ ·) larger := by
  intro x y hx
  unfold larger
  rw [if_pos (beq_self_iff.mpr hx)]
  by_cases hlt : x < y
  · rw [if_pos hlt]
    exact .inr ⟨rfl, (not_isNaN_of_le (le_of_lt hlt)).2, le_of_lt hlt⟩
  · rw [if_neg hlt]
    by_cases hy : y.isNaN = true
    · exact .inl ⟨rfl, .inl hy⟩
    · exact .inl ⟨rfl, .inr (le_of_not_lt hx hy hlt)⟩

theorem chooses_smaller : Chooses (· ≥ ·) smaller := by
  intro x y hx
  unfold smaller
  rw [if_pos (beq_self_iff.mpr hx)]
  by_cases hlt : y < x
  · rw [if_pos hlt]
    exact .inr ⟨rfl, (not_isNaN_of_le (le_of_lt hlt)).1, le_of_lt hlt⟩
  · rw [if_neg hlt]
    by_cases hy : y.isNaN = true
    · exact .inl ⟨rfl, .inl hy⟩
    · exact .inl ⟨rfl, .inr (le_of_not_lt hy hx hlt)⟩

/-- The largest number that a scan meets, the one it starts from included. -/
theorem isExtreme_foldl_larger {start : Float} (hstart : ¬ start.isNaN = true)
    (values : List Float) : IsExtreme (· ≤ ·) (start :: values) (values.foldl larger start) :=
  (isExtreme_singleton hstart (le_self hstart)).foldl chooses_larger le_trans le_self values

theorem isExtreme_foldl_smaller {start : Float} (hstart : ¬ start.isNaN = true)
    (values : List Float) : IsExtreme (· ≥ ·) (start :: values) (values.foldl smaller start) := by
  have hfirst : IsExtreme (· ≥ ·) [start] start := isExtreme_singleton hstart (le_self hstart)
  exact hfirst.foldl chooses_smaller (fun hxy hyz => le_trans hyz hxy) le_self values

section Extremes

variable {values : List Float}

theorem filter_eq_nil (h : ∀ v ∈ values, v.isNaN = true) :
    (values.filter fun x => x == x) = [] := by
  rw [List.filter_eq_nil_iff]
  intro v hv hself
  exact beq_self_iff.mp hself (h v hv)

theorem exists_filter_eq_cons (h : ∃ v ∈ values, ¬ v.isNaN = true) :
    ∃ first rest, (values.filter fun x => x == x) = first :: rest ∧ ¬ first.isNaN = true := by
  obtain ⟨v, hv, hnumber⟩ := h
  have hmem : v ∈ values.filter fun x => x == x :=
    List.mem_filter.mpr ⟨hv, beq_self_iff.mpr hnumber⟩
  obtain ⟨first, rest, hfilter⟩ := List.exists_cons_of_ne_nil (List.ne_nil_of_mem hmem)
  have hfirst : first ∈ values.filter fun x => x == x := by
    rw [hfilter]
    exact List.mem_cons_self
  exact ⟨first, rest, hfilter, beq_self_iff.mp (List.mem_filter.mp hfirst).2⟩

theorem isExtreme_maximum (h : ∃ v ∈ values, ¬ v.isNaN = true) :
    IsExtreme (· ≤ ·) values (maximum values) := by
  obtain ⟨first, rest, hfilter, hfirst⟩ := exists_filter_eq_cons h
  apply IsExtreme.of_filter
  unfold maximum
  rw [hfilter]
  exact isExtreme_foldl_larger hfirst rest

theorem isExtreme_minimum (h : ∃ v ∈ values, ¬ v.isNaN = true) :
    IsExtreme (· ≥ ·) values (minimum values) := by
  obtain ⟨first, rest, hfilter, hfirst⟩ := exists_filter_eq_cons h
  apply IsExtreme.of_filter
  unfold minimum
  rw [hfilter]
  exact isExtreme_foldl_smaller hfirst rest

/-- Without a number the largest one is below the smallest one. -/
theorem spread_of_undefined (h : ∀ v ∈ values, v.isNaN = true) :
    maximum values - minimum values = -(1.0 / 0.0) := by
  unfold maximum minimum
  rw [filter_eq_nil h]
  decide

/-- **The largest number is not below the smallest one, unless the list holds none.** -/
theorem zero_le_spread_iff :
    ((maximum values - minimum values).isNaN = true ∨ 0.0 ≤ maximum values - minimum values) ↔
      ∃ v ∈ values, ¬ v.isNaN = true := by
  constructor
  · intro h
    by_contra hnone
    have hall : ∀ v ∈ values, v.isNaN = true := fun v hv => by
      by_contra hnumber
      exact hnone ⟨v, hv, hnumber⟩
    rw [spread_of_undefined hall] at h
    exact absurd h (by decide)
  · intro h
    have hmax := isExtreme_maximum h
    have hmin := isExtreme_minimum h
    exact isNaN_or_zero_le_sub ((hmax.bound _ hmin.mem).resolve_left hmin.number)

end Extremes

/-! ## Means -/

/-- One lost value is enough for the mean to be lost. -/
theorem lostTo_mean {s : Float.Model.UnpackedFloat.Sign} {values : List Float} {v : Float}
    (hv : v ∈ values) (h : LostTo s v) : LostTo s (mean values) := by
  have hne : ¬ values.isEmpty = true := by
    rw [List.isEmpty_iff]
    exact List.ne_nil_of_mem hv
  unfold mean
  rw [if_neg hne]
  exact (lostTo_sum hv h).div_count (List.length_pos_of_mem hv)

section Means

variable {values : List Float} {top : Float}

/-- A sum of numbers between zero and a bound, beside the sum of as many bounds. -/
theorem foldl_add_le {start start' : Float} (hstart : 0.0 ≤ start) (hle : start ≤ start')
    (h : ∀ v ∈ values, 0.0 ≤ v ∧ v ≤ top) :
    0.0 ≤ values.foldl (· + ·) start ∧
      values.foldl (· + ·) start ≤ (List.replicate values.length top).foldl (· + ·) start' := by
  induction values generalizing start start' with
  | nil => exact ⟨hstart, hle⟩
  | cons first rest ih =>
    obtain ⟨hfirst, htop⟩ := h first List.mem_cons_self
    exact ih (zero_le_add hstart hfirst) (add_mono hstart hfirst hle htop)
      fun v hv => h v (List.mem_cons_of_mem _ hv)

/-- **The mean of numbers between zero and a bound is at most the mean of as many bounds.** The bound
itself can be exceeded, because sum and quotient are rounded. -/
theorem mean_le_mean_replicate (hne : values ≠ []) (hword : values.length < 2 ^ 64)
    (h : ∀ v ∈ values, 0.0 ≤ v ∧ v ≤ top) :
    mean values ≤ mean (List.replicate values.length top) := by
  have hpos : 0 < values.length := List.length_pos_iff.mpr hne
  have hstart : (0.0 : Float) ≤ -0.0 := by decide
  obtain ⟨hzero, hsum⟩ := foldl_add_le hstart (le_self (by decide)) h
  obtain ⟨m, e, hm, hcount⟩ := parts_count hpos hword
  have hne' : List.replicate values.length top ≠ [] := by
    rw [Ne, List.replicate_eq_nil_iff]
    exact hpos.ne'
  unfold mean
  rw [if_neg (by simpa using hne), if_neg (by simpa using hne'), List.length_replicate]
  exact div_mono hzero hsum hcount

/-- A mean that is a number comes from numbers. -/
theorem not_isNaN_of_mem {v : Float} (h : ¬ (mean values).isNaN = true) (hv : v ∈ values) :
    ¬ v.isNaN = true := by
  intro hnan
  rw [isNaN_iff_lostTo] at h hnan
  exact h fun s => lostTo_mean hv (hnan s)

end Means

end Numeric

end FluidAnalysis
