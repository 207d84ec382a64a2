import Mathlib
import FluidAnalysis.Scalar

/-!
# The order of doubles

Every double that is a number has a place in a linear order: the negative numbers, from infinity to
the smallest ones, the two zeros side by side, and the positive numbers. Comparing two doubles is
comparing their places, and it fails if one of them has none (`le_iff_place`, `lt_iff_place`).

* `Scalar.ComparisonLaws` — what a numerical method may assume of comparisons
* `ComparisonLaws.float` — doubles obey these laws
-/

namespace FluidAnalysis

/-- The laws of comparison, which hold without any law of arithmetic. -/
class Scalar.ComparisonLaws (α : Type) [Scalar α] : Prop where
  le_trans : ∀ {x y z : α}, x ≤ y → y ≤ z → x ≤ z
  /-- A value that is no number is not even comparable with itself. -/
  le_refl_of_isFinite : ∀ {x : α}, Scalar.isFinite x = true → x ≤ x

namespace Double

open Float.Model

/-- Sign, mantissa and exponent of a double. -/
def parts (x : Float) : UnpackedFloat :=
  x.toModel.unpack

/-- The place of a number: its class, and within a class the exponent before the mantissa. Both
count backwards for negative numbers. -/
def place : UnpackedFloat → Option (Int ×ₗ Int ×ₗ Int)
  | .notANumber => none
  | .infinity .negative => some (toLex (-2, toLex (0, 0)))
  | .finite .negative mantissa exponent _ => some (toLex (-1, toLex (-exponent, -mantissa)))
  | .zero _ => some (toLex (0, toLex (0, 0)))
  | .finite .positive mantissa exponent _ => some (toLex (1, toLex (exponent, mantissa)))
  | .infinity .positive => some (toLex (2, toLex (0, 0)))

/-! ## Comparisons as comparisons of places -/

theorem compare_pairs_eq_lt {e₁ e₂ : Int} {m₁ m₂ : Nat} :
    (compare e₁ e₂).then (compare m₁ m₂) = .lt ↔ e₁ < e₂ ∨ e₁ = e₂ ∧ m₁ < m₂ := by
  simp [Ordering.then_eq_lt, compare_lt_iff_lt]

theorem compare_pairs_eq_gt {e₁ e₂ : Int} {m₁ m₂ : Nat} :
    (compare e₁ e₂).then (compare m₁ m₂) = .gt ↔ e₂ < e₁ ∨ e₁ = e₂ ∧ m₂ < m₁ := by
  simp [Ordering.then_eq_gt, compare_gt_iff_gt]

theorem compare_sign (s₁ s₂ : UnpackedFloat.Sign) :
    compare s₁ s₂ =
      match s₁, s₂ with
      | .negative, .positive => .lt
      | .positive, .negative => .gt
      | _, _ => .eq := by
  cases s₁ <;> cases s₂ <;> rfl

-- One case for each pair of classes; only two numbers of one sign need the order of the pairs.
theorem unpacked_le_iff (a b : UnpackedFloat) :
    a.le b = true ↔ ∃ p ∈ place a, ∃ q ∈ place b, p ≤ q := by
  rcases a with (_ | _) | _ | _ | ⟨(_ | _), m₁, e₁, h₁⟩ <;>
  rcases b with (_ | _) | _ | _ | ⟨(_ | _), m₂, e₂, h₂⟩ <;>
  simp [UnpackedFloat.le, UnpackedFloat.compare, place, Prod.Lex.toLex_le_toLex,
    Ordering.isLE_iff_ne_gt, Ordering.isGE_iff_ne_lt, compare_pairs_eq_lt, compare_pairs_eq_gt,
    compare_sign]
  all_goals omega

theorem unpacked_lt_iff (a b : UnpackedFloat) :
    a.lt b = true ↔ ∃ p ∈ place a, ∃ q ∈ place b, p < q := by
  rcases a with (_ | _) | _ | _ | ⟨(_ | _), m₁, e₁, h₁⟩ <;>
  rcases b with (_ | _) | _ | _ | ⟨(_ | _), m₂, e₂, h₂⟩ <;>
  simp [UnpackedFloat.lt, UnpackedFloat.compare, place, Prod.Lex.toLex_lt_toLex,
    compare_pairs_eq_lt, compare_pairs_eq_gt, compare_sign]

theorem unpacked_beq_iff (a b : UnpackedFloat) :
    a.beq b = true ↔ ∃ p ∈ place a, p ∈ place b := by
  rcases a with (_ | _) | _ | _ | ⟨(_ | _), m₁, e₁, h₁⟩ <;>
  rcases b with (_ | _) | _ | _ | ⟨(_ | _), m₂, e₂, h₂⟩ <;>
  simp [UnpackedFloat.beq, UnpackedFloat.compare, place, compare_sign]
  all_goals omega

theorem le_iff_place {x y : Float} :
    x ≤ y ↔ ∃ p ∈ place (parts x), ∃ q ∈ place (parts y), p ≤ q := by
  rw [← unpacked_le_iff]
  exact decide_eq_true_iff

theorem lt_iff_place {x y : Float} :
    x < y ↔ ∃ p ∈ place (parts x), ∃ q ∈ place (parts y), p < q := by
  rw [← unpacked_lt_iff]
  exact decide_eq_true_iff

theorem beq_iff_place {x y : Float} :
    (x == y) = true ↔ ∃ p ∈ place (parts x), p ∈ place (parts y) := by
  rw [← unpacked_beq_iff]
  rfl

/-! ## The laws -/

theorem beq_of_beq_of_beq {x y z : Float} (hx : (x == z) = true) (hy : (y == z) = true) :
    (x == y) = true := by
  obtain ⟨p, hp, hz⟩ := beq_iff_place.1 hx
  obtain ⟨q, hq, hz'⟩ := beq_iff_place.1 hy
  obtain rfl : p = q := Option.mem_unique hz hz'
  exact beq_iff_place.2 ⟨p, hp, hq⟩

theorem le_trans {x y z : Float} (hxy : x ≤ y) (hyz : y ≤ z) : x ≤ z := by
  obtain ⟨p, hp, q, hq, hpq⟩ := le_iff_place.1 hxy
  obtain ⟨q', hq', r, hr, hqr⟩ := le_iff_place.1 hyz
  obtain rfl : q = q' := Option.mem_unique hq hq'
  exact le_iff_place.2 ⟨p, hp, r, hr, hpq.trans hqr⟩

theorem lt_of_le_of_lt {x y z : Float} (hxy : x ≤ y) (hyz : y < z) : x < z := by
  obtain ⟨p, hp, q, hq, hpq⟩ := le_iff_place.1 hxy
  obtain ⟨q', hq', r, hr, hqr⟩ := lt_iff_place.1 hyz
  obtain rfl : q = q' := Option.mem_unique hq hq'
  exact lt_iff_place.2 ⟨p, hp, r, hr, hpq.trans_lt hqr⟩

theorem lt_trans {x y z : Float} (hxy : x < y) (hyz : y < z) : x < z := by
  obtain ⟨p, hp, q, hq, hpq⟩ := lt_iff_place.1 hxy
  obtain ⟨q', hq', r, hr, hqr⟩ := lt_iff_place.1 hyz
  obtain rfl : q = q' := Option.mem_unique hq hq'
  exact lt_iff_place.2 ⟨p, hp, r, hr, hpq.trans hqr⟩

theorem le_of_lt {x y : Float} (h : x < y) : x ≤ y := by
  obtain ⟨p, hp, q, hq, hpq⟩ := lt_iff_place.1 h
  exact le_iff_place.2 ⟨p, hp, q, hq, hpq.le⟩

/-- What is not below `y` is above all that is, if it is a number; that it is one is known from a
double `w` below it. -/
theorem lt_of_lt_of_not_lt {w x y z : Float} (hxy : x < y) (hwz : w < z) (hzy : ¬ z < y) :
    x < z := by
  obtain ⟨p, hp, q, hq, hpq⟩ := lt_iff_place.1 hxy
  obtain ⟨-, -, r, hr, -⟩ := lt_iff_place.1 hwz
  have hqr : q ≤ r := le_of_not_gt fun hrq => hzy (lt_iff_place.2 ⟨r, hr, q, hq, hrq⟩)
  exact lt_iff_place.2 ⟨p, hp, r, hr, hpq.trans_le hqr⟩

theorem le_refl_of_isFinite {x : Float} (h : x.isFinite = true) : x ≤ x := by
  have hfinite : (parts x).isFinite = true := h
  rw [le_iff_place]
  rcases hx : parts x with (_ | _) | _ | _ | ⟨(_ | _), m, e, hm⟩
  all_goals
    rw [hx] at hfinite
    simp [UnpackedFloat.isFinite, place] at hfinite ⊢

instance ComparisonLaws.float : Scalar.ComparisonLaws Float where
  le_trans := le_trans
  le_refl_of_isFinite := le_refl_of_isFinite

end Double

end FluidAnalysis
