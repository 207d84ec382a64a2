import FluidAnalysis.Scalar

/-!
# Bisection
-/

namespace FluidAnalysis.Numeric

variable {α : Type} [Scalar α]

/-- Where a bisection ended. `iterations` counts the midpoints that were tried. -/
structure Bisection (α : Type) where
  value : α
  iterations : Nat
  converged : Bool
deriving Repr

/-- Tries the midpoint of `low` and `high`, `remaining` times at most. `guess` is the last midpoint
and `tried` the number of midpoints so far. -/
def bisectFrom (f : α → α) (target resolution : α) :
    (remaining tried : Nat) → (guess low high : α) → Bisection α
  | 0, tried, guess, _, _ => ⟨guess, tried, false⟩
  | remaining + 1, tried, _, low, high =>
    let middle := 0.5 * (low + high)
    let value := f middle
    if Scalar.abs (value - target) < resolution then ⟨middle, tried + 1, true⟩
    else if target < value then
      bisectFrom f target resolution remaining (tried + 1) middle low middle
    else bisectFrom f target resolution remaining (tried + 1) middle middle high

/-- Halves the interval from `low` to `high` until the increasing function `f` is within
`resolution` of `target`. Without convergence the last midpoint is returned. -/
def bisect (f : α → α) (target low high resolution : α) (limit : Nat) : Bisection α :=
  bisectFrom f target resolution limit 0 (0.5 * (low + high)) low high

end FluidAnalysis.Numeric
