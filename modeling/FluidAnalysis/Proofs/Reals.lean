import Mathlib
import FluidAnalysis.Proofs.Exact

/-!
# Real scalars

The real numbers as scalars, with the true elementary functions.
-/

namespace FluidAnalysis.Exact

noncomputable instance realElementary : Elementary ℝ where
  pi := Real.pi
  exp := Real.exp
  ln := Real.log
  log10 := Real.logb 10
  sin := Real.sin
  sqrt := Real.sqrt

theorem pi_eq : (Analytic.pi : ℝ) = Real.pi := rfl

theorem exp_eq (x : ℝ) : Analytic.exp x = Real.exp x := rfl

theorem ln_eq (x : ℝ) : Analytic.ln x = Real.log x := rfl

end FluidAnalysis.Exact
