import FluidAnalysis.Numeric.LinearSystem

/-!
# Damped least squares

Minimisation of a sum of squared residuals by damped normal equations. An iteration builds the
equations from central differences and then looks for a step: the damping is raised tenfold until
the sum of squares no longer grows, or until the damping passes its limit.

The search for a step is bounded by a number of trials, because a damping that is not positive
never passes the limit. `fitWithin` takes the bound and tells an exhausted search apart from every
other outcome; `fit` gives it more trials than any double needs to run from the smallest to beyond
the largest.
-/

namespace FluidAnalysis.Numeric

variable {α : Type} [Scalar α]

/-- Why a fit has no result. -/
inductive FitFault where
  | noParameters
  | noResiduals
  | notFiniteAtStart
  | residualCount (expected actual : Nat)
  /-- The search for a step used up its trials. -/
  | unsettled
deriving Repr, DecidableEq

def FitFault.message : FitFault → String
  | .noParameters => "least-squares fit needs at least one parameter"
  | .noResiduals => "residual function returned no values"
  | .notFiniteAtStart => "residuals are not finite at the starting parameters"
  | .residualCount expected actual => s!"residual count changed from {expected} to {actual}"
  | .unsettled => "damping does not settle"

structure FitOptions (α : Type) where
  initialDamping : α
  tolerance : α
  maxIterations : Nat
deriving Repr

def FitOptions.standard : FitOptions α :=
  ⟨1.0e-3, 1.0e-12, 200⟩

structure FitReport (α : Type) where
  parameters : List α
  chiSquared : α
  iterations : Nat
  converged : Bool
deriving Repr

/-- No step is tried at a damping from here on. -/
def maxDamping : α := 1.0e16

/-- The smallest positive normal double. -/
def tiny : α := 2.2250738585072014e-308

/-! ## One iteration -/

/-- Evaluates the residuals and insists on their number. -/
def evaluate (residuals : List α → List α) (rows : Nat) (parameters : List α) :
    Except FitFault (List α) :=
  let values := residuals parameters
  if values.length == rows then .ok values else .error (.residualCount rows values.length)

/-- The derivatives of all residuals by the parameter at position `col`. -/
def derivatives (residuals : List α → List α) (rows : Nat) (parameters : List α) (col : Nat) :
    Except FitFault (List α) := do
  let x := (parameters[col]?).getD 0.0
  let step := 1.0e-6 * larger (Scalar.abs x) 1.0
  let forward ← evaluate residuals rows (parameters.set col (x + step))
  let backward ← evaluate residuals rows (parameters.set col (x - step))
  return (forward.zip backward).map fun (f, b) => (f - b) / (2.0 * step)

/-- The derivatives by every parameter in turn, one list for each. -/
def jacobian (residuals : List α → List α) (rows : Nat) (parameters : List α) :
    Except FitFault (List (List α)) :=
  (List.range parameters.length).mapM (derivatives residuals rows parameters)

/-- The products of corresponding entries, summed from zero. -/
def product (xs ys : List α) : α :=
  (xs.zip ys).foldl (fun total (x, y) => total + x * y) 0.0

/-- The normal equations of one iteration: a matrix and the gradient. -/
structure NormalEquations (α : Type) where
  matrix : List (List α)
  gradient : List α

def NormalEquations.of (columns : List (List α)) (current : List α) : NormalEquations α where
  matrix := columns.map fun ci => columns.map fun cj => product ci cj
  gradient := columns.map fun ci => product ci current

/-- The step at a given damping, which weights the diagonal. -/
def NormalEquations.step (n : NormalEquations α) (damping : α) : Except SystemFault (List α) :=
  let damped := n.matrix.zipIdx.map fun (row, i) =>
    row.modify i fun diagonal => diagonal + damping * larger diagonal 1.0e-12
  let unknowns := n.gradient.length
  solveSystem ⟨unknowns, unknowns, damped⟩ (n.gradient.map fun g => -g)

/-- Parameters, their residuals and the sum of squares. -/
structure FitPoint (α : Type) where
  parameters : List α
  residuals : List α
  chiSquared : α

/-- How the search for a step ended. -/
inductive StepSearch (α : Type) where
  /-- A step was taken; the damping for the next iteration. -/
  | accepted (point : FitPoint α) (damping : α)
  /-- The damping passed its limit. -/
  | exhausted (damping : α)

/-- Tries the step at one damping. There is a new point if the equations can be solved and the sum of
squares there is finite and no larger. -/
def tryStep (residuals : List α → List α) (equations : NormalEquations α) (point : FitPoint α)
    (damping : α) : Except FitFault (Option (FitPoint α)) :=
  match equations.step damping with
  | .error _ => .ok none
  | .ok step => do
    let trial := (point.parameters.zip step).map fun (x, dx) => x + dx
    let values ← evaluate residuals point.residuals.length trial
    let chi := sumOfSquares values
    if Scalar.isFinite chi && decide (chi ≤ point.chiSquared) then
      return some ⟨trial, values, chi⟩
    else return none

/-- Tries steps from `damping` on, `trials` of them at most. -/
def searchStep (residuals : List α → List α) (equations : NormalEquations α) (point : FitPoint α) :
    (trials : Nat) → (damping : α) → Except FitFault (StepSearch α)
  | 0, _ => .error .unsettled
  | trials + 1, damping =>
    if damping < maxDamping then
      match tryStep residuals equations point damping with
      | .error fault => .error fault
      | .ok (some next) => .ok (.accepted next (larger (damping / 10.0) tiny))
      | .ok none => searchStep residuals equations point trials (damping * 10.0)
    else .ok (.exhausted damping)

/-- The search for a step from a point. -/
def advance (residuals : List α → List α) (trials : Nat) (point : FitPoint α) (damping : α) :
    Except FitFault (StepSearch α) := do
  let columns ← jacobian residuals point.residuals.length point.parameters
  searchStep residuals (.of columns point.residuals) point trials damping

/-! ## The fit -/

/-- Runs the iterations that remain. A fit has converged when a step changes the sum of squares by
less than the tolerance, when the sum is zero, or when no damped step lowers it any more. -/
def iterate (residuals : List α → List α) (tolerance : α) (trials : Nat) :
    (remaining iterations : Nat) → (point : FitPoint α) → (damping : α) →
      Except FitFault (FitReport α)
  | 0, iterations, point, _ => .ok ⟨point.parameters, point.chiSquared, iterations, false⟩
  | remaining + 1, iterations, point, damping =>
    match advance residuals trials point damping with
    | .error fault => .error fault
    | .ok (.exhausted _) => .ok ⟨point.parameters, point.chiSquared, iterations + 1, true⟩
    | .ok (.accepted next damping) =>
      let change := (point.chiSquared - next.chiSquared) / larger point.chiSquared tiny
      if decide (change < tolerance) || next.chiSquared == 0.0 then
        .ok ⟨next.parameters, next.chiSquared, iterations + 1, true⟩
      else iterate residuals tolerance trials remaining (iterations + 1) next damping

/-- Fits with at most `trials` steps tried in each iteration. -/
def fitWithin (trials : Nat) (residuals : List α → List α) (initial : List α)
    (options : FitOptions α) : Except FitFault (FitReport α) :=
  if initial.isEmpty then .error .noParameters
  else
    let start := residuals initial
    let chi := sumOfSquares start
    if start.isEmpty then .error .noResiduals
    else if !Scalar.isFinite chi then .error .notFiniteAtStart
    else if chi == 0.0 then .ok ⟨initial, chi, 0, true⟩
    else
      iterate residuals options.tolerance trials options.maxIterations 0 ⟨initial, start, chi⟩
        options.initialDamping

/-- Minimises the sum of squared residuals from a starting point. -/
def fit (residuals : List α → List α) (initial : List α) (options : FitOptions α) :
    Except FitFault (FitReport α) :=
  fitWithin 1000 residuals initial options

end FluidAnalysis.Numeric
