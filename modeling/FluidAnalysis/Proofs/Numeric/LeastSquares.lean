import FluidAnalysis.Numeric.LeastSquares
import FluidAnalysis.Proofs.Double.Order
import FluidAnalysis.Proofs.Traversal

/-!
# What a fit keeps

A fit stands at a point: parameters, the residuals there and their sum of squares. Every iteration
that takes a step moves to a new point, at which the residuals and the sum of squares are those of
the new parameters and the sum has not grown. So a report is about its own parameters, whatever the
residuals are and however the numbers round.

* `tryStep_eq_some` — what one step gives
* `iterate_run` — the points of a whole run
* `fitWithin_report` — what a report says
-/

namespace FluidAnalysis.Numeric

open Scalar

variable {α : Type} [Scalar α]

/-! ## Lengths -/

namespace Triangles

theorem length_forward (found : List α) (rows : List (List α × α)) :
    (forward found rows).length = found.length + rows.length := by
  induction rows generalizing found with
  | nil => rfl
  | cons row rest ih =>
    rw [forward, ih, List.length_append, List.length_cons]
    simp only [List.length_cons, List.length_nil]
    omega

theorem length_backward (rows : List (Nat × List α × α)) :
    (backward rows).length = rows.length := by
  induction rows with
  | nil => rfl
  | cons row rest ih => rw [backward, List.length_cons, ih, List.length_cons]

end Triangles

/-- A solution has one entry for each entry of the right-hand side. -/
theorem length_solveSystem {m : DenseMatrix α} {side x : List α} (h : solveSystem m side = .ok x) :
    x.length = side.length := by
  obtain ⟨t, ht, hsolve⟩ := bind_eq_ok_iff.1 h
  have hpacked : t.packed.length = t.rowOrder.length := by
    unfold factorize at ht
    split at ht
    · cases ht
    · split at ht
      · cases ht
      · split at ht
        · obtain rfl := Except.ok.inj ht
          simp only [List.length_map]
        · cases ht
  unfold Triangles.solve at hsolve
  split at hsolve
  · cases hsolve
  · rename_i hside
    have hside' : side.length = t.rowOrder.length := by simpa [Triangles.dimension] using hside
    obtain rfl := Except.ok.inj hsolve
    simp [Triangles.length_backward, Triangles.length_forward, Triangles.dimension, hpacked, hside']

theorem length_jacobian {residuals : List α → List α} {rows : Nat} {parameters : List α}
    {columns : List (List α)} (h : jacobian residuals rows parameters = .ok columns) :
    columns.length = parameters.length := by
  have hmap := congrArg List.length (mapM_eq_ok_iff.1 h)
  simpa using hmap.symm

/-! ## One step -/

/-- The residuals of a point are those of its parameters, and it carries their sum of squares, which
is finite. -/
structure FitPoint.Consistent (residuals : List α → List α) (point : FitPoint α) : Prop where
  residuals_eq : point.residuals = residuals point.parameters
  chiSquared_eq : point.chiSquared = sumOfSquares (residuals point.parameters)
  isFinite : Scalar.isFinite point.chiSquared = true

variable {residuals : List α → List α}

omit [Scalar α] in
theorem evaluate_eq_ok {rows : Nat} {parameters values : List α}
    (h : evaluate residuals rows parameters = .ok values) :
    values = residuals parameters ∧ values.length = rows := by
  unfold evaluate at h
  simp only at h
  split at h
  · rename_i hlength
    obtain rfl := Except.ok.inj h
    exact ⟨rfl, by simpa using hlength⟩
  · cases h

/-- A step that is taken leads to a consistent point, and the sum of squares does not grow. -/
theorem tryStep_eq_some {equations : NormalEquations α} {point next : FitPoint α} {damping : α}
    (h : tryStep residuals equations point damping = .ok (some next)) :
    next.Consistent residuals ∧ next.chiSquared ≤ point.chiSquared ∧
      ∃ step, equations.step damping = .ok step ∧
        next.parameters = (point.parameters.zip step).map fun (x, dx) => x + dx := by
  unfold tryStep at h
  split at h
  · cases h
  · rename_i step hstep
    obtain ⟨values, hvalues, hnext⟩ := bind_eq_ok_iff.1 h
    obtain ⟨rfl, -⟩ := evaluate_eq_ok hvalues
    simp only at hnext
    split at hnext
    · rename_i hchi
      obtain ⟨hfinite, hle⟩ := Bool.and_eq_true_iff.1 hchi
      obtain rfl := Option.some.inj (Except.ok.inj hnext)
      exact ⟨⟨rfl, rfl, hfinite⟩, of_decide_eq_true hle, step, hstep, rfl⟩
    · cases hnext

/-- A search that ends with a step has tried it. -/
theorem searchStep_eq_accepted {equations : NormalEquations α} {point next : FitPoint α}
    {trials : Nat} {damping damping' : α}
    (h : searchStep residuals equations point trials damping = .ok (.accepted next damping')) :
    ∃ tried, tryStep residuals equations point tried = .ok (some next) ∧
      damping' = larger (tried / 10.0) tiny := by
  induction trials generalizing damping with
  | zero => cases h
  | succ trials ih =>
    unfold searchStep at h
    split at h
    · split at h
      · cases h
      · rename_i found htry
        obtain ⟨rfl, rfl⟩ := StepSearch.accepted.inj (Except.ok.inj h)
        exact ⟨damping, htry, rfl⟩
      · exact ih h
    · cases h

theorem advance_eq_accepted {point next : FitPoint α} {trials : Nat} {damping damping' : α}
    (h : advance residuals trials point damping = .ok (.accepted next damping')) :
    next.Consistent residuals ∧ next.chiSquared ≤ point.chiSquared ∧
      next.parameters.length = point.parameters.length ∧
      ∃ tried, damping' = larger (tried / 10.0) tiny := by
  obtain ⟨columns, hcolumns, hsearch⟩ := bind_eq_ok_iff.1 h
  obtain ⟨tried, htry, rfl⟩ := searchStep_eq_accepted hsearch
  obtain ⟨hconsistent, hle, step, hstep, hparameters⟩ := tryStep_eq_some htry
  have hlength : step.length = point.parameters.length := by
    rw [← length_jacobian hcolumns, length_solveSystem hstep]
    simp [NormalEquations.of]
  refine ⟨hconsistent, hle, ?_, tried, rfl⟩
  rw [hparameters, List.length_map, List.length_zip, hlength, min_self]

/-! ## The run -/

/-- One iteration moves from a point and a damping to the next by taking a step. -/
def StepTaken (residuals : List α → List α) (trials : Nat) (before after : FitPoint α × α) : Prop :=
  advance residuals trials before.1 before.2 = .ok (.accepted after.1 after.2)

/-- The report of the remaining iterations is about the last point of a run. Only the last
iteration may end without a step, and then the fit has converged. -/
theorem iterate_run {tolerance : α} {trials remaining iterations : Nat} {point : FitPoint α}
    {damping : α} {report : FitReport α}
    (h : iterate residuals tolerance trials remaining iterations point damping = .ok report) :
    ∃ steps, ((point, damping) :: steps).IsChain (StepTaken residuals trials) ∧
      report.parameters = (steps.getLastD (point, damping)).1.parameters ∧
      report.chiSquared = (steps.getLastD (point, damping)).1.chiSquared ∧
      iterations + steps.length ≤ report.iterations ∧
      report.iterations ≤ iterations + steps.length + 1 ∧
      report.iterations ≤ iterations + remaining ∧
      (report.converged = false → report.iterations = iterations + remaining) := by
  -- One case for each way an iteration ends: no iteration left, no step found, a step that
  -- converges, and a step after which the run goes on.
  induction remaining generalizing iterations point damping with
  | zero =>
    obtain rfl := Except.ok.inj h
    exact ⟨[], .singleton _, rfl, rfl, by simp⟩
  | succ remaining ih =>
    unfold iterate at h
    split at h
    · cases h
    · obtain rfl := Except.ok.inj h
      exact ⟨[], .singleton _, rfl, rfl, by simp⟩
    · rename_i next damping' hadvance
      simp only at h
      split at h
      · obtain rfl := Except.ok.inj h
        exact ⟨[(next, damping')], .cons_cons hadvance (.singleton _), rfl, rfl, by simp⟩
      · obtain ⟨steps, hchain, hparameters, hchi, hfrom, hto, hmax, hconverged⟩ := ih h
        refine ⟨(next, damping') :: steps, .cons_cons hadvance hchain, ?_⟩
        rw [List.getLastD_cons, List.length_cons]
        refine ⟨hparameters, hchi, by omega, by omega, by omega, fun hfalse => ?_⟩
        rw [hconverged hfalse]
        omega

/-- Every point of a run is consistent and has as many parameters as the first one. -/
theorem consistent_of_isChain {trials : Nat} {start : FitPoint α × α}
    {steps : List (FitPoint α × α)} (hchain : (start :: steps).IsChain (StepTaken residuals trials))
    (hstart : start.1.Consistent residuals) :
    ∀ state ∈ start :: steps, state.1.Consistent residuals ∧
      state.1.parameters.length = start.1.parameters.length := by
  induction steps generalizing start with
  | nil => simpa using hstart
  | cons next rest ih =>
    obtain ⟨hstep, hrest⟩ := List.isChain_cons_cons.1 hchain
    obtain ⟨hconsistent, -, hlength, -⟩ := advance_eq_accepted hstep
    rintro state (_ | ⟨_, hmem⟩)
    · exact ⟨hstart, rfl⟩
    · obtain ⟨hstate, hlength'⟩ := ih hrest hconsistent state hmem
      exact ⟨hstate, hlength'.trans hlength⟩

/-- Along a run the sum of squares never grows. -/
theorem pairwise_chiSquared_le [ComparisonLaws α] {trials : Nat} {run : List (FitPoint α × α)}
    (hchain : run.IsChain (StepTaken residuals trials)) :
    run.Pairwise fun earlier later => later.1.chiSquared ≤ earlier.1.chiSquared := by
  let NotGrown (earlier later : FitPoint α × α) : Prop :=
    later.1.chiSquared ≤ earlier.1.chiSquared
  have : Trans NotGrown NotGrown NotGrown := ⟨fun h₁ h₂ => ComparisonLaws.le_trans h₂ h₁⟩
  have hstep : run.IsChain NotGrown := hchain.imp fun _ _ h => (advance_eq_accepted h).2.1
  exact hstep.pairwise

/-! ## The report -/

/-- Where a fit starts. -/
def FitPoint.start (residuals : List α → List α) (initial : List α) : FitPoint α :=
  ⟨initial, residuals initial, sumOfSquares (residuals initial)⟩

/-- The report of a fit is about the last point of a run from a consistent start. -/
theorem fitWithin_run {trials : Nat} {initial : List α} {options : FitOptions α}
    {report : FitReport α} (h : fitWithin trials residuals initial options = .ok report) :
    (FitPoint.start residuals initial).Consistent residuals ∧
      ∃ steps, ((.start residuals initial, options.initialDamping) :: steps).IsChain
          (StepTaken residuals trials) ∧
        report.parameters =
          (steps.getLastD (.start residuals initial, options.initialDamping)).1.parameters ∧
        report.chiSquared =
          (steps.getLastD (.start residuals initial, options.initialDamping)).1.chiSquared ∧
        steps.length ≤ report.iterations ∧ report.iterations ≤ steps.length + 1 ∧
        report.iterations ≤ options.maxIterations ∧
        (report.converged = false → report.iterations = options.maxIterations) := by
  unfold fitWithin at h
  simp only at h
  split_ifs at h with hparameters hresiduals hfinite hzero
  all_goals
    have hchi : Scalar.isFinite (sumOfSquares (residuals initial)) = true := by simpa using hfinite
    refine ⟨⟨rfl, rfl, hchi⟩, ?_⟩
  · obtain rfl := Except.ok.inj h
    exact ⟨[], .singleton _, rfl, rfl, by simp⟩
  · have hrun := iterate_run h
    simp only [Nat.zero_add] at hrun
    exact hrun

/-- A report tells the sum of squares at its own parameters, which is finite and no larger than at
the start, and keeps the number of parameters. A fit stops before the limit of iterations only if it
has converged. On the way, the residuals always are those of the parameters, and the sum of squares
never grows. -/
theorem fitWithin_report [ComparisonLaws α] {trials : Nat} {initial : List α}
    {options : FitOptions α} {report : FitReport α}
    (h : fitWithin trials residuals initial options = .ok report) :
    report.chiSquared = sumOfSquares (residuals report.parameters) ∧
      Scalar.isFinite report.chiSquared = true ∧
      report.chiSquared ≤ sumOfSquares (residuals initial) ∧
      report.parameters.length = initial.length ∧
      report.iterations ≤ options.maxIterations ∧
      (report.converged = false → report.iterations = options.maxIterations) ∧
      ∃ run : List (FitPoint α × α),
        run.head? = some (.start residuals initial, options.initialDamping) ∧
        run.IsChain (StepTaken residuals trials) ∧
        report.iterations ≤ run.length ∧ run.length ≤ report.iterations + 1 ∧
        (∀ state ∈ run, state.1.Consistent residuals) ∧
        (run.Pairwise fun earlier later => later.1.chiSquared ≤ earlier.1.chiSquared) ∧
        ∃ last ∈ run.getLast?, report.parameters = last.1.parameters ∧
          report.chiSquared = last.1.chiSquared := by
  obtain ⟨hstart, steps, hchain, hparameters, hchi, hfrom, hto, hmax, hconverged⟩ :=
    fitWithin_run h
  have hpoints := consistent_of_isChain hchain hstart
  have hpairwise := pairwise_chiSquared_le hchain
  set start := (FitPoint.start residuals initial, options.initialDamping)
  have hlast : steps.getLastD start ∈ start :: steps := List.getLastD_mem_cons
  obtain ⟨hconsistent, hlength⟩ := hpoints _ hlast
  refine ⟨?_, ?_, ?_, ?_, hmax, hconverged, start :: steps, rfl, hchain, hto, ?_,
    fun state hmem => (hpoints state hmem).1, hpairwise, _, ?_, hparameters, hchi⟩
  · rw [hchi, hparameters, hconsistent.chiSquared_eq]
  · rw [hchi, hconsistent.isFinite]
  · rw [hchi]
    rcases List.mem_cons.1 hlast with heq | hmem
    · rw [heq]
      exact ComparisonLaws.le_refl_of_isFinite hstart.isFinite
    · exact (List.pairwise_cons.1 hpairwise).1 _ hmem
  · exact (congrArg List.length hparameters).trans hlength
  · rw [List.length_cons]
    omega
  · rw [List.getLast?_cons, ← List.getLastD_eq_getLast?]
    rfl

/-- The residuals of parameters that should all be two. -/
def offsetsFromTwo (parameters : List Float) : List Float :=
  parameters.map fun x => x - 2.0

theorem offsetsFromTwo_report :
    ∃ report, fit offsetsFromTwo [1.0] .standard = .ok report ∧
      report.iterations = 4 ∧
      report.chiSquared = sumOfSquares (offsetsFromTwo report.parameters) ∧
      Scalar.isFinite report.chiSquared = true ∧
      report.chiSquared ≤ sumOfSquares (offsetsFromTwo [1.0]) ∧
      report.parameters.length = 1 := by
  have hdone : (fit offsetsFromTwo [1.0] .standard).toOption.map FitReport.iterations = some 4 := by
    decide +kernel
  cases hfit : fit offsetsFromTwo [1.0] .standard with
  | error fault =>
    rw [hfit] at hdone
    cases hdone
  | ok report =>
    rw [hfit] at hdone
    obtain ⟨hchi, hfinite, hle, hlength, -⟩ := fitWithin_report hfit
    exact ⟨report, rfl, Option.some.inj hdone, hchi, hfinite, hle, hlength⟩

end FluidAnalysis.Numeric
