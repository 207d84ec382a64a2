import FluidAnalysis.Proofs.Double.Scaling
import FluidAnalysis.Proofs.Numeric.LeastSquares

/-!
# When a fit settles

The search for a step multiplies the damping by ten until a step is taken or the damping passes its
limit. A double above zero passes the limit in a bounded number of steps. A double that is not above
zero never does, so the search goes on forever unless some step is taken. After a step the damping
is above zero, so only the first iteration can be caught in this way.

* `searchStep_eq_unsettled_iff` — when a bounded search uses up its trials
* `searchStep_of_le` — from `decisiveTrials` on, more trials change nothing
* `iterate_ne_unsettled` — a damping above zero settles, and so do all that follow
* `fit_unsettled_iff` — exactly when a fit does not settle
-/

namespace FluidAnalysis.Numeric

open Scalar

section Bounded

variable {α : Type} [Scalar α] {residuals : List α → List α}

omit [Scalar α] in
theorem evaluate_ne_unsettled {rows : Nat} {parameters : List α} :
    evaluate residuals rows parameters ≠ .error .unsettled := by
  intro h
  unfold evaluate at h
  simp only at h
  split at h <;> cases h

theorem jacobian_ne_unsettled {rows : Nat} {parameters : List α} :
    jacobian residuals rows parameters ≠ .error .unsettled := by
  intro h
  obtain ⟨col, -, hcol⟩ := exists_eq_error_of_mapM h
  rcases bind_eq_error hcol with hforward | ⟨forward, -, hcol⟩
  · exact evaluate_ne_unsettled hforward
  · rcases bind_eq_error hcol with hbackward | ⟨backward, -, hcol⟩
    · exact evaluate_ne_unsettled hbackward
    · cases hcol

theorem tryStep_ne_unsettled {equations : NormalEquations α} {point : FitPoint α} {damping : α} :
    tryStep residuals equations point damping ≠ .error .unsettled := by
  intro h
  unfold tryStep at h
  split at h
  · cases h
  · rcases bind_eq_error h with hvalues | ⟨values, -, h⟩
    · exact evaluate_ne_unsettled hvalues
    · simp only at h
      split at h <;> cases h

/-- At this damping the search goes on. -/
def GoesOn (residuals : List α → List α) (equations : NormalEquations α) (point : FitPoint α)
    (damping : α) : Prop :=
  damping < maxDamping ∧ tryStep residuals equations point damping = .ok none

variable {equations : NormalEquations α} {point : FitPoint α}

theorem searchStep_succ_of_goesOn {trials : Nat} {damping : α}
    (h : GoesOn residuals equations point damping) :
    searchStep residuals equations point (trials + 1) damping =
      searchStep residuals equations point trials (damping * 10.0) := by
  rw [searchStep, if_pos h.1, h.2]

/-- A search that does not go on has its answer at once, whatever its bound. -/
theorem searchStep_succ_of_not_goesOn {damping : α}
    (h : ¬ GoesOn residuals equations point damping) :
    ∃ result, result ≠ .error .unsettled ∧
      ∀ trials, searchStep residuals equations point (trials + 1) damping = result := by
  by_cases hdamping : damping < maxDamping
  · cases htry : tryStep residuals equations point damping with
    | error fault =>
      refine ⟨.error fault, fun hfault => ?_, fun trials => ?_⟩
      · obtain rfl := Except.error.inj hfault
        exact tryStep_ne_unsettled htry
      · rw [searchStep, if_pos hdamping, htry]
    | ok found =>
      cases found with
      | none => exact absurd ⟨hdamping, htry⟩ h
      | some next =>
        refine ⟨.ok (.accepted next (larger (damping / 10.0) tiny)), by simp, fun trials => ?_⟩
        rw [searchStep, if_pos hdamping, htry]
  · refine ⟨.ok (.exhausted damping), by simp, fun trials => ?_⟩
    rw [searchStep, if_neg hdamping]

/-- A search uses up its trials if it goes on at each of the dampings it tries. -/
theorem searchStep_eq_unsettled_iff {trials : Nat} {damping : α} :
    searchStep residuals equations point trials damping = .error .unsettled ↔
      ∀ k < trials, GoesOn residuals equations point (raised damping k) := by
  induction trials generalizing damping with
  | zero => exact ⟨fun _ _ hk => absurd hk (Nat.not_lt_zero _), fun _ => rfl⟩
  | succ trials ih =>
    rw [Nat.forall_lt_succ_left]
    by_cases hfirst : GoesOn residuals equations point damping
    · rw [searchStep_succ_of_goesOn hfirst, ih]
      exact ⟨fun h => ⟨hfirst, h⟩, fun h => h.2⟩
    · obtain ⟨result, hresult, hsearch⟩ := searchStep_succ_of_not_goesOn hfirst
      rw [hsearch]
      exact ⟨fun h => absurd h hresult, fun h => absurd h.1 hfirst⟩

/-- A search that has an answer has it with every larger bound. -/
theorem searchStep_mono {trials trials' : Nat} {damping : α} (hle : trials ≤ trials')
    (h : searchStep residuals equations point trials damping ≠ .error .unsettled) :
    searchStep residuals equations point trials' damping =
      searchStep residuals equations point trials damping := by
  induction trials generalizing damping trials' with
  | zero => exact absurd rfl h
  | succ trials ih =>
    obtain ⟨more, rfl⟩ : ∃ more, trials' = more + 1 := ⟨trials' - 1, by omega⟩
    by_cases hfirst : GoesOn residuals equations point damping
    · rw [searchStep_succ_of_goesOn hfirst] at h ⊢
      rw [searchStep_succ_of_goesOn hfirst]
      exact ih (by omega) h
    · obtain ⟨result, -, hsearch⟩ := searchStep_succ_of_not_goesOn hfirst
      rw [hsearch, hsearch]

/-- Iterations use up the trials of one search: that of the first, or that of a later one. -/
theorem iterate_succ_unsettled {tolerance : α} {trials remaining iterations : Nat} {damping : α}
    (h : iterate residuals tolerance trials (remaining + 1) iterations point damping =
      .error .unsettled) :
    advance residuals trials point damping = .error .unsettled ∨
      ∃ next damping', advance residuals trials point damping = .ok (.accepted next damping') ∧
        iterate residuals tolerance trials remaining (iterations + 1) next damping' =
          .error .unsettled := by
  unfold iterate at h
  split at h
  · rename_i fault hadvance
    obtain rfl := Except.error.inj h
    exact .inl hadvance
  · cases h
  · rename_i next damping' hadvance
    simp only at h
    split at h
    · cases h
    · exact .inr ⟨next, damping', hadvance, h⟩

end Bounded

/-! ## Doubles -/

section Doubles

variable {residuals : List Float → List Float} {equations : NormalEquations Float}
  {point : FitPoint Float}

/-- The trials that decide every search: from the smallest double above zero to infinity, and one
more damping that comes after it. -/
def decisiveTrials : Nat := 702

/-- A search that goes on at the decisive dampings goes on forever. -/
theorem goesOn_forever {damping : Float}
    (h : ∀ k < decisiveTrials, GoesOn residuals equations point (raised damping k)) (k : Nat) :
    GoesOn residuals equations point (raised damping k) := by
  by_cases hk : k < decisiveTrials
  · exact h k hk
  · rw [Double.raised_settled damping (by unfold decisiveTrials at hk; omega)]
    exact h 701 (by decide)

theorem searchStep_of_le {trials : Nat} (hle : decisiveTrials ≤ trials) (damping : Float) :
    searchStep residuals equations point trials damping =
      searchStep residuals equations point decisiveTrials damping := by
  by_cases h : searchStep residuals equations point decisiveTrials damping = .error .unsettled
  · have hforever := goesOn_forever (searchStep_eq_unsettled_iff.1 h)
    rw [h, searchStep_eq_unsettled_iff]
    exact fun k _ => hforever k
  · exact searchStep_mono hle h

theorem zero_lt_maxDamping : (0.0 : Float) < maxDamping := by
  decide +kernel

/-- A search goes on forever if its damping is not above zero and no step is ever taken. -/
theorem searchStep_unsettled_iff {trials : Nat} (hle : decisiveTrials ≤ trials) {damping : Float} :
    searchStep residuals equations point trials damping = .error .unsettled ↔
      damping ≤ 0.0 ∧ ∀ k, tryStep residuals equations point (raised damping k) = .ok none := by
  rw [searchStep_of_le hle, searchStep_eq_unsettled_iff]
  constructor
  · intro h
    refine ⟨?_, fun k => (goesOn_forever h k).2⟩
    -- A damping above zero is infinite by now, and infinity is not below the limit.
    by_contra habove
    exact Double.not_raised_lt habove maxDamping le_rfl (h 700 (by decide)).1
  · rintro ⟨hbelow, htry⟩ k -
    exact ⟨Double.lt_of_le_of_lt (Double.raised_le_zero hbelow k) zero_lt_maxDamping, htry k⟩

/-- The damping after a step is above zero. -/
theorem not_larger_tiny_le_zero (x : Float) : ¬ larger x tiny ≤ 0.0 := by
  have htiny : ¬ (tiny : Float) ≤ 0.0 := by decide +kernel
  have hpos : (0.0 : Float) < tiny := by decide +kernel
  unfold larger
  split_ifs with hnumber hlt
  · exact htiny
  · exact fun hle => hlt (Double.lt_of_le_of_lt hle hpos)
  · exact htiny

/-! ## Iterations -/

theorem advance_of_le {trials : Nat} (hle : decisiveTrials ≤ trials) (damping : Float) :
    advance residuals trials point damping = advance residuals decisiveTrials point damping := by
  unfold advance
  simp only [searchStep_of_le hle]

theorem advance_unsettled_iff {trials : Nat} (hle : decisiveTrials ≤ trials) {damping : Float} :
    advance residuals trials point damping = .error .unsettled ↔
      damping ≤ 0.0 ∧ ∃ columns,
        jacobian residuals point.residuals.length point.parameters = .ok columns ∧
        ∀ k, tryStep residuals (.of columns point.residuals) point (raised damping k) =
          .ok none := by
  unfold advance
  cases hjacobian : jacobian residuals point.residuals.length point.parameters with
  | error fault =>
    constructor
    · intro h
      obtain rfl := Except.error.inj h
      exact absurd hjacobian jacobian_ne_unsettled
    · rintro ⟨-, columns, hcolumns, -⟩
      cases hcolumns
  | ok columns =>
    refine (searchStep_unsettled_iff hle).trans ⟨?_, ?_⟩
    · rintro ⟨hbelow, htry⟩
      exact ⟨hbelow, columns, rfl, htry⟩
    · rintro ⟨hbelow, _, hcolumns, htry⟩
      obtain rfl := Except.ok.inj hcolumns
      exact ⟨hbelow, htry⟩

theorem iterate_of_le {trials : Nat} (hle : decisiveTrials ≤ trials) (tolerance : Float)
    (remaining iterations : Nat) (damping : Float) :
    iterate residuals tolerance trials remaining iterations point damping =
      iterate residuals tolerance decisiveTrials remaining iterations point damping := by
  induction remaining generalizing iterations point damping with
  | zero => rfl
  | succ remaining ih =>
    unfold iterate
    simp only [advance_of_le hle, ih]

/-- Iterations that start with a damping above zero settle: every later damping is above zero. -/
theorem iterate_ne_unsettled {trials : Nat} (hle : decisiveTrials ≤ trials) {tolerance : Float}
    {remaining iterations : Nat} {damping : Float} (habove : ¬ damping ≤ 0.0) :
    iterate residuals tolerance trials remaining iterations point damping ≠ .error .unsettled := by
  intro h
  induction remaining generalizing iterations point damping with
  | zero => cases h
  | succ remaining ih =>
    rcases iterate_succ_unsettled h with hadvance | ⟨next, damping', hadvance, hrest⟩
    · exact habove ((advance_unsettled_iff hle).1 hadvance).1
    · obtain ⟨-, -, -, tried, rfl⟩ := advance_eq_accepted hadvance
      exact ih (not_larger_tiny_le_zero _) hrest

theorem iterate_unsettled_iff {trials : Nat} (hle : decisiveTrials ≤ trials) {tolerance : Float}
    {remaining iterations : Nat} {damping : Float} :
    iterate residuals tolerance trials remaining iterations point damping = .error .unsettled ↔
      0 < remaining ∧ advance residuals trials point damping = .error .unsettled := by
  constructor
  · intro h
    cases remaining with
    | zero => cases h
    | succ remaining =>
      rcases iterate_succ_unsettled h with hadvance | ⟨next, damping', hadvance, hrest⟩
      · exact ⟨Nat.succ_pos remaining, hadvance⟩
      · obtain ⟨-, -, -, tried, rfl⟩ := advance_eq_accepted hadvance
        exact absurd hrest (iterate_ne_unsettled hle (not_larger_tiny_le_zero _))
  · rintro ⟨hremaining, hadvance⟩
    obtain ⟨less, rfl⟩ : ∃ less, remaining = less + 1 := ⟨remaining - 1, by omega⟩
    rw [iterate, hadvance]

/-! ## The fit -/

theorem fitWithin_of_le {trials : Nat} (hle : decisiveTrials ≤ trials) (initial : List Float)
    (options : FitOptions Float) :
    fitWithin trials residuals initial options =
      fitWithin decisiveTrials residuals initial options := by
  unfold fitWithin
  simp only [iterate_of_le hle]

/-- The first iteration of a fit takes place and never ends: the damping is not above zero, and at
none of the dampings that follow a step is taken. -/
structure SearchesForever (residuals : List Float → List Float) (initial : List Float)
    (options : FitOptions Float) : Prop where
  hasParameters : initial ≠ []
  hasResiduals : residuals initial ≠ []
  isFinite : Scalar.isFinite (sumOfSquares (residuals initial)) = true
  notZero : (sumOfSquares (residuals initial) == 0.0) = false
  iterations : 0 < options.maxIterations
  damping : options.initialDamping ≤ 0.0
  noStep : ∃ columns, jacobian residuals (residuals initial).length initial = .ok columns ∧
    ∀ k, tryStep residuals (.of columns (residuals initial)) (.start residuals initial)
      (raised options.initialDamping k) = .ok none

theorem fitWithin_unsettled_iff {trials : Nat} (hle : decisiveTrials ≤ trials)
    {initial : List Float} {options : FitOptions Float} :
    fitWithin trials residuals initial options = .error .unsettled ↔
      SearchesForever residuals initial options := by
  constructor
  · intro h
    unfold fitWithin at h
    simp only at h
    split_ifs at h with hparameters hresiduals hfinite hzero
    · cases h
    · cases h
    · cases h
    · obtain ⟨hremaining, hadvance⟩ := (iterate_unsettled_iff hle).1 h
      obtain ⟨hbelow, hnoStep⟩ := (advance_unsettled_iff hle).1 hadvance
      exact {
        hasParameters := by simpa using hparameters
        hasResiduals := by simpa using hresiduals
        isFinite := by simpa using hfinite
        notZero := by simpa using hzero
        iterations := hremaining
        damping := hbelow
        noStep := hnoStep }
  · intro h
    unfold fitWithin
    simp only [List.isEmpty_iff, h.hasParameters, h.hasResiduals, h.isFinite, h.notZero,
      Bool.not_true, Bool.false_eq_true, ↓reduceIte]
    exact (iterate_unsettled_iff hle).2
      ⟨h.iterations, (advance_unsettled_iff hle).2 ⟨h.damping, h.noStep⟩⟩

/-- The bound on the trials of a fit is never what decides its result: every larger one gives the
same, so a fit without a bound returns exactly if this one settles. It does, unless the initial
damping is not above zero and the first iteration never finds a step. -/
theorem fit_unsettled_iff (residuals : List Float → List Float) (initial : List Float)
    (options : FitOptions Float) :
    (∀ trials, decisiveTrials ≤ trials →
      fitWithin trials residuals initial options = fit residuals initial options) ∧
    (fit residuals initial options = .error .unsettled ↔
      SearchesForever residuals initial options) := by
  have hthousand : decisiveTrials ≤ 1000 := by decide
  refine ⟨fun trials hle => ?_, fitWithin_unsettled_iff hthousand⟩
  rw [fit, fitWithin_of_le hle, fitWithin_of_le hthousand]

/-- Residuals that do not depend on the parameters. -/
def flatResiduals (_ : List Float) : List Float :=
  [1.0, 1.0]

theorem raised_zero (k : Nat) : raised (0.0 : Float) k = 0.0 := by
  induction k with
  | zero => rfl
  | succ k ih =>
    rw [Double.raised_succ, ih]
    decide +kernel

theorem searchesForever_flatResiduals :
    SearchesForever flatResiduals [2.5] ⟨0.0, 1.0e-12, 200⟩ where
  hasParameters := List.cons_ne_nil _ _
  hasResiduals := List.cons_ne_nil _ _
  isFinite := by decide +kernel
  notZero := by decide +kernel
  iterations := by decide
  damping := by decide +kernel
  noStep := by
    have hcolumns : (jacobian flatResiduals 2 [2.5]).toOption = some [[0.0, 0.0]] := by
      decide +kernel
    have hsingular : ((NormalEquations.of [[0.0, 0.0]] [1.0, 1.0]).step (0.0 : Float)).toOption =
        none := by
      decide +kernel
    refine ⟨[[0.0, 0.0]], eq_ok_of_toOption hcolumns, fun k => ?_⟩
    rw [raised_zero, tryStep]
    cases hstep : (NormalEquations.of [[0.0, 0.0]] (flatResiduals [2.5])).step (0.0 : Float) with
    | error fault => rfl
    | ok step =>
      rw [flatResiduals] at hstep
      rw [hstep] at hsingular
      cases hsingular

/-- Without damping, a fit of flat residuals has no step to try, and no bound is large enough. -/
theorem flatResiduals_unsettled :
    fit flatResiduals [2.5] ⟨0.0, 1.0e-12, 200⟩ = .error .unsettled ∧
      ∀ trials, decisiveTrials ≤ trials →
        fitWithin trials flatResiduals [2.5] ⟨0.0, 1.0e-12, 200⟩ = .error .unsettled := by
  obtain ⟨hsame, hunsettled⟩ := fit_unsettled_iff flatResiduals [2.5] ⟨0.0, 1.0e-12, 200⟩
  have hfit := hunsettled.2 searchesForever_flatResiduals
  exact ⟨hfit, fun trials hle => (hsame trials hle).trans hfit⟩

end Doubles

end FluidAnalysis.Numeric
