import Mathlib
import FluidAnalysis.Proofs.Numeric.Damping
import FluidAnalysis.Proofs.Numeric.LinearSystem

/-!
# Fits of affine models

Residuals that are affine in the parameters, read over exact scalars. The central differences give
their matrix exactly (`jacobian_affine`), and the lists of one iteration are the normal equations of
this matrix (`normalEquations_affine`, `step_ofMatrix`). A solved step never raises the sum of
squares (`dotProduct_step_le`), so it is taken, and only equations that cannot be solved raise the
damping (`takesFirstSolved`).

Main statement: `affine_steps_taken`.
-/

namespace FluidAnalysis.Numeric

open Exact Matrix
open Scalar (raised)

/-! ## Lists that are given by a function -/

section

variable {β γ : Type} {n : Nat}

theorem zip_ofFn (u : Fin n → β) (v : Fin n → γ) :
    (List.ofFn u).zip (List.ofFn v) = List.ofFn fun i => (u i, v i) :=
  List.ext_getElem (by simp) fun i _ _ => by simp

theorem set_ofFn (u : Fin n → β) (i : Fin n) (x : β) :
    (List.ofFn u).set i x = List.ofFn (Function.update u i x) := by
  refine List.ext_getElem (by simp) fun j hj _ => ?_
  rw [List.getElem_set, List.getElem_ofFn, List.getElem_ofFn, Function.update_apply]
  simp only [Fin.ext_iff, eq_comm]

theorem modify_ofFn (u : Fin n → β) (i : Fin n) (f : β → β) :
    (List.ofFn u).modify i f = List.ofFn (Function.update u i (f (u i))) := by
  rw [← set_ofFn]
  refine List.ext_getElem (by simp) fun j hj _ => ?_
  rw [List.getElem_modify, List.getElem_set, List.getElem_ofFn]
  split_ifs with h
  · simp only [← h, Fin.eta]
  · rfl

end

section

variable {K : Type} [Field K] {m n : Nat}

/-! ## Affine residuals -/

/-- Residuals that are `M x + b` at parameters `x`. -/
def IsAffine (residuals : List K → List K) (M : Matrix (Fin m) (Fin n) K) (b : Fin m → K) : Prop :=
  ∀ x : Fin n → K, residuals (List.ofFn x) = List.ofFn (M *ᵥ x + b)

/-- A matrix as its columns. -/
def columnsOf (M : Matrix (Fin m) (Fin n) K) : List (List K) :=
  List.ofFn fun j => List.ofFn fun i => M i j

theorem evaluate_affine {residuals : List K → List K} {M : Matrix (Fin m) (Fin n) K} {b : Fin m → K}
    (h : IsAffine residuals M b) (x : Fin n → K) :
    evaluate residuals m (List.ofFn x) = .ok (List.ofFn (M *ᵥ x + b)) := by
  unfold evaluate
  simp only [h x, List.length_ofFn, beq_self_eq_true, if_true]

/-- One parameter moves every residual by its entry of the matrix. -/
theorem mulVec_update_apply (M : Matrix (Fin m) (Fin n) K) (x : Fin n → K) (j : Fin n) (s : K)
    (i : Fin m) : (M *ᵥ Function.update x j (x j + s)) i = (M *ᵥ x) i + M i j * s := by
  have hmoved : Function.update x j (x j + s) = x + Pi.single j s := by
    funext k
    by_cases hk : k = j
    · subst hk
      simp
    · simp [hk]
  rw [hmoved, mulVec_add, Pi.add_apply, mulVec_single]
  simp

/-! ## A solved step does not climb -/

/-- What the damped normal equations say of the residuals along their solution. -/
theorem dotProduct_step {M : Matrix (Fin m) (Fin n) K} {r : Fin m → K} {d w : Fin n → K}
    (h : (Mᵀ * M + diagonal w) *ᵥ d = -(Mᵀ *ᵥ r)) :
    r ⬝ᵥ M *ᵥ d = -(M *ᵥ d ⬝ᵥ M *ᵥ d) - ∑ i, w i * (d i * d i) := by
  have hweights : diagonal w *ᵥ d ⬝ᵥ d = ∑ i, w i * (d i * d i) := by
    simp only [dotProduct, mulVec_diagonal, mul_assoc]
  have hsquare : Mᵀ *ᵥ M *ᵥ d ⬝ᵥ d = M *ᵥ d ⬝ᵥ M *ᵥ d := by
    rw [dotProduct_mulVec, ← mulVec_transpose]
  have hgradient : Mᵀ *ᵥ r = -(Mᵀ *ᵥ M *ᵥ d + diagonal w *ᵥ d) := by
    rw [eq_neg_iff_add_eq_zero, mulVec_mulVec, ← add_mulVec, h, add_neg_cancel]
  calc r ⬝ᵥ M *ᵥ d = Mᵀ *ᵥ r ⬝ᵥ d := by rw [dotProduct_mulVec, ← mulVec_transpose]
    _ = -(M *ᵥ d ⬝ᵥ M *ᵥ d) - ∑ i, w i * (d i * d i) := by
      rw [hgradient, neg_dotProduct, add_dotProduct, hsquare, hweights, neg_add, sub_eq_add_neg]

/-- **A solved step never raises the sum of squares,** if no weight on the diagonal is negative. -/
theorem dotProduct_step_le [LinearOrder K] [IsStrictOrderedRing K] {M : Matrix (Fin m) (Fin n) K}
    {r : Fin m → K} {d w : Fin n → K} (hw : ∀ i, 0 ≤ w i)
    (h : (Mᵀ * M + diagonal w) *ᵥ d = -(Mᵀ *ᵥ r)) :
    (r + M *ᵥ d) ⬝ᵥ (r + M *ᵥ d) ≤ r ⬝ᵥ r := by
  have hcross := dotProduct_step h
  have hsquare : 0 ≤ M *ᵥ d ⬝ᵥ M *ᵥ d := Finset.sum_nonneg fun i _ => mul_self_nonneg _
  have hweights : 0 ≤ ∑ i, w i * (d i * d i) :=
    Finset.sum_nonneg fun i _ => mul_nonneg (hw i) (mul_self_nonneg _)
  rw [add_dotProduct, dotProduct_add, dotProduct_add, dotProduct_comm (M *ᵥ d) r, hcross]
  linarith

end

variable {K : Type} [Field K] [LinearOrder K] [IsStrictOrderedRing K] [IntegerParts K] {m n : Nat}

/-! ## Sums over exact scalars -/

theorem product_ofFn (u v : Fin n → K) : product (List.ofFn u) (List.ofFn v) = u ⬝ᵥ v := by
  have hfold : product (List.ofFn u) (List.ofFn v) =
      (((List.ofFn u).zip (List.ofFn v)).map fun pair => pair.1 * pair.2).sum := by
    rw [List.sum_eq_foldl, List.foldl_map, product, literalZero_eq]
  rw [hfold, zip_ofFn, List.map_ofFn, List.sum_ofFn]
  rfl

theorem sumOfSquares_ofFn (u : Fin n → K) : sumOfSquares (List.ofFn u) = u ⬝ᵥ u := by
  rw [sumOfSquares, scalarSum_eq, List.map_ofFn, List.sum_ofFn]
  rfl

/-! ## Solved systems -/

/-- What is found for a system solves it. -/
theorem solveSystem_ofMatrix {A : Matrix (Fin n) (Fin n) K} {side : Fin n → K} {x : List K}
    (h : solveSystem (.ofMatrix A) (List.ofFn side) = .ok x) :
    ∃ d : Fin n → K, x = List.ofFn d ∧ A *ᵥ d = side := by
  obtain ⟨t, ht, hsolve⟩ := bind_eq_ok_iff.mp h
  obtain ⟨d, hd, hsolved⟩ := solve_ofMatrix ht side
  exact ⟨d, Except.ok.inj (hsolve.symm.trans hd), hsolved⟩

/-! ## Central differences -/

variable {residuals : List K → List K} {M : Matrix (Fin m) (Fin n) K} {b : Fin m → K}

theorem derivatives_affine (h : IsAffine residuals M b) (x : Fin n → K) (j : Fin n) :
    derivatives residuals m (List.ofFn x) j = .ok (List.ofFn fun i => M i j) := by
  have hget : ((List.ofFn x)[j.val]?).getD 0.0 = x j := by
    rw [← List.getD_eq_getElem?_getD, getD_ofFn]
  have hpos : (0 : K) < 1.0e-6 * larger (Scalar.abs (x j)) 1.0 := by
    rw [larger_eq_max, literalOne_eq]
    exact mul_pos (by norm_num) (lt_max_of_lt_right one_pos)
  unfold derivatives
  simp only [hget]
  generalize (1.0e-6 : K) * larger (Scalar.abs (x j)) 1.0 = s at hpos
  rw [set_ofFn, set_ofFn, evaluate_affine h, evaluate_affine h]
  refine congrArg Except.ok ?_
  rw [zip_ofFn, List.map_ofFn]
  refine congrArg List.ofFn (funext fun i => ?_)
  have hforward := mulVec_update_apply M x j s i
  have hbackward := mulVec_update_apply M x j (-s) i
  simp only [Function.comp_apply, Pi.add_apply, sub_eq_add_neg, hforward, hbackward]
  have htwo : (2.0 : K) = 2 := by norm_num
  rw [htwo]
  field_simp
  ring

/-- **The central differences of affine residuals are their matrix.** -/
theorem jacobian_affine (h : IsAffine residuals M b) (x : Fin n → K) :
    jacobian residuals m (List.ofFn x) = .ok (columnsOf M) := by
  refine mapM_eq_ok_iff.mpr (List.ext_getElem (by simp [columnsOf]) fun j hj _ => ?_)
  have hlt : j < n := by simpa using hj
  simpa [columnsOf] using derivatives_affine h x ⟨j, hlt⟩

/-! ## The normal equations -/

/-- The equations of an iteration, as lists of the entries of `N` and `g`. -/
def NormalEquations.ofMatrix (N : Matrix (Fin n) (Fin n) K) (g : Fin n → K) : NormalEquations K :=
  ⟨List.ofFn fun i => List.ofFn (N i), List.ofFn g⟩

theorem normalEquations_affine (M : Matrix (Fin m) (Fin n) K) (r : Fin m → K) :
    NormalEquations.of (columnsOf M) (List.ofFn r) = .ofMatrix (Mᵀ * M) (Mᵀ *ᵥ r) := by
  unfold NormalEquations.of columnsOf NormalEquations.ofMatrix
  simp only [List.map_ofFn, Function.comp_def, product_ofFn]
  rfl

/-- The weights on the diagonal. -/
def dampingWeights (N : Matrix (Fin n) (Fin n) K) (damping : K) (i : Fin n) : K :=
  damping * larger (N i i) 1.0e-12

omit [IsStrictOrderedRing K] in
theorem step_ofMatrix (N : Matrix (Fin n) (Fin n) K) (g : Fin n → K) (damping : K) :
    (NormalEquations.ofMatrix N g).step damping =
      solveSystem (.ofMatrix (N + diagonal (dampingWeights N damping))) (List.ofFn (-g)) := by
  unfold NormalEquations.step NormalEquations.ofMatrix DenseMatrix.ofMatrix
  have hsides : (List.ofFn g).map (fun x => -x) = List.ofFn (-g) := by
    rw [List.map_ofFn]
    rfl
  simp only [List.length_ofFn, hsides]
  congr 2
  refine List.ext_getElem (by simp) fun i hi _ => ?_
  have hlt : i < n := by simpa using hi
  simp only [List.getElem_map, List.getElem_zipIdx, List.getElem_ofFn, Nat.zero_add]
  refine (modify_ofFn (N ⟨i, hlt⟩) ⟨i, hlt⟩ _).trans (congrArg List.ofFn (funext fun j => ?_))
  rw [Matrix.add_apply, diagonal_apply, Function.update_apply]
  split_ifs with h₁ h₂ h₂
  · rw [h₁]
    rfl
  · exact absurd h₁.symm h₂
  · exact absurd h₂.symm h₁
  · exact (add_zero _).symm

theorem dampingWeights_nonneg (N : Matrix (Fin n) (Fin n) K) {damping : K} (hpos : 0 < damping)
    (i : Fin n) : 0 ≤ dampingWeights N damping i := by
  have hfloor : (0 : K) ≤ 1.0e-12 := by norm_num
  rw [dampingWeights, larger_eq_max]
  exact mul_nonneg hpos.le (le_max_of_le_right hfloor)

/-- A step that is found does not raise the sum of squares at its end. -/
theorem exists_of_step_affine {r : Fin m → K} {damping : K} (hpos : 0 < damping) {step : List K}
    (h : (NormalEquations.of (columnsOf M) (List.ofFn r)).step damping = .ok step) :
    ∃ d : Fin n → K, step = List.ofFn d ∧ (r + M *ᵥ d) ⬝ᵥ (r + M *ᵥ d) ≤ r ⬝ᵥ r := by
  rw [normalEquations_affine, step_ofMatrix] at h
  obtain ⟨d, hd, hsolves⟩ := solveSystem_ofMatrix h
  exact ⟨d, hd, dotProduct_step_le (dampingWeights_nonneg _ hpos) hsolves⟩

/-! ## The search for a step -/

section

variable {α : Type} [Scalar α] {residuals : List α → List α}

/-- The point that a step leads to. -/
def FitPoint.moved (residuals : List α → List α) (point : FitPoint α) (step : List α) :
    FitPoint α :=
  .start residuals ((point.parameters.zip step).map fun (x, dx) => x + dx)

/-- A search that takes the first step that is solved: the damping is raised past failed solves
only. Then a step is taken, the limit is reached or the trials are used up. -/
def TakesFirstSolved (residuals : List α → List α) (equations : NormalEquations α)
    (point : FitPoint α) (trials : Nat) (damping : α) : Prop :=
  ∃ k, (∀ i < k, ∃ fault, equations.step (raised damping i) = .error fault) ∧
    ((∃ step, equations.step (raised damping k) = .ok step ∧
        searchStep residuals equations point trials damping =
          .ok (.accepted (point.moved residuals step) (larger (raised damping k / 10.0) tiny))) ∨
      (¬ raised damping k < maxDamping ∧
        searchStep residuals equations point trials damping = .ok (.exhausted (raised damping k))) ∨
      (k = trials ∧ searchStep residuals equations point trials damping = .error .unsettled))

theorem tryStep_eq_moved {equations : NormalEquations α} {point : FitPoint α} {damping : α}
    {step : List α} (hstep : equations.step damping = .ok step)
    (hlength : (point.moved residuals step).residuals.length = point.residuals.length)
    (hfinite : Scalar.isFinite (point.moved residuals step).chiSquared = true)
    (hle : (point.moved residuals step).chiSquared ≤ point.chiSquared) :
    tryStep residuals equations point damping = .ok (some (point.moved residuals step)) := by
  have hvalues : evaluate residuals point.residuals.length (point.moved residuals step).parameters =
      .ok (point.moved residuals step).residuals := by
    unfold evaluate
    rw [← hlength]
    exact if_pos (beq_self_eq_true _)
  have haccept : (Scalar.isFinite (point.moved residuals step).chiSquared &&
      decide ((point.moved residuals step).chiSquared ≤ point.chiSquared)) = true := by
    rw [hfinite, decide_eq_true hle, Bool.and_self]
  unfold tryStep
  rw [hstep]
  refine bind_eq_ok_iff.mpr ⟨_, hvalues, ?_⟩
  exact if_pos haccept

/-- A search takes the first solved step if no solved step on its way is refused. -/
theorem takesFirstSolved {equations : NormalEquations α} {point : FitPoint α} {damping : α}
    (htaken : ∀ k step, equations.step (raised damping k) = .ok step →
      tryStep residuals equations point (raised damping k) =
        .ok (some (point.moved residuals step))) (trials : Nat) :
    TakesFirstSolved residuals equations point trials damping := by
  induction trials generalizing damping with
  | zero => exact ⟨0, fun i hi => absurd hi (Nat.not_lt_zero i), .inr (.inr ⟨rfl, rfl⟩)⟩
  | succ trials ih =>
    by_cases hlimit : damping < maxDamping
    · cases hstep : equations.step damping with
      | ok step =>
        refine ⟨0, fun i hi => absurd hi (Nat.not_lt_zero i), .inl ⟨step, hstep, ?_⟩⟩
        have htry : tryStep residuals equations point damping =
            .ok (some (point.moved residuals step)) := htaken 0 step hstep
        rw [searchStep, if_pos hlimit, htry]
        rfl
      | error fault =>
        have hgoes : GoesOn residuals equations point damping := by
          refine ⟨hlimit, ?_⟩
          rw [tryStep, hstep]
        have hrest : TakesFirstSolved residuals equations point trials (damping * 10.0) :=
          ih fun k => htaken (k + 1)
        obtain ⟨k, hfailed, hend⟩ := hrest
        refine ⟨k + 1, Nat.forall_lt_succ_left.mpr ⟨⟨fault, hstep⟩, hfailed⟩, ?_⟩
        rw [searchStep_succ_of_goesOn hgoes, Nat.add_right_cancel_iff]
        exact hend
    · refine ⟨0, fun i hi => absurd hi (Nat.not_lt_zero i), .inr (.inl ⟨hlimit, ?_⟩)⟩
      rw [searchStep, if_neg hlimit]
      rfl

end

theorem raised_pos {damping : K} (hpos : 0 < damping) (k : Nat) : 0 < raised damping k := by
  induction k generalizing damping with
  | zero => exact hpos
  | succ k ih => exact ih (mul_pos hpos (by norm_num))

omit [IsStrictOrderedRing K] in
theorem moved_start (residuals : List K → List K) (x d : Fin n → K) :
    (FitPoint.start residuals (List.ofFn x)).moved residuals (List.ofFn d) =
      .start residuals (List.ofFn (x + d)) := by
  have hsum : ((List.ofFn x).zip (List.ofFn d)).map (fun (x, dx) => x + dx) =
      List.ofFn (x + d) := by
    rw [zip_ofFn, List.map_ofFn]
    rfl
  exact congrArg (FitPoint.start residuals) hsum

/-- **No solved step of affine residuals is refused.** -/
theorem tryStep_affine (h : IsAffine residuals M b) (x : Fin n → K) {damping : K}
    (hpos : 0 < damping) {step : List K}
    (hstep : (NormalEquations.of (columnsOf M) (residuals (List.ofFn x))).step damping = .ok step) :
    ((FitPoint.start residuals (List.ofFn x)).moved residuals step).chiSquared ≤
        (FitPoint.start residuals (List.ofFn x)).chiSquared ∧
      tryStep residuals (.of (columnsOf M) (residuals (List.ofFn x)))
          (.start residuals (List.ofFn x)) damping =
        .ok (some ((FitPoint.start residuals (List.ofFn x)).moved residuals step)) := by
  obtain ⟨d, rfl, hle⟩ : ∃ d : Fin n → K, step = List.ofFn d ∧
      (M *ᵥ x + b + M *ᵥ d) ⬝ᵥ (M *ᵥ x + b + M *ᵥ d) ≤ (M *ᵥ x + b) ⬝ᵥ (M *ᵥ x + b) := by
    rw [h x] at hstep
    exact exists_of_step_affine hpos hstep
  have hmoved := moved_start residuals x d
  have hresiduals : M *ᵥ (x + d) + b = M *ᵥ x + b + M *ᵥ d := by
    rw [mulVec_add, add_right_comm]
  have hdescent :
      ((FitPoint.start residuals (List.ofFn x)).moved residuals (List.ofFn d)).chiSquared ≤
        (FitPoint.start residuals (List.ofFn x)).chiSquared := by
    rw [hmoved, FitPoint.start, FitPoint.start, h, h, hresiduals, sumOfSquares_ofFn,
      sumOfSquares_ofFn]
    exact hle
  refine ⟨hdescent, tryStep_eq_moved hstep ?_ rfl hdescent⟩
  rw [hmoved, FitPoint.start, FitPoint.start, h, h, List.length_ofFn, List.length_ofFn]

/-! ## Runs -/

theorem tiny_pos : (0 : K) < tiny := by
  rw [tiny, ← NNRat.cast_ofScientific]
  exact NNRat.cast_pos.mpr (by decide +kernel)

/-- Every damping of a run that starts above zero is above zero. -/
theorem damping_pos_of_isChain {trials : Nat} {start : FitPoint K × K}
    {steps : List (FitPoint K × K)} (hchain : (start :: steps).IsChain (StepTaken residuals trials))
    (hstart : 0 < start.2) :
    ∀ state ∈ start :: steps, 0 < state.2 := by
  induction steps generalizing start with
  | nil => simpa using hstart
  | cons next rest ih =>
    obtain ⟨hstep, hrest⟩ := List.isChain_cons_cons.mp hchain
    obtain ⟨-, -, -, tried, htried⟩ := advance_eq_accepted hstep
    have hnext : 0 < next.2 := by
      rw [htried, larger_eq_max]
      exact lt_max_of_lt_right tiny_pos
    exact List.forall_mem_cons.mpr ⟨hstart, ih hrest hnext⟩

omit [IsStrictOrderedRing K] in
/-- A point of a run is the one that starts at its parameters. -/
theorem exists_start_of_consistent {point : FitPoint K} (h : point.Consistent residuals)
    (hlength : point.parameters.length = n) :
    ∃ x : Fin n → K, point = .start residuals (List.ofFn x) := by
  subst hlength
  refine ⟨fun i => point.parameters.get i, ?_⟩
  rw [List.ofFn_get, FitPoint.start, ← h.chiSquared_eq, ← h.residuals_eq]

/-- **Affine models never have a step refused.** The central differences are the matrix at every
point, and at every state of every run from a damping above zero each solved step, whatever its
damping, lowers or keeps the sum of squares and is taken. So the search of an iteration raises the
damping past failed solves only. -/
theorem affine_steps_taken (h : IsAffine residuals M b) (x : Fin n → K) {initialDamping : K}
    (hpos : 0 < initialDamping) :
    (∀ y : Fin n → K, jacobian residuals m (List.ofFn y) = .ok (columnsOf M)) ∧
      ∀ trials steps,
        ((.start residuals (List.ofFn x), initialDamping) :: steps).IsChain
          (StepTaken residuals trials) →
        ∀ point damping,
          (point, damping) ∈ (.start residuals (List.ofFn x), initialDamping) :: steps →
          0 < damping ∧
          (∀ tried step, 0 < tried →
            (NormalEquations.of (columnsOf M) point.residuals).step tried = .ok step →
            (point.moved residuals step).chiSquared ≤ point.chiSquared ∧
              tryStep residuals (.of (columnsOf M) point.residuals) point tried =
                .ok (some (point.moved residuals step))) ∧
          advance residuals trials point damping =
            searchStep residuals (.of (columnsOf M) point.residuals) point trials damping ∧
          TakesFirstSolved residuals (.of (columnsOf M) point.residuals) point trials damping := by
  refine ⟨jacobian_affine h, fun trials steps hchain point damping hmem => ?_⟩
  have hstart : (FitPoint.start residuals (List.ofFn x)).Consistent residuals := ⟨rfl, rfl, rfl⟩
  obtain ⟨hconsistent, hlength⟩ := consistent_of_isChain hchain hstart _ hmem
  obtain ⟨y, rfl⟩ : ∃ y : Fin n → K, point = .start residuals (List.ofFn y) :=
    exists_start_of_consistent hconsistent (hlength.trans List.length_ofFn)
  have hdamping : 0 < damping := damping_pos_of_isChain hchain hpos _ hmem
  refine ⟨hdamping, fun tried step htried hstep => tryStep_affine h y htried hstep, ?_,
    takesFirstSolved (fun k step hstep => ?_) trials⟩
  · have hrows : (FitPoint.start residuals (List.ofFn y)).residuals.length = m := by
      rw [FitPoint.start, h y, List.length_ofFn]
    rw [advance, hrows]
    exact congrArg (· >>= _) (jacobian_affine h y)
  · exact (tryStep_affine h y (raised_pos hdamping k) hstep).2

/-- A line through three points, by its height at zero and its slope. -/
def lineDesign : Matrix (Fin 3) (Fin 2) ℚ :=
  !![1, 0; 1, 1; 1, 2]

def lineOffsets : Fin 3 → ℚ :=
  ![-1, -3, -4]

def lineResiduals (parameters : List ℚ) : List ℚ :=
  List.ofFn (lineDesign *ᵥ (fun j => parameters.getD j 0) + lineOffsets)

theorem isAffine_lineResiduals : IsAffine lineResiduals lineDesign lineOffsets := by
  intro x
  have hget : (fun j : Fin 2 => (List.ofFn x).getD j 0) = x :=
    funext fun j => getD_ofFn x j 0
  rw [lineResiduals, hget]

/-- The first step of the line is solved, so it is taken. -/
theorem lineResiduals_step_taken :
    0 < (1 / 1000 : ℚ) ∧
      ∃ step, (NormalEquations.of (columnsOf lineDesign) (lineResiduals [0, 0])).step (1 / 1000) =
          .ok step ∧
        ((FitPoint.start lineResiduals [0, 0]).moved lineResiduals step).chiSquared ≤ 26 ∧
        tryStep lineResiduals (.of (columnsOf lineDesign) (lineResiduals [0, 0]))
            (.start lineResiduals [0, 0]) (1 / 1000) =
          .ok (some ((FitPoint.start lineResiduals [0, 0]).moved lineResiduals step)) := by
  have hpos : 0 < (1 / 1000 : ℚ) := by norm_num
  have hchi : (FitPoint.start lineResiduals [0, 0]).chiSquared = 26 := by decide +kernel
  have hsolved : ((NormalEquations.of (columnsOf lineDesign) (lineResiduals [0, 0])).step
      (1 / 1000)).toOption.isSome = true := by decide +kernel
  obtain ⟨step, hstep⟩ := Option.isSome_iff_exists.mp hsolved
  have hstep := eq_ok_of_toOption hstep
  obtain ⟨-, htaken, -⟩ := (affine_steps_taken isAffine_lineResiduals ![0, 0] hpos).2 1 []
    (.singleton _) _ _ List.mem_cons_self
  obtain ⟨hle, htry⟩ := htaken (1 / 1000) step hpos hstep
  exact ⟨hpos, step, hstep, hle.trans_eq hchi, htry⟩

end FluidAnalysis.Numeric
