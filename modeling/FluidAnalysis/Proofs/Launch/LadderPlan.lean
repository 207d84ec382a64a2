import Mathlib
import FluidAnalysis.Launch.Ladder
import FluidAnalysis.Proofs.Decimal.Order

/-!
# What a ladder plans

A ladder is climbed from its first filling fraction on. Each step looks two fractions ahead: if that
fraction is beyond the goal, the step goes to the goal and is the last one. Results that are there
already are left out of the plan, and leaving one out changes nothing about the other steps. The
fractions of a step are doubles, and its job has them in six digits.

* `lastStep`, `rungAt` — where a ladder ends, and what one of its steps does
* `rungs_eq` — the rungs are those of the steps up to the last one
* `AbsoluteLadder.IsRungJob` — what the job of a step is told
* `AbsoluteLadder.sizeJobs_planned` — the jobs of one size
* `AbsoluteLadder.sizeJobs_climb` — when they climb to the goal
-/

namespace FluidAnalysis.Launch

open Files

/-! ## Options of a job -/

/-- The value that follows a name in words that are names and values in turn. -/
def optionIn? (name : String) : List String → Option String
  | flag :: value :: rest => if flag = name then some value else optionIn? name rest
  | _ => none

/-- The value of an option of a job. -/
def Job.option? (job : Job) (name : String) : Option String :=
  optionIn? name job.arguments

/-- The directory and the name of the files that a job is told to write. -/
def Job.output (job : Job) : Option String × Option String :=
  (job.option? "--data_dir", job.option? "--filename")

/-- The file with the result of a job. -/
def Job.result (job : Job) : Path :=
  Path.join (job.output.1.getD "") (job.output.2.getD "" ++ ".dat")

/-! ## Steps -/

/-- The step that ends a ladder: the first one for which the fraction two steps on is beyond the
goal, or else the last one that has such a fraction. -/
def lastStep (ladder : List Float) (goal : Float) : Nat :=
  ((List.range (ladder.length - 2)).find? fun step => goal < ladder.getD (step + 2) 0).getD
    (ladder.length - 3)

/-- What a step does. -/
def rungAt (ladder : List Float) (goal : Float) (step : Nat) : Rung Float :=
  { step := step
    small := ladder.getD step 0
    large := if goal < ladder.getD (step + 2) 0 then goal else ladder.getD (step + 1) 0 }

section

variable {ladder : List Float} {goal small large next : Float} {step : Nat}

theorem large_of_lt (h : goal < ladder.getD (step + 2) 0) :
    (rungAt ladder goal step).large = goal :=
  if_pos h

theorem large_of_not_lt (h : ¬ goal < ladder.getD (step + 2) 0) :
    (rungAt ladder goal step).large = ladder.getD (step + 1) 0 :=
  if_neg h

theorem lastStep_spec (goal : Float) (hlength : 3 ≤ ladder.length) :
    lastStep ladder goal + 3 ≤ ladder.length ∧
      (∀ step < lastStep ladder goal, ¬ goal < ladder.getD (step + 2) 0) ∧
      (goal < ladder.getD (lastStep ladder goal + 2) 0 ∨
        lastStep ladder goal + 3 = ladder.length) := by
  unfold lastStep
  cases hfind : (List.range (ladder.length - 2)).find?
      fun step => decide (goal < ladder.getD (step + 2) 0) with
  | none =>
    rw [List.find?_range_eq_none] at hfind
    refine ⟨?_, ?_, ?_⟩
    · simp only [Option.getD_none]
      omega
    · intro step hstep
      simp only [Option.getD_none] at hstep
      simpa using hfind step (by omega)
    · simp only [Option.getD_none]
      omega
  | some found =>
    obtain ⟨hbeyond, hfound, hbefore⟩ := List.find?_range_eq_some.mp hfind
    rw [List.mem_range] at hfound
    refine ⟨?_, ?_, Or.inl ?_⟩
    · simp only [Option.getD_some]
      omega
    · intro step hstep
      simpa using hbefore step hstep
    · simpa using hbeyond

theorem lastStep_eq (hlength : step + 3 ≤ ladder.length)
    (hbefore : ∀ earlier < step, ¬ goal < ladder.getD (earlier + 2) 0)
    (hends : goal < ladder.getD (step + 2) 0 ∨ step + 3 = ladder.length) :
    lastStep ladder goal = step := by
  obtain ⟨hle, hbefore', hends'⟩ := lastStep_spec goal (Nat.le_trans (by omega) hlength)
  rcases Nat.lt_trichotomy (lastStep ladder goal) step with h | h | h
  · rcases hends' with hends' | hends'
    · exact absurd hends' (hbefore _ h)
    · omega
  · exact h
  · rcases hends with hends | hends
    · exact absurd hends (hbefore' _ h)
    · omega

theorem lastStep_of_lt (rest : List Float) (h : goal < next) :
    lastStep (small :: large :: next :: rest) goal = 0 :=
  lastStep_eq (by simp) (fun _ h => absurd h (Nat.not_lt_zero _)) (Or.inl h)

theorem lastStep_cons (hlength : 3 ≤ (large :: next :: ladder).length) (h : ¬ goal < next) :
    lastStep (small :: large :: next :: ladder) goal
      = lastStep (large :: next :: ladder) goal + 1 := by
  obtain ⟨hle, hbefore, hends⟩ := lastStep_spec goal hlength
  apply lastStep_eq
  · simp only [List.length_cons] at hle ⊢
    omega
  · intro step hstep
    cases step with
    | zero => exact h
    | succ step => exact hbefore step (by omega)
  · rcases hends with hends | hends
    · exact Or.inl hends
    · right
      simp only [List.length_cons] at hends ⊢
      omega

end

/-- The rungs from a step on, one for each step up to the last one. -/
theorem rungsFrom_eq (goal : Float) (ladder : List Float) (step : Nat)
    (hlength : 3 ≤ ladder.length) :
    rungsFrom goal step ladder = (List.range (lastStep ladder goal + 1)).map
      fun s => { rungAt ladder goal s with step := step + s } := by
  induction ladder generalizing step with
  | nil => simp at hlength
  | cons small ladder ih =>
    rcases ladder with _ | ⟨large, _ | ⟨next, rest⟩⟩
    · simp at hlength
    · simp at hlength
    · by_cases hdone : goal < next
      · rw [rungsFrom, if_pos hdone, lastStep_of_lt rest hdone]
        simp [rungAt, hdone]
      · rw [rungsFrom, if_neg hdone]
        cases rest with
        | nil =>
          have hlast : lastStep [small, large, next] goal = 0 :=
            lastStep_eq (by simp) (fun _ h => absurd h (Nat.not_lt_zero _)) (Or.inr rfl)
          rw [hlast]
          simp [rungsFrom, rungAt, hdone]
        | cons other rest =>
          have hrest : 3 ≤ (large :: next :: other :: rest).length := by simp
          rw [ih (step + 1) hrest, lastStep_cons hrest hdone, List.range_succ_eq_map (n := _ + 1),
            List.map_cons, List.map_map]
          congr 1
          · simp [rungAt, hdone]
          · apply List.map_congr_left
            intro s _
            simp [rungAt, Nat.add_assoc, Nat.add_comm 1]

theorem rungsFrom_of_short (goal : Float) {ladder : List Float} (step : Nat)
    (hlength : ladder.length < 3) : rungsFrom goal step ladder = [] := by
  rcases ladder with _ | ⟨small, _ | ⟨large, _ | ⟨next, rest⟩⟩⟩
  · rfl
  · rfl
  · rfl
  · simp only [List.length_cons] at hlength
    omega

/-- The steps of a ladder. -/
def planSteps (ladder : List Float) (goal : Float) : List Nat :=
  if ladder.length < 3 then [] else List.range (lastStep ladder goal + 1)

theorem mem_planSteps {ladder : List Float} {goal : Float} {step : Nat} :
    step ∈ planSteps ladder goal ↔ 3 ≤ ladder.length ∧ step ≤ lastStep ladder goal := by
  unfold planSteps
  split
  · simp
    omega
  · simp
    omega

/-- **A ladder has one rung for each of its steps.** -/
theorem rungs_eq (ladder : List Float) (goal : Float) :
    rungs ladder goal = (planSteps ladder goal).map (rungAt ladder goal) := by
  unfold rungs planSteps
  split
  · next h => rw [rungsFrom_of_short goal 0 h, List.map_nil]
  · next h => simp [rungsFrom_eq goal ladder 0 (by omega), rungAt]

/-! ## Jobs -/

namespace AbsoluteLadder

/-- What a job is that takes `particles` spheres over a rung: its name, its program and its log, and
the value of every option. -/
structure IsRungJob (a : AbsoluteLadder) (directory : Path) (particles : Nat) (rung : Rung Float)
    (job : Job) : Prop where
  name : job.name = "N" ++ Decimal.paddedNat 3 particles ++ "-" ++ fileName rung.step
  program : job.program = a.program
  log : job.log = directory.join (fileName rung.step ++ ".out")
  output : job.output = (some directory, some (fileName rung.step))
  small : job.option? "--ff_small" = some (Decimal.general rung.small 6)
  large : job.option? "--ff" = some (Decimal.general rung.large 6)
  size : job.option? "--N" = some (toString particles)
  period : job.option? "--sc_period" = some (toString (trialPeriod particles))
  iterations : job.option? "--iterations" = some (toString a.iterations)
  noMore : job.arguments.length = 2 * 7

section

variable (a : AbsoluteLadder) (directory : Path) (particles : Nat) (rung : Rung Float)

theorem isRungJob_rungJob :
    a.IsRungJob directory particles rung (a.rungJob directory particles rung) where
  name := rfl
  program := rfl
  log := rfl
  output := by simp [rungJob, Job.output, Job.option?, optionIn?]
  small := by simp [rungJob, Job.option?, optionIn?]
  large := by simp [rungJob, Job.option?, optionIn?]
  size := by simp [rungJob, Job.option?, optionIn?]
  period := by simp [rungJob, Job.option?, optionIn?]
  iterations := by simp [rungJob, Job.option?, optionIn?]
  noMore := rfl

@[simp] theorem output_rungJob :
    (a.rungJob directory particles rung).output = (some directory, some (fileName rung.step)) :=
  (a.isRungJob_rungJob directory particles rung).output

@[simp] theorem result_rungJob :
    (a.rungJob directory particles rung).result
      = directory.join (fileName rung.step ++ ".dat") := by
  simp [Job.result]

end

variable (a : AbsoluteLadder) (isDone : Path → Bool) (root : Path) (ladder : List Float)
  (particles : Nat)

/-- The job of a step. -/
def stepJob (step : Nat) : Job :=
  a.rungJob (root.join (a.directory particles)) particles (rungAt ladder (a.goal particles) step)

@[simp] theorem result_stepJob (step : Nat) :
    (a.stepJob root ladder particles step).result
      = (root.join (a.directory particles)).join (fileName step ++ ".dat") :=
  a.result_rungJob _ _ _

theorem sizeJobs_eq :
    a.sizeJobs isDone root ladder particles
      = ((planSteps ladder (a.goal particles)).filter fun step =>
          a.overwrite || !isDone (a.stepJob root ladder particles step).result).map
        (a.stepJob root ladder particles) := by
  simp only [sizeJobs, rungs_eq, List.filter_map, List.map_map, result_stepJob]
  rfl

/-- A step that is not the last one goes to the next fraction. -/
theorem rungAt_large {step : Nat} {goal : Float} (h : step + 1 ∈ planSteps ladder goal) :
    (rungAt ladder goal step).large = (rungAt ladder goal (step + 1)).small := by
  obtain ⟨hlength, hstep⟩ := mem_planSteps.mp h
  exact large_of_not_lt ((lastStep_spec goal hlength).2.1 step hstep)

theorem isRungJob_stepJob (step : Nat) :
    a.IsRungJob (root.join (a.directory particles)) particles (rungAt ladder (a.goal particles) step)
      (a.stepJob root ladder particles step) :=
  a.isRungJob_rungJob _ _ _

/-- Without skipped steps each job starts where the one before ends. -/
theorem isChain_stepJob :
    ((planSteps ladder (a.goal particles)).map (a.stepJob root ladder particles)).IsChain
      fun job next => job.option? "--ff" = next.option? "--ff_small" := by
  rw [List.isChain_map]
  by_cases hlength : ladder.length < 3
  · rw [planSteps, if_pos hlength]
    exact List.isChain_nil
  · rw [planSteps, if_neg hlength, List.isChain_range_succ]
    intro step hstep
    have hnext : step + 1 ∈ planSteps ladder (a.goal particles) := mem_planSteps.mpr (by omega)
    rw [(a.isRungJob_stepJob root ladder particles step).large,
      (a.isRungJob_stepJob root ladder particles _).small, rungAt_large ladder hnext]

/-- **The jobs of one size.** There is one for each step up to the last one, in order, except for
the steps whose result is there when results are not to be overwritten. If no step is left out, each
job starts where the one before ends. Overwriting brings in the jobs whose results are there and
changes no other job. -/
theorem sizeJobs_planned (a : AbsoluteLadder) (isDone : Path → Bool) (root : Path)
    (ladder : List Float) (particles : Nat) :
    let goal := a.goal particles
    let directory := root.join (a.directory particles)
    let wanted := fun step => a.overwrite || !isDone (directory.join (fileName step ++ ".dat"))
    List.Forall₂ (fun step => a.IsRungJob directory particles (rungAt ladder goal step))
        ((planSteps ladder goal).filter wanted) (a.sizeJobs isDone root ladder particles) ∧
      ((∀ step ∈ planSteps ladder goal, wanted step) →
        (a.sizeJobs isDone root ladder particles).IsChain
          fun job next => job.option? "--ff" = next.option? "--ff_small") ∧
      { a with overwrite := false }.sizeJobs isDone root ladder particles
        = ({ a with overwrite := true }.sizeJobs isDone root ladder particles).filter
            fun job => !isDone job.result := by
  intro goal directory wanted
  have hjobs : a.sizeJobs isDone root ladder particles
      = ((planSteps ladder goal).filter wanted).map (a.stepJob root ladder particles) := by
    simp only [sizeJobs_eq, result_stepJob]
    rfl
  refine ⟨?_, fun hwanted => ?_, ?_⟩
  · rw [hjobs, List.forall₂_map_right_iff, List.forall₂_same]
    exact fun step _ => a.isRungJob_stepJob root ladder particles step
  · rw [hjobs, List.filter_eq_self.mpr hwanted]
    exact a.isChain_stepJob root ladder particles
  · have hjob (b : Bool) : { a with overwrite := b }.stepJob root ladder particles
        = a.stepJob root ladder particles := rfl
    have hgoal (b : Bool) : { a with overwrite := b }.goal particles = a.goal particles := rfl
    simp only [sizeJobs_eq, hjob, hgoal, Bool.true_or, Bool.false_or, List.filter_true,
      List.filter_map]
    rfl

end AbsoluteLadder

/-! ## Climbing

The fractions of a ladder rise. A step that goes to the next fraction compresses; one that goes to
the goal does so if the goal is above the first fraction, because the step before it looked at the
next fraction too and found the goal not below it. -/

section

variable {ladder : List Float} {goal : Float}

theorem getD_lt_getD (hrising : ladder.IsChain (· < ·)) {i j : Nat} (hij : i < j)
    (hj : j < ladder.length) : ladder.getD i 0 < ladder.getD j 0 := by
  have : IsTrans Float (· < ·) := ⟨fun _ _ _ => Double.lt_trans⟩
  have hpairs := List.pairwise_iff_getElem.mp (List.isChain_iff_pairwise.mp hrising)
  rw [List.getD_eq_getElem _ _ (Nat.lt_trans hij hj), List.getD_eq_getElem _ _ hj]
  exact hpairs i j _ hj hij

theorem rungAt_rises (hrising : ladder.IsChain (· < ·)) (hfirst : ladder.getD 0 0 < goal)
    {step : Nat} (hstep : step ∈ planSteps ladder goal) :
    (rungAt ladder goal step).small < (rungAt ladder goal step).large := by
  obtain ⟨hlength, hle⟩ := mem_planSteps.mp hstep
  obtain ⟨hlast, hbefore, -⟩ := lastStep_spec goal hlength
  by_cases hdone : goal < ladder.getD (step + 2) 0
  · rw [large_of_lt hdone]
    cases step with
    | zero => exact hfirst
    | succ step =>
      have hnext : ladder.getD (step + 1) 0 < ladder.getD (step + 2) 0 :=
        getD_lt_getD hrising (by omega) (by omega)
      exact Double.lt_of_lt_of_not_lt hnext hfirst (hbefore step hle)
  · rw [large_of_not_lt hdone]
    exact getD_lt_getD hrising (by omega) (by omega)

/-- The end of a step is below the fraction two steps on, so it is no infinity. -/
theorem rungAt_large_lt (hrising : ladder.IsChain (· < ·)) {step : Nat}
    (hstep : step ∈ planSteps ladder goal) :
    (rungAt ladder goal step).large < ladder.getD (step + 2) 0 := by
  obtain ⟨hlength, hle⟩ := mem_planSteps.mp hstep
  obtain ⟨hlast, -, -⟩ := lastStep_spec goal hlength
  by_cases hdone : goal < ladder.getD (step + 2) 0
  · rw [large_of_lt hdone]
    exact hdone
  · rw [large_of_not_lt hdone]
    exact getD_lt_getD hrising (by omega) (by omega)

theorem rungAt_small_pos (hrising : ladder.IsChain (· < ·)) (hfirst : 0 < ladder.getD 0 0)
    {step : Nat} (hstep : step ∈ planSteps ladder goal) : 0 < (rungAt ladder goal step).small := by
  obtain ⟨hlength, hle⟩ := mem_planSteps.mp hstep
  obtain ⟨hlast, -, -⟩ := lastStep_spec goal hlength
  cases step with
  | zero => exact hfirst
  | succ step => exact Double.lt_trans hfirst (getD_lt_getD hrising (by omega) (by omega))

/-- Where the last step ends: at the goal if it is below the top of the ladder, and else one
fraction short of the top. -/
theorem rungAt_lastStep (hrising : ladder.IsChain (· < ·)) (hlength : 3 ≤ ladder.length) :
    (rungAt ladder goal (lastStep ladder goal)).large
      = if goal < ladder.getD (ladder.length - 1) 0 then goal
        else ladder.getD (ladder.length - 2) 0 := by
  obtain ⟨hlast, -, hends⟩ := lastStep_spec goal hlength
  by_cases htop : lastStep ladder goal + 3 = ladder.length
  · have hone : ladder.length - 1 = lastStep ladder goal + 2 := by omega
    have htwo : ladder.length - 2 = lastStep ladder goal + 1 := by omega
    rw [hone, htwo, rungAt]
  · have hdone := hends.resolve_right htop
    have hbelow : ladder.getD (lastStep ladder goal + 2) 0 < ladder.getD (ladder.length - 1) 0 :=
      getD_lt_getD hrising (by omega) (by omega)
    rw [large_of_lt hdone, if_pos (Double.lt_trans hdone hbelow)]

end

/-- A job whose fractions, as they are written for it, do not fall. Where they do not rise either,
they are written alike. -/
def Job.Climbs (job : Job) : Prop :=
  ∃ p q, (job.option? "--ff_small").bind Decimal.written? = some p ∧
    (job.option? "--ff").bind Decimal.written? = some q ∧ p ≤ q ∧
    (p = q → job.option? "--ff_small" = job.option? "--ff")

theorem AbsoluteLadder.IsRungJob.climbs {a : AbsoluteLadder} {directory : Path} {particles : Nat}
    {rung : Rung Float} {job : Job} (h : a.IsRungJob directory particles rung job) {above : Float}
    (hpos : 0 < rung.small) (hrises : rung.small < rung.large) (habove : rung.large < above) :
    job.Climbs := by
  unfold Job.Climbs
  rw [h.small, h.large]
  obtain ⟨p, q, hp, hq, hle, hsame⟩ := Decimal.general_le hpos hrises habove 6
  exact ⟨p, q, hp, hq, hle, fun heq => congrArg some (hsame heq)⟩

/-- **When a plan climbs to its goal.** A ladder whose fractions rise always has a job. If the goal is
above the first fraction, every job goes from a smaller double to a larger one; if the fractions are
positive, the six digits of the first are then not above those of the second, but they can be the
same. The last job ends at the goal if the goal is below the last fraction; otherwise it ends at the
last fraction but one. -/
theorem AbsoluteLadder.sizeJobs_climb (a : AbsoluteLadder) (isDone : Path → Bool) (root : Path)
    (ladder : List Float) (particles : Nat) (hoverwrite : a.overwrite = true)
    (hlength : 3 ≤ ladder.length) (hrising : ladder.IsChain (· < ·)) :
    let goal := a.goal particles
    let directory := root.join (a.directory particles)
    let jobs := a.sizeJobs isDone root ladder particles
    jobs ≠ [] ∧
      (ladder.getD 0 0 < goal → ∀ job ∈ jobs,
        (∃ rung, a.IsRungJob directory particles rung job ∧ rung.small < rung.large) ∧
          (0 < ladder.getD 0 0 → job.Climbs)) ∧
      jobs.getLast?.bind (·.option? "--ff")
        = some (Decimal.general (if goal < ladder.getD (ladder.length - 1) 0 then goal
            else ladder.getD (ladder.length - 2) 0) 6) := by
  intro goal directory jobs
  have hsteps : planSteps ladder goal = List.range (lastStep ladder goal + 1) := by
    rw [planSteps, if_neg (Nat.not_lt.mpr hlength)]
  have hjobs : jobs = (planSteps ladder goal).map (a.stepJob root ladder particles) := by
    show a.sizeJobs isDone root ladder particles = _
    simp only [sizeJobs_eq, hoverwrite, Bool.true_or, List.filter_true]
    rfl
  refine ⟨by simp [hjobs, hsteps], ?_, ?_⟩
  · intro hfirst job hjob
    rw [hjobs] at hjob
    obtain ⟨step, hstep, rfl⟩ := List.mem_map.mp hjob
    have hrung := a.isRungJob_stepJob root ladder particles step
    have hrises := rungAt_rises hrising hfirst hstep
    exact ⟨⟨_, hrung, hrises⟩, fun hpos =>
      hrung.climbs (rungAt_small_pos hrising hpos hstep) hrises (rungAt_large_lt hrising hstep)⟩
  · rw [hjobs, hsteps, List.range_succ, List.map_append, List.map_singleton, List.getLast?_concat,
      Option.bind_some, (a.isRungJob_stepJob root ladder particles _).large,
      rungAt_lastStep hrising hlength]

namespace AbsoluteLadder

/-- Spheres in a box with sides of five radii. -/
def smallBox : AbsoluteLadder :=
  { recursion := 0, wellWidth := 1.3, boxLength := 5, sizes := [1, 12, 24], program := "fe",
    overwrite := true }

/-- The fractions that the jobs of a size are told. -/
def ends (a : AbsoluteLadder) (ladder : List Float) (particles : Nat) :
    List (Option String × Option String) :=
  (a.sizeJobs (fun _ => false) "data" ladder particles).map fun job =>
    (job.option? "--ff_small", job.option? "--ff")

/-- Twelve spheres climb two rungs, the second one to their goal. -/
theorem smallBox_climb :
    let ladder := [0.125, 0.25, 0.375, 0.5]
    let jobs := smallBox.sizeJobs (fun _ => false) "data" ladder 12
    ladder.IsChain (· < ·) ∧ 0.125 < smallBox.goal 12 ∧ smallBox.goal 12 < 0.5 ∧
      smallBox.ends ladder 12 = [(some "0.125", some "0.25"), (some "0.25", some "0.402124")] ∧
      (∀ job ∈ jobs, job.Climbs) ∧
      jobs.getLast?.bind (·.option? "--ff") = some (Decimal.general (smallBox.goal 12) 6) := by
  have hrising : [0.125, 0.25, 0.375, 0.5].IsChain fun x y : Float => x < y := by decide +kernel
  have hfirst : 0.125 < smallBox.goal 12 := by decide +kernel
  have htop : smallBox.goal 12 < 0.5 := by decide +kernel
  have hpos : (0 : Float) < 0.125 := by decide +kernel
  obtain ⟨-, hclimb, hlast⟩ := sizeJobs_climb smallBox (fun _ => false) "data"
    [0.125, 0.25, 0.375, 0.5] 12 rfl (by decide) hrising
  refine ⟨hrising, hfirst, htop, by decide +kernel, fun job hjob => (hclimb hfirst job hjob).2 hpos,
    ?_⟩
  rw [hlast]
  exact congrArg (fun x => some (Decimal.general x 6)) (if_pos htop)

/-- One sphere in a box whose filling fraction is just above `0.1426371`. -/
def nearBox : AbsoluteLadder :=
  { smallBox with boxLength := 3.085214, sizes := [1] }

/-- One sphere has its goal below the first fraction and goes down to it. Twenty-four spheres have
their goal above the last fraction and do not come to it. One sphere with its goal just above the
first fraction is told to go from that fraction to the same one. -/
theorem smallBox_outside :
    let ladder := [0.125, 0.25, 0.5]
    let near := [0.1426371, 0.25, 0.5]
    ladder.IsChain (· < ·) ∧ 0 < smallBox.goal 1 ∧ 0 < smallBox.goal 24 ∧
      smallBox.ends ladder 1 = [(some "0.125", some "0.0335103")] ∧ smallBox.goal 1 < 0.125 ∧
      smallBox.ends ladder 24 = [(some "0.125", some "0.25")] ∧
      Decimal.general (smallBox.goal 24) 6 = "0.804248" ∧
      near.IsChain (· < ·) ∧ 0.1426371 < nearBox.goal 1 ∧
      nearBox.ends near 1 = [(some "0.142637", some "0.142637")] := by
  decide +kernel

end AbsoluteLadder

end FluidAnalysis.Launch
