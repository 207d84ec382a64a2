import FluidAnalysis.Decimal.Fixed
import FluidAnalysis.Decimal.General
import FluidAnalysis.HardSphere.FreeEnergy
import FluidAnalysis.Launch.Job
import FluidAnalysis.Numeric.Grid
import FluidAnalysis.Text.Integer

/-!
# Ladders to an absolute free energy

Absolute free energies come from runs that compress a fluid step by step. The filling fractions of
the steps are chosen so that the excess free energy of hard spheres grows by `ln 2` each time.
-/

namespace FluidAnalysis.Launch

open Files Numeric

/-! ## Rungs -/

/-- One step of a ladder: from one filling fraction to another. -/
structure Rung (α : Type) where
  step : Nat
  small : α
  large : α
deriving Repr

/-- The rungs from a position of a ladder on. The rung whose end would leave the next rung beyond
the goal goes to the goal itself, and is the last one. -/
def rungsFrom {α : Type} [Scalar α] (goal : α) (step : Nat) : List α → List (Rung α)
  | small :: large :: next :: rest =>
    if goal < next then [⟨step, small, goal⟩]
    else ⟨step, small, large⟩ :: rungsFrom goal (step + 1) (large :: next :: rest)
  | _ => []

/-- The rungs of a ladder up to a goal. -/
def rungs {α : Type} [Scalar α] (ladder : List α) (goal : α) : List (Rung α) :=
  rungsFrom goal 0 ladder

/-- The natural logarithm of two. -/
def ln2 {α : Type} [Scalar α] : α := 0.693147180559945309417232121458

/-- The filling fractions at which the excess free energy is a multiple of `ln 2`, up to twenty. -/
def ladderFractions {α : Type} [Scalar α] : List α :=
  (halfOpenGrid ln2 20.0 ln2).map HardSphere.fillingFraction

/-! ## Jobs -/

/-- Runs that compress spheres of a radius into a cubic box. -/
structure AbsoluteLadder where
  recursion : Nat
  wellWidth : Float
  boxLength : Float
  sizes : List Nat
  program : Path
  radius : Float := 1.0
  iterations : Nat := 1000000
  overwrite : Bool := false
deriving Repr

namespace AbsoluteLadder

/-- Where the runs of one size keep their files. -/
def directory (a : AbsoluteLadder) (particles : Nat) : Path :=
  let fluid := s!"ww{Decimal.fixedWidth .blank 4 2 a.wellWidth}"
  let box := s!"L{Decimal.fixedWidth .zero 4 2 a.boxLength}"
  s!"scrunched-{fluid}-{box}/i{a.recursion}/N{Decimal.paddedNat 3 particles}/absolute"

/-- The filling fraction of all spheres in the box. -/
def goal (a : AbsoluteLadder) (particles : Nat) : Float :=
  4.0 * Analytic.pi / 3.0 * Scalar.cube a.radius * Float.ofNat particles
    / Scalar.cube a.boxLength

/-- How often a run is compressed on trial. The square of the size is taken in a word. -/
def trialPeriod (particles : Nat) : Nat :=
  max (particles * particles % Text.wordBound / 10) 10

/-- The name of the files of a rung. -/
def fileName (step : Nat) : String :=
  Decimal.paddedNat 5 step

/-- The job of one rung; `directory` holds its files. -/
def rungJob (a : AbsoluteLadder) (directory : Path) (particles : Nat) (rung : Rung Float) : Job :=
  let file := fileName rung.step
  { name := s!"N{Decimal.paddedNat 3 particles}-{file}"
    program := a.program
    arguments := ["--ff", Decimal.general rung.large 6,
      "--sc_period", toString (trialPeriod particles),
      "--iterations", toString a.iterations,
      "--filename", file,
      "--data_dir", directory,
      "--ff_small", Decimal.general rung.small 6,
      "--N", toString particles]
    log := directory.join s!"{file}.out" }

/-- The jobs of one size. A rung whose result is there is not run again, unless results are to be
overwritten. -/
def sizeJobs (a : AbsoluteLadder) (isDone : Path → Bool) (root : Path) (ladder : List Float)
    (particles : Nat) : List Job :=
  let directory := root.join (a.directory particles)
  let wanted := fun (rung : Rung Float) =>
    a.overwrite || !isDone (directory.join s!"{fileName rung.step}.dat")
  ((rungs ladder (a.goal particles)).filter wanted).map (a.rungJob directory particles)

/-- The jobs of all sizes below a root. -/
def jobs (a : AbsoluteLadder) (isDone : Path → Bool) (root : Path) : List Job :=
  a.sizes.flatMap (a.sizeJobs isDone root ladderFractions)

end AbsoluteLadder

end FluidAnalysis.Launch
