import FluidAnalysis.Decimal.Fixed
import FluidAnalysis.Decimal.General
import FluidAnalysis.Launch.Job
import FluidAnalysis.Scalar

/-!
# Soft-sphere jobs

Runs of soft spheres at a reduced density and temperature.
-/

namespace FluidAnalysis.Launch

open Files

/-- What is simulated. -/
inductive SoftSphereJob where
  | homogeneous (density temperature : Float) (potential : String)
  /-- Between walls; without spheres their number follows from the density. -/
  | walls (density temperature : Float) (spheres : Nat)
  | testParticle (density temperature sigma epsilon : Float) (potential : String)
  | fcc (density temperature : Float) (potential : String)
deriving Repr

/-- Two to the power of minus five halves: the number density at reduced density one. -/
def densityUnit : Float := 0.176776695296636881100211090526212

/-- The length of the box. -/
def boxText : String := "30"

/-- The number of spheres in a cubic box. -/
def sphereCount (density : Float) : Nat :=
  Scalar.toNat (Scalar.round (density * densityUnit * 27000.0))

/-- The number of spheres in a slab between walls. -/
def slabCount (density : Float) : Nat :=
  Scalar.toNat (Scalar.round (density * densityUnit * 900.0 * 32.0))

/-- The side of a crystal of 1372 spheres. -/
def crystalLength (density : Float) : Float :=
  (1372.0 / (density * densityUnit)).cbrt

/-- Where the program is and where its data go. -/
structure SoftSphereRunner where
  program : Path
  directory : Path
deriving Repr

namespace SoftSphereRunner

/-- A job whose files share the beginning `base`. -/
def job (r : SoftSphereRunner) (name base : String) (spheres : Nat) (rest : List String) : Job :=
  let path := r.directory.join base
  { name := name
    program := r.program
    arguments := [toString spheres, "0.01", "0.001", path ++ ".dat"] ++ rest
    log := path ++ ".out" }

/-- The state point in names. -/
def stateText (density temperature : Float) : String :=
  s!"{Decimal.fixed 4 density}-{Decimal.fixed 4 temperature}"

/-- The job of a simulation. -/
def plan (r : SoftSphereRunner) : SoftSphereJob → Job
  | .homogeneous density temperature potential =>
    let state := stateText density temperature
    r.job s!"soft-{state}" s!"mc{potential}-{state}" (sphereCount density)
      ["periodxyz", boxText, "kT", Decimal.general temperature 6, "potential", potential]
  | .walls density temperature spheres =>
    let state := stateText density temperature
    let count := if spheres == 0 then slabCount density else spheres
    r.job s!"softwalls-{state}" s!"mcwalls-{state}-{count}" count
      ["periodxy", boxText, "wallz", boxText, "kT", Decimal.general temperature 6]
  | .testParticle density temperature sigma epsilon potential =>
    let state := stateText density temperature
    r.job s!"soft-testp-{state}" s!"mc_testp_{potential}-{state}" (sphereCount density)
      ["periodxyz", boxText, "kT", Decimal.general temperature 6, "TestP",
        Decimal.fixed 6 sigma, "testp_eps", Decimal.fixed 6 epsilon, "potential", potential]
  | .fcc density temperature potential =>
    let state := stateText density temperature
    r.job s!"soft-{state}" s!"mc{potential}-{state}" (sphereCount density)
      ["periodxyz", boxText, "kT", Decimal.general temperature 6, "potential", potential,
        "fcc", Decimal.fixed 4 (crystalLength density)]

end SoftSphereRunner

/-- The radial distribution of a purely repulsive fluid. -/
def radialJob (directory logs : Path) (density temperature : Float) : Job :=
  let tag := s!"wca-{SoftSphereRunner.stateText density temperature}"
  { name := tag
    program := directory.join "radial-wca.mkdat"
    arguments := [Decimal.general density 6, Decimal.general temperature 6]
    log := logs.join (tag ++ ".out") }

end FluidAnalysis.Launch
