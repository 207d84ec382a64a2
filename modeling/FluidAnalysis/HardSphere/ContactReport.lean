import FluidAnalysis.HardSphere.Contact
import FluidAnalysis.Report.Session

/-!
# Contact report

Reads the tables of one geometry and writes each profile and a figure of three panels.
-/

namespace FluidAnalysis.HardSphere

open Files Report

/-- Where the fluid is. The filling fraction of the sphere geometries is `0.` and one digit. -/
inductive Geometry where
  | innerSphere (radius : Float) (digit : Nat)
  | outerSphere (radius : Float) (digit : Nat)
  | walls (monteCarlo whiteBear tensorial markTwo : Path)
deriving Repr

namespace Geometry

/-- The name of a geometry in file names. -/
def tag : Geometry → String
  | .innerSphere radius digit => s!"inner-{Decimal.general radius 6}-0.{digit}"
  | .outerSphere radius digit => s!"outer-{Decimal.general radius 6}-0.{digit}"
  | .walls .. => "walls"

/-- The density functional around a sphere. -/
def innerFunctional (radius : Float) (digit : Nat) : Path :=
  s!"inner-sphereWB-{Decimal.fixedWidth .zero 4 1 (2.0 * radius)}-0.{digit}0-mean.dat"

/-- The simulation around a sphere. -/
def innerMonteCarlo (radius : Float) (digit : Nat) : Path :=
  s!"mc-inner-sphere-{Decimal.general radius 6}-0.{digit}.dat"

/-- The density functional in a cavity. -/
def outerFunctional (radius : Float) (digit : Nat) : Path :=
  s!"outer-sphereWB-{Decimal.general radius 6}-00.{digit}.dat"

/-- The simulation in a cavity. -/
def outerMonteCarlo (radius : Float) (digit : Nat) : Path :=
  s!"mc-outer-sphere-{Decimal.general radius 6}-0.{digit}.dat"

/-- The files of a geometry relative to the data root, in the order of reading. -/
def inputFiles : Geometry → List Path
  | .innerSphere radius digit => [innerFunctional radius digit, innerMonteCarlo radius digit]
  | .outerSphere radius digit => [outerFunctional radius digit, outerMonteCarlo radius digit]
  | .walls monteCarlo whiteBear tensorial markTwo => [whiteBear, monteCarlo, tensorial, markTwo]

/-- The label of the position axis. -/
def xLabel : Geometry → String
  | .walls .. => "position"
  | _ => "r/sigma"

/-- Reads the tables of a geometry and compares them. -/
def compare (g : Geometry) (request : Request) (files : Tree) :
    Except Failure (Comparison Float) := do
  let load (path : Path) (columns : Nat) := loadTable files (request.dataPath path) columns
  match g with
  | .innerSphere radius digit =>
    let dft ← load (innerFunctional radius digit) 8
    let mc ← load (innerMonteCarlo radius digit) 12
    HardSphere.innerSphere g.tag radius dft mc
  | .outerSphere radius digit =>
    let dft ← load (outerFunctional radius digit) 8
    let mc ← load (outerMonteCarlo radius digit) 12
    HardSphere.outerSphere g.tag dft mc
  | .walls mcPath whiteBearPath tensorialPath markTwoPath =>
    let whiteBear ← load whiteBearPath 9
    let mc ← load mcPath 12
    let tensorial ← load tensorialPath 2
    let markTwo ← load markTwoPath 6
    HardSphere.walls ⟨mc, whiteBear, tensorial, markTwo⟩

end Geometry

/-- The contact analysis of one geometry. -/
structure ContactReport where
  geometry : Geometry
deriving Repr

namespace ContactReport

/-- Writes the profiles and the figure. -/
def execute (a : ContactReport) (out : Session.Output) : Session Unit := do
  Session.ask fun _ => out.request.expectKind .contact
  let comparison ← Session.ask (a.geometry.compare out.request)
  comparison.profiles.forM fun profile =>
    Session.columns out s!"contact-{comparison.tag}-{profile.slug}.dat"
      (profile.position :: profile.curves.map fun curve => Profile.present curve.2)
      { header := some profile.header }
  Session.panels out s!"contact-{comparison.tag}.svg"
    (comparison.panels s!"contact values ({comparison.tag})" a.geometry.xLabel)

end ContactReport

end FluidAnalysis.HardSphere
