import FluidAnalysis.Canonical
import FluidAnalysis.Numeric.Grid
import FluidAnalysis.Report.Session
import FluidAnalysis.SquareWell.DensityOfStates

/-!
# Thermodynamics report

Canonical averages per particle from the density of states of each method.
-/

namespace FluidAnalysis.SquareWell

open Files Report Numeric

/-- The averages of one method per particle. -/
structure MethodThermodynamics where
  method : String
  properties : List (Canonical.Properties Float)
  minTemperature : Float
deriving Repr

/-- Properties per particle. -/
def perParticle (particles : Nat) (p : Canonical.Properties Float) : Canonical.Properties Float :=
  let n := Float.ofNat particles
  { p with
    internalEnergy := p.internalEnergy / n
    heatCapacity := p.heatCapacity / n
    entropy := p.entropy / n }

/-- The thermodynamics analysis. -/
structure ThermodynamicsReport where
  system : System
  methods : List String
  temperatures : List Float := closedGrid 0.05 2.0 0.005
  threshold : Float := Canonical.defaultThreshold
deriving Repr

namespace ThermodynamicsReport

/-- The averages of one method. -/
def method (a : ThermodynamicsReport) (request : Request) (files : Tree) (method : String) :
    Except Failure MethodThermodynamics := do
  let stem := a.system.stem method
  let histogram ← loadTable files (request.dataPath s!"{stem}-E.dat") 2
  let weights ← loadTable files (request.dataPath s!"{stem}-lnw.dat") 2
  let found ← levels histogram weights
  if found.isEmpty then throw (.noVisitedEnergies stem)
  let energies := found.map fun level => -level.energy
  let lnDos := found.map (·.lnDos)
  let properties ← Canonical.properties a.temperatures energies lnDos
  let minTemperature ← Canonical.minimumTemperature a.temperatures energies lnDos a.threshold
  return ⟨method, properties.map (perParticle a.system.particles), minTemperature⟩

/-- Writes the averages of one method. -/
def writeMethod (a : ThermodynamicsReport) (out : Session.Output) (method : String) :
    Session MethodThermodynamics := do
  let curve ← Session.ask fun files => a.method out.request files method
  let properties := curve.properties
  Session.columns out s!"thermo-{method}.dat"
    [properties.map (·.temperature), properties.map (·.internalEnergy),
      properties.map (·.heatCapacity), properties.map (·.entropy)]
    { header := some s!"min_T: {Decimal.plain curve.minTemperature}\nT U/N CV/N S/N" }
  return curve

/-- A figure of one property of every method, with the lowest temperatures to trust. -/
def propertyPanel (title yLabel : String) (curves : List MethodThermodynamics)
    (value : Canonical.Properties Float → Float) : Figure.Panel Float where
  title := title
  xLabel := "kT"
  yLabel := yLabel
  series := curves.map fun curve =>
    .ofColumns (Figure.legendLabel curve.method) (curve.properties.map (·.temperature))
      (curve.properties.map value) (.ofMethod curve.method)
  verticalLines := curves.map (·.minTemperature)

/-- The figure with a vertical axis from zero to at least one. -/
def fromZero (panel : Figure.Panel Float) : Figure.Panel Float :=
  { panel with yRange := some (0.0, larger panel.resolvedY.2 1.0) }

/-- Writes the tables and figures. -/
def execute (a : ThermodynamicsReport) (out : Session.Output) : Session Unit := do
  Session.ask fun _ => out.request.expectKind .thermodynamics
  if a.methods.isEmpty then throw (.noMethods .thermodynamics)
  if a.temperatures.isEmpty then throw .emptyTemperatureGrid
  let curves ← (distinct a.methods).mapM (a.writeMethod out)
  let system := a.system.describe
  Session.panel out "thermo-u.svg"
    (propertyPanel s!"Specific internal energy for {system}" "U/N" curves (·.internalEnergy))
  Session.panel out "thermo-cv.svg"
    (fromZero
      (propertyPanel s!"Specific heat capacity for {system}" "CV/Nk" curves (·.heatCapacity)))
  Session.panel out "thermo-s.svg"
    (propertyPanel s!"Configurational entropy for {system}" "S/Nk" curves (·.entropy))

end ThermodynamicsReport

end FluidAnalysis.SquareWell
