import FluidAnalysis.Figure.Basic
import FluidAnalysis.Files.Path
import FluidAnalysis.Launch.Job
import FluidAnalysis.Numeric.Grid
import FluidAnalysis.Settings.Reader
import FluidAnalysis.Settings.Record
import FluidAnalysis.SoftSphere.SweepReport

/-!
# What is stored in settings

Sweeps, panel sizes, plots, schedulers, and the settings file of the command line.
-/

namespace FluidAnalysis.Settings

open Files

/-- The counts that a stored number of pixels or megabytes can have. -/
def countBound : Nat := Nat.pow 2 32

/-! ## Sweeps -/

def gridNames : List String :=
  ["densityMin", "densityMax", "densityStep", "temperatureMin", "temperatureMax",
    "temperatureStep"]

/-- A sweep; what is not given has its usual value. -/
def grid? (v : Value) : Option SoftSphere.Grid := do
  let usual : SoftSphere.Grid := {}
  let number (default : Float) (member : Option Value) := memberOr default Value.number? member
  match ← v.members? true gridNames with
  | [dMin, dMax, dStep, tMin, tMax, tStep] =>
    return {
      density := {
        min := ← number usual.density.min dMin
        max := ← number usual.density.max dMax
        step := ← number usual.density.step dStep }
      temperature := {
        min := ← number usual.temperature.min tMin
        max := ← number usual.temperature.max tMax
        step := ← number usual.temperature.step tStep } }
  | _ => none

def ofGrid (g : SoftSphere.Grid) : Value :=
  .object (gridNames.zip ([g.density.min, g.density.max, g.density.step, g.temperature.min,
    g.temperature.max, g.temperature.step].map .decimal))

/-! ## Sizes -/

def sizeNames : List String := ["width", "height"]

/-- The size of a panel; what is not given has its usual value. -/
def size? (v : Value) : Option Figure.Size := do
  let usual : Figure.Size := {}
  match ← v.members? true sizeNames with
  | [width, height] =>
    return {
      width := ← memberOr usual.width (Value.nat? countBound) width
      height := ← memberOr usual.height (Value.nat? countBound) height }
  | _ => none

def ofSize (s : Figure.Size) : Value :=
  .object [("width", .integer s.width), ("height", .integer s.height)]

/-! ## Plots -/

/-- A plot by its name, also as the only field of an object. -/
def plot? : Value → Option SoftSphere.Plot
  | .text name => SoftSphere.Plot.ofName? name
  | .object [(name, .null)] => SoftSphere.Plot.ofName? name
  | _ => none

def ofPlot (p : SoftSphere.Plot) : Value :=
  .text p.name

/-! ## Schedulers -/

/-- The value of a field that must not be given twice. -/
def onlyField? (name : String) (fields : List (String × Value)) : Option Value :=
  match fields.filter fun field => field.1 == name with
  | [(_, value)] => some value
  | _ => none

/-- A scheduler by its kind. Other fields of the object say nothing. -/
def scheduler? : Value → Option Launch.Scheduler
  | .object fields =>
    match onlyField? "kind" fields with
    | some (.text "local") => some .direct
    | some (.text "srun") =>
      ((onlyField? "mem_mb" fields).bind (Value.nat? countBound)).map .srun
    | _ => none
  | .array [.text "local"] => some .direct
  | .array [.text "srun", memory] => (memory.nat? countBound).map .srun
  | _ => none

def ofScheduler : Launch.Scheduler → Value
  | .direct => .object [("kind", .text "local")]
  | .srun memory => .object [("kind", .text "srun"), ("mem_mb", .integer memory)]

/-! ## The settings file -/

/-- A grid of temperatures with both ends. -/
structure TemperatureRange where
  min : Float
  max : Float
  step : Float
deriving Repr

def TemperatureRange.values (r : TemperatureRange) : List Float :=
  Numeric.closedGrid r.min r.max r.step

/-- A range of temperatures, of which nothing may be missing. -/
def temperatureRange? (v : Value) : Option TemperatureRange := do
  match ← v.members? false ["min", "max", "step"] with
  | [some min, some max, some step] =>
    return ⟨← min.number?, ← max.number?, ← step.number?⟩
  | _ => none

/-- What a settings file may fix. -/
structure Stored where
  dataRoot : Option Path := none
  outputRoot : Option Path := none
  temperatures : Option TemperatureRange := none
  figure : Option Figure.Size := none
deriving Repr

/-- The content of a settings file. -/
def stored? (v : Value) : Option Stored := do
  match ← v.members? false ["dataRoot", "outputRoot", "temperatures", "figure"] with
  | [dataRoot, outputRoot, temperatures, figure] =>
    return {
      dataRoot := ← memberOr none (Value.optional? Value.text?) dataRoot
      outputRoot := ← memberOr none (Value.optional? Value.text?) outputRoot
      temperatures := ← memberOr none (Value.optional? temperatureRange?) temperatures
      figure := ← memberOr none (Value.optional? size?) figure }
  | _ => none

end FluidAnalysis.Settings
