import FluidAnalysis.Figure.Basic
import FluidAnalysis.Table.Basic

/-!
# Contact values of hard spheres

Contact values and filling fractions next to a sphere or a wall, from Monte Carlo runs and from
density functionals, brought onto a common axis for comparison. A value that is left out of a curve
is missing; it is drawn as a gap.
-/

namespace FluidAnalysis.HardSphere

open Numeric

variable {α : Type} [Analytic α]

/-! ## Quantities -/

/-- The three panels of a comparison. -/
inductive ContactPanel where
  | contactA
  | contactS
  | filling
deriving Repr, DecidableEq

/-- What a curve shows. -/
inductive Quantity where
  | filling
  | fillingN0
  | fillingNA
  | contactA
  | contactS
  | yuWu
  | gross
deriving Repr, DecidableEq

namespace Quantity

def all : List Quantity :=
  [.filling, .fillingN0, .fillingNA, .contactA, .contactS, .yuWu, .gross]

def columnName : Quantity → String
  | .filling => "eta"
  | .fillingN0 => "eta0"
  | .fillingNA => "etaA"
  | .contactA => "gA"
  | .contactS => "gS"
  | .yuWu => "gYuWu"
  | .gross => "gGross"

def panel : Quantity → ContactPanel
  | .filling | .fillingN0 | .fillingNA => .filling
  | .contactA | .gross => .contactA
  | .contactS | .yuWu => .contactS

def colour : Quantity → Figure.Colour
  | .filling => .pureBlue
  | .fillingN0 => .cyan
  | .fillingNA => .magenta
  | .contactA => .pureRed
  | .gross => .orange
  | .contactS => .darkGreen
  | .yuWu => .brown

/-- The legend of the quantity in one data source. -/
def legend (source : String) : Quantity → String
  | .filling => source ++ " n"
  | .fillingN0 => source ++ " n0"
  | .fillingNA => source ++ " nA"
  | .contactA => source ++ " gA"
  | .contactS => source ++ " gS"
  | .yuWu => "Yu and Wu"
  | .gross => "Gross"

end Quantity

/-! ## Profiles -/

/-- One data source on its position axis. -/
structure Profile (α : Type) where
  source : String
  slug : String
  position : List α
  curves : List (Quantity × List (Option α))
deriving Repr

namespace Profile

def curve? (p : Profile α) (q : Quantity) : Option (List (Option α)) :=
  (p.curves.find? fun curve => curve.1 == q).map Prod.snd

/-- The names of the columns, the position first. -/
def header (p : Profile α) : String :=
  " ".intercalate ("x" :: p.curves.map fun curve => curve.1.columnName)

/-- Monte Carlo curves are drawn as lines, the others as markers. -/
def isMonteCarlo (p : Profile α) : Bool :=
  p.slug == "mc"

/-- A missing value as a number: it is none. -/
def present (values : List (Option α)) : List α :=
  values.map fun v => v.getD (0.0 / 0.0)

end Profile

/-- The profiles of one geometry, with the window and the surface to show. -/
structure Comparison (α : Type) where
  tag : String
  profiles : List (Profile α)
  window : Option (α × α)
  surface : Option α
deriving Repr

namespace Comparison

/-- The series of one panel. -/
def panelSeries (c : Comparison α) (panel : ContactPanel) : List (Figure.Series α) :=
  c.profiles.flatMap fun profile =>
    (profile.curves.filter fun curve => curve.1.panel == panel).map fun (quantity, values) =>
      Figure.Series.ofColumns (quantity.legend profile.source) profile.position
        (Profile.present values)
        ⟨quantity.colour, if profile.isMonteCarlo then .line else .points⟩

/-- One panel of the comparison. -/
def panel (c : Comparison α) (title xLabel yLabel : String) (panel : ContactPanel) :
    Figure.Panel α where
  title := title
  xLabel := xLabel
  yLabel := yLabel
  series := c.panelSeries panel
  xRange := c.window
  verticalLines := c.surface.toList

/-- The contact values of the two kinds and the filling fraction, from top to bottom. Only the first
panel has a title. -/
def panels (c : Comparison α) (title xLabel : String) : List (Figure.Panel α) :=
  [c.panel title xLabel "gA" .contactA, c.panel "" xLabel "gS" .contactS,
    c.panel "" xLabel "filling fraction" .filling]

end Comparison

/-! ## Curves -/

/-- Filling fraction per number density, for spheres of radius one. -/
def fillingPerDensity : α := 4.0 * Analytic.pi / 3.0

def fillings (density : List α) : List α :=
  density.map (· * fillingPerDensity)

def ratios (numerator denominator : List α) : List α :=
  (numerator.zip denominator).map fun (top, bottom) => top / bottom

/-- A curve without gaps. -/
def whole (values : List α) : List (Option α) :=
  values.map some

/-- A curve with the values in the rows that are kept. -/
def masked (values : List α) (keep : Nat → Except Failure Bool) :
    Except Failure (List (Option α)) :=
  values.zipIdx.mapM fun (value, row) => do
    return if ← keep row then some value else none

/-- Diameters from radii. -/
def halved (position : List α) : List α :=
  position.map (· / 2.0)

/-- Keeps the rows in which a column is at least `limit`. -/
def atLeast (limit : α) (values : List α) (row : Nat) : Except Failure Bool := do
  return decide (limit ≤ (← entryAt values row))

/-- Keeps the rows in which a column is below `limit`. -/
def below (limit : α) (values : List α) (row : Nat) : Except Failure Bool := do
  return decide ((← entryAt values row) < limit)

/-- Keeps the rows from one to another, the second left out. -/
def between (start stop row : Nat) : Except Failure Bool :=
  return decide (start ≤ row ∧ row < stop)

/-- The spacing between the second and the third position; the first may be irregular. -/
def gridSpacing (t : Table α) (context : String) : Except Failure α :=
  match t.value? 1 0, t.value? 2 0 with
  | some first, some second =>
    if first < second then .ok (second - first) else .error (.contactGrid context)
  | _, _ => .error (.contactGrid context)

/-- Contact values from here on are noise of the sampling. -/
def noiseLimit : α := 5.0

/-- The profile of a Monte Carlo run around or inside a sphere. Two histograms of contacts follow the
first two columns for each of several shells, and `shell` picks one of them. -/
def monteCarloProfile (mc : Table α) (shell : Nat) : Except Failure (Profile α) := do
  let r ← mc.column 0
  let n ← mc.column 1
  let n0 ← mc.column 10
  let nA ← mc.column 11
  let histogramA ← mc.column (2 + 2 * shell)
  let histogramS ← mc.column (3 + 2 * shell)
  let ratio := ratios histogramS n0
  let contactS ← masked ratio (below noiseLimit ratio)
  return ⟨"MC", "mc", halved r,
    [(.contactA, whole (ratios histogramA nA)), (.contactS, contactS),
      (.filling, whole (fillings n))]⟩

/-! ## Geometries -/

/-- A solute sphere in the fluid. -/
def innerSphere (tag : String) (radius : α) (dft mc : Table α) :
    Except Failure (Comparison α) := do
  dft.requireColumns 8 "inner-sphere DFT table"
  mc.requireColumns 12 "inner-sphere MC table"
  let showMin := larger (radius - 1.0) 0.0
  let showMax := radius + 6.0
  let r ← dft.column 0
  let n ← dft.column 1
  let contactS ← dft.column 3
  let yuWu ← dft.column 4
  let contactA ← dft.column 6
  let gross ← dft.column 7
  let shownA ← masked contactA (atLeast showMin r)
  let shownS ← masked contactS (atLeast showMin r)
  let outside ← masked (fillings n) (atLeast radius r)
  let functional : Profile α := ⟨"DFT", "dft", halved r,
    [(.contactA, shownA), (.gross, whole gross), (.contactS, shownS), (.yuWu, whole yuWu),
      (.filling, outside)]⟩
  let monteCarlo ← monteCarloProfile mc 2
  return {
    tag := tag
    profiles := [monteCarlo, functional]
    window := some (showMin / 2.0, showMax / 2.0)
    surface := some (radius / 2.0) }

/-- What a cavity calculation adds to the diameter of its cell. -/
def cavityPadding : α := 4.0

/-- The radius of a cavity, from the extent of the grid. -/
def cavityRadius (dft : Table α) : Except Failure α :=
  match dft.lastRow? with
  | none => .error .cavityRows
  | some row => do return Scalar.round (← entryAt row 0) - cavityPadding / 2.0

/-- The number of rows up to one radius before the end of a grid. -/
def rowsBeforeEnd (rows : Nat) (spacing : α) : Nat :=
  Scalar.toNat (larger ((rows : α) - 1.0 / spacing) 0.0)

/-- Fluid inside a spherical cavity. The Monte Carlo curves are closed at the wall. -/
def outerSphere (tag : String) (dft mc : Table α) : Except Failure (Comparison α) := do
  dft.requireColumns 8 "outer-sphere DFT table"
  mc.requireColumns 12 "outer-sphere MC table"
  let radius ← cavityRadius dft
  let showMin := radius - 6.0
  let showMax := radius + 1.0
  let spacing ← gridSpacing dft "outer-sphere DFT table"
  let sphereEnd := rowsBeforeEnd dft.rowCount spacing
  let wall ← withEntry (List.replicate mc.columns (0.0 : α)) 0 radius
  let wall ← withEntry wall 10 1.0
  let (added, closed) := mc.push wall
  added
  let r ← dft.column 0
  let n ← dft.column 1
  let contactS ← dft.column 4
  let contactA ← dft.column 5
  let yuWu ← dft.column 6
  let gross ← dft.column 7
  let shownA ← masked contactA (atLeast showMin r)
  let shownS ← masked contactS (between 0 sphereEnd)
  let functional : Profile α := ⟨"DFT", "dft", halved r,
    [(.contactA, shownA), (.gross, whole gross), (.contactS, shownS), (.yuWu, whole yuWu),
      (.filling, whole (fillings n))]⟩
  let monteCarlo ← monteCarloProfile closed 1
  return {
    tag := tag
    profiles := [monteCarlo, functional]
    window := some (showMin / 2.0, showMax / 2.0)
    surface := some (radius / 2.0) }

/-- The tables of a fluid between two walls. -/
structure WallTables (α : Type) where
  monteCarlo : Table α
  whiteBear : Table α
  tensorial : Table α
  markTwo : Table α

/-- The shift from the coordinates of a run between walls to those of the functionals. -/
def wallShift : α := 13.0

/-- Fluid between two walls. -/
def walls (tables : WallTables α) : Except Failure (Comparison α) := do
  tables.monteCarlo.requireColumns 12 "wall MC table"
  tables.whiteBear.requireColumns 9 "White Bear wall table"
  tables.tensorial.requireColumns 2 "tensorial White Bear wall table"
  tables.markTwo.requireColumns 6 "mark II wall table"
  let spacing ← gridSpacing tables.whiteBear "White Bear wall table"
  let start := Scalar.toNat (2.5 / spacing)
  let stop := rowsBeforeEnd tables.whiteBear.rowCount spacing
  let mcX ← tables.monteCarlo.column 0
  let mcN ← tables.monteCarlo.column 1
  let mcN0 ← tables.monteCarlo.column 10
  let mcNA ← tables.monteCarlo.column 11
  let monteCarlo : Profile α := ⟨"MC", "mc", mcX.map (· + wallShift),
    [(.filling, whole (fillings mcN)), (.fillingN0, whole (fillings mcN0)),
      (.fillingNA, whole (fillings mcNA))]⟩
  let x ← tables.whiteBear.column 0
  let n ← tables.whiteBear.column 1
  let contactS ← tables.whiteBear.column 3
  let yuWu ← tables.whiteBear.column 4
  let contactA ← tables.whiteBear.column 5
  let n0 ← tables.whiteBear.column 6
  let gross ← tables.whiteBear.column 7
  let nA ← tables.whiteBear.column 8
  let shownA ← masked contactA (between start stop)
  let shownS ← masked contactS (between start stop)
  let whiteBear : Profile α := ⟨"White Bear", "dft", x,
    [(.filling, whole (fillings n)), (.fillingN0, whole (fillings n0)),
      (.fillingNA, whole (fillings nA)), (.contactA, shownA), (.gross, whole gross),
      (.contactS, shownS), (.yuWu, whole yuWu)]⟩
  let secondX ← tables.markTwo.column 0
  let secondN ← tables.markTwo.column 1
  let secondS ← tables.markTwo.column 3
  let secondA ← tables.markTwo.column 5
  let secondShownA ← masked secondA (between start stop)
  let secondShownS ← masked secondS (between start stop)
  let markTwo : Profile α := ⟨"Mark II", "mark-two", secondX,
    [(.filling, whole (fillings secondN)), (.contactA, secondShownA),
      (.contactS, secondShownS)]⟩
  let tensorialX ← tables.tensorial.column 0
  let tensorialN ← tables.tensorial.column 1
  let tensorial : Profile α := ⟨"WBT", "wbt", tensorialX,
    [(.filling, whole (fillings tensorialN))]⟩
  return {
    tag := "walls"
    profiles := [monteCarlo, whiteBear, markTwo, tensorial]
    window := none
    surface := none }

end FluidAnalysis.HardSphere
