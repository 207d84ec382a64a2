import FluidAnalysis.Figure.Style
import FluidAnalysis.Numeric.Summary

/-!
# Figures

A figure is data: labelled series of points, guide lines and axis ranges. Logarithmic axes are
expressed by plotting the logarithm of the data under a matching label.
-/

namespace FluidAnalysis.Figure

open Numeric

variable {α : Type} [Scalar α]

/-- The size of one panel. -/
structure Size where
  width : Nat := 800
  height : Nat := 600
deriving Repr, DecidableEq

/-- How the points of a series are shown. -/
inductive Mode where
  | line
  | points
deriving Repr, DecidableEq

structure SeriesStyle where
  colour : Colour
  mode : Mode
deriving Repr, DecidableEq

/-- The style of a method: dotted methods are drawn as markers, all others as lines. -/
def SeriesStyle.ofMethod (method : String) : SeriesStyle :=
  match methodLine method with
  | .dotted => ⟨methodColour method, .points⟩
  | _ => ⟨methodColour method, .line⟩

structure Series (α : Type) where
  label : String
  points : List (α × α)
  style : SeriesStyle
deriving Repr

/-- A series from its two coordinates, as far as both reach. -/
def Series.ofColumns (label : String) (x y : List α) (style : SeriesStyle) : Series α :=
  ⟨label, x.zip y, style⟩

/-- The points with two finite coordinates. -/
def Series.finitePoints (s : Series α) : List (α × α) :=
  s.points.filter fun (x, y) => Scalar.isFinite x && Scalar.isFinite y

/-- One panel. A range that is not given follows from the data. -/
structure Panel (α : Type) where
  title : String
  xLabel : String
  yLabel : String
  series : List (Series α) := []
  xRange : Option (α × α) := none
  yRange : Option (α × α) := none
  verticalLines : List α := []
  horizontalLines : List α := []
deriving Repr

/-- The distance between one and the next double. -/
def epsilon : α := 1.0 / 4503599627370496.0

/-- A range around the finite values: five percent wider on each side, or by a half on each side
when the values do not differ, and from zero to one when there are none. -/
def automaticRange (values : List α) : α × α :=
  let finite := values.filter Scalar.isFinite
  let low := finite.foldl smaller (1.0 / 0.0)
  let high := finite.foldl larger (-(1.0 / 0.0))
  if !Scalar.isFinite low || !Scalar.isFinite high then (0.0, 1.0)
  else
    let span := high - low
    if span ≤ epsilon * larger (Scalar.abs low) 1.0 then (low - 0.5, high + 0.5)
    else (low - 0.05 * span, high + 0.05 * span)

namespace Panel

def push (p : Panel α) (s : Series α) : Panel α :=
  { p with series := p.series ++ [s] }

/-- All points with two finite coordinates, series after series. -/
def finitePoints (p : Panel α) : List (α × α) :=
  p.series.flatMap Series.finitePoints

/-- Nothing of the data can be drawn. -/
def isEmpty (p : Panel α) : Bool :=
  p.series.all fun s => s.finitePoints.isEmpty

def resolvedX (p : Panel α) : α × α :=
  p.xRange.getD (automaticRange (p.finitePoints.map Prod.fst ++ p.verticalLines))

def resolvedY (p : Panel α) : α × α :=
  p.yRange.getD (automaticRange (p.finitePoints.map Prod.snd ++ p.horizontalLines))

end Panel

end FluidAnalysis.Figure
