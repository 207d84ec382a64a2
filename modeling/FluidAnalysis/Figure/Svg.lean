import FluidAnalysis.Decimal.General
import FluidAnalysis.Figure.Basic

/-!
# Figures as SVG

Panels stacked from top to bottom in one document.
-/

namespace FluidAnalysis.Figure.Svg

/-- Escapes the characters that have a meaning in markup. -/
def escape (text : String) : String :=
  String.join (text.toList.map fun c =>
    match c with
    | '&' => "&amp;"
    | '<' => "&lt;"
    | '>' => "&gt;"
    | '"' => "&quot;"
    | c => String.singleton c)

/-- A coordinate on the page. -/
def coordinate (x : Float) : String :=
  Decimal.general x 6

def colourText (c : Colour) : String :=
  s!"rgb({c.red},{c.green},{c.blue})"

/-- A rectangle on the page, and the ranges of the two axes on it. -/
structure Frame where
  left : Float
  top : Float
  width : Float
  height : Float
  x : Float × Float
  y : Float × Float

namespace Frame

def place (f : Frame) (point : Float × Float) : Float × Float :=
  (f.left + (point.1 - f.x.1) / (f.x.2 - f.x.1) * f.width,
    f.top + (f.y.2 - point.2) / (f.y.2 - f.y.1) * f.height)

end Frame

def element (name attributes : String) : String :=
  s!"<{name} {attributes}/>\n"

def textElement (x y : Float) (content : String) : String :=
  s!"<text x=\"{coordinate x}\" y=\"{coordinate y}\">{escape content}</text>\n"

/-- A polyline through points on the page. -/
def polyline (colour : String) (points : List (Float × Float)) : String :=
  let spots := " ".intercalate (points.map fun (x, y) => coordinate x ++ "," ++ coordinate y)
  element "polyline" s!"points=\"{spots}\" fill=\"none\" stroke=\"{colour}\""

def circle (colour : String) (point : Float × Float) : String :=
  element "circle"
    s!"cx=\"{coordinate point.1}\" cy=\"{coordinate point.2}\" r=\"3\" fill=\"{colour}\""

/-- The runs of points between those that cannot be drawn. -/
def segments : List (Float × Float) → List (List (Float × Float))
  | [] => [[]]
  | (x, y) :: rest =>
    if x.isFinite && y.isFinite then
      match segments rest with
      | [] => [[(x, y)]]
      | first :: others => ((x, y) :: first) :: others
    else [] :: segments rest

/-- One series. A point that cannot be drawn interrupts a line. -/
def series (f : Frame) (s : Series Float) : String :=
  let colour := colourText s.style.colour
  match s.style.mode with
  | .points => String.join (s.finitePoints.map fun p => circle colour (f.place p))
  | .line =>
    let runs := (segments s.points).filter fun run => !run.isEmpty
    String.join (runs.map fun run => polyline colour (run.map f.place))

/-- One panel with its top at `top`. -/
def panel (size : Size) (top : Float) (p : Panel Float) : String :=
  let width := size.width.toFloat
  let height := size.height.toFloat
  let f : Frame := ⟨70.0, top + 40.0, width - 80.0, height - 90.0, p.resolvedX, p.resolvedY⟩
  let guide := "rgb(102,102,102)"
  let vertical := p.verticalLines.map fun x =>
    polyline guide [f.place (x, f.y.1), f.place (x, f.y.2)]
  let horizontal := p.horizontalLines.map fun y =>
    polyline guide [f.place (f.x.1, y), f.place (f.x.2, y)]
  let labels := (p.series.filter fun s => !s.label.isEmpty).zipIdx.map fun (s, i) =>
    textElement (f.left + 10.0) (f.top + 20.0 + 16.0 * i.toFloat) s.label
  textElement (width / 2.0) (top + 24.0) p.title
    ++ textElement (width / 2.0) (top + height - 12.0) p.xLabel
    ++ textElement 8.0 (top + height / 2.0) p.yLabel
    ++ polyline (colourText .pureBlack)
      [f.place (f.x.1, f.y.2), f.place (f.x.1, f.y.1), f.place (f.x.2, f.y.1)]
    ++ String.join vertical ++ String.join horizontal
    ++ String.join (p.series.map (series f)) ++ String.join labels

/-- The largest extent of a page. -/
def maxExtent : Nat := Nat.pow 2 32 - 1

/-- The extent of the page for a number of panels; there is room for at least one. -/
def pageSize (size : Size) (panels : Nat) : Size :=
  { size with height := min (size.height * max panels 1) maxExtent }

/-- The document for panels stacked from top to bottom. -/
def render (size : Size) (panels : List (Panel Float)) : String :=
  let page := pageSize size panels.length
  let body := panels.zipIdx.map fun (p, i) => panel size (size.height * i).toFloat p
  s!"<svg width=\"{page.width}\" height=\"{page.height}\">\n"
    ++ element "rect" s!"width=\"{page.width}\" height=\"{page.height}\" fill=\"white\""
    ++ String.join body ++ "</svg>\n"

end FluidAnalysis.Figure.Svg
