/-!
# Colours, lines and legends

How a simulation method is drawn in every figure that compares methods.
-/

namespace FluidAnalysis.Figure

/-- A colour by its red, green and blue parts. -/
structure Colour where
  red : Nat
  green : Nat
  blue : Nat
deriving Repr, DecidableEq

namespace Colour

def pureBlack : Colour := ⟨0, 0, 0⟩
def pureRed : Colour := ⟨255, 0, 0⟩
def darkGreen : Colour := ⟨0, 128, 0⟩
def pureBlue : Colour := ⟨0, 0, 255⟩
def cyan : Colour := ⟨0, 191, 191⟩
def magenta : Colour := ⟨191, 0, 191⟩
def yellow : Colour := ⟨191, 191, 0⟩
def orange : Colour := ⟨255, 127, 14⟩
def purple : Colour := ⟨148, 103, 189⟩
def pink : Colour := ⟨227, 119, 194⟩
def brown : Colour := ⟨140, 86, 75⟩

end Colour

/-- The colours of series that are told apart by their position only. -/
def cycle : List Colour :=
  [.pureRed, .darkGreen, .pureBlue, .cyan, .magenta, .pureBlack, .yellow]

/-- The colour at a position; the cycle starts again at its end. -/
def cycleColour (position : Nat) : Colour :=
  (cycle[position % cycle.length]?).getD .pureBlack

/-- How the points of a method are joined. -/
inductive LineStyle where
  | solid
  | dashed
  | dotted
  | dashDot
deriving Repr, DecidableEq

/-! ## Conventions by method -/

def methodColours : List (String × Colour) :=
  [("sad", .pureRed), ("sad-tm", .pureRed),
    ("sad3", .cyan), ("sad3-tm", .cyan), ("sad3-s1", .cyan), ("sad3-s1-tm", .cyan),
    ("sad3-s2", .cyan), ("sad3-s2-tm", .cyan),
    ("wltmmc-1e-10", .pureBlack), ("wltmmc-0.8-1e-10", .pureBlack),
    ("wltmmc-0.8-1e-10-s1", .pureBlack), ("vanilla_wang_landau", .pureBlack),
    ("tmmc", .pureBlue), ("tmi3", .darkGreen), ("toe3", .orange), ("samc", .magenta),
    ("wltmmc-0.8-0.0001", .purple), ("wltmmc-0.0001", .purple), ("wltmmc-1-0.0001", .pink),
    ("wltmmc", .purple),
    ("samc-1000", .pureRed), ("samc-10000", .orange), ("samc-100000", .yellow),
    ("samc-1e+06", .darkGreen),
    ("samc-1000-slow", .pureRed), ("samc-10000-slow", .orange), ("samc-100000-slow", .yellow),
    ("samc-1000-fast", .pureRed), ("samc-10000-fast", .orange), ("samc-100000-fast", .yellow),
    ("1/sqrt(t)", .pureRed)]

def methodLines : List (String × LineStyle) :=
  [("sad-tm", .dashed), ("sad3-tm", .dashed), ("sad3-s1", .dotted), ("sad3-s1-tm", .dashed),
    ("sad3-s2", .dashDot), ("sad3-s2-tm", .dashed), ("vanilla_wang_landau", .dashed),
    ("samc-1000", .dotted), ("samc-10000", .dotted), ("samc-100000", .dotted),
    ("samc-1000-slow", .dotted), ("samc-10000-slow", .dotted), ("samc-100000-slow", .dotted),
    ("samc-1000-fast", .dotted), ("samc-10000-fast", .dotted), ("samc-100000-fast", .dotted),
    ("samc-1e+06", .dotted)]

/-- The methods in the order of a legend. -/
def legendMethods : List String :=
  ["sad", "sad-tm", "sad3", "sad3-tm", "sad3-s1", "sad3-s2", "tmmc", "wltmmc-0.8-0.0001",
    "wltmmc-0.0001", "wltmmc", "wltmmc-0.8-1e-10", "wltmmc-1e-10", "vanilla_wang_landau", "tmi3",
    "toe3", "samc", "samc-1000", "samc-10000", "samc-100000", "samc-1e+06"]

def methodLabels : List (String × String) :=
  [("vanilla_wang_landau", "WL"), ("sad", "SAD"), ("sad-tm", "SAD-TM"), ("sad3", "SAD"),
    ("wltmmc", "WLTMMC (10^-4 cutoff)"), ("wltmmc-0.8-0.0001", "WLTMMC (10^-4 cutoff)"),
    ("wltmmc-0.0001", "WLTMMC (10^-4 cutoff)"), ("wltmmc-0.8-1e-10", "WLTMMC (10^-10 cutoff)"),
    ("wltmmc-1e-10", "WLTMMC (10^-10 cutoff)"), ("tmmc", "TMMC"), ("tmi3", "TMI"), ("toe3", "TOE"),
    ("samc", "SAMC"), ("samc-1000", "SAMC (10^3 t0)"), ("samc-10000", "SAMC (10^4 t0)"),
    ("samc-100000", "SAMC (10^5 t0)"), ("samc-1000-slow", "SAMC (10^3 t0)"),
    ("samc-10000-slow", "SAMC (10^4 t0)"), ("samc-100000-slow", "SAMC (10^5 t0)"),
    ("samc-1000-fast", "SAMC (10^3 t0)"), ("samc-10000-fast", "SAMC (10^4 t0)"),
    ("samc-100000-fast", "SAMC (10^5 t0)"), ("samc-1e+06", "SAMC (10^6 t0)"),
    ("1/sqrt(t)", "1/sqrt(t)")]

/-- Methods without a colour of their own are black. -/
def methodColour (method : String) : Colour :=
  (methodColours.lookup method).getD .pureBlack

/-- Methods without a line of their own have a solid one. -/
def methodLine (method : String) : LineStyle :=
  (methodLines.lookup method).getD .solid

/-- Methods without a label of their own are shown by their name. -/
def legendLabel (method : String) : String :=
  (methodLabels.lookup method).getD method

/-- The place of a method in a legend; all unknown methods come after the known ones. -/
def legendOrder (method : String) : Nat :=
  legendMethods.idxOf method

/-- Methods in the order of a legend. Unknown methods keep their given order. -/
def sortByLegend (methods : List String) : List String :=
  methods.mergeSort fun a b => decide (legendOrder a ≤ legendOrder b)

end FluidAnalysis.Figure
