import FluidAnalysis.Report.Session
import FluidAnalysis.SquareWell.Coexistence

/-!
# Coexistence report

All coexistence curves in one table and one figure.
-/

namespace FluidAnalysis.SquareWell

open Files Report

/-- The coexistence analysis. -/
structure CoexistenceReport where
deriving Repr

namespace CoexistenceReport

/-- Reads all curves. -/
def curves (request : Request) (files : Tree) : Except Failure (List CoexistenceCurve) := do
  let load (path : Path) (columns : Nat) := loadTable files (request.dataPath path) columns
  let calculated ← load "npart_RG-i0-out.dat" 3
  let (vapour, liquid) ← CoexistenceCurve.branches calculated
  let forteTable ← load "forte_data.dat" 2
  let forte ← CoexistenceCurve.digitised .forte forteScale forteTable
  let convergedTable ← load "forte_data_conv.dat" 2
  let converged ← CoexistenceCurve.digitised .forteConverged forteScale convergedTable
  let whiteTable ← load "white_MD.dat" 2
  let white ← CoexistenceCurve.digitised .white whiteScale whiteTable
  return [vapour, liquid, forte, converged, white]

/-- Legend and style of a curve. -/
def appearance : CurveSource → String × Figure.SeriesStyle
  | .vapour => ("RG i=0", ⟨.pureBlue, .line⟩)
  | .liquid => ("", ⟨.pureBlue, .line⟩)
  | .forte => ("Forte 2011, non-converged RGT", ⟨.darkGreen, .line⟩)
  | .forteConverged => ("Forte 2011, converged RGT", ⟨.cyan, .line⟩)
  | .white => ("White 2000", ⟨.pureRed, .points⟩)

/-- The rows of one curve. -/
def renderCurve (curve : CoexistenceCurve) : String :=
  String.join ((curve.filling.zip curve.temperature).map fun (eta, temperature) =>
    s!"{curve.source.name} {Decimal.general eta 6} {Decimal.general temperature 6}\n")

/-- Writes the table and the figure. -/
def execute (_ : CoexistenceReport) (out : Session.Output) : Session Unit := do
  Session.ask fun _ => out.request.expectKind .coexistence
  let found ← Session.ask (curves out.request)
  Session.text out "coexistence.dat" ("# source eta T\n" ++ String.join (found.map renderCurve))
  Session.panel out "coexistence.svg" {
    title := "l-v coexistence, lambda_SW=1.5"
    xLabel := "eta"
    yLabel := "T"
    series := found.map fun curve =>
      let (label, style) := appearance curve.source
      .ofColumns label curve.filling curve.temperature style }

end CoexistenceReport

end FluidAnalysis.SquareWell
