import FluidAnalysis.Failure
import FluidAnalysis.Files.Path

/-!
# Requests

A request says which kind of analysis is wanted, where its data lies and where its results go.
-/

namespace FluidAnalysis.Report

open Files

structure Request where
  label : String
  kind : Kind
  dataRoot : Path
  outputDir : Path
deriving Repr

namespace Request

/-- The path of a file with data. -/
def dataPath (r : Request) (relative : Path) : Path :=
  r.dataRoot.join relative

/-- The path of a result. -/
def outputPath (r : Request) (relative : Path) : Path :=
  r.outputDir.join relative

/-- An analysis runs only requests of its own kind. -/
def expectKind (r : Request) (expected : Kind) : Except Failure Unit :=
  if r.kind == expected then .ok () else .error (.wrongKind expected r.kind r.label)

end Request

end FluidAnalysis.Report
