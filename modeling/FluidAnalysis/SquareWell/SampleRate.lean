import FluidAnalysis.SquareWell.System
import FluidAnalysis.Table.Basic
import FluidAnalysis.Table.Header

/-!
# Sample rates

How many iterations a run needs for one independent sample of each energy.
-/

namespace FluidAnalysis.SquareWell

/-- Iterations per sample, for the energies that were sampled. -/
structure SampleRate where
  iterations : Float
  energyPerParticle : List Float
  iterationsPerSample : List Float
deriving Repr

namespace SampleRate

/-- The sample rate from a table and the text it was read from, which names the iterations. -/
def ofSource (particles : Nat) (source : String) (t : Table Float) : Except Failure SampleRate := do
  match (Table.tokenAfter? source "iterations:").bind Decimal.read? with
  | none => throw .noSampleIterations
  | some iterations =>
    let energies ← t.column 0
    let samples ← t.column 1
    let visited := (energies.zip samples).filter fun (_, count) => count != 0.0
    return ⟨iterations, SquareWell.energyPerParticle particles (visited.map Prod.fst),
      visited.map fun (_, count) => iterations / count⟩

def hasSamples (r : SampleRate) : Bool :=
  !r.iterationsPerSample.isEmpty

end SampleRate

end FluidAnalysis.SquareWell
