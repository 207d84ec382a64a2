import FluidAnalysis.Numeric.Summary
import FluidAnalysis.Table.Positions

/-!
# Canonical averages

Averages at a temperature over energy levels whose logarithmic density of states is known. The
Boltzmann exponents are shifted by their maximum before the exponential is taken, so a sharply
peaked density stays finite.
-/

namespace FluidAnalysis.Canonical

open Numeric

variable {α : Type} [Analytic α]

/-- The probabilities of the levels at one temperature, and the logarithm of their sum of states. -/
structure Ensemble (α : Type) where
  probabilities : List α
  lnPartition : α
deriving Repr

/-- The ensemble at a temperature. -/
def ensemble (temperature : α) (energies lnDos : List α) : Ensemble α :=
  let exponents := (lnDos.zip energies).map fun (lnG, energy) => lnG - energy / temperature
  let shift := maximum exponents
  let weights := exponents.map fun a => Analytic.exp (a - shift)
  let total := sum weights
  ⟨weights.map (· / total), shift + Analytic.ln total⟩

/-- Every level has an energy and a density, and there is at least one. -/
def checkLevels (energies lnDos : List α) : Except Failure Unit :=
  if energies.length != lnDos.length then
    .error (.levelCounts energies.length lnDos.length)
  else if energies.isEmpty then .error .noLevels
  else .ok ()

/-- Mean and variance of the energy. -/
def moments (probabilities energies : List α) : α × α :=
  let mean := sum ((energies.zip probabilities).map fun (e, p) => e * p)
  let variance := sum ((energies.zip probabilities).map fun (e, p) =>
    let d := e - mean
    d * d * p)
  (mean, variance)

/-- The heat capacity `var E / T² + offset` at each temperature. -/
def heatCapacity (temperatures energies lnDos : List α) (offset : α) :
    Except Failure (List α) := do
  checkLevels energies lnDos
  return temperatures.map fun t =>
    let e := ensemble t energies lnDos
    (moments e.probabilities energies).2 / (t * t) + offset

/-- Shifts the logarithmic density so that the states add up to one. -/
def normalizeLnDos (lnDos : List α) : List α :=
  let shift := maximum lnDos
  let total := sum (lnDos.map fun v => Analytic.exp (v - shift))
  let lnTotal := shift + Analytic.ln total
  lnDos.map (· - lnTotal)

/-- Internal energy, heat capacity and entropy at one temperature. -/
structure Properties (α : Type) where
  temperature : α
  internalEnergy : α
  heatCapacity : α
  entropy : α
deriving Repr

/-- The properties at each temperature, for the normalised density. -/
def properties (temperatures energies lnDos : List α) :
    Except Failure (List (Properties α)) := do
  checkLevels energies lnDos
  let normalized := normalizeLnDos lnDos
  return temperatures.map fun t =>
    let e := ensemble t energies normalized
    let (internal, variance) := moments e.probabilities energies
    let free := -t * e.lnPartition
    ⟨t, internal, variance / (t * t), (internal - free) / t⟩

/-! ## The lowest temperature to trust -/

/-- The position of the lowest energy, the first one among equals. `best` is the position and
energy of the lowest so far. -/
def lowestFrom (best : Nat × α) : (position : Nat) → List α → Nat
  | _, [] => best.1
  | position, energy :: rest =>
    if Scalar.totalLe best.2 energy then lowestFrom best (position + 1) rest
    else lowestFrom (position, energy) (position + 1) rest

/-- The position of the ground state. -/
def groundState : List α → Nat
  | [] => 0
  | first :: rest => lowestFrom (0, first) 1 rest

/-- The probability of the ground state at a temperature. -/
def groundProbability (temperature : α) (energies lnDos : List α) : Except Failure α :=
  entryAt (ensemble temperature energies lnDos).probabilities (groundState energies)

/-- The first of the temperatures at which the ground state has less than the given share of the
ensemble. -/
def firstDepleted (energies lnDos : List α) (threshold : α) : List α → Except Failure (Option α)
  | [] => .ok none
  | t :: rest => do
    if (← groundProbability t energies lnDos) < threshold then return some t
    firstDepleted energies lnDos threshold rest

/-- The usual share of the ground state below which a temperature is trusted. -/
def defaultThreshold : α := 0.5

/-- The lowest listed temperature at which the ground state has less than the given share of the
ensemble, and the highest one when there is none. Below it the density of states is too poorly
resolved to trust. -/
def minimumTemperature (temperatures energies lnDos : List α) (threshold : α) :
    Except Failure α := do
  checkLevels energies lnDos
  let sorted := temperatures.mergeSort Scalar.totalLe
  match ← firstDepleted energies lnDos threshold sorted with
  | some t => return t
  | none =>
    match sorted.getLast? with
    | some t => return t
    | none => throw .noTemperatures

end FluidAnalysis.Canonical
