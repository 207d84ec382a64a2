import FluidAnalysis.Numeric.RunningMean
import FluidAnalysis.Table.Basic
import FluidAnalysis.Table.Header

/-!
# Convergence of a density of states

A run saves its estimate of the density of states as frames. Each frame is scored against a
converged reference over the important energies, which reach from the state of maximum entropy down
to the lowest energy that matters.
-/

namespace FluidAnalysis.SquareWell

open Numeric

variable {α : Type} [Scalar α]

/-! ## Rows -/

/-- The row of a state. Energies are stored negated, so state `E` stands where `-E` is stored. -/
def energyRow (energies : List Float) (state : Int) : Except Failure Nat :=
  match energies.findIdx? fun energy => energy == -(Float.ofInt state) with
  | some row => .ok row
  | none => .error (.absentEnergy state)

/-- A range of rows with both ends. -/
structure RowRange where
  first : Nat
  last : Nat
deriving Repr, DecidableEq

/-- The entries of a column in a range of rows. -/
def RowRange.entries {β : Type} (r : RowRange) (values : List β) : Except Failure (List β) :=
  entriesFrom values r.first r.last

/-- The rows from one state to another. -/
def rowsBetween (energies : List Float) (firstState lastState : Int) : Except Failure RowRange := do
  let first ← energyRow energies firstState
  let last ← energyRow energies lastState
  if last < first then throw (.energyOrder lastState firstState)
  return ⟨first, last⟩

/-! ## References and frames -/

/-- The converged density of states. -/
structure Reference where
  energies : List Float
  lnDos : List Float
  maxEntropyState : Int
  minImportantEnergy : Int
deriving Repr

/-- The state that a number names: its integer part, cut to what 64 bits with a sign hold. An
undefined number names state zero. -/
def stateOf (x : Float) : Int :=
  if x < 0.0 then max (-Text.signedBound) (-(Scalar.toNat (-x) : Int))
  else min (Text.signedBound - 1) (Scalar.toNat x)

/-- A header entry that a reference must have, as an integer. -/
def referenceHeader (source key : String) : Except Failure Int :=
  match Table.headerNumber? source key with
  | some x => .ok (stateOf x)
  | none => .error (.missingHeader key)

namespace Reference

/-- The reference from a table and the text it was read from. -/
def ofSource (source : String) (t : Table Float) : Except Failure Reference := do
  let maxEntropyState ← referenceHeader source "max_entropy_state"
  let minImportantEnergy ← referenceHeader source "min_important_energy"
  let energies ← t.column 0
  let lnDos ← t.column 1
  return ⟨energies, lnDos, maxEntropyState, minImportantEnergy⟩

/-- The rows of the important energies in a column of energies. -/
def importantRows (r : Reference) (energies : List Float) : Except Failure RowRange :=
  rowsBetween energies r.maxEntropyState r.minImportantEnergy

/-- The important part of the reference. -/
def importantPart (r : Reference) : Except Failure (List Float) := do
  let rows ← r.importantRows r.energies
  rows.entries r.lnDos

/-- How far a state lies behind the state of maximum entropy, as a difference of 64 bits with a
sign. -/
def distance (r : Reference) (state : Int) : Int :=
  Int.bmod (state - r.maxEntropyState) Text.wordBound

/-- The position of a state among the important energies. A state before them has a position that
no range reaches. -/
def offset (r : Reference) (state : Int) : Nat :=
  if 0 ≤ r.distance state then (r.distance state).toNat else Text.wordBound - 1

end Reference

/-- A saved estimate. Some runs estimate the density of states a second time, from the transitions
they saw. -/
structure Frame where
  iterations : Float
  energies : List Float
  lnDos : List Float
  roundTrips : List Float
  fromTransitions : Option (List Float)
deriving Repr

namespace Frame

/-- The estimate from transitions, which is the fourth column of the tables that have it. -/
def secondEstimate (t : Table Float) : Except Failure (Option (List Float)) :=
  if 3 < t.columns then some <$> t.column 3 else .ok none

/-- The frame from a table and the text it was read from. -/
def ofSource (source : String) (t : Table Float) : Except Failure Frame := do
  match Table.headerInteger? source "iterations" with
  | none => throw .noFrameIterations
  | some iterations =>
    let energies ← t.column 0
    let lnDos ← t.column 1
    let roundTrips ← t.column 2
    return ⟨Float.ofInt iterations, energies, lnDos, roundTrips, ← secondEstimate t⟩

/-- The round trips that reached a state. -/
def roundTripsAt (f : Frame) (state : Int) : Except Failure Float := do
  let row ← energyRow f.energies state
  entryAt f.roundTrips row

end Frame

/-! ## Errors -/

/-- The errors of one frame. -/
structure FrameErrors (α : Type) where
  /-- The mean absolute error over the important energies. -/
  inEntropy : α
  /-- The error at the tracked energy. -/
  atEnergy : α
  /-- The spread of the error, which does not depend on the normalisation. -/
  maxError : α
deriving Repr

/-- The errors after the means have been matched. -/
def residuals (lnDos reference : List α) : List α :=
  let norm := mean lnDos - mean reference
  (lnDos.zip reference).map fun (value, expected) => value - expected - norm

/-- The errors of an estimate against the reference, both over the important energies. -/
def frameErrors (lnDos reference : List α) (offset : Nat) : Except Failure (FrameErrors α) :=
  if lnDos.length != reference.length || lnDos.isEmpty then
    .error (.sliceLengths lnDos.length reference.length)
  else
    let errors := residuals lnDos reference
    match errors[offset]? with
    | none => .error (.energyOffset offset errors.length)
    | some atEnergy => .ok {
        inEntropy := sum (errors.map Scalar.abs) / (errors.length : α)
        atEnergy := atEnergy
        maxError := maximum errors - minimum errors }

/-- The length of the longest beginning in which the iterations never decrease. -/
def monotoneCount : List α → Nat
  | [] => 0
  | [_] => 1
  | first :: second :: rest =>
    if second < first then 1 else monotoneCount (second :: rest) + 1

/-! ## Histories -/

/-- The errors of a frame, with how long the run had lasted. -/
structure ErrorEntry (α : Type) where
  iterations : α
  roundTrips : α
  errors : FrameErrors α
deriving Repr

/-- The errors of a run over time, in columns with one entry for each frame. -/
structure ErrorHistory (α : Type) where
  iterations : List α := []
  roundTrips : List α := []
  atEnergy : List α := []
  inEntropy : List α := []
  maxError : List α := []
deriving Repr

namespace ErrorHistory

/-- The history with the errors of one more frame. -/
def push (h : ErrorHistory α) (entry : ErrorEntry α) : ErrorHistory α where
  iterations := h.iterations ++ [entry.iterations]
  roundTrips := h.roundTrips ++ [entry.roundTrips]
  atEnergy := h.atEnergy ++ [entry.errors.atEnergy]
  inEntropy := h.inEntropy ++ [entry.errors.inEntropy]
  maxError := h.maxError ++ [entry.errors.maxError]

/-- The history of the first frames. -/
def truncate (h : ErrorHistory α) (count : Nat) : ErrorHistory α where
  iterations := h.iterations.take count
  roundTrips := h.roundTrips.take count
  atEnergy := h.atEnergy.take count
  inEntropy := h.inEntropy.take count
  maxError := h.maxError.take count

/-- The history with the largest errors averaged over a window. -/
def smooth (h : ErrorHistory α) (window : Nat) : ErrorHistory α :=
  { h with maxError := runningMean h.maxError window }

/-- The history that is reported: its first entries, smoothed if wanted. -/
def counted (h : ErrorHistory α) (count : Nat) (window : Option Nat) : ErrorHistory α :=
  match window with
  | some w => (h.truncate count).smooth w
  | none => h.truncate count

end ErrorHistory

/-- A scored frame; the second score is that of the estimate from transitions. -/
structure FrameScore where
  direct : ErrorEntry Float
  fromTransitions : Option (ErrorEntry Float)
deriving Repr

/-- Scores a frame. `reference` holds the important part of the reference, and `energy` is the state
that is tracked. -/
def Reference.score (r : Reference) (reference : List Float) (energy : Int) (frame : Frame) :
    Except Failure FrameScore := do
  let rows ← r.importantRows frame.energies
  let roundTrips ← frame.roundTripsAt energy
  let errors ← frameErrors (← rows.entries frame.lnDos) reference (r.offset energy)
  let direct := ⟨frame.iterations, roundTrips, errors⟩
  match frame.fromTransitions with
  | none => return ⟨direct, none⟩
  | some lnDos =>
    let second ← frameErrors (← rows.entries lnDos) reference (r.offset energy)
    return ⟨direct, some ⟨frame.iterations, roundTrips, second⟩⟩

/-- The histories of one method. -/
structure MethodHistory where
  method : String
  direct : ErrorHistory Float
  fromTransitions : Option (ErrorHistory Float)
deriving Repr

/-- A second history goes on as long as every frame has a second score. -/
def ErrorHistory.pushSecond (history : Option (ErrorHistory Float)) (score : FrameScore) :
    Option (ErrorHistory Float) :=
  match history, score.fromTransitions with
  | some h, some entry => some (h.push entry)
  | _, _ => none

/-- The histories of a list of scored frames. Frames count up to the first one with fewer iterations
than the one before. There is a second history if every frame has a second score. -/
def MethodHistory.ofScores (method : String) (window : Option Nat) (scores : List FrameScore) :
    MethodHistory :=
  let direct := scores.foldl
    (fun (history : ErrorHistory Float) score => history.push score.direct) {}
  let second := scores.foldl ErrorHistory.pushSecond (some {})
  let count := monotoneCount direct.iterations
  { method := method
    direct := direct.counted count window
    fromTransitions := second.map fun history => history.counted count window }

end FluidAnalysis.SquareWell
