import FluidAnalysis.Proofs.Traversal
import FluidAnalysis.SquareWell.Convergence

/-!
# Histories of errors

A history keeps its errors in five columns, and every step writes to all of them: a frame is pushed
to each, and truncating cuts each. Smoothing works on one of them and keeps its length. So the columns
have one length at all times (`ErrorHistory.Even`), through any run of frames (`ofScores_even`).

What the columns of a run hold is what its frames have pushed, in order (`ofScores_eq`).
-/

namespace FluidAnalysis.SquareWell

variable {α : Type}

namespace ErrorHistory

/-! ## Columns of one length -/

/-- All columns have one length. -/
structure Even (h : ErrorHistory α) : Prop where
  roundTrips : h.roundTrips.length = h.iterations.length
  atEnergy : h.atEnergy.length = h.iterations.length
  inEntropy : h.inEntropy.length = h.iterations.length
  maxError : h.maxError.length = h.iterations.length

variable {history : ErrorHistory α}

namespace Even

theorem empty : ({} : ErrorHistory α).Even :=
  ⟨rfl, rfl, rfl, rfl⟩

theorem push (h : history.Even) (entry : ErrorEntry α) : (history.push entry).Even := by
  constructor <;>
    simp [ErrorHistory.push, h.roundTrips, h.atEnergy, h.inEntropy, h.maxError]

theorem truncate (h : history.Even) (count : Nat) : (history.truncate count).Even := by
  constructor <;>
    simp [ErrorHistory.truncate, h.roundTrips, h.atEnergy, h.inEntropy, h.maxError]

/-- A running mean has a value for every value. -/
theorem smooth [Scalar α] (h : history.Even) (window : Nat) : (history.smooth window).Even where
  roundTrips := h.roundTrips
  atEnergy := h.atEnergy
  inEntropy := h.inEntropy
  maxError := (Numeric.length_runningMean _ _).trans h.maxError

theorem counted [Scalar α] (h : history.Even) (count : Nat) (window : Option Nat) :
    (history.counted count window).Even := by
  cases window with
  | none => exact h.truncate count
  | some w => exact (h.truncate count).smooth w

/-- A run of frames keeps the columns at one length. -/
theorem foldl_push {history : ErrorHistory Float} (h : history.Even) (scores : List FrameScore) :
    (scores.foldl (fun (history : ErrorHistory Float) score => history.push score.direct)
      history).Even := by
  induction scores generalizing history with
  | nil => exact h
  | cons score rest ih => exact ih (h.push score.direct)

theorem pushSecond {second : Option (ErrorHistory Float)} (h : ∀ history ∈ second, history.Even)
    (score : FrameScore) : ∀ history ∈ pushSecond second score, history.Even := by
  intro history hhistory
  unfold ErrorHistory.pushSecond at hhistory
  split at hhistory
  · rw [← Option.some.inj hhistory]
    exact (h _ rfl).push _
  · cases hhistory

theorem foldl_pushSecond {second : Option (ErrorHistory Float)}
    (h : ∀ history ∈ second, history.Even) (scores : List FrameScore) :
    ∀ history ∈ scores.foldl ErrorHistory.pushSecond second, history.Even := by
  induction scores generalizing second with
  | nil => exact h
  | cons score rest ih => exact ih (pushSecond h score)

end Even

/-! ## Entries -/

/-- The columns of a list of entries. -/
def ofEntries (entries : List (ErrorEntry α)) : ErrorHistory α where
  iterations := entries.map (·.iterations)
  roundTrips := entries.map (·.roundTrips)
  atEnergy := entries.map (·.errors.atEnergy)
  inEntropy := entries.map (·.errors.inEntropy)
  maxError := entries.map (·.errors.maxError)

theorem push_ofEntries (entries : List (ErrorEntry α)) (entry : ErrorEntry α) :
    (ofEntries entries).push entry = ofEntries (entries ++ [entry]) := by
  simp [ofEntries, push]

theorem foldl_push_ofEntries (scores : List FrameScore) (entries : List (ErrorEntry Float)) :
    scores.foldl (fun (history : ErrorHistory Float) score => history.push score.direct)
        (ofEntries entries)
      = ofEntries (entries ++ scores.map (·.direct)) := by
  induction scores generalizing entries with
  | nil => rw [List.foldl_nil, List.map_nil, List.append_nil]
  | cons score rest ih =>
    rw [List.foldl_cons, push_ofEntries, ih, List.map_cons, List.append_assoc, List.singleton_append]

theorem foldl_pushSecond_none (scores : List FrameScore) :
    scores.foldl pushSecond none = none := by
  induction scores with
  | nil => rfl
  | cons score rest ih => exact ih

/-- A second history is there at the end if every frame has a second score. -/
theorem foldl_pushSecond_ofEntries (scores : List FrameScore) (entries : List (ErrorEntry Float)) :
    scores.foldl pushSecond (some (ofEntries entries))
      = (scores.mapM FrameScore.fromTransitions).map fun more => ofEntries (entries ++ more) := by
  induction scores generalizing entries with
  | nil => simp
  | cons score rest ih =>
    rw [List.foldl_cons, List.mapM_cons]
    cases hsecond : score.fromTransitions with
    | none =>
      have hnone : pushSecond (some (ofEntries entries)) score = none := by
        simp only [pushSecond, hsecond]
      rw [hnone, foldl_pushSecond_none]
      rfl
    | some entry =>
      have hpush : pushSecond (some (ofEntries entries)) score
          = some (ofEntries (entries ++ [entry])) := by
        simp only [pushSecond, hsecond, push_ofEntries]
      rw [hpush, ih]
      cases rest.mapM FrameScore.fromTransitions <;> simp

theorem truncate_counted [Scalar α] (h : ErrorHistory α) (count : Nat) (window : Option Nat) :
    (h.truncate count).counted count window = h.counted count window := by
  have htwice : (h.truncate count).truncate count = h.truncate count := by
    simp [truncate, List.take_take]
  cases window <;> rw [counted, counted, htwice]

theorem truncate_ofEntries (entries : List (ErrorEntry α)) (count : Nat) :
    (ofEntries entries).truncate count = ofEntries (entries.take count) := by
  simp [ofEntries, truncate]

/-- What is reported of a column that is not smoothed. -/
theorem iterations_counted [Scalar α] (h : ErrorHistory α) (count : Nat) (window : Option Nat) :
    (h.counted count window).iterations = h.iterations.take count := by
  cases window <;> rfl

theorem roundTrips_counted [Scalar α] (h : ErrorHistory α) (count : Nat) (window : Option Nat) :
    (h.counted count window).roundTrips = h.roundTrips.take count := by
  cases window <;> rfl

theorem atEnergy_counted [Scalar α] (h : ErrorHistory α) (count : Nat) (window : Option Nat) :
    (h.counted count window).atEnergy = h.atEnergy.take count := by
  cases window <;> rfl

end ErrorHistory

/-! ## The histories of a method -/

namespace MethodHistory

variable (method : String) (window : Option Nat) (scores : List FrameScore)

/-- The number of frames that count. -/
def frameCount (scores : List FrameScore) : Nat :=
  monotoneCount (scores.map (·.direct.iterations))

/-- **The columns of a run hold what its frames have pushed.** -/
theorem ofScores_eq :
    ofScores method window scores =
      { method := method
        direct := (ErrorHistory.ofEntries (scores.map (·.direct))).counted (frameCount scores) window
        fromTransitions := (scores.mapM FrameScore.fromTransitions).map fun entries =>
          (ErrorHistory.ofEntries entries).counted (frameCount scores) window } := by
  have hdirect := ErrorHistory.foldl_push_ofEntries scores []
  have hsecond := ErrorHistory.foldl_pushSecond_ofEntries scores []
  have hempty : (ErrorHistory.ofEntries [] : ErrorHistory Float) = {} := rfl
  rw [hempty, List.nil_append] at hdirect
  rw [hempty] at hsecond
  have hcount : monotoneCount (ErrorHistory.ofEntries (scores.map (·.direct))).iterations
      = frameCount scores := by
    rw [frameCount, ErrorHistory.ofEntries, List.map_map]
    rfl
  simp only [ofScores, hdirect, hsecond, hcount, Option.map_map]
  rfl

/-- The columns of both histories can be written as tables. -/
theorem ofScores_even :
    (ofScores method window scores).direct.Even ∧
      ∀ history ∈ (ofScores method window scores).fromTransitions, history.Even := by
  refine ⟨(ErrorHistory.Even.empty.foldl_push scores).counted _ window, fun history h => ?_⟩
  obtain ⟨second, hsecond, rfl⟩ := Option.map_eq_some_iff.mp h
  have hempty : ∀ history ∈ some ({} : ErrorHistory Float), history.Even := by
    rintro _ ⟨⟩
    exact ErrorHistory.Even.empty
  exact (ErrorHistory.Even.foldl_pushSecond hempty scores second hsecond).counted _ window

end MethodHistory

end FluidAnalysis.SquareWell
