import Mathlib
import FluidAnalysis.Proofs.SquareWell.Courses
import FluidAnalysis.Proofs.Double.Order
import FluidAnalysis.Proofs.SquareWell.CountedFrames

/-!
# Rows of the tracked energy

A convergence report tracks one energy. It finds that energy in a frame in two ways: the round trips
are read from the row that holds the energy, and the error from the row that lies as many rows
behind the state of maximum entropy as the energy lies behind that state. The second way counts one
row for each state, so the two rows can differ in a table with gaps or with a state in two rows. It
also counts with 64 bits: states that are further apart than that can seem to be close.

* `HoldsState`, `IsRowError` — what a row holds, and the error of a row
* `energyRow_eq_ok_iff` — the row that is found is the first one with the state
* `TrackedAt` — which rows a score was read from
* `compareMethod_tracked` — both rows for every frame of a comparison, and when they are one
-/

namespace FluidAnalysis.SquareWell

open Files Numeric Report

/-! ## Rows -/

/-- A row of a column of energies that holds a state. -/
def HoldsState (energies : List Float) (row : Nat) (state : Int) : Prop :=
  ∃ energy, energies[row]? = some energy ∧ (energy == -(Float.ofInt state)) = true

/-- The row of a state is the first one that holds it. -/
theorem energyRow_eq_ok_iff {energies : List Float} {state : Int} {row : Nat} :
    energyRow energies state = .ok row ↔
      HoldsState energies row state ∧ ∀ earlier < row, ¬ HoldsState energies earlier state := by
  have hfind : energyRow energies state = .ok row ↔
      energies.findIdx? (fun energy => energy == -(Float.ofInt state)) = some row := by
    unfold energyRow
    cases energies.findIdx? fun energy => energy == -(Float.ofInt state) <;> simp
  rw [hfind, List.findIdx?_eq_some_iff_getElem]
  constructor
  · rintro ⟨hrow, hholds, hbefore⟩
    refine ⟨⟨_, List.getElem?_eq_getElem hrow, hholds⟩, ?_⟩
    rintro earlier hearlier ⟨energy, henergy, hequal⟩
    obtain ⟨_, rfl⟩ := List.getElem?_eq_some_iff.mp henergy
    exact hbefore earlier hearlier hequal
  · rintro ⟨⟨energy, henergy, hholds⟩, hbefore⟩
    obtain ⟨hrow, rfl⟩ := List.getElem?_eq_some_iff.mp henergy
    refine ⟨hrow, hholds, ?_⟩
    intro earlier hearlier hequal
    exact hbefore earlier hearlier ⟨_, List.getElem?_eq_getElem (by omega), hequal⟩

theorem getElem?_entries {rows : RowRange} {values part : List Float}
    (h : rows.entries values = .ok part) (i : Nat) :
    part[i]? = if rows.first + i ≤ rows.last then values[rows.first + i]? else none := by
  unfold RowRange.entries entriesFrom at h
  split at h
  · cases h
    rw [List.getElem?_drop, List.getElem?_take]
    simp
  · cases h

/-! ## Errors of rows -/

/-- The error of a row of a column: what it holds less what the reference holds at the same
position, after the means over the important rows have been matched. -/
def IsRowError (rows : RowRange) (lnDos expected : List Float) (row : Nat) (error : Float) : Prop :=
  rows.first ≤ row ∧ row ≤ rows.last ∧ ∃ part value known,
    rows.entries lnDos = .ok part ∧ lnDos[row]? = some value ∧
      expected[row - rows.first]? = some known ∧
      error = value - known - (mean part - mean expected)

theorem frameErrors_atEnergy {lnDos expected : List Float} {offset : Nat}
    {errors : FrameErrors Float} (h : frameErrors lnDos expected offset = .ok errors) :
    ∃ value known, lnDos[offset]? = some value ∧ expected[offset]? = some known ∧
      errors.atEnergy = value - known - (mean lnDos - mean expected) := by
  unfold frameErrors at h
  split at h
  · cases h
  · simp only at h
    cases hentry : (residuals lnDos expected)[offset]? with
    | none =>
      rw [hentry] at h
      cases h
    | some atEnergy =>
      rw [hentry] at h
      cases h
      unfold residuals at hentry
      simp only [List.getElem?_map, Option.map_eq_some_iff] at hentry
      obtain ⟨⟨value, known⟩, hpair, rfl⟩ := hentry
      obtain ⟨hvalue, hknown⟩ := List.getElem?_zip_eq_some.mp hpair
      exact ⟨value, known, hvalue, hknown, rfl⟩

theorem isRowError_of_frameErrors {rows : RowRange} {lnDos part expected : List Float} {offset : Nat}
    {errors : FrameErrors Float} (hpart : rows.entries lnDos = .ok part)
    (h : frameErrors part expected offset = .ok errors) :
    IsRowError rows lnDos expected (rows.first + offset) errors.atEnergy := by
  obtain ⟨value, known, hvalue, hknown, herror⟩ := frameErrors_atEnergy h
  rw [getElem?_entries hpart] at hvalue
  split at hvalue
  · next hlast =>
    refine ⟨Nat.le_add_right _ _, hlast, part, value, known, hpart, hvalue, ?_, herror⟩
    rwa [Nat.add_sub_cancel_left]
  · cases hvalue

/-! ## Scores -/

theorem rowsBetween_first {energies : List Float} {firstState lastState : Int} {rows : RowRange}
    (h : rowsBetween energies firstState lastState = .ok rows) :
    energyRow energies firstState = .ok rows.first := by
  obtain ⟨first, hfirst, h⟩ := bind_eq_ok_iff.mp h
  obtain ⟨last, -, h⟩ := bind_eq_ok_iff.mp h
  dsimp only at h
  split at h
  · cases h
  · cases h
    exact hfirst

namespace Reference

/-- A state whose difference to the state of maximum entropy is a number of 64 bits. -/
def Reaches (r : Reference) (state : Int) : Prop :=
  -Text.signedBound ≤ state - r.maxEntropyState ∧ state - r.maxEntropyState < Text.signedBound

theorem distance_eq {r : Reference} {state : Int} (h : r.Reaches state) :
    r.distance state = state - r.maxEntropyState := by
  have hbound : (Text.wordBound : Int) = 2 * Text.signedBound := by decide
  obtain ⟨hlower, hupper⟩ := h
  exact Int.bmod_eq_of_le (by omega) (by omega)

/-- The first state is next to the last one. -/
example : (⟨[], [], 2 ^ 63 - 1, 0⟩ : Reference).distance (-2 ^ 63) = 1 := by decide

/-- The row whose error is reported: one row further for each state. -/
def errorRow (r : Reference) (rows : RowRange) (energy : Int) : Nat :=
  rows.first + (r.distance energy).toNat

/-- A position that a table reaches is a distance between states. -/
theorem offset_of_lt {r : Reference} {energy : Int} {length : Nat}
    (hlength : length < Text.wordBound) (h : r.offset energy < length) :
    0 ≤ r.distance energy ∧ r.offset energy = (r.distance energy).toNat := by
  unfold offset at h ⊢
  split at h
  · next horder => exact ⟨horder, if_pos horder⟩
  · omega

end Reference

/-- Where a score of a frame was read: the round trips in `row`, and the errors as many rows behind
the state of maximum entropy as the energy lies behind that state. -/
structure TrackedAt (r : Reference) (expected : List Float) (energy : Int) (frame : Frame)
    (score : FrameScore) (rows : RowRange) (row : Nat) : Prop where
  important : r.importantRows frame.energies = .ok rows
  top : energyRow frame.energies r.maxEntropyState = .ok rows.first
  tracked : energyRow frame.energies energy = .ok row
  inOrder : 0 ≤ r.distance energy
  roundTrips : frame.roundTrips[row]? = some score.direct.roundTrips
  error : IsRowError rows frame.lnDos expected (r.errorRow rows energy) score.direct.errors.atEnergy
  second : ∀ entry, score.fromTransitions = some entry → ∃ lnDos,
    frame.fromTransitions = some lnDos ∧ entry.roundTrips = score.direct.roundTrips ∧
      IsRowError rows lnDos expected (r.errorRow rows energy) entry.errors.atEnergy

theorem exists_trackedAt {r : Reference} {expected : List Float} {energy : Int} {frame : Frame}
    {score : FrameScore} (hlength : frame.energies.length < Text.wordBound) (heven : frame.Even)
    (h : r.score expected energy frame = .ok score) :
    ∃ rows row, TrackedAt r expected energy frame score rows row := by
  unfold Reference.score at h
  obtain ⟨rows, hrows, h⟩ := bind_eq_ok_iff.mp h
  obtain ⟨trips, hrow, h⟩ := bind_eq_ok_iff.mp h
  obtain ⟨row, hrow, hread⟩ := bind_eq_ok_iff.mp hrow
  obtain ⟨part, hpart, h⟩ := bind_eq_ok_iff.mp h
  obtain ⟨errors, herrors, h⟩ := bind_eq_ok_iff.mp h
  have herror := isRowError_of_frameErrors hpart herrors
  obtain ⟨horder, hoffset⟩ : 0 ≤ r.distance energy ∧
      r.offset energy = (r.distance energy).toNat := by
    obtain ⟨-, -, -, value, -, -, hvalue, -⟩ := herror
    obtain ⟨hlt, -⟩ := List.getElem?_eq_some_iff.mp hvalue
    have hrows := heven.lnDos
    exact Reference.offset_of_lt hlength (by omega)
  rw [hoffset] at herror
  refine ⟨rows, row, ?_⟩
  cases hsecond : frame.fromTransitions with
  | none =>
    rw [hsecond] at h
    cases h
    refine ⟨hrows, rowsBetween_first hrows, hrow, horder, entryAt_eq_ok_iff.mp hread, herror, ?_⟩
    intro entry hentry
    cases hentry
  | some lnDos =>
    rw [hsecond] at h
    obtain ⟨others, hothers, h⟩ := bind_eq_ok_iff.mp h
    obtain ⟨second, herrors', h⟩ := bind_eq_ok_iff.mp h
    cases h
    refine ⟨hrows, rowsBetween_first hrows, hrow, horder, entryAt_eq_ok_iff.mp hread, herror, ?_⟩
    intro entry hentry
    cases hentry
    have hother := isRowError_of_frameErrors hothers herrors'
    rw [hoffset] at hother
    exact ⟨lnDos, hsecond, rfl, hother⟩

/-! ## When both rows are one -/

/-- The important rows hold one state after the other, and no energy is in two rows. -/
structure InSteps (energies : List Float) (rows : RowRange) (top : Int) : Prop where
  holds : ∀ k : Nat, rows.first + k ≤ rows.last → HoldsState energies (rows.first + k) (top + k)
  distinct : energies.Pairwise fun x y => (x == y) = false

theorem HoldsState.row_inj {energies : List Float} {state : Int} {i j : Nat}
    (hi : HoldsState energies i state)
    (hdistinct : energies.Pairwise fun x y => (x == y) = false)
    (hj : HoldsState energies j state) : i = j := by
  obtain ⟨x, hx, hxs⟩ := hi
  obtain ⟨y, hy, hys⟩ := hj
  obtain ⟨hi, rfl⟩ := List.getElem?_eq_some_iff.mp hx
  obtain ⟨hj, rfl⟩ := List.getElem?_eq_some_iff.mp hy
  have hpairs := List.pairwise_iff_getElem.mp hdistinct
  rcases Nat.lt_trichotomy i j with h | h | h
  · exact absurd (Double.beq_of_beq_of_beq hxs hys) (by simp [hpairs i j hi hj h])
  · exact h
  · exact absurd (Double.beq_of_beq_of_beq hys hxs) (by simp [hpairs j i hj hi h])

namespace TrackedAt

variable {r : Reference} {expected : List Float} {energy : Int} {frame : Frame}
  {score : FrameScore} {rows : RowRange} {row : Nat}

theorem row_eq_iff_first (h : TrackedAt r expected energy frame score rows row) :
    row = r.errorRow rows energy ↔
      HoldsState frame.energies (r.errorRow rows energy) energy ∧
        ∀ earlier < r.errorRow rows energy, ¬ HoldsState frame.energies earlier energy := by
  rw [← energyRow_eq_ok_iff, h.tracked]
  exact ⟨congrArg Except.ok, Except.ok.inj⟩

/-- Within 64 bits the distance is that of the states. -/
theorem errorRow_eq (h : TrackedAt r expected energy frame score rows row)
    (hreaches : r.Reaches energy) :
    r.maxEntropyState ≤ energy ∧
      (r.errorRow rows energy : Int) = rows.first + (energy - r.maxEntropyState) := by
  have horder := h.inOrder
  rw [Reference.distance_eq hreaches] at horder
  rw [Reference.errorRow, Reference.distance_eq hreaches]
  omega

theorem row_eq_of_inSteps (h : TrackedAt r expected energy frame score rows row)
    (hreaches : r.Reaches energy) (hsteps : InSteps frame.energies rows r.maxEntropyState) :
    row = r.errorRow rows energy := by
  obtain ⟨horder, -⟩ := h.errorRow_eq hreaches
  have hholds := hsteps.holds (r.distance energy).toNat h.error.2.1
  have hstate : r.maxEntropyState + ((r.distance energy).toNat : Int) = energy := by
    rw [Reference.distance_eq hreaches]
    omega
  rw [hstate] at hholds
  exact (energyRow_eq_ok_iff.mp h.tracked).1.row_inj hsteps.distinct hholds

end TrackedAt

/-! ## Comparisons -/

theorem exists_frames {a : ConvergenceReport} {dataRoot : Path} {files : Tree}
    {reference : Reference} {method : String} {history : MethodHistory}
    (h : a.compareMethod dataRoot files reference method = .ok (some history)) :
    ∃ frames expected scores, HoldsFrames files (a.movieDirectory dataRoot method) frames ∧
      reference.importantPart = .ok expected ∧
      frames.map (reference.score expected a.energy) = scores.map .ok ∧
      history = .ofScores method a.window scores := by
  unfold ConvergenceReport.compareMethod at h
  dsimp only at h
  split at h
  · cases h
  · next hdirectory =>
    obtain ⟨names, hnames, h⟩ := bind_eq_ok_iff.mp h
    split at h
    · cases h
    · obtain ⟨expected, hexpected, h⟩ := bind_eq_ok_iff.mp h
      obtain ⟨scores, hscores, h⟩ := bind_eq_ok_iff.mp h
      obtain ⟨frames, hframes, hscored⟩ := exists_of_mapM_bind hscores
      cases h
      exact ⟨frames, expected, scores, ⟨by simpa using hdirectory, names, hnames, hframes⟩,
        hexpected, hscored, rfl⟩

theorem HoldsFrames.exists_loaded {files : Tree} {directory : Path} {frames : List Frame}
    (h : HoldsFrames files directory frames) {frame : Frame} (hframe : frame ∈ frames) :
    ∃ path, ConvergenceReport.loadFrame files path = .ok frame := by
  obtain ⟨names, -, hloaded⟩ := h.loaded
  have hmem : Except.ok frame ∈ frames.map (Except.ok : Frame → Except Failure Frame) :=
    List.mem_map_of_mem hframe
  rw [← hloaded] at hmem
  obtain ⟨name, -, hname⟩ := List.mem_map.mp hmem
  exact ⟨directory.join name, hname⟩

theorem HoldsFrames.even {files : Tree} {directory : Path} {frames : List Frame}
    (h : HoldsFrames files directory frames) : ∀ frame ∈ frames, frame.Even := by
  intro frame hframe
  obtain ⟨path, hpath⟩ := h.exists_loaded hframe
  exact ConvergenceReport.loadFrame_eq_ok hpath

theorem HoldsFrames.unique {files : Tree} {directory : Path} {frames others : List Frame}
    (h : HoldsFrames files directory frames) (h' : HoldsFrames files directory others) :
    frames = others := by
  obtain ⟨names, hnames, hframes⟩ := h.loaded
  obtain ⟨names', hnames', hothers⟩ := h'.loaded
  obtain rfl : names = names' := Except.ok.inj (hnames.symm.trans hnames')
  exact List.map_injective_iff.mpr (fun _ _ => Except.ok.inj) (hframes.symm.trans hothers)

/-- Both columns that a history has for the tracked energy are those of the counted scores. -/
theorem tracked_ofScores (method : String) (window : Option Nat) (scores : List FrameScore) :
    (MethodHistory.ofScores method window scores).direct.roundTrips
        = (scores.take (MethodHistory.frameCount scores)).map (·.direct.roundTrips) ∧
      (MethodHistory.ofScores method window scores).direct.atEnergy
        = (scores.take (MethodHistory.frameCount scores)).map (·.direct.errors.atEnergy) := by
  rw [MethodHistory.ofScores_eq, ErrorHistory.roundTrips_counted, ErrorHistory.atEnergy_counted]
  simp [ErrorHistory.ofEntries, List.map_take, Function.comp_def]

/-- **Where a comparison reads its frames.** The round trips of a frame come from the row of the
tracked energy, and its error from the row that is as far behind the state of maximum entropy as the
energy is, in a difference of 64 bits. The two are one row exactly when that second row is the first
to hold the energy. Unless the difference overflows, the energy is not before the state of maximum
entropy, and both rows are one in every frame whose important rows hold one state after the
other. -/
theorem compareMethod_tracked (a : ConvergenceReport) (dataRoot : Path) (files : Tree)
    (reference : Reference) (method : String) (history : MethodHistory)
    (h : a.compareMethod dataRoot files reference method = .ok (some history)) :
    ∃ frames expected scores, HoldsFrames files (a.movieDirectory dataRoot method) frames ∧
      reference.importantPart = .ok expected ∧
      history.direct.roundTrips
        = (scores.take (MethodHistory.frameCount scores)).map (·.direct.roundTrips) ∧
      history.direct.atEnergy
        = (scores.take (MethodHistory.frameCount scores)).map (·.direct.errors.atEnergy) ∧
      List.Forall₂ (fun frame score =>
        reference.score expected a.energy frame = .ok score ∧
        (frame.energies.length < Text.wordBound → ∃ important row,
          TrackedAt reference expected a.energy frame score important row ∧
          (row = reference.errorRow important a.energy ↔
            HoldsState frame.energies (reference.errorRow important a.energy) a.energy ∧
              ∀ earlier < reference.errorRow important a.energy,
                ¬ HoldsState frame.energies earlier a.energy) ∧
          (reference.Reaches a.energy → reference.maxEntropyState ≤ a.energy ∧
            (reference.errorRow important a.energy : Int)
              = important.first + (a.energy - reference.maxEntropyState) ∧
            (InSteps frame.energies important reference.maxEntropyState →
              (row : Int) = important.first + (a.energy - reference.maxEntropyState) ∧
                IsRowError important frame.lnDos expected row score.direct.errors.atEnergy))))
        frames scores := by
  obtain ⟨frames, expected, scores, hframes, hexpected, hscores, rfl⟩ := exists_frames h
  obtain ⟨htrips, herrors⟩ := tracked_ofScores method a.window scores
  refine ⟨frames, expected, scores, hframes, hexpected, htrips, herrors, ?_⟩
  have hscored : List.Forall₂ (fun frame score =>
      reference.score expected a.energy frame = .ok score) frames scores := by
    rw [← List.forall₂_eq_eq_eq, List.forall₂_map_left_iff, List.forall₂_map_right_iff] at hscores
    exact hscores
  refine ((List.forall₂_and_left _ _).mpr ⟨hframes.even, hscored⟩).imp ?_
  rintro frame score ⟨heven, hscore⟩
  refine ⟨hscore, fun hlength => ?_⟩
  obtain ⟨important, row, hat⟩ := exists_trackedAt hlength heven hscore
  refine ⟨important, row, hat, hat.row_eq_iff_first, fun hreaches => ?_⟩
  obtain ⟨horder, herrorRow⟩ := hat.errorRow_eq hreaches
  refine ⟨horder, herrorRow, fun hsteps => ?_⟩
  rw [hat.row_eq_of_inSteps hreaches hsteps]
  exact ⟨herrorRow, hat.error⟩

theorem inSteps_firstFrame : InSteps firstFrame.energies ⟨0, 1⟩ 1 := by
  refine ⟨?_, by decide +kernel⟩
  intro k hk
  obtain rfl | rfl : k = 0 ∨ k = 1 := by
    dsimp only at hk
    omega
  · exact ⟨-1, rfl, by decide +kernel⟩
  · exact ⟨-2, rfl, by decide +kernel⟩

/-- A frame with one state in each row: the error is that of the second row, as the round trips. -/
theorem firstFrame_tracked :
    ∃ history score,
      restartedReport.compareMethod "data" (movieTree [firstFile]) restartedReference "tmmc"
        = .ok (some history) ∧
      restartedReference.score [1, 2] 2 firstFrame = .ok score ∧
      restartedReference.Reaches 2 ∧ energyRow firstFrame.energies 2 = .ok 1 ∧
      firstFrame.roundTrips[1]? = some score.direct.roundTrips ∧
      IsRowError ⟨0, 1⟩ firstFrame.lnDos [1, 2] 1 score.direct.errors.atEnergy := by
  have hexpected : restartedReference.importantPart = .ok [1, 2] := rfl
  obtain ⟨score, hscore⟩ : ∃ score, restartedReference.score [1, 2] 2 firstFrame = .ok score :=
    ⟨_, rfl⟩
  have hscores : [firstFrame].map (restartedReference.score [1, 2] 2) = [score].map .ok :=
    congrArg (fun result => [result]) hscore
  have hcompare : restartedReport.compareMethod "data" (movieTree [firstFile]) restartedReference
      "tmmc" = .ok (some (.ofScores "tmmc" none [score])) :=
    compareMethod_eq_ok holdsFrames_first (List.cons_ne_nil _ _) hexpected hscores
  obtain ⟨frames, expected, scores, hframes, hexpected', -, -, htracked⟩ :=
    compareMethod_tracked restartedReport "data" _ restartedReference "tmmc" _ hcompare
  obtain rfl : [1, 2] = expected := Except.ok.inj (hexpected.symm.trans hexpected')
  obtain rfl : [firstFrame] = frames := holdsFrames_first.unique hframes
  obtain ⟨score', _, ⟨hscore', hread⟩, -, rfl⟩ := List.forall₂_cons_left_iff.mp htracked
  obtain ⟨important, row, hat, -, hnear⟩ := hread (by decide)
  obtain rfl : ⟨0, 1⟩ = important := Except.ok.inj hat.important
  obtain rfl : 1 = row := Except.ok.inj hat.tracked
  have hreaches : restartedReference.Reaches 2 := by
    unfold Reference.Reaches
    decide
  obtain ⟨-, -, hsteps⟩ := hnear hreaches
  exact ⟨_, score', hcompare, hscore', hreaches, hat.tracked, hat.roundTrips,
    (hsteps inSteps_firstFrame).2⟩

/-! ## A table with gaps

Every second state is missing, from the reference as from the frame. -/

def spacedFile : String × String :=
  ("000001-lndos.dat", "# iterations: 100\n-1 0 11\n-3 3 13\n-5 3 15\n")

def spacedFrame : Frame :=
  ⟨100, [-1, -3, -5], [0, 3, 3], [11, 13, 15], none⟩

def spacedReference : Reference :=
  ⟨[-1, -3, -5], [0, 1, 2], 1, 5⟩

def spacedReport : ConvergenceReport :=
  { energy := 3, reference := "ref.dat", fileBase := "s000" }

theorem holdsFrames_spaced :
    HoldsFrames (movieTree [spacedFile]) "data/s000-tmmc-movie" [spacedFrame] where
  isDirectory := by decide
  loaded := ⟨["000001-lndos.dat"], matchingNames_eq rfl (by decide +kernel) (by decide), rfl⟩

theorem compareMethod_spaced :
    ∃ history, spacedReport.compareMethod "data" (movieTree [spacedFile]) spacedReference "tmmc"
        = .ok (some history) ∧
      history.direct.roundTrips = [13] ∧ history.direct.atEnergy = [0] := by
  obtain ⟨score, hscore, htrips, herror⟩ : ∃ score,
      spacedReference.score [0, 1, 2] 3 spacedFrame = .ok score ∧
        score.direct.roundTrips = 13 ∧ score.direct.errors.atEnergy = 0 :=
    ⟨_, rfl, by decide +kernel, by decide +kernel⟩
  have hscores : [spacedFrame].map (spacedReference.score [0, 1, 2] 3) = [score].map .ok :=
    congrArg (fun result => [result]) hscore
  refine ⟨_, compareMethod_eq_ok holdsFrames_spaced (List.cons_ne_nil _ _) rfl hscores, ?_⟩
  obtain ⟨htrips', herror'⟩ := tracked_ofScores "tmmc" spacedReport.window [score]
  rw [htrips', herror']
  simp [MethodHistory.frameCount, monotoneCount, htrips, herror]

/-- The tracked energy is in the second row. The round trips are read there, but the error is that
of the third row: it is reported as zero, and that of the second row is one. -/
theorem spacedFrame_rows_differ :
    HoldsFrames (movieTree [spacedFile]) "data/s000-tmmc-movie" [spacedFrame] ∧
      (∃ history,
        spacedReport.compareMethod "data" (movieTree [spacedFile]) spacedReference "tmmc"
          = .ok (some history) ∧
        history.direct.roundTrips = [13] ∧ history.direct.atEnergy = [0]) ∧
      energyRow spacedFrame.energies 1 = .ok 0 ∧ energyRow spacedFrame.energies 3 = .ok 1 ∧
      (1 : Int) ≠ 0 + (3 - 1) ∧ IsRowError ⟨0, 2⟩ spacedFrame.lnDos [0, 1, 2] 1 1 := by
  refine ⟨holdsFrames_spaced, compareMethod_spaced, rfl, rfl, by decide, by decide, by decide, ?_⟩
  exact ⟨[0, 3, 3], 3, 1, rfl, rfl, rfl, by decide +kernel⟩

end FluidAnalysis.SquareWell
