import FluidAnalysis.Proofs.SquareWell.Histories
import FluidAnalysis.SquareWell.ConvergenceReport

/-!
# Frames that do not count

Frames count up to the first one with fewer iterations than the one before; the later ones are
dropped. A method is compared twice here: once with all its frames, and once with the frames that
count alone.

The direct history is the same in both runs. The history from transitions is not: it is there only if
every frame has the second estimate, so a dropped frame without it takes the history away. The main
statement gives the exact condition under which the dropped frames have no influence.

* `HoldsFrames` — which frames a directory holds
* `compareMethod_eq_ok` — a comparison depends on the frames only
* `ofScores_take_direct`, `ofScores_take_fromTransitions` — what is left of a comparison when the
  dropped frames are not there

Main statement: `compareMethod_counted_iff`.
-/

namespace FluidAnalysis.SquareWell

open Files Report

/-! ## Counting -/

section

variable {α : Type} [Scalar α]

theorem monotoneCount_pos : ∀ {xs : List α}, xs ≠ [] → 0 < monotoneCount xs
  | [], h => absurd rfl h
  | [_], _ => Nat.one_pos
  | x :: y :: rest, _ => by
    rw [monotoneCount]
    split
    · exact Nat.one_pos
    · exact Nat.succ_pos _

/-- The first frame counts. -/
theorem exists_take_monotoneCount (x : α) (rest : List α) :
    ∃ counted, (x :: rest).take (monotoneCount (x :: rest)) = x :: counted := by
  obtain ⟨n, hn⟩ := Nat.exists_eq_succ_of_ne_zero
    (Nat.ne_of_gt (monotoneCount_pos (List.cons_ne_nil x rest)))
  exact ⟨rest.take n, by rw [hn, List.take_succ_cons]⟩

/-- The frames that count all count when they are alone. -/
theorem monotoneCount_take : ∀ xs : List α,
    monotoneCount (xs.take (monotoneCount xs)) = monotoneCount xs
  | [] => rfl
  | [_] => rfl
  | x :: y :: rest => by
    rw [monotoneCount]
    split
    · rfl
    · next h =>
      have ih := monotoneCount_take (y :: rest)
      obtain ⟨counted, hcounted⟩ := exists_take_monotoneCount y rest
      rw [hcounted] at ih
      rw [List.take_succ_cons, hcounted, monotoneCount, if_neg h, ih]

end

/-! ## Histories -/

attribute [ext] MethodHistory

namespace MethodHistory

variable (method : String) (window : Option Nat) (scores : List FrameScore)

theorem frameCount_take : frameCount (scores.take (frameCount scores)) = frameCount scores := by
  rw [frameCount, List.map_take]
  exact monotoneCount_take _

/-- **The direct history is that of the frames that count.** -/
theorem ofScores_take_direct :
    (ofScores method window (scores.take (frameCount scores))).direct
      = (ofScores method window scores).direct := by
  rw [ofScores_eq, ofScores_eq, frameCount_take]
  simp only
  rw [List.map_take, ← ErrorHistory.truncate_ofEntries, ErrorHistory.truncate_counted]

theorem isSome_ofScores_fromTransitions :
    (ofScores method window scores).fromTransitions.isSome
      ↔ ∀ score ∈ scores, score.fromTransitions.isSome := by
  rw [ofScores_eq, Option.isSome_map, isSome_mapM_iff]

/-- **A second history of all frames is that of the frames that count.** -/
theorem ofScores_take_fromTransitions
    (h : (ofScores method window scores).fromTransitions.isSome) :
    (ofScores method window (scores.take (frameCount scores))).fromTransitions
      = (ofScores method window scores).fromTransitions := by
  rw [ofScores_eq, Option.isSome_map] at h
  obtain ⟨history, hhistory⟩ := Option.isSome_iff_exists.mp h
  rw [ofScores_eq, ofScores_eq, frameCount_take]
  simp only
  rw [hhistory, mapM_take_eq_some _ hhistory, Option.map_some, Option.map_some,
    ← ErrorHistory.truncate_ofEntries, ErrorHistory.truncate_counted]

/-- **Dropped frames have no influence if they do not take the second history away.** -/
theorem ofScores_take_eq_iff :
    ofScores method window (scores.take (frameCount scores)) = ofScores method window scores ↔
      ((ofScores method window (scores.take (frameCount scores))).fromTransitions.isSome →
        (ofScores method window scores).fromTransitions.isSome) := by
  constructor
  · intro heq hsome
    rwa [← heq]
  · intro h
    have hsecond : (ofScores method window (scores.take (frameCount scores))).fromTransitions
        = (ofScores method window scores).fromTransitions := by
      by_cases hfull : (ofScores method window scores).fromTransitions.isSome
      · exact ofScores_take_fromTransitions method window scores hfull
      · rw [Option.not_isSome_iff_eq_none.mp hfull, Option.not_isSome_iff_eq_none.mp (mt h hfull)]
    exact MethodHistory.ext rfl (ofScores_take_direct method window scores) hsecond

theorem iterations_ofScores_direct :
    (ofScores method window scores).direct.iterations
      = (scores.map (·.direct.iterations)).take (frameCount scores) := by
  rw [ofScores_eq, ErrorHistory.iterations_counted, ErrorHistory.ofEntries, List.map_map]
  rfl

end MethodHistory

/-! ## Frames -/

/-- What a score says of its frame: how long the run had lasted, and whether there is a second
estimate. -/
theorem score_eq_ok {r : Reference} {reference : List Float} {energy : Int} {frame : Frame}
    {score : FrameScore} (h : r.score reference energy frame = .ok score) :
    score.direct.iterations = frame.iterations ∧
      score.fromTransitions.isSome = frame.fromTransitions.isSome := by
  unfold Reference.score at h
  obtain ⟨rows, -, h⟩ := bind_eq_ok_iff.mp h
  obtain ⟨trips, -, h⟩ := bind_eq_ok_iff.mp h
  obtain ⟨important, -, h⟩ := bind_eq_ok_iff.mp h
  obtain ⟨errors, -, h⟩ := bind_eq_ok_iff.mp h
  cases hsecond : frame.fromTransitions with
  | none =>
    rw [hsecond] at h
    cases h
    exact ⟨rfl, rfl⟩
  | some lnDos =>
    rw [hsecond] at h
    obtain ⟨important, -, h⟩ := bind_eq_ok_iff.mp h
    obtain ⟨second, -, h⟩ := bind_eq_ok_iff.mp h
    cases h
    exact ⟨rfl, rfl⟩

section

variable {r : Reference} {reference : List Float} {energy : Int} {frames : List Frame}
  {scores : List FrameScore}

theorem iterations_scores (h : frames.map (r.score reference energy) = scores.map .ok) :
    scores.map (·.direct.iterations) = frames.map (·.iterations) :=
  map_eq_of_map_ok (fun _ _ hs => (score_eq_ok hs).1) h

theorem forall_isSome_scores_iff (h : frames.map (r.score reference energy) = scores.map .ok) :
    (∀ score ∈ scores, score.fromTransitions.isSome) ↔
      ∀ frame ∈ frames, frame.fromTransitions.isSome := by
  have hmap : scores.map (·.fromTransitions.isSome) = frames.map (·.fromTransitions.isSome) :=
    map_eq_of_map_ok (fun _ _ hs => (score_eq_ok hs).2) h
  calc (∀ score ∈ scores, score.fromTransitions.isSome)
      ↔ ∀ b ∈ scores.map (·.fromTransitions.isSome), b = true := by rw [List.forall_mem_map]
    _ ↔ ∀ b ∈ frames.map (·.fromTransitions.isSome), b = true := by rw [hmap]
    _ ↔ ∀ frame ∈ frames, frame.fromTransitions.isSome := by rw [List.forall_mem_map]

end

/-! ## File trees -/

/-- A directory that holds frames, in the order of their names. -/
structure HoldsFrames (files : Tree) (directory : Path) (frames : List Frame) : Prop where
  isDirectory : files.isDirectory directory
  loaded : ∃ names, matchingNames files directory "*lndos.dat" = .ok names ∧
    names.map (fun name => ConvergenceReport.loadFrame files (directory.join name))
      = frames.map .ok

/-- **A comparison depends on the frames only.** -/
theorem compareMethod_eq_ok {a : ConvergenceReport} {dataRoot : Path} {files : Tree}
    {reference : Reference} {method : String} {expected : List Float} {frames : List Frame}
    {scores : List FrameScore}
    (hfiles : HoldsFrames files (a.movieDirectory dataRoot method) frames) (hne : frames ≠ [])
    (hexpected : reference.importantPart = .ok expected)
    (hscores : frames.map (reference.score expected a.energy) = scores.map .ok) :
    a.compareMethod dataRoot files reference method
      = .ok (some (.ofScores method a.window scores)) := by
  obtain ⟨names, hnames, hload⟩ := hfiles.loaded
  have hnames' : ¬ names.isEmpty := by
    intro h
    rw [List.isEmpty_iff.mp h] at hload
    exact hne (List.map_eq_nil_iff.mp hload.symm)
  unfold ConvergenceReport.compareMethod
  simp only [hfiles.isDirectory]
  rw [if_neg (by decide)]
  refine bind_eq_ok_iff.mpr ⟨names, hnames, ?_⟩
  rw [if_neg hnames']
  refine bind_eq_ok_iff.mpr ⟨expected, hexpected, ?_⟩
  exact bind_eq_ok_iff.mpr ⟨scores, mapM_bind_eq_ok hload hscores, rfl⟩

/-- **What frames that do not count do to a comparison.** The direct history is that of the frames
that count, whether the others are there or not. The second history is there if every frame has a
second estimate, also those that do not count; so the comparison is that of the counted frames alone
exactly when no dropped frame is the first to lack it. -/
theorem compareMethod_counted_iff (a : ConvergenceReport) (dataRoot : Path) (files kept : Tree)
    (reference : Reference) (method : String) (expected : List Float) (frames : List Frame)
    (count : Nat)
    (hne : frames ≠ []) (hcount : count = monotoneCount (frames.map (·.iterations)))
    (hfiles : HoldsFrames files (a.movieDirectory dataRoot method) frames)
    (hkept : HoldsFrames kept (a.movieDirectory dataRoot method) (frames.take count))
    (hexpected : reference.importantPart = .ok expected)
    (hscored : ∀ frame ∈ frames, ∃ score,
      reference.score expected a.energy frame = .ok score) :
    ∃ full cut,
      a.compareMethod dataRoot files reference method = .ok (some full) ∧
      a.compareMethod dataRoot kept reference method = .ok (some cut) ∧
      full.direct.iterations = (frames.take count).map (·.iterations) ∧
      cut.direct = full.direct ∧
      (full.fromTransitions.isSome ↔ ∀ frame ∈ frames, frame.fromTransitions.isSome) ∧
      (cut.fromTransitions.isSome ↔
        ∀ frame ∈ frames.take count, frame.fromTransitions.isSome) ∧
      (cut = full ↔
        ((∀ frame ∈ frames.take count, frame.fromTransitions.isSome) →
          ∀ frame ∈ frames.drop count, frame.fromTransitions.isSome)) := by
  obtain ⟨scores, hscores⟩ := exists_map_eq_map_ok hscored
  have hframes : MethodHistory.frameCount scores = count := by
    rw [MethodHistory.frameCount, iterations_scores hscores, hcount]
  have htake : (frames.take count).map (reference.score expected a.energy)
      = (scores.take count).map .ok := by
    rw [List.map_take, hscores, List.map_take]
  have hpos : frames.take count ≠ [] := by
    rw [ne_eq, List.take_eq_nil_iff, not_or]
    refine ⟨?_, hne⟩
    rw [hcount]
    exact Nat.ne_of_gt (monotoneCount_pos (mt List.map_eq_nil_iff.mp hne))
  have hfull := MethodHistory.isSome_ofScores_fromTransitions method a.window scores
  have hcut := MethodHistory.isSome_ofScores_fromTransitions method a.window (scores.take count)
  rw [forall_isSome_scores_iff hscores] at hfull
  rw [forall_isSome_scores_iff htake] at hcut
  -- the two runs are the histories of all scores and of the first `count` scores
  refine ⟨_, _, compareMethod_eq_ok hfiles hne hexpected hscores,
    compareMethod_eq_ok hkept hpos hexpected htake, ?_, ?_, hfull, hcut, ?_⟩
  · rw [MethodHistory.iterations_ofScores_direct, hframes, iterations_scores hscores, List.map_take]
  · rw [← hframes]
    exact MethodHistory.ofScores_take_direct method a.window scores
  · have heq := MethodHistory.ofScores_take_eq_iff method a.window scores
    rw [hframes, hfull, hcut] at heq
    rw [heq]
    constructor
    · intro h hkeep frame hframe
      exact h hkeep frame (List.mem_of_mem_drop hframe)
    · intro h hkeep frame hframe
      rw [← List.take_append_drop count frames] at hframe
      rcases List.mem_append.mp hframe with hframe | hframe
      · exact hkeep frame hframe
      · exact h hkeep frame hframe

/-! ## A run that was started again

Its second frame has fewer iterations than the first and lacks the second estimate. -/

/-- A data directory with the frames of one method. -/
def movieTree (frames : List (String × String)) : Tree :=
  ⟨(["data"], .directory) :: (["data", "s000-tmmc-movie"], .directory) ::
    frames.map fun (name, text) => (["data", "s000-tmmc-movie", name], .file text.toUTF8)⟩

def firstFile : String × String :=
  ("000001-lndos.dat", "# iterations: 100\n-1 1 11 1\n-2 2 12 2\n")

def restartedFile : String × String :=
  ("000002-lndos.dat", "# iterations: 50\n-1 1 11\n-2 2 12\n")

def firstFrame : Frame :=
  ⟨100, [-1, -2], [1, 2], [11, 12], some [1, 2]⟩

def restartedFrame : Frame :=
  ⟨50, [-1, -2], [1, 2], [11, 12], none⟩

/-- Any text and then the ending of a frame's name. -/
def framePattern : Pattern :=
  ⟨[.rest :: "lndos.dat".toList.flatMap Pattern.literal]⟩

theorem read_framePattern : Pattern.read "*lndos.dat" = .ok framePattern := by
  have hread : (Pattern.read "*lndos.dat").toOption.map (·.readings)
      = some framePattern.readings := by decide +kernel
  cases h : Pattern.read "*lndos.dat" with
  | error fault =>
    rw [h] at hread
    cases hread
  | ok pattern =>
    rw [h] at hread
    exact congrArg (fun readings => Except.ok (Pattern.mk readings)) (Option.some.inj hread)

/-- Names of frames in their order are listed as they are. -/
theorem matchingNames_eq {files : Tree} {directory : Path} {names : List String}
    (hnames : files.names directory = .ok names) (hmatch : names.all framePattern.isMatch)
    (hsorted : names.Pairwise (· ≤ ·)) :
    matchingNames files directory "*lndos.dat" = .ok names := by
  rw [matchingNames, read_framePattern]
  simp only [hnames]
  rw [List.filter_eq_self.mpr (List.all_eq_true.mp hmatch), List.mergeSort_of_pairwise]
  simpa using hsorted

theorem holdsFrames_restarted :
    HoldsFrames (movieTree [firstFile, restartedFile]) "data/s000-tmmc-movie"
      [firstFrame, restartedFrame] where
  isDirectory := by decide
  loaded := ⟨["000001-lndos.dat", "000002-lndos.dat"],
    matchingNames_eq rfl (by decide +kernel) (by decide), rfl⟩

theorem holdsFrames_first :
    HoldsFrames (movieTree [firstFile]) "data/s000-tmmc-movie" [firstFrame] where
  isDirectory := by decide
  loaded := ⟨["000001-lndos.dat"], matchingNames_eq rfl (by decide +kernel) (by decide), rfl⟩

/-- A report on the frames above, against a reference that agrees with them. -/
def restartedReport : ConvergenceReport :=
  { energy := 2, reference := "ref.dat", fileBase := "s000" }

def restartedReference : Reference :=
  ⟨[-1, -2], [1, 2], 1, 2⟩

/-- The restarted frame does not count, and yet it takes the second history away. -/
theorem restarted_frame_removes_second_history :
    HoldsFrames (movieTree [firstFile, restartedFile]) "data/s000-tmmc-movie"
      [firstFrame, restartedFrame] ∧
    HoldsFrames (movieTree [firstFile]) "data/s000-tmmc-movie" [firstFrame] ∧
    ∃ full cut,
      restartedReport.compareMethod "data" (movieTree [firstFile, restartedFile])
        restartedReference "tmmc" = .ok (some full) ∧
      restartedReport.compareMethod "data" (movieTree [firstFile])
        restartedReference "tmmc" = .ok (some cut) ∧
      full.direct.iterations = [100] ∧ cut.direct = full.direct ∧
      ¬ full.fromTransitions.isSome ∧ cut.fromTransitions.isSome ∧ cut ≠ full := by
  have hscored : ∀ frame ∈ [firstFrame, restartedFrame], ∃ score,
      restartedReference.score [1, 2] 2 frame = .ok score := by
    intro frame hframe
    rw [List.mem_cons, List.mem_singleton] at hframe
    rcases hframe with rfl | rfl
    · exact ⟨_, rfl⟩
    · exact ⟨_, rfl⟩
  obtain ⟨full, cut, hfull, hcut, hcount, hdirect, hall, hkept, heq⟩ :=
    compareMethod_counted_iff restartedReport "data" (movieTree [firstFile, restartedFile])
      (movieTree [firstFile]) restartedReference "tmmc" [1, 2] [firstFrame, restartedFrame] 1
      (List.cons_ne_nil _ _) (by decide) holdsFrames_restarted holdsFrames_first rfl hscored
  refine ⟨holdsFrames_restarted, holdsFrames_first, full, cut, hfull, hcut, hcount, hdirect, ?_⟩
  rw [hall, hkept, ne_eq, heq]
  exact ⟨by decide, by decide, by decide⟩

end FluidAnalysis.SquareWell
