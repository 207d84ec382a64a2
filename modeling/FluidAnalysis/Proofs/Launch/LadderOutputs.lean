import Mathlib
import FluidAnalysis.Proofs.Decimal.Numeral
import FluidAnalysis.Proofs.Files.Names
import FluidAnalysis.Proofs.Launch.LadderPlan

/-!
# Files of a ladder's jobs

The jobs of a plan run side by side, so no two of them should write the same file. The directory of
a size and the names of a step's files are numbers filled up with zeros. They can be told apart at
any number of digits, so jobs meet in a file only if a size is planned twice.

* `AbsoluteLadder.pieces_log` — the last names of a log are those of its size and its step
* `AbsoluteLadder.planned` — the size and the step of every job
* `AbsoluteLadder.nodup_logs_iff` — when all jobs have files of their own
-/

namespace FluidAnalysis

/-! ## Padded numbers -/

namespace Decimal

theorem allDigits_paddedNat (width n : Nat) : AllDigits (paddedNat width n).toList := by
  rw [paddedNat, String.toList_ofList]
  exact (allDigits_zeros _).append (allDigits_digits n)

theorem digitsValue_paddedNat (width n : Nat) : digitsValue (paddedNat width n).toList = n := by
  rw [paddedNat, String.toList_ofList, digitsValue_zeros_append, digitsValue_digits]

/-- Padding can be undone, also where a number is wider than its field. -/
theorem paddedNat_injective (width : Nat) : Function.Injective (paddedNat width) := by
  intro n m h
  rw [← digitsValue_paddedNat width n, h, digitsValue_paddedNat]

theorem le_length_paddedNat (width n : Nat) : width ≤ (paddedNat width n).length := by
  simp [paddedNat]
  omega

theorem slash_not_mem_paddedNat (width n : Nat) : '/' ∉ (paddedNat width n).toList :=
  (allDigits_paddedNat width n).not_mem rfl

end Decimal

/-! ## Names of sizes and steps -/

namespace Launch.AbsoluteLadder

open Files

variable (a : AbsoluteLadder) (root : Path)

/-- The directory that holds those of all sizes, below the root. -/
def systemDirectory : Path :=
  let fluid := s!"ww{Decimal.fixedWidth .blank 4 2 a.wellWidth}"
  let box := s!"L{Decimal.fixedWidth .zero 4 2 a.boxLength}"
  s!"scrunched-{fluid}-{box}/i{a.recursion}"

/-- The name of the directory of a size. -/
def sizeName (particles : Nat) : String :=
  "N" ++ Decimal.paddedNat 3 particles

/-- The name of the log of a step. -/
def logName (step : Nat) : String :=
  fileName step ++ ".out"

theorem sizeName_injective : Function.Injective sizeName := by
  intro n m h
  unfold sizeName at h
  exact Decimal.paddedNat_injective 3 (by simpa using h)

theorem fileName_injective : Function.Injective fileName :=
  Decimal.paddedNat_injective 5

theorem logName_injective : Function.Injective logName := by
  intro s t h
  unfold logName at h
  exact fileName_injective (by simpa using h)

theorem slash_not_mem_sizeName (particles : Nat) : '/' ∉ (sizeName particles).toList := by
  simpa [sizeName] using Decimal.slash_not_mem_paddedNat 3 particles

theorem slash_not_mem_logName (step : Nat) : '/' ∉ (logName step).toList := by
  simpa [logName, fileName] using Decimal.slash_not_mem_paddedNat 5 step

theorem directory_eq (particles : Nat) :
    a.directory particles
      = a.systemDirectory ++ ("/" ++ sizeName particles ++ "/" ++ "absolute") := by
  have htext : a.directory particles
      = a.systemDirectory ++ "/N" ++ Decimal.paddedNat 3 particles ++ "/absolute" := rfl
  rw [htext, sizeName]
  apply String.toList_inj.mp
  simp

theorem systemDirectory_ne : a.systemDirectory ≠ "" := by
  obtain ⟨x, y, h⟩ : ∃ x y, a.systemDirectory = x ++ "/i" ++ y := ⟨_, _, rfl⟩
  rw [h]
  simp

theorem join_directory (particles : Nat) :
    root.join (a.directory particles)
      = root.join a.systemDirectory ++ "/" ++ sizeName particles ++ "/" ++ "absolute" := by
  rw [directory_eq, Path.join_append root a.systemDirectory_ne]
  simp only [String.append_assoc]

theorem pieces_directory (particles : Nat) :
    (root.join (a.directory particles)).pieces
      = (root.join a.systemDirectory).pieces ++ [sizeName particles, "absolute"] := by
  rw [join_directory, Path.pieces_append, Path.pieces_append,
    Path.pieces_of_not_mem (slash_not_mem_sizeName particles),
    Path.pieces_of_not_mem (p := "absolute") (by decide)]
  simp

theorem log_rungJob (directory : Path) (particles : Nat) (rung : Rung Float) :
    (a.rungJob directory particles rung).log = directory.join (logName rung.step) := by
  simp only [rungJob]
  rfl

variable (ladder : List Float)

theorem log_stepJob (particles step : Nat) :
    (a.stepJob root ladder particles step).log
      = (root.join (a.directory particles)).join (logName step) :=
  a.log_rungJob _ _ _

/-- **A log is named after its size and its step.** -/
theorem pieces_log (particles step : Nat) :
    (a.stepJob root ladder particles step).log.pieces
      = (root.join a.systemDirectory).pieces ++ [sizeName particles, "absolute", logName step] := by
  have hlast : (root.join (a.directory particles)).toList.getLast? = some 'e' := by
    rw [join_directory, String.toList_append, List.getLast?_append_of_ne_nil _ (by simp)]
    simp
  have hname := Path.isAbsolute_of_not_mem (slash_not_mem_logName step)
  rw [log_stepJob, Path.join_of_slashless hlast (by decide) hname, Path.pieces_append,
    pieces_directory, Path.pieces_of_not_mem (slash_not_mem_logName step)]
  simp

theorem log_injective :
    Function.Injective fun key : Nat × Nat => (a.stepJob root ladder key.1 key.2).log := by
  rintro ⟨n, s⟩ ⟨m, t⟩ h
  have hpieces := congrArg Path.pieces h
  simp only [pieces_log, List.append_cancel_left_eq, List.cons.injEq] at hpieces
  obtain ⟨hsize, -, hstep, -⟩ := hpieces
  rw [sizeName_injective hsize, logName_injective hstep]

theorem output_stepJob (particles step : Nat) :
    (a.stepJob root ladder particles step).output
      = (some (root.join (a.directory particles)), some (fileName step)) :=
  a.output_rungJob _ _ _

theorem output_injective :
    Function.Injective fun key : Nat × Nat => (a.stepJob root ladder key.1 key.2).output := by
  rintro ⟨n, s⟩ ⟨m, t⟩ h
  simp only [output_stepJob, Prod.mk.injEq, Option.some.injEq] at h
  obtain ⟨hdirectory, hfile⟩ := h
  have hpieces := congrArg Path.pieces hdirectory
  simp only [pieces_directory, List.append_cancel_left_eq, List.cons.injEq] at hpieces
  rw [sizeName_injective hpieces.1, fileName_injective hfile]

theorem isPlainName_of_mem {particles step : Nat} :
    ∀ name ∈ [sizeName particles, "absolute", logName step], IsPlainName name := by
  intro name hname
  apply isPlainName_of_lt_length
  simp only [List.mem_cons, List.not_mem_nil, or_false] at hname
  rcases hname with rfl | rfl | rfl
  · have := Decimal.le_length_paddedNat 3 particles
    simp [sizeName]
    omega
  · decide
  · have : ".out".length = 4 := by decide
    simp [logName]
    omega

/-- Two logs that lead to one place are those of one size and one step. -/
theorem locate_log_inj {t : Tree} {q : Place} {n m s u : Nat}
    (hone : t.locate (a.stepJob root ladder n s).log = .ok q)
    (hother : t.locate (a.stepJob root ladder m u).log = .ok q) : (n, s) = (m, u) := by
  obtain ⟨first, hfirst⟩ := Tree.exists_locate_plain (a.pieces_log root ladder n s)
    isPlainName_of_mem hone
  obtain ⟨second, hsecond⟩ := Tree.exists_locate_plain (a.pieces_log root ladder m u)
    isPlainName_of_mem hother
  have hnames := List.append_inj_right' (hfirst.symm.trans hsecond) (by simp)
  simp only [List.cons.injEq] at hnames
  rw [sizeName_injective hnames.1, logName_injective hnames.2.2.1]

/-! ## Jobs of a plan -/

variable (isDone : Path → Bool)

/-- The steps of a size that are planned. -/
def plannedSteps (particles : Nat) : List Nat :=
  (planSteps ladderFractions (a.goal particles)).filter fun step =>
    a.overwrite || !isDone (a.stepJob root ladderFractions particles step).result

/-- The size and the step of every job of a plan. -/
def planned : List (Nat × Nat) :=
  a.sizes.flatMap fun particles => (a.plannedSteps root isDone particles).map (particles, ·)

theorem jobs_eq :
    a.jobs isDone root
      = (a.planned root isDone).map fun key => a.stepJob root ladderFractions key.1 key.2 := by
  unfold jobs planned
  rw [List.map_flatMap]
  congr 1
  funext particles
  rw [sizeJobs_eq, List.map_map]
  rfl

/-- The sizes that have jobs. -/
def busySizes : List Nat :=
  a.sizes.filter fun particles => !(a.sizeJobs isDone root ladderFractions particles).isEmpty

theorem isEmpty_sizeJobs (particles : Nat) :
    (a.sizeJobs isDone root ladderFractions particles).isEmpty
      = (a.plannedSteps root isDone particles).isEmpty := by
  rw [sizeJobs_eq, List.isEmpty_map]
  rfl

theorem nodup_plannedSteps (particles : Nat) : (a.plannedSteps root isDone particles).Nodup := by
  unfold plannedSteps
  refine List.Nodup.filter _ ?_
  unfold planSteps
  split
  · exact List.nodup_nil
  · exact List.nodup_range

/-- A step of a size is planned once for each time that the size is. -/
theorem nodup_planned_iff : (a.planned root isDone).Nodup ↔ (a.busySizes root isDone).Nodup := by
  unfold planned busySizes
  rw [List.nodup_flatMap]
  refine Iff.trans ?_ List.pairwise_filter.symm
  constructor
  · rintro ⟨-, hdisjoint⟩
    refine hdisjoint.imp ?_
    rintro n m hnm hn - rfl
    -- a size that comes twice has its first step in both places
    simp only [isEmpty_sizeJobs, Bool.not_eq_eq_eq_not, Bool.not_true] at hn
    obtain ⟨step, hstep⟩ := List.exists_mem_of_ne_nil _ (List.isEmpty_eq_false_iff.mp hn)
    exact hnm (List.mem_map_of_mem hstep) (List.mem_map_of_mem hstep)
  · intro hsizes
    refine ⟨fun n _ => ?_, hsizes.imp ?_⟩
    · exact (a.nodup_plannedSteps root isDone n).map fun s t h => (Prod.mk.inj h).2
    · intro n m hnm key hkey hkey'
      obtain ⟨s, hs, rfl⟩ := List.mem_map.mp hkey
      obtain ⟨t, ht, heq⟩ := List.mem_map.mp hkey'
      have hbusy {k step : Nat} (h : step ∈ a.plannedSteps root isDone k) :
          (!(a.sizeJobs isDone root ladderFractions k).isEmpty) = true := by
        rw [isEmpty_sizeJobs]
        simpa using List.ne_nil_of_mem h
      exact hnm (hbusy hs) (hbusy ht) (Prod.mk.inj heq).1.symm

/-- **When all jobs of a plan have files of their own.** The logs are distinct if and only if no
size with jobs is planned twice, and the same holds for the files that the jobs are told to write.
Distinct logs are distinct files in every file tree. -/
theorem nodup_logs_iff (a : AbsoluteLadder) (isDone : Path → Bool) (root : Path) :
    (((a.jobs isDone root).map (·.log)).Nodup ↔ (a.busySizes root isDone).Nodup) ∧
      (((a.jobs isDone root).map (·.output)).Nodup ↔ (a.busySizes root isDone).Nodup) ∧
      ((a.busySizes root isDone).Nodup → ∀ files : Tree,
        (a.jobs isDone root).Pairwise fun one other =>
          ∀ place, files.locate one.log = .ok place → files.locate other.log ≠ .ok place) := by
  rw [jobs_eq, ← nodup_planned_iff, List.map_map, List.map_map]
  refine ⟨?_, ?_, ?_⟩
  · exact List.nodup_map_iff (a.log_injective root ladderFractions)
  · exact List.nodup_map_iff (a.output_injective root ladderFractions)
  · intro hplanned files
    refine List.pairwise_map.mpr (hplanned.imp ?_)
    intro one other hne place hone hother
    exact hne (a.locate_log_inj root ladderFractions hone hother)

/-! ## A size that is given twice -/

def twiceSix : AbsoluteLadder :=
  { recursion := 0, wellWidth := 1.3, boxLength := 5, sizes := [6, 6], program := "fe" }

theorem busySizes_twiceSix : twiceSix.busySizes "data" (fun _ => false) = [6, 6] := by
  have hfirst : 0 ∈ twiceSix.plannedSteps "data" (fun _ => false) 6 := by
    refine List.mem_filter.mpr ⟨mem_planSteps.mpr ⟨?_, Nat.zero_le _⟩, rfl⟩
    decide +kernel
  refine List.filter_eq_self.mpr ?_
  intro particles hparticles
  obtain rfl : particles = 6 := by simpa [twiceSix] using hparticles
  rw [isEmpty_sizeJobs]
  simpa using List.ne_nil_of_mem hfirst

/-- Six spheres are given twice. Their jobs are planned twice, and both write the same files. -/
theorem twiceSix_shares_files :
    ¬ ((twiceSix.jobs (fun _ => false) "data").map (·.log)).Nodup ∧
      ¬ ((twiceSix.jobs (fun _ => false) "data").map (·.output)).Nodup := by
  obtain ⟨hlogs, houtputs, -⟩ := nodup_logs_iff twiceSix (fun _ => false) "data"
  rw [hlogs, houtputs, busySizes_twiceSix]
  decide

end Launch.AbsoluteLadder

end FluidAnalysis
