import Mathlib
import FluidAnalysis.Launch.SoftSphereJob
import FluidAnalysis.Proofs.Decimal.Numeral
import FluidAnalysis.Proofs.Files.Components

/-!
# Files of soft-sphere jobs

The files of a job are named after its potential and its state point, and those of a job between
walls after its number of spheres too. Densities and temperatures have four places in these names,
and a potential is free text. So the names say less than the arguments of the program do. A
potential can hold slashes, and then different texts lead to the same file.

* `SoftSphereJob.SameNames` — when the names of two jobs agree
* `SoftSphereJob.SharesFiles`, `SoftSphereJob.SharesPaths` — two jobs write to the same texts, or to
  the same paths
* `SoftSphereJob.SameRun` — two jobs ask the program for the same simulation
* `SoftSphereRunner.files_eq_iff` — what a shared file says about two jobs, and what it does not
-/

namespace FluidAnalysis

/-! ## Texts with a sign -/

namespace Decimal

/-- A text without dashes, with or without a sign before it. -/
def IsSigned (text : List Char) : Prop :=
  ∃ body, '-' ∉ body ∧ body ≠ [] ∧ (text = body ∨ text = '-' :: body)

theorem getLast?_of_isSigned {text : List Char} (h : IsSigned text) :
    text ≠ [] ∧ text.getLast? ≠ some '-' := by
  obtain ⟨body, hdash, hne, rfl | rfl⟩ := h
  · exact ⟨hne, fun hlast => hdash (List.mem_of_getLast? hlast)⟩
  · refine ⟨List.cons_ne_nil _ _, fun hlast => hdash (List.mem_of_getLast? (a := '-') ?_)⟩
    rwa [List.getLast?_cons_of_ne_nil hne] at hlast

/-- A text can be cut at its last dash. -/
theorem append_dash_inj {x y b c : List Char} (hb : '-' ∉ b) (hc : '-' ∉ c)
    (h : x ++ '-' :: b = y ++ '-' :: c) : x = y ∧ b = c := by
  have hreversed : b.reverse ++ '-' :: x.reverse = c.reverse ++ '-' :: y.reverse := by
    simpa using congrArg List.reverse h
  rcases List.append_eq_append_iff.mp hreversed with ⟨as, hcb, hrest⟩ | ⟨as, hbc, hrest⟩
  · cases as with
    | nil => simp_all
    | cons a as =>
      obtain rfl : '-' = a := (List.cons.inj hrest).1
      exact absurd (List.mem_reverse.mp (hcb ▸ by simp)) hc
  · cases as with
    | nil => simp_all
    | cons a as =>
      obtain rfl : '-' = a := (List.cons.inj hrest).1
      exact absurd (List.mem_reverse.mp (hbc ▸ by simp)) hb

/-- A dash between a text and a number can be taken for the sign of the number, and then the sign of
the other number is the end of its text. -/
theorem append_signed_eq_iff {x y s t : List Char} (hs : IsSigned s) (ht : IsSigned t) :
    x ++ '-' :: s = y ++ '-' :: t ↔
      (x = y ∧ s = t) ∨ (s = '-' :: t ∧ y = x ++ ['-']) ∨ (t = '-' :: s ∧ x = y ++ ['-']) := by
  constructor
  · obtain ⟨b, hb, -, hs⟩ := hs
    obtain ⟨c, hc, -, ht⟩ := ht
    intro h
    rcases hs with rfl | rfl <;> rcases ht with rfl | rfl
    · exact .inl (append_dash_inj hb hc h)
    · have h' : x ++ '-' :: s = (y ++ ['-']) ++ '-' :: c := by simpa using h
      obtain ⟨rfl, rfl⟩ := append_dash_inj hb hc h'
      exact .inr (.inr ⟨rfl, rfl⟩)
    · have h' : (x ++ ['-']) ++ '-' :: b = y ++ '-' :: t := by simpa using h
      obtain ⟨rfl, rfl⟩ := append_dash_inj hb hc h'
      exact .inr (.inl ⟨rfl, rfl⟩)
    · have h' : (x ++ ['-']) ++ '-' :: b = (y ++ ['-']) ++ '-' :: c := by simpa using h
      obtain ⟨hxy, rfl⟩ := append_dash_inj hb hc h'
      exact .inl ⟨List.append_cancel_right hxy, rfl⟩
  · rintro (⟨rfl, rfl⟩ | ⟨rfl, rfl⟩ | ⟨rfl, rfl⟩) <;> simp

/-- Behind a text that does not end in a dash a dash is no sign. -/
theorem append_signed_inj {x y s t : List Char} (hx : x.getLast? ≠ some '-')
    (hy : y.getLast? ≠ some '-') (hs : IsSigned s) (ht : IsSigned t)
    (h : x ++ '-' :: s = y ++ '-' :: t) : x = y ∧ s = t := by
  rcases (append_signed_eq_iff hs ht).mp h with h | ⟨-, rfl⟩ | ⟨-, rfl⟩
  · exact h
  · exact absurd (by simp) hy
  · exact absurd (by simp) hx

/-- A number with decimal places is a sign and digits around a point, or no number at all. -/
theorem fixed_toList {places : Nat} (hplaces : 0 < places) (x : Float) :
    ∃ body, '-' ∉ body ∧ '/' ∉ body ∧ ¬ AllDigits body ∧
      ((fixed places x).toList = body ∨ (fixed places x).toList = '-' :: body) := by
  have hfinite (b : Binary) : '-' ∉ magnitudeFixed places b ∧ '/' ∉ magnitudeFixed places b ∧
      ¬ AllDigits (magnitudeFixed places b) := by
    obtain ⟨n, hn⟩ : ∃ n, magnitudeFixed places b = withPoint n places := ⟨_, rfl⟩
    have hfraction : fractionPart n places ≠ [] := by
      intro hnil
      rw [← length_fractionPart n places, hnil] at hplaces
      exact absurd hplaces (by simp)
    have hother {c : Char} (hdigit : c.isDigit = false) (hpoint : c ≠ '.') :
        c ∉ pointed (wholePart n places) (fractionPart n places) := by
      intro hmem
      rcases mem_pointed hmem with h | h | h
      · exact (allDigits_wholePart n places).not_mem hdigit h
      · exact hpoint h
      · exact (allDigits_fractionPart n places).not_mem hdigit h
    rw [hn, withPoint_eq_pointed]
    refine ⟨hother rfl (by decide), hother rfl (by decide), fun hdigits => ?_⟩
    rw [pointed_of_ne hfraction] at hdigits
    exact absurd (hdigits '.' (by simp)) (by decide)
  have hbody : ∃ body, '-' ∉ body ∧ '/' ∉ body ∧ ¬ AllDigits body ∧
      ((signAndMagnitude (magnitudeFixed places) x) = ([], body) ∨
        (signAndMagnitude (magnitudeFixed places) x) = (['-'], body)) := by
    unfold signAndMagnitude
    cases read x with
    | nan =>
      exact ⟨_, by decide, by decide, fun h => absurd (h 'N' (by decide)) (by decide), .inl rfl⟩
    | infinite negative =>
      refine ⟨"inf".toList, by decide, by decide,
        fun h => absurd (h 'i' (by decide)) (by decide), ?_⟩
      cases negative
      · exact .inl rfl
      · exact .inr rfl
    | finite b =>
      obtain ⟨hdash, hslash, hdigits⟩ := hfinite b
      refine ⟨_, hdash, hslash, hdigits, ?_⟩
      cases hsign : b.negative
      · exact .inl (by simp [hsign])
      · exact .inr (by simp [hsign])
  obtain ⟨body, hdash, hslash, hdigits, h | h⟩ := hbody
  · exact ⟨body, hdash, hslash, hdigits, .inl (by simp [fixed, h])⟩
  · exact ⟨body, hdash, hslash, hdigits, .inr (by simp [fixed, h])⟩

theorem slash_not_mem_fixed {places : Nat} (hplaces : 0 < places) (x : Float) :
    '/' ∉ (fixed places x).toList := by
  obtain ⟨body, -, hslash, -, htext | htext⟩ := fixed_toList hplaces x
  · rwa [htext]
  · simpa [htext] using hslash

theorem isSigned_fixed {places : Nat} (hplaces : 0 < places) (x : Float) :
    IsSigned (fixed places x).toList := by
  obtain ⟨body, hdash, -, hdigits, htext⟩ := fixed_toList hplaces x
  refine ⟨body, hdash, ?_, htext⟩
  rintro rfl
  exact hdigits fun c hc => absurd hc List.not_mem_nil

end Decimal

namespace Launch

open Files Decimal

/-- The file that a job is told to write. -/
def Job.dataFile? (job : Job) : Option String :=
  job.arguments[3]?

namespace SoftSphereJob

/-! ## Names -/

def density : SoftSphereJob → Float
  | homogeneous density _ _ => density
  | walls density _ _ => density
  | testParticle density _ _ _ _ => density
  | fcc density _ _ => density

def temperature : SoftSphereJob → Float
  | homogeneous _ temperature _ => temperature
  | walls _ temperature _ => temperature
  | testParticle _ temperature _ _ _ => temperature
  | fcc _ temperature _ => temperature

/-- What stands before the state point in the names of a job's files. -/
def label : SoftSphereJob → String
  | homogeneous _ _ potential => potential
  | walls _ _ _ => "walls"
  | testParticle _ _ _ _ potential => "_testp_" ++ potential
  | fcc _ _ potential => potential

/-- The number of spheres of a job between walls. -/
def wallSpheres? : SoftSphereJob → Option Nat
  | walls density _ spheres => some (if spheres == 0 then slabCount density else spheres)
  | _ => none

/-- The state point of a job behind a text, and its number of spheres between walls. -/
def named (text : String) (j : SoftSphereJob) : String :=
  text ++ "-" ++ SoftSphereRunner.stateText j.density j.temperature ++
    match j.wallSpheres? with
    | some spheres => "-" ++ toString spheres
    | none => ""

/-- The beginning of the names of a job's files, behind the letters that all of them start with. -/
def stem (j : SoftSphereJob) : String :=
  j.named j.label

/-- The names of two jobs behind two texts agree. Their state points agree in four places. Where a
density is negative, its sign may be the end of the other job's text instead. -/
structure SameNames (x y : String) (j k : SoftSphereJob) : Prop where
  spheres : j.wallSpheres? = k.wallSpheres?
  temperature : fixed 4 j.temperature = fixed 4 k.temperature
  density : (x = y ∧ fixed 4 j.density = fixed 4 k.density) ∨
    (fixed 4 j.density = "-" ++ fixed 4 k.density ∧ y = x ++ "-") ∨
    (fixed 4 k.density = "-" ++ fixed 4 j.density ∧ x = y ++ "-")

/-- Two jobs write files with the same texts. -/
def SharesFiles (j k : SoftSphereJob) : Prop :=
  SameNames j.label k.label j k

/-- Two jobs write to the same paths. Their labels hold the same names before the last slash, and
their names agree behind it. -/
def SharesPaths (j k : SoftSphereJob) : Prop :=
  Path.enclosing j.label = Path.enclosing k.label ∧
    SameNames (Path.ending j.label) (Path.ending k.label) j k

/-- Two jobs ask the program for the same simulation, apart from the file that it writes. -/
def SameRun : SoftSphereJob → SoftSphereJob → Prop
  | homogeneous n t potential, homogeneous n' t' potential' =>
    sphereCount n = sphereCount n' ∧ general t 6 = general t' 6 ∧ potential = potential'
  | walls n t spheres, walls n' t' spheres' =>
    (walls n t spheres).wallSpheres? = (walls n' t' spheres').wallSpheres? ∧
      general t 6 = general t' 6
  | testParticle n t sigma epsilon potential, testParticle n' t' sigma' epsilon' potential' =>
    sphereCount n = sphereCount n' ∧ general t 6 = general t' 6 ∧
      fixed 6 sigma = fixed 6 sigma' ∧ fixed 6 epsilon = fixed 6 epsilon' ∧ potential = potential'
  | fcc n t potential, fcc n' t' potential' =>
    sphereCount n = sphereCount n' ∧ general t 6 = general t' 6 ∧ potential = potential' ∧
      fixed 4 (crystalLength n) = fixed 4 (crystalLength n')
  | _, _ => False

/-! ## Equal names -/

variable {j k : SoftSphereJob} {x y : String}

/-- A text and the density of a job as they stand in its names. -/
def labelled (text : String) (j : SoftSphereJob) : List Char :=
  text.toList ++ '-' :: (fixed 4 j.density).toList

/-- A job without walls has its temperature last in its names. -/
theorem named_of_none (h : j.wallSpheres? = none) (x : String) :
    (j.named x).toList = j.labelled x ++ '-' :: (fixed 4 j.temperature).toList := by
  simp [named, labelled, h, SoftSphereRunner.stateText, toString]

/-- A job between walls has its number of spheres last in its names. -/
theorem named_of_some {spheres : Nat} (h : j.wallSpheres? = some spheres) (x : String) :
    (j.named x).toList
      = j.labelled x ++ '-' :: (fixed 4 j.temperature).toList ++ '-' :: digits spheres := by
  simp [named, labelled, h, SoftSphereRunner.stateText, toString, Nat.toList_repr, digits]

theorem getLast?_labelled (x : String) (j : SoftSphereJob) :
    (j.labelled x).getLast? ≠ some '-' := by
  have hfour : 0 < 4 := by decide
  obtain ⟨hne, hlast⟩ := getLast?_of_isSigned (isSigned_fixed hfour j.density)
  rwa [labelled, List.getLast?_append_of_ne_nil _ (by simp), List.getLast?_cons_of_ne_nil hne]

theorem labelled_eq_iff : j.labelled x = k.labelled y ↔
    (x = y ∧ fixed 4 j.density = fixed 4 k.density) ∨
    (fixed 4 j.density = "-" ++ fixed 4 k.density ∧ y = x ++ "-") ∨
    (fixed 4 k.density = "-" ++ fixed 4 j.density ∧ x = y ++ "-") := by
  unfold labelled
  rw [append_signed_eq_iff (isSigned_fixed (by decide) _) (isSigned_fixed (by decide) _)]
  simp [← String.toList_inj]

/-- The state point and the text before it are read off a name from its end. -/
theorem state_eq_iff :
    j.labelled x ++ '-' :: (fixed 4 j.temperature).toList
        = k.labelled y ++ '-' :: (fixed 4 k.temperature).toList ↔
      j.labelled x = k.labelled y ∧ fixed 4 j.temperature = fixed 4 k.temperature := by
  constructor
  · intro h
    obtain ⟨hlabelled, htemperature⟩ := append_signed_inj (j.getLast?_labelled x)
      (k.getLast?_labelled y) (isSigned_fixed (by decide) _) (isSigned_fixed (by decide) _) h
    exact ⟨hlabelled, String.toList_inj.mp htemperature⟩
  · rintro ⟨hlabelled, htemperature⟩
    rw [hlabelled, htemperature]

/-- A number of spheres is no temperature: it has no point. -/
theorem named_ne_of_walls {spheres : Nat} (hj : j.wallSpheres? = some spheres)
    (hk : k.wallSpheres? = none) : j.named x ≠ k.named y := by
  intro h
  have htext := congrArg String.toList h
  rw [named_of_some hj, named_of_none hk] at htext
  have hfour : 0 < 4 := by decide
  obtain ⟨body, hdash, -, hdigits, hbody⟩ := fixed_toList hfour k.temperature
  have hcount := (allDigits_digits spheres).not_mem (c := '-') rfl
  have hend : digits spheres = body := by
    rcases hbody with hbody | hbody
    · rw [hbody] at htext
      exact (append_dash_inj hcount hdash htext).2
    · have hsplit : ∀ x : List Char, x ++ '-' :: '-' :: body = (x ++ ['-']) ++ '-' :: body := by
        simp
      rw [hbody, hsplit] at htext
      exact (append_dash_inj hcount hdash htext).2
  exact hdigits (hend ▸ allDigits_digits spheres)

/-- **Two jobs have the same names exactly if they agree in what the names hold.** -/
theorem named_eq_iff : j.named x = k.named y ↔ SameNames x y j k := by
  have hsame : SameNames x y j k ↔ j.wallSpheres? = k.wallSpheres? ∧
      j.labelled x = k.labelled y ∧ fixed 4 j.temperature = fixed 4 k.temperature := by
    rw [labelled_eq_iff]
    exact ⟨fun h => ⟨h.spheres, h.density, h.temperature⟩, fun h => ⟨h.1, h.2.2, h.2.1⟩⟩
  rw [hsame]
  cases hj : j.wallSpheres? with
  | none =>
    cases hk : k.wallSpheres? with
    | none => rw [← String.toList_inj, named_of_none hj, named_of_none hk, state_eq_iff]; simp
    | some spheres => simpa using (named_ne_of_walls hk hj).symm
  | some spheres =>
    cases hk : k.wallSpheres? with
    | none => simpa using named_ne_of_walls hj hk
    | some spheres' =>
      rw [← String.toList_inj, named_of_some hj, named_of_some hk, ← state_eq_iff]
      constructor
      · intro h
        obtain ⟨hstate, hspheres⟩ := append_dash_inj ((allDigits_digits spheres).not_mem rfl)
          ((allDigits_digits spheres').not_mem rfl) h
        have hcount := congrArg digitsValue hspheres
        rw [digitsValue_digits, digitsValue_digits] at hcount
        exact ⟨congrArg some hcount, hstate⟩
      · rintro ⟨hspheres, hstate⟩
        rw [hstate, Option.some.inj hspheres]

theorem stem_eq_iff : j.stem = k.stem ↔ SharesFiles j k :=
  named_eq_iff

/-! ## Equal paths -/

theorem named_eq_append (x : String) (j : SoftSphereJob) : j.named x = x ++ j.named "" := by
  simp [named, String.append_assoc]

theorem slash_not_mem_named (j : SoftSphereJob) : '/' ∉ (j.named "").toList := by
  have hdensity := slash_not_mem_fixed (by decide : 0 < 4) j.density
  have htemperature := slash_not_mem_fixed (by decide : 0 < 4) j.temperature
  cases h : j.wallSpheres? with
  | none => simp [named_of_none h, labelled, hdensity, htemperature]
  | some spheres =>
    have hspheres := (allDigits_digits spheres).not_mem (c := '/') rfl
    simp [named_of_some h, labelled, hdensity, htemperature, hspheres]

/-- How the name of a file continues a path: a label can hold slashes, and the rest cannot. -/
theorem continuation_stem (j : SoftSphereJob) {extension : String}
    (h : '/' ∉ extension.toList) : Path.continuation (j.stem ++ extension)
      = Path.enclosing j.label ++ [j.named (Path.ending j.label) ++ extension] := by
  have hname : Path.CompletesName (j.named "" ++ extension) :=
    ⟨by simp [j.slash_not_mem_named, h], '-', by simp [named], by decide⟩
  rw [stem, named_eq_append, String.append_assoc, Path.continuation_append_name _ hname,
    ← String.append_assoc, ← named_eq_append]

theorem continuation_stem_eq_iff {extension : String} (h : '/' ∉ extension.toList) :
    Path.continuation (j.stem ++ extension) = Path.continuation (k.stem ++ extension) ↔
      SharesPaths j k := by
  rw [continuation_stem j h, continuation_stem k h, SharesPaths, ← named_eq_iff]
  constructor
  · intro heq
    obtain ⟨henclosing, hending⟩ := List.append_inj' heq rfl
    exact ⟨henclosing, by simpa using hending⟩
  · rintro ⟨henclosing, hending⟩
    rw [henclosing, hending]

end SoftSphereJob

/-! ## Files of planned jobs -/

namespace SoftSphereJob

/-- The number of spheres of a job. -/
def spheres (j : SoftSphereJob) : Nat :=
  j.wallSpheres?.getD (sphereCount j.density)

/-- What the program is told besides the number of spheres and its file. -/
def settings : SoftSphereJob → List String
  | homogeneous _ t potential =>
    ["periodxyz", boxText, "kT", general t 6, "potential", potential]
  | walls _ t _ => ["periodxy", boxText, "wallz", boxText, "kT", general t 6]
  | testParticle _ t sigma epsilon potential =>
    ["periodxyz", boxText, "kT", general t 6, "TestP", fixed 6 sigma, "testp_eps",
      fixed 6 epsilon, "potential", potential]
  | fcc n t potential =>
    ["periodxyz", boxText, "kT", general t 6, "potential", potential, "fcc",
      fixed 4 (crystalLength n)]

-- Settings of two kinds differ in their number or in a word that is the same for all of a kind.
theorem sameRun_iff {j k : SoftSphereJob} :
    SameRun j k ↔ j.spheres = k.spheres ∧ j.settings = k.settings := by
  cases j <;> cases k <;> simp [SameRun, spheres, settings, wallSpheres?, density]

end SoftSphereJob

namespace SoftSphereRunner

open SoftSphereJob

variable (r : SoftSphereRunner) (j k : SoftSphereJob)

/-- Every job is planned in one way from its names, its spheres and its settings. -/
theorem plan_eq_job : ∃ name, r.plan j = r.job name ("mc" ++ j.stem) j.spheres j.settings := by
  have hstem (base : String) (h : base = "mc" ++ j.stem) (name : String) :
      r.job name base j.spheres j.settings = r.job name ("mc" ++ j.stem) j.spheres j.settings := by
    rw [h]
  cases j <;> exact ⟨_, hstem _ (by
    simp [← String.toList_inj, stem, named, SoftSphereJob.label, wallSpheres?, density,
      temperature, toString]) _⟩

/-- Where the files of all jobs begin. -/
def beginning : Path :=
  r.directory.join "mc"

theorem join_stem : r.directory.join ("mc" ++ j.stem) = r.beginning ++ j.stem :=
  Path.join_append _ (by decide) _

theorem plan_arguments : (r.plan j).arguments
    = [toString j.spheres, "0.01", "0.001", r.beginning ++ j.stem ++ ".dat"] ++ j.settings := by
  obtain ⟨name, hplan⟩ := r.plan_eq_job j
  rw [hplan, ← join_stem]
  rfl

theorem plan_log : (r.plan j).log = r.beginning ++ j.stem ++ ".out" := by
  obtain ⟨name, hplan⟩ := r.plan_eq_job j
  rw [hplan, ← join_stem]
  rfl

theorem plan_dataFile? : (r.plan j).dataFile? = some (r.beginning ++ j.stem ++ ".dat") := by
  rw [Job.dataFile?, plan_arguments]
  rfl

theorem dataFile?_eq_iff : (r.plan j).dataFile? = (r.plan k).dataFile? ↔ SharesFiles j k := by
  rw [plan_dataFile?, plan_dataFile?, Option.some.injEq, String.append_left_inj,
    String.append_right_inj, stem_eq_iff]

theorem endsInName_beginning : r.beginning.EndsInName :=
  Path.EndsInName.join ⟨'c', by decide, by decide, by decide⟩ r.directory

theorem components_stem_eq_iff {extension : String} (h : '/' ∉ extension.toList) :
    Path.components (r.beginning ++ j.stem ++ extension)
        = Path.components (r.beginning ++ k.stem ++ extension) ↔ SharesPaths j k := by
  rw [String.append_assoc, String.append_assoc,
    Path.components_append_inj r.endsInName_beginning, continuation_stem_eq_iff h]

theorem log_components_eq_iff :
    (r.plan j).log.components = (r.plan k).log.components ↔ SharesPaths j k := by
  rw [plan_log, plan_log]
  exact r.components_stem_eq_iff j k (by decide)

theorem dataFile?_components_eq_iff : (r.plan j).dataFile?.map Path.components
    = (r.plan k).dataFile?.map Path.components ↔ SharesPaths j k := by
  rw [plan_dataFile?, plan_dataFile?, Option.map_some, Option.map_some, Option.some.injEq]
  exact r.components_stem_eq_iff j k (by decide)

theorem sharesPaths_of_sharesFiles {j k : SoftSphereJob} (h : SharesFiles j k) :
    SharesPaths j k := by
  rw [← continuation_stem_eq_iff (by decide : '/' ∉ ".out".toList), stem_eq_iff.mpr h]

theorem arguments_eq_iff :
    (r.plan j).arguments = (r.plan k).arguments ↔ SharesFiles j k ∧ SameRun j k := by
  rw [plan_arguments, plan_arguments, sameRun_iff, ← stem_eq_iff]
  simp only [List.cons_append, List.nil_append, List.cons.injEq, true_and,
    String.append_left_inj, String.append_right_inj]
  constructor
  · rintro ⟨hspheres, hstem, hsettings⟩
    exact ⟨hstem, Nat.repr_inj.mp hspheres, hsettings⟩
  · rintro ⟨hstem, hspheres, hsettings⟩
    exact ⟨congrArg toString hspheres, hstem, hsettings⟩

/-- **What the files of two jobs say about them.** Two jobs name the same data file exactly if they
agree in what the names of files hold, and then they have the same log. They have the same log, and
data files at the same path, exactly if the names agree behind the last slash, and the names before
it do. Their arguments are the same only if they name the same data file and ask for the same
simulation. -/
theorem files_eq_iff (r : SoftSphereRunner) (j k : SoftSphereJob) :
    ((r.plan j).dataFile? = (r.plan k).dataFile? ↔ SharesFiles j k) ∧
      ((r.plan j).log.components = (r.plan k).log.components ↔ SharesPaths j k) ∧
      ((r.plan j).dataFile?.map Path.components = (r.plan k).dataFile?.map Path.components ↔
        SharesPaths j k) ∧
      (SharesFiles j k → SharesPaths j k) ∧
      ((r.plan j).arguments = (r.plan k).arguments ↔ SharesFiles j k ∧ SameRun j k) :=
  ⟨r.dataFile?_eq_iff j k, r.log_components_eq_iff j k, r.dataFile?_components_eq_iff j k,
    sharesPaths_of_sharesFiles, r.arguments_eq_iff j k⟩

/-! ## Different simulations with the same files -/

def figureRunner : SoftSphereRunner :=
  ⟨"./soft-monte-carlo", "figs"⟩

/-- Two jobs with the same files, which ask for different simulations. -/
def Clobbers (r : SoftSphereRunner) (j k : SoftSphereJob) : Prop :=
  (r.plan j).dataFile? = (r.plan k).dataFile? ∧
    (r.plan j).log.components = (r.plan k).log.components ∧
    (r.plan j).arguments ≠ (r.plan k).arguments

theorem clobbers_iff {r : SoftSphereRunner} {j k : SoftSphereJob} :
    Clobbers r j k ↔ SharesFiles j k ∧ ¬ SameRun j k := by
  have hpaths : SharesFiles j k → SharesPaths j k := sharesPaths_of_sharesFiles
  rw [Clobbers, dataFile?_eq_iff, log_components_eq_iff, ne_eq, arguments_eq_iff]
  tauto

/-- A crystal has the files of the fluid with the same potential and state point. -/
theorem clobbers_crystal (n t : Float) (potential : String) :
    Clobbers r (homogeneous n t potential) (fcc n t potential) :=
  clobbers_iff.mpr ⟨⟨rfl, rfl, .inl ⟨rfl, rfl⟩⟩, id⟩

/-- Temperatures can differ in their sixth digit and agree in four places. -/
theorem clobbers_close (n : Float) {t t' : Float} (potential : String)
    (hplaces : fixed 4 t = fixed 4 t') (hdigits : general t 6 ≠ general t' 6) :
    Clobbers r (homogeneous n t potential) (homogeneous n t' potential) :=
  clobbers_iff.mpr ⟨⟨rfl, hplaces, .inl ⟨rfl, rfl⟩⟩, fun h => hdigits h.2.1⟩

/-- Test particles of two sizes have the same files. -/
theorem clobbers_particle (n t epsilon : Float) {sigma sigma' : Float} (potential : String)
    (h : fixed 6 sigma ≠ fixed 6 sigma') :
    Clobbers r (testParticle n t sigma epsilon potential)
      (testParticle n t sigma' epsilon potential) :=
  clobbers_iff.mpr ⟨⟨rfl, rfl, .inl ⟨rfl, rfl⟩⟩, fun hrun => h hrun.2.2.1⟩

/-- The mark of a test particle can be part of a potential. -/
theorem clobbers_mark (n t sigma epsilon : Float) (potential : String) :
    Clobbers r (homogeneous n t ("_testp_" ++ potential))
      (testParticle n t sigma epsilon potential) :=
  clobbers_iff.mpr ⟨⟨rfl, rfl, .inl ⟨rfl, rfl⟩⟩, id⟩

/-- The sign of a density can be the end of a potential. -/
theorem clobbers_sign {n n' : Float} (t : Float) (potential : String)
    (h : fixed 4 n = "-" ++ fixed 4 n') :
    Clobbers r (homogeneous n t potential) (homogeneous n' t (potential ++ "-")) := by
  refine clobbers_iff.mpr ⟨⟨rfl, rfl, .inr (.inl ⟨h, rfl⟩)⟩, fun hrun => ?_⟩
  simpa using congrArg String.length hrun.2.2

/-- A slash more in a potential leaves the log where it is, and tells the program another text for
its data file. -/
theorem log_slashes (n t : Float) (x y : String) :
    (r.plan (homogeneous n t (x ++ "/" ++ y))).log.components
        = (r.plan (homogeneous n t (x ++ "/" ++ "/" ++ y))).log.components ∧
      (r.plan (homogeneous n t (x ++ "/" ++ y))).arguments
        ≠ (r.plan (homogeneous n t (x ++ "/" ++ "/" ++ y))).arguments := by
  have henclosing : Path.enclosing (x ++ "/" ++ y) = Path.enclosing (x ++ "/" ++ "/" ++ y) := by
    rw [Path.enclosing_append_slash, Path.enclosing_append_slash, Path.continuation_slash]
  have hending : Path.ending (x ++ "/" ++ y) = Path.ending (x ++ "/" ++ "/" ++ y) := by
    rw [Path.ending_append_slash, Path.ending_append_slash]
  refine ⟨(r.log_components_eq_iff _ _).mpr ⟨henclosing, rfl, rfl, .inl ⟨hending, rfl⟩⟩, ?_⟩
  rw [ne_eq, arguments_eq_iff]
  rintro ⟨-, -, -, hpotential⟩
  simpa using congrArg String.length hpotential

/-- One pair of each kind. -/
theorem soft_jobs_clobber :
    Clobbers figureRunner (homogeneous 0.76 2.5 "wca") (fcc 0.76 2.5 "wca") ∧
      Clobbers figureRunner (homogeneous 0.76 2.50001 "wca") (homogeneous 0.76 2.50002 "wca") ∧
      Clobbers figureRunner (testParticle 0.76 2.5 1.0 1.0 "wca")
        (testParticle 0.76 2.5 2.0 1.0 "wca") ∧
      Clobbers figureRunner (homogeneous 0.76 2.5 ("_testp_" ++ "wca"))
        (testParticle 0.76 2.5 1.0 1.0 "wca") ∧
      Clobbers figureRunner (homogeneous (-0.76) 2.5 "wca")
        (homogeneous 0.76 2.5 ("wca" ++ "-")) ∧
      (figureRunner.plan (homogeneous 0.76 2.5 ("a" ++ "/" ++ "b"))).log.components
        = (figureRunner.plan (homogeneous 0.76 2.5 ("a" ++ "/" ++ "/" ++ "b"))).log.components ∧
      (figureRunner.plan (homogeneous 0.76 2.5 ("a" ++ "/" ++ "b"))).arguments
        ≠ (figureRunner.plan (homogeneous 0.76 2.5 ("a" ++ "/" ++ "/" ++ "b"))).arguments :=
  ⟨clobbers_crystal _ _ _ _, clobbers_close _ _ _ (by decide +kernel) (by decide +kernel),
    clobbers_particle _ _ _ _ _ (by decide +kernel), clobbers_mark _ _ _ _ _ _,
    clobbers_sign _ _ _ (by decide +kernel), log_slashes _ _ _ _ _⟩

end SoftSphereRunner

end Launch

end FluidAnalysis
