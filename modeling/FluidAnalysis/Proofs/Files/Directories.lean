import Mathlib
import FluidAnalysis.Proofs.Files.Names

/-!
# What a directory holds

A directory is listed by its names, and what stands at a name is asked for by a path. In a tree as a
file system holds it (`Tree.WellFormed`) both speak of the same entries.

* `Tree.Holds` — a path leads to a directory that has a node under a name
* `Tree.mem_names_iff` — the names of a directory are those it holds something under
* `Tree.isDirectory_join_iff` — which of them are asked for as directories
-/

namespace FluidAnalysis.Files

/-- A name that a file system gives an entry. -/
structure IsEntryName (name : String) : Prop where
  plain : IsPlainName name
  slashless : '/' ∉ name.toList
  short : name.utf8ByteSize ≤ Tree.maxName

/-- A name that is joined to a path stands behind it. -/
theorem Path.exists_join_eq {p name : Path} (hp : p ≠ "") (hname : '/' ∉ name.toList) :
    ∃ rest, p.join name = p ++ rest := by
  unfold join
  rw [isAbsolute_of_not_mem hname, Bool.false_or, if_neg (by simpa using hp)]
  split
  · exact ⟨name, rfl⟩
  · exact ⟨"/" ++ name, String.append_assoc⟩

namespace Tree

variable {t : Tree} {p : Path} {place : Place} {name : String} {node : Node}

/-- A tree as a file system holds it: one node at each place, under a name that it takes. -/
structure WellFormed (t : Tree) : Prop where
  nodup : (t.entries.map Prod.fst).Nodup
  entryNames : ∀ entry ∈ t.entries, ∃ name ∈ entry.1.getLast?, IsEntryName name

/-- The path leads to a directory that has this node under this name. -/
def Holds (t : Tree) (p : Path) (name : String) (node : Node) : Prop :=
  ∃ place, t.locate p = .ok place ∧ t.node? place = some .directory ∧
    (place ++ [name], node) ∈ t.entries

/-! ## Listing -/

theorem isDirectory_iff :
    t.isDirectory p = true ↔ ∃ place, t.locate p = .ok place ∧ t.node? place = some .directory := by
  unfold isDirectory lookup
  cases t.locate p with
  | error cause => simp
  | ok place =>
    cases hnode : t.node? place with
    | none => simp [hnode]
    | some node => cases node <;> simp [hnode]

/-- A directory can be listed, and nothing else can. -/
theorem exists_names_iff : (∃ names, t.names p = .ok names) ↔ t.isDirectory p = true := by
  rw [isDirectory_iff]
  unfold names
  cases t.locate p with
  | error cause => simp
  | ok place =>
    cases hnode : t.node? place with
    | none => simp [hnode]
    | some node => cases node <;> simp [hnode]

theorem exists_holds_iff (hplace : t.locate p = .ok place)
    (hnode : t.node? place = some .directory) :
    (∃ node, t.Holds p name node) ↔ place ++ [name] ∈ t.entries.map Prod.fst := by
  simp [Holds, hplace, hnode]

theorem mem_names_iff {names : List String} (h : t.names p = .ok names) :
    name ∈ names ↔ ∃ node, t.Holds p name node := by
  obtain ⟨place, hplace, hnode⟩ := isDirectory_iff.mp (exists_names_iff.mp ⟨names, h⟩)
  simp only [Tree.names, hplace, hnode, Except.ok.injEq] at h
  subst h
  rw [exists_holds_iff hplace hnode]
  simp only [List.mem_filterMap, List.mem_map, Option.ite_none_right_eq_some, beq_iff_eq]
  constructor
  · rintro ⟨entry, hentry, hhome, hlast⟩
    exact ⟨entry, hentry, by rw [← hhome, List.dropLast_append_getLast? name hlast]⟩
  · rintro ⟨entry, hentry, hentryPlace⟩
    exact ⟨entry, hentry, by simp [hentryPlace], by simp [hentryPlace]⟩

/-! ## Asking for an entry -/

theorem WellFormed.isEntryName (hwf : t.WellFormed) (h : t.Holds p name node) :
    IsEntryName name := by
  obtain ⟨place, -, -, hentry⟩ := h
  obtain ⟨last, hlast, hname⟩ := hwf.entryNames _ hentry
  rw [List.getLast?_append] at hlast
  cases hlast
  exact hname

theorem isBase_append_name (hname : IsEntryName name) (place : Place) :
    Place.isBase (place ++ [name]) = false := by
  have hroot : place ++ [name] ≠ ["/"] := by
    intro h
    have hlast : name ∈ ["/"] := by
      rw [← h]
      simp
    exact hname.slashless (by simp [List.mem_singleton.mp hlast])
  simp [Place.isBase, hroot, hname.plain.2.2]

/-- Of the nodes at one place there is one. -/
theorem WellFormed.node?_eq (hwf : t.WellFormed) (hbase : place.isBase = false)
    (h : (place, node) ∈ t.entries) : t.node? place = some node := by
  have hfind : t.entries.find? (fun entry => entry.1 == place) = some (place, node) := by
    rw [List.find?_eq_some_iff_append]
    obtain ⟨before, after, hsplit⟩ := List.append_of_mem h
    refine ⟨by simp, before, after, hsplit, fun entry hentry => ?_⟩
    have hnodup := hwf.nodup
    rw [hsplit, List.map_append, List.map_cons] at hnodup
    have hnot := (List.nodup_middle.mp hnodup).notMem
    simp only [List.mem_append, not_or] at hnot
    simpa using fun heq : entry.1 = place => hnot.1 (heq ▸ List.mem_map_of_mem hentry)
  rw [node?, if_neg (by simp [hbase]), hfind]
  rfl

theorem step_entryName (hnode : t.node? place = some .directory) (hname : IsEntryName name) :
    t.step place name = .ok (place ++ [name]) := by
  obtain ⟨hempty, hdot, hdots⟩ := hname.plain
  unfold step
  simp [hnode, hempty, hdot, hdots, Nat.not_lt.mpr hname.short]

/-- From anything but a directory all steps fail alike. -/
theorem exists_step_eq_error (h : t.node? place ≠ some .directory) :
    ∃ cause, ∀ name, t.step place name = .error cause := by
  unfold step
  cases hnode : t.node? place with
  | none => exact ⟨_, fun _ => rfl⟩
  | some node =>
    cases node with
    | file content => exact ⟨_, fun _ => rfl⟩
    | directory => exact absurd hnode h

/-- An empty step stays where it is, so a step behind it is that step. -/
theorem step_empty_bind (name : String) :
    (t.step place "" >>= fun next => t.step next name) = t.step place name := by
  by_cases h : t.node? place = some .directory
  · have hstay : t.step place "" = .ok place := by simp [step, h]
    rw [hstay]
    rfl
  · obtain ⟨cause, hcause⟩ := exists_step_eq_error h
    rw [hcause, hcause]
    rfl

theorem follow_pieces_join (hp : p ≠ "") (hname : '/' ∉ name.toList) :
    t.follow place (p.join name).pieces
      = t.follow place p.pieces >>= fun next => t.step next name := by
  unfold Path.join
  rw [Path.isAbsolute_of_not_mem hname, Bool.false_or, if_neg (by simpa using hp)]
  split
  · next hslash =>
    obtain ⟨rest, hrest⟩ := List.getLast?_eq_some_iff.mp (eq_of_beq hslash)
    have hroot : p = String.ofList rest ++ "/" ++ "" := by
      rw [← String.toList_inj, hrest]
      simp
    have hjoined : p ++ name = String.ofList rest ++ "/" ++ name := by
      rw [hroot, String.append_empty]
    have hempty : Path.pieces "" = [""] := Path.pieces_of_not_mem (by simp)
    rw [hjoined, hroot, Path.pieces_append, Path.pieces_append, Path.pieces_of_not_mem hname,
      hempty, follow_append, follow_append, bind_assoc]
    simp only [follow_singleton, step_empty_bind]
  · rw [Path.pieces_append, Path.pieces_of_not_mem hname, follow_append]
    simp only [follow_singleton]

/-- A name behind the path of a directory is one step more. -/
theorem locate_join (hp : p ≠ "") (hname : '/' ∉ name.toList)
    (hlong : (p.join name).utf8ByteSize ≤ maxPath) :
    t.locate (p.join name) = t.locate p >>= fun place => t.step place name := by
  obtain ⟨rest, hrest⟩ := Path.exists_join_eq hp hname
  have hstart : start (p.join name) = start p := by
    unfold start Path.isAbsolute
    rw [hrest, String.toList_append, List.head?_append_of_ne_nil _ (by simpa using hp)]
  have hempty : (p.join name).isEmpty = false := by simp [hrest, hp]
  have hshort : p.utf8ByteSize ≤ maxPath := by
    rw [hrest, String.utf8ByteSize_append] at hlong
    omega
  unfold locate
  rw [if_neg (by simp [hempty]), if_neg (by simpa using hlong), if_neg (by simpa using hp),
    if_neg (by simpa using hshort), hstart, follow_pieces_join hp hname]

theorem isDirectory_join_iff (hwf : t.WellFormed) (h : t.Holds p name node) :
    t.isDirectory (p.join name) = true ↔
      node = .directory ∧ (p.join name).utf8ByteSize ≤ maxPath := by
  have hname := hwf.isEntryName h
  obtain ⟨place, hplace, hdirectory, hentry⟩ := h
  have hp : p ≠ "" := by
    rintro rfl
    cases hplace
  have hnode := hwf.node?_eq (isBase_append_name hname place) hentry
  by_cases hlong : (p.join name).utf8ByteSize ≤ maxPath
  · have hlocate : t.locate (p.join name) = .ok (place ++ [name]) := by
      rw [locate_join hp hname.slashless hlong, hplace]
      exact step_entryName hdirectory hname
    simp [isDirectory_iff, hlocate, hnode, hlong]
  · have hlocate : t.locate (p.join name) = .error .nameTooLong := by
      obtain ⟨rest, hrest⟩ := Path.exists_join_eq hp hname.slashless
      rw [locate, if_neg (by simp [hrest, hp]), if_pos (Nat.lt_of_not_le hlong)]
    simp [isDirectory_iff, hlocate, hlong]

end Tree

end FluidAnalysis.Files
