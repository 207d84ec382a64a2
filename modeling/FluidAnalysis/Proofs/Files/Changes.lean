import FluidAnalysis.Files.Tree
import FluidAnalysis.Proofs.Text.Lines

/-!
# Changes of a file tree

What the writing operations do to a tree, said once for all of them: directories are made where
nothing was, and files are created or rewritten where no directory is. Nothing is ever removed, and
a directory stays a directory, so a path that leads somewhere leads there ever after.

* `Written` — directories made, and files written in a given order
* `Written.node?_of_last`, `Written.node?_of_not_mem` — what stands at a place afterwards
* `Written.locate_eq_ok` — what can be reached stays where it is
* `ensureDirectory_written`, `write_eq_ok` — the operations make such changes
-/

namespace FluidAnalysis.Files

namespace Tree

variable {t t' t'' : Tree} {place q : Place} {p : Path}

/-! ## Nodes -/

theorem isBase_eq_false (h : t.node? place ≠ some .directory) : place.isBase = false :=
  Bool.eq_false_iff.mpr fun hbase => h (if_pos hbase)

theorem find?_map_replace (entries : List (Place × Node)) (place q : Place) (node : Node) :
    (entries.map fun entry => if entry.1 == place then (place, node) else entry).find?
        (fun entry => entry.1 == q)
      = if q = place then (entries.find? fun entry => entry.1 == place).map fun _ => (place, node)
        else entries.find? fun entry => entry.1 == q := by
  induction entries with
  | nil => simp
  | cons entry rest ih =>
    rw [List.map_cons, List.find?_cons, ih]
    by_cases hentry : entry.1 = place
    · by_cases hq : q = place
      · simp [hentry, hq]
      · simp [hentry, hq, beq_false_of_ne (Ne.symm hq)]
    · by_cases hq : q = place
      · simp [hq, beq_false_of_ne hentry]
      · simp [hq, beq_false_of_ne hentry, List.find?_cons]

/-- A node that is put where no directory is stands there, and changes nothing else. -/
theorem node?_set (hnode : t.node? place ≠ some .directory) (node : Node) (q : Place) :
    (t.set place node).node? q = if q = place then some node else t.node? q := by
  unfold node? set
  by_cases hbase : q.isBase = true
  · have hne : q ≠ place := by
      rintro rfl
      rw [isBase_eq_false hnode] at hbase
      cases hbase
    rw [if_pos hbase, if_pos hbase, if_neg hne]
  · rw [if_neg hbase, if_neg hbase]
    split
    · next hany =>
      rw [find?_map_replace]
      obtain ⟨entry, hmem, hentry⟩ := List.any_eq_true.mp hany
      split
      · have hsome : (t.entries.find? fun entry => entry.1 == place).isSome :=
          List.find?_isSome.mpr ⟨entry, hmem, hentry⟩
        obtain ⟨found, hfound⟩ := Option.isSome_iff_exists.mp hsome
        rw [hfound]
        rfl
      · rfl
    · next hany =>
      rw [List.find?_append]
      split
      · next hq =>
        have hnone : (t.entries.find? fun entry => entry.1 == q) = none := by
          rw [List.find?_eq_none]
          intro entry hmem hentry
          exact hany (List.any_eq_true.mpr ⟨entry, hmem, hq ▸ hentry⟩)
        rw [hnone, hq]
        simp
      · next hq =>
        simp [Ne.symm hq]

theorem node?_set_self (hnode : t.node? place ≠ some .directory) (node : Node) :
    (t.set place node).node? place = some node := by
  rw [node?_set hnode, if_pos rfl]

theorem node?_set_of_ne (hnode : t.node? place ≠ some .directory) (node : Node) (hq : q ≠ place) :
    (t.set place node).node? q = t.node? q := by
  rw [node?_set hnode, if_neg hq]

theorem not_directory_of_none (h : t.node? place = none) : t.node? place ≠ some .directory := by
  rw [h]
  exact (Option.some_ne_none _).symm

end Tree

/-! ## Changes -/

/-- A tree becomes another one: directories are made where nothing is, and the given files are
created or rewritten, in this order. -/
inductive Written : Tree → List (Place × ByteArray) → Tree → Prop
  | unchanged (t : Tree) : Written t [] t
  | directory {t last : Tree} {place : Place} {writes : List (Place × ByteArray)}
      (hnode : t.node? place = none) (rest : Written (t.set place .directory) writes last) :
      Written t writes last
  | file {t last : Tree} {place : Place} {content : ByteArray} {writes : List (Place × ByteArray)}
      (hnode : t.node? place ≠ some .directory)
      (rest : Written (t.set place (.file content)) writes last) :
      Written t ((place, content) :: writes) last

namespace Written

variable {t t' t'' : Tree} {writes more : List (Place × ByteArray)} {place q : Place} {p : Path}

theorem trans (h : Written t writes t') (h' : Written t' more t'') :
    Written t (writes ++ more) t'' := by
  induction h with
  | unchanged => exact h'
  | directory hnode _ ih => exact .directory hnode (ih h')
  | file hnode _ ih => exact .file hnode (ih h')

/-- A directory stays a directory. -/
theorem node?_directory (h : Written t writes t') (hq : t.node? q = some .directory) :
    t'.node? q = some .directory := by
  induction h with
  | unchanged => exact hq
  | directory hnode _ ih =>
    refine ih ?_
    rw [Tree.node?_set (Tree.not_directory_of_none hnode)]
    split
    · rfl
    · exact hq
  | file hnode _ ih =>
    refine ih ?_
    rw [Tree.node?_set_of_ne hnode _ fun heq => hnode (heq ▸ hq)]
    exact hq

/-- A file stays a file. -/
theorem exists_file (h : Written t writes t') (hq : ∃ content, t.node? q = some (.file content)) :
    ∃ content, t'.node? q = some (.file content) := by
  induction h with
  | unchanged => exact hq
  | @directory t _ place _ hnode _ ih =>
    obtain ⟨content, hcontent⟩ := hq
    have hne : q ≠ place := by
      rintro rfl
      rw [hnode] at hcontent
      cases hcontent
    refine ih ⟨content, ?_⟩
    rw [Tree.node?_set_of_ne (Tree.not_directory_of_none hnode) _ hne, hcontent]
  | @file _ _ _ content _ hnode _ ih =>
    refine ih ?_
    rw [Tree.node?_set hnode]
    split
    · exact ⟨content, rfl⟩
    · exact hq

/-- Every file that was written is there. -/
theorem exists_file_of_mem (h : Written t writes t') (hq : q ∈ writes.map Prod.fst) :
    ∃ content, t'.node? q = some (.file content) := by
  induction h with
  | unchanged => cases hq
  | directory _ _ ih => exact ih hq
  | @file _ _ _ content _ hnode rest ih =>
    rcases List.mem_cons.mp hq with rfl | hmem
    · exact rest.exists_file ⟨content, Tree.node?_set_self hnode _⟩
    · exact ih hmem

/-- Elsewhere nothing happens, but for directories that are made. -/
theorem node?_of_not_mem (h : Written t writes t') (hq : q ∉ writes.map Prod.fst) :
    t'.node? q = t.node? q ∨ t.node? q = none ∧ t'.node? q = some .directory := by
  induction h with
  | unchanged => exact .inl rfl
  | @directory _ _ place _ hnode rest ih =>
    have hplace := Tree.not_directory_of_none hnode
    by_cases heq : q = place
    · subst heq
      exact .inr ⟨hnode, rest.node?_directory (Tree.node?_set_self hplace _)⟩
    · rw [← Tree.node?_set_of_ne hplace .directory heq]
      exact ih hq
  | @file _ _ _ content _ hnode _ ih =>
    rw [List.map_cons, List.mem_cons, not_or] at hq
    rw [← Tree.node?_set_of_ne hnode (.file content) hq.1]
    exact ih hq.2

/-- A file holds what was written to it last. -/
theorem node?_of_last {content : ByteArray} {earlier later : List (Place × ByteArray)}
    (h : Written t writes t') (hwrites : writes = earlier ++ (q, content) :: later)
    (hlater : q ∉ later.map Prod.fst) : t'.node? q = some (.file content) := by
  induction h generalizing earlier with
  | unchanged => exact absurd hwrites.symm (by simp)
  | directory _ _ ih => exact ih hwrites
  | file hnode rest ih =>
    cases earlier with
    | cons first earlier => exact ih (List.cons.inj hwrites).2
    | nil =>
      obtain ⟨hfirst, rfl⟩ := List.cons.inj hwrites
      cases hfirst
      have hself := Tree.node?_set_self hnode (.file content)
      rcases rest.node?_of_not_mem hlater with hsame | ⟨hnone, -⟩
      · rw [hsame, hself]
      · rw [hself] at hnone
        cases hnone

/-! ### Paths -/

theorem step_eq_ok (h : Written t writes t') {name : String} (hstep : t.step place name = .ok q) :
    t'.step place name = .ok q := by
  unfold Tree.step at hstep ⊢
  split at hstep
  · cases hstep
  · cases hstep
  · next hnode =>
    rw [h.node?_directory hnode]
    exact hstep

theorem follow_eq_ok (h : Written t writes t') {names : List String}
    (hfollow : t.follow place names = .ok q) : t'.follow place names = .ok q := by
  induction names generalizing place with
  | nil => exact hfollow
  | cons name rest ih =>
    unfold Tree.follow at hfollow ⊢
    split at hfollow
    · next next hnext =>
      rw [h.step_eq_ok hnext]
      exact ih hfollow
    · cases hfollow

/-- What can be reached stays where it is. -/
theorem locate_eq_ok (h : Written t writes t') (hlocate : t.locate p = .ok q) :
    t'.locate p = .ok q := by
  unfold Tree.locate at hlocate ⊢
  split at hlocate
  · cases hlocate
  · next hempty =>
    split at hlocate
    · cases hlocate
    · next hlong =>
      rw [if_neg hempty, if_neg hlong]
      exact h.follow_eq_ok hlocate

end Written

/-! ## Operations -/

namespace Tree

variable {t t' : Tree} {place q : Place} {p : Path}

theorem follow_cons (name : String) (rest : List String) :
    t.follow place (name :: rest) = t.step place name >>= fun next => t.follow next rest := by
  conv => lhs; unfold follow
  cases t.step place name <;> rfl

theorem follow_singleton (name : String) : t.follow place [name] = t.step place name := by
  rw [follow_cons]
  cases t.step place name <;> rfl

theorem follow_append (first second : List String) :
    t.follow place (first ++ second)
      = t.follow place first >>= fun next => t.follow next second := by
  induction first generalizing place with
  | nil => rfl
  | cons name rest ih =>
    rw [List.cons_append, follow_cons, follow_cons]
    cases t.step place name with
    | error cause => rfl
    | ok next => exact ih

theorem pieces_ne_nil (p : Path) : p.pieces ≠ [] := by
  unfold Path.pieces
  rw [Text.pieces_eq_splitOn]
  exact mt List.map_eq_nil_iff.mp (List.splitOn_ne_nil _ _)

theorem eq_of_length_dropTrailing_le {xs : List String} {blank : String → Bool}
    (h : xs.length ≤ (xs.reverse.dropWhile blank).reverse.length) :
    (xs.reverse.dropWhile blank).reverse = xs := by
  have hsuffix := List.dropWhile_suffix blank (l := xs.reverse)
  rw [hsuffix.eq_of_length_le (by simpa using h), List.reverse_reverse]

/-- A path without slashes behind its last name leads to that name in the target's directory. -/
theorem locate_of_target {target : Target} (h : t.target p = .ok target)
    (hslash : target.slash = false) : t.locate p = t.step target.directory target.name := by
  unfold Tree.target at h
  unfold Tree.locate
  split at h
  · cases h
  · next hempty =>
    split at h
    · cases h
    · next hlong =>
      rw [if_neg hempty, if_neg hlong]
      simp only at h
      split at h
      · cases h
      · next directory hdirectory =>
        cases h
        -- no slash at the end, so the target has dropped no names
        have hnamed := eq_of_length_dropTrailing_le (Nat.le_of_not_lt (of_decide_eq_false hslash))
        have hne := pieces_ne_nil p
        rw [hnamed] at hdirectory
        simp only [hnamed, List.getLast?_eq_some_getLast hne, Option.getD_some]
        conv => lhs; rw [← List.dropLast_concat_getLast hne]
        rw [follow_append, hdirectory]
        exact follow_singleton _

/-- Writing puts a file where the path leads. -/
theorem write_eq_ok {content : ByteArray} (h : t.write p content = .ok t') :
    ∃ place, t.locate p = .ok place ∧ t.node? place ≠ some .directory ∧
      t' = t.set place (.file content) := by
  unfold write at h
  split at h
  · cases h
  · next target htarget =>
    split at h
    · cases h
    · next place hplace =>
      split at h
      · cases h
      · next hname =>
        rw [Bool.or_eq_true, Bool.or_eq_true, not_or, not_or, Bool.not_eq_true] at hname
        have hlocate := locate_of_target htarget hname.1.1
        split at h
        · cases h
        · next hnode =>
          cases h
          exact ⟨place, hlocate.trans hplace, hnode, rfl⟩

theorem makeDirectory_written (h : t.makeDirectory p = .ok t') : Written t [] t' := by
  unfold makeDirectory at h
  split at h
  · cases h
  · split at h
    · cases h
    · split at h
      · cases h
      · next hnode =>
        cases h
        exact .directory hnode (.unchanged _)

/-- Making directories makes directories only, also when it fails. -/
theorem ensureDirectory_written (t : Tree) (paths : List Path) :
    Written t [] (t.ensureDirectory paths).2 := by
  induction paths generalizing t with
  | nil => exact .unchanged t
  | cons p parents ih =>
    unfold ensureDirectory
    split
    · next hmade => exact makeDirectory_written hmade
    · split
      · next heq =>
        have hparents := ih t
        rw [heq] at hparents
        exact hparents
      · next heq =>
        have hparents := ih t
        rw [heq] at hparents
        -- the parents are there now, and the directory itself is tried again
        split
        · next hmade => exact hparents.trans (makeDirectory_written hmade)
        · simp only
          split <;> exact hparents
    · simp only
      split <;> exact .unchanged t

end Tree

end FluidAnalysis.Files
