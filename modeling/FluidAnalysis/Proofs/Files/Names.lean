import Mathlib
import FluidAnalysis.Proofs.Files.Changes
import FluidAnalysis.Proofs.Traversal

/-!
# Names at the end of a path

What a path says about the place it leads to. The names behind its last slashes are the last names
of the place, whatever stands before them.

* `Path.join_append`, `Path.join_of_slashless` — what joining does to the end of a path
* `Tree.exists_locate_plain` — the end of a place is the end of its path
* `Tree.locate_join_inj` — files of one directory are told apart by their names
-/

namespace FluidAnalysis

/-! ## Pieces of a path -/

namespace Files

namespace Path

theorem pieces_append (p q : Path) : (p ++ "/" ++ q : Path).pieces = p.pieces ++ q.pieces := by
  have htext : (p ++ "/" ++ q : Path).toList = p.toList ++ '/' :: q.toList := by simp
  unfold pieces
  rw [htext, Text.pieces_eq_splitOn, Text.pieces_eq_splitOn, Text.pieces_eq_splitOn,
    List.splitOn_append_cons_self, List.map_append]

theorem pieces_of_not_mem {p : Path} (h : '/' ∉ p.toList) : p.pieces = [p] := by
  unfold pieces
  rw [Text.pieces_eq_splitOn, List.splitOn_eq_singleton h]
  simp

theorem isAbsolute_append {x : Path} (hx : x ≠ "") (y : Path) :
    isAbsolute (x ++ y) = isAbsolute x := by
  unfold isAbsolute
  rw [String.toList_append, List.head?_append_of_ne_nil _ (by simpa using hx)]

/-- What a path goes on with does not change how it is joined. -/
theorem join_append (root : Path) {x : Path} (hx : x ≠ "") (y : Path) :
    root.join (x ++ y) = root.join x ++ y := by
  unfold join
  rw [isAbsolute_append hx]
  split
  · rfl
  · split <;> simp [String.append_assoc]

theorem getLast?_join (root : Path) {x : Path} {c : Char} (h : x.toList.getLast? = some c) :
    (root.join x).toList.getLast? = some c := by
  unfold join
  split
  · exact h
  · split <;> simp [List.getLast?_cons, h]

theorem isAbsolute_of_not_mem {p : Path} (h : '/' ∉ p.toList) : p.isAbsolute = false := by
  by_contra habsolute
  have hhead : p.toList.head? = some '/' := by simpa [isAbsolute] using habsolute
  exact h (List.mem_of_head? hhead)

theorem join_of_slashless {directory : Path} {c : Char} (hlast : directory.toList.getLast? = some c)
    (hc : c ≠ '/') {x : Path} (hx : x.isAbsolute = false) :
    directory.join x = directory ++ "/" ++ x := by
  have hempty : directory.isEmpty = false := by
    by_contra h
    simp_all
  simp [join, hx, hempty, hlast, hc]

/-- A name that is joined to a path is its last piece. -/
theorem exists_pieces_join (root : Path) {name : Path} (h : '/' ∉ name.toList) :
    ∃ first, (root.join name).pieces = first ++ [name] := by
  have hname := pieces_of_not_mem h
  unfold join
  rw [isAbsolute_of_not_mem h, Bool.false_or]
  split
  · exact ⟨[], hname⟩
  · split
    · next hslash =>
      obtain ⟨rest, hrest⟩ := List.getLast?_eq_some_iff.mp (eq_of_beq hslash)
      have hroot : root = String.ofList rest ++ "/" := by
        rw [← String.toList_inj, hrest]
        simp
      exact ⟨_, by rw [hroot, pieces_append, hname]⟩
    · exact ⟨_, by rw [pieces_append, hname]⟩

theorem slash_not_mem_of_fileName? {p name : Path} (h : p.fileName? = some name) :
    '/' ∉ name.toList := by
  have hpieces : ∀ piece ∈ p.pieces, '/' ∉ piece.toList := by
    intro piece hpiece
    obtain ⟨text, htext, rfl⟩ := List.mem_map.mp hpiece
    rw [String.toList_ofList]
    exact Text.not_mem_of_mem_pieces htext
  unfold fileName? at h
  cases hsteps : p.stepsFromEnd with
  | nil =>
    rw [hsteps] at h
    cases h
  | cons step rest =>
    rw [hsteps] at h
    have hstep : step ∈ p.stepsFromEnd := by
      rw [hsteps]
      exact List.mem_cons_self
    unfold stepsFromEnd at hstep
    obtain ⟨⟨piece, i⟩, hpiece, rfl⟩ :=
      List.mem_map.mp (List.mem_filter.mp (List.mem_reverse.mp hstep)).1
    dsimp only at h
    split at h
    · cases h
    · cases h
      exact hpieces _ (List.fst_mem_of_mem_zipIdx hpiece)

/-- A piece that leads somewhere. -/
def isName (piece : String) : Bool :=
  piece != "" && piece != "."

end Path

/-- A name that leads into a directory, and not back to it or out of it. -/
def IsPlainName (name : String) : Prop :=
  name ≠ "" ∧ name ≠ "." ∧ name ≠ ".."

theorem isPlainName_of_lt_length {name : String} (h : 2 < name.length) : IsPlainName name := by
  refine ⟨?_, ?_, ?_⟩
  · rintro rfl
    exact absurd h (by decide)
  · rintro rfl
    exact absurd h (by decide)
  · rintro rfl
    exact absurd h (by decide)

theorem isPlainName_of_mem {name : String} {c : Char} (hc : c ∈ name.toList) (hdot : c ≠ '.') :
    IsPlainName name := by
  refine ⟨?_, ?_, ?_⟩ <;>
  · rintro rfl
    simp [hdot] at hc

theorem IsPlainName.isName {name : String} (h : IsPlainName name) : Path.isName name = true := by
  simp [Path.isName, h.1, h.2.1]

/-- Pieces that do not lead back lead to the names among them. -/
theorem Tree.follow_names {t : Tree} {names : List String} (hdots : ".." ∉ names) {place q : Place}
    (h : t.follow place names = .ok q) : q = place ++ names.filter Path.isName := by
  induction names generalizing place with
  | nil =>
    cases h
    simp
  | cons name rest ih =>
    rw [Tree.follow_cons] at h
    obtain ⟨next, hnext, h⟩ := bind_eq_ok_iff.mp h
    rw [List.mem_cons, not_or] at hdots
    have hstep : next = place ++ [name].filter Path.isName := by
      unfold Tree.step at hnext
      split at hnext
      · cases hnext
      · cases hnext
      · split at hnext
        · next hname =>
          cases hnext
          rcases Bool.or_eq_true_iff.mp hname with hname | hname
          · simp [Path.isName, eq_of_beq hname]
          · simp [Path.isName, eq_of_beq hname]
        · next hname =>
          have hkept : Path.isName name = true := by simpa [Path.isName] using hname
          rw [if_neg (by simpa using Ne.symm hdots.1)] at hnext
          split at hnext
          · cases hnext
          · cases hnext
            simp [hkept]
    rw [ih hdots.2 h, hstep, List.append_assoc, ← List.filter_append, List.singleton_append]

theorem Tree.follow_of_locate {t : Tree} {p : Path} {q : Place} (h : t.locate p = .ok q) :
    t.follow (start p) p.pieces = .ok q := by
  unfold Tree.locate at h
  split at h
  · cases h
  · split at h
    · cases h
    · exact h

/-- A path leads to its last names, if they are plain. -/
theorem Tree.exists_locate_plain {t : Tree} {p : Path} {first names : List String} {q : Place}
    (hpieces : p.pieces = first ++ names) (hnames : ∀ name ∈ names, IsPlainName name)
    (h : t.locate p = .ok q) : ∃ home, q = home ++ names := by
  have h := Tree.follow_of_locate h
  rw [hpieces, Tree.follow_append] at h
  obtain ⟨home, -, h⟩ := bind_eq_ok_iff.mp h
  have hdots : ".." ∉ names := fun hmem => (hnames _ hmem).2.2 rfl
  have hself := List.filter_eq_self.mpr fun name hname => (hnames name hname).isName
  exact ⟨home, hself ▸ Tree.follow_names hdots h⟩

/-- Two plain names behind one path lead to different places. -/
theorem Tree.locate_join_inj {t : Tree} {root : Path} {m n : String} {q : Place}
    (hm : '/' ∉ m.toList) (hn : '/' ∉ n.toList) (hm' : IsPlainName m) (hn' : IsPlainName n)
    (h : t.locate (root.join m) = .ok q) (h' : t.locate (root.join n) = .ok q) : m = n := by
  obtain ⟨first, hpieces⟩ := Path.exists_pieces_join root hm
  obtain ⟨other, hpieces'⟩ := Path.exists_pieces_join root hn
  obtain ⟨home, hq⟩ := Tree.exists_locate_plain hpieces (by simpa using hm') h
  obtain ⟨home', hq'⟩ := Tree.exists_locate_plain hpieces' (by simpa using hn') h'
  simpa using List.append_inj_right' (hq.symm.trans hq') rfl

end Files

end FluidAnalysis
