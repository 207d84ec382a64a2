import Mathlib
import FluidAnalysis.Proofs.Files.Names

/-!
# Components of a path

Paths are compared by their components and not by their texts. A slash that is repeated or stands at
the end makes no difference, nor does a dot behind a slash. The texts that are put behind one
beginning are compared by how they continue it: by the rest of its last name, and by the names
behind that.

* `Path.components_append_inj` — when two texts behind one beginning make the same path
* `Path.continuation_append_name` — how a name at the end of a text continues a path
* `Tree.locate_append_inj` — what two texts have in common if they lead to one place
-/

namespace FluidAnalysis.Files

namespace Path

/-! ## Names among the pieces -/

/-- The first piece, and the names among those behind it. -/
def headed : List String → List String
  | [] => []
  | first :: rest => first :: rest.filter isName

theorem headed_append_of_ne_nil {first : List String} (h : first ≠ []) (rest : List String) :
    headed (first ++ rest) = headed first ++ rest.filter isName := by
  cases first with
  | nil => exact absurd rfl h
  | cons piece others => simp [headed]

theorem headed_append_name (first : List String) {name : String} (h : isName name = true)
    (rest : List String) :
    headed (first ++ name :: rest) = headed first ++ name :: rest.filter isName := by
  cases first with
  | nil => rfl
  | cons piece others => simp [headed, h]

theorem headed_append_congr {first second : List String} (h : headed first = headed second)
    (rest : List String) : headed (first ++ rest) = headed (second ++ rest) := by
  cases first with
  | nil =>
    cases second with
    | nil => rfl
    | cons piece others => cases h
  | cons piece others =>
    cases second with
    | nil => cases h
    | cons piece' others' =>
      rw [headed_append_of_ne_nil (by simp), h, headed_append_of_ne_nil (by simp)]

/-! ## Components -/

/-- What a path is compared by: the root, if it starts there, and its steps. -/
def components (p : Path) : List String :=
  (if p.isAbsolute then ["/"] else []) ++ p.stepsFromEnd.reverse.map Prod.snd

theorem isStep_zero (piece : String) : isStep 0 piece = decide (piece ≠ "") := by
  rw [Bool.eq_iff_iff]
  by_cases hdot : piece = "."
  · simp [isStep, hdot]
  · simp [isStep, hdot]

theorem isStep_succ (n : Nat) (piece : String) : isStep (n + 1) piece = isName piece := by
  rw [Bool.eq_iff_iff]
  by_cases hdot : piece = "."
  · simp [isStep, isName, hdot]
  · simp [isStep, isName, hdot]

theorem filter_filter_isName (pieces : List String) :
    (pieces.filter isName).filter (· ≠ "") = pieces.filter isName := by
  refine List.filter_eq_self.mpr fun name hname => ?_
  have hname := (List.mem_filter.mp hname).2
  simp_all [isName]

/-- Behind the first piece the steps are the names. -/
theorem steps_zipIdx (pieces : List String) (n : Nat) :
    (((pieces.zipIdx (n + 1)).map fun (piece, i) => (i, piece)).filter fun (i, piece) =>
      isStep i piece).map Prod.snd = pieces.filter isName := by
  induction pieces generalizing n with
  | nil => rfl
  | cons piece rest ih =>
    rw [List.zipIdx_cons, List.map_cons, List.filter_cons, List.filter_cons]
    simp only [isStep_succ]
    split
    · rw [List.map_cons, ih]
    · exact ih _

theorem components_eq (p : Path) : p.components
    = (if p.isAbsolute then ["/"] else []) ++ (headed p.pieces).filter (· ≠ "") := by
  unfold components stepsFromEnd
  rw [List.reverse_reverse]
  congr 1
  cases p.pieces with
  | nil => rfl
  | cons first rest =>
    rw [List.zipIdx_cons, List.map_cons, List.filter_cons, headed, List.filter_cons,
      filter_filter_isName]
    simp only [isStep_zero]
    split
    · rw [List.map_cons, steps_zipIdx]
    · exact steps_zipIdx rest 0

/-! ## Texts behind a beginning -/

theorem pieces_append_of {p : Path} {first : List String} {last : String}
    (h : p.pieces = first ++ [last]) (x : String) :
    (p ++ x : Path).pieces = first ++ (pieces x).modifyHead (last ++ ·) := by
  obtain ⟨before, ends, hpieces, rfl, hends⟩ := List.map_eq_append_iff.mp h
  obtain ⟨other, rfl, rfl⟩ := List.map_eq_singleton_iff.mp hends
  have hmap (texts : List (List Char)) : (texts.modifyHead (other ++ ·)).map String.ofList
      = (texts.map String.ofList).modifyHead (String.ofList other ++ ·) := by
    cases texts <;> simp
  unfold pieces
  rw [String.toList_append, Text.pieces_append hpieces, List.map_append, hmap]

/-- How a text continues a path that ends in a name: the rest of that name, and the names behind
it. -/
def continuation (x : String) : List String :=
  headed (pieces x)

example : continuation "a" = continuation "a//" ∧ continuation "a/b" = continuation "a/./b/" := by
  decide

/-- The names before the last slash of a text. -/
def enclosing (x : String) : List String :=
  headed (pieces x).dropLast

/-- The text behind the last slash. -/
def ending (x : String) : String :=
  (pieces x).getLast (Tree.pieces_ne_nil x)

theorem pieces_eq_ending (x : String) : pieces x = (pieces x).dropLast ++ [ending x] :=
  (List.dropLast_concat_getLast _).symm

/-- A path that ends inside a name, whatever is put behind it. -/
def EndsInName (p : Path) : Prop :=
  ∃ c, p.toList.getLast? = some c ∧ c ≠ '/' ∧ c ≠ '.'

/-- A text that makes a name of whatever it is put behind. -/
structure CompletesName (s : String) : Prop where
  slashless : '/' ∉ s.toList
  hasLetter : ∃ c ∈ s.toList, c ≠ '.'

variable {p : Path} {x y s : String}

theorem EndsInName.ne_empty (h : p.EndsInName) : p ≠ "" := by
  rintro rfl
  obtain ⟨c, hlast, -⟩ := h
  cases hlast

theorem EndsInName.join (h : p.EndsInName) (root : Path) : (root.join p).EndsInName := by
  obtain ⟨c, hlast, hname⟩ := h
  exact ⟨c, getLast?_join root hlast, hname⟩

theorem CompletesName.isPlainName (h : CompletesName s) (x : String) : IsPlainName (x ++ s) := by
  obtain ⟨c, hc, hdot⟩ := h.hasLetter
  exact isPlainName_of_mem (by simp [hc]) hdot

theorem mem_of_mem_headed {pieces : List String} {name : String} (h : name ∈ headed pieces) :
    name ∈ pieces := by
  cases pieces with
  | nil => exact h
  | cons first rest => exact List.cons_subset_cons _ (List.filter_subset_self _) h

theorem continuation_append_slash (x y : String) :
    continuation (x ++ "/" ++ y) = continuation x ++ (pieces y).filter isName := by
  unfold continuation
  rw [pieces_append, headed_append_of_ne_nil (Tree.pieces_ne_nil x)]

theorem continuation_slash (x : String) : continuation (x ++ "/") = continuation x := by
  have h := continuation_append_slash x ""
  rwa [String.append_empty, show (pieces "").filter isName = [] by decide, List.append_nil] at h

theorem enclosing_append_slash (x y : String) : enclosing (x ++ "/" ++ y)
    = continuation x ++ (pieces y).dropLast.filter isName := by
  unfold enclosing continuation
  rw [pieces_append, List.dropLast_append_of_ne_nil (Tree.pieces_ne_nil y),
    headed_append_of_ne_nil (Tree.pieces_ne_nil x)]

theorem ending_append_slash (x y : String) : ending (x ++ "/" ++ y) = ending y := by
  unfold ending
  simp only [pieces_append]
  exact List.getLast_append_of_ne_nil _ (Tree.pieces_ne_nil y)

/-- A file in a directory adds its names, whether the directory has a slash at its end or not. -/
theorem exists_join_append (h : p.EndsInName) (x : String) {file : Path}
    (hfile : file.isAbsolute = false) : ∃ text, Path.join (p ++ x) file = p ++ text ∧
      continuation text = continuation x ++ (pieces file).filter isName := by
  have hempty : (p ++ x : Path).isEmpty = false := by
    have hp := h.ne_empty
    simp_all
  obtain ⟨c, hlast, hslash, -⟩ := h
  unfold Path.join
  rw [hfile, hempty, Bool.false_or, if_neg Bool.false_ne_true]
  split
  · next hend =>
    -- the slash at the end is one of the text, because the beginning has none there
    obtain ⟨rest, rfl⟩ : ∃ rest : String, x = rest ++ "/" := by
      rw [String.toList_append, List.getLast?_append, hlast] at hend
      obtain ⟨rest, hrest⟩ : ∃ rest, x.toList = rest ++ ['/'] := by
        refine List.getLast?_eq_some_iff.mp ?_
        cases hx : x.toList.getLast? with
        | none => simp_all
        | some d => simpa [hx] using hend
      exact ⟨String.ofList rest, by rw [← String.toList_inj, hrest]; simp⟩
    refine ⟨rest ++ "/" ++ file, by rw [String.append_assoc], ?_⟩
    rw [continuation_append_slash, continuation_slash]
  · refine ⟨x ++ "/" ++ file, by simp only [String.append_assoc], continuation_append_slash x file⟩

theorem continuation_append_name (x : String) (hs : CompletesName s) :
    continuation (x ++ s) = enclosing x ++ [ending x ++ s] := by
  unfold continuation
  rw [pieces_append_of (pieces_eq_ending x), pieces_of_not_mem hs.slashless]
  exact headed_append_name _ (hs.isPlainName _).isName []

/-- Texts that continue a path alike with a name behind them do so without it. -/
theorem continuation_of_append_name (hs : CompletesName s)
    (h : continuation (x ++ s) = continuation (y ++ s)) : continuation x = continuation y := by
  rw [continuation_append_name x hs, continuation_append_name y hs] at h
  obtain ⟨henclosing, hending⟩ := List.append_inj' h rfl
  have hending : ending x = ending y := by simpa using hending
  unfold continuation
  rw [pieces_eq_ending x, pieces_eq_ending y, hending]
  exact headed_append_congr henclosing _

theorem continuation_append_name_ne (x : String) (hs : CompletesName s) :
    continuation (x ++ s) ≠ continuation x := by
  intro h
  rw [continuation_append_name x hs] at h
  have hmem : ending x ++ s ∈ [ending x] := by
    unfold continuation enclosing at h
    rw [pieces_eq_ending x, List.dropLast_concat] at h
    cases hfirst : (pieces x).dropLast with
    | nil =>
      rw [hfirst] at h
      simp [headed] at h
      simp [h]
    | cons piece rest =>
      rw [hfirst, headed_append_of_ne_nil (by simp)] at h
      exact List.mem_of_mem_filter (List.append_cancel_left h ▸ List.mem_singleton_self _)
  obtain ⟨c, hc, -⟩ := hs.hasLetter
  have hempty : s = "" := by simpa using hmem
  simp [hempty] at hc

theorem EndsInName.exists_pieces (h : p.EndsInName) :
    ∃ first last, p.pieces = first ++ [last] ∧ ∃ c ∈ last.toList, c ≠ '.' := by
  obtain ⟨c, hlast, hslash, hdot⟩ := h
  obtain ⟨rest, hrest⟩ := List.getLast?_eq_some_iff.mp hlast
  have hp : p = String.ofList rest ++ String.singleton c := by
    rw [← String.toList_inj, hrest]
    simp
  have hend : pieces (String.singleton c) = [String.singleton c] :=
    pieces_of_not_mem (by simpa using hslash.symm)
  have hpieces := pieces_append_of (pieces_eq_ending (String.ofList rest)) (String.singleton c)
  rw [← hp, hend] at hpieces
  exact ⟨_, _, hpieces, c, by simp, hdot⟩

/-- The pieces of a path and a text behind it: the name at the end of the path goes on. -/
theorem EndsInName.exists_pieces_append (h : p.EndsInName) : ∃ first last, ∀ x, ∃ name rest,
    (p ++ x : Path).pieces = first ++ name :: rest ∧ IsPlainName name ∧
    (continuation x).modifyHead (last ++ ·) = name :: rest.filter isName ∧
    (continuation x).tail = rest.filter isName := by
  obtain ⟨first, last, hpieces, c, hc, hdot⟩ := h.exists_pieces
  refine ⟨first, last, fun x => ?_⟩
  obtain ⟨piece, rest, hx⟩ := List.exists_cons_of_ne_nil (Tree.pieces_ne_nil x)
  refine ⟨last ++ piece, rest, ?_, isPlainName_of_mem (by simp [hc]) hdot, ?_, ?_⟩
  · rw [pieces_append_of hpieces, hx, List.modifyHead_cons]
  · rw [continuation, hx, headed, List.modifyHead_cons]
  · rw [continuation, hx, headed, List.tail_cons]

theorem modifyHead_append_inj {l : String} {xs ys : List String}
    (h : xs.modifyHead (l ++ ·) = ys.modifyHead (l ++ ·)) : xs = ys := by
  cases xs with
  | nil => cases ys with
    | nil => rfl
    | cons y ys => cases h
  | cons x xs => cases ys with
    | nil => cases h
    | cons y ys => simpa using h

/-- **Two texts behind one beginning make the same path exactly if they continue it alike.** -/
theorem components_append_inj (h : p.EndsInName) :
    (p ++ x : Path).components = (p ++ y : Path).components ↔ continuation x = continuation y := by
  obtain ⟨first, last, hshape⟩ := h.exists_pieces_append
  have hcomponents (x : String) : (p ++ x : Path).components =
      ((if p.isAbsolute then ["/"] else []) ++ (headed first).filter (· ≠ "")) ++
        (continuation x).modifyHead (last ++ ·) := by
    obtain ⟨name, rest, hpieces, hname, hcontinuation, -⟩ := hshape x
    rw [components_eq, isAbsolute_append h.ne_empty, hpieces,
      headed_append_name _ hname.isName, List.filter_append,
      List.filter_cons_of_pos (by simpa using hname.1), filter_filter_isName, hcontinuation,
      List.append_assoc]
  rw [hcomponents, hcomponents, List.append_right_inj]
  exact ⟨modifyHead_append_inj, fun h => by rw [h]⟩

end Path

/-- Texts behind one beginning that lead to one place continue it alike, if neither leads back. -/
theorem Tree.locate_append_inj {t : Tree} {p : Path} {x y : String} {q : Place}
    (hp : p.EndsInName) (hx : ".." ∉ (Path.continuation x).tail)
    (hy : ".." ∉ (Path.continuation y).tail)
    (h : t.locate (p ++ x) = .ok q) (h' : t.locate (p ++ y) = .ok q) :
    Path.continuation x = Path.continuation y := by
  obtain ⟨first, last, hshape⟩ := hp.exists_pieces_append
  have hstart (x : String) : start (p ++ x) = start p := by
    rw [start, Path.isAbsolute_append hp.ne_empty]
    rfl
  have hplace {x : String} (hx : ".." ∉ (Path.continuation x).tail)
      (h : t.locate (p ++ x) = .ok q) : ∃ home, t.follow (start p) first = .ok home ∧
        q = home ++ (Path.continuation x).modifyHead (last ++ ·) := by
    obtain ⟨name, rest, hpieces, hname, hcontinuation, htail⟩ := hshape x
    have h := Tree.follow_of_locate h
    rw [hstart, hpieces, Tree.follow_append] at h
    obtain ⟨home, hhome, h⟩ := bind_eq_ok_iff.mp h
    have hdots : ".." ∉ name :: rest := by
      rw [List.mem_cons, not_or]
      refine ⟨hname.2.2.symm, fun hmem => hx ?_⟩
      rw [htail]
      exact List.mem_filter.mpr ⟨hmem, by decide⟩
    refine ⟨home, hhome, ?_⟩
    rw [Tree.follow_names hdots h, List.filter_cons_of_pos hname.isName, hcontinuation]
  obtain ⟨home, hhome, hq⟩ := hplace hx h
  obtain ⟨home', hhome', hq'⟩ := hplace hy h'
  cases hhome.symm.trans hhome'
  exact Path.modifyHead_append_inj (List.append_cancel_left (hq.symm.trans hq'))

end FluidAnalysis.Files
