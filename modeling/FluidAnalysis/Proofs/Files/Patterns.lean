import Mathlib
import FluidAnalysis.Files.Pattern

/-!
# Names that match a pattern

Only brackets, braces and backslashes take several characters of a pattern together. A text without
them is read character by character, as one branch-free pattern, and every character of it stands
at least for itself: a question mark takes a question mark, and a star takes a star.

* `read_plain` — how a plain text is read
* `exists_isMatch_between` — two plain texts with a star between them take every name that starts
  with the one and goes on to end with the other
-/

namespace FluidAnalysis.Files.Pattern

/-! ## Bytes of a name -/

theorem toList_loop (bytes : ByteArray) (i : ℕ) (read : List UInt8) :
    ByteArray.toList.loop bytes i read = read.reverse ++ bytes.data.toList.drop i := by
  fun_induction ByteArray.toList.loop bytes i read with
  | case1 i read h ih =>
    have hi : i < bytes.data.toList.length := by simpa using h
    have hget : bytes.get! i = bytes.data.toList[i] := by
      simp [ByteArray.get!, getElem!_pos, h]
    rw [ih, List.drop_eq_getElem_cons hi, hget]
    simp
  | case2 i read h =>
    have hi : bytes.data.toList.length ≤ i := by simpa using h
    rw [List.drop_eq_nil_of_le hi, List.append_nil]

theorem toUTF8_toList (name : String) :
    name.toUTF8.toList = name.toList.flatMap String.utf8EncodeChar := by
  have hbytes : name.toUTF8 = name.toList.utf8Encode := by
    rw [String.toUTF8, ← String.toByteArray_ofList, String.ofList_toList]
  rw [hbytes, List.utf8Encode, ByteArray.toList, toList_loop, List.toList_data_toByteArray]
  simp

theorem charBytes_eq (c : Char) : charBytes c = String.utf8EncodeChar c := by
  rw [charBytes, toUTF8_toList]
  simp

/-! ## Fitting -/

/-- A run of any length may be empty. -/
theorem fits_rest {atoms : List Atom} {bytes : List UInt8} (h : fits atoms bytes = true) :
    fits (.rest :: atoms) bytes = true := by
  cases bytes with
  | nil => rwa [fits]
  | cons b bytes => rw [fits, h, Bool.true_or]

/-- What fits two readings one after the other fits both together. -/
theorem fits_append {first second : List Atom} {x y : List UInt8} (hfirst : fits first x = true)
    (hsecond : fits second y = true) : fits (first ++ second) (x ++ y) = true := by
  fun_induction fits first x with
  | case1 => exact hsecond
  | case2 => cases hfirst
  | case3 atoms ih => exact fits_rest (ih hfirst)
  | case4 atoms b bytes ihEmpty ihLonger =>
    rw [List.cons_append, List.cons_append, fits, Bool.or_eq_true_iff]
    exact (Bool.or_eq_true_iff.mp hfirst).imp ihEmpty ihLonger
  | case5 => cases hfirst
  | case6 atom atoms b bytes hatom ih =>
    obtain ⟨hadmits, hrest⟩ := Bool.and_eq_true_iff.mp hfirst
    rw [List.cons_append, List.cons_append, fits.eq_6 _ _ _ _ hatom, hadmits, ih hrest]
    rfl

theorem fits_anything (bytes : List UInt8) : fits [.rest] bytes = true := by
  induction bytes with
  | nil => simp [fits]
  | cons b bytes ih => rw [fits, ih, Bool.or_true]

theorem fits_bytes (bytes : List UInt8) : fits (bytes.map .byte) bytes = true := by
  induction bytes with
  | nil => simp [fits]
  | cons b bytes ih => simpa [fits, Atom.admits] using ih

/-! ## Plain texts -/

/-- No character opens or closes a class or a group of branches, or makes the next one literal. -/
def IsPlain (text : List Char) : Prop :=
  ∀ c ∈ text, c ∉ ['[', '\x7b', '\x7d', '\\']

theorem IsPlain.append {first second : List Char} (hfirst : IsPlain first)
    (hsecond : IsPlain second) : IsPlain (first ++ second) :=
  List.forall_mem_append.mpr ⟨hfirst, hsecond⟩

/-- What a character stands for outside of classes and escapes. -/
def charAtoms (c : Char) : List Atom :=
  if c == '?' then [.any] else if c == '*' then [.rest] else literal c

/-- A plain text is read character by character. -/
theorem readFrom_plain {text : List Char} (h : IsPlain text) (inner : Group) :
    readFrom [] inner text = .ok (inner.current.map (· ++ text.flatMap charAtoms)) := by
  induction text generalizing inner with
  | nil => simp [readFrom]
  | cons c rest ih =>
    obtain ⟨hc, hrest⟩ := List.forall_mem_cons.mp h
    have hgroup (atoms : List Atom) : (inner.add atoms).current.map (· ++ rest.flatMap charAtoms)
        = inner.current.map (· ++ (atoms ++ rest.flatMap charAtoms)) := by
      simp [Group.add]
    have hread : readFrom [] inner (c :: rest) = readFrom [] (inner.add (charAtoms c)) rest := by
      rw [readFrom.eq_def]
      simp only [List.mem_cons, List.not_mem_nil, or_false, not_or] at hc
      obtain ⟨hclass, hopen, hclose, hescape⟩ := hc
      unfold charAtoms
      by_cases hany : c = '?'
      · simp [hany]
      by_cases hrun : c = '*'
      · simp [hrun]
      -- A comma separates branches, but only inside of braces.
      by_cases hcomma : c = ','
      · simp [hcomma]
      · simp [hany, hrun, hopen, hclose, hcomma, hescape, hclass]
    rw [hread, ih hrest, hgroup, List.flatMap_cons]

theorem read_plain {text : String} (h : IsPlain text.toList) :
    read text = .ok ⟨[text.toList.flatMap charAtoms]⟩ := by
  rw [read, readFrom_plain h]
  rfl

theorem fits_charAtoms (c : Char) : fits (charAtoms c) (String.utf8EncodeChar c) = true := by
  unfold charAtoms
  split_ifs with hany hrest
  · rw [eq_of_beq hany]
    decide +kernel
  · exact fits_anything _
  · rw [literal, charBytes_eq]
    exact fits_bytes _

/-- A plain text takes itself. -/
theorem fits_self (text : List Char) :
    fits (text.flatMap charAtoms) (text.flatMap String.utf8EncodeChar) = true := by
  induction text with
  | nil => simp [fits]
  | cons c rest ih => exact fits_append (fits_charAtoms c) ih

/-- **Two plain texts with a star between them take every name that begins with the first and ends
with the second behind it.** -/
theorem exists_isMatch_between {before after : String} (hbefore : IsPlain before.toList)
    (hafter : IsPlain after.toList) :
    ∃ p, read (before ++ "*" ++ after) = .ok p ∧
      ∀ middle, p.isMatch (before ++ middle ++ after) = true := by
  have hplain : IsPlain (before ++ "*" ++ after).toList := by
    rw [String.toList_append, String.toList_append]
    exact (hbefore.append (by simp [IsPlain])).append hafter
  refine ⟨_, read_plain hplain, fun middle => ?_⟩
  have hfits := fits_append (fits_append (fits_self before.toList)
    (fits_anything (middle.toList.flatMap String.utf8EncodeChar))) (fits_self after.toList)
  simp only [isMatch, List.any_cons, List.any_nil, Bool.or_false, toUTF8_toList,
    String.toList_append, List.flatMap_append]
  exact hfits

end FluidAnalysis.Files.Pattern
