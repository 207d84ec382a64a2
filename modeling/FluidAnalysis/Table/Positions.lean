import FluidAnalysis.Failure

/-!
# Positions

Reading and changing a list at a position. A position outside the list is a failure, so that a
computation which never fails in this way has stayed inside its data.
-/

namespace FluidAnalysis

variable {α : Type}

/-- The value at position `i`. -/
def entryAt (values : List α) (i : Nat) : Except Failure α :=
  match values[i]? with
  | some value => .ok value
  | none => .error (.outOfRange i values.length)

/-- The list with `value` at position `i`. -/
def withEntry (values : List α) (i : Nat) (value : α) : Except Failure (List α) :=
  if i < values.length then .ok (values.set i value)
  else .error (.outOfRange i values.length)

/-- The values from position `first` to position `last`. -/
def entriesFrom (values : List α) (first last : Nat) : Except Failure (List α) :=
  if first ≤ last + 1 ∧ last < values.length then .ok ((values.take (last + 1)).drop first)
  else .error (.outOfRange last values.length)

theorem entryAt_eq_ok_iff {values : List α} {i : Nat} {value : α} :
    entryAt values i = .ok value ↔ values[i]? = some value := by
  unfold entryAt
  split <;> simp_all

theorem entryAt_eq_ok {values : List α} {i : Nat} (h : i < values.length) :
    entryAt values i = .ok values[i] :=
  entryAt_eq_ok_iff.mpr (List.getElem?_eq_getElem h)

theorem withEntry_eq_ok {values : List α} {i : Nat} (h : i < values.length) (value : α) :
    withEntry values i value = .ok (values.set i value) :=
  if_pos h

theorem entriesFrom_eq_ok {values : List α} {first last : Nat} (horder : first ≤ last + 1)
    (hlast : last < values.length) :
    entriesFrom values first last = .ok ((values.take (last + 1)).drop first) :=
  if_pos ⟨horder, hlast⟩

end FluidAnalysis
