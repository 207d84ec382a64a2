import FluidAnalysis.Settings.Value

/-!
# Records in settings

A record is an object with known field names, each at most once, or the list of its members in
order.
-/

namespace FluidAnalysis.Settings

namespace Value

/-- Any number. -/
def number? : Value → Option Float
  | .integer i => some (Float.ofInt i)
  | .decimal x => some x
  | _ => none

/-- An integer from zero up to a bound. -/
def nat? (bound : Nat) : Value → Option Nat
  | .integer i => if 0 ≤ i ∧ i < bound then some i.toNat else none
  | _ => none

def text? : Value → Option String
  | .text s => some s
  | _ => none

/-- A value that may be given as null. -/
def optional? {β : Type} (decode : Value → Option β) : Value → Option (Option β)
  | .null => some none
  | v => (decode v).map some

/-- The members of a record in the order of their names, as far as they are given. A list has to be
complete, unless the record has defaults for what is missing. -/
def members? (hasDefaults : Bool) (names : List String) : Value → Option (List (Option Value))
  | .object fields =>
    let given := fields.map Prod.fst
    if given.all names.contains && decide given.Nodup then
      some (names.map fun name => fields.lookup name)
    else none
  | .array items =>
    if items.length == names.length || (hasDefaults && items.length < names.length) then
      some (items.map some ++ List.replicate (names.length - items.length) none)
    else none
  | _ => none

end Value

/-- A member with a default. -/
def memberOr {β : Type} (default : β) (decode : Value → Option β) : Option Value → Option β
  | none => some default
  | some v => decode v

end FluidAnalysis.Settings
