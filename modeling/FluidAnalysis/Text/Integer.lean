import FluidAnalysis.Decimal.Reader

/-!
# Reading integers

Decimal integers of a fixed width: a text is refused when its value does not fit.
-/

namespace FluidAnalysis.Text

/-- One or more decimal digits and nothing else. -/
def readDigits? (text : List Char) : Option Nat :=
  if text.isEmpty || !text.all Char.isDigit then none else some (Decimal.digitsValue text)

/-- An unsigned integer below `bound`, with an optional plus. -/
def readNat? (bound : Nat) (text : String) : Option Nat :=
  let body :=
    match text.toList with
    | '+' :: rest => rest
    | chars => chars
  (readDigits? body).filter (· < bound)

/-- The first count beyond the signed integers of 64 bits. -/
def signedBound : Int := Nat.pow 2 63

/-- A signed integer of 64 bits, with an optional sign. -/
def readInt64? (text : String) : Option Int :=
  let (negative, body) := Decimal.takeSign text.toList
  let value := (readDigits? body).map fun n => if negative then -(n : Int) else (n : Int)
  value.filter fun i => decide (-signedBound ≤ i ∧ i < signedBound)

/-- The first count beyond a word of 64 bits. -/
def wordBound : Nat := Nat.pow 2 64

end FluidAnalysis.Text
