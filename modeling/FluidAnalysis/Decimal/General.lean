import FluidAnalysis.Decimal.Fixed

/-!
# General notation

The notation of derived tables: a double rounded to a number of significant digits, positional for
exponents from `-4` up to the number of digits and scientific otherwise, without trailing zeros in
the fraction.
-/

namespace FluidAnalysis.Decimal

/-- Drops the trailing zeros of a fraction, and its point when nothing is left of it. A text without
a point stays as it is. -/
def trimFraction (text : List Char) : List Char :=
  if text.contains '.' then
    ((text.reverse.dropWhile (· == '0')).dropWhile (· == '.')).reverse
  else text

/-- The digits of `n`, with a point after the first when there are more. -/
def pointAfterFirst (n : Nat) : List Char :=
  match digits n with
  | first :: second :: rest => first :: '.' :: second :: rest
  | ds => ds

/-- An exponent with its sign and at least two digits. -/
def exponentText (x : Int) : List Char :=
  (if x < 0 then '-' else '+') :: (paddedNat 2 x.natAbs).toList

/-- The magnitude of a finite number other than zero in general notation with `precision ≥ 1`
significant digits. The precision and the number of places are numbers of 32 bits with a sign, so
the precision has to stay below `2 ^ 31 - 3`. -/
def magnitudeGeneral (precision : Nat) (b : Binary) : List Char :=
  let (num, den) := b.ratio
  let rounded := toSignificant precision num den
  let x := rounded.exponent
  if x < -4 ∨ (precision : Int) ≤ x then
    trimFraction (pointAfterFirst rounded.digits) ++ 'e' :: exponentText x
  else trimFraction (magnitudeFixed ((precision : Int) - 1 - x).toNat b)

/-- A double in general notation. At least one digit is written, whatever `significant` says. -/
def general (x : Float) (significant : Nat) : String :=
  match read x with
  | .nan => "nan"
  | .infinite negative => if negative then "-inf" else "inf"
  | .finite b =>
    let sign := if b.negative then ['-'] else []
    let body := if b.mantissa == 0 then ['0'] else magnitudeGeneral (max significant 1) b
    String.ofList (sign ++ body)

end FluidAnalysis.Decimal
