import FluidAnalysis.Decimal.Binary

/-!
# Rounding to decimal digits

A positive fraction `num / den` is rounded exactly, either to a whole number or to a number of
significant digits. A half goes to the even neighbour.
-/

namespace FluidAnalysis.Decimal

/-- The whole number nearest to `num / den`; a half goes to the even neighbour. -/
def roundHalfEven (num den : Nat) : Nat :=
  let quotient := num / den
  let twice := 2 * (num % den)
  if twice < den then quotient
  else if den < twice then quotient + 1
  else if quotient % 2 == 0 then quotient
  else quotient + 1

/-- The fraction `num / den` times `10 ^ k`. -/
def scaleByTen (num den : Nat) (k : Int) : Nat × Nat :=
  if 0 ≤ k then (num * Nat.pow 10 k.toNat, den) else (num, den * Nat.pow 10 (-k).toNat)

/-- The decimal digits of a natural number. -/
def digits (n : Nat) : List Char :=
  Nat.toDigits 10 n

/-- The exponent `x` with `10 ^ x ≤ num / den < 10 ^ (x + 1)`. The lengths of the two numbers leave
only two candidates. -/
def leadingExponent (num den : Nat) : Int :=
  let candidate : Int := (digits num).length - (digits den).length
  let (n, d) := scaleByTen num den (-candidate)
  if d ≤ n then candidate else candidate - 1

/-- A number written as `digits · 10 ^ (exponent - count + 1)`, with `count` digits of which the
first is not zero. -/
structure Significant where
  digits : Nat
  exponent : Int
deriving Repr, DecidableEq

/-- A positive fraction rounded to `count ≥ 1` significant digits. When the rounding carries into
the next power of ten the digits start again from `100…`. -/
def toSignificant (count num den : Nat) : Significant :=
  let x := leadingExponent num den
  let (n, d) := scaleByTen num den ((count : Int) - 1 - x)
  let q := roundHalfEven n d
  if q == Nat.pow 10 count then ⟨Nat.pow 10 (count - 1), x + 1⟩ else ⟨q, x⟩

end FluidAnalysis.Decimal
