import FluidAnalysis.Decimal.Rounding

/-!
# Fixed places

A double with a given number of decimal places, and the same text filled up to a width. The exact
value is rounded, a half to the even neighbour, and the sign stays also on a result of zero.
-/

namespace FluidAnalysis.Decimal

/-- `n / 10 ^ places` in positional notation, with at least one digit before the point. -/
def withPoint (n places : Nat) : List Char :=
  let ds := digits n
  let padded := List.replicate (places + 1 - ds.length) '0' ++ ds
  if places == 0 then padded
  else
    let whole := padded.length - places
    padded.take whole ++ '.' :: padded.drop whole

/-- The magnitude of a finite number with `places` decimal places. -/
def magnitudeFixed (places : Nat) (b : Binary) : List Char :=
  let (num, den) := b.ratio
  withPoint (roundHalfEven (num * Nat.pow 10 places) den) places

/-- The sign of a double as it is written, and the text of its magnitude. -/
def signAndMagnitude (magnitude : Binary → List Char) (x : Float) : List Char × List Char :=
  match read x with
  | .nan => ([], "NaN".toList)
  | .infinite negative => (if negative then ['-'] else [], "inf".toList)
  | .finite b => (if b.negative then ['-'] else [], magnitude b)

/-- A double with `places` decimal places. -/
def fixed (places : Nat) (x : Float) : String :=
  let (sign, body) := signAndMagnitude (magnitudeFixed places) x
  String.ofList (sign ++ body)

/-- How a short text is filled up to its width. -/
inductive Fill where
  /-- Blanks before the sign. -/
  | blank
  /-- Zeros between the sign and the digits. -/
  | zero
deriving Repr, DecidableEq

/-- A double with `places` decimal places, filled on the left to `width` characters. -/
def fixedWidth (fill : Fill) (width places : Nat) (x : Float) : String :=
  let (sign, body) := signAndMagnitude (magnitudeFixed places) x
  let missing := width - (sign.length + body.length)
  match fill with
  | .blank => String.ofList (List.replicate missing ' ' ++ sign ++ body)
  | .zero => String.ofList (sign ++ List.replicate missing '0' ++ body)

/-- A natural number with zeros on the left up to `width` digits. -/
def paddedNat (width n : Nat) : String :=
  let ds := digits n
  String.ofList (List.replicate (width - ds.length) '0' ++ ds)

end FluidAnalysis.Decimal
