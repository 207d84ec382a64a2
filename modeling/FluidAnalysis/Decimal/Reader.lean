import FluidAnalysis.Decimal.Rounding

/-!
# Reading numbers

The grammar of number texts: an optional sign, then `inf`, `infinity` or `nan` in any case, or
digits with an optional point and an optional exponent. There is at least one digit before or after
the point, and nothing may follow. The value is the double nearest to the exact decimal.
-/

namespace FluidAnalysis.Decimal

/-- The value of a string of decimal digits. -/
def digitsValue (ds : List Char) : Nat :=
  ds.foldl (fun n c => 10 * n + (c.toNat - '0'.toNat)) 0

/-- The longest run of decimal digits at the start of a text, and what follows it. -/
def takeDigits (text : List Char) : List Char × List Char :=
  (text.takeWhile Char.isDigit, text.dropWhile Char.isDigit)

/-- An optional sign; `true` stands for a minus. -/
def takeSign : List Char → Bool × List Char
  | '-' :: rest => (true, rest)
  | '+' :: rest => (false, rest)
  | text => (false, text)

/-- The decimal `coefficient · 10 ^ exponent`, before it is rounded. -/
structure Exact where
  coefficient : Nat
  exponent : Int
deriving Repr, DecidableEq

/-- A signed exponent that fills the whole text. -/
def readExponent? (text : List Char) : Option Int :=
  let (negative, rest) := takeSign text
  let (ds, rest) := takeDigits rest
  if ds.isEmpty || !rest.isEmpty then none
  else
    let n := digitsValue ds
    some (if negative then -(n : Int) else n)

/-- Digits with an optional point and an optional exponent. -/
def readExact? (text : List Char) : Option Exact :=
  let (whole, rest) := takeDigits text
  let (fraction, rest) :=
    match rest with
    | '.' :: rest => takeDigits rest
    | _ => ([], rest)
  if whole.isEmpty && fraction.isEmpty then none
  else
    let ds := digitsValue (whole ++ fraction)
    match rest with
    | [] => some ⟨ds, -(fraction.length : Int)⟩
    | c :: rest =>
      if c == 'e' || c == 'E' then
        (readExponent? rest).map fun e => ⟨ds, e - (fraction.length : Int)⟩
      else none

/-- The double nearest to a decimal. A decimal beyond `10 ^ 310` is infinite, and one below
`10 ^ -330` is zero. -/
def Exact.toFloat (d : Exact) : Float :=
  let position := (digits d.coefficient).length + d.exponent
  if d.coefficient == 0 || position < -330 then 0.0
  else if 310 < position then 1.0 / 0.0
  else Float.ofScientific d.coefficient (decide (d.exponent < 0)) d.exponent.natAbs

/-- A number text without its sign. -/
def readMagnitude? (text : List Char) : Option Float :=
  let lower := String.ofList (text.map Char.toLower)
  if lower == "inf" || lower == "infinity" then some (1.0 / 0.0)
  else if lower == "nan" then some (0.0 / 0.0)
  else (readExact? text).map Exact.toFloat

/-- A number text. -/
def readChars? (text : List Char) : Option Float :=
  let (negative, rest) := takeSign text
  (readMagnitude? rest).map fun x => if negative then -x else x

/-- Reads a number text as a double. -/
def read? (text : String) : Option Float :=
  readChars? text.toList

end FluidAnalysis.Decimal
