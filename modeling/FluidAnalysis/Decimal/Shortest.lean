import FluidAnalysis.Decimal.Fixed

/-!
# Shortest notation

The fewest decimal digits that read back as the same double, and among those the ones nearest to
it. Around a double `v = mantissa · 2 ^ exponent` lies an interval of numbers that round to `v`; its
ends belong to it when the mantissa is even. On the grid of decimals with a given number of digits
only the two neighbours of `v` need to be tried.
-/

namespace FluidAnalysis.Decimal

/-- The interval of numbers that round to a double, in quarters of its last place: `low`, `value`
and `high` are multiples of `unit.1 / unit.2`. Below a power of two the neighbour is only half as
far away. -/
structure Neighbourhood where
  low : Nat
  value : Nat
  high : Nat
  unit : Nat × Nat
  closed : Bool
deriving Repr

/-- The neighbourhood of a finite number other than zero. -/
def Binary.neighbourhood (b : Binary) : Neighbourhood where
  low := 4 * b.mantissa - if b.mantissa == Nat.pow 2 52 && b.exponent != -1074 then 1 else 2
  value := 4 * b.mantissa
  high := 4 * b.mantissa + 2
  unit := Binary.ratio ⟨false, 1, b.exponent - 2⟩
  closed := b.mantissa % 2 == 0

namespace Neighbourhood

/-- A number of units, and the decimal `n · 10 ^ k`, brought to a common denominator. -/
def align (h : Neighbourhood) (units n : Nat) (k : Int) : Nat × Nat :=
  if 0 ≤ k then (units * h.unit.1, n * Nat.pow 10 k.toNat * h.unit.2)
  else (units * h.unit.1 * Nat.pow 10 (-k).toNat, n * h.unit.2)

/-- Whether the decimal `n · 10 ^ k` reads back as the double. -/
def contains (h : Neighbourhood) (n : Nat) (k : Int) : Bool :=
  let (low, x) := h.align h.low n k
  let (high, _) := h.align h.high n k
  if h.closed then decide (low ≤ x ∧ x ≤ high) else decide (low < x ∧ x < high)

/-- Of the decimals with last place `10 ^ k` around the double, the nearest that reads back; of two
at the same distance the larger. -/
def nearest? (h : Neighbourhood) (k : Int) : Option Nat :=
  let (value, one) := h.align h.value 1 k
  let below := value / one
  match h.contains below k, h.contains (below + 1) k with
  | true, true => some (if 2 * (value % one) < one then below else below + 1)
  | true, false => some below
  | false, true => some (below + 1)
  | false, false => none

end Neighbourhood

/-- The first of the grids with `count`, `count + 1`, … digits that holds a decimal which reads back.
Seventeen digits always do. -/
def shortestFrom (h : Neighbourhood) (x : Int) : (tries count : Nat) → Nat × Int
  | 0, count => (0, x - count + 1)
  | tries + 1, count =>
    let k := x - count + 1
    match h.nearest? k with
    | some n => (n, k)
    | none => shortestFrom h x tries (count + 1)

/-- The shortest decimal `n · 10 ^ k` of a finite number other than zero. -/
def shortest (b : Binary) : Nat × Int :=
  let (num, den) := b.ratio
  shortestFrom b.neighbourhood (leadingExponent num den) 17 1

/-- Drops the zeros at the end of a digit string and counts them into the exponent. -/
def stripZeros (n : Nat) (k : Int) : List Char × Int :=
  let ds := digits n
  let kept := (ds.reverse.dropWhile (· == '0')).reverse
  (kept, k + (ds.length - kept.length : Nat))

/-- A digit string times `10 ^ k` in positional notation. -/
def positional (ds : List Char) (k : Int) : List Char :=
  if 0 ≤ k then ds ++ List.replicate k.toNat '0'
  else
    let places := (-k).toNat
    if places < ds.length then ds.take (ds.length - places) ++ '.' :: ds.drop (ds.length - places)
    else '0' :: '.' :: (List.replicate (places - ds.length) '0' ++ ds)

/-- The magnitude of a finite number in shortest positional notation. -/
def magnitudeShortest (b : Binary) : List Char :=
  if b.mantissa == 0 then ['0']
  else
    let (n, k) := shortest b
    let (ds, k) := stripZeros n k
    positional ds k

/-- A double in shortest positional notation; a whole number has no point. -/
def plain (x : Float) : String :=
  let (sign, body) := signAndMagnitude magnitudeShortest x
  String.ofList (sign ++ body)

/-- A double in shortest positional notation that always keeps a fraction: `1.0`, `0.51`. -/
def label (x : Float) : String :=
  let text := plain x
  match read x with
  | .finite _ => if text.toList.contains '.' then text else text ++ ".0"
  | _ => text

end FluidAnalysis.Decimal
