import FluidAnalysis.Decimal.Reader
import FluidAnalysis.Scalar

/-!
# Doubles as bit patterns

A `Float` that is no number is always the same value. A double in memory has many of them, with and
without a sign, and the total order tells them all apart. A `Binary64` is a double with every one of
its bits. It calculates as the `Float` that its bits stand for.
-/

namespace FluidAnalysis

/-- The 64 bits of a double. -/
structure Binary64 where
  bits : UInt64
deriving Repr, DecidableEq

namespace Binary64

def toFloat (x : Binary64) : Float :=
  Float.ofBits x.bits

def ofFloat (x : Float) : Binary64 :=
  ⟨x.toBits⟩

/-- The bit of the sign. -/
def signBit : UInt64 := 0x8000000000000000

/-- Reads a number text. A sign is kept, also in front of a value that is no number. -/
def read? (text : String) : Option Binary64 :=
  (Decimal.readChars? text.toList).map fun x =>
    if x.isNaN && (Decimal.takeSign text.toList).1 then ⟨x.toBits ||| signBit⟩ else ofFloat x

/-- An operation on doubles with two operands. -/
def lift (f : Float → Float → Float) (x y : Binary64) : Binary64 :=
  ofFloat (f x.toFloat y.toFloat)

end Binary64

open Binary64 in
instance Scalar.binary64 : Scalar Binary64 where
  add := lift (· + ·)
  sub := lift (· - ·)
  mul := lift (· * ·)
  div := lift (· / ·)
  neg x := ofFloat (-x.toFloat)
  lt x y := x.toFloat < y.toFloat
  le x y := x.toFloat ≤ y.toFloat
  beq x y := x.toFloat == y.toFloat
  natCast n := ofFloat (Float.ofNat n)
  intCast n := ofFloat (Float.ofInt n)
  ofScientific mantissa sign exponent := ofFloat (OfScientific.ofScientific mantissa sign exponent)
  decLt x y := Float.decLt x.toFloat y.toFloat
  decLe x y := Float.decLe x.toFloat y.toFloat
  isFinite x := x.toFloat.isFinite
  abs x := ofFloat x.toFloat.abs
  round x := ofFloat (Scalar.round x.toFloat)
  ceil x := Scalar.ceil x.toFloat
  trunc x := Scalar.trunc x.toFloat
  toNat x := Scalar.toNat x.toFloat
  totalLe x y := decide (Decimal.patternKey x.bits ≤ Decimal.patternKey y.bits)

open Binary64 in
instance Analytic.binary64 : Analytic Binary64 where
  pi := ofFloat Analytic.pi
  exp x := ofFloat (Analytic.exp x.toFloat)
  ln x := ofFloat (Analytic.ln x.toFloat)
  log10 x := ofFloat (Analytic.log10 x.toFloat)
  sin x := ofFloat (Analytic.sin x.toFloat)
  sqrt x := ofFloat (Analytic.sqrt x.toFloat)

end FluidAnalysis
