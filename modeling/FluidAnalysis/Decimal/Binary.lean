/-!
# Doubles as exact numbers

A finite double is `± mantissa · 2 ^ exponent`. Everything this library writes about a double
(its decimal digits, its integer part, its place in the total order) is computed from that exact
form in natural number arithmetic, so no rounding happens on the way.
-/

namespace FluidAnalysis.Decimal

/-- The number `± mantissa · 2 ^ exponent`. Zero keeps its sign. -/
structure Binary where
  negative : Bool
  mantissa : Nat
  exponent : Int
deriving Repr, DecidableEq

/-- What the bits of a double stand for. -/
inductive Reading where
  | nan
  | infinite (negative : Bool)
  | finite (value : Binary)
deriving Repr, DecidableEq

/-! ## Decoding -/

/-- Splits a double into sign, exponent field and fraction field. -/
def fields (x : Float) : Bool × Nat × Nat :=
  let bits := x.toBits.toNat
  (bits / Nat.pow 2 63 == 1, bits / Nat.pow 2 52 % Nat.pow 2 11, bits % Nat.pow 2 52)

/-- Reads a double. An exponent field of zero marks the subnormal numbers, which lack the leading
bit; an exponent field of ones marks the infinities and the values that are no number. -/
def read (x : Float) : Reading :=
  let (negative, field, fraction) := fields x
  if field == 2047 then
    if fraction == 0 then .infinite negative else .nan
  else if field == 0 then .finite ⟨negative, fraction, -1074⟩
  else .finite ⟨negative, fraction + Nat.pow 2 52, (field : Int) - 1075⟩

namespace Binary

/-- The magnitude as a fraction. -/
def ratio (b : Binary) : Nat × Nat :=
  if 0 ≤ b.exponent then (b.mantissa * Nat.pow 2 b.exponent.toNat, 1)
  else (b.mantissa, Nat.pow 2 (-b.exponent).toNat)

/-- Puts the sign of the number on a magnitude. -/
def signed (b : Binary) (magnitude : Nat) : Int :=
  if b.negative then -(magnitude : Int) else magnitude

/-- The integer part, toward zero. -/
def trunc (b : Binary) : Int :=
  b.signed (b.ratio.1 / b.ratio.2)

/-- The least integer that is not below the number. -/
def ceil (b : Binary) : Int :=
  let (num, den) := b.ratio
  if b.negative then -((num / den : Nat) : Int) else ((num + den - 1) / den : Nat)

/-- The nearest integer; a half goes away from zero. -/
def round (b : Binary) : Int :=
  let (num, den) := b.ratio
  b.signed ((2 * num + den) / (2 * den))

end Binary

/-! ## Order of the bits -/

/-- The place of a bit pattern in their total order. The patterns with a sign come first, and they
count backwards. -/
def patternKey (pattern : UInt64) : Int :=
  let bits := pattern.toNat
  if bits < Nat.pow 2 63 then bits else (Nat.pow 2 63 : Int) - 1 - bits

/-- The place of a double in the total order: negative numbers before positive ones, `-0` just before
`0`, and last the one value that is no number. -/
def orderKey (x : Float) : Int :=
  patternKey x.toBits

end FluidAnalysis.Decimal
