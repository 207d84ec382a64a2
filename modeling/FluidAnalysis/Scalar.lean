import FluidAnalysis.Decimal.Binary

/-!
# Scalars

The numerical methods of this library are written once, over any type of scalars. They run on
doubles; the same definitions can be read over exact numbers, where the laws of a field hold and
their results can be reasoned about.

* `Scalar` — the four operations, the comparisons and the passage to integers
* `Analytic` — the elementary functions on top

The order of operations in every formula is part of its meaning, because doubles round after each
of them.
-/

namespace FluidAnalysis

/-- Numbers with the four operations and comparisons. For doubles a comparison with a value that is
no number is false, so `x == x` says that `x` is a number. -/
class Scalar (α : Type) extends Add α, Sub α, Mul α, Div α, Neg α, LT α, LE α, BEq α,
    NatCast α, IntCast α, OfScientific α where
  decLt : DecidableLT α
  decLe : DecidableLE α
  /-- Neither infinite nor undefined. -/
  isFinite : α → Bool
  abs : α → α
  /-- The nearest integer, a half away from zero. -/
  round : α → α
  /-- The least integer not below a finite number. -/
  ceil : α → Int
  /-- The integer part of a finite number, toward zero. -/
  trunc : α → Int
  /-- The natural number toward zero, and zero for what lies below it. Doubles give no more than a
  word can hold. -/
  toNat : α → Nat
  /-- A total order, also among zeros and undefined values. -/
  totalLe : α → α → Bool

instance Scalar.decidableLT {α : Type} [Scalar α] : DecidableLT α := Scalar.decLt
instance Scalar.decidableLE {α : Type} [Scalar α] : DecidableLE α := Scalar.decLe

namespace Scalar

variable {α : Type} [Scalar α]

/-- The third power. -/
def cube (x : α) : α := x * (x * x)

/-- The fourth power. -/
def fourth (x : α) : α := (x * x) * (x * x)

end Scalar

/-- Scalars with the elementary functions. -/
class Analytic (α : Type) extends Scalar α where
  pi : α
  exp : α → α
  ln : α → α
  log10 : α → α
  sin : α → α
  sqrt : α → α

/-! ## Doubles -/

namespace Decimal

/-- Applies an exact integer rounding to a finite double and leaves the others alone. -/
def viaInteger (f : Binary → Int) (x : Float) : Float :=
  match read x with
  | .finite b => Float.ofInt (f b)
  | _ => x

/-- Applies an exact integer rounding to a finite double; the others count as zero. -/
def toInteger (f : Binary → Int) (x : Float) : Int :=
  match read x with
  | .finite b => f b
  | _ => 0

end Decimal

instance Scalar.float : Scalar Float where
  natCast := Float.ofNat
  intCast := Float.ofInt
  decLt := fun a b => Float.decLt a b
  decLe := fun a b => Float.decLe a b
  isFinite := Float.isFinite
  abs := Float.abs
  round := Decimal.viaInteger Decimal.Binary.round
  ceil := Decimal.toInteger Decimal.Binary.ceil
  trunc := Decimal.toInteger Decimal.Binary.trunc
  toNat := fun x => x.toUInt64.toNat
  totalLe := fun a b => decide (Decimal.orderKey a ≤ Decimal.orderKey b)

instance Analytic.float : Analytic Float where
  pi := 3.14159265358979323846
  exp := Float.exp
  ln := Float.log
  log10 := Float.log10
  sin := Float.sin
  sqrt := Float.sqrt

end FluidAnalysis
