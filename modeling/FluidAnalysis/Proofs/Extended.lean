import Mathlib
import FluidAnalysis.Proofs.Exact

/-!
# Extended scalars

An ordered field with two infinities and an undefined value. Finite numbers are computed with
exactly and never overflow. The other values follow the rules for doubles, except that there is one
zero only, which counts as positive in a division.

* `Extended.scalar`, `Extended.analytic` — the extended numbers are scalars
* `Extended.finiteValues` — the finite numbers of a list
* `Extended.filter_isFinite` — a filter for finite numbers keeps these and nothing else
-/

namespace FluidAnalysis

/-- A number of the field, an infinity or the undefined value. -/
inductive Extended (K : Type) where
  | finite (x : K)
  | infinite (negative : Bool)
  | undefined
deriving DecidableEq

namespace Extended

open Exact Numeric

variable {K : Type} [Field K] [LinearOrder K]

/-! ## Operations -/

def neg : Extended K → Extended K
  | finite x => finite (-x)
  | infinite s => infinite (!s)
  | undefined => undefined

/-- Two opposite infinities have no sum. -/
def add : Extended K → Extended K → Extended K
  | finite x, finite y => finite (x + y)
  | finite _, infinite s => infinite s
  | infinite s, finite _ => infinite s
  | infinite s, infinite t => if s = t then infinite s else undefined
  | _, _ => undefined

def sub : Extended K → Extended K → Extended K
  | finite x, finite y => finite (x - y)
  | a, b => add a (neg b)

/-- An infinity times a finite number. -/
def magnify (s : Bool) (x : K) : Extended K :=
  if x = 0 then undefined else infinite (s != decide (x < 0))

def mul : Extended K → Extended K → Extended K
  | finite x, finite y => finite (x * y)
  | finite x, infinite s => magnify s x
  | infinite s, finite x => magnify s x
  | infinite s, infinite t => infinite (s != t)
  | _, _ => undefined

def div : Extended K → Extended K → Extended K
  | finite x, finite y => if y = 0 then magnify false x else finite (x / y)
  | finite _, infinite _ => finite 0
  | infinite s, finite y => infinite (s != decide (y < 0))
  | _, _ => undefined

/-- The strict order. The undefined value compares with nothing. -/
def lt : Extended K → Extended K → Bool
  | finite x, finite y => decide (x < y)
  | finite _, infinite s => !s
  | infinite s, finite _ => s
  | infinite s, infinite t => s && !t
  | _, _ => false

def le : Extended K → Extended K → Bool
  | finite x, finite y => decide (x ≤ y)
  | finite _, infinite s => !s
  | infinite s, finite _ => s
  | infinite s, infinite t => s || !t
  | _, _ => false

def beq : Extended K → Extended K → Bool
  | finite x, finite y => decide (x = y)
  | infinite s, infinite t => s == t
  | _, _ => false

/-- The order, with the undefined value above all others. -/
def totalLe (a : Extended K) : Extended K → Bool
  | undefined => true
  | b => le a b

def isFinite : Extended K → Bool
  | finite _ => true
  | _ => false

def abs : Extended K → Extended K
  | finite x => finite |x|
  | infinite _ => infinite false
  | undefined => undefined

/-- An integer from a finite number. The others count as zero. -/
def toInteger (f : K → Int) : Extended K → Int
  | finite x => f x
  | _ => 0

def round [IntegerParts K] : Extended K → Extended K
  | finite x => finite (IntegerParts.round x)
  | a => a

def toNat [IntegerParts K] : Extended K → Nat
  | finite x => IntegerParts.toNat x
  | infinite false => 2 ^ 64 - 1
  | _ => 0

/-- The extended numbers as scalars. -/
instance scalar [IntegerParts K] : Scalar (Extended K) where
  add := add
  sub := sub
  mul := mul
  div := div
  neg := neg
  lt a b := lt a b = true
  le a b := le a b = true
  beq := beq
  natCast n := finite n
  intCast z := finite z
  ofScientific m s e := finite (OfScientific.ofScientific m s e)
  decLt _ _ := inferInstanceAs (Decidable (_ = true))
  decLe _ _ := inferInstanceAs (Decidable (_ = true))
  isFinite := isFinite
  abs := abs
  round := round
  ceil := toInteger IntegerParts.ceil
  trunc := toInteger IntegerParts.trunc
  toNat := toNat
  totalLe := totalLe

/-! ## Elementary functions -/

/-- A function of finite numbers, with its limits at the two infinities. -/
def extend (f : K → Extended K) (atMinus atPlus : Extended K) : Extended K → Extended K
  | finite x => f x
  | infinite true => atMinus
  | infinite false => atPlus
  | undefined => undefined

/-- A logarithm. Zero has an infinite one, and a negative number has none. -/
def logarithm (f : K → K) : Extended K → Extended K :=
  extend
    (fun x => if x = 0 then infinite true else if x < 0 then undefined else finite (f x))
    undefined (infinite false)

/-- The extended numbers as scalars with elementary functions. -/
instance analytic [IntegerParts K] [Elementary K] : Analytic (Extended K) where
  pi := finite Elementary.pi
  exp := extend (fun x => finite (Elementary.exp x)) (finite 0) (infinite false)
  ln := logarithm Elementary.ln
  log10 := logarithm Elementary.log10
  sin := extend (fun x => finite (Elementary.sin x)) undefined undefined
  sqrt := extend (fun x => if x < 0 then undefined else finite (Elementary.sqrt x)) undefined
    (infinite false)

variable [IntegerParts K]

/-! ## Finite numbers -/

theorem finite_sub (x y : K) : finite x - finite y = finite (x - y) := rfl

theorem finite_mul (x y : K) : finite x * finite y = finite (x * y) := rfl

theorem finite_div {x y : K} (hy : y ≠ 0) : finite x / finite y = finite (x / y) := if_neg hy

/-- Nothing divided by nothing is undefined. -/
theorem zero_div_zero : finite (0 : K) / finite 0 = undefined :=
  (if_pos rfl).trans (if_pos rfl)

theorem literalZero_finite [IsStrictOrderedRing K] : (0.0 : Extended K) = finite 0 :=
  congrArg finite literalZero_eq

theorem literalOne_finite : (1.0 : Extended K) = finite 1 := congrArg finite literalOne_eq

/-- One divided by nothing is infinite. -/
theorem infinity_eq [IsStrictOrderedRing K] : (1.0 / 0.0 : Extended K) = infinite false := by
  rw [literalOne_finite, literalZero_finite]
  show div (finite 1) (finite 0) = infinite false
  simp [div, magnify]

theorem finite_lt_iff {x y : K} : finite x < finite y ↔ x < y := decide_eq_true_iff

theorem finite_le_iff {x y : K} : finite x ≤ finite y ↔ x ≤ y := decide_eq_true_iff

theorem isFinite_iff {a : Extended K} : Scalar.isFinite a = true ↔ ∃ x, a = finite x := by
  cases a with
  | finite x => exact ⟨fun _ => ⟨x, rfl⟩, fun _ => rfl⟩
  | infinite s => simp [Scalar.isFinite, isFinite]
  | undefined => simp [Scalar.isFinite, isFinite]

theorem larger_finite (x y : K) : larger (finite x) (finite y) = finite (larger x y) := by
  have hself : (finite x == finite x) = true := decide_eq_true rfl
  rw [larger_eq_max, larger, if_pos hself]
  split_ifs with h
  · rw [max_eq_right (finite_lt_iff.mp h).le]
  · rw [max_eq_left (not_lt.mp (mt finite_lt_iff.mpr h))]

theorem smaller_finite (x y : K) : smaller (finite x) (finite y) = finite (smaller x y) := by
  have hself : (finite x == finite x) = true := decide_eq_true rfl
  rw [smaller_eq_min, smaller, if_pos hself]
  split_ifs with h
  · rw [min_eq_right (finite_lt_iff.mp h).le]
  · rw [min_eq_left (not_lt.mp (mt finite_lt_iff.mpr h))]

/-! ## Lists -/

/-- The number of the field, if it is one. -/
def value? : Extended K → Option K
  | finite x => some x
  | _ => none

omit [Field K] [LinearOrder K] [IntegerParts K] in
theorem value?_eq_some_iff {a : Extended K} {x : K} : a.value? = some x ↔ a = finite x := by
  cases a with
  | finite y => simp [value?]
  | infinite s => simp [value?]
  | undefined => simp [value?]

/-- The finite numbers of a list. -/
def finiteValues (values : List (Extended K)) : List K := values.filterMap value?

omit [Field K] [LinearOrder K] [IntegerParts K] in
theorem mem_finiteValues_iff {values : List (Extended K)} {x : K} :
    x ∈ finiteValues values ↔ finite x ∈ values := by
  simp [finiteValues, value?_eq_some_iff]

/-- A filter for finite numbers keeps these. -/
theorem filter_isFinite (values : List (Extended K)) :
    values.filter Scalar.isFinite = (finiteValues values).map finite := by
  induction values with
  | nil => rfl
  | cons a values ih =>
    cases a with
    | finite x => exact congrArg (finite x :: ·) ih
    | infinite s => exact ih
    | undefined => exact ih

end Extended

end FluidAnalysis
