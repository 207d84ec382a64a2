import FluidAnalysis.Settings.Value
import FluidAnalysis.Text.Integer

/-!
# Numbers in settings

The digits of a number are taken into a word while it can hold them, and the rest only moves the
point. The word is then scaled by a power of ten, so the last digit of a result may differ from that
of the nearest double. A number beyond the doubles is refused.
-/

namespace FluidAnalysis.Settings

open Text Decimal

/-- Takes digits into a word while it can hold them. The answer is the word and how many digits it
took. -/
def absorb (word : Nat) : List Char → Nat × Nat
  | [] => (word, 0)
  | c :: rest =>
    let next := digitsValue [c] + 10 * word
    if next < wordBound then
      let (last, count) := absorb next rest
      (last, count + 1)
    else (word, 0)

/-- A power of ten as a double. -/
def powerOfTen (k : Nat) : Float :=
  Float.ofScientific 1 false k

/-- The largest exponent of ten that a double can have. -/
def maxPower : Nat := 308

/-- `x / 10 ^ k`, in steps that doubles can hold. -/
def scaleDown (x : Float) (k : Nat) : Float :=
  if k ≤ maxPower then x / powerOfTen k
  else if x == 0.0 then x
  else scaleDown (x / powerOfTen maxPower) (k - maxPower)
termination_by k
decreasing_by
  simp only [maxPower] at *
  omega

/-- `word · 10 ^ exponent`, unless it is too large. -/
def scale? (word : Nat) (exponent : Int) : Option Float :=
  let x := Float.ofNat word
  if exponent < 0 then some (scaleDown x (-exponent).toNat)
  else if word == 0 then some x
  else if maxPower < exponent then none
  else
    let scaled := x * powerOfTen exponent.toNat
    if scaled.isFinite then some scaled else none

/-- An exponent, which may be missing, and what follows it. -/
def takeExponent? : List Char → Option (Option Int × List Char)
  | c :: rest =>
    if c == 'e' || c == 'E' then
      let (negative, body) := takeSign rest
      let (ds, after) := takeDigits body
      if ds.isEmpty then none
      else
        let value : Int := digitsValue ds
        some (some (if negative then -value else value), after)
    else some (none, c :: rest)
  | [] => some (none, [])

/-- The digits after a point, which may be missing, and what follows them. -/
def takeFraction? : List Char → Option (Option (List Char) × List Char)
  | '.' :: rest =>
    let (ds, after) := takeDigits rest
    if ds.isEmpty then none else some (some ds, after)
  | rest => some (none, rest)

/-- A whole number that a word could take. A negative zero, and what no signed word holds, is no
integer. -/
def wholeValue (negative : Bool) (word : Nat) : Value :=
  if negative then
    if word == 0 || Nat.pow 2 63 < word then .decimal (-Float.ofNat word) else .integer (-(word : Int))
  else .integer word

/-- The number at the start of a text, and what follows it. -/
def takeNumber? (text : List Char) : Option (Value × List Char) := do
  let (negative, body) :=
    match text with
    | '-' :: rest => (true, rest)
    | _ => (false, text)
  let (whole, rest) := takeDigits body
  if whole.isEmpty || (whole.head? == some '0' && 1 < whole.length) then none
  let (word, taken) := absorb 0 whole
  let dropped := whole.length - taken
  let (fraction, rest) ← takeFraction? rest
  let (exponent, rest) ← takeExponent? rest
  if fraction.isNone && exponent.isNone && dropped == 0 then
    return (wholeValue negative word, rest)
  let (last, places) := absorb word (fraction.getD [])
  let x ← scale? last ((dropped : Int) - places + exponent.getD 0)
  return (.decimal (if negative then -x else x), rest)

end FluidAnalysis.Settings
