import FluidAnalysis.Decimal.Reader
import FluidAnalysis.Text.Integer
import FluidAnalysis.Text.Lines

/-!
# Header entries

Simulations write what they know about a run as comments `# key: value` before the data.
-/

namespace FluidAnalysis.Table

open Text

/-- The value in a line `# key: value`: the first word after the colon. -/
def headerValue? (key line : List Char) : Option (List Char) := do
  let body ← after? ['#'] (trimStart line)
  let rest ← after? key (trimStart body)
  let value ← after? [':'] (trimStart rest)
  (words value).head?

/-- The value of the first line that has one for the key. -/
def header? (source key : String) : Option (List Char) :=
  (lines source.toList).findSome? (headerValue? key.toList)

/-- Drops the thousands separators. -/
def dropCommas (word : List Char) : List Char :=
  word.filter (· != ',')

/-- A header entry as an integer; thousands separators are allowed. -/
def headerInteger? (source key : String) : Option Int :=
  (header? source key).bind fun word => readInt64? (String.ofList (dropCommas word))

/-- A header entry as a number. -/
def headerNumber? (source key : String) : Option Float :=
  (header? source key).bind Decimal.readChars?

/-- The word after the first word of a line that is `key`. -/
def wordAfter? (key : List Char) : List (List Char) → Option (List Char)
  | [] => none
  | word :: rest => if word == key then rest.head? else wordAfter? key rest

/-- The word after `key` in the first line that has one, without thousands separators. -/
def tokenAfter? (source key : String) : Option String :=
  ((lines source.toList).findSome? fun line => wordAfter? key.toList (words line)).map
    fun word => String.ofList (dropCommas word)

end FluidAnalysis.Table
