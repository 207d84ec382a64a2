import FluidAnalysis.Decimal.Shortest

/-!
# Values of settings

Settings are stored as JSON. The fields of an object keep their order, and a name may occur again;
it is for the reader of a record to refuse that.
-/

namespace FluidAnalysis.Settings

/-- A JSON value. Integers of a word are kept apart from all other numbers. -/
inductive Value where
  | null
  | boolean (value : Bool)
  | integer (value : Int)
  | decimal (value : Float)
  | text (value : String)
  | array (items : List Value)
  | object (fields : List (String × Value))
deriving Repr, Inhabited

/-! ## Writing -/

/-- A digit string times `10 ^ k` with an exponent. -/
def exponential (ds : List Char) (k : Int) : List Char :=
  let exponent := (toString (k + ds.length - 1)).toList
  match ds with
  | [] => ['0']
  | [d] => d :: 'e' :: exponent
  | d :: rest => d :: '.' :: (rest ++ 'e' :: exponent)

/-- The magnitude of a finite number: its shortest digits, positional when the point is near them. -/
def magnitudeText (b : Decimal.Binary) : List Char :=
  if b.mantissa == 0 then "0.0".toList
  else
    let (n, k) := Decimal.shortest b
    let (ds, k) := Decimal.stripZeros n k
    let point := k + ds.length
    if -5 < point ∧ point ≤ 16 then
      let text := Decimal.positional ds k
      if text.contains '.' then text else text ++ ['.', '0']
    else exponential ds k

/-- A finite number; the others have no text of their own. -/
def numberText (x : Float) : String :=
  match Decimal.read x with
  | .finite b => String.ofList ((if b.negative then ['-'] else []) ++ magnitudeText b)
  | _ => "null"

/-- A character inside quotes. -/
def escapeChar (c : Char) : List Char :=
  if c == '"' then ['\\', '"']
  else if c == '\\' then ['\\', '\\']
  else if c == '\n' then ['\\', 'n']
  else if c == '\r' then ['\\', 'r']
  else if c == '\t' then ['\\', 't']
  else if c == '\x08' then ['\\', 'b']
  else if c == '\x0c' then ['\\', 'f']
  else if c.toNat < 32 then
    '\\' :: 'u' :: '0' :: '0' :: Nat.digitChar (c.toNat / 16) :: [Nat.digitChar (c.toNat % 16)]
  else [c]

/-- A text in quotes. -/
def quoted (s : String) : String :=
  String.ofList ('"' :: (s.toList.flatMap escapeChar ++ ['"']))

mutual

/-- A value without blanks. -/
def Value.render : Value → String
  | .null => "null"
  | .boolean value => if value then "true" else "false"
  | .integer value => toString value
  | .decimal value => numberText value
  | .text value => quoted value
  | .array items => "[" ++ ",".intercalate (renderItems items) ++ "]"
  | .object fields => "\x7b" ++ ",".intercalate (renderFields fields) ++ "\x7d"

def renderItems : List Value → List String
  | [] => []
  | item :: rest => item.render :: renderItems rest

def renderFields : List (String × Value) → List String
  | [] => []
  | (name, value) :: rest => (quoted name ++ ":" ++ value.render) :: renderFields rest

end

end FluidAnalysis.Settings
