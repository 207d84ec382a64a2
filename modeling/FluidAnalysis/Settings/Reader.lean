import FluidAnalysis.Settings.Number
import FluidAnalysis.Text.Lines

/-!
# Reading settings

The grammar of JSON, without any leniency: one value with blanks around it, no comma before a
closing bracket, and a limit on how deep values are nested.
-/

namespace FluidAnalysis.Settings

/-! ## Texts -/

def isSpace (c : Char) : Bool :=
  c == ' ' || c == '\n' || c == '\t' || c == '\r'

def skipSpace (text : List Char) : List Char :=
  text.dropWhile isSpace

/-- The value of a hexadecimal digit. -/
def hexDigit? (c : Char) : Option Nat :=
  if c.isDigit then some (c.toNat - '0'.toNat)
  else if 'a' ≤ c ∧ c ≤ 'f' then some (c.toNat - 'a'.toNat + 10)
  else if 'A' ≤ c ∧ c ≤ 'F' then some (c.toNat - 'A'.toNat + 10)
  else none

/-- The value of four hexadecimal digits. -/
def hexUnit? (a b c d : Char) : Option Nat := do
  return ((← hexDigit? a) * 16 + (← hexDigit? b)) * 256 + ((← hexDigit? c) * 16 + (← hexDigit? d))

/-- The character that a letter after a backslash stands for. -/
def unescape? (c : Char) : Option Char :=
  match c with
  | '"' => some '"'
  | '\\' => some '\\'
  | '/' => some '/'
  | 'b' => some '\x08'
  | 'f' => some '\x0c'
  | 'n' => some '\n'
  | 'r' => some '\r'
  | 't' => some '\t'
  | _ => none

def isLeading (unit : Nat) : Bool := 0xD800 ≤ unit && unit < 0xDC00

def isTrailing (unit : Nat) : Bool := 0xDC00 ≤ unit && unit < 0xE000

/-- The character of two units of sixteen bits. -/
def joinUnits (leading trailing : Nat) : Char :=
  Char.ofNat (0x10000 + (leading - 0xD800) * 0x400 + (trailing - 0xDC00))

/-- The text up to the closing quote, and what follows it. -/
def takeQuoted? : List Char → Option (List Char × List Char)
  | [] => none
  | '"' :: rest => some ([], rest)
  | '\\' :: 'u' :: a :: b :: c :: d :: '\\' :: 'u' :: e :: f :: g :: h :: rest => do
    let unit ← hexUnit? a b c d
    if isTrailing unit then none
    else if isLeading unit then
      let next ← hexUnit? e f g h
      if isTrailing next then
        let (chars, after) ← takeQuoted? rest
        return (joinUnits unit next :: chars, after)
      else none
    else
      let (chars, after) ← takeQuoted? ('\\' :: 'u' :: e :: f :: g :: h :: rest)
      return (Char.ofNat unit :: chars, after)
  | '\\' :: 'u' :: a :: b :: c :: d :: rest => do
    let unit ← hexUnit? a b c d
    if isTrailing unit || isLeading unit then none
    else
      let (chars, after) ← takeQuoted? rest
      return (Char.ofNat unit :: chars, after)
  | '\\' :: c :: rest => do
    let char ← unescape? c
    let (chars, after) ← takeQuoted? rest
    return (char :: chars, after)
  | c :: rest => do
    if c.toNat < 32 || c == '\\' then none
    else
      let (chars, after) ← takeQuoted? rest
      return (c :: chars, after)
termination_by text => text.length

/-- A word of the grammar. -/
def takeWord? (text : List Char) : Option (Value × List Char) :=
  match Text.after? "null".toList text with
  | some rest => some (.null, rest)
  | none =>
    match Text.after? "true".toList text with
    | some rest => some (.boolean true, rest)
    | none => (Text.after? "false".toList text).map fun rest => (.boolean false, rest)

/-! ## Values

A level of nesting is used up by every bracket. The fuel bounds the number of steps; every step
consumes a character, so the length of the text is enough. -/

mutual

/-- The value at the start of a text, and what follows it. -/
def takeValue? (fuel levels : Nat) (text : List Char) : Option (Value × List Char) :=
  match fuel with
  | 0 => none
  | fuel + 1 =>
    match skipSpace text with
    | '"' :: rest => (takeQuoted? rest).map fun (chars, after) => (.text (String.ofList chars), after)
    | '[' :: rest =>
      match levels, skipSpace rest with
      | 0, _ => none
      | _ + 1, ']' :: after => some (.array [], after)
      | levels + 1, first =>
        (takeItems? fuel levels first).map fun (items, after) => (.array items, after)
    | '\x7b' :: rest =>
      match levels, skipSpace rest with
      | 0, _ => none
      | _ + 1, '\x7d' :: after => some (.object [], after)
      | levels + 1, first =>
        (takeFields? fuel levels first).map fun (fields, after) => (.object fields, after)
    | c :: rest => if c == '-' || c.isDigit then takeNumber? (c :: rest) else takeWord? (c :: rest)
    | [] => none

/-- Items up to the closing bracket. There is at least one. -/
def takeItems? (fuel levels : Nat) (text : List Char) : Option (List Value × List Char) :=
  match fuel with
  | 0 => none
  | fuel + 1 =>
    match takeValue? fuel levels text with
    | none => none
    | some (item, rest) =>
      match skipSpace rest with
      | ']' :: after => some ([item], after)
      | ',' :: more =>
        (takeItems? fuel levels more).map fun (items, after) => (item :: items, after)
      | _ => none

/-- Fields up to the closing brace. There is at least one. -/
def takeFields? (fuel levels : Nat) (text : List Char) :
    Option (List (String × Value) × List Char) :=
  match fuel, skipSpace text with
  | fuel + 1, '"' :: start =>
    match takeQuoted? start with
    | none => none
    | some (name, rest) =>
      match skipSpace rest with
      | ':' :: body =>
        match takeValue? fuel levels body with
        | none => none
        | some (value, rest) =>
          let field := (String.ofList name, value)
          match skipSpace rest with
          | '\x7d' :: after => some ([field], after)
          | ',' :: more =>
            (takeFields? fuel levels more).map fun (fields, after) => (field :: fields, after)
          | _ => none
      | _ => none
  | _, _ => none

end

/-- How deep values may be nested. -/
def maxLevels : Nat := 127

/-- Reads a text that is one value. -/
def Value.read? (text : String) : Option Value :=
  match takeValue? (2 * text.length + 2) maxLevels text.toList with
  | some (value, rest) => if (skipSpace rest).isEmpty then some value else none
  | none => none

end FluidAnalysis.Settings
