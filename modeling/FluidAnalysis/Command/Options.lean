import FluidAnalysis.Decimal.Reader
import FluidAnalysis.Text.Integer
import FluidAnalysis.Text.Lines

/-!
# Options

The words of a command line, read against the options that a command knows. An option has a long
name and may have a letter; its value stands in the next word, after an equals sign, or right
after the letter. A word that begins with a hyphen is never the value of the option before it,
unless that option takes such values.

## Why the readers end

`scan` recurses on the words and `readCluster` on the letters of one word.
-/

namespace FluidAnalysis.Command

/-! ## Values -/

/-- What may stand as a value. -/
inductive ValueKind where
  | number
  | count
  | integer
  | bounded (low high : Int)
  | text
  | path
  | choice (names : List String)
deriving Repr

/-- The first number beyond a word of 32 bits. -/
def shortBound : Int := Nat.pow 2 32

/-- Whether a text is a value of a kind. A path has at least one character. -/
def ValueKind.accepts : ValueKind → String → Bool
  | number, value => (Decimal.read? value).isSome
  | count, value => (Text.readNat? Text.wordBound value).isSome
  | integer, value => (Text.readInt64? value).isSome
  | bounded low high, value => (Text.readInt64? value).any fun i => low ≤ i && i < high
  | text, _ => true
  | path, value => !value.isEmpty
  | choice names, value => names.contains value

/-- The values of a list are divided by commas; an empty text is a list with one empty value. -/
def listItems (text : String) : List String :=
  (Text.pieces ',' text.toList).map String.ofList

/-! ## Options -/

/-- What ends the reading with an answer of its own. -/
inductive Notice where
  | help
  | version
deriving Repr, DecidableEq

/-- What an option takes. -/
inductive Form where
  | switch
  | tally
  | single (kind : ValueKind)
  | list (kind : ValueKind)
  | notice (notice : Notice)
deriving Repr

structure Flag where
  name : String
  letter : Option Char := none
  form : Form
  required : Bool := false
  /-- Whether a word with a hyphen may be the value. -/
  hyphens : Bool := false
deriving Repr

namespace Flag

def takesValue (f : Flag) : Bool :=
  match f.form with
  | .single _ | .list _ => true
  | .switch | .tally | .notice _ => false

/-- Whether the flag may be given more than once. -/
def repeats (f : Flag) : Bool :=
  match f.form with
  | .list _ | .tally => true
  | .single _ | .switch | .notice _ => false

end Flag

/-! ## What goes wrong -/

/-- Why a command line is refused. -/
inductive Fault where
  | unexpected (word : String)
  | unfinished (flag : String)
  | refused (flag value : String)
  | unneeded (flag value : String)
  | repeated (flag : String)
  | missing (flag : String)
  | conflict (first second : String)
  | noCommand
deriving Repr, DecidableEq

def Fault.message : Fault → String
  | unexpected word => s!"unexpected argument '{word}'"
  | unfinished flag => s!"a value is required for '--{flag}'"
  | refused flag value => s!"invalid value '{value}' for '--{flag}'"
  | unneeded flag value => s!"unexpected value '{value}' for '--{flag}'"
  | repeated flag => s!"'--{flag}' cannot be used multiple times"
  | missing flag => s!"'--{flag}' was not provided"
  | conflict first second => s!"'--{first}' cannot be used with '--{second}'"
  | noCommand => "a command is required"

/-- Why the reading of a command line ends early. -/
inductive Stop where
  | notice (notice : Notice)
  | fault (fault : Fault)
deriving Repr, DecidableEq

/-! ## Given options -/

/-- The options of a command line in their order, each with its values. -/
abbrev Given := List (String × List String)

namespace Given

def has (g : Given) (name : String) : Bool :=
  g.any fun entry => entry.1 == name

/-- All values of an option. -/
def values (g : Given) (name : String) : List String :=
  (g.filter fun entry => entry.1 == name).flatMap (·.2)

/-- The value of an option that is given at most once. -/
def value? (g : Given) (name : String) : Option String :=
  (g.values name).head?

def number? (g : Given) (name : String) : Option Float :=
  (g.value? name).bind Decimal.read?

def numbers (g : Given) (name : String) : List Float :=
  (g.values name).filterMap Decimal.read?

def integer? (g : Given) (name : String) : Option Int :=
  (g.value? name).bind Text.readInt64?

def count? (g : Given) (name : String) : Option Nat :=
  (g.value? name).bind (Text.readNat? Text.wordBound)

def counts (g : Given) (name : String) : List Nat :=
  (g.values name).filterMap (Text.readNat? Text.wordBound)

/-- A bounded value that is not negative. -/
def short? (g : Given) (name : String) : Option Nat :=
  (g.integer? name).map Int.toNat

/-- The first of some values that is not of a kind is refused. -/
def accepted (flag : Flag) (kind : ValueKind) (values : List String) :
    Except Stop (String × List String) :=
  match values.find? fun value => !kind.accepts value with
  | some value => .error (.fault (.refused flag.name value))
  | none => .ok (flag.name, values)

/-- The entry of an option with or without a value. -/
def entry (flag : Flag) (value : Option String) : Except Stop (String × List String) :=
  match flag.form, value with
  | .single kind, some value => accepted flag kind [value]
  | .list kind, some value => accepted flag kind (listItems value)
  | .single _, none | .list _, none => .error (.fault (.unfinished flag.name))
  | .switch, none | .tally, none => .ok (flag.name, [])
  | .notice notice, none => .error (.notice notice)
  | .switch, some value | .tally, some value | .notice _, some value =>
    .error (.fault (.unneeded flag.name value))

/-- Adds an option. -/
def add (g : Given) (flag : Flag) (value : Option String) : Except Stop Given := do
  let entry ← Given.entry flag value
  if g.has flag.name && !flag.repeats then .error (.fault (.repeated flag.name))
  else .ok (g ++ [entry])

end Given

/-! ## Words -/

/-- The form of a word. -/
inductive Word where
  /-- Two hyphens: no options follow. -/
  | divider
  | long (name : String) (value : Option String)
  | cluster (letters : List Char)
  | plain
deriving Repr, DecidableEq

/-- A text up to an equals sign, and what follows the sign. -/
def splitAtEquals (text : List Char) : String × Option String :=
  let name := String.ofList (text.takeWhile (· != '='))
  match text.dropWhile (· != '=') with
  | _ :: value => (name, some (String.ofList value))
  | [] => (name, none)

/-- One hyphen alone is a plain word. -/
def Word.ofString (text : String) : Word :=
  match text.toList with
  | ['-', '-'] => .divider
  | '-' :: '-' :: rest =>
    let (name, value) := splitAtEquals rest
    .long name value
  | '-' :: letter :: rest => .cluster (letter :: rest)
  | _ => .plain

/-- Whether a word can be the value of the option before it. -/
def Flag.awaits (flag : Flag) (word : String) : Bool :=
  flag.hyphens || Word.ofString word == .plain

/-- The options so far, and the one whose value is in the next word. -/
abbrev Progress := Given × Option Flag

/-- An option by its long name. -/
def readLong (flags : List Flag) (g : Given) (word name : String) (value : Option String) :
    Except Stop Progress :=
  match flags.find? fun flag => flag.name == name with
  | none => .error (.fault (.unexpected word))
  | some flag =>
    if flag.takesValue && value.isNone then .ok (g, some flag)
    else (g.add flag value).map (·, none)

/-- Options by their letters. What follows the letter of an option with a value is the value, an
equals sign before it apart. -/
def readCluster (flags : List Flag) (word : String) (g : Given) :
    List Char → Except Stop Progress
  | [] => .ok (g, none)
  | letter :: rest =>
    match flags.find? fun flag => flag.letter == some letter with
    | none => .error (.fault (.unexpected word))
    | some flag =>
      if flag.takesValue then
        match rest with
        | [] => .ok (g, some flag)
        | '=' :: value => (g.add flag (some (String.ofList value))).map (·, none)
        | value => (g.add flag (some (String.ofList value))).map (·, none)
      else do readCluster flags word (← g.add flag none) rest

/-- Options up to the name of a command, and the words after it. -/
structure Scanned where
  given : Given
  command : Option (String × List String) := none
deriving Repr

/-- Reads options until the words end or one of `commands` comes. -/
def scan (flags : List Flag) (commands : List String) (g : Given) :
    List String → Except Stop Scanned
  | [] => .ok { given := g }
  | word :: rest => do
    let (next, waiting) ←
      match Word.ofString word with
      | .long name value => readLong flags g word name value
      | .cluster letters => readCluster flags word g letters
      | .divider =>
        if rest.isEmpty then .ok (g, none) else .error (.fault (.unexpected word))
      | .plain =>
        if commands.contains word then return { given := g, command := some (word, rest) }
        else .error (.fault (.unexpected word))
    match waiting, rest with
    | none, rest => scan flags commands next rest
    | some flag, [] => .error (.fault (.unfinished flag.name))
    | some flag, value :: later =>
      if flag.awaits value then do scan flags commands (← next.add flag (some value)) later
      else .error (.fault (.unfinished flag.name))

/-- All required options are there, and no two that exclude each other. -/
def checkGiven (flags : List Flag) (exclusive : List (String × String)) (g : Given) :
    Except Stop Unit :=
  match exclusive.find? fun pair => g.has pair.1 && g.has pair.2 with
  | some (first, second) => .error (.fault (.conflict first second))
  | none =>
    match flags.find? fun flag => flag.required && !g.has flag.name with
    | some flag => .error (.fault (.missing flag.name))
    | none => .ok ()

end FluidAnalysis.Command
