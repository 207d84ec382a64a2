/-!
# Name patterns

Patterns for the names in a directory: `*` stands for any text, `?` for one byte, `[…]` for one
byte of a class and `[!…]` for one outside it, `{a,b}` for either of its branches, and a backslash
makes the next character stand for itself. Names are compared byte by byte.

A pattern is kept as the list of its branch-free readings; a name matches when one of them does.
-/

namespace FluidAnalysis.Files

/-- One element of a branch-free pattern. -/
inductive Atom where
  | byte (b : UInt8)
  | any
  | rest
  /-- One byte inside the ranges, or outside them when `negated`. -/
  | oneOf (negated : Bool) (ranges : List (UInt8 × UInt8))
deriving Repr, DecidableEq

/-- Whether an atom for a single byte takes this one. -/
def Atom.admits : Atom → UInt8 → Bool
  | .byte b, x => b == x
  | .any, _ => true
  | .rest, _ => false
  | .oneOf negated ranges, x =>
    negated != ranges.any fun (low, high) => decide (low ≤ x ∧ x ≤ high)

/-- What is wrong with a pattern. -/
inductive PatternFault where
  | unclosedClass
  | reversedRange (first last : Char)
  | unclosedBranches
  | unopenedBranches
  | danglingEscape
deriving Repr, DecidableEq

def PatternFault.message : PatternFault → String
  | .unclosedClass => "unclosed character class; missing ']'"
  | .reversedRange first last => s!"invalid range; '{first}' > '{last}'"
  | .unclosedBranches => "unclosed alternate group; missing closing brace"
  | .unopenedBranches => "unopened alternate group; missing opening brace"
  | .danglingEscape => "dangling escape"

/-- A pattern as its branch-free readings. -/
structure Pattern where
  readings : List (List Atom)
deriving Repr

namespace Pattern

/-! ## Matching -/

/-- Whether a branch-free reading fits a whole name. -/
def fits : List Atom → List UInt8 → Bool
  | [], [] => true
  | [], _ :: _ => false
  | .rest :: atoms, [] => fits atoms []
  | .rest :: atoms, b :: bytes => fits atoms (b :: bytes) || fits (.rest :: atoms) bytes
  | _ :: _, [] => false
  | atom :: atoms, b :: bytes => atom.admits b && fits atoms bytes
termination_by atoms bytes => atoms.length + bytes.length

/-- Whether a name matches. -/
def isMatch (p : Pattern) (name : String) : Bool :=
  p.readings.any fun atoms => fits atoms name.toUTF8.toList

/-! ## Reading -/

/-- The bytes of one character. -/
def charBytes (c : Char) : List UInt8 :=
  (String.ofList [c]).toUTF8.toList

def literal (c : Char) : List Atom :=
  (charBytes c).map .byte

/-- The byte ranges of a range of characters: its ends byte by byte, joined between the last byte
of the first character and the first byte of the last one. -/
def rangeBytes (first last : Char) : List (UInt8 × UInt8) :=
  let alone := (charBytes first).map fun b => (b, b)
  if first == last then alone
  else
    match (charBytes first).getLast?, charBytes last with
    | some low, high :: others => alone.dropLast ++ (low, high) :: others.map fun b => (b, b)
    | _, _ => alone

/-- A class while it is read: its ranges so far with the newest first, and whether a hyphen has
opened a range. -/
structure ClassState where
  ranges : List (Char × Char)
  opened : Bool

/-- Reads a class up to its closing bracket and gives its ranges with what follows. `first` says
that nothing has been read yet. -/
def readClass (state : ClassState) (first : Bool) :
    List Char → Except PatternFault (List (Char × Char) × List Char)
  | [] => .error .unclosedClass
  | c :: rest =>
    if c == ']' && !first then
      .ok (if state.opened then ('-', '-') :: state.ranges else state.ranges, rest)
    else if c == '-' && !first && !state.opened then
      readClass { state with opened := true } false rest
    else if state.opened then
      match state.ranges with
      | (low, _) :: others =>
        if c < low then .error (.reversedRange low c)
        else readClass ⟨(low, c) :: others, false⟩ false rest
      | [] => readClass ⟨[(c, c)], false⟩ false rest
    else readClass ⟨(c, c) :: state.ranges, false⟩ false rest

theorem readClass_length {state : ClassState} {first : Bool} {text : List Char}
    {ranges : List (Char × Char)} {rest : List Char}
    (h : readClass state first text = .ok (ranges, rest)) : rest.length < text.length := by
  induction text generalizing state first with
  | nil => simp [readClass] at h
  | cons c tail ih =>
    unfold readClass at h
    split at h
    · simp only [Except.ok.injEq, Prod.mk.injEq] at h
      simp [← h.2]
    · split at h
      · exact Nat.lt_succ_of_lt (ih h)
      · split at h
        · split at h
          · split at h
            · simp at h
            · exact Nat.lt_succ_of_lt (ih h)
          · exact Nat.lt_succ_of_lt (ih h)
        · exact Nat.lt_succ_of_lt (ih h)

/-- A group of branches while it is read: the readings of the finished branches, and those of the
current one. -/
structure Group where
  finished : List (List Atom)
  current : List (List Atom)

namespace Group

def start : Group := ⟨[], [[]]⟩

/-- Appends atoms to the current branch. -/
def add (g : Group) (atoms : List Atom) : Group :=
  { g with current := g.current.map (· ++ atoms) }

/-- Ends the current branch. An empty branch is dropped. -/
def endBranch (g : Group) : List (List Atom) :=
  if g.current == [[]] then g.finished else g.finished ++ g.current

/-- Appends a finished group to the current branch. -/
def addGroup (g inner : Group) : Group :=
  match inner.endBranch with
  | [] => g
  | readings => { g with current := g.current.flatMap fun left => readings.map (left ++ ·) }

end Group

/-- Reads a pattern. `outer` are the groups around the innermost one. -/
def readFrom (outer : List Group) (inner : Group) (text : List Char) :
    Except PatternFault (List (List Atom)) :=
  match text with
  | [] =>
    match outer with
    | [] => .ok inner.current
    | _ :: _ => .error .unclosedBranches
  | c :: rest =>
    if c == '?' then readFrom outer (inner.add [.any]) rest
    else if c == '*' then readFrom outer (inner.add [.rest]) rest
    else if c == '\x7b' then readFrom (inner :: outer) .start rest
    else if c == '\x7d' then
      match outer with
      | [] => .error .unopenedBranches
      | next :: others => readFrom others (next.addGroup inner) rest
    else if c == ',' then
      match outer with
      | [] => readFrom outer (inner.add (literal c)) rest
      | _ :: _ => readFrom outer ⟨inner.endBranch, [[]]⟩ rest
    else if c == '\\' then
      match rest with
      | [] => .error .danglingEscape
      | next :: others => readFrom outer (inner.add (literal next)) others
    else if c == '[' then
      let negated := rest.head? == some '!' || rest.head? == some '^'
      match h : readClass ⟨[], false⟩ true (if negated then rest.tail else rest) with
      | .error fault => .error fault
      | .ok (ranges, others) =>
        have : others.length < (c :: rest).length := by
          have := readClass_length h
          split at this <;> simp at * <;> omega
        let bytes := ranges.reverse.flatMap fun (low, high) => rangeBytes low high
        readFrom outer (inner.add [.oneOf negated bytes]) others
    else readFrom outer (inner.add (literal c)) rest
termination_by text.length
decreasing_by all_goals grind

/-- Reads a pattern. -/
def read (text : String) : Except PatternFault Pattern :=
  (readFrom [] .start text.toList).map fun readings => ⟨readings⟩

end Pattern

end FluidAnalysis.Files
