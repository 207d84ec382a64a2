import FluidAnalysis.Decimal.Reader
import FluidAnalysis.Table.Basic
import FluidAnalysis.Text.Lines

/-!
# Reading tables

One row per line, words separated by blanks, and everything from the first `#` of a line on is a
comment. Lines without words are passed over, but they count. The first faulty line is reported: by
its first word that is no number, or else by its width.
-/

namespace FluidAnalysis.Table

variable {α : Type}

/-- The words of a line that stand before its comment. -/
def dataWords (line : List Char) : List (List Char) :=
  Text.words (line.takeWhile (· != '#'))

/-- The numbers of one line. The fault is the first word that is none. -/
def readRow (cell : List Char → Option α) (line : Nat) :
    List (List Char) → Except Failure (List α)
  | [] => .ok []
  | word :: rest =>
    match cell word with
    | none => .error (.notANumber line (String.ofList word))
    | some value => (readRow cell line rest).map (value :: ·)

/-- Adds one line to a buffer. The first row gives the width. -/
def readLine (cell : List Char → Option α) (b : Buffer α) (number : Nat) (line : List Char) :
    Except Failure (Buffer α) := do
  let row ← readRow cell number (dataWords line)
  if row.isEmpty then return b
  else if b.columns = 0 then return ⟨row.length, b.values ++ row⟩
  else if row.length = b.columns then return ⟨b.columns, b.values ++ row⟩
  else throw (.raggedRow number b.columns row.length)

/-- Adds the lines from number `number` on. -/
def readLines (cell : List Char → Option α) (b : Buffer α) (number : Nat) :
    List (List Char) → Except Failure (Buffer α)
  | [] => .ok b
  | line :: rest => do
    let next ← readLine cell b number line
    readLines cell next (number + 1) rest

/-- A line adds what a push of its row adds. -/
theorem readLine_eq_push {cell : List Char → Option α} {b next : Buffer α} {number : Nat}
    {line : List Char} (h : readLine cell b number line = .ok next) :
    next = b ∨ ∃ row, next = (b.push row).2 := by
  unfold readLine at h
  cases hrow : readRow cell number (dataWords line) with
  | error e => simp [hrow, bind, Except.bind] at h
  | ok row =>
    simp only [hrow, bind, Except.bind, pure, Except.pure] at h
    split at h
    · exact .inl (Except.ok.inj h).symm
    · split at h
      · next hc => exact .inr ⟨row, by rw [← Except.ok.inj h, Buffer.push]; simp [hc]⟩
      · next hc =>
        split at h
        · next hw => exact .inr ⟨row, by rw [← Except.ok.inj h, Buffer.push]; simp [hc, hw]⟩
        · cases h

/-- Reading keeps a buffer whole. -/
theorem whole_readLines {cell : List Char → Option α} : ∀ {lines : List (List Char)}
    {b next : Buffer α} {number : Nat}, b.Whole → readLines cell b number lines = .ok next →
    next.Whole
  | [], b, next, number, hb, h => Except.ok.inj h ▸ hb
  | line :: rest, b, next, number, hb, h => by
    rw [readLines] at h
    cases hline : readLine cell b number line with
    | error e => simp [hline, bind, Except.bind] at h
    | ok middle =>
      rw [hline] at h
      have hmiddle : middle.Whole := by
        obtain rfl | ⟨row, rfl⟩ := readLine_eq_push hline
        · exact hb
        · exact hb.push row
      exact whole_readLines hmiddle h

/-- Reads a table whose cells are read by `cell`. -/
def parseWith (cell : List Char → Option α) (text : List Char) : Except Failure (Table α) :=
  match h : readLines cell Table.empty.toBuffer 1 (Text.lines text) with
  | .ok b => .ok ⟨b, whole_readLines Table.empty.whole h⟩
  | .error e => .error e

/-- Reads a table of doubles. -/
def parse (text : String) : Except Failure (Table Float) :=
  parseWith Decimal.readChars? text.toList

end FluidAnalysis.Table
