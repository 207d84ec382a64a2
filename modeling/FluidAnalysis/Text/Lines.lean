import FluidAnalysis.Text.Blank

/-!
# Lines and words

Texts are taken apart as lists of characters.
-/

namespace FluidAnalysis.Text

/-- The pieces of a text between the occurrences of a separator. There is always at least one. -/
def pieces (separator : Char) : List Char → List (List Char)
  | [] => [[]]
  | c :: rest =>
    if c == separator then [] :: pieces separator rest
    else
      match pieces separator rest with
      | [] => [[c]]
      | first :: others => (c :: first) :: others

/-- Drops one carriage return at the end. -/
def dropReturn (line : List Char) : List Char :=
  if line.getLast? == some '\r' then line.dropLast else line

/-- The lines of a text. A line ends with a line feed, or with a carriage return and a line feed; the
last one may lack its end, and nothing after the last line feed is no line. -/
def lines (text : List Char) : List (List Char) :=
  let ps := pieces '\n' text
  let complete := ps.dropLast.map dropReturn
  match ps.getLast? with
  | some (c :: rest) => complete ++ [c :: rest]
  | _ => complete

/-- The maximal runs of characters that are not blank. -/
def words : List Char → List (List Char)
  | [] => []
  | c :: rest =>
    if isBlank c then words rest
    else
      match rest with
      | [] => [[c]]
      | next :: _ =>
        if isBlank next then [c] :: words rest
        else
          match words rest with
          | [] => [[c]]
          | first :: others => (c :: first) :: others

/-- Drops the blanks at the start. -/
def trimStart (text : List Char) : List Char :=
  text.dropWhile isBlank

/-- What follows a beginning, if the text has it. -/
def after? : (beginning text : List Char) → Option (List Char)
  | [], text => some text
  | _ :: _, [] => none
  | b :: bs, c :: cs => if b == c then after? bs cs else none

/-! ## Line ends -/

/-- Writes every line end as one line feed. -/
def unifyLineEnds : List Char → List Char
  | [] => []
  | '\r' :: '\n' :: rest => '\n' :: unifyLineEnds rest
  | '\r' :: rest => '\n' :: unifyLineEnds rest
  | c :: rest => c :: unifyLineEnds rest

/-- The text as it is stored: line feeds only, and one at the end unless the text is empty. -/
def normalizeChars (text : List Char) : List Char :=
  let unified := unifyLineEnds text
  if unified.isEmpty || unified.getLast? == some '\n' then unified else unified ++ ['\n']

/-- The text as it is stored: line feeds only, and one at the end unless the text is empty. -/
def normalize (text : String) : String :=
  String.ofList (normalizeChars text.toList)

end FluidAnalysis.Text
