import FluidAnalysis.Launch.Job

/-!
# Shell lines

A job as a line for a shell. A word that is not made of harmless characters is put between single
quotes; a quote inside it closes the text, stands escaped, and opens it again.
-/

namespace FluidAnalysis.Launch

/-- The characters that mean themselves to a shell. -/
def isHarmless (c : Char) : Bool :=
  c.isAlphanum || ['-', '_', '.', '/', '=', '+', ':', ',', '%'].contains c

/-- A character between single quotes. -/
def quoteChar (c : Char) : List Char :=
  if c == '\'' then ['\'', '\\', '\'', '\''] else [c]

/-- A word as a shell reads it back. -/
def quoteChars (word : List Char) : List Char :=
  if !word.isEmpty && word.all isHarmless then word
  else '\'' :: (word.flatMap quoteChar ++ ['\''])

/-- A word as a shell reads it back. -/
def quote (word : String) : String :=
  String.ofList (quoteChars word.toList)

/-- The line that starts a job in the background. -/
def shellLine (s : Scheduler) (job : Job) : String :=
  let words := " ".intercalate ((s.commandLine job).map quote)
  s!"{words} > {quote job.log} 2>&1 &"

end FluidAnalysis.Launch
