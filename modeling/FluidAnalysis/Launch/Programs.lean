import FluidAnalysis.Files.Tree

/-!
# Programs

What a started program leaves in its log. A program is found by its name; one with a slash in its
name would have to be a file, and no file of a tree may be started.
-/

namespace FluidAnalysis.Launch

open Files

/-- The programs of a machine: what each writes, given its arguments. -/
abbrev Programs := String → Option (List String → String)

namespace Programs

/-- Whether an argument of `echo` is an option. -/
def isEchoOption (argument : String) : Bool :=
  match argument.toList with
  | '-' :: c :: rest => (c :: rest).all fun o => ['n', 'e', 'E'].contains o
  | _ => false

/-- The arguments with blanks between them, and a line end unless an option drops it. -/
def echo (arguments : List String) : String :=
  let options := arguments.takeWhile isEchoOption
  let text := " ".intercalate (arguments.dropWhile isEchoOption)
  if options.any fun o => o.toList.contains 'n' then text else text ++ "\n"

/-- The programs that every machine has. -/
def standard : Programs
  | "true" => some fun _ => ""
  | "false" => some fun _ => ""
  | "echo" => some echo
  | _ => none

/-- Finds a program. -/
def find (programs : Programs) (files : Tree) (name : String) :
    Except Cause (List String → String) :=
  if name.toList.contains '/' then
    match files.lookup name with
    | .ok _ => .error .permissionDenied
    | .error cause => .error cause
  else
    match programs name with
    | some program => .ok program
    | none => .error .notFound

end Programs

end FluidAnalysis.Launch
