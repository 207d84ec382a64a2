import FluidAnalysis.Command.Run

/-!
# The program

The working directory is read into a file tree, the command line runs on the tree, and the files
that differ afterwards are written back.
-/

namespace FluidAnalysis.WorkingDirectory

open Files

/-- The path of an entry of a directory; that of the working directory is empty. -/
def below (directory : Path) (name : String) : Path :=
  if directory.isEmpty then name else directory ++ "/" ++ name

/-- Adds an entry of a directory and all below it. What cannot be read is left out. -/
partial def addEntry (directory : Path) (files : Tree) (entry : IO.FS.DirEntry) : IO Tree := do
  let path := below directory entry.fileName
  try
    if ← entry.path.isDir then
      (← entry.path.readDir).foldlM (addEntry path) (files.makeDirectories path).2
    else
      let content ← IO.FS.readBinFile entry.path
      return (files.write path content).toOption.getD files
  catch _ => return files

/-- All files below the working directory. -/
def read : IO Tree := do
  (← (← IO.currentDir).readDir).foldlM (addEntry "") .empty

/-- Writes the files of `after` that are not the same in `before`. -/
def update (before after : Tree) : IO Unit :=
  after.files.forM fun (path, content) => do
    let known := (before.readBytes path).toOption.map ByteArray.toList
    unless known == some content.toList do
      if let some parent := path.parent? then
        unless parent.isEmpty do IO.FS.createDirAll parent
      IO.FS.writeBinFile path content

end FluidAnalysis.WorkingDirectory

open FluidAnalysis in
def main (arguments : List String) : IO UInt32 := do
  let before ← WorkingDirectory.read
  let (outcome, after) := Command.run Launch.Programs.standard arguments before
  WorkingDirectory.update before after
  match outcome with
  | .ok lines =>
    lines.forM fun line => IO.println line
    return 0
  | .error failure =>
    let diagnostic := failure.diagnostic
    IO.eprintln diagnostic.line
    if let some line := diagnostic.fatalLine? then IO.eprintln line
    return UInt32.ofNat diagnostic.category.exitCode
