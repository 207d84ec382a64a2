import FluidAnalysis.Files.Cause
import FluidAnalysis.Files.Path

/-!
# File trees

The files below and around a working directory, as a value. A file operation takes a tree and gives
an answer, or a new tree, or the cause of its failure.

A place in the tree is a list of names, read from the working directory. Names `..` at its start
climb above the working directory, and a name `/` at its start stands for the root; these places are
directories that are always there.
-/

namespace FluidAnalysis.Files

/-- What stands at a place. -/
inductive Node where
  | file (content : ByteArray)
  | directory

/-- Names from the working directory to a place. -/
abbrev Place := List String

namespace Place

/-- The places that are directories in every tree. -/
def isBase (place : Place) : Bool :=
  place == ["/"] || place.all (· == "..")

/-- The directory that holds a place. -/
def climb (place : Place) : Place :=
  if place == ["/"] then place
  else if place.isBase then place ++ [".."]
  else place.dropLast

end Place

/-- The files and directories that exist, apart from the base places. -/
structure Tree where
  entries : List (Place × Node)

namespace Tree

/-- The working directory and nothing in it. -/
def empty : Tree := ⟨[]⟩

/-! ## Finding places -/

/-- What stands at a place, if anything. -/
def node? (t : Tree) (place : Place) : Option Node :=
  if place.isBase then some .directory
  else (t.entries.find? fun entry => entry.1 == place).map Prod.snd

/-- The longest name that a directory takes, in bytes. -/
def maxName : Nat := 255

/-- The longest path that is looked up, in bytes. -/
def maxPath : Nat := 4095

/-- One step from a place, which must be a directory. The place it leads to need not exist. -/
def step (t : Tree) (place : Place) (name : String) : Except Cause Place :=
  match t.node? place with
  | none => .error .notFound
  | some (.file _) => .error .notADirectory
  | some .directory =>
    if name == "" || name == "." then .ok place
    else if name == ".." then .ok place.climb
    else if maxName < name.utf8ByteSize then .error .nameTooLong
    else .ok (place ++ [name])

/-- Several steps from a place. -/
def follow (t : Tree) (place : Place) : List String → Except Cause Place
  | [] => .ok place
  | name :: rest =>
    match t.step place name with
    | .ok next => t.follow next rest
    | .error cause => .error cause

/-- Where a path starts. -/
def start (p : Path) : Place :=
  if p.isAbsolute then ["/"] else []

/-- The place a path leads to. Everything on the way is there; the place itself need not be. -/
def locate (t : Tree) (p : Path) : Except Cause Place :=
  if p.isEmpty then .error .notFound
  else if maxPath < p.utf8ByteSize then .error .nameTooLong
  else t.follow (start p) p.pieces

/-- What a path leads to. -/
def lookup (t : Tree) (p : Path) : Except Cause Node :=
  match t.locate p with
  | .error cause => .error cause
  | .ok place =>
    match t.node? place with
    | none => .error .notFound
    | some node => .ok node

/-- Where a path that is to be created leads: the directory that is to hold it, its name, and
whether slashes follow the name. -/
structure Target where
  directory : Place
  name : String
  slash : Bool

/-- Resolves all but the last name of a path. -/
def target (t : Tree) (p : Path) : Except Cause Target :=
  if p.isEmpty then .error .notFound
  else if maxPath < p.utf8ByteSize then .error .nameTooLong
  else
    let named := (p.pieces.reverse.dropWhile (· == "")).reverse
    match t.follow (start p) named.dropLast with
    | .error cause => .error cause
    | .ok directory =>
      .ok ⟨directory, named.getLast?.getD ".", decide (named.length < p.pieces.length)⟩

/-! ## Reading -/

/-- The content of a file. -/
def readBytes (t : Tree) (p : Path) : Except Cause ByteArray :=
  match t.lookup p with
  | .error cause => .error cause
  | .ok .directory => .error .isADirectory
  | .ok (.file content) => .ok content

/-- The content of a file as text. -/
def readText (t : Tree) (p : Path) : Except Cause String :=
  match t.readBytes p with
  | .error cause => .error cause
  | .ok content =>
    match String.fromUTF8? content with
    | some text => .ok text
    | none => .error .notText

def isFile (t : Tree) (p : Path) : Bool :=
  match t.lookup p with
  | .ok (.file _) => true
  | _ => false

def isDirectory (t : Tree) (p : Path) : Bool :=
  match t.lookup p with
  | .ok .directory => true
  | _ => false

/-- The names in a directory. -/
def names (t : Tree) (p : Path) : Except Cause (List String) :=
  match t.locate p with
  | .error cause => .error cause
  | .ok place =>
    match t.node? place with
    | none => .error .notFound
    | some (.file _) => .error .notADirectory
    | some .directory =>
      .ok (t.entries.filterMap fun entry =>
        if entry.1.dropLast == place then entry.1.getLast? else none)

/-- The files below the working directory with their paths. -/
def files (t : Tree) : List (Path × ByteArray) :=
  t.entries.filterMap fun (place, node) =>
    match node with
    | .file content =>
      if place.head? == some "/" || place.head? == some ".." then none
      else some ("/".intercalate place, content)
    | .directory => none

/-! ## Writing -/

/-- The tree with a node at a place. -/
def set (t : Tree) (place : Place) (node : Node) : Tree :=
  if t.entries.any fun entry => entry.1 == place then
    ⟨t.entries.map fun entry => if entry.1 == place then (place, node) else entry⟩
  else ⟨t.entries ++ [(place, node)]⟩

/-- Creates a file or replaces its content. -/
def write (t : Tree) (p : Path) (content : ByteArray) : Except Cause Tree :=
  match t.target p with
  | .error cause => .error cause
  | .ok target =>
    match t.step target.directory target.name with
    | .error cause => .error cause
    | .ok place =>
      if target.slash || target.name == "." || target.name == ".." then .error .isADirectory
      else
        match t.node? place with
        | some .directory => .error .isADirectory
        | _ => .ok (t.set place (.file content))

/-- Creates one directory. -/
def makeDirectory (t : Tree) (p : Path) : Except Cause Tree :=
  match t.target p with
  | .error cause => .error cause
  | .ok target =>
    match t.step target.directory target.name with
    | .error cause => .error cause
    | .ok place =>
      match t.node? place with
      | some _ => .error .alreadyExists
      | none => .ok (t.set place .directory)

/-- Makes the first of the paths a directory, after the ones behind it if it needs them. What was
created stays when a later step fails. -/
def ensureDirectory (t : Tree) : List Path → Except Cause Unit × Tree
  | [] => (.ok (), t)
  | p :: parents =>
    let settle (t : Tree) (cause : Cause) : Except Cause Unit × Tree :=
      if t.isDirectory p then (.ok (), t) else (.error cause, t)
    match t.makeDirectory p with
    | .ok next => (.ok (), next)
    | .error .notFound =>
      match t.ensureDirectory parents with
      | (.error cause, next) => (.error cause, next)
      | (.ok (), next) =>
        match next.makeDirectory p with
        | .ok last => (.ok (), last)
        | .error cause => settle next cause
    | .error cause => settle t cause

/-- Creates a directory and all that are missing above it. -/
def makeDirectories (t : Tree) (p : Path) : Except Cause Unit × Tree :=
  t.ensureDirectory (p.ancestors (p.length + 1))

end Tree

end FluidAnalysis.Files
