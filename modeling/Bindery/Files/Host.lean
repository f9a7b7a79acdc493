import Bindery.Fault
import Bindery.Files.Tree
import Bindery.Path.Parsed
import Bindery.Text.Utf8

/-!
# The host

What a run of the program finds around it: a file tree, the working directory and the home
directories.  Paths are looked up name by name from the root or the working directory; symbolic
links are followed, at most forty of them for one path.  The working directory may be removed while
the program is in it: then it has no path any more, and only `..` still leads out of it.

* `Host.locate` looks up a path; `Host.node`, `Host.entries`, `Host.readBytes` read.
* `Host.absolute` and `Host.relativeTo` are the paths that need the working directory.
* `Host.writeFile`, `Host.ensureFile`, `Host.replaceFile` and `Host.remove` change the tree, as a
  whole or, with a fault, not at all.
-/

namespace Bindery

/-- The surroundings of a run. -/
structure Host where
  /-- The root of the file tree. -/
  tree : Node
  /-- The place of the working directory, or of the nearest directory above it that is left. -/
  directory : List Text
  /-- How many directories from there down to the working directory have been removed. -/
  lost : Nat
  /-- The home directory of the one who runs the program. -/
  home : Text
  /-- The home directories of the known users. -/
  users : List (Text × Text)
  /-- How many times have been given to files so far. -/
  clock : Nat

namespace Host

/-- The path of a place. -/
def pathOf (place : List Text) : Text :=
  '/' :: List.intercalate ['/'] place

/-- The path of the working directory; a removed one has none. -/
def currentPath (h : Host) : Except Fault Text :=
  if h.lost = 0 then .ok (pathOf h.directory) else .error (.file .notFound)

/-- The normalized absolute path of a path. -/
def absolute (h : Host) (path : Text) : Except Fault Text :=
  if Path.isAbsolute path then .ok (Path.normalize path)
  else h.currentPath.map fun d => Path.normalize (Path.join d path)

/-- The path that leads from a directory to a path; nothing leads to the empty path, which stays as
it is. -/
def relativeTo (h : Host) (path start : Text) : Except Fault Text :=
  if path.isEmpty then .ok path
  else
    match h.absolute start, h.absolute path with
    | .ok origin, .ok target => .ok (Path.leading origin target)
    | .error e, _ => .error e
    | _, .error e => .error e

/-! ## Looking up paths -/

/-- A path of this many bytes or more is refused. -/
def maxPathBytes : Nat := 4096

/-- A name of more bytes is refused. -/
def maxNameBytes : Nat := 255

/-- The number of links followed for one path. -/
def maxLinks : Nat := 40

/-- Where a path leads: a node, or a name that its directory does not have. -/
structure Location where
  place : List Text
  node : Option Node

/-- What a path is looked up for. -/
inductive Purpose
  /-- What is at the path itself, be it a link. -/
  | entry
  /-- What the path leads to, links followed. -/
  | target
  /-- A file to be written where the path leads to, be it there or not. -/
  | output
  deriving DecidableEq, Repr

/-- Whether nothing but slashes follows a name.  Such a name is that of a directory. -/
def endsInSlash (rest : List Text) : Bool :=
  !rest.isEmpty && rest.all List.isEmpty

/-- Follows names from a place.  `links` is the number of links that may still be followed. -/
def walk (tree : Node) (purpose : Purpose) (links : Nat) (place : List Text) :
    List Text → Except FileError Location
  | [] => .ok ⟨place, tree.get? place⟩
  | name :: rest =>
    if name = [] ∨ name = ['.'] then walk tree purpose links place rest
    else if name = ['.', '.'] then walk tree purpose links place.dropLast rest
    else if purpose = .output ∧ endsInSlash rest then .error .isDirectory
    else if maxNameBytes < Utf8.byteLength name then .error .nameTooLong
    else
      match tree.get? (place ++ [name]) with
      | none => if rest.isEmpty then .ok ⟨place ++ [name], none⟩ else .error .notFound
      | some (.directory _) => walk tree purpose links (place ++ [name]) rest
      | some (.file bytes stamp) =>
        if rest.isEmpty then .ok ⟨place ++ [name], some (.file bytes stamp)⟩
        else .error .notDirectory
      | some (.link target) =>
        if rest.isEmpty ∧ purpose = .entry then .ok ⟨place ++ [name], some (.link target)⟩
        else
          match links with
          | 0 => .error .tooManyLinks
          | links + 1 =>
            let start := if Path.isAbsolute target then [] else place
            walk tree purpose links start (target.splitOn '/' ++ rest)
  termination_by todo => (links, todo.length)

/-- Follows names out of a working directory of which the last `lost` directories are removed: the
number of removed directories that one is still in, and the names that remain. -/
def climb (purpose : Purpose) : Nat → List Text → Except FileError (Nat × List Text)
  | 0, names => .ok (0, names)
  | lost + 1, [] => .ok (lost + 1, [])
  | lost + 1, name :: rest =>
    if name = [] ∨ name = ['.'] then climb purpose (lost + 1) rest
    else if name = ['.', '.'] then climb purpose lost rest
    else if purpose = .output ∧ endsInSlash rest then .error .isDirectory
    else .error .notFound

/-- Follows names from the working directory.  A removed directory is empty. -/
def walkHere (h : Host) (purpose : Purpose) (names : List Text) : Except FileError Location :=
  match climb purpose h.lost names with
  | .error e => .error e
  | .ok (0, names) => walk h.tree purpose maxLinks h.directory names
  | .ok (_ + 1, _) => .ok ⟨h.directory, some .emptyDirectory⟩

/-- Looks up a path. -/
def locate (h : Host) (purpose : Purpose) (path : Text) : Except Fault Location :=
  if path.contains '\x00' then .error .nullCharacter
  else if path.isEmpty then .error (.file .notFound)
  else if maxPathBytes ≤ Utf8.byteLength path then .error (.file .nameTooLong)
  else
    let names := path.splitOn '/'
    let found :=
      if Path.isAbsolute path then walk h.tree purpose maxLinks [] names
      else h.walkHere purpose names
    found.mapError .file

/-- The node at a path, which must be there. -/
def nodeAt (h : Host) (purpose : Purpose) (path : Text) : Except Fault Node :=
  match h.locate purpose path with
  | .error e => .error e
  | .ok ⟨_, some n⟩ => .ok n
  | .ok ⟨_, none⟩ => .error (.file .notFound)

/-- The node that a path leads to, links followed. -/
def node (h : Host) (path : Text) : Except Fault Node :=
  h.nodeAt .target path

/-- The node at a path itself, which may be a link. -/
def linkNode (h : Host) (path : Text) : Except Fault Node :=
  h.nodeAt .entry path

/-- Whether something is at a path, be it a link that leads nowhere. -/
def hasEntry (h : Host) (path : Text) : Bool :=
  match h.linkNode path with
  | .ok _ => true
  | .error _ => false

/-- Whether a path leads to a regular file. -/
def isFile (h : Host) (path : Text) : Bool :=
  match h.node path with
  | .ok n => n.isFile
  | .error _ => false

/-- Whether a path leads to a directory. -/
def isDirectory (h : Host) (path : Text) : Bool :=
  match h.node path with
  | .ok n => n.isDirectory
  | .error _ => false

/-- Whether a question about a path has an answer in spite of an error: something that is not
there, or that links do not lead to, is simply not there. -/
def isAbsence : Fault → Bool
  | .nullCharacter => true
  | .file .notFound => true
  | .file .notDirectory => true
  | .file .tooManyLinks => true
  | _ => false

/-- Whether the node that a path leads to has a property, where errors other than its absence
matter. -/
def satisfies (h : Host) (property : Node → Bool) (path : Text) : Except Fault Bool :=
  match h.node path with
  | .ok n => .ok (property n)
  | .error e => if isAbsence e then .ok false else .error e

/-! ## Reading -/

mutual

/-- The files below a place that were written by the program, with their paths. -/
def writtenBelow (place : List Text) : Node → List (Text × List UInt8)
  | .file bytes (.fresh _) => [(pathOf place, bytes)]
  | .file _ (.given _) => []
  | .link _ => []
  | .directory es => writtenAmong place es

/-- The files among and below entries that were written by the program, with their paths. -/
def writtenAmong (place : List Text) : List (Text × Node) → List (Text × List UInt8)
  | [] => []
  | (name, n) :: r => writtenBelow (place ++ [name]) n ++ writtenAmong place r

end

/-- The files that were written by the program, with their paths. -/
def written (h : Host) : List (Text × List UInt8) :=
  writtenBelow [] h.tree

/-- The number of bytes that a directory is said to have. -/
def directorySize : Nat := 4096

/-- The number of bytes of a node. -/
def sizeOf : Node → Nat
  | .file bytes _ => bytes.length
  | .link target => Utf8.byteLength target
  | .directory _ => directorySize

/-- The entries of the directory at a path, as they are listed there. -/
def entries (h : Host) (path : Text) : Except Fault (List (Text × Node)) :=
  match h.node path with
  | .error e => .error e
  | .ok (.directory es) => .ok es
  | .ok _ => .error (.file .notDirectory)

/-- The names of the entries of the directory at a path. -/
def entryNames (h : Host) (path : Text) : Except Fault (List Text) :=
  (h.entries path).map fun es => es.map Prod.fst

/-- The bytes of the file at a path. -/
def readBytes (h : Host) (path : Text) : Except Fault (List UInt8) :=
  match h.node path with
  | .error e => .error e
  | .ok (.file bytes _) => .ok bytes
  | .ok _ => .error (.file .isDirectory)

/-! ## Changing the tree -/

/-- Writes a file, with a time or the next fresh one. -/
def writeStamped (h : Host) (path : Text) (bytes : List UInt8) (seconds : Option Int) :
    Except Fault Host :=
  match h.locate .output path with
  | .error e => .error e
  | .ok ⟨place, n⟩ =>
    if n.any Node.isDirectory then .error (.file .isDirectory)
    else
      let stamp := match seconds with
        | some s => .given s
        | none => .fresh h.clock
      .ok { h with tree := h.tree.set (.file bytes stamp) place, clock := h.clock + 1 }

/-- Writes a file. -/
def writeFile (h : Host) (path : Text) (bytes : List UInt8) : Except Fault Host :=
  h.writeStamped path bytes none

/-- Makes a symbolic link. -/
def makeLink (h : Host) (path target : Text) : Except Fault Host :=
  match h.locate .entry path with
  | .error e => .error e
  | .ok ⟨_, some _⟩ => .error (.file .alreadyExists)
  | .ok ⟨place, none⟩ => .ok { h with tree := h.tree.set (.link target) place }

/-- Makes a directory. -/
def makeDirectory (h : Host) (path : Text) : Except Fault Host :=
  match h.locate .entry path with
  | .error e => .error e
  | .ok ⟨_, some _⟩ => .error (.file .alreadyExists)
  | .ok ⟨place, none⟩ => .ok { h with tree := h.tree.set .emptyDirectory place }

/-- Makes an empty file if nothing is there.  A link in its place is refused. -/
def ensureFile (h : Host) (path : Text) : Except Fault Host :=
  match h.locate .entry path with
  | .error e => .error e
  | .ok ⟨_, some (.directory _)⟩ => .error (.file .isDirectory)
  | .ok ⟨_, some (.link _)⟩ => .error (.file .tooManyLinks)
  | .ok ⟨_, some (.file _ _)⟩ => .ok h
  | .ok ⟨place, none⟩ =>
    .ok { h with tree := h.tree.set (.file [] (.fresh h.clock)) place, clock := h.clock + 1 }

/-- The path at which a file is written before it takes the place of the one at `path`: what follows
the name stands for the number of the process and the time in milliseconds. -/
def draftPath (path : Path.Parsed) : Path.Parsed :=
  path.parent.append ⟨[], [path.name ++ ".tmp.00000.0000000000000".toList]⟩

/-- Puts a new file in the place of whatever is at a path, unless that is a directory.  The file is
written beside it first. -/
def replaceFile (h : Host) (path : Path.Parsed) (bytes : List UInt8) : Except Fault Host :=
  match h.locate .output (draftPath path).toText, h.locate .entry path.toText with
  | .error e, _ => .error e
  | _, .error e => .error e
  | .ok _, .ok ⟨place, n⟩ =>
    if path.name.isEmpty || path.name == ['.', '.'] then .error (.file .busy)
    else if n.any Node.isDirectory then .error (.file .isDirectory)
    else
      let tree := h.tree.set (.file bytes (.fresh h.clock)) place
      .ok { h with tree, clock := h.clock + 1 }

/-- Makes a path the working directory. -/
def enter (h : Host) (path : Text) : Except Fault Host :=
  match h.locate .target path with
  | .error e => .error e
  | .ok ⟨_, none⟩ => .error (.file .notFound)
  | .ok ⟨place, some n⟩ =>
    if n.isDirectory then .ok { h with directory := place, lost := 0 }
    else .error (.file .notDirectory)

/-- Removes the node at a place.  If the working directory is in it, that is lost with it. -/
def removeAt (h : Host) (place : List Text) : Host :=
  let tree := h.tree.erase place
  if place.isPrefixOf h.directory then
    { h with
      tree
      directory := place.dropLast
      lost := h.lost + (h.directory.length - place.dropLast.length) }
  else { h with tree }

/-- Removes what is at a path. -/
def remove (h : Host) (path : Text) : Except Fault Host :=
  match h.locate .entry path with
  | .error e => .error e
  | .ok ⟨_, none⟩ => .error (.file .notFound)
  | .ok ⟨place, some _⟩ => .ok (h.removeAt place)

end Host

end Bindery
