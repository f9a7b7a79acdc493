import Bindery.Path.Basic

/-!
# Paths in parts

A path as its root and its names, empty and `.` components left out and `..` kept.  This is the
form in which the program names its own files.

* `Path.Parsed.ofText`, `Path.Parsed.toText`
* `Path.Parsed.append`, `parent`, `name`, `withSuffix`
-/

namespace Bindery.Path

/-- A path in parts. -/
structure Parsed where
  /-- The slashes in front: none, one or two. -/
  root : Text
  names : List Text
  deriving DecidableEq, Repr

namespace Parsed

/-- The parts of a path. -/
def ofText (p : Text) : Parsed :=
  ⟨rootOf p, (components p).filter (· != ['.'])⟩

/-- The text of a path; the empty path is a dot. -/
def toText (p : Parsed) : Text :=
  match p.root ++ List.intercalate ['/'] p.names with
  | [] => ['.']
  | q => q

/-- Whether the path begins at the root of the file system. -/
def isAbsolute (p : Parsed) : Bool :=
  !p.root.isEmpty

/-- A path below another; an absolute one stands alone. -/
def append (base p : Parsed) : Parsed :=
  if p.isAbsolute then p else ⟨base.root, base.names ++ p.names⟩

/-- The path of the directory that holds the last name; a path without names is its own. -/
def parent (p : Parsed) : Parsed :=
  ⟨p.root, p.names.dropLast⟩

/-- The last name. -/
def name (p : Parsed) : Text :=
  p.names.getLastD []

/-- The name with its extension, if it has one, replaced.  A dot in front or at the end of a name
begins no extension. -/
def nameWithSuffix (name suffix : Text) : Text :=
  let stem := (Text.uptoLast '.' name).dropLast
  let extension := Text.afterLast '.' name
  if stem.isEmpty ∨ extension.isEmpty then name ++ suffix else stem ++ suffix

/-- The path with the extension of its last name replaced. -/
def withSuffix (p : Parsed) (suffix : Text) : Parsed :=
  ⟨p.root, p.names.dropLast ++ [nameWithSuffix p.name suffix]⟩

end Parsed

end Bindery.Path
