import Bindery.Entries

/-!
# File trees

A file tree as a value: files with their bytes, symbolic links with their target, directories with
named entries.  A place in a tree is the list of the names that lead to it.

* `Node.get?` looks up a place; `Node.set` and `Node.erase` change one.
-/

namespace Bindery

/-- When a file was last changed.  Times the program sets itself are all different. -/
inductive Stamp
  | given (seconds : Int)
  | fresh (count : Nat)
  deriving DecidableEq, Repr

/-- A node of a file tree. -/
inductive Node
  | file (bytes : List UInt8) (stamp : Stamp)
  | link (target : Text)
  | directory (entries : List (Text × Node))

namespace Node

/-- A directory without entries. -/
def emptyDirectory : Node := .directory []

/-- Whether a node is a directory. -/
def isDirectory : Node → Bool
  | .directory _ => true
  | _ => false

/-- Whether a node is a regular file. -/
def isFile : Node → Bool
  | .file _ _ => true
  | _ => false

/-- The entries of a directory; no other node has any. -/
def entries : Node → Entries Node
  | .directory es => es
  | _ => []

/-- The node at a place. -/
def get? (n : Node) : List Text → Option Node
  | [] => some n
  | name :: rest =>
    match Entries.get? n.entries name with
    | some child => child.get? rest
    | none => none

/-- Puts a node at a place; directories on the way are made if they are missing. -/
def set (n : Node) (new : Node) : List Text → Node
  | [] => new
  | name :: rest =>
    let child := (Entries.get? n.entries name).getD emptyDirectory
    .directory (Entries.put name (child.set new rest) n.entries)

/-- Removes the node at a place. -/
def erase (n : Node) : List Text → Node
  | [] => n
  | [name] => .directory (n.entries.filter (·.1 != name))
  | name :: rest =>
    match Entries.get? n.entries name with
    | some child => .directory (Entries.put name (child.erase rest) n.entries)
    | none => n

end Node

end Bindery
