import Bindery.Entries
import Bindery.Files.Host
import Bindery.Text.Line

/-!
# Ignore files

The lines of ignore files, remembered as long as the time and the size of a file stay the same.  A
file that is missing or cannot be read has no lines, and bytes that are not UTF-8 are replaced.

* `IgnoreCache.lines` gives the lines, `IgnoreCache.refresh` what is remembered afterwards.
-/

namespace Bindery

/-- The lines of a file as they were when it had a time and a size. -/
structure IgnoreSnapshot where
  stamp : Stamp
  size : Nat
  lines : List Text

/-- The remembered lines of ignore files, by path. -/
structure IgnoreCache where
  snapshots : Entries IgnoreSnapshot

namespace IgnoreCache

/-- Nothing is remembered. -/
def empty : IgnoreCache := ⟨[]⟩

/-- The path of the ignore file of a root. -/
def pathOf (root name : Text) : Text :=
  ((Path.Parsed.ofText root).append (.ofText name)).toText

/-- The lines of a file's bytes. -/
def linesOf (bytes : List UInt8) : List Text :=
  Text.lines (Text.unifyNewlines (Utf8.decodeReplacing bytes))

/-- The lines of a file: the remembered ones if its time and size are the same. -/
def linesAt (c : IgnoreCache) (path : Text) (bytes : List UInt8) (stamp : Stamp) : List Text :=
  match c.snapshots.get? path with
  | some s => if s.stamp = stamp ∧ s.size = bytes.length then s.lines else linesOf bytes
  | none => linesOf bytes

/-- The lines of the ignore file of a root. -/
def lines (c : IgnoreCache) (h : Host) (root name : Text) : Except Fault (List Text) :=
  match h.node (pathOf root name) with
  | .ok (.file bytes stamp) => .ok (c.linesAt (pathOf root name) bytes stamp)
  | .ok _ => .ok []
  | .error (.file _) => .ok []
  | .error e => .error e

/-- What is remembered after the ignore file of a root was asked for. -/
def refresh (c : IgnoreCache) (h : Host) (root name : Text) : IgnoreCache :=
  let path := pathOf root name
  match h.node path with
  | .ok (.file bytes stamp) =>
    ⟨c.snapshots.put path ⟨stamp, bytes.length, c.linesAt path bytes stamp⟩⟩
  | .ok _ => c
  | .error (.file _) => ⟨c.snapshots.remove path⟩
  | .error _ => c

end IgnoreCache

end Bindery
