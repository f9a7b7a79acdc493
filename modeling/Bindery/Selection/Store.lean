import Bindery.Files.Change
import Bindery.Json.Reader
import Bindery.Json.Writer
import Bindery.Selection.Basic
import Bindery.Text.Line

/-!
# The stored selection

The selection is kept in a file.  A file that is missing or holds no selection loads as none.
Beside it is a lock file, which is made if it is missing whenever the selection is loaded or stored,
and left as it is.

* `SelectionStore.load`, `SelectionStore.save`, `SelectionStore.clear`
-/

namespace Bindery

/-- The place of a stored selection. -/
structure SelectionStore where
  path : Path.Parsed
  deriving DecidableEq, Repr

namespace SelectionStore

/-- The store at a path. -/
def ofText (path : Text) : SelectionStore := ⟨.ofText path⟩

/-- The path of the lock file. -/
def lockPath (store : SelectionStore) : Path.Parsed :=
  store.path.withSuffix ".json.lock".toList

/-- The selection that the bytes of a file stand for. -/
def decode (bytes : List UInt8) : Except Fault Selection :=
  match Utf8.decode bytes with
  | .error _ => .ok .none
  | .ok text =>
    match Json.read (Text.unifyNewlines text) with
    | .error .tooDeep => .error .tooDeep
    | .error _ => .ok .none
    | .ok v => .ok (.ofJson v)

/-- The text of the file that stores a selection. -/
def encode (s : Selection) : Text :=
  Json.write (.indented true) s.toJson

/-- Makes the directory of the files, if it is missing, and takes the lock. -/
def acquire (store : SelectionStore) : HostChange Unit := do
  HostChange.makeDirectories store.path.parent
  HostChange.step (·.ensureFile store.lockPath.toText)

/-- Loads the stored selection. -/
def load (store : SelectionStore) : HostChange Selection := do
  if !(← (← get).satisfies (fun _ => true) store.path.toText) then return .none
  store.acquire
  match (← get).readBytes store.path.toText with
  | .error _ => return .none
  | .ok bytes => decode bytes

/-- Stores a selection. -/
def save (store : SelectionStore) (s : Selection) : HostChange Unit := do
  store.acquire
  HostChange.step (·.replaceFile store.path (Utf8.encode (encode s)))

/-- Stores that nothing is selected. -/
def clear (store : SelectionStore) : HostChange Unit :=
  store.save .none

end SelectionStore

end Bindery
