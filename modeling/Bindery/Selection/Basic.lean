import Bindery.Fault
import Bindery.Json.Value
import Bindery.Text.Blank

/-!
# Selections

What is to be rendered: nothing, the files of named profiles, or all files.  The names of a
selection are trimmed, not empty and all different, and there is at least one.

* `Selection.ofNames`, `Selection.ofValues`, `Selection.ofJson` make selections.
* `Selection.toJson` is the stored form.
-/

namespace Bindery

/-- What is to be rendered. -/
inductive Selection
  | none
  | profiles (names : List Text)
  | allFiles
  deriving DecidableEq, Repr

namespace Selection

/-- The selection of named profiles: names are trimmed, and empty ones and repetitions dropped. -/
def ofNames (names : List Text) : Selection :=
  match ((names.map Text.trim).filter (!·.isEmpty)).eraseDups with
  | [] => .none
  | names => .profiles names

/-- The names of a selection. -/
def names : Selection → List Text
  | .profiles names => names
  | _ => []

/-- Whether nothing is selected. -/
def isEmpty : Selection → Bool
  | .none => true
  | _ => false

/-- Whether all files are selected. -/
def isAllFiles : Selection → Bool
  | .allFiles => true
  | _ => false

/-- The word for the kind of a selection. -/
def mode : Selection → Text
  | .none => "none".toList
  | .profiles _ => "profiles".toList
  | .allFiles => "all_files".toList

/-! ## Selections and values -/

/-- Whether a value counts as nothing. -/
def isNothing : Json → Bool
  | .null => true
  | .bool b => !b
  | .integer n => n == 0
  | .real (.finite _ m _) => m == 0
  | .real _ => false
  | .string s => s.isEmpty
  | .array items => items.isEmpty
  | .object members => members.isEmpty

/-- The name that a value stands for; only a text, or a value that counts as nothing, is one. -/
def nameOf : Json → Except Fault Text
  | .string s => .ok s
  | v => if isNothing v then .ok [] else .error .notText

/-- The selection of profiles whose names are given as values. -/
def ofValues (values : List Json) : Except Fault Selection :=
  (values.mapM nameOf).map ofNames

/-- The stored form of a selection. -/
def toJson (s : Selection) : Json :=
  .object [("mode".toList, .string s.mode), ("names".toList, .array (s.names.map .string))]

/-- The selection of a stored form; anything unknown is no selection.  Names that are not texts
are taken by their text. -/
def ofJson (v : Json) : Selection :=
  match v with
  | .object _ =>
    match v.get? "mode".toList with
    | some (.string mode) =>
      if mode = "all_files".toList then .allFiles
      else if mode = "profiles".toList then
        match v.get? "names".toList with
        | some (.array names) => ofNames (names.map Json.toText)
        | _ => .none
      else .none
    | _ => .none
  | _ => .none

end Selection

end Bindery
