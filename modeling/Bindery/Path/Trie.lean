import Bindery.Entries
import Bindery.Fault

/-!
# A trie of paths

A trie over the components of paths, both kinds of slashes separating them, that finds the longest
inserted path which a path begins with.  The mark that ends an inserted path stands among the
branches, under a reserved name; a path that has that name as a component runs into marks, which
is a fault.

* `Trie.insert`, `Trie.longestPrefix?`
-/

namespace Bindery

/-- A trie of paths. -/
inductive Trie
  /-- The end of an inserted path, with its spelling. -/
  | mark (path : Text)
  /-- The continuations of a path by component. -/
  | branch (entries : List (Text × Trie))

namespace Trie

/-- The trie without any path. -/
def empty : Trie := .branch []

/-- The reserved name of marks. -/
def markName : Text := "__end__".toList

/-- The components of a path, slashes and backslashes separating them. -/
def components (path : Text) : List Text :=
  ((path.map fun c => if c = '\\' then '/' else c).splitOn '/').filter (!·.isEmpty)

/-- Whether a text occurs in another. -/
def occursIn (s : Text) : Text → Bool
  | [] => s.isEmpty
  | c :: r => s.isPrefixOf (c :: r) || occursIn s r

/-- Inserts a path under the components that are left of it. -/
def insertAt (path : Text) : Trie → List Text → Except Fault Trie
  | .mark _, [] => .error .markAsBranch
  | .mark _, _ :: _ => .error .belowMark
  | .branch es, [] => .ok (.branch (Entries.put markName (.mark path) es))
  | .branch es, c :: rest =>
    match insertAt path ((Entries.get? es c).getD empty) rest with
    | .error e => .error e
    | .ok child => .ok (.branch (Entries.put c child es))

/-- Inserts a path; the empty path is not inserted. -/
def insert (t : Trie) (path : Text) : Except Fault Trie :=
  if path.isEmpty then .ok t else insertAt path t (components path)

/-- What stands under the reserved name. -/
def markOf : Trie → Option Trie
  | .mark _ => none
  | .branch es => Entries.get? es markName

/-- Follows the components of a path; `last` is the mark passed last. -/
def follow (last : Option Trie) : Trie → List Text → Except Fault (Option Trie)
  | _, [] => .ok last
  | .mark path, c :: _ => if occursIn c path then .error .markAsBranch else .ok last
  | .branch es, c :: rest =>
    match Entries.get? es c with
    | none => .ok last
    | some (.mark path) =>
      if occursIn markName path then .error .markAsBranch else follow last (.mark path) rest
    | some (.branch es') => follow ((markOf (.branch es')).or last) (.branch es') rest

/-- The mark of the longest inserted path that a path begins with. -/
def longestPrefix? (t : Trie) (path : Text) : Except Fault (Option Trie) :=
  if path.isEmpty then .ok none else follow t.markOf t (components path)

end Trie

end Bindery
