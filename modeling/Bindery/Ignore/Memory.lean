import Std.Data.HashMap
import Bindery.Ignore.Rules

/-!
# Remembered answers of ignore rules

Ignore rules with a bounded memory of the answers they gave.  When there are more answers than the
bound, the oldest is forgotten.

* `IgnoreMemory.isIgnored` and `IgnoreMemory.isPathIgnored` answer from memory where they can.
-/

namespace Bindery

/-- A text is hashed as a string. -/
instance : Hashable Text where
  hash s := hash (String.ofList s)

/-- Ignore rules and the answers they have given. -/
structure IgnoreMemory where
  rules : List IgnoreRule
  answers : Std.HashMap (Text × Bool) Bool
  /-- The remembered questions, the oldest first. -/
  order : List (Text × Bool)

namespace IgnoreMemory

/-- No more answers than this are remembered. -/
def bound : Nat := 4096

/-- Rules that have not been asked yet. -/
def ofRules (rules : List IgnoreRule) : IgnoreMemory :=
  ⟨rules, ∅, []⟩

/-- Remembers an answer, and forgets the oldest if there are too many. -/
def remember (m : IgnoreMemory) (question : Text × Bool) (answer : Bool) : IgnoreMemory :=
  let answers := m.answers.insert question answer
  let order := m.order ++ [question]
  if bound < order.length then
    match order with
    | oldest :: rest => { m with answers := answers.erase oldest, order := rest }
    | [] => { m with answers, order }
  else { m with answers, order }

/-- Whether a path is ignored. -/
def isIgnored (m : IgnoreMemory) (path : Text) (isDirectory : Bool) : Bool × IgnoreMemory :=
  match m.answers[(path, isDirectory)]? with
  | some answer => (answer, m)
  | none =>
    let answer := IgnoreRule.isIgnored m.rules path isDirectory
    (answer, m.remember (path, isDirectory) answer)

/-- Whether one of a list of directories is ignored, asked up to the first that is. -/
def anyIgnored (m : IgnoreMemory) : List Text → Bool × IgnoreMemory
  | [] => (false, m)
  | d :: ds =>
    match m.isIgnored d true with
    | (true, m) => (true, m)
    | (false, m) => m.anyIgnored ds

/-- Whether a file is ignored, itself or through a directory above it. -/
def isPathIgnored (m : IgnoreMemory) (path : Text) : Bool × IgnoreMemory :=
  match m.anyIgnored (IgnoreRule.ancestors path) with
  | (true, m) => (true, m)
  | (false, m) => m.isIgnored path false

end IgnoreMemory

end Bindery
