import Bindery.Entries
import Bindery.Profile.Basic

/-!
# The registry of profiles

The profiles of all loaded roots.  Each root keeps its own; by name alone a profile is found in the
root that was loaded last among those that declare it.  A root that is loaded again counts as
loaded last, and when a root is dropped, what it shadowed can be seen again.

* `Registry.replaceRoot`, `Registry.dropRoot`
* `Registry.get?`, `Registry.scoped?`, `Registry.lookup`, `Registry.names`, `Registry.profiles`
-/

namespace Bindery

/-- The profiles of each root, in the order of the loads. -/
structure Registry where
  byRoot : Entries (Entries Profile)
  deriving DecidableEq, Repr

namespace Registry

/-- The registry without any root. -/
def empty : Registry := ⟨[]⟩

/-- Replaces the profiles of a root, which becomes the one loaded last. -/
def replaceRoot (r : Registry) (root : Text) (profiles : Entries Profile) : Registry :=
  ⟨r.byRoot.remove root ++ [(root, profiles)]⟩

/-- Drops the profiles of a root. -/
def dropRoot (r : Registry) (root : Text) : Registry :=
  ⟨r.byRoot.remove root⟩

/-- The profiles of a root. -/
def ofRoot (r : Registry) (root : Text) : Entries Profile :=
  (r.byRoot.get? root).getD []

/-- All profiles by name: a name stands where it first appears, and the root loaded last gives the
profile. -/
def live (r : Registry) : Entries Profile :=
  r.byRoot.values.foldl Entries.merge []

/-- The profile of a name. -/
def get? (r : Registry) (name : Text) : Option Profile :=
  r.live.get? name

/-- The profile of a name in a root. -/
def scoped? (r : Registry) (root name : Text) : Option Profile :=
  (r.ofRoot root).get? name

/-- The profile of a name, looked for in one root first. -/
def lookup (r : Registry) (name : Text) (prefer : Option Text) : Option Profile :=
  match prefer.bind fun root => r.scoped? root name with
  | some p => some p
  | none => r.get? name

/-- The names of all profiles. -/
def names (r : Registry) : List Text :=
  r.live.names

/-- All profiles that are found by name. -/
def profiles (r : Registry) : List Profile :=
  r.live.values

/-- Whether a name has a profile. -/
def has (r : Registry) (name : Text) : Bool :=
  (r.get? name).isSome

/-- The number of profiles of all roots. -/
def size (r : Registry) : Nat :=
  r.byRoot.values.flatten.length

end Registry

end Bindery
