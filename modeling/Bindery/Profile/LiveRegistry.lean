import Bindery.Profile.Registry

/-!
# A registry that remembers its view by name

By name profiles are looked up in a view over all roots.  The view is made when it is first asked
for, and remembered until a root is replaced or dropped.

* `LiveRegistry.view` is the view, `LiveRegistry.ask` a question about it.
* `LiveRegistry.replaceRoot` and `LiveRegistry.dropRoot` change the roots and forget the view.
-/

namespace Bindery

/-- The profiles of each root, and the view of them by name if it has been asked for since the roots
were last changed. -/
structure LiveRegistry where
  registry : Registry
  remembered : Option (Entries Profile)
  deriving DecidableEq, Repr

namespace LiveRegistry

/-- The registry without any root. -/
def empty : LiveRegistry := ⟨.empty, none⟩

/-! ## Changes -/

/-- Replaces the profiles of a root, which becomes the one loaded last. -/
def replaceRoot (r : LiveRegistry) (root : Text) (profiles : Entries Profile) : LiveRegistry :=
  ⟨r.registry.replaceRoot root profiles, none⟩

/-- Drops the profiles of a root, and gives their names. -/
def dropRoot (r : LiveRegistry) (root : Text) : List Text × LiveRegistry :=
  ((r.registry.ofRoot root).names, ⟨r.registry.dropRoot root, none⟩)

/-! ## Questions -/

/-- The view by name: the remembered one if there is one. -/
def view (r : LiveRegistry) : Entries Profile :=
  r.remembered.getD r.registry.live

/-- Asks about the view, which is remembered from then on. -/
def ask {α : Type} (r : LiveRegistry) (answer : Entries Profile → α) : α × LiveRegistry :=
  (answer r.view, { r with remembered := some r.view })

/-- The profile of a name. -/
def get? (r : LiveRegistry) (name : Text) : Option Profile × LiveRegistry :=
  r.ask (·.get? name)

/-- The profile of a name in a root, for which no view is needed. -/
def scoped? (r : LiveRegistry) (root name : Text) : Option Profile :=
  r.registry.scoped? root name

/-- The profile of a name, looked for in one root first. -/
def lookup (r : LiveRegistry) (name : Text) (prefer : Option Text) :
    Option Profile × LiveRegistry :=
  match prefer.bind fun root => r.scoped? root name with
  | some p => (some p, r)
  | none => r.get? name

/-- The names of all profiles. -/
def names (r : LiveRegistry) : List Text × LiveRegistry :=
  r.ask Entries.names

/-- All profiles that are found by name. -/
def profiles (r : LiveRegistry) : List Profile × LiveRegistry :=
  r.ask Entries.values

/-- Whether a name has a profile. -/
def has (r : LiveRegistry) (name : Text) : Bool × LiveRegistry :=
  r.ask (·.has name)

end LiveRegistry

end Bindery
