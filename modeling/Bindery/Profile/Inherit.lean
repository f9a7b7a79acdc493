import Bindery.Diagnostic
import Bindery.Profile.Registry

/-!
# Inheritance

The files of a profile are those of its parents, in the order in which they are listed, and those
that its own include patterns match and its own exclude patterns do not; what a parent contributes
is never taken away.  A parent is looked for in the profile's own root first.  A parent that is
missing is reported and contributes nothing, and a profile that inherits from itself on the way has
no files at all.

How patterns are expanded is a parameter, so nothing here depends on a file system.

* `Registry.resolve`; `Registry.Parent` and `Registry.Reaches` are the graph it walks.
-/

namespace Bindery

/-- Expands patterns below a root into paths of files. -/
abbrev Expansion := List Text → Text → Reported (List Text)

namespace Registry

/-- The report of a parent that is missing. -/
def unknownParent (child parent : Text) : Diagnostic where
  kind := .unknownProfileReference
  message := "Profile '".toList ++ child ++ "' inherits from unknown profile '".toList ++ parent ++
    ['\'']
  path := none
  profile := some child

/-- The names of the cycle that a profile closes at the end of a chain of profiles. -/
def cycleNames (chain : List (Text × Text)) (p : Profile) : List Text :=
  (chain.dropWhile (· != p.key)).map Prod.snd ++ [p.name]

/-- The files that a profile adds to those of its parents. -/
def ownFiles (expand : Expansion) (p : Profile) : Reported (List Text) := do
  let excluded ← expand p.excludes p.root
  let included ← expand p.includes p.root
  return included.filter fun f => !excluded.contains f

/-- The files of a profile that is reached through a chain of others.  `fuel` bounds the length of
chains; the profiles of a chain are all different, so one more than there are is enough. -/
def resolveFrom (r : Registry) (expand : Expansion) (fuel : Nat) (chain : List (Text × Text))
    (p : Profile) : Reported (List Text) :=
  match fuel with
  | 0 => .fail (.cycle [])
  | fuel + 1 =>
    if chain.contains p.key then .fail (.cycle (cycleNames chain p))
    else do
      let inherited ← p.parents.mapM fun name =>
        match r.lookup name (some p.root) with
        | some q => resolveFrom r expand fuel (chain ++ [p.key]) q
        | none => do
          Reported.report (unknownParent p.name name)
          return []
      let own ← ownFiles expand p
      return inherited.flatten ++ own

/-- The files of a profile. -/
def resolve (r : Registry) (expand : Expansion) (p : Profile) : Reported (List Text) :=
  r.resolveFrom expand (r.size + 2) [] p

/-! ## The graph of profiles -/

/-- `q` is a parent of `p` that is found. -/
def Parent (r : Registry) (p q : Profile) : Prop :=
  ∃ name ∈ p.parents, r.lookup name (some p.root) = some q

/-- `q` is `p` or an ancestor of it. -/
inductive Reaches (r : Registry) : Profile → Profile → Prop
  | refl (p) : Reaches r p p
  | step {p q s} (h : r.Parent p q) (more : Reaches r q s) : Reaches r p s

end Registry

end Bindery
