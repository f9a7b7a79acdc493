import Bindery.Text.Blank

/-!
# Profiles

A profile names a set of files below a root: what its parents name, and the files that its include
patterns match and its exclude patterns do not.
-/

namespace Bindery

/-- A profile. -/
structure Profile where
  name : Text
  /-- The root whose file declares the profile, and below which its patterns match. -/
  root : Text
  parents : List Text
  includes : List Text
  excludes : List Text
  deriving DecidableEq, Repr

namespace Profile

/-- What tells profiles apart: two roots may declare the same name. -/
def key (p : Profile) : Text × Text :=
  (p.root, p.name)

/-- The profile with one more pattern: an exclude pattern after an exclamation mark, an include
pattern otherwise.  A pattern without text is dropped. -/
def addPattern (p : Profile) (pattern : Text) : Profile :=
  match pattern with
  | [] => p
  | '!' :: r =>
    let excluded := Text.trim r
    if excluded.isEmpty then p else { p with excludes := p.excludes ++ [excluded] }
  | _ => { p with includes := p.includes ++ [pattern] }

end Profile

end Bindery
