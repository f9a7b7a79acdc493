import Bindery.Text.Basic

/-!
# Paths as text

Operations on paths that look at their text only.  The separator is a slash; two slashes in front
are kept as they are, three or more stand for one.

* `Path.join` and `Path.split` put together and cut at the last slash.
* `Path.normalize` removes empty, `.` and `..` components.
* `Path.leading` leads from one directory to a path.
* `Path.extension` is the last dotted part of the last name.
-/

namespace Bindery.Path

/-- Whether a path begins at the root of the file system. -/
def isAbsolute (p : Text) : Bool :=
  p.head? == some '/'

/-- A path below another; an absolute one stands alone. -/
def join (base p : Text) : Text :=
  if isAbsolute p then p
  else if base.isEmpty || base.getLast? == some '/' then base ++ p
  else base ++ '/' :: p

/-- The part before the last slash and the part after it; the slashes at the end of the first part
are dropped unless it has nothing else. -/
def split (p : Text) : Text × Text :=
  let head := Text.uptoLast '/' p
  let kept := if head.all (· == '/') then head else Text.dropRightWhile (· == '/') head
  (kept, Text.afterLast '/' p)

/-- The components of a path that are not empty. -/
def components (p : Text) : List Text :=
  (p.splitOn '/').filter (!·.isEmpty)

/-- The slashes that a path begins with, as far as they count. -/
def rootOf : Text → Text
  | '/' :: '/' :: '/' :: _ => ['/']
  | '/' :: '/' :: _ => ['/', '/']
  | '/' :: _ => ['/']
  | _ => []

/-- Adds a component to those before it, the nearest first: `..` takes the nearest away. -/
def addComponent (rooted : Bool) (before : List Text) (c : Text) : List Text :=
  if c = [] ∨ c = ['.'] then before
  else if c = ['.', '.'] then
    match before with
    | [] => if rooted then [] else [c]
    | d :: r => if d = ['.', '.'] then c :: before else r
  else c :: before

/-- The path without empty, `.` and `..` components where they can be resolved in the text. -/
def normalize (p : Text) : Text :=
  let root := rootOf p
  let names := ((p.splitOn '/').foldl (addComponent (!root.isEmpty)) []).reverse
  match root ++ List.intercalate ['/'] names with
  | [] => ['.']
  | q => q

/-- The longest list that two lists both begin with. -/
def commonBeginning : List Text → List Text → List Text
  | a :: s, b :: t => if a = b then a :: commonBeginning s t else []
  | _, _ => []

/-- The path that leads from one absolute normalized path to another. -/
def leading (start p : Text) : Text :=
  let origin := components start
  let target := components p
  let shared := (commonBeginning origin target).length
  match List.replicate (origin.length - shared) ['.', '.'] ++ target.drop shared with
  | [] => ['.']
  | steps => List.intercalate ['/'] steps

/-- The extension of the last name of a path, with its dot; dots in front of the name begin none. -/
def extension (p : Text) : Text :=
  let name := (Text.afterLast '/' p).dropWhile (· == '.')
  if name.contains '.' then '.' :: Text.afterLast '.' name else []

/-- The path without the slashes at its end; a path of slashes only is the root. -/
def stripTrailing (p : Text) : Text :=
  if p.isEmpty then p
  else
    match Text.dropRightWhile (· == '/') p with
    | [] => ['/']
    | q => q

end Bindery.Path
