import Bindery.Fault
import Bindery.Glob.Pattern
import Bindery.Text.Blank

/-!
# Ignore rules

An ignore file lists patterns, one a line.  A line that begins with `#` is a comment, and one that
begins with `!` takes back what earlier lines ignore; a backslash before either makes it part of
the pattern.  A pattern that ends in a slash is for directories only.  A pattern with any other
slash is matched against whole paths below the root, one without against the last name.  The last
rule that matches a path decides.

* `IgnoreRule.readLines` reads the lines of a file.
* `IgnoreRule.isIgnored` asks about one path, `IgnoreRule.isPathIgnored` about a file and the
  directories above it.
-/

namespace Bindery

/-- A rule of an ignore file. -/
structure IgnoreRule where
  pattern : Text
  regex : Regex
  negated : Bool
  anchored : Bool
  directoryOnly : Bool
  deriving DecidableEq, Repr

namespace IgnoreRule

/-! ## Reading lines -/

/-- A line as a pattern and whether it is negated; none for a comment. -/
def negation? (line : Text) : Option (Text × Bool) :=
  match line with
  | '\\' :: '#' :: _ => some (line.tail, false)
  | '\\' :: '!' :: _ => some (line.tail, false)
  | '#' :: _ => none
  | '!' :: r => some (Text.trim r, true)
  | _ => some (line, false)

/-- Reads a line: none if it has no rule. -/
def readLine (raw : Text) : Except Fault (Option IgnoreRule) :=
  let line := Text.trim raw
  if line.isEmpty then .ok none
  else
    match negation? line with
    | none => .ok none
    | some (line, negated) =>
      let directoryOnly := line.getLast? == some '/'
      let line := Text.dropRightWhile (· == '/') line
      let pattern := line.dropWhile (· == '/')
      let anchored := line.head? == some '/' || pattern.contains '/'
      if pattern.isEmpty then .ok none
      else
        match Regex.read (Glob.translate pattern) with
        | .error flaw => .error (.expression flaw)
        | .ok regex => .ok (some ⟨pattern, regex, negated, anchored, directoryOnly⟩)

/-- The rules of the lines of a file. -/
def readLines : List Text → Except Fault (List IgnoreRule)
  | [] => .ok []
  | line :: rest =>
    match readLine line with
    | .error e => .error e
    | .ok rule => (readLines rest).map (rule.toList ++ ·)

/-! ## Matching -/

/-- Whether a rule matches a path below the root. -/
def holds (rule : IgnoreRule) (path : Text) (isDirectory : Bool) : Bool :=
  if rule.directoryOnly && !isDirectory then false
  else if rule.anchored then rule.regex.isMatch path
  else rule.regex.isMatch (Text.afterLast '/' path)

/-- Whether a path is ignored: the last rule that matches it decides. -/
def isIgnored (rules : List IgnoreRule) (path : Text) (isDirectory : Bool) : Bool :=
  rules.foldl (fun ignored rule => if rule.holds path isDirectory then !rule.negated else ignored)
    false

/-- The paths of the directories above a path, the outermost first. -/
def ancestors (path : Text) : List Text :=
  let parts := path.splitOn '/'
  (List.range (parts.length - 1)).map fun i => List.intercalate ['/'] (parts.take (i + 1))

/-- Whether a file is ignored, itself or through a directory above it. -/
def isPathIgnored (rules : List IgnoreRule) (path : Text) : Bool :=
  (ancestors path).any (isIgnored rules · true) || isIgnored rules path false

end IgnoreRule

end Bindery
