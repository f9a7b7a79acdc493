import Bindery.Diagnostic
import Bindery.Ignore.Rules
import Bindery.Ignore.Source
import Bindery.Search.Paths

/-!
# Finding files

Finds the files that patterns name below a root.  A pattern is a directory if it ends in a slash,
and stands for every file below it; otherwise it is the path of a file if there is one, and a
pattern over paths if not.  All patterns count from the root, whatever slashes they begin with.
Files that the root's ignore file ignores are left out, unless the matcher includes them.

* `Matcher.expand` finds the files of patterns, `Matcher.allFiles` every file that is not hidden.
-/

namespace Bindery

/-- How files are found. -/
structure Matcher where
  /-- Whether files are found that the ignore file of their root ignores. -/
  includeIgnored : Bool
  ignoreFileName : Text
  deriving DecidableEq, Repr

namespace Matcher

/-- The ignore rules that count below a root; none if no rule does. -/
def rules (m : Matcher) (h : Host) (cache : IgnoreCache) (root : Text) :
    Reported (Option (List IgnoreRule)) := do
  if m.includeIgnored then return none
  Reported.consult root
  let lines ← Reported.ofExcept (cache.lines h root m.ignoreFileName)
  let rules ← Reported.ofExcept (IgnoreRule.readLines lines)
  return if rules.isEmpty then none else some rules

/-! ## Files of patterns -/

/-- Whether rules ignore a path.  A path outside of the root is none of their business; a path for
which nobody can say where it is from the root is left out. -/
def isIgnored (h : Host) (rules : Option (List IgnoreRule)) (root path : Text) : Bool :=
  match rules with
  | none => false
  | some rules =>
    match h.relativeTo path root with
    | .error _ => true
    | .ok rel =>
      if rel = "..".toList ∨ "../".toList.isPrefixOf rel then false
      else IgnoreRule.isPathIgnored rules rel

/-- The files that match a pattern over the whole tree. -/
def filesMatching (h : Host) (pattern : Text) : Except Fault (List Text) :=
  (Search.paths h false pattern).map fun ps => (ps.filter h.isFile).map Path.normalize

/-- The files that match any of a list of patterns. -/
def filesMatchingAny (h : Host) (patterns : List Text) : Except Fault (List Text) :=
  (patterns.mapM (filesMatching h)).map List.flatten

/-- The files of a pattern below a root. -/
def candidates (h : Host) (root pattern : Text) : Except Fault (List Text) :=
  let below := pattern.dropWhile (· == '/')
  let base := NamePattern.escape root
  if pattern.getLast? == some '/' then
    filesMatchingAny h ((Glob.expandBraces below).map fun p =>
      Path.join (Path.join (Path.join base p) "**".toList) "*".toList)
  else
    let literal := Path.normalize (Path.join root below)
    if h.isFile literal then .ok [literal]
    else filesMatchingAny h ((Glob.expandBraces below).map (Path.join base ·))

/-- The files of patterns below a root, given the rules that count there. -/
def expandWith (h : Host) (rules : Option (List IgnoreRule)) (patterns : List Text) (root : Text) :
    Except Fault (List Text) :=
  ((patterns.filter (!·.isEmpty)).mapM fun p =>
    (candidates h root p).map (·.filter (!isIgnored h rules root ·))).map List.flatten

/-- The files of patterns below a root. -/
def expand (m : Matcher) (h : Host) (cache : IgnoreCache) (patterns : List Text) (root : Text) :
    Reported (List Text) := do
  let rules ← m.rules h cache root
  Reported.ofExcept (expandWith h rules patterns root)

/-! ## All files -/

/-- Whether an expression, if there is one, matches a path. -/
def isMatched (regex : Option Regex) (rel : Text) : Bool :=
  match regex with
  | none => false
  | some r => r.isMatch rel

/-- Whether rules ignore an entry below the root. -/
def entryIgnored (rules : Option (List IgnoreRule)) (rel : Text) (isDirectory : Bool) : Bool :=
  match rules with
  | none => false
  | some rules => IgnoreRule.isIgnored rules rel isDirectory

/-- The files below a directory that are not hidden and not ignored; directories that `pruned`
matches are passed over.  What an entry is, is known from its directory, but for links.  A path that
is too long has no entries, so `depth` may be the number of bytes of the longest path. -/
def filesBelow (h : Host) (root : Text) (rules : Option (List IgnoreRule)) (pruned : Option Regex) :
    Nat → Text → Except Fault (List Text)
  | 0, _ => .ok []
  | depth + 1, directory =>
    match h.entries directory with
    | .error (.file _) => .ok []
    | .error e => .error e
    | .ok es =>
      Except.map List.flatten <| (es.filter fun e => !Search.isHidden e.1).mapM fun e => do
        let entry := Path.join directory e.1
        let path := Path.normalize entry
        let rel ← h.relativeTo path root
        if e.2.isDirectory then
          if isMatched pruned rel || entryIgnored rules rel true then return []
          filesBelow h root rules pruned depth path
        else if (e.2.isFile || h.isFile entry) && !entryIgnored rules rel false then return [path]
        else return []

/-- Patterns for the directories below which an exclude pattern excludes everything. -/
def prunePatterns (excludes : List Text) : List Text :=
  excludes.filterMap fun p =>
    if "/**".toList.isSuffixOf p then some (p.take (p.length - 3)) else none

/-- Whether an expression, if there is one, matches the path that leads to a file from a root. -/
def isExcluded (h : Host) (excluded : Option Regex) (root path : Text) : Bool :=
  (h.relativeTo path root).toOption.any (isMatched excluded)

/-- Every file below a root that is not hidden, not ignored and not excluded. -/
def allFiles (m : Matcher) (h : Host) (cache : IgnoreCache) (root : Text) (excludes : List Text) :
    Reported (List Text) := do
  let excludes := excludes.filter (!·.isEmpty)
  let excluded ← Reported.ofExcept ((Glob.compile excludes).mapError .expression)
  let pruned ← Reported.ofExcept ((Glob.compile (prunePatterns excludes)).mapError .expression)
  let rules ← m.rules h cache root
  let files ← Reported.ofExcept (filesBelow h root rules pruned Host.maxPathBytes root)
  return files.filter fun f => !isExcluded h excluded root f

end Matcher

end Bindery
