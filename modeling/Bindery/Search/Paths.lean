import Bindery.Files.Host
import Bindery.Glob.Name

/-!
# Paths that match a pattern

The paths in the file tree that match a pattern, name by name: each component of the pattern is
matched against the entries of the directories found so far, and `**` stands for a directory and
everything below it.  Hidden entries, whose names begin with a dot, are found only by components
that begin with a dot themselves.  A component without special characters need only exist.

A directory that cannot be listed has no entries; only a null character in its path is a fault.

* `Search.paths`
-/

namespace Bindery.Search

/-- Whether a name, or a pattern for names, is hidden. -/
def isHidden (name : Text) : Bool :=
  name.head? == some '.'

/-- A path below a directory; either may be empty. -/
def below (directory path : Text) : Text :=
  if directory.isEmpty then path
  else if path.isEmpty then directory
  else Path.join directory path

/-- The names of the entries of a directory, or of those that lead to directories. -/
def namesIn (h : Host) (directoriesOnly : Bool) (directory : Text) : Except Fault (List Text) :=
  let listed := if directory.isEmpty then ['.'] else directory
  match h.entryNames listed with
  | .ok names =>
    .ok (if directoriesOnly then names.filter fun n => h.isDirectory (Path.join listed n)
      else names)
  | .error (.file _) => .ok []
  | .error e => .error e

/-- The names in a directory that match a pattern. -/
def matchingNames (h : Host) (directoriesOnly : Bool) (directory pattern : Text) :
    Except Fault (List Text) :=
  (namesIn h directoriesOnly directory).map fun names =>
    names.filter fun n =>
      (isHidden pattern || !isHidden n) && NamePattern.matchesName pattern n

/-- A name in a directory, if it is there; the empty name stands for the directory itself. -/
def existingName (h : Host) (directory name : Text) : List Text :=
  if name.isEmpty then (if h.isDirectory directory then [[]] else [])
  else if h.hasEntry (below directory name) then [name] else []

/-- The paths below a directory, counted from it, hidden ones left out.  A path that is too long
has no entries, so `depth` may be the number of bytes of the longest path. -/
def pathsBelow (h : Host) (directoriesOnly : Bool) : Nat → Text → Except Fault (List Text)
  | 0, _ => .ok []
  | depth + 1, directory =>
    match namesIn h directoriesOnly directory with
    | .error e => .error e
    | .ok names =>
      ((names.filter (!isHidden ·)).mapM fun n =>
        (pathsBelow h directoriesOnly depth (below directory n)).map fun ps =>
          n :: ps.map (below n ·)).map List.flatten

/-- The component that stands for any directories. -/
def anyDepth : Text := ['*', '*']

/-- What a component of a pattern finds in a directory. -/
def findIn (h : Host) (directoriesOnly : Bool) (directory component : Text) :
    Except Fault (List Text) :=
  if component = anyDepth then
    (pathsBelow h directoriesOnly Host.maxPathBytes directory).map fun ps =>
      if directory.isEmpty || h.isDirectory directory then [] :: ps else ps
  else if NamePattern.hasMagic component then matchingNames h directoriesOnly directory component
  else .ok (existingName h directory component)

theorem length_split_lt {p : Text} (h : (Path.split p).1 ≠ p) :
    (Path.split p).1.length < p.length := by
  have key := Text.uptoLast_append_afterLast '/' p
  have hl := congrArg List.length key
  simp only [List.length_append] at hl
  simp only [Path.split] at h ⊢
  have hd : (Text.dropRightWhile (· == '/') (Text.uptoLast '/' p)).length ≤
      (Text.uptoLast '/' p).length := by
    simpa [Text.dropRightWhile] using
      (List.dropWhile_sublist (· == '/') (l := (Text.uptoLast '/' p).reverse)).length_le
  by_cases ht : Text.afterLast '/' p = []
  · rw [ht] at key
    simp only [List.append_nil] at key
    rw [key] at h hd ⊢
    split at h
    · exact absurd rfl h
    · next hall =>
      rw [if_neg hall]
      rcases Nat.lt_or_ge (Text.dropRightWhile (· == '/') p).length p.length with hlt | hge
      · exact hlt
      · exfalso
        apply h
        have hs : (Text.dropRightWhile (· == '/') p).reverse.Sublist p.reverse := by
          simpa [Text.dropRightWhile] using List.dropWhile_sublist (· == '/') (l := p.reverse)
        have := hs.eq_of_length_le (by simpa using hge)
        simpa using this
  · have : 0 < (Text.afterLast '/' p).length := List.length_pos_iff.2 ht
    split <;> omega

/-- The paths that match a pattern, or those of them that lead to directories. -/
def paths (h : Host) (directoriesOnly : Bool) (pattern : Text) : Except Fault (List Text) :=
  let directory := (Path.split pattern).1
  let component := (Path.split pattern).2
  if NamePattern.hasMagic pattern = false then
    .ok (if component.isEmpty then (if h.isDirectory directory then [pattern] else [])
      else if h.hasEntry pattern then [pattern] else [])
  else if directory.isEmpty then findIn h directoriesOnly directory component
  else
    let directories :=
      if _h : directory ≠ pattern ∧ NamePattern.hasMagic directory = true then
        paths h true directory
      else .ok [directory]
    match directories with
    | .error e => .error e
    | .ok ds =>
      (ds.mapM fun d => (findIn h directoriesOnly d component).map (·.map (Path.join d ·))).map
        List.flatten
  termination_by pattern.length
  decreasing_by exact length_split_lt _h.1

end Bindery.Search
