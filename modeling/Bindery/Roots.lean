import Bindery.Files.Host

/-!
# Roots

The normal form of the path of a root: absolute, symbolic links followed, without a slash at the
end.  Components that do not exist are kept as they are.  Where links lead in a circle, or too deep
into each other, only the text of the path is normalized.

* `Roots.normalize`, `Roots.normalizeAll`
-/

namespace Bindery

namespace Roots

/-! ## Home directories -/

/-- The home directory that a first component beginning with a tilde stands for. -/
def homeOf (h : Host) (name : Text) : Option Text :=
  match name with
  | ['~'] => some h.home
  | '~' :: user => Entries.get? h.users user
  | _ => none

/-- The text with a home directory in the place of a first component that stands for one; an
unknown one is kept. -/
def expandHomeText (h : Host) (p : Text) : Text :=
  match homeOf h (p.takeWhile (· != '/')) with
  | none => p
  | some home =>
    match Text.dropRightWhile (· == '/') home ++ p.dropWhile (· != '/') with
    | [] => ['/']
    | q => q

/-- A path with its home directory; an unknown one is a fault, and so is a name that no user can
have. -/
def expandHome (h : Host) (p : Path.Parsed) : Except Fault Path.Parsed :=
  match p.root, p.names with
  | [], ('~' :: user) :: rest =>
    let home := expandHomeText h ('~' :: user)
    if user.contains '\x00' then .error .nullCharacter
    else if home.head? == some '~' then .error .unknownHome
    else .ok ((Path.Parsed.ofText home).append ⟨[], rest⟩)
  | _, _ => .ok p

/-! ## Following links -/

/-- A path as far as its links are followed, and whether all of them were. -/
structure Traced where
  path : Text
  complete : Bool
  /-- The links met so far, with the paths that they lead to as far as these are known. -/
  seen : Entries (Option Text)

/-- The path one directory up. -/
def up (path : Text) : Text :=
  if path.isEmpty then "..".toList
  else
    let (head, name) := Path.split path
    if name = "..".toList then Path.join (Path.join head "..".toList) "..".toList else head

/-- The target of the link at a path, if there is one. -/
def linkTarget? (h : Host) (path : Text) : Except Fault (Option Text) :=
  match h.linkNode path with
  | .ok (.link target) => .ok (some target)
  | .ok _ => .ok none
  | .error .nullCharacter => .error .nullCharacter
  | .error _ => .ok none

/-- Links within the targets of links are followed down to this depth. -/
def maxNesting : Nat := 1000

/-- Follows the components of `rest` from a path, links included.  A link that is met again before
it is known where it leads ends it.  `steps` bounds the components of `rest`, and its length is
enough; `depth` is how deep links may still lie within the targets of others. -/
def trace (h : Host) (depth steps : Nat) (path : Text) (seen : Entries (Option Text))
    (rest : Text) : Except Fault Traced :=
  match steps with
  | 0 => .ok ⟨path, true, seen⟩
  | steps + 1 =>
    if rest.isEmpty then .ok ⟨path, true, seen⟩
    else
      let name := rest.takeWhile (· != '/')
      let rest := (rest.dropWhile (· != '/')).tail
      if name.isEmpty || name == ['.'] then trace h depth steps path seen rest
      else if name == "..".toList then trace h depth steps (up path) seen rest
      else
        let next := Path.join path name
        match linkTarget? h next with
        | .error e => .error e
        | .ok none => trace h depth steps next seen rest
        | .ok (some target) =>
          match seen.get? next, depth with
          | some (some known), depth => trace h depth steps known seen rest
          | some none, _ => .ok ⟨Path.join next rest, false, seen⟩
          | none, 0 => .error .linkLoop
          | none, depth + 1 =>
            let base := if Path.isAbsolute target then ['/'] else path
            match trace h depth target.length base (seen.put next none) target with
            | .error e => .error e
            | .ok t =>
              if t.complete then
                trace h (depth + 1) steps t.path (t.seen.put next (some t.path)) rest
              else .ok { t with path := Path.join t.path rest }
  termination_by (depth, steps)

/-- The path that a path leads to, links followed. -/
def followLinks (h : Host) (p : Text) : Except Fault Text :=
  (trace h maxNesting p.length (if Path.isAbsolute p then ['/'] else []) [] p).bind fun t =>
    h.absolute t.path

/-! ## Normal form -/

/-- The path in parts with its home directory and its links followed. -/
def resolve (h : Host) (p : Text) : Except Fault Text :=
  match expandHome h (.ofText p) with
  | .error e => .error e
  | .ok p =>
    match followLinks h p.toText with
    | .error e => .error e
    | .ok s =>
      let path := (Path.Parsed.ofText s).toText
      match h.node path with
      | .error (.file .tooManyLinks) => .error .linkLoop
      | .error .nullCharacter => .error .nullCharacter
      | _ => .ok path

/-- The normal form of the path of a root that is not empty. -/
def normalizePath (h : Host) (p : Text) : Except Fault Text :=
  match resolve h p with
  | .ok q => .ok (Path.stripTrailing q)
  | .error .nullCharacter => .error .nullCharacter
  | .error _ => (h.absolute (expandHomeText h p)).map Path.stripTrailing

/-- The normal form of the path of a root; the empty path is the working directory. -/
def normalize (h : Host) (p : Text) : Except Fault Text :=
  if p.isEmpty then h.currentPath.bind (normalizePath h) else normalizePath h p

/-- The normal forms of roots, each once; without any, that of a default or of the working
directory. -/
def normalizeAll (h : Host) (roots : List Text) (fallback : Option Text) :
    Except Fault (List Text) :=
  match (roots.filter (!·.isEmpty)).mapM (normalize h) with
  | .error e => .error e
  | .ok [] => (normalize h (fallback.getD [])).map ([·])
  | .ok (r :: rs) => .ok (r :: rs).eraseDups

/-! ## Profile files -/

/-- The path of the profile file of a root. -/
def configPath (root name : Text) : Text :=
  ((Path.Parsed.ofText root).append (.ofText name)).toText

/-- Whether a root has a profile file. -/
def hasConfig (h : Host) (root name : Text) : Except Fault Bool :=
  h.satisfies Node.isFile (configPath root name)

end Roots

end Bindery
