import Bindery.Files.Host

/-!
# Changes in several steps

A change of the host that takes several steps.  Where a step fails the change ends with its fault,
and the steps before it stay done.

* `HostChange.makeDirectories` makes a directory with all that are missing above it.
-/

namespace Bindery

/-- A change of the host, with a result or a fault. -/
abbrev HostChange := ExceptT Fault (StateM Host)

namespace HostChange

/-- A change in one step. -/
def step (f : Host → Except Fault Host) : HostChange Unit := do
  set (← f (← get))

/-- Makes a directory.  One that is there already need not be made: an error counts only if there is
none. -/
def makeDirectory (path : Path.Parsed) : HostChange Unit := do
  let h ← get
  match h.makeDirectory path.toText with
  | .ok h => set h
  | .error (.file e) =>
    let isThere ← h.satisfies Node.isDirectory path.toText
    if !isThere then throw (.file e)
  | .error e => throw e

/-- Makes a directory with those above it that are missing, at most `depth` of them. -/
def makeDirectoriesUpTo (depth : Nat) (path : Path.Parsed) : HostChange Unit :=
  match depth with
  | 0 => makeDirectory path
  | depth + 1 => do
    match (← get).makeDirectory path.toText with
    | .error (.file .notFound) =>
      makeDirectoriesUpTo depth path.parent
      makeDirectory path
    | _ => makeDirectory path

/-- Makes a directory, if it is missing, with all directories above it. -/
def makeDirectories (path : Path.Parsed) : HostChange Unit :=
  makeDirectoriesUpTo path.names.length path

end HostChange

end Bindery
