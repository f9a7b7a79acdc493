import Bindery.Command.Run

/-!
# The program

Runs a command line on the files that it is about: those below the working directory, below the
roots given, the settings file and the stored selection.  They are read before the command runs,
and what the command writes is written to the disk afterwards.
-/

namespace Bindery.Disk

/-- The place of a path. -/
def placeOf (path : String) : List Text :=
  Path.components (Path.normalize path.toList)

/-- The absolute path of what is at a path, links followed, if there is something. -/
def real? (path : String) : IO (Option String) := do
  try
    let real ← IO.FS.realPath path
    return if ← real.pathExists then some real.toString else none
  catch _ => return none

/-- Adds what is at a path on the disk to a tree, with everything below it. -/
partial def add (tree : Node) (path : String) : IO Node := do
  match ← real? path with
  | none => return tree
  | some real =>
    let place := placeOf real
    if !place.isEmpty && (tree.get? place).isSome then return tree
    let file ← IO.FS.realPath real
    let data ← file.metadata
    if data.type == .dir then
      let mut tree := tree.set .emptyDirectory place
      for entry in ← file.readDir do
        let below := entry.path.toString
        match ← real? below with
        | none => continue
        | some target =>
          if target != below then tree := tree.set (.link target.toList) (placeOf below)
          tree ← add tree target
      return tree
    else
      let bytes ← IO.FS.readBinFile real
      return tree.set (.file bytes.toList (.given data.modified.sec)) place

/-- Adds what is at paths on the disk to the tree of a host. -/
def addAll (h : Host) (paths : List Text) : IO Host := do
  let mut tree := h.tree
  for path in paths do
    match h.absolute path with
    | .ok absolute => tree ← add tree (String.ofList absolute)
    | .error _ => continue
  return { h with tree := tree }

/-- The directory that holds a path. -/
def above (path : Text) : Text :=
  (Path.Parsed.ofText path).parent.toText

/-- The environment of the program. -/
def environment : IO (Entries Text) := do
  let mut found := []
  for field in Settings.fields do
    let name := Settings.environmentPrefix ++ field.1
    match ← IO.getEnv (String.ofList name) with
    | some value => found := found ++ [(name, value.toList)]
    | none => continue
  return found

/-- The host of the program, with the files that a command line is about. -/
def hostFor (line : CommandLine) (home : Text) : IO Host := do
  let current := (← IO.currentDir).toString
  let empty : Host := ⟨.emptyDirectory, placeOf current, 0, home, [], 0⟩
  let output := match line.command with
    | .render _ _ (some path) _ => [above path]
    | _ => []
  addAll empty ([current.toList] ++ line.roots.filterMap id ++ line.settings.toList ++ output)

/-- Writes what a run has written to the disk. -/
def save (h : Host) : IO Unit := do
  for (path, bytes) in h.written do
    IO.FS.createDirAll (String.ofList (above path))
    IO.FS.writeBinFile (String.ofList path) ⟨bytes.toArray⟩

/-- Whether a run has stopped to ask a question that nobody has answered. -/
def isAsking (c : Console) : Bool :=
  "[y/N] ".toList.isSuffixOf c.errors

/-- Runs a command line.  A run that ends with a question is run again with the answer. -/
def run (line : CommandLine) : IO UInt32 := do
  let home := ((← IO.getEnv "HOME").getD "/").toList
  let defaults := Settings.default home
  let environment ← environment
  let host ← hostFor line home
  let host ← match Settings.load host defaults environment line.settings line.givenSettings with
    | .ok settings => addAll host [settings.stateDirectory]
    | .error _ => pure host
  let runWith (input : Text) :=
    (line.run none defaults environment).run.run ⟨host, .empty, input, [], []⟩
  let first := runWith []
  let (result, c) ← if isAsking first.2 then do
      IO.eprint (String.ofList first.2.errors)
      let (result, c) := runWith (← (← IO.getStdin).getLine).toList
      pure (result, { c with errors := c.errors.drop first.2.errors.length })
    else pure first
  IO.print (String.ofList c.output)
  IO.eprint (String.ofList c.errors)
  save c.host
  match result with
  | .ok code => return UInt32.ofNat code
  | .error f =>
    IO.eprintln (String.ofList f.message)
    return 1

end Bindery.Disk

/-- The program. -/
def main (args : List String) : IO UInt32 := do
  match Bindery.CommandLine.read (args.map String.toList) with
  | .ok line => Bindery.Disk.run line
  | .error stop =>
    let shown := String.ofList stop.text
    if stop.code = 0 then IO.print shown else IO.eprint shown
    return UInt32.ofNat stop.code
