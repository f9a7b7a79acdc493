import Bindery.Command.Console
import Bindery.Command.Line
import Bindery.Engine.Describe
import Bindery.Settings.Load

/-!
# Running commands

What each command does.  The code of a run is 0 if all went well, 1 if there is nothing to show,
and 2 if what was asked for makes no sense.

* `CommandLine.run`
-/

namespace Bindery

namespace Command

open Console

/-- What a command works with besides the console. -/
structure Setup where
  /-- The directory that relative paths of the command line count from. -/
  context : Text
  engine : Engine
  store : SelectionStore
  /-- The reports made while the roots were loaded. -/
  diagnostics : List Diagnostic

/-- The message when nothing is selected. -/
def nothingSelected : Text :=
  "No profiles selected. Use 'conplug select' or pass --profile/--all.".toList

/-- The selection that a choice stands for; names of the stored one that have no profile are
dropped for good. -/
def selectionOf (s : Setup) (choice : Choice) : Action Selection := do
  match choice with
  | .all => return .allFiles
  | .profiles names => return .ofNames (names.filterMap id)
  | .saved =>
    let saved ← change s.store.load
    let pruned := s.engine.prune saved
    if pruned != saved then change (s.store.save pruned)
    return pruned

/-- A profile as it is printed. -/
def profileJson (p : Profile) : Json :=
  let texts (ts : List Text) : Json := .array (ts.map .string)
  .object [ ("name".toList, .string p.name), ("root".toList, .string p.root),
    ("parents".toList, texts p.parents), ("include".toList, texts p.includes),
    ("exclude".toList, texts p.excludes) ]

/-- Prints all profiles. -/
def runProfiles (s : Setup) : Action Nat := do
  printDiagnostics s.diagnostics
  printJson (.array (s.engine.registry.profiles.map profileJson))
  return 0

/-- Prints the paths of the chosen files. -/
def runFiles (s : Setup) (choice : Choice) : Action Nat := do
  let selection ← selectionOf s choice
  if selection.isEmpty then
    printError nothingSelected
    return 1
  let (paths, diagnostics) ← resolveSelection s.engine selection
  printDiagnostics (s.diagnostics ++ diagnostics)
  paths.forM printLine
  return if paths.isEmpty then 1 else 0

/-- A number of bytes in mebibytes: a double divided twice, rounded to the nearest whole number, a
tie to the even one. -/
def mebibytes (n : Int) : Except Fault Int :=
  match Binary64.ofRatio (decide (n < 0)) n.natAbs 1024 with
  | .finite negative m e =>
    let (num, den) := Binary64.scaled m 1 (-e)
    let rounded : Int := roundedQuotient num (den * 1024)
    .ok (if negative then -rounded else rounded)
  | _ => .error .tooLarge

/-- The options with which files are rendered; a limit of zero counts as none given. -/
def renderOptions (e : Engine) (maxBytes : Option Int) : RenderOptions :=
  match maxBytes with
  | none | some 0 => e.renderOptions
  | some n => { e.renderOptions with maxBytes := n }

/-- Writes a rendered text to the file at a path. -/
def writeOutput (s : Setup) (path : Text) (content : Text) : Action Unit := do
  let out := (Path.Parsed.ofText s.context).append (.ofText path)
  change (HostChange.makeDirectories out.parent)
  change (HostChange.step (·.writeFile out.toText (Utf8.encode content)))
  printError ("Wrote ".toList ++ out.toText)

/-- Reports the size of what was rendered. -/
def printSize (result : RenderResult) : Action Unit := do
  if result.truncated then
    printError "Content size limit exceeded. File list generated.".toList
  else
    match result.largest with
    | none => return
    | some f =>
      printError ("Largest file: ".toList ++ f.shown ++ " (".toList ++ Text.ofNat f.size ++
        " bytes)".toList)

/-- The question asked before all files are rendered. -/
def allFilesQuestion (limit : Int) : Text :=
  "This will process ALL files in the workspace (up to ".toList ++ Text.ofInt limit ++
    "MB limit). Continue?".toList

/-- Whether files may be rendered: all of them only if the user agrees. -/
def mayRender (selection : Selection) (yes : Bool) (maxBytes : Int) : Action Bool := do
  if selection.isAllFiles && !yes then
    let limit ← mebibytes maxBytes
    confirm (allFilesQuestion limit)
  else return true

/-- Renders the chosen files. -/
def runRender (s : Setup) (choice : Choice) (yes : Bool) (output : Option Text)
    (maxBytes : Option Int) : Action Nat := do
  let selection ← selectionOf s choice
  if selection.isEmpty then
    printError nothingSelected
    return 1
  let options := renderOptions s.engine maxBytes
  if !(← mayRender selection yes options.maxBytes) then return 1
  let (paths, diagnostics) ← resolveSelection s.engine selection
  let diagnostics := s.diagnostics ++ diagnostics
  if paths.isEmpty then
    printDiagnostics diagnostics
    printError "No files to concatenate in the selected profiles".toList
    return 1
  let result ← Renderer.renderWith options (← getHost) paths
  printDiagnostics (diagnostics ++ result.diagnostics)
  match output with
  | none | some [] => print result.content
  | some path => writeOutput s path result.content
  printSize result
  return 0

/-- Stores a selection and prints it. -/
def storeSelection (s : Setup) (selection : Selection) : Action Nat := do
  change (s.store.save selection)
  printJson selection.toJson
  return 0

/-- A text that an option must give. -/
def required : Option Text → Except Fault Text
  | some t => .ok t
  | none => .error .noName

/-- Shows or changes the stored selection.  To store profiles needs the names of all. -/
def runSelect (s : Setup) (choice : Choice) (clear : Bool) : Action Nat := do
  printDiagnostics s.diagnostics
  if clear then return ← storeSelection s .none
  match choice with
  | .all => storeSelection s .allFiles
  | .profiles given =>
    let names ← (given.mapM required : Except Fault (List Text))
    match names.filter (!s.engine.registry.has ·) with
    | [] => storeSelection s (.ofNames names)
    | unknown =>
      printError ("Unknown profile(s): ".toList ++ Engine.commaSeparated unknown)
      return 2
  | .saved =>
    printJson (s.engine.prune (← change s.store.load)).toJson
    return 0

/-- The profiles of a selection in words. -/
def selectionText (s : Selection) : Text :=
  match s with
  | .none => "None".toList
  | .allFiles => "all files".toList
  | .profiles names => Engine.commaSeparated names

/-- Prints a description of the engine and of the stored selection. -/
def runDoctor (s : Setup) : Action Nat := do
  printDiagnostics s.diagnostics
  print (← s.engine.describe (← getHost))
  let selection ← change s.store.load
  printLine []
  printLine "## Selection".toList
  printLine ("* Current Profiles: ".toList ++ selectionText selection)
  return 0

/-- Runs a command. -/
def run (s : Setup) : Command → Action Nat
  | .profiles => runProfiles s
  | .files choice => runFiles s choice
  | .render choice yes output maxBytes => runRender s choice yes output maxBytes
  | .select choice clear => runSelect s choice clear
  | .doctor => runDoctor s

end Command

namespace CommandLine

open Console

/-- The normal form of a root given on the command line, counted from a directory. -/
def normalizeRoot (h : Host) (context : Text) (root : Option Text) : Except Fault Text :=
  match (Command.required root).bind fun r => Roots.expandHome h (.ofText r) with
  | .error e => .error e
  | .ok p => Roots.normalize h ((Path.Parsed.ofText context).append p).toText

/-- The normal forms of the roots given on the command line, or of the directory that they count
from. -/
def normalizeRoots (h : Host) (context : Text) (roots : List (Option Text)) :
    Except Fault (List Text) :=
  match roots.mapM (normalizeRoot h context) with
  | .error e => .error e
  | .ok rs => Roots.normalizeAll h rs (some (Path.Parsed.ofText context).toText)

/-- Makes an engine and loads its roots. -/
def setUp (h : Host) (context : Text) (settings : Settings)
    (roots : List (Option Text)) : Except Fault Command.Setup :=
  match normalizeRoots h context roots with
  | .error e => .error e
  | .ok roots =>
    match Engine.ofRoots settings h roots with
    | .error e => .error e
    | .ok engine =>
      let (engine, loading) := engine.loadAll h
      loading.result.map fun _ =>
        ⟨context, engine, ⟨settings.selectionPath⟩, loading.notes.diagnostics⟩

/-- The settings given on the command line. -/
def givenSettings (line : CommandLine) : Entries Json :=
  if line.includeIgnored then [("INCLUDE_GIT_IGNORED".toList, .bool true)] else []

/-- The directory that relative paths count from: the given one, or the working directory. -/
def contextIn (h : Host) (context : Option Text) : Except Fault Text :=
  match context with
  | some directory => .ok directory
  | none => h.currentPath

/-- Runs a command line and gives the code of the run.  Relative paths of the command line count
from `context`, or from the working directory if none is given. -/
def run (line : CommandLine) (context : Option Text) (defaults : Settings)
    (environment : Entries Text) : Action Nat := do
  match Settings.load (← getHost) defaults environment line.settings line.givenSettings with
  | .error .unknownHome => throw .unknownHome
  | .error .tooDeep => throw .tooDeep
  | .error e =>
    printError e.message
    return 2
  | .ok settings =>
    let context ← contextIn (← getHost) context
    let setup ← setUp (← getHost) context settings line.roots
    Command.run setup line.command

end CommandLine

end Bindery
