import Bindery.Engine.Basic

/-!
# A description of the engine

A report on the profiles, the roots and the settings of an engine, in Markdown.

* `Engine.describe`
-/

namespace Bindery.Engine

/-- An answer in words. -/
def yesNo (b : Bool) : Text :=
  if b then "Yes".toList else "No".toList

/-- A truth value in words. -/
def trueFalse (b : Bool) : Text :=
  if b then "True".toList else "False".toList

/-- Items separated by commas. -/
def commaSeparated (items : List Text) : Text :=
  List.intercalate ", ".toList items

/-- The lines about a profile. -/
def profileLines (p : Profile) : List Text :=
  let inherits :=
    if p.parents.isEmpty then [] else ["  * Inherits from: ".toList ++ commaSeparated p.parents]
  ["* ".toList ++ p.name ++ " (from ".toList ++ p.root ++ [')']] ++ inherits ++
    ["  * Files: ".toList ++ Text.ofNat p.includes.length ++ ", Excluded: ".toList ++
      Text.ofNat p.excludes.length]

/-- The lines about all profiles. -/
def allProfileLines (e : Engine) : List Text :=
  let profiles := e.registry.profiles
  let list :=
    if profiles.isEmpty then []
    else [[], "### Available Profiles:".toList] ++ profiles.flatMap profileLines
  ["## Profile Information".toList,
    "* Loaded Profiles: ".toList ++ Text.ofNat profiles.length] ++ list

/-- The lines about a root, which is the one of a number. -/
def rootLines (e : Engine) (h : Host) (number : Nat) (root : Text) : Except Fault (List Text) := do
  let hasConfig ← e.hasConfig h root
  let loaded ← e.isLoaded h root
  return [
    "  * ".toList ++ Text.ofNat number ++ ": ".toList ++ (Path.Parsed.ofText root).name ++
      " (".toList ++ root ++ [')'],
    "    * Has ".toList ++ e.settings.configFileName ++ " file: ".toList ++ yesNo hasConfig,
    "    * Loaded: ".toList ++ yesNo loaded ]

/-- The lines about all roots. -/
def allRootLines (e : Engine) (h : Host) : Except Fault (List Text) := do
  let lines ← (e.roots.mapIdx fun i root => (i + 1, root)).mapM fun (n, root) =>
    e.rootLines h n root
  let summary :=
    if e.roots.isEmpty then "* No workspace roots".toList
    else "* Workspace Roots: ".toList ++ Text.ofNat e.roots.length
  return ["## Workspace Information".toList, summary] ++ lines.flatten

/-- The lines about the settings. -/
def settingLines (e : Engine) : List Text :=
  [ "## Settings".toList,
    "* Version: ".toList ++ e.settings.version,
    "* Include git-ignored files: ".toList ++ trueFalse e.settings.includeIgnored,
    "* Max content size: ".toList ++ Text.ofInt e.settings.maxBytes ++ " bytes".toList ]

/-- The report on an engine. -/
def describe (e : Engine) (h : Host) : Except Fault Text := do
  let roots ← e.allRootLines h
  let lines := ["# ConPlug Diagnostic Information".toList, []] ++ e.allProfileLines ++ [[]] ++
    roots ++ [[]] ++ e.settingLines
  return lines.flatMap (· ++ ['\n'])

end Bindery.Engine
