import Bindery.Json.Reader
import Bindery.Roots
import Bindery.Settings.Value
import Bindery.Text.Case
import Bindery.Text.Line

/-!
# Loading settings

A setting comes from what is given outright, else from a settings file, else from the environment,
else from the defaults.  A map that both the environment and a file give is put together name by
name.

A settings file is a JSON object.  Its names are those of settings in any case and those of
`Settings.editorNames`, either kind also after `Settings.namePrefix`.  In the environment a setting
has its name after `Settings.environmentPrefix`; lists and maps are written in JSON there.

* `Settings.load`
* `Settings.ofSources` puts together the values of all sources.
-/

namespace Bindery

/-- Why a settings file gives no value. -/
inductive SettingsCause
  | refused (e : FileError)
  | nullCharacter
  | notUtf8 (f : Utf8.Failure)
  | notJson (flaw : Json.Flaw)
  deriving DecidableEq, Repr

/-- Why settings are not loaded. -/
inductive SettingsFault
  /-- The settings file at a path cannot be read. -/
  | unreadable (path : Text) (cause : SettingsCause)
  /-- The settings file at a path holds something else than an object. -/
  | notObject (path : Text)
  /-- A list or a map in the environment is not JSON. -/
  | environment (field : Text)
  /-- Values cannot be taken for their settings. -/
  | invalid (problems : List SettingProblem)
  /-- The path of the settings file begins with the home directory of an unknown user. -/
  | unknownHome
  /-- A value is nested too deep. -/
  | tooDeep
  deriving DecidableEq, Repr

namespace SettingsFault

/-- The wording of a cause. -/
def causeText (path : Text) : SettingsCause → Text
  | .refused e => e.message path
  | .nullCharacter => "embedded null byte".toList
  | .notUtf8 f => f.message
  | .notJson .malformed => "not a JSON text".toList
  | .notJson .tooManyDigits => "a number of too many digits".toList
  | .notJson .tooDeep => "a value nested too deep".toList

/-- The part of the wording of an unreadable file that comes before its cause. -/
def unreadableText (path : Text) : Text :=
  "Failed to load settings file ".toList ++ path ++ ": ".toList

/-- The line for a problem. -/
def problemLine (p : SettingProblem) : Text :=
  '\n' :: List.intercalate ['.'] p.place ++ ": ".toList ++ p.problem.word

/-- The wording of a fault. -/
def message : SettingsFault → Text
  | unreadable path cause => unreadableText path ++ causeText path cause
  | notObject path =>
    "Invalid settings shape at ".toList ++ path ++ ": expected JSON object.".toList
  | environment field =>
    "error parsing value for field \"".toList ++ field ++
      "\" from source \"EnvSettingsSource\"".toList
  | invalid problems => "Invalid settings".toList ++ problems.flatMap problemLine
  | unknownHome => "Could not determine home directory.".toList
  | tooDeep => "a value is nested too deep".toList

end SettingsFault

namespace Settings

/-! ## Names in settings files -/

/-- The names that editors use for settings. -/
def editorNames : Entries Text :=
  [ ("includeGitIgnored", "INCLUDE_GIT_IGNORED"),
    ("autoCopyToClipboard", "AUTO_COPY_TO_CLIPBOARD"), ("headerPrefix", "HEADER_PREFIX"),
    ("headerSuffix", "HEADER_SUFFIX"), ("fileDecorationSymbol", "FILE_DECORATION_SYMBOL"),
    ("excludePatterns", "EXCLUDE_PATTERNS"), ("languageCommentMap", "LANGUAGE_COMMENT_MAP"),
    ("maxContentSize", "MAX_CONTENT_BYTES"), ("maxContentBytes", "MAX_CONTENT_BYTES") ].map
      fun n => (n.1.toList, n.2.toList)

/-- What may stand before names in a settings file. -/
def namePrefix : Text := "conplug.".toList

/-- The setting that a name in a settings file stands for. -/
def settingOf? (name : Text) : Option Text :=
  let plain := if namePrefix.isPrefixOf name then name.drop namePrefix.length else name
  let setting := Text.upper ((editorNames.get? plain).getD plain)
  if (fields.map Prod.fst).contains setting then some setting else none

/-- The values of a settings file by setting; of several for one setting the last counts. -/
def ofFile (members : Entries Json) : Entries Json :=
  members.foldl
    (fun values m => match settingOf? m.1 with
      | some setting => values.put setting m.2
      | none => values)
    []

/-! ## The environment -/

/-- What stands before the names of settings in the environment. -/
def environmentPrefix : Text := "CONPLUG_".toList

/-- The value that the environment gives for a setting; a JSON null is none. -/
def environmentValue (environment : Entries Text) (field : Text × SettingKind) :
    Except SettingsFault (Option Json) :=
  match environment.get? (environmentPrefix ++ field.1) with
  | none => .ok none
  | some written =>
    match field.2 with
    | .texts | .textMap =>
      match Json.read written with
      | .error .tooDeep => .error .tooDeep
      | .error _ => .error (.environment field.1)
      | .ok .null => .ok none
      | .ok v => .ok (some v)
    | _ => .ok (some (.string written))

/-- The values that the environment gives, setting by setting. -/
def environmentValues (environment : Entries Text) : List (Text × SettingKind) →
    Except SettingsFault (Entries Json)
  | [] => .ok []
  | field :: rest =>
    match environmentValue environment field with
    | .error e => .error e
    | .ok value =>
      (environmentValues environment rest).map ((value.map fun v => (field.1, v)).toList ++ ·)

/-! ## All sources -/

/-- A value in the place of another for the same setting; a map is added to a map. -/
def combine (below above : Json) : Json :=
  match below, above with
  | .object old, .object new => .object (Entries.merge old new)
  | _, v => v

/-- Puts the values of a source above those of another. -/
def layer (below above : Entries Json) : Entries Json :=
  above.foldl
    (fun values v => match values.get? v.1 with
      | some old => values.put v.1 (combine old v.2)
      | none => values.put v.1 v.2)
    below

/-- Whether a value is given at all. -/
def isGiven (v : Json) : Bool :=
  match v with
  | .null => false
  | _ => true

/-- The settings that a file's members, values given outright and the environment make. -/
def ofSources (defaults : Settings) (environment : Entries Text) (members given : Entries Json) :
    Except SettingsFault Settings :=
  match environmentValues environment fields with
  | .error e => .error e
  | .ok below =>
    let above := (ofFile members).merge (given.filter fun g => isGiven g.2)
    (ofValues defaults (layer below above)).mapError .invalid

/-- The value in the settings file at a path. -/
def fileValue (h : Host) (path : Text) : Except SettingsFault Json :=
  match h.readBytes path with
  | .error (.file e) => .error (.unreadable path (.refused e))
  | .error _ => .error (.unreadable path .nullCharacter)
  | .ok bytes =>
    match Utf8.decode bytes with
    | .error f => .error (.unreadable path (.notUtf8 f))
    | .ok text =>
      match Json.read (Text.unifyNewlines text) with
      | .error .tooDeep => .error .tooDeep
      | .error flaw => .error (.unreadable path (.notJson flaw))
      | .ok v => .ok v

/-- The members of the settings file at a path; none without a path. -/
def fileMembers (h : Host) (path : Option Text) : Except SettingsFault (Entries Json) :=
  match path with
  | none | some [] => .ok []
  | some p =>
    match Roots.expandHome h (.ofText p) with
    | .error _ => .error .unknownHome
    | .ok expanded =>
      match fileValue h expanded.toText with
      | .error e => .error e
      | .ok (.object members) => .ok members
      | .ok _ => .error (.notObject expanded.toText)

/-- Loads the settings. -/
def load (h : Host) (defaults : Settings) (environment : Entries Text) (path : Option Text)
    (given : Entries Json) : Except SettingsFault Settings :=
  match fileMembers h path with
  | .error e => .error e
  | .ok members => ofSources defaults environment members given

end Settings

end Bindery
