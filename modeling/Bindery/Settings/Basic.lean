import Bindery.Path.Parsed
import Bindery.Render.Options

/-!
# Settings

The settings of the program with their names, kinds and defaults.

* `Settings.default`, `Settings.fields`
* `Settings.selectionPath` is where the selection is stored.
-/

namespace Bindery

/-- The version of the program. -/
def version : Text := "1.0.0".toList

/-- The settings of the program. -/
structure Settings where
  version : Text
  configFileName : Text
  ignoreFileName : Text
  includeIgnored : Bool
  excludePatterns : List Text
  headerPrefix : Text
  headerSuffix : Text
  commentMarks : Entries Text
  maxBytes : Int
  logLevel : Text
  logJson : Bool
  autoCopy : Bool
  decorationSymbol : Text
  stateDirectory : Text
  deriving DecidableEq, Repr

/-- The kinds of settings. -/
inductive SettingKind
  | text
  | flag
  | number
  | texts
  | textMap
  deriving DecidableEq, Repr

namespace Settings

/-- The patterns of files that are never among all files. -/
def defaultExcludes : List Text :=
  [ "**/node_modules/**", "**/.git/**", "**/out/**", "**/dist/**", "**/build/**",
    "**/.vscode/**", "**/package-lock.json", "**/yarn.lock", "**/*.log" ].map String.toList

/-- The settings when nothing is set, for a given home directory. -/
def default (home : Text) : Settings where
  version := Bindery.version
  configFileName := ".conplug".toList
  ignoreFileName := ".gitignore".toList
  includeIgnored := false
  excludePatterns := defaultExcludes
  headerPrefix := ['\n']
  headerSuffix := ['\n']
  commentMarks := defaultCommentMarks
  maxBytes := defaultMaxBytes
  logLevel := "WARNING".toList
  logJson := true
  autoCopy := true
  decorationSymbol := ['🐺']
  stateDirectory := home ++ "/.local/share/conplug".toList

/-- The names of the settings and their kinds. -/
def fields : List (Text × SettingKind) :=
  [ ("VERSION", SettingKind.text), ("CONFIG_FILE_NAME", .text), ("IGNORE_FILE_NAME", .text),
    ("INCLUDE_GIT_IGNORED", .flag), ("EXCLUDE_PATTERNS", .texts), ("HEADER_PREFIX", .text),
    ("HEADER_SUFFIX", .text), ("LANGUAGE_COMMENT_MAP", .textMap), ("MAX_CONTENT_BYTES", .number),
    ("LOG_LEVEL", .text), ("LOG_JSON", .flag), ("AUTO_COPY_TO_CLIPBOARD", .flag),
    ("FILE_DECORATION_SYMBOL", .text), ("STATE_DIR", .text) ].map fun f => (f.1.toList, f.2)

/-- The path of the stored selection. -/
def selectionPath (s : Settings) : Path.Parsed :=
  (Path.Parsed.ofText s.stateDirectory).append (.ofText "selection.json".toList)

/-- The render options that the settings give. -/
def renderOptions (s : Settings) (roots : List Text) : RenderOptions where
  headerPrefix := s.headerPrefix
  headerSuffix := s.headerSuffix
  maxBytes := s.maxBytes
  commentMarks := s.commentMarks
  roots := roots

end Settings

end Bindery
