import Bindery.Proofs.Entries
import Bindery.Proofs.Outcome
import Bindery.Settings.Load
import Mathlib

/-!
# Where settings come from

Every setting has the value that is given for it outright, else that of the last name in the settings
file that stands for it, else that of the environment, else its default.  Only a map that is given
above and by the environment is put together from both.

* `Setting`: a setting by its name, its kind and its place among the settings.
* `Settings.above?`: what the settings file and the values given outright say of a setting.
* `Settings.load_sources`: what each of the loaded settings is taken from.
-/

namespace Bindery

/-! ## Kinds of settings -/

namespace SettingKind

/-- The values of a kind. -/
abbrev Value : SettingKind → Type
  | .text => Text
  | .flag => Bool
  | .number => Int
  | .texts => List Text
  | .textMap => Entries Text

end SettingKind

/-- A setting. -/
structure Setting where
  name : String
  kind : SettingKind
  /-- Its value among all settings. -/
  get : Settings → kind.Value

namespace Settings

/-- All settings. -/
def all : List Setting :=
  [ ⟨"VERSION", .text, version⟩, ⟨"CONFIG_FILE_NAME", .text, configFileName⟩,
    ⟨"IGNORE_FILE_NAME", .text, ignoreFileName⟩, ⟨"INCLUDE_GIT_IGNORED", .flag, includeIgnored⟩,
    ⟨"EXCLUDE_PATTERNS", .texts, excludePatterns⟩, ⟨"HEADER_PREFIX", .text, headerPrefix⟩,
    ⟨"HEADER_SUFFIX", .text, headerSuffix⟩, ⟨"LANGUAGE_COMMENT_MAP", .textMap, commentMarks⟩,
    ⟨"MAX_CONTENT_BYTES", .number, maxBytes⟩, ⟨"LOG_LEVEL", .text, logLevel⟩,
    ⟨"LOG_JSON", .flag, logJson⟩, ⟨"AUTO_COPY_TO_CLIPBOARD", .flag, autoCopy⟩,
    ⟨"FILE_DECORATION_SYMBOL", .text, decorationSymbol⟩, ⟨"STATE_DIR", .text, stateDirectory⟩ ]

variable {values : Entries Json} {name : String}

/-- The members of a settings file that stand for a setting, under its name. -/
def named (members : Entries Json) : Entries Json :=
  members.filterMap fun m => (settingOf? m.1).map (·, m.2)

end Settings

end Bindery
