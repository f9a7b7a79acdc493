import Bindery.Text.Basic

/-!
# Help pages

What is shown when the program or one of its commands is asked for help: how it is called, what it
is for, and what may follow it, each in the first column with its purpose in the second.

* `HelpPage.toText`
-/

namespace Bindery

/-- Something that may be given on a command line, and what it is for. -/
structure HelpEntry where
  form : String
  purpose : String

/-- Entries under a title, so far indented. -/
structure HelpSection where
  title : String
  indent : Nat
  /-- A line before the entries. -/
  heading : List String
  entries : List HelpEntry

/-- A help page. -/
structure HelpPage where
  usage : List String
  about : List String
  sections : List HelpSection

namespace HelpPage

/-- The greatest width of the first column. -/
def maxColumn : Nat := 24

/-- So many blanks. -/
def blanks (n : Nat) : Text := List.replicate n ' '

/-- An entry; its purpose is on a line of its own if the first column is too narrow. -/
def entryText (indent column : Nat) (e : HelpEntry) : Text :=
  let form := blanks indent ++ e.form.toList
  if e.purpose.isEmpty then form ++ ['\n']
  else if form.length + 2 ≤ column then
    form ++ blanks (column - form.length) ++ e.purpose.toList ++ ['\n']
  else form ++ '\n' :: blanks column ++ e.purpose.toList ++ ['\n']

/-- A section after an empty line. -/
def sectionText (column : Nat) (s : HelpSection) : Text :=
  '\n' :: s.title.toList ++ ":\n".toList ++
    s.heading.flatMap (fun l => "  ".toList ++ l.toList ++ ['\n']) ++
    s.entries.flatMap (entryText s.indent column)

/-- The width of the first column. -/
def column (p : HelpPage) : Nat :=
  let widths := p.sections.flatMap fun s => s.entries.map fun e => s.indent + e.form.length + 2
  min maxColumn (widths.foldl max 0)

/-- The text of a help page. -/
def toText (p : HelpPage) : Text :=
  p.usage.flatMap (fun l => l.toList ++ ['\n']) ++
    p.about.flatMap (fun l => '\n' :: l.toList ++ ['\n']) ++
    p.sections.flatMap (sectionText p.column)

/-! ## The pages -/

/-- The options of a page. -/
def options (entries : List HelpEntry) : HelpSection where
  title := "options"
  indent := 2
  heading := []
  entries := ⟨"-h, --help", "show this help message and exit"⟩ :: entries

/-- The options that choose files. -/
def choiceEntries : List HelpEntry :=
  [ ⟨"--profile PROFILE, -p PROFILE", "Profile to use (repeatable)"⟩,
    ⟨"--all", "Ignore profiles and use every file under every root"⟩ ]

/-- The commands. -/
def commands : HelpSection where
  title := "positional arguments"
  indent := 4
  heading := ["\x7bprofiles,files,render,select,doctor\x7d"]
  entries :=
    [ ⟨"profiles", "List profiles of all roots"⟩,
      ⟨"files", "Print the resolved file list"⟩,
      ⟨"render", "Render the selected files into one text"⟩,
      ⟨"select", "Show or persist the profile selection"⟩,
      ⟨"doctor", "Print diagnostic information"⟩ ]

/-- The page of the program. -/
def program : HelpPage where
  usage :=
    [ "usage: conplug [-h] [--version] [--root ROOT] [--settings SETTINGS]",
      "               [--include-git-ignored]",
      "               \x7bprofiles,files,render,select,doctor\x7d ..." ]
  about := ["Concatenate project files selected by .conplug profiles."]
  sections :=
    [ commands,
      options
        [ ⟨"--version", "show program's version number and exit"⟩,
          ⟨"--root ROOT, -r ROOT", "Project root (repeatable, default: current directory)"⟩,
          ⟨"--settings SETTINGS", "JSON settings file"⟩,
          ⟨"--include-git-ignored", "Do not drop files matched by the root's .gitignore"⟩ ] ]

/-- The page of the command that prints profiles. -/
def profiles : HelpPage where
  usage := ["usage: conplug profiles [-h]"]
  about := []
  sections := [options []]

/-- The page of the command that prints paths. -/
def files : HelpPage where
  usage := ["usage: conplug files [-h] [--profile PROFILE | --all]"]
  about := []
  sections := [options choiceEntries]

/-- The page of the command that renders files. -/
def render : HelpPage where
  usage :=
    [ "usage: conplug render [-h] [--profile PROFILE | --all] [--yes]",
      "                      [--output OUTPUT] [--max-bytes MAX_BYTES]" ]
  about := []
  sections :=
    [ options (choiceEntries ++
        [ ⟨"--yes, -y", "Do not ask before all-files mode"⟩,
          ⟨"--output OUTPUT, -o OUTPUT", "Write to this file instead of stdout"⟩,
          ⟨"--max-bytes MAX_BYTES", "Override the content size limit"⟩ ]) ]

/-- The page of the command that shows or changes the selection. -/
def select : HelpPage where
  usage := ["usage: conplug select [-h] [--profile PROFILE | --all] [--clear]"]
  about := []
  sections := [options (choiceEntries ++ [⟨"--clear", "Clear the selection"⟩])]

/-- The page of the command that describes the state of things. -/
def doctor : HelpPage where
  usage := ["usage: conplug doctor [-h]"]
  about := []
  sections := [options []]

end HelpPage

end Bindery
