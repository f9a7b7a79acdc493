import Bindery.Command.Help
import Bindery.Command.Words
import Bindery.Settings.Basic

/-!
# The command line

A command line has options of its own, the name of a command and the options of that command.

* `CommandLine.read` reads the words of a command line.
-/

namespace Bindery

/-- Which files a command is about. -/
inductive Choice
  /-- Those of the stored selection. -/
  | saved
  /-- Those of profiles; a name is missing where the option has no value. -/
  | profiles (names : List (Option Text))
  | all
  deriving DecidableEq, Repr

/-- A command with its options. -/
inductive Command
  | profiles
  | files (choice : Choice)
  | render (choice : Choice) (yes : Bool) (output : Option Text) (maxBytes : Option Int)
  | select (choice : Choice) (clear : Bool)
  | doctor
  deriving DecidableEq, Repr

/-- A command line. -/
structure CommandLine where
  /-- The paths of roots; one is missing where the option has no value. -/
  roots : List (Option Text)
  settings : Option Text
  includeIgnored : Bool
  command : Command
  deriving DecidableEq, Repr

/-- Why a command line gives no command to run. -/
inductive CommandStop
  /-- It cannot be understood. -/
  | usage
  /-- It asks for help. -/
  | help (page : HelpPage)
  /-- It asks for the version. -/
  | version

/-- The code with which the program ends. -/
def CommandStop.code : CommandStop → Nat
  | usage => 2
  | _ => 0

/-- What is shown when there is no command to run. -/
def CommandStop.text : CommandStop → Text
  | usage => HelpPage.program.usage.flatMap fun l => l.toList ++ ['\n']
  | help page => page.toText
  | version => "conplug ".toList ++ Bindery.version ++ ['\n']

/-- The options given so far.  Names and paths are missing where an option has no value. -/
structure GivenOptions where
  roots : List (Option Text) := []
  settings : Option Text := none
  includeIgnored : Bool := false
  profiles : List (Option Text) := []
  all : Bool := false
  yes : Bool := false
  output : Option Text := none
  maxBytes : Option Int := none
  clear : Bool := false
  deriving DecidableEq, Repr

namespace GivenOptions

/-- Takes an option where `page` is the help page; profiles and all files exclude each other. -/
def take (page : HelpPage) (g : GivenOptions) (o : CommandOption) (value : Option Text) :
    Except CommandStop GivenOptions :=
  match o with
  | .help => .error (.help page)
  | .version => .error .version
  | .root => .ok { g with roots := g.roots ++ [value] }
  | .settings => .ok { g with settings := value }
  | .includeIgnored => .ok { g with includeIgnored := true }
  | .profile => if g.all then .error .usage else .ok { g with profiles := g.profiles ++ [value] }
  | .all => if g.profiles.isEmpty then .ok { g with all := true } else .error .usage
  | .yes => .ok { g with yes := true }
  | .output => .ok { g with output := value }
  | .maxBytes =>
    match value with
    | none => .ok { g with maxBytes := none }
    | some v =>
      match Number.whole? v with
      | some n => .ok { g with maxBytes := some n }
      | none => .error .usage
  | .clear => .ok { g with clear := true }

/-- Which files the options choose. -/
def choice (g : GivenOptions) : Choice :=
  if g.all then .all else if g.profiles.isEmpty then .saved else .profiles g.profiles

end GivenOptions

namespace CommandLine

/-- Names of options. -/
def named (names : List (String × CommandOption)) : OptionNames :=
  names.map fun n => (n.1.toList, n.2)

/-- The options before the name of the command. -/
def generalOptions : OptionNames :=
  named [ ("-h", .help), ("--help", .help), ("--version", .version), ("--root", .root),
    ("-r", .root), ("--settings", .settings), ("--include-git-ignored", .includeIgnored) ]

/-- The options that choose files. -/
def choiceOptions : OptionNames :=
  named [ ("-h", .help), ("--help", .help), ("--profile", .profile), ("-p", .profile),
    ("--all", .all) ]

/-- What a command is by its name. -/
structure CommandForm where
  options : OptionNames
  page : HelpPage
  /-- The command made of the options that are given. -/
  make : GivenOptions → Command

/-- A command by its name. -/
def form? (name : Text) : Option CommandForm :=
  let plain := named [("-h", .help), ("--help", .help)]
  if name = "profiles".toList then some ⟨plain, .profiles, fun _ => .profiles⟩
  else if name = "files".toList then some ⟨choiceOptions, .files, fun g => .files g.choice⟩
  else if name = "render".toList then
    some ⟨choiceOptions ++ named [ ("--yes", .yes), ("-y", .yes), ("--output", .output),
      ("-o", .output), ("--max-bytes", .maxBytes) ], .render,
      fun g => .render g.choice g.yes g.output g.maxBytes⟩
  else if name = "select".toList then
    some ⟨choiceOptions ++ named [("--clear", .clear)], .select,
      fun g => .select g.choice g.clear⟩
  else if name = "doctor".toList then some ⟨plain, .doctor, fun _ => .doctor⟩
  else none

/-- What the steps of a part of a command line come to: the options, whether a word had no place,
and the command with its words. -/
structure Part where
  given : GivenOptions
  hasExtra : Bool
  command : Option (Text × List Text)

/-- Takes steps one after the other. -/
def follow (page : HelpPage) (g : GivenOptions) (hasExtra : Bool) :
    List Step → Except CommandStop Part
  | [] => .ok ⟨g, hasExtra, none⟩
  | .use o value :: rest =>
    match g.take page o value with
    | .error e => .error e
    | .ok g => follow page g hasExtra rest
  | .extra :: rest => follow page g true rest
  | .wrong :: _ => .error .usage
  | .command name words :: _ => .ok ⟨g, hasExtra, some (name, words)⟩

/-- Reads a part of a command line. -/
def readPart (page : HelpPage) (names : OptionNames) (commandNext : Bool) (words : List Text) :
    Except CommandStop Part :=
  match Word.classifyAll names words with
  | none => .error .usage
  | some classified => follow page {} false (Step.ofWords names commandNext classified)

/-- Reads a command line. -/
def read (words : List Text) : Except CommandStop CommandLine :=
  match readPart .program generalOptions true words with
  | .error e => .error e
  | .ok general =>
    match general.command with
    | none => .error .usage
    | some (name, words) =>
      match form? name with
      | none => .error .usage
      | some form =>
        match readPart form.page form.options false words with
        | .error e => .error e
        | .ok part =>
          if general.hasExtra || part.hasExtra then .error .usage
          else
            let given := general.given
            .ok ⟨given.roots, given.settings, given.includeIgnored, form.make part.given⟩

end CommandLine

end Bindery
