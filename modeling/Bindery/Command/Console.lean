import Bindery.Engine.Resolve
import Bindery.Selection.Store

/-!
# The console

What a command works on: the host, what it remembers of ignore files, the input that is not read
yet, and what it has printed.  A fault ends a command, and what it did before stays done.

* `Action` is a step of a command; `Console.print`, `Console.printError` and the others are steps.
-/

namespace Bindery

/-- What a command works on. -/
structure Console where
  host : Host
  cache : IgnoreCache
  /-- The input that is not read yet. -/
  input : Text
  output : Text
  errors : Text

/-- A step of a command. -/
abbrev Action := ExceptT Fault (StateM Console)

namespace Console

/-- Prints a text. -/
def print (s : Text) : Action Unit :=
  modify fun c => { c with output := c.output ++ s }

/-- Prints a line. -/
def printLine (s : Text) : Action Unit :=
  print (s ++ ['\n'])

/-- Prints a value. -/
def printJson (v : Json) : Action Unit :=
  printLine (Json.write (.indented false) v)

/-- Prints a text on the error output. -/
def printErrorText (s : Text) : Action Unit :=
  modify fun c => { c with errors := c.errors ++ s }

/-- Prints a line of the program on the error output. -/
def printError (s : Text) : Action Unit :=
  printErrorText ("[conplug] ".toList ++ s ++ ['\n'])

/-- Prints reports on the error output. -/
def printDiagnostics (ds : List Diagnostic) : Action Unit :=
  ds.forM fun d => printError d.toText

/-- Reads a line of the input. -/
def readLine : Action Text := do
  let input := (← get).input
  let line := input.takeWhile (· != '\n')
  modify fun c => { c with input := (input.dropWhile (· != '\n')).tail }
  return line

/-- Asks a question that is answered by yes or no; anything but a yes is a no. -/
def confirm (question : Text) : Action Bool := do
  printErrorText (question ++ " [y/N] ".toList)
  let answer := Text.lower (Text.trim (← readLine))
  return answer == ['y'] || answer == "yes".toList

/-- The host. -/
def getHost : Action Host :=
  return (← get).host

/-- Changes the host. -/
def setHost (h : Host) : Action Unit :=
  modify fun c => { c with host := h }

/-- Makes a change of the host; what was done before a fault stays done. -/
def change {α : Type} (c : HostChange α) : Action α := do
  let (result, h) := c.run.run (← getHost)
  setHost h
  result

/-- The files of a selection, and the reports made on the way. -/
def resolveSelection (e : Engine) (s : Selection) : Action (List Text × List Diagnostic) := do
  let c ← get
  let found := e.resolveSelection c.host c.cache s
  set { c with cache := e.refreshed c.host c.cache found.notes }
  let files ← found.result
  return (Text.sortedSet files, found.notes.diagnostics)

end Console

end Bindery
