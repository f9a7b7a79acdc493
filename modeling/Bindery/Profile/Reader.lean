import Bindery.Entries
import Bindery.Files.Host
import Bindery.Profile.Basic
import Bindery.Text.Line

/-!
# Reading profile files

A profile file is read line by line, blanks at both ends of a line dropped.  A header line opens
a block, a line that is a closing brace ends it, and every other line in a block is a pattern.
Blank lines and lines that begin with `#` say nothing, and neither does a line outside of a block.

A header is a name, perhaps a colon and the names of parents, and an opening brace; what follows
the brace on the same line are patterns separated by blanks, and a closing brace at the end of the
line ends the block at once.  A name has none of the characters `: { } * ? [ ] / \ !`, so a
pattern with brace groups is no header.  A header in a block ends that block.  Of two blocks with
one name the later counts, in the place of the earlier.

* `Header.read?` reads a header line.
* `Profile.readText` reads the text of a file, `Profile.load` a file.
-/

namespace Bindery

/-! ## Header lines -/

/-- A header line: the name and the parents as they are written, and the text after the brace. -/
structure Header where
  name : Text
  parents : Option Text
  body : Text
  deriving DecidableEq, Repr

namespace Header

/-- The characters that no name has. -/
def reserved : List Char :=
  [':', '\x7b', '\x7d', '*', '?', '[', ']', '/', '\\', '!']

/-- Whether a character may stand in a name. -/
def isNameChar (c : Char) : Bool :=
  !reserved.contains c

/-- Reads a header line. -/
def read? (line : Text) : Option Header :=
  match line.takeWhile isNameChar with
  | [] => none
  | name =>
    match line.dropWhile isNameChar with
    | '{' :: body => some ⟨name, none, body⟩
    | ':' :: r =>
      match r.dropWhile (· != '{') with
      | _ :: body => some ⟨name, some (r.takeWhile (· != '{')), body⟩
      | [] => none
    | _ => none

/-- The parents that a header lists: a profile is never its own parent. -/
def parentNames (h : Header) : List Text :=
  (((h.parents.getD []).splitOn ',').map Text.trim).filter fun p =>
    !p.isEmpty && p != Text.trim h.name

/-- The profile that a header opens, without the patterns after the brace. -/
def opened (h : Header) (root : Text) : Profile :=
  ⟨Text.trim h.name, root, h.parentNames, [], []⟩

/-- Whether the block of a header ends on its line. -/
def closes (h : Header) : Bool :=
  (Text.trim h.body).getLast? == some '}'

/-- The patterns on the line of a header. -/
def patterns (h : Header) : List Text :=
  let body := Text.trim h.body
  Text.words (if h.closes then body.dropLast else body)

end Header

/-! ## Blocks -/

/-- The state between two lines: the profiles read, and the block that is open. -/
structure Scan where
  profiles : Entries Profile
  block : Option Profile
  deriving DecidableEq, Repr

namespace Scan

/-- The state before the first line. -/
def start : Scan := ⟨[], none⟩

/-- Ends the open block, if there is one. -/
def commit (s : Scan) : Scan :=
  match s.block with
  | none => s
  | some p => ⟨s.profiles.put p.name p, none⟩

/-- Reads a header line. -/
def openBlock (s : Scan) (root : Text) (h : Header) : Scan :=
  let block := h.patterns.foldl Profile.addPattern (h.opened root)
  let next : Scan := ⟨s.commit.profiles, some block⟩
  if h.closes then next.commit else next

/-- Reads a line that is neither blank nor a comment nor a header. -/
def bodyLine (s : Scan) (line : Text) : Scan :=
  match s.block with
  | none => s
  | some p => if line = ['}'] then s.commit else { s with block := some (p.addPattern line) }

/-- Reads a line without blanks at its ends. -/
def feed (root : Text) (s : Scan) (line : Text) : Scan :=
  if line.isEmpty || line.head? == some '#' then s
  else
    match Header.read? line with
    | some h => s.openBlock root h
    | none => s.bodyLine line

end Scan

namespace Profile

/-- The profiles that a text declares for a root. -/
def readText (root text : Text) : Entries Profile :=
  (((Text.lines text).map Text.trim).foldl (Scan.feed root) Scan.start).commit.profiles

/-- The text of the profile file at a path. -/
def readFile (h : Host) (path : Text) : Except Fault Text :=
  let shown := (Path.Parsed.ofText path).toText
  match h.readBytes shown with
  | .error (.file e) => .error (.unreadable path (e.message shown))
  | .error e => .error e
  | .ok bytes =>
    match Utf8.decode bytes with
    | .error f => .error (.unreadable path f.message)
    | .ok text => .ok (Text.unifyNewlines text)

/-- The profiles that the file at a path declares for a root. -/
def load (h : Host) (path root : Text) : Except Fault (Entries Profile) :=
  (readFile h path).map (readText root)

end Profile

end Bindery
