import Bindery.Json.Value

/-!
# Writing JSON

Writes JSON values, on one line or with each item on a line of its own, and with characters
outside ASCII as they are or escaped by their UTF-16 code units.

* `Json.write`; `Json.Layout.indented` and `Json.Layout.compact`.
-/

namespace Bindery.Json

/-- How values are laid out. -/
structure Layout where
  /-- Whether characters outside printable ASCII are escaped. -/
  asciiOnly : Bool
  /-- By how many spaces each level is indented, if items have lines of their own. -/
  indent : Option Nat

/-- Two spaces for each level. -/
def Layout.indented (asciiOnly : Bool) : Layout := ⟨asciiOnly, some 2⟩

/-- All on one line. -/
def Layout.compact : Layout := ⟨false, none⟩

/-- A code unit as an escape. -/
def unitEscape (n : Nat) : Text :=
  '\\' :: 'u' :: Text.hexadecimal 4 n

/-- A character as it stands in a string. -/
def stringChar (asciiOnly : Bool) (c : Char) : Text :=
  let n := c.toNat
  if c = '"' ∨ c = '\\' then ['\\', c]
  else if c = '\n' then ['\\', 'n']
  else if c = '\r' then ['\\', 'r']
  else if c = '\t' then ['\\', 't']
  else if n = 0x0c then ['\\', 'f']
  else if n = 0x08 then ['\\', 'b']
  else if n < 0x20 ∨ asciiOnly ∧ 0x7f ≤ n then
    if n < 0x10000 then unitEscape n
    else unitEscape (0xd800 + (n - 0x10000) / 0x400) ++ unitEscape (0xdc00 + (n - 0x10000) % 0x400)
  else [c]

/-- A text in quotes. -/
def writeString (asciiOnly : Bool) (s : Text) : Text :=
  '"' :: s.flatMap (stringChar asciiOnly) ++ ['"']

/-- The break before an item at a level. -/
def lineBreak (layout : Layout) (level : Nat) : Text :=
  match layout.indent with
  | none => []
  | some width => '\n' :: List.replicate (width * level) ' '

/-- What stands between two items at a level. -/
def separator (layout : Layout) (level : Nat) : Text :=
  match layout.indent with
  | none => [',', ' ']
  | some _ => ',' :: lineBreak layout level

/-- The text of a number that is not whole. -/
def writeReal : Binary64 → Text
  | .notANumber => "NaN".toList
  | .infinite negative => if negative then "-Infinity".toList else "Infinity".toList
  | x => x.toText

mutual

/-- The text of a value that begins at a level. -/
def writeAt (layout : Layout) (level : Nat) : Json → Text
  | .null => "null".toList
  | .bool b => if b then "true".toList else "false".toList
  | .integer n => Text.ofInt n
  | .real x => writeReal x
  | .string s => writeString layout.asciiOnly s
  | .array [] => "[]".toList
  | .array items =>
    '[' :: lineBreak layout (level + 1) ++ writeItems layout (level + 1) items ++
      lineBreak layout level ++ [']']
  | .object [] => ['{', '}']
  | .object members =>
    '{' :: lineBreak layout (level + 1) ++ writeMembers layout (level + 1) members ++
      lineBreak layout level ++ ['}']

/-- The texts of the items of a list. -/
def writeItems (layout : Layout) (level : Nat) : List Json → Text
  | [] => []
  | [v] => writeAt layout level v
  | v :: w :: r =>
    writeAt layout level v ++ separator layout level ++ writeItems layout level (w :: r)

/-- The texts of the members of an object. -/
def writeMembers (layout : Layout) (level : Nat) : List (Text × Json) → Text
  | [] => []
  | [(n, v)] => writeString layout.asciiOnly n ++ ':' :: ' ' :: writeAt layout level v
  | (n, v) :: m :: r =>
    writeString layout.asciiOnly n ++ ':' :: ' ' :: writeAt layout level v ++
      separator layout level ++ writeMembers layout level (m :: r)

end

/-- The text of a value. -/
def write (layout : Layout) (v : Json) : Text :=
  writeAt layout 0 v

end Bindery.Json
