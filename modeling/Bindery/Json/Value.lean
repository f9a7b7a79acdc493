import Bindery.Number.Shortest
import Bindery.Text.Quoted
import Bindery.Entries

/-!
# JSON values

A number is a whole number of any size, or a double if it is written with a fraction or an
exponent.  The members of an object keep the order in which their names first appear.

* `Json.get?` looks up a member.
* `Json.display` is a value in the notation of lists and maps that shows names given as values.
-/

namespace Bindery

/-- A JSON value. -/
inductive Json
  | null
  | bool (b : Bool)
  | integer (n : Int)
  | real (x : Binary64)
  | string (s : Text)
  | array (items : List Json)
  | object (members : List (Text × Json))
  deriving Repr

namespace Json

/-- The members of an object from a list in which the last of equal names counts. -/
def ofMembers (ms : Entries Json) : Json :=
  .object (Entries.merge [] ms)

/-- The member of a name. -/
def get? (name : Text) : Json → Option Json
  | .object ms => Entries.get? ms name
  | _ => none

mutual

/-- A value as it is shown within a list or map: texts in quotes. -/
def display : Json → Text
  | .null => "None".toList
  | .bool b => if b then "True".toList else "False".toList
  | .integer n => Text.ofInt n
  | .real x => x.toText
  | .string s => s.quoted
  | .array items => '[' :: displayItems items ++ [']']
  | .object members => '{' :: displayMembers members ++ ['}']

/-- The items of a list, separated by commas. -/
def displayItems : List Json → Text
  | [] => []
  | [v] => v.display
  | v :: w :: r => v.display ++ ", ".toList ++ displayItems (w :: r)

/-- The members of a map, separated by commas. -/
def displayMembers : List (Text × Json) → Text
  | [] => []
  | [(n, v)] => n.quoted ++ ": ".toList ++ v.display
  | (n, v) :: m :: r =>
    n.quoted ++ ": ".toList ++ v.display ++ ", ".toList ++ displayMembers (m :: r)

end

/-- A value as text: a text is itself, and anything else as it is shown in a list. -/
def toText : Json → Text
  | .string s => s
  | v => v.display

end Json

end Bindery
