import Bindery.Text.Basic
import Bindery.Text.CaseTable

/-!
# Letter case

The full case mappings of texts.  A character maps to one or more characters, and only the
lower-case form of a capital sigma depends on what stands around it: the final form is used where
a cased letter comes before it and none follows, ignorable characters passed over.

* `Text.lower`, `Text.upper`
-/

namespace Bindery

namespace CaseTable

/-- The character that a table of runs gives for a character; itself outside the runs. -/
def apply (runs : List Run) (c : Char) : Char :=
  match runs.find? fun r => r.holds c.toNat with
  | some r => Char.ofNat (c.toNat + r.shift).toNat
  | none => c

/-- Whether a list of ranges holds a character. -/
def within (ranges : List (Nat × Nat)) (c : Char) : Bool :=
  ranges.any fun r => r.1 ≤ c.toNat && c.toNat ≤ r.2

/-- Whether the first character of a text that is not ignorable is a cased letter. -/
def meetsCased (s : Text) : Bool :=
  (s.find? fun c => !within ignorableRanges c).any (within casedRanges)

end CaseTable

namespace Text

/-- The lower-case form of a character away from any context. -/
def lowerChar (c : Char) : Text :=
  if c = '\u0130' then ['i', '\u0307'] else [CaseTable.apply CaseTable.lowerRuns c]

/-- The upper-case form of a character. -/
def upperChar (c : Char) : Text :=
  match CaseTable.upperExpansions.lookup c.toNat with
  | some codes => codes.map Char.ofNat
  | none => [CaseTable.apply CaseTable.upperRuns c]

/-- The lower-case form of what follows the characters `before`, the nearest of them first. -/
def lowerAfter (before : Text) : Text → Text
  | [] => []
  | c :: r =>
    let lowered :=
      if c = 'Σ' then
        [if CaseTable.meetsCased before && !CaseTable.meetsCased r then 'ς' else 'σ']
      else lowerChar c
    lowered ++ lowerAfter (c :: before) r

/-- The text in lower case. -/
def lower (s : Text) : Text :=
  lowerAfter [] s

/-- The text in upper case. -/
def upper (s : Text) : Text :=
  s.flatMap upperChar

end Text

end Bindery
