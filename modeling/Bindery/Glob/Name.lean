import Bindery.Regex.Reader
import Bindery.Glob.Class

/-!
# Name patterns

Patterns over single names of directory entries: `*` is any text, `?` any character, and a class
in brackets one of its members, `!` in front negating it.  There is no escape, and no character
is special to the text that a star stands for.

The body of a class is cut at the hyphens that make ranges.  A range whose ends are in the wrong
order is empty: its two ends are dropped.  A class without members matches nothing, and a negated
one any character.

* `NamePattern.toRegex` is the expression of a pattern, `NamePattern.matchesName` its use.
-/

namespace Bindery.NamePattern

/-! ## Classes -/

/-- Cuts a class body at the hyphens that make ranges.  A hyphen among the first `skip`
characters makes none, nor does one at the end, and after a range the next two characters are
passed over. -/
def chunks (skip : Nat) (s : Text) : List Text :=
  match _h : (s.drop skip).dropWhile (· != '-') with
  | [] => [s]
  | [_] => [s]
  | _ :: r => (s.take skip ++ (s.drop skip).takeWhile (· != '-')) :: chunks 2 r
  termination_by s.length
  decreasing_by
    have h₁ := congrArg List.length _h
    have h₂ := (List.dropWhile_sublist (· != '-') (l := s.drop skip)).length_le
    simp only [List.length_cons, List.length_drop] at h₁ h₂ ⊢
    omega

/-- Drops the ranges between neighbouring chunks whose ends are in the wrong order. -/
def dropEmptyRanges : List Text → List Text
  | [] => []
  | c :: cs =>
    match dropEmptyRanges cs with
    | [] => [c]
    | d :: ds =>
      match c.getLast?, d with
      | some low, high :: rest => if high < low then (c.dropLast ++ rest) :: ds else c :: d :: ds
      | _, _ => c :: d :: ds

/-- A chunk as it stands between the hyphens of ranges. -/
def chunkText (s : Text) : Text :=
  s.flatMap fun c => if c = '\\' ∨ c = '-' then ['\\', c] else [c]

/-- The body of a class as the text of an expression, set operators escaped. -/
def classText (body : Text) : Text :=
  let text :=
    if body.contains '-' then
      List.intercalate ['-'] <| (dropEmptyRanges (chunks (if body.head? = some '!' then 2 else 1)
        body)).map chunkText
    else Text.replaceChar '\\' ['\\', '\\'] body
  text.flatMap fun c => if c = '&' ∨ c = '~' ∨ c = '|' then ['\\', c] else [c]

/-- The set of a class. -/
def classSet (body : Text) : CharSet :=
  match classText body with
  | [] => .none
  | ['!'] => .all
  | c :: r =>
    let text :=
      if c = '!' then '^' :: r
      else if c = '^' ∨ c = '[' then '\\' :: c :: r
      else c :: r
    match Regex.classSet (text ++ [']']) with
    | .ok (s, _) => s
    | .error _ => .none

/-! ## Patterns -/

/-- The parts of the expression of a pattern. -/
def parts : Text → List Regex
  | [] => []
  | '*' :: r => .many .all :: parts r
  | '?' :: r => .set .all :: parts r
  | '[' :: r =>
    match _h : Glob.classBody? ['!'] r with
    | some (body, after) => .set (classSet body) :: parts after
    | none => .char '[' :: parts r
  | c :: r => .char c :: parts r
  termination_by s => s.length
  decreasing_by
    all_goals first
      | (simp only [List.length_cons]; omega)
      | (have hl := Glob.length_classBody? _h; simp only [List.length_cons]; omega)

/-- The expression of a pattern; it matches whole names. -/
def toRegex (pattern : Text) : Regex :=
  .seq (.ofList (parts pattern)) .atEnd

/-- Whether a pattern matches a name. -/
def matchesName (pattern name : Text) : Bool :=
  (toRegex pattern).isMatch name

/-- Whether a text has a character that is special in a name pattern. -/
def hasMagic (s : Text) : Bool :=
  s.any fun c => c == '*' || c == '?' || c == '['

/-- The pattern that matches a given text only: each special character in a class of its own. -/
def escape (s : Text) : Text :=
  s.flatMap fun c => if c = '*' ∨ c = '?' ∨ c = '[' then ['[', c, ']'] else [c]

end Bindery.NamePattern
