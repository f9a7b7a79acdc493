import Bindery.Regex.Reader
import Bindery.Glob.Braces
import Bindery.Glob.Class

/-!
# Path patterns

Patterns over the slash-separated paths below a root.  `*`, `?` and character classes stay within
one name; `**` spans directories where it fills a whole path segment.  A pattern is read as a list
of pieces, each piece has the text of a regular expression, and a list of patterns is compiled
from the choice of all those texts.

* `Glob.pieces` reads a pattern, `Glob.translate` is its expression as text.
* `Glob.compile` compiles a list of patterns with brace groups; without a pattern there is no
  expression.
* `Glob.Accepts` says which paths a list of pieces stands for, without any expression.
-/

namespace Bindery.Glob

/-- A piece of a pattern. -/
inductive Piece
  /-- `**/` at the start of a segment: any directories, or none. -/
  | directories
  /-- `**` as the last segment: anything. -/
  | anything
  /-- Any other run of one or two stars: any part of a name. -/
  | part
  /-- `?`: one character of a name. -/
  | one
  /-- A closed character class; its body as it stands between the brackets. -/
  | set (body : Text)
  /-- One given character. -/
  | char (c : Char)
  deriving DecidableEq, Repr

/-! ## Reading patterns -/

/-- The pieces of a pattern; the truth value says whether a path segment starts here. -/
def piecesFrom : Bool → Text → List Piece
  | _, [] => []
  | true, '*' :: '*' :: '/' :: r => .directories :: piecesFrom true r
  | true, ['*', '*'] => [.anything]
  | _, '*' :: '*' :: r => .part :: piecesFrom false r
  | _, '*' :: r => .part :: piecesFrom false r
  | _, '?' :: r => .one :: piecesFrom false r
  | _, '[' :: r =>
    match _h : classBody? ['!', '^'] r with
    | some (body, after) => .set body :: piecesFrom false after
    | none => .char '[' :: piecesFrom false r
  | _, '\\' :: c :: r => .char c :: piecesFrom (c == '/') r
  | _, c :: r => .char c :: piecesFrom (c == '/') r
  termination_by _ s => s.length
  decreasing_by
    all_goals first
      | (simp only [List.length_cons]; omega)
      | (have hl := length_classBody? _h; simp only [List.length_cons]; omega)

/-- The pieces of a pattern. -/
def pieces (p : Text) : List Piece :=
  piecesFrom true p

/-! ## The expression of a pattern -/

/-- The characters that are escaped in the text of an expression. -/
def specials : List Char :=
  ['(', ')', '[', ']', '\x7b', '\x7d', '?', '*', '+', '-', '|', '^', '$', '\\', '.', '&', '~', '#',
    ' ', '\t', '\n', '\r', '\x0b', '\x0c']

/-- A character as it stands for itself in the text of an expression. -/
def escaped (c : Char) : Text :=
  if specials.contains c then ['\\', c] else [c]

/-- The body of a class in the text of an expression: `^` negates and backslashes are members. -/
def classText (body : Text) : Text :=
  Text.replaceChar '\\' ['\\', '\\'] <|
    match body with
    | '!' :: r => '^' :: r
    | r => r

/-- The text of the expression of a piece. -/
def Piece.toText : Piece → Text
  | .directories => ['(', '?', ':', '.', '*', '/', ')', '?']
  | .anything => ['.', '*']
  | .part => ['[', '^', '/', ']', '*']
  | .one => ['[', '^', '/', ']']
  | .set body => '[' :: classText body ++ [']']
  | .char c => escaped c

/-- The text of the expression of a pattern without brace groups. -/
def translate (p : Text) : Text :=
  "(?s:".toList ++ (pieces p).flatMap Piece.toText ++ ")\\Z".toList

/-- The patterns without brace groups that a list of patterns stands for. -/
def alternatives (patterns : List Text) : List Text :=
  (patterns.filter (!·.isEmpty)).flatMap expandBraces

/-- The expression that matches the paths of any of the patterns. -/
def compile (patterns : List Text) : Except Regex.Flaw (Option Regex) :=
  match alternatives patterns with
  | [] => .ok none
  | ps => (Regex.read (List.intercalate ['|'] (ps.map translate))).map some

/-! ## What a pattern stands for -/

/-- The ranges that the members of a class make, read from left to right. -/
def memberRanges : Text → List (Char × Char)
  | lo :: '-' :: hi :: r => (lo, hi) :: memberRanges r
  | c :: r => (c, c) :: memberRanges r
  | [] => []

/-- The set that the body of a class stands for. -/
def bodySet : Text → CharSet
  | '!' :: r => ⟨true, memberRanges r⟩
  | '^' :: r => ⟨true, memberRanges r⟩
  | r => ⟨false, memberRanges r⟩

/-- The texts that a list of pieces accepts. -/
inductive Accepts : List Piece → Text → Prop
  | nil : Accepts [] []
  | noDirectories {ps s} (h : Accepts ps s) : Accepts (.directories :: ps) s
  | directories {ps s} (t : Text) (h : Accepts ps s) : Accepts (.directories :: ps) (t ++ '/' :: s)
  | anything {ps s} (t : Text) (h : Accepts ps s) : Accepts (.anything :: ps) (t ++ s)
  | part {ps s} {t : Text} (ht : '/' ∉ t) (h : Accepts ps s) : Accepts (.part :: ps) (t ++ s)
  | one {ps s} {c : Char} (hc : c ≠ '/') (h : Accepts ps s) : Accepts (.one :: ps) (c :: s)
  | set {ps s} {body : Text} {c : Char} (hc : (bodySet body).holds c = true) (h : Accepts ps s) :
      Accepts (.set body :: ps) (c :: s)
  | char {ps s} (c : Char) (h : Accepts ps s) : Accepts (.char c :: ps) (c :: s)

end Bindery.Glob
