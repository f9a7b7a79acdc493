import Bindery.Json.Value
import Bindery.Number.Whole

/-!
# Reading JSON

Reads JSON text.  Beyond the standard grammar the three words `NaN`, `Infinity` and `-Infinity`
are numbers.  A control character in a string is refused, a whole number of too many digits too,
and so are lists and objects too deep in each other.  Half of a surrogate pair becomes U+FFFD.

* `Json.read`; `Json.Flaw` tells a text that is no JSON from one that asks for too much.
-/

namespace Bindery.Json

/-- Why a text is not read. -/
inductive Flaw
  | malformed
  | tooManyDigits
  | tooDeep
  deriving DecidableEq, Repr

/-- Passes white space between tokens. -/
def skipSpace (s : Text) : Text :=
  s.dropWhile fun c => c == ' ' || c == '\t' || c == '\n' || c == '\r'

/-! ## Strings -/

/-- The value of a hexadecimal digit. -/
def hexDigit? (c : Char) : Option Nat :=
  if '0' ≤ c && c ≤ '9' then some (c.toNat - '0'.toNat)
  else if 'a' ≤ c && c ≤ 'f' then some (c.toNat - 'a'.toNat + 10)
  else if 'A' ≤ c && c ≤ 'F' then some (c.toNat - 'A'.toNat + 10)
  else none

/-- The value of four hexadecimal digits. -/
def codeUnit? (a b c d : Char) : Option Nat := do
  return (((← hexDigit? a) * 16 + (← hexDigit? b)) * 16 + (← hexDigit? c)) * 16 + (← hexDigit? d)

/-- The character of an escape of one letter. -/
def letterEscape? (c : Char) : Option Char :=
  ("\"\\/bfnrt".toList.zip "\"\\/\x08\x0c\n\r\t".toList).lookup c

/-- Whether a code unit is the first half of a pair. -/
def isHighSurrogate (n : Nat) : Bool := 0xd800 ≤ n && n < 0xdc00

/-- Whether a code unit is the second half of a pair. -/
def isLowSurrogate (n : Nat) : Bool := 0xdc00 ≤ n && n < 0xe000

/-- The character of a code unit that is not in a pair. -/
def unitChar (n : Nat) : Char :=
  if isHighSurrogate n || isLowSurrogate n then '\ufffd' else Char.ofNat n

/-- The characters of a string up to its closing quote, and the text after it. -/
def stringBody : Text → Option (Text × Text)
  | [] => none
  | '"' :: r => some ([], r)
  | '\\' :: 'u' :: a :: b :: c :: d :: '\\' :: 'u' :: a' :: b' :: c' :: d' :: r =>
    match codeUnit? a b c d, codeUnit? a' b' c' d' with
    | some n, some n' =>
      if isHighSurrogate n && isLowSurrogate n' then
        let code := 0x10000 + (n - 0xd800) * 0x400 + (n' - 0xdc00)
        (stringBody r).map fun x => (Char.ofNat code :: x.1, x.2)
      else (stringBody ('\\' :: 'u' :: a' :: b' :: c' :: d' :: r)).map fun x =>
        (unitChar n :: x.1, x.2)
    | _, _ => none
  | '\\' :: 'u' :: a :: b :: c :: d :: r =>
    match codeUnit? a b c d with
    | some n => (stringBody r).map fun x => (unitChar n :: x.1, x.2)
    | none => none
  | '\\' :: c :: r =>
    match letterEscape? c with
    | some e => (stringBody r).map fun x => (e :: x.1, x.2)
    | none => none
  | c :: r =>
    if c.toNat < 0x20 ∨ c = '\\' then none else (stringBody r).map fun x => (c :: x.1, x.2)

/-! ## Numbers -/

/-- The digits at the beginning of a text, and the text after them. -/
def digits (s : Text) : Text × Text :=
  (s.takeWhile Char.isDigit, s.dropWhile Char.isDigit)

/-- The number that decimal digits stand for. -/
def digitsValue (ds : Text) : Nat :=
  Number.ofDigits (ds.map fun c => c.toNat - '0'.toNat)

/-- A fraction, if one comes next: its digits, and the text after them. -/
def fraction? : Text → Option (Text × Text)
  | '.' :: r =>
    match digits r with
    | ([], _) => none
    | ds => some ds
  | _ => none

/-- An exponent, if one comes next, and the text after it. -/
def exponent? : Text → Option (Int × Text)
  | c :: r =>
    if c = 'e' ∨ c = 'E' then
      let (negative, r) := Number.sign r
      match digits r with
      | ([], _) => none
      | (ds, r) => some (if negative then -(digitsValue ds : Int) else digitsValue ds, r)
    else none
  | [] => none

/-- The digits before a fraction: a zero stands alone. -/
def wholeDigits : Text → Text × Text
  | '0' :: r => (['0'], r)
  | s => digits s

/-- The number after its sign, and the text after it. -/
def number (negative : Bool) (s : Text) : Except Flaw (Json × Text) :=
  match wholeDigits s with
  | ([], _) => .error .malformed
  | (whole, r) =>
    match fraction? r, exponent? ((fraction? r).elim r Prod.snd) with
    | none, none =>
      if Number.maxDigits < whole.length then .error .tooManyDigits
      else
        let n : Int := digitsValue whole
        .ok (.integer (if negative then -n else n), r)
    | f, e =>
      let places := f.elim [] Prod.fst
      let r := e.elim (f.elim r Prod.snd) Prod.snd
      let exponent : Int := e.elim 0 Prod.fst
      let digits := digitsValue (whole ++ places)
      .ok (.real (.ofDecimal negative digits (exponent - places.length)), r)

/-! ## Values -/

/-- The words that are values. -/
def words : List (Text × Json) :=
  [ ("null".toList, .null), ("true".toList, .bool true), ("false".toList, .bool false),
    ("NaN".toList, .real .notANumber), ("Infinity".toList, .real (.infinite false)),
    ("-Infinity".toList, .real (.infinite true)) ]

/-- The word that comes next, and the text after it. -/
def word? (s : Text) : Option (Json × Text) :=
  words.findSome? fun w => if w.1.isPrefixOf s then some (w.2, s.drop w.1.length) else none

/-- Lists and objects are read down to this depth. -/
def maxDepth : Nat := 980

mutual

/-- The value that comes next, and the text after it.  `depth` is how deep lists and objects may
still go; `fuel` bounds the number of steps, and twice the length of the text is enough. -/
def value (depth fuel : Nat) (s : Text) : Except Flaw (Json × Text) :=
  match fuel with
  | 0 => .error .malformed
  | fuel + 1 =>
    match s with
    | '"' :: r =>
      match stringBody r with
      | some (t, r) => .ok (.string t, r)
      | none => .error .malformed
    | '[' :: r =>
      match depth, skipSpace r with
      | 0, _ => .error .tooDeep
      | _ + 1, ']' :: r => .ok (.array [], r)
      | depth + 1, r => (items depth fuel r).map fun x => (.array x.1, x.2)
    | '{' :: r =>
      match depth, skipSpace r with
      | 0, _ => .error .tooDeep
      | _ + 1, '}' :: r => .ok (.object [], r)
      | depth + 1, r => (members depth fuel r).map fun x => (ofMembers x.1, x.2)
    | _ =>
      match word? s with
      | some x => .ok x
      | none => number (Number.sign s).1 (match s with | '-' :: r => r | _ => s)

/-- The items of a list up to its closing bracket, and the text after it. -/
def items (depth fuel : Nat) (s : Text) : Except Flaw (List Json × Text) :=
  match fuel with
  | 0 => .error .malformed
  | fuel + 1 =>
    match value depth fuel s with
    | .error e => .error e
    | .ok (v, r) =>
      match skipSpace r with
      | ']' :: r => .ok ([v], r)
      | ',' :: r => (items depth fuel (skipSpace r)).map fun x => (v :: x.1, x.2)
      | _ => .error .malformed

/-- The members of an object up to its closing brace, and the text after it. -/
def members (depth fuel : Nat) (s : Text) : Except Flaw (List (Text × Json) × Text) :=
  match fuel with
  | 0 => .error .malformed
  | fuel + 1 =>
    match s with
    | '"' :: r =>
      match stringBody r with
      | none => .error .malformed
      | some (name, r) =>
        match skipSpace r with
        | ':' :: r =>
          match value depth fuel (skipSpace r) with
          | .error e => .error e
          | .ok (v, r) =>
            match skipSpace r with
            | '}' :: r => .ok ([(name, v)], r)
            | ',' :: r => (members depth fuel (skipSpace r)).map fun x => ((name, v) :: x.1, x.2)
            | _ => .error .malformed
        | _ => .error .malformed
    | _ => .error .malformed

end

/-- Reads JSON text. -/
def read (s : Text) : Except Flaw Json :=
  match value maxDepth (2 * s.length + 2) (skipSpace s) with
  | .error e => .error e
  | .ok (v, r) => if (skipSpace r).isEmpty then .ok v else .error .malformed

end Bindery.Json
