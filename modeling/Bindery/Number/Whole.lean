import Bindery.Text.Blank

/-!
# Whole numbers as text

Whole numbers as they are given on a command line: blanks around, a sign, decimal digits of any
script, and single underscores between digits.

* `Number.whole?`
-/

namespace Bindery.Number

/-- The code points of the digits zero of all scripts; nine more digits follow each. -/
def zeros : List Nat :=
  [ 0x30, 0x660, 0x6f0, 0x7c0, 0x966, 0x9e6, 0xa66, 0xae6, 0xb66, 0xbe6, 0xc66, 0xce6, 0xd66,
    0xde6, 0xe50, 0xed0, 0xf20, 0x1040, 0x1090, 0x17e0, 0x1810, 0x1946, 0x19d0, 0x1a80, 0x1a90,
    0x1b50, 0x1bb0, 0x1c40, 0x1c50, 0xa620, 0xa8d0, 0xa900, 0xa9d0, 0xa9f0, 0xaa50, 0xabf0, 0xff10,
    0x104a0, 0x10d30, 0x11066, 0x110f0, 0x11136, 0x111d0, 0x112f0, 0x11450, 0x114d0, 0x11650,
    0x116c0, 0x11730, 0x118e0, 0x11950, 0x11c50, 0x11d50, 0x11da0, 0x16a60, 0x16ac0, 0x16b50,
    0x1d7ce, 0x1d7d8, 0x1d7e2, 0x1d7ec, 0x1d7f6, 0x1e140, 0x1e2f0, 0x1e950, 0x1fbf0 ]

/-- The value of a decimal digit of any script. -/
def digit? (c : Char) : Option Nat :=
  (zeros.find? fun z => z ≤ c.toNat && c.toNat ≤ z + 9).map (c.toNat - ·)

/-- Numbers of more digits than this are not read. -/
def maxDigits : Nat := 4300

/-- The values of the digits of a text in which single underscores may stand between digits;
`afterDigit` says whether a digit comes just before. -/
def digitValues (afterDigit : Bool) : Text → Option (List Nat)
  | [] => if afterDigit then some [] else none
  | '_' :: c :: r =>
    if afterDigit then do return (← digit? c) :: (← digitValues true r) else none
  | c :: r => do return (← digit? c) :: (← digitValues true r)

/-- The number that a list of decimal digits stands for. -/
def ofDigits (ds : List Nat) : Nat :=
  ds.foldl (fun n d => 10 * n + d) 0

/-- A sign in front of a text: whether it is a minus, and the rest. -/
def sign : Text → Bool × Text
  | '-' :: r => (true, r)
  | '+' :: r => (false, r)
  | r => (false, r)

/-- Whether a character may stand around a number: a blank, but no separator of files, groups,
records or units. -/
def isPadding (c : Char) : Bool :=
  isBlank c && !(0x1c ≤ c.toNat && c.toNat ≤ 0x1f)

/-- The text of a number without what stands around it. -/
def dropPadding (s : Text) : Text :=
  Text.dropRightWhile isPadding (s.dropWhile isPadding)

/-- The whole number that a text stands for. -/
def whole? (s : Text) : Option Int := do
  let (negative, r) := sign (dropPadding s)
  let ds ← digitValues false r
  if maxDigits < ds.length then none
  else return if negative then -(ofDigits ds : Int) else ofDigits ds

end Bindery.Number
