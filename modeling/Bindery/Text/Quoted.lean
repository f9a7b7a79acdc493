import Bindery.Text.Printable
import Bindery.Text.Basic

/-!
# Quoted texts

A text in quotes, such that what is shown is printable: the quote is a single one unless the text
holds single quotes and no double ones; the quote itself and backslashes are escaped by a
backslash; tabs, line feeds and carriage returns have letters; any other unprintable character is
written by its code point in two, four or eight hexadecimal digits.

* `Text.quoted`
-/

namespace Bindery.Text

/-- A number in hexadecimal digits, with zeros in front up to `width` digits. -/
def hexadecimal (width n : Nat) : Text :=
  let digits := Nat.toDigits 16 n
  List.replicate (width - digits.length) '0' ++ digits

/-- An unprintable character written by its code point. -/
def escapedCode (c : Char) : Text :=
  let n := c.toNat
  if n < 0x100 then '\\' :: 'x' :: hexadecimal 2 n
  else if n < 0x10000 then '\\' :: 'u' :: hexadecimal 4 n
  else '\\' :: 'U' :: hexadecimal 8 n

/-- A character as it stands between two quotes. -/
def quotedChar (quote c : Char) : Text :=
  if c = quote ∨ c = '\\' then ['\\', c]
  else if c = '\t' then ['\\', 't']
  else if c = '\n' then ['\\', 'n']
  else if c = '\r' then ['\\', 'r']
  else if isPrintable c then [c]
  else escapedCode c

/-- The quote put around a text. -/
def quoteFor (s : Text) : Char :=
  if s.contains '\'' && !s.contains '"' then '"' else '\''

/-- The text in quotes. -/
def quoted (s : Text) : Text :=
  let quote := quoteFor s
  quote :: s.flatMap (quotedChar quote) ++ [quote]

end Bindery.Text
