/-!
# Double-precision numbers

Double-precision numbers as exact fractions.  A finite number is `mantissa * 2 ^ exponent` with a
mantissa below `2 ^ 53` and an exponent from `-1074` to `971`; below `2 ^ 52` the mantissa has the
least exponent, so every number is written in one way.

* `roundedQuotient` rounds a quotient of natural numbers, ties to the even neighbour.
* `Binary64.ofRatio` is the double nearest to a quotient, `Binary64.ofDecimal` the one nearest to
  a decimal.
-/

namespace Bindery

/-- The quotient of two natural numbers rounded to the nearest whole number, a tie to the even
one. -/
def roundedQuotient (num den : Nat) : Nat :=
  let q := num / den
  let twice := 2 * (num % den)
  if twice < den then q
  else if den < twice then q + 1
  else if q % 2 = 0 then q
  else q + 1

/-- A double-precision number. -/
inductive Binary64
  /-- A finite number; a zero keeps its sign. -/
  | finite (negative : Bool) (mantissa : Nat) (exponent : Int)
  | infinite (negative : Bool)
  | notANumber
  deriving DecidableEq, Repr

namespace Binary64

/-- The least exponent of a finite number. -/
def minExponent : Int := -1074

/-- The greatest exponent of a finite number. -/
def maxExponent : Int := 971

/-- `num / den` divided by a power of two, as numerator and denominator. -/
def scaled (num den : Nat) (exponent : Int) : Nat × Nat :=
  match exponent with
  | .ofNat e => (num, den <<< e)
  | .negSucc e => (num <<< (e + 1), den)

/-- The exponent for which a quotient has a mantissa of 53 bits, or the least exponent. -/
def exponentFor (num den : Nat) : Int :=
  let guess : Int := num.log2 - den.log2 - 53
  let (n, d) := scaled num den guess
  let exact := if 1 <<< 53 ≤ n / d then guess + 1 else guess
  max exact minExponent

/-- The double nearest to `num / den`, a tie to the even mantissa. -/
def ofRatio (negative : Bool) (num den : Nat) : Binary64 :=
  if num = 0 then .finite negative 0 minExponent
  else
    let e := exponentFor num den
    let (n, d) := scaled num den e
    let m := roundedQuotient n d
    let (m, e) := if m = 1 <<< 53 then (1 <<< 52, e + 1) else (m, e)
    if maxExponent < e then .infinite negative else .finite negative m e

/-- The double nearest to `digits * 10 ^ exponent`.  Exponents so large or so small that the digits
cannot matter are not raised to. -/
def ofDecimal (negative : Bool) (digits : Nat) (exponent : Int) : Binary64 :=
  let places : Int := (Nat.toDigits 10 digits).length
  if digits = 0 ∨ exponent + places < -400 then .finite negative 0 minExponent
  else if 400 < exponent + places then .infinite negative
  else
    match exponent with
    | .ofNat e => ofRatio negative (digits * Nat.pow 10 e) 1
    | .negSucc e => ofRatio negative digits (Nat.pow 10 (e + 1))

/-- The whole number that a double is, if it is one. -/
def toInt? : Binary64 → Option Int
  | .finite negative m (.ofNat e) =>
    some (if negative then -(m <<< e : Nat) else (m <<< e : Nat))
  | .finite negative m (.negSucc e) =>
    if m % (1 <<< (e + 1)) = 0 then
      some (if negative then -(m >>> (e + 1) : Nat) else (m >>> (e + 1) : Nat))
    else none
  | _ => none

end Binary64

end Bindery
