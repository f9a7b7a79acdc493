import Bindery.Number.Binary64
import Bindery.Text.Basic

/-!
# Shortest decimals

A double is written with the fewest significant digits that read back as the same double, and of
several such decimals the nearest.  The doubles' neighbourhoods are exact fractions: a decimal
reads back as a double if it lies between the middles to its two neighbours, the middles
themselves included iff the mantissa is even.

* `Binary64.shortest` finds the digits, `Binary64.toText` writes them.
-/

namespace Bindery

/-- How decimals are laid out: positional from the least to the greatest of these exponents of the
first digit, and with an exponent of at least so many digits outside of them. -/
structure DecimalLayout where
  leastPositional : Int
  greatestPositional : Int
  exponentDigits : Nat

/-- Numbers from `1e-4` up to `1e16` are written positionally, and exponents have two digits. -/
def doubleLayout : DecimalLayout := ⟨-4, 15, 2⟩

namespace Binary64

/-- Four times a positive finite number and the middles to its neighbours, over one denominator:
below, the number, above, and the denominator. -/
def neighbourhood (m : Nat) (e : Int) : Nat × Nat × Nat × Nat :=
  let below := if m = 1 <<< 52 ∧ minExponent < e then 4 * m - 1 else 4 * m - 2
  match e with
  | .ofNat k => (below <<< k, (4 * m) <<< k, (4 * m + 2) <<< k, 4)
  | .negSucc k => (below, 4 * m, 4 * m + 2, 4 <<< (k + 1))

/-- Whether `digits * 10 ^ place` reads back as the number with an even or odd mantissa and the
given neighbourhood. -/
def readsBack (even : Bool) (low high den : Nat) (digits : Nat) (place : Int) : Bool :=
  let (n, low, high) := match place with
    | .ofNat p => (digits * Nat.pow 10 p * den, low, high)
    | .negSucc p => (digits * den, low * Nat.pow 10 (p + 1), high * Nat.pow 10 (p + 1))
  if even then low ≤ n && n ≤ high else low < n && n < high

/-- The exponent of the first significant digit of `num / den`. -/
def leadingExponent (num den : Nat) : Int :=
  if den ≤ num then ((Nat.toDigits 10 (num / den)).length : Int) - 1
  else
    let k := (Nat.toDigits 10 (den / num)).length
    if den ≤ num * Nat.pow 10 (k - 1) then 1 - (k : Int) else -(k : Int)

/-- The digits and the place of the last one, looked for from `count` significant digits on, at
most `more` times. -/
def shortestFrom (even : Bool) (low num high den : Nat) (lead : Int) :
    Nat → Nat → Nat × Int
  | 0, count => (0, lead - count)
  | more + 1, count =>
    let place := lead + 1 - count
    let (n, d) := match place with
      | .ofNat p => (num, den * Nat.pow 10 p)
      | .negSucc p => (num * Nat.pow 10 (p + 1), den)
    let down := n / d
    let up := down + 1
    match readsBack even low high den down place, readsBack even low high den up place with
    | true, true =>
      if 2 * (n % d) < d ∨ 2 * (n % d) = d ∧ down % 2 = 0 then (down, place) else (up, place)
    | true, false => (down, place)
    | false, true => (up, place)
    | false, false => shortestFrom even low num high den lead more (count + 1)

/-- The fewest digits of a positive finite number, and the place of the last one. -/
def shortest (m : Nat) (e : Int) : Nat × Int :=
  let (low, num, high, den) := neighbourhood m e
  shortestFrom (m % 2 == 0) low num high den (leadingExponent num den) 17 1

/-- Digits without their zeros at the end, which move the place of the last one. -/
def stripZeros (digits : Text) : Text :=
  match Text.dropRightWhile (· == '0') digits with
  | [] => ['0']
  | d :: r => d :: r

/-- Decimal digits, the first of them at the exponent `lead`, in a layout. -/
def layOut (layout : DecimalLayout) (digits : Text) (lead : Int) : Text :=
  if layout.leastPositional ≤ lead ∧ lead ≤ layout.greatestPositional then
    match lead with
    | .ofNat k =>
      let whole := digits.take (k + 1) ++ List.replicate (k + 1 - digits.length) '0'
      let fraction := digits.drop (k + 1)
      whole ++ '.' :: (if fraction.isEmpty then ['0'] else fraction)
    | .negSucc k => '0' :: '.' :: List.replicate k '0' ++ digits
  else
    let mantissa := match digits with
      | [] => []
      | [d] => [d]
      | d :: r => d :: '.' :: r
    let size := Text.ofNat lead.natAbs
    mantissa ++ 'e' :: (if lead < 0 then '-' else '+') ::
      List.replicate (layout.exponentDigits - size.length) '0' ++ size

/-- The text of a double. -/
def toText : Binary64 → Text
  | .notANumber => "nan".toList
  | .infinite negative => if negative then "-inf".toList else "inf".toList
  | .finite negative m e =>
    let written :=
      if m = 0 then "0.0".toList
      else
        let (digits, place) := shortest m e
        let all := Text.ofNat digits
        layOut doubleLayout (stripZeros all) (place + all.length - 1)
    if negative then '-' :: written else written

end Binary64

end Bindery
