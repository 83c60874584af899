import Licensing.Json.Basic
import Licensing.Powers

/-!
# Numbers in JSON text

A number is read from its sign, the digits that fit into 64 bits, and a power of ten. Whole
numbers of 64 bits, with or without a sign, stay whole. All else becomes a double: the digits,
converted once, are multiplied or divided by an exact power of ten up to `1e308`, and an exponent
below that is reached in steps. Each of these operations rounds as IEEE 754 prescribes.
-/

namespace Licensing.Json

/-- A number as written: `digits` times ten to the power `exponent`, whole if it had neither a
point nor an exponent and its digits fit into 64 bits. -/
structure Numeral where
  negative : Bool
  digits : Nat
  exponent : Int
  whole : Bool

namespace Numeral

/-- The digits of a numeral end before this bound; later ones only move the exponent or are
dropped. -/
def digitsBound : Nat := twoTo 64

/-- Appends a digit, if the result stays within bounds. -/
def push? (digits digit : Nat) : Option Nat :=
  let n := digits * 10 + digit
  if n < digitsBound then some n else none

private def powerOfTen (n : Nat) : Float := Float.ofScientific 1 false n

/-- Scales by the power of ten; `none` if the result is not finite. The exponents below -308 are
taken in steps of 308, at most as many as the exponent has hundreds. -/
def scale : Nat → Float → Int → Option Float
  | 0, _, _ => some 0.0
  | steps + 1, f, exponent =>
    if exponent.natAbs ≤ 308 then
      if 0 ≤ exponent then
        let g := f * powerOfTen exponent.natAbs
        if g.isInf then none else some g
      else some (f / powerOfTen exponent.natAbs)
    else if f == 0.0 then some f
    else if 0 ≤ exponent then none
    else scale steps (f / powerOfTen 308) (exponent + 308)

/-- The double nearest to a whole number of 64 bits. -/
def ofDigits (digits : Nat) : Float := digits.toUInt64.toFloat

/-- The value as a double; `none` past the largest finite one. -/
def toFloat? (n : Numeral) : Option Float :=
  (scale (n.exponent.natAbs / 308 + 2) (ofDigits n.digits) n.exponent).map fun f ↦
    if n.negative then -f else f

/-- The value of a numeral: whole if it was written so and fits into 64 bits, signed if negative. A
negative zero is the double of that name. -/
def toJson? (n : Numeral) : Option Json :=
  if n.whole then
    if !n.negative then some (.int n.digits)
    else if n.digits = 0 ∨ twoTo 63 < n.digits then some (.double (-(ofDigits n.digits)).toBits)
    else some (.int (-n.digits))
  else n.toFloat?.map fun f ↦ .double f.toBits

end Numeral

end Licensing.Json
