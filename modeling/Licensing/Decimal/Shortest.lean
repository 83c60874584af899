import Licensing.Powers
import Licensing.Text.Decimal

/-!
# The shortest decimal that reads back

A finite double other than zero is `m · 2^q`. The reals that round to it form an interval around
it, whose ends belong to it when `m` is even. `shortest` gives the digits of a decimal in that
interval: of the fewest digits, and of those the nearest to the double.
-/

namespace Licensing.Decimal

/-- A double taken apart: its sign and, where it is finite, `mantissa · 2^exponent`. `lowest` tells
that the double below is only half as far away as the one above. -/
structure Binary where
  negative : Bool
  mantissa : Nat
  exponent : Int
  lowest : Bool

/-- A decimal: the number that `digits` spell, times ten to the power `exponent`. -/
structure Digits where
  digits : Nat
  exponent : Int
  deriving DecidableEq

/-- The parts of a double, if it is finite. -/
def Binary.ofBits? (bits : UInt64) : Option Binary :=
  let n : Nat := bits.toNat
  let biased : Nat := n / twoTo 52 % 2048
  let fractional : Nat := n % twoTo 52
  let negative := twoTo 63 ≤ n
  if biased = 2047 then none
  else if biased = 0 then some ⟨negative, fractional, -1074, false⟩
  else some ⟨negative, twoTo 52 + fractional, (biased : Int) - 1075, fractional = 0 && 1 < biased⟩

/-- Whether `num / den` lies in the interval of the reals that round to the double, all scaled so
that the double itself is `4 · mantissa`. -/
def Binary.holds (b : Binary) (num den : Nat) : Bool :=
  let low := (4 * b.mantissa - if b.lowest then 1 else 2) * den
  let high := (4 * b.mantissa + 2) * den
  if b.mantissa % 2 = 0 then low ≤ num && num ≤ high else low < num && num < high

/-- The quotient of two numbers of which one is scaled by a power of ten: `up · 10^-power` over
`down`, as numerator and denominator. -/
private def scaled (up down : Nat) (power : Int) : Nat × Nat :=
  if 0 ≤ power then (up, down * tenTo power.natAbs) else (up * tenTo power.natAbs, down)

/-- The decimal on the grid of multiples of `10^power` that rounds to the double and is nearest to
it, if there is one. -/
def Binary.onGrid? (b : Binary) (power : Int) : Option Digits :=
  let (up, down) := if 0 ≤ b.exponent then (b.mantissa * twoTo b.exponent.natAbs, 1)
    else (b.mantissa, twoTo b.exponent.natAbs)
  let (num, den) := scaled up down power
  let below := num / den
  let fits (n : Nat) : Bool := b.holds (n * den * 4 * b.mantissa) num
  let nearBelow := 2 * (num % den) < den || (2 * (num % den) = den && below % 2 = 0)
  let pair := if nearBelow then [below, below + 1] else [below + 1, below]
  (pair.find? fun n ↦ 0 < n && fits n).map (⟨·, power⟩)

/-- The least power of ten that the double is below. -/
def Binary.magnitude (b : Binary) : Int :=
  let (up, down) := if 0 ≤ b.exponent then (b.mantissa * twoTo b.exponent.natAbs, 1)
    else (b.mantissa, twoTo b.exponent.natAbs)
  if down ≤ up then (Text.Decimal.digits (up / down)).length
  else 1 - (Text.Decimal.digits ((down + up - 1) / up - 1)).length

/-- The shortest decimal that reads back as the double; zero for zero. -/
def Binary.shortest (b : Binary) : Digits :=
  if b.mantissa = 0 then ⟨0, 0⟩
  else
    let magnitude := b.magnitude
    let found := (List.range 17).findSome? fun (places : Nat) ↦ b.onGrid? (magnitude - 1 - places)
    dropZeros 20 (found.getD ⟨0, 0⟩)
where
  /-- Moves zeros at the end of the digits into the exponent. -/
  dropZeros : Nat → Digits → Digits
    | 0, d => d
    | fuel + 1, d =>
      if d.digits ≠ 0 && d.digits % 10 = 0 then dropZeros fuel ⟨d.digits / 10, d.exponent + 1⟩
      else d

/-- The digits in positional form: no exponent, and a point only if there is a fraction. -/
def Digits.positional (d : Digits) : List Char :=
  let ds := Text.Decimal.digits d.digits
  if 0 ≤ d.exponent then
    if d.digits = 0 then ds else ds ++ List.replicate d.exponent.natAbs '0'
  else
    let places := d.exponent.natAbs
    let ds := List.replicate (places + 1 - ds.length) '0' ++ ds
    ds.take (ds.length - places) ++ '.' :: ds.drop (ds.length - places)

/-- One digit before the point and an exponent. -/
def Digits.scientific (d : Digits) : List Char :=
  let ds := Text.Decimal.digits d.digits
  let fractional := ds.drop 1
  ds.take 1 ++ (if fractional = [] then [] else '.' :: fractional) ++
    'e' :: Text.Decimal.ofInt (d.exponent + fractional.length)

end Licensing.Decimal
