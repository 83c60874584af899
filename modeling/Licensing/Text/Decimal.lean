/-!
# Decimal digits

Writing numbers with a fixed count of digits, and the value of a run of digits.
-/

namespace Licensing.Text.Decimal

/-- The digit for a value below ten. -/
def digit (n : Nat) : Char := Char.ofNat ('0'.toNat + n % 10)

/-- The value of a digit. -/
def valueOf (c : Char) : Nat := c.toNat - '0'.toNat

/-- The number that digits spell. -/
def ofDigits (digits : List Char) : Nat := digits.foldl (fun n c ↦ n * 10 + valueOf c) 0

/-- The low `width` digits, with zeros in front. -/
def fixed : Nat → Nat → List Char
  | 0, _ => []
  | width + 1, n => fixed width (n / 10) ++ [digit n]

/-- The digits of a number, without zeros in front. -/
def digits (n : Nat) : List Char :=
  if n < 10 then [digit n] else digits (n / 10) ++ [digit n]
termination_by n

/-- At least `width` digits. -/
def padded (width n : Nat) : List Char :=
  let ds := digits n
  List.replicate (width - ds.length) '0' ++ ds

/-- A whole number, with a minus sign if it is negative. -/
def ofInt (n : Int) : List Char :=
  if n < 0 then '-' :: digits n.natAbs else digits n.natAbs

/-- The number that a text of digits alone spells. -/
def nat? (s : List Char) : Option Nat :=
  if s ≠ [] && s.all Char.isDigit then some (ofDigits s) else none

end Licensing.Text.Decimal
