/-!
# Hexadecimal digits

Reading a digit of either case, and writing bytes and numbers with lower-case digits.
-/

namespace Licensing.Text.Hex

/-- The value of a digit of either case. -/
def digit? (c : Char) : Option Nat :=
  if '0' ≤ c && c ≤ '9' then some (c.toNat - '0'.toNat)
  else if 'a' ≤ c && c ≤ 'f' then some (c.toNat - 'a'.toNat + 10)
  else if 'A' ≤ c && c ≤ 'F' then some (c.toNat - 'A'.toNat + 10)
  else none

/-- Whether a character is a digit of either case. -/
def isDigit (c : Char) : Bool := (digit? c).isSome

/-- The lower-case digit for a value below 16. -/
def digit (n : Nat) : Char :=
  if n < 10 then Char.ofNat ('0'.toNat + n) else Char.ofNat ('a'.toNat + (n - 10))

/-- The number that digits spell, the most significant first. -/
def value? (digits : List Char) : Option Nat :=
  digits.foldlM (fun n c ↦ (digit? c).map (n * 16 + ·)) 0

/-- The low `width` digits of a number, the most significant first. -/
def fixed : Nat → Nat → List Char
  | 0, _ => []
  | width + 1, n => fixed width (n / 16) ++ [digit (n % 16)]

/-- Two digits for each byte. -/
def ofBytes (bytes : List UInt8) : List Char := bytes.flatMap fun b ↦ fixed 2 b.toNat

end Licensing.Text.Hex
