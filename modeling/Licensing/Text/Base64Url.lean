import Licensing.Text.Split

/-!
# Base64url without padding

The alphabet of RFC 4648 section 5, six bits a character, no `=` at the end. Reading refuses any
other character, a length that leaves a single character over, and set bits in the unused part of
the last character, so every byte sequence has one written form.
-/

namespace Licensing.Text.Base64Url

/-- The character for a value below 64. -/
def symbol (n : Nat) : Char :=
  if n < 26 then Char.ofNat ('A'.toNat + n)
  else if n < 52 then Char.ofNat ('a'.toNat + (n - 26))
  else if n < 62 then Char.ofNat ('0'.toNat + (n - 52))
  else if n = 62 then '-'
  else '_'

/-- The value of a character of the alphabet. -/
def value? (c : Char) : Option Nat :=
  if 'A' ≤ c && c ≤ 'Z' then some (c.toNat - 'A'.toNat)
  else if 'a' ≤ c && c ≤ 'z' then some (c.toNat - 'a'.toNat + 26)
  else if '0' ≤ c && c ≤ '9' then some (c.toNat - '0'.toNat + 52)
  else if c = '-' then some 62
  else if c = '_' then some 63
  else none

/-- Three bytes become four characters; one or two left over become two or three. -/
def encode : List UInt8 → List Char
  | a :: b :: c :: rest =>
    let n := a.toNat * 65536 + b.toNat * 256 + c.toNat
    symbol (n / 262144) :: symbol (n / 4096 % 64) :: symbol (n / 64 % 64) :: symbol (n % 64) ::
      encode rest
  | [a, b] =>
    let n := a.toNat * 256 + b.toNat
    [symbol (n / 1024), symbol (n / 16 % 64), symbol (n % 16 * 4)]
  | [a] => [symbol (a.toNat / 4), symbol (a.toNat % 4 * 16)]
  | [] => []

/-- The bytes that values of six bits spell, if no stray bit is set. -/
def ofValues? : List Nat → Option (List UInt8)
  | p :: q :: r :: s :: rest =>
    let n := p * 262144 + q * 4096 + r * 64 + s
    (ofValues? rest).map fun bytes ↦
      UInt8.ofNat (n / 65536) :: UInt8.ofNat (n / 256 % 256) :: UInt8.ofNat (n % 256) :: bytes
  | [p, q, r] =>
    if r % 4 = 0 then
      let n := p * 1024 + q * 16 + r / 4
      some [UInt8.ofNat (n / 256), UInt8.ofNat (n % 256)]
    else none
  | [p, q] => if q % 16 = 0 then some [UInt8.ofNat (p * 4 + q / 16)] else none
  | [_] => none
  | [] => some []

/-- The bytes that a text spells. -/
def decode? (s : List Char) : Option (List UInt8) := (s.mapM value?).bind ofValues?

end Licensing.Text.Base64Url
