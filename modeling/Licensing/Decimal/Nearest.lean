import Licensing.Decimal.Shortest

/-!
# The double nearest to a decimal

`ofRatio` gives the IEEE 754 double nearest to a quotient of natural numbers, of two equally near
ones the one with an even mantissa; `ofText?` reads a decimal number in the form that programs
usually take: digits with at most one point, an exponent, a sign, or one of the words for infinity
and for no number.
-/

namespace Licensing.Decimal

/-- The bits of infinity. -/
def infinityBits : Nat := 2047 * twoTo 52

/-- The bits of a value that is no number. -/
def nanBits : Nat := infinityBits + twoTo 51

/-- The quotient rounded to the nearest number, a half to the even one. -/
def roundHalfEven (num den : Nat) : Nat :=
  let q := num / den
  let r := 2 * (num % den)
  if den < r || (r = den && q % 2 = 1) then q + 1 else q

/-- The bits of the double nearest to a quotient. The mantissa is the quotient by a power of two
that leaves 53 binary digits, or fewer below the normal range; rounding up to the next power of
two carries into the exponent. -/
def ofRatio (num den : Nat) : Nat :=
  if num = 0 then 0
  else
    let size : Int := (num.log2 : Int) - (den.log2 : Int)
    let atLeast (q : Int) : Bool :=
      if 0 ≤ q then den * twoTo q.toNat ≤ num else den ≤ num * twoTo (-q).toNat
    let size := if atLeast size then size else size - 1
    let power := max (size - 52) (-1074)
    let mantissa := if 0 ≤ power then roundHalfEven num (den * twoTo power.toNat)
      else roundHalfEven (num * twoTo (-power).toNat) den
    let bits := if mantissa < twoTo 52 then mantissa
      else (power + 1075).toNat * twoTo 52 + (mantissa - twoTo 52)
    min bits infinityBits

/-- The bits of the double nearest to `digits` times ten to the power `exponent`. -/
def ofDecimal (digits : Nat) (exponent : Int) : Nat :=
  let places : Int := (Text.Decimal.digits digits).length + exponent
  if digits = 0 || places < -330 then 0
  else if 310 < places then infinityBits
  else if 0 ≤ exponent then ofRatio (digits * tenTo exponent.toNat) 1
  else ofRatio digits (tenTo (-exponent).toNat)

/-- The exponent after its letter, zero if there is none. -/
private def exponent? : List Char → Option Int
  | [] => some 0
  | c :: rest =>
    if c = 'e' || c = 'E' then
      match rest with
      | '-' :: digits => (Text.Decimal.nat? digits).map fun n ↦ -n
      | '+' :: digits => (Text.Decimal.nat? digits).map Int.ofNat
      | digits => (Text.Decimal.nat? digits).map Int.ofNat
    else none

/-- The bits of a decimal without a sign. -/
def magnitude? (s : List Char) : Option Nat :=
  let word := s.map Char.toLower
  if word = "inf".toList || word = "infinity".toList then some infinityBits
  else if word = "nan".toList then some nanBits
  else
    let whole := s.takeWhile Char.isDigit
    let rest := s.drop whole.length
    let (fraction, rest) := match rest with
      | '.' :: rest =>
        let fraction := rest.takeWhile Char.isDigit
        (fraction, rest.drop fraction.length)
      | rest => ([], rest)
    if whole = [] && fraction = [] then none
    else (exponent? rest).map fun exponent ↦
      ofDecimal (Text.Decimal.ofDigits (whole ++ fraction)) (exponent - fraction.length)

/-- The bits of a decimal. -/
def ofText? (s : List Char) : Option UInt64 :=
  match s with
  | '-' :: rest => (magnitude? rest).map fun n ↦ UInt64.ofNat (n + twoTo 63)
  | '+' :: rest => (magnitude? rest).map UInt64.ofNat
  | rest => (magnitude? rest).map UInt64.ofNat

/-- The nearest natural number to a double, a half up; zero for what is negative or no number, and
at most `bound - 1`. -/
def Binary.toNat (bits : UInt64) (bound : Nat) : Nat :=
  match Binary.ofBits? bits with
  | none => if bits.toNat = infinityBits then bound - 1 else 0
  | some b =>
    if b.negative then 0
    else
      let n := if 0 ≤ b.exponent then b.mantissa * twoTo b.exponent.toNat
        else (2 * b.mantissa + twoTo (-b.exponent).toNat) / (2 * twoTo (-b.exponent).toNat)
      min n (bound - 1)

/-- A double in positional form, without a point if it is whole. -/
def Binary.plainText (bits : UInt64) : String :=
  let sign := if twoTo 63 ≤ bits.toNat then "-" else ""
  match Binary.ofBits? bits with
  | none => if bits.toNat % twoTo 63 = infinityBits then sign ++ "inf" else "NaN"
  | some b => sign ++ String.ofList b.shortest.positional

end Licensing.Decimal
