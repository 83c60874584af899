import Licensing.Text.Hex
import Licensing.Text.Split

/-!
# Identifiers of 128 bits

Identifiers are written as 32 lower-case hexadecimal digits in groups of 8, 4, 4, 4 and 12 and are
read from that form, from the digits alone, in braces, or after `urn:uuid:`, with letters of
either case. They are ordered as numbers, which is the order of their written forms.
-/

namespace Licensing

/-- An identifier. -/
structure Uuid where
  bits : BitVec 128
  deriving DecidableEq, Inhabited

namespace Uuid

/-- The lengths of the groups of digits. -/
def groups : List Nat := [8, 4, 4, 4, 12]

/-- The written form. -/
def toText (id : Uuid) : String :=
  let rec cut : List Nat → List Char → List (List Char)
    | [], _ => []
    | n :: ns, digits => digits.take n :: cut ns (digits.drop n)
  String.ofList (Text.joined ['-'] (cut groups (Text.Hex.fixed 32 id.bits.toNat)))

instance : ToString Uuid := ⟨toText⟩

/-- Orders identifiers as numbers. -/
def compare (a b : Uuid) : Ordering := Ord.compare a.bits.toNat b.bits.toNat

private def ofDigits? (digits : List Char) : Option Uuid :=
  if digits.length = 32 then (Text.Hex.value? digits).map fun n ↦ ⟨BitVec.ofNat 128 n⟩ else none

private def ofHyphenated? (s : List Char) : Option Uuid :=
  let parts := Text.segments '-' s
  if parts.map List.length = groups then ofDigits? parts.flatten else none

/-- Reads any of the accepted forms. -/
def ofText? (text : String) : Option Uuid :=
  let s := text.toList
  match s with
  | '{' :: rest =>
    match rest.reverse with
    | '}' :: inner => ofHyphenated? inner.reverse
    | _ => none
  | _ =>
    if (s.take 9).map Char.toLower = "urn:uuid:".toList then ofHyphenated? (s.drop 9)
    else if s.contains '-' then ofHyphenated? s
    else ofDigits? s

end Uuid

end Licensing
