import Licensing.Decimal.Shortest
import Licensing.Json.Basic
import Licensing.Text.Decimal
import Licensing.Text.Hex

/-!
# Writing JSON text

Values are written without white space, fields in their order. A double is written with the fewest
digits that read back and always shows a point or an exponent, so it reads back as a double. Of the
characters of a string only the quote, the backslash and the control characters are escaped.
-/

namespace Licensing.Json

/-- The written form of one character of a string. -/
def escaped (c : Char) : List Char :=
  if c = '"' then ['\\', '"']
  else if c = '\\' then ['\\', '\\']
  else if c = '\x08' then ['\\', 'b']
  else if c = '\x0c' then ['\\', 'f']
  else if c = '\n' then ['\\', 'n']
  else if c = '\r' then ['\\', 'r']
  else if c = '\t' then ['\\', 't']
  else if c.toNat < 0x20 then '\\' :: 'u' :: Text.Hex.fixed 4 c.toNat
  else [c]

/-- A string in quotes. -/
def quoted (text : String) : List Char := '"' :: text.toList.flatMap escaped ++ ['"']

/-- A double: positional from `1e-5` up to sixteen digits before the point, else with an exponent.
-/
def doubleText (bits : UInt64) : List Char :=
  match Decimal.Binary.ofBits? bits with
  | none => "null".toList
  | some b =>
    let d := b.shortest
    let places := (Text.Decimal.digits d.digits).length + d.exponent
    let text :=
      if d.digits = 0 then "0.0".toList
      else if 0 ≤ d.exponent && places ≤ 16 then d.positional ++ ['.', '0']
      else if -5 < places && places ≤ 16 then d.positional
      else d.scientific
    if b.negative then '-' :: text else text

mutual

/-- The written form of a value. -/
def text : Json → List Char
  | null => "null".toList
  | bool true => "true".toList
  | bool false => "false".toList
  | int n => Text.Decimal.ofInt n
  | double bits => doubleText bits
  | string s => quoted s
  | array items => '[' :: itemsText items ++ [']']
  | object fields => '{' :: fieldsText fields ++ ['}']

/-- Items with commas between them. -/
def itemsText : List Json → List Char
  | [] => []
  | [item] => text item
  | item :: next :: rest => text item ++ ',' :: itemsText (next :: rest)

/-- Fields with commas between them. -/
def fieldsText : List (String × Json) → List Char
  | [] => []
  | [(name, value)] => quoted name ++ ':' :: text value
  | (name, value) :: next :: rest =>
    quoted name ++ ':' :: (text value ++ ',' :: fieldsText (next :: rest))

end

/-- The written form of a value, as a string. -/
def toText (value : Json) : String := String.ofList value.text

end Licensing.Json
