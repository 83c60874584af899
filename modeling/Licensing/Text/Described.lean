import Licensing.Text.Decimal
import Licensing.Text.Hex

/-!
# Values in words

How values are described in diagnostics: a record by its name and its fields in braces, an
optional value as `None` or `Some`, a text in quotes with everything escaped that would not show
as one character of its own.
-/

namespace Licensing.Text.Described

/-- The blocks of characters that do not show or that combine with the character before them:
controls, blanks other than the space, marks, invisible format characters, private use. -/
def unseenBlocks : List (Nat × Nat) :=
  [(0x0, 0x1F), (0x7F, 0xA0), (0xAD, 0xAD), (0x300, 0x36F), (0x378, 0x379), (0x483, 0x489),
    (0x591, 0x5BD), (0x5BF, 0x5BF), (0x5C1, 0x5C2), (0x5C4, 0x5C5), (0x5C7, 0x5CF),
    (0x600, 0x605), (0x610, 0x61A), (0x61C, 0x61C), (0x64B, 0x65F), (0x670, 0x670),
    (0x6D6, 0x6DD), (0x6DF, 0x6E4), (0x6E7, 0x6E8), (0x6EA, 0x6ED), (0x70F, 0x70F),
    (0x711, 0x711), (0x730, 0x74A), (0x7A6, 0x7B0), (0x7EB, 0x7F3), (0x816, 0x819),
    (0x81B, 0x823), (0x825, 0x827), (0x829, 0x82D), (0x859, 0x85B), (0x890, 0x891),
    (0x898, 0x89F), (0x8CA, 0x902), (0x93A, 0x93A), (0x93C, 0x93C), (0x941, 0x948),
    (0x94D, 0x94D), (0x951, 0x957), (0x962, 0x963), (0xE31, 0xE31), (0xE34, 0xE3A),
    (0xE47, 0xE4E), (0xEB1, 0xEB1), (0xEB4, 0xEBC), (0xEC8, 0xECE), (0x135D, 0x135F),
    (0x1680, 0x1680), (0x180B, 0x180F), (0x1AB0, 0x1ACE), (0x1DC0, 0x1DFF),
    (0x2000, 0x200F), (0x2028, 0x202F), (0x205F, 0x206F), (0x20D0, 0x20F0),
    (0x2CEF, 0x2CF1), (0x2DE0, 0x2DFF), (0x302A, 0x302F), (0x3000, 0x3000), (0x3099, 0x309A),
    (0xA66F, 0xA672), (0xA674, 0xA67D), (0xA69E, 0xA69F), (0xE000, 0xF8FF), (0xFB1E, 0xFB1E),
    (0xFDD0, 0xFDEF), (0xFE00, 0xFE0F), (0xFE20, 0xFE2F), (0xFEFF, 0xFEFF), (0xFF9E, 0xFF9F),
    (0xFFF0, 0xFFFB), (0xFFFE, 0xFFFF), (0x1D165, 0x1D165), (0x1D167, 0x1D169),
    (0x1D16E, 0x1D182), (0x1D185, 0x1D18B), (0x1D1AA, 0x1D1AD), (0xE0000, 0x10FFFF)]

/-- Whether a character would not show as one of its own. -/
def isUnseen (c : Char) : Bool :=
  unseenBlocks.any fun (low, high) ↦ low ≤ c.toNat && c.toNat ≤ high

/-- The hexadecimal digits of a number, without zeros in front. -/
private def hexDigits (n : Nat) : List Char :=
  let digits := (Text.Hex.fixed 6 n).dropWhile (· = '0')
  if digits = [] then ['0'] else digits

/-- A character as it is written in quotes. -/
def escaped (c : Char) : List Char :=
  if c = '"' then ['\\', '"']
  else if c = '\\' then ['\\', '\\']
  else if c = '\n' then ['\\', 'n']
  else if c = '\r' then ['\\', 'r']
  else if c = '\t' then ['\\', 't']
  else if c.toNat = 0 then ['\\', '0']
  else if isUnseen c then '\\' :: 'u' :: '{' :: hexDigits c.toNat ++ ['}']
  else [c]

/-- A text in quotes. -/
def quoted (text : String) : String :=
  String.ofList ('"' :: text.toList.flatMap escaped ++ ['"'])

/-- What stands in place of a secret. -/
def withheld : String := quoted "[hidden]"

/-- A value that may not be there. -/
def optional : Option String → String
  | none => "None"
  | some text => "Some(" ++ text ++ ")"

/-- A number. -/
def natural (n : Nat) : String := toString n

/-- A truth value. -/
def flag (b : Bool) : String := if b then "true" else "false"

/-- A time in whole seconds. -/
def seconds (n : Nat) : String := natural n ++ "s"

/-- A list. -/
def list (items : List String) : String := "[" ++ ", ".intercalate items ++ "]"

/-- A record by its name and its fields. -/
def record (name : String) (fields : List (String × String)) : String :=
  name ++ " \x7b " ++ ", ".intercalate (fields.map fun (field, text) ↦ field ++ ": " ++ text) ++
    " \x7d"

/-- A record of which no field is told. -/
def sealedRecord (name : String) : String := name ++ " \x7b .. \x7d"

end Licensing.Text.Described
