import Licensing.Text.Hex
import Licensing.Text.Numerals

/-!
# Path labels

Requests are counted by their path, in which identifiers are first replaced by a placeholder: every
UUID, wherever it stands, and then segments of decimal digits. A label has at most 50 characters
(`length_ofPath_le`).
-/

namespace Licensing.PathLabel

/-- What an identifier is replaced by. -/
def placeholder : List Char := "\x7bid\x7d".toList

/-- The greatest length of a label. -/
def maxLength : Nat := 50

/-- The shape of a UUID, `h` standing for a hexadecimal digit. -/
def uuidShape : List Char := "hhhhhhhh-hhhh-hhhh-hhhh-hhhhhhhhhhhh".toList

/-- Whether a text begins in the given shape. -/
def beginsIn : List Char → List Char → Bool
  | [], _ => true
  | _ :: _, [] => false
  | p :: shape, c :: s => (if p = 'h' then Text.Hex.isDigit c else c = p) && beginsIn shape s

/-- Replaces UUIDs, from left to right. -/
def hideUuids : List Char → List Char
  | [] => []
  | c :: s =>
    if beginsIn uuidShape (c :: s) then placeholder ++ hideUuids (s.drop (uuidShape.length - 1))
    else c :: hideUuids s
termination_by s => s.length
decreasing_by all_goals simp; try omega

/-- Replaces segments of digits, from left to right. A segment takes the slash on either side with
it, so of two segments with one slash between them only the first is replaced. -/
def hideNumbers : List Char → List Char
  | [] => []
  | c :: s =>
    let digits := s.takeWhile Text.isNumeral
    if c = '/' ∧ digits ≠ [] then
      match (s.drop digits.length).head? with
      | none => '/' :: placeholder
      | some '/' => '/' :: placeholder ++ '/' :: hideNumbers (s.drop (digits.length + 1))
      | some _ => c :: hideNumbers s
    else c :: hideNumbers s
termination_by s => s.length
decreasing_by all_goals simp; try omega

/-- The label of a path. -/
def ofPath (path : String) : String :=
  String.ofList ((hideNumbers (hideUuids path.toList)).take maxLength)

theorem length_ofPath_le (path : String) : (ofPath path).length ≤ maxLength := by
  rw [ofPath, String.length_ofList, List.length_take]
  omega

end Licensing.PathLabel
