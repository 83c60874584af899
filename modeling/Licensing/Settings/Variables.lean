import Licensing.Decimal.Nearest
import Licensing.Settings.Tree

/-!
# Settings in the environment

A variable whose name starts with `APP__`, in letters of either case, holds the setting at the
path that the rest of its name spells, with two underscores between the levels. Its value is a
truth value, a whole number of 64 bits, a number or, if it reads as none of these, a text.
-/

namespace Licensing.Settings

/-- Variables: names and values. -/
abbrev Environment := List (String × String)

/-- A whole number in digits, with at most one sign before them. -/
def wholeNumber? (s : List Char) : Option Int :=
  match s with
  | '-' :: digits => (Text.Decimal.nat? digits).map fun n ↦ -(n : Int)
  | '+' :: digits => (Text.Decimal.nat? digits).map Int.ofNat
  | digits => (Text.Decimal.nat? digits).map Int.ofNat

/-- The value that a variable holds. -/
def valueOf (text : String) : Json :=
  let word := lowerCase text
  if word = "true" then .bool true
  else if word = "false" then .bool false
  else
    match (wholeNumber? text.toList).filter fun n ↦ -(twoTo 63 : Int) ≤ n && n < twoTo 63 with
    | some n => .int n
    | none =>
      match Decimal.ofText? text.toList with
      | some bits => .double bits
      | none => .string text

/-- What the names of settings start with, in lower case. -/
def namesStart : List Char := "app__".toList

/-- The text with a point in place of each two underscores. -/
def withPoints : List Char → List Char
  | '_' :: '_' :: rest => '.' :: withPoints rest
  | c :: rest => c :: withPoints rest
  | [] => []

/-- The layer of the environment. -/
def Layer.ofEnvironment (environment : Environment) : Layer :=
  environment.filterMap fun (name, text) ↦
    (Text.after? namesStart (lowerCase name).toList).map fun rest ↦
      (Path.ofText (String.ofList (withPoints rest)), valueOf text)

end Licensing.Settings
