import Licensing.Json.Basic
import Licensing.Text.Decimal
import Licensing.Text.Split

/-!
# Trees of settings

Settings come in layers, each a list of values at paths. A path names fields from the outside in,
with points between them, and may pick an item of a list. Laying a value over a tree (`put`) goes
along the path and makes tables and items where there are none; a table is laid over a table field
by field, and any other value takes the place of what was there. Names are in lower case
throughout.

Of fields of one table whose names differ in nothing but case, the one that is laid last counts.
Here this is the last in the order of the table; in a table that is hashed it may be any of them.
-/

namespace Licensing.Settings

/-- A letter in lower case. The names of settings are ASCII, and of the letters beyond it only the
sign for kelvin has one of ASCII for its lower case. -/
def lowerLetter (c : Char) : Char := if c = '\u212A' then 'k' else c.toLower

/-- A text in lower case. -/
def lowerCase (text : String) : String := String.ofList (text.toList.map lowerLetter)

example : lowerCase "API_\u212AEY" = "api_key" := by decide +kernel

/-- A step of a path. -/
inductive Step
  | field (name : String)
  | item (index : Nat)
  deriving DecidableEq

/-- A path into a tree. -/
abbrev Path := List Step

namespace Path

/-- The characters of names in a path. -/
def isNameChar (c : Char) : Bool := c.isAlphanum || c = '_' || c = '-' || c = ' '

/-- The steps after a name: a point and another name, or an index in brackets. `fuel` bounds their
number. -/
private def steps? : Nat → List Char → Option Path
  | _, [] => some []
  | 0, _ => none
  | fuel + 1, '.' :: rest =>
    let name := rest.takeWhile isNameChar
    if name = [] then none
    else (steps? fuel (rest.drop name.length)).map (.field (String.ofList name) :: ·)
  | fuel + 1, '[' :: rest =>
    match Text.cutFirst ']' rest with
    | none => none
    | some (digits, rest) => do
      let index ← Text.Decimal.nat? digits
      return .item index :: (← steps? fuel rest)
  | _, _ => none

/-- The path that a text spells; a text that spells none is the name of a field as a whole. -/
def ofText (text : String) : Path :=
  let s := text.toList
  let name := s.takeWhile isNameChar
  let rest := s.drop name.length
  if name = [] then [.field text]
  else match steps? (rest.length + 1) rest with
    | some steps => .field (String.ofList name) :: steps
    | none => [.field text]

end Path

/-- The fields of a tree, none if it is no table. -/
def fieldsOf (tree : Json) : Json.Fields := tree.fields?.getD []

/-- The items of a tree, none if it is no list. -/
def itemsOf : Json → List Json
  | .array items => items
  | _ => []

mutual

/-- Lays a value over what was there, if anything. -/
def overlay : Json → Option Json → Json
  | .object fields, old => overlayAll fields (old.getD (.object []))
  | value, _ => value

/-- Lays fields over a tree. -/
def overlayAll : Json.Fields → Json → Json
  | [], tree => tree
  | (name, value) :: rest, tree =>
    let fields := fieldsOf tree
    let name := lowerCase name
    overlayAll rest (.object (fields.insert name (overlay value (fields.get? name))))

end

/-- Lays a value over a tree at a path. -/
def put (value : Json) : Path → Json → Json
  | [], _ => value
  | [.field name], tree => overlayAll [(name, value)] tree
  | .field name :: rest, tree =>
    let fields := fieldsOf tree
    let name := lowerCase name
    .object (fields.insert name (put value rest ((fields.get? name).getD .null)))
  | .item index :: rest, tree =>
    let items := itemsOf tree
    let items := items ++ List.replicate (index + 1 - items.length) .null
    .array (items.set index (put value rest (items.getD index .null)))

/-- Values at paths. -/
abbrev Layer := List (Path × Json)

/-- Lays a layer over a tree. -/
def Layer.onto (layer : Layer) (tree : Json) : Json :=
  layer.foldl (fun tree (path, value) ↦ put value path tree) tree

/-- The layer of a table: its fields, whose names are paths. -/
def Layer.ofTable (fields : Json.Fields) : Layer :=
  fields.map fun (name, value) ↦ (Path.ofText name, value)

end Licensing.Settings
