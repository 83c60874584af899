import Licensing.Json.Reader

/-!
# Reading records

A record is read from an object, where its fields may stand in any order and unknown fields are
passed over, or from an array that lists its fields in their declared order. A field that is
repeated, or that is missing though required, makes the value mismatched.
-/

namespace Licensing.Json

/-- A field of a record that is gathered in a value of type `σ`: its name, whether an object must
have it, whether an array may end before it, and how its value is read. -/
structure Slot (σ : Type) where
  name : String
  required : Bool
  mayEndBefore : Bool
  read : Reader (σ → σ)

namespace Slot

variable {σ α : Type}

/-- A field that has to be there. -/
def needed (name : String) (reader : Reader α) (set : α → σ → σ) : Slot σ :=
  ⟨name, true, false, set <$> reader⟩

/-- A field that may be left out. -/
def defaulted (name : String) (reader : Reader α) (set : α → σ → σ) : Slot σ :=
  ⟨name, false, true, set <$> reader⟩

/-- A field that an object may leave out but an array may not. -/
def placed (name : String) (reader : Reader α) (set : α → σ → σ) : Slot σ :=
  ⟨name, false, false, set <$> reader⟩

end Slot

namespace Reader

variable {σ : Type}

/-- The fields of an object, after the opening brace. The state is the names that were read, and the
record so far. -/
def recordFields (slots : List (Slot σ)) (start : σ) : Reader σ :=
  repeating (fun (seen, first, record) ↦ do
    if ← nextField first then
      skip
      let name ← stringBody
      match slots.find? (·.name == name) with
      | some slot =>
        if seen.contains name then mismatched
        colon
        let set ← slot.read
        return .inl (name :: seen, false, set record)
      | none =>
        colon
        pass
        return .inl (seen, false, record)
    else
      if slots.all fun slot ↦ !slot.required || seen.contains slot.name then
        skip
        return .inr record
      else mismatched) (([] : List String), true, start)

/-- The items of an array, after the opening bracket. -/
def recordItems : List (Slot σ) → Bool → σ → Reader σ
  | [], _, record => do
    spaces
    if (← peek) = some ']' then
      skip
      return record
    else malformed
  | slot :: slots, first, record => do
    if ← nextItem first then
      let set ← slot.read
      recordItems slots false (set record)
    else if slot.mayEndBefore then recordItems slots first record
    else mismatched

/-- A record. -/
def record (slots : List (Slot σ)) (start : σ) : Reader σ := do
  spaces
  match ← peek with
  | some '{' => skip; recordFields slots start
  | some '[' => skip; recordItems slots true start
  | _ => wrongForm

end Reader

end Licensing.Json
