/-!
# JSON values

Whole numbers stay whole and are never equal to a number written with a fraction or an exponent,
which is kept as the 64 bits of its IEEE value. The fields of an object stand in ascending order
of their names; `insert` keeps the order and overwrites a field of the same name, and
`Fields.get?_insert` says what can be read afterwards. That law needs no order, so it holds of every
list of fields.
-/

namespace Licensing

/-- A JSON value. -/
inductive Json where
  | null
  | bool (value : Bool)
  | int (value : Int)
  | double (bits : UInt64)
  | string (text : String)
  | array (items : List Json)
  | object (fields : List (String × Json))
  deriving Inhabited

namespace Json

/-- The fields of an object. -/
abbrev Fields := List (String × Json)

/-! ### Equality -/

mutual

/-- Whether two values are equal. -/
def beq : Json → Json → Bool
  | null, null => true
  | bool a, bool b => a == b
  | int a, int b => a == b
  | double a, double b => a == b
  | string a, string b => a == b
  | array a, array b => beqItems a b
  | object a, object b => beqFields a b
  | _, _ => false

/-- Whether two lists of items are equal. -/
def beqItems : List Json → List Json → Bool
  | [], [] => true
  | a :: as, b :: bs => beq a b && beqItems as bs
  | _, _ => false

/-- Whether two lists of fields are equal. -/
def beqFields : Fields → Fields → Bool
  | [], [] => true
  | (k, a) :: as, (l, b) :: bs => k == l && beq a b && beqFields as bs
  | _, _ => false

end

mutual

theorem beq_iff_eq : ∀ a b : Json, beq a b = true ↔ a = b
  | null, b => by cases b <;> simp [beq]
  | bool a, b => by cases b <;> simp [beq]
  | int a, b => by cases b <;> simp [beq]
  | double a, b => by cases b <;> simp [beq]
  | string a, b => by cases b <;> simp [beq]
  | array a, b => by
    cases b with
    | array b => simp [beq, beqItems_iff_eq a b]
    | _ => simp [beq]
  | object a, b => by
    cases b with
    | object b => simp [beq, beqFields_iff_eq a b]
    | _ => simp [beq]

theorem beqItems_iff_eq : ∀ a b : List Json, beqItems a b = true ↔ a = b
  | [], b => by cases b <;> simp [beqItems]
  | a :: as, b => by
    cases b with
    | nil => simp [beqItems]
    | cons b bs => simp [beqItems, beq_iff_eq a b, beqItems_iff_eq as bs]

theorem beqFields_iff_eq : ∀ a b : Fields, beqFields a b = true ↔ a = b
  | [], b => by cases b <;> simp [beqFields]
  | (k, a) :: as, b => by
    cases b with
    | nil => simp [beqFields]
    | cons b bs =>
      obtain ⟨l, b⟩ := b
      simp [beqFields, beq_iff_eq a b, beqFields_iff_eq as bs, and_assoc]

end

instance : DecidableEq Json := fun a b ↦ decidable_of_iff _ (beq_iff_eq a b)

/-! ### Parts -/

/-- The fields of a value that is an object. -/
def fields? : Json → Option Fields
  | object fields => some fields
  | _ => none

/-- The text of a value that is a string. -/
def string? : Json → Option String
  | string text => some text
  | _ => none

/-- Whether a value is an object. -/
def isObject (value : Json) : Bool := value.fields?.isSome

namespace Fields

/-- The value of the first field of that name. -/
def get? : Fields → String → Option Json
  | [], _ => none
  | (name, value) :: rest, wanted => if name = wanted then some value else get? rest wanted

/-- The fields with one set: in place of the field of its name, else before the first greater
name. -/
def insert (wanted : String) (new : Json) : Fields → Fields
  | [] => [(wanted, new)]
  | (name, value) :: rest =>
    if name = wanted then (wanted, new) :: rest
    else if wanted < name then (wanted, new) :: (name, value) :: rest
    else (name, value) :: insert wanted new rest

/-- The fields of a list of pairs, in order of their names; of several fields of one name the last
counts. -/
def ofPairs (pairs : List (String × Json)) : Fields :=
  pairs.foldl (fun fields (name, value) ↦ insert name value fields) []

@[simp] theorem get?_nil (name : String) : get? [] name = none := rfl

theorem get?_insert (fields : Fields) (name wanted : String) (new : Json) :
    get? (insert name new fields) wanted =
      if name = wanted then some new else get? fields wanted := by
  induction fields with
  | nil => simp [insert, get?]
  | cons field rest ih =>
    obtain ⟨here, value⟩ := field
    by_cases hn : here = name
    · subst hn
      by_cases hw : here = wanted <;> simp [insert, get?, hw]
    · by_cases hl : name < here
      · simp [insert, hn, hl, get?]
      · simp only [insert, hn, hl, if_false, get?, ih]
        by_cases hw : here = wanted
        · simp [hw, show ¬ name = wanted from fun h ↦ hn (hw.trans h.symm)]
        · simp [hw]

end Fields

/-- An object with the given fields. -/
def ofPairs (pairs : List (String × Json)) : Json := object (Fields.ofPairs pairs)

/-- An object with those of the given fields that have a value. -/
def ofPresent (pairs : List (String × Option Json)) : Json :=
  ofPairs (pairs.filterMap fun (name, value) ↦ value.map (name, ·))

/-- The value of a field, if the value is an object that has it. -/
def get? (value : Json) (name : String) : Option Json := value.fields?.bind (Fields.get? · name)

/-- A string that is not empty under the given name. -/
def Fields.nonEmptyString? (fields : Fields) (name : String) : Option String :=
  match fields.get? name with
  | some (string text) => if text = "" then none else some text
  | _ => none

end Json

end Licensing
