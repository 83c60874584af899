import Licensing.Json.Number
import Licensing.Text.Decimal
import Licensing.Text.Hex

/-!
# Reading JSON text

A reader takes something off the front of a text. It goes from left to right and stops at the
first fault, which is either `malformed` (the text is not JSON) or `mismatched` (it is, as far as
it was read, but a value has not the wanted form). So which of two faults is reported depends on
their order in the text alone. Readers of single values are here, readers of whole records in
`Licensing.Json.Record`.
-/

namespace Licensing.Json

/-- Why a text was refused. -/
inductive Fault
  | malformed
  | mismatched
  deriving DecidableEq, Repr

/-- Takes something off the front of a text. -/
abbrev Reader (α : Type) := StateT (List Char) (Except Fault) α

namespace Reader

/-- Refuses the text as not JSON. -/
def malformed {α : Type} : Reader α := fun _ ↦ .error .malformed

/-- Refuses the value as not of the wanted form. -/
def mismatched {α : Type} : Reader α := fun _ ↦ .error .mismatched

/-- The white space of JSON. -/
def isSpace (c : Char) : Bool := c = ' ' || c = '\n' || c = '\t' || c = '\r'

/-- Drops white space. -/
def spaces : Reader Unit := modify (·.dropWhile isSpace)

/-- The next character, left in place. -/
def peek : Reader (Option Char) := return (← get).head?

/-- Drops the next character. -/
def skip : Reader Unit := modify List.tail

/-- Drops the given characters. -/
def literal (word : List Char) : Reader Unit := fun s ↦
  if word.isPrefixOf s then .ok ((), s.drop word.length) else .error .malformed

/-- Repeats a step until it gives a result. A step that goes on has to take a character off, so the
number of steps is bounded by the length of the text. -/
def repeating {σ β : Type} (step : σ → Reader (σ ⊕ β)) (start : σ) : Reader β := do
  loop ((← get).length + 1) start
where
  /-- At most `fuel` steps. -/
  loop : Nat → σ → Reader β
    | 0, _ => malformed
    | fuel + 1, s => do
      match ← step s with
      | .inl s => loop fuel s
      | .inr b => return b

/-! ### Strings -/

/-- The value of four hexadecimal digits. -/
def fourHex : List Char → Except Fault (Nat × List Char)
  | a :: b :: c :: d :: rest =>
    match Text.Hex.value? [a, b, c, d] with
    | some n => .ok (n, rest)
    | none => .error .malformed
  | _ => .error .malformed

/-- The character that an escape stands for, after the backslash. Two escapes that form a pair of
surrogates stand for one character; a surrogate alone is refused. -/
def escape : List Char → Except Fault (Char × List Char)
  | '"' :: rest => .ok ('"', rest)
  | '\\' :: rest => .ok ('\\', rest)
  | '/' :: rest => .ok ('/', rest)
  | 'b' :: rest => .ok ('\x08', rest)
  | 'f' :: rest => .ok ('\x0c', rest)
  | 'n' :: rest => .ok ('\n', rest)
  | 'r' :: rest => .ok ('\r', rest)
  | 't' :: rest => .ok ('\t', rest)
  | 'u' :: rest => do
    let (high, rest) ← fourHex rest
    if 0xDC00 ≤ high && high ≤ 0xDFFF then .error .malformed
    else if 0xD800 ≤ high && high ≤ 0xDBFF then
      match rest with
      | '\\' :: 'u' :: rest =>
        let (low, rest) ← fourHex rest
        if 0xDC00 ≤ low && low ≤ 0xDFFF then
          .ok (Char.ofNat (0x10000 + (high - 0xD800) * 0x400 + (low - 0xDC00)), rest)
        else .error .malformed
      | _ => .error .malformed
    else .ok (Char.ofNat high, rest)
  | _ => .error .malformed

/-- One character of a string, or `none` at its closing quote. -/
def stringStep : List Char → Except Fault (Option Char × List Char)
  | [] => .error .malformed
  | '"' :: rest => .ok (none, rest)
  | '\\' :: rest => (escape rest).map fun (c, rest) ↦ (some c, rest)
  | c :: rest => if c.toNat < 0x20 then .error .malformed else .ok (some c, rest)

/-- The characters up to the closing quote. -/
def stringBody : Reader String :=
  repeating (fun taken ↦ do
    match ← (fun s ↦ stringStep s : Reader (Option Char)) with
    | some c => return .inl (c :: taken)
    | none => return .inr (String.ofList taken.reverse)) []

/-- Passes over a string without reading its escapes: `\u` needs four digits, no more. -/
def passString : Reader Unit :=
  repeating (fun (_ : Unit) ↦ do
    match ← get with
    | [] => malformed
    | '"' :: rest => set rest; return .inr ()
    | '\\' :: 'u' :: rest => do
      let (_, rest) ← (fourHex rest : Except Fault _)
      set rest
      return .inl ()
    | '\\' :: c :: rest =>
      if "\"\\/bfnrt".toList.contains c then set rest; return .inl () else malformed
    | c :: rest => if c.toNat < 0x20 then malformed else set rest; return .inl ()) ()

/-! ### Numbers -/

/-- The digits at the front. -/
def digitsRun : Reader (List Char) := do
  let ds := (← get).takeWhile Char.isDigit
  modify (·.drop ds.length)
  return ds

/-- The digits that fit, and how many were left over. -/
def pushAll (start : Nat) (ds : List Char) : Nat × List Char :=
  match ds with
  | [] => (start, [])
  | d :: rest =>
    match Numeral.push? start (Text.Decimal.valueOf d) with
    | some n => pushAll n rest
    | none => (start, d :: rest)

/-- The digits of the whole part: no zero before other digits. -/
def wholePart : Reader (List Char) := do
  match ← digitsRun with
  | [] => malformed
  | ds => if 1 < ds.length && ds.head? = some '0' then malformed else return ds

/-- A number after its sign. Digits past 64 bits move the exponent before the point and are dropped
after it. A number too large for a double is refused. -/
def numeral (negative : Bool) : Reader Numeral := do
  let ds ← wholePart
  let (digits, left) := pushAll 0 ds
  let (digits, exponent, pointed) ← (do
    if (← peek) = some '.' then
      skip
      let fs ← digitsRun
      if fs = [] then malformed
      let (digits, excess) := pushAll digits fs
      return (digits, (left.length : Int) - (fs.length - excess.length : Nat), true)
    else return (digits, (left.length : Int), false) : Reader (Nat × Int × Bool))
  match ← peek with
  | some 'e' => exponentPart digits exponent
  | some 'E' => exponentPart digits exponent
  | _ => return ⟨negative, digits, exponent, !pointed && left = []⟩
where
  /-- The exponent from its letter on. One past 31 bits gives zero, or a number too large. -/
  exponentPart (digits : Nat) (exponent : Int) : Reader Numeral := do
    skip
    let below ← (do
      match ← peek with
      | some '+' => skip; return false
      | some '-' => skip; return true
      | _ => return false : Reader Bool)
    let ds ← digitsRun
    if ds = [] then malformed
    let power := Text.Decimal.ofDigits ds
    if power < twoTo 31 then
      return ⟨negative, digits, if below then exponent - power else exponent + power, false⟩
    else if digits ≠ 0 && !below then malformed
    else return ⟨negative, 0, 0, false⟩

/-- A number as a value. -/
def number (negative : Bool) : Reader Json := do
  match (← numeral negative).toJson? with
  | some value => return value
  | none => malformed

/-- Passes over a number without its value. -/
def passNumber : Reader Unit := do
  let _ ← wholePart
  if (← peek) = some '.' then
    skip
    if (← digitsRun) = [] then malformed
  if (← peek) = some 'e' || (← peek) = some 'E' then
    skip
    if (← peek) = some '+' || (← peek) = some '-' then skip
    if (← digitsRun) = [] then malformed

/-! ### Arrays and objects -/

/-- Whether another item follows, after a comma unless it is the first. -/
def nextItem (first : Bool) : Reader Bool := do
  spaces
  match ← peek with
  | some ']' => return false
  | some ',' =>
    if first then return true
    skip
    spaces
    match ← peek with
    | some ']' => malformed
    | some _ => return true
    | none => malformed
  | some _ => if first then return true else malformed
  | none => malformed

/-- Whether another field follows; its name is left in place. -/
def nextField (first : Bool) : Reader Bool := do
  spaces
  match ← peek with
  | some '}' => return false
  | some ',' =>
    if first then malformed
    skip
    spaces
    if (← peek) = some '"' then return true else malformed
  | some '"' => if first then return true else malformed
  | _ => malformed

/-- The colon between a name and its value. -/
def colon : Reader Unit := do
  spaces
  if (← peek) = some ':' then skip else malformed

/-- Everything up to the closing bracket, after the opening one. -/
def items {α : Type} (item : Reader α) : Reader (List α) :=
  repeating (fun taken ↦ do
    if ← nextItem taken.isEmpty then
      let value ← item
      return .inl (value :: taken)
    else
      skip
      return .inr taken.reverse) []

/-- Everything up to the closing brace, after the opening one. -/
def fields {α : Type} (value : Reader α) : Reader (List (String × α)) :=
  repeating (fun taken ↦ do
    if ← nextField taken.isEmpty then
      skip
      let name ← stringBody
      colon
      let v ← value
      return .inl ((name, v) :: taken)
    else
      skip
      return .inr taken.reverse) []

/-- How many arrays and objects may stand inside each other. -/
def maxDepth : Nat := 127

/-- Any value, given the reader of what stands inside an array or object, if one may open. -/
def valueWith (inner : Option (Reader Json)) : Reader Json := do
  spaces
  match ← peek, inner with
  | some 'n', _ => literal "null".toList; return .null
  | some 't', _ => literal "true".toList; return .bool true
  | some 'f', _ => literal "false".toList; return .bool false
  | some '-', _ => skip; number true
  | some '"', _ => skip; return .string (← stringBody)
  | some '[', some inner => skip; return .array (← items inner)
  | some '{', some inner => skip; return .ofPairs (← fields inner)
  | some c, _ => if c.isDigit then number false else malformed
  | none, _ => malformed

/-- Any value, with at most `depth` arrays and objects inside each other. -/
def value : Nat → Reader Json
  | 0 => valueWith none
  | depth + 1 => valueWith (some (value depth))

/-- Passes over any value, however deep. The state is the brackets that are open, the innermost
first, and whether a value has just ended. -/
def pass : Reader Unit :=
  repeating (fun (opened, ended) ↦ do
    spaces
    match ended, opened with
    | true, [] => return .inr ()
    | true, bracket :: outer =>
      match bracket, ← peek with
      | '[', some ']' => skip; return .inl (outer, true)
      | '{', some '}' => skip; return .inl (outer, true)
      | '{', some ',' => skip; spaces; fieldName; return .inl (opened, false)
      | '[', some ',' => skip; return .inl (opened, false)
      | _, _ => malformed
    | false, _ =>
      match ← peek with
      | some 'n' => literal "null".toList; return .inl (opened, true)
      | some 't' => literal "true".toList; return .inl (opened, true)
      | some 'f' => literal "false".toList; return .inl (opened, true)
      | some '-' => skip; passNumber; return .inl (opened, true)
      | some '"' => skip; passString; return .inl (opened, true)
      | some '[' =>
        skip
        spaces
        if (← peek) = some ']' then skip; return .inl (opened, true)
        else return .inl ('[' :: opened, false)
      | some '{' =>
        skip
        spaces
        if (← peek) = some '}' then skip; return .inl (opened, true)
        else fieldName; return .inl ('{' :: opened, false)
      | some c => if c.isDigit then passNumber; return .inl (opened, true) else malformed
      | none => malformed) (([] : List Char), false)
where
  /-- A name and its colon. -/
  fieldName : Reader Unit := do
    literal ['"']
    passString
    colon

/-! ### Values of a wanted form -/

/-- Refuses the value that stands here. One that is a single word, number or string is read to its
end first, and may turn out not to be JSON. -/
def wrongForm {α : Type} : Reader α := do
  match ← peek with
  | some '[' => mismatched
  | some '{' => mismatched
  | _ => let _ ← value 0; mismatched

/-- A string. -/
def string : Reader String := do
  spaces
  match ← peek with
  | some '"' => skip; stringBody
  | _ => wrongForm

/-- `null` for no value. -/
def optional {α : Type} (reader : Reader α) : Reader (Option α) := do
  spaces
  if (← peek) = some 'n' then
    literal "null".toList
    return none
  else return some (← reader)

/-- A string that spells something. -/
def spelled {α : Type} (parse : String → Option α) : Reader α := do
  match parse (← string) with
  | some a => return a
  | none => mismatched

/-- One of a set of words: the string, or an object whose only field has that name and the value
`null`. -/
def word {α : Type} (parse : String → Option α) : Reader α := do
  spaces
  match ← peek with
  | some '"' => spelled parse
  | some '{' =>
    skip
    let a ← spelled parse
    colon
    spaces
    if (← peek) = some 'n' then literal "null".toList else wrongForm
    spaces
    if (← peek) = some '}' then skip else malformed
    return a
  | _ => malformed

/-- A whole number of 64 bits with a sign. -/
def int64 : Reader Int := do
  spaces
  match ← peek with
  | some '-' => skip; whole (← number true)
  | some c => if c.isDigit then whole (← number false) else wrongForm
  | none => malformed
where
  /-- The number, if it is whole and fits. -/
  whole : Json → Reader Int
    | .int n => if -(twoTo 63 : Int) ≤ n && n < twoTo 63 then return n else mismatched
    | _ => mismatched

/-- Reads a whole text: nothing but white space may follow. -/
def run {α : Type} (reader : Reader α) (text : List Char) : Except Fault α := do
  let (a, rest) ← StateT.run (do let a ← reader; spaces; return a) text
  if rest = [] then return a else .error .malformed

end Reader

/-- The value that a text spells. -/
def ofText? (text : String) : Option Json :=
  (Reader.run (Reader.value Reader.maxDepth) text.toList).toOption

end Licensing.Json
