import Licensing.Settings.Variables
import Licensing.Text.Blank

/-!
# Files of variables

A file of variables gives one on each line, a name and a value with an equals sign between them.
Lines that are empty or begin with `#` are passed over, `export` may stand before a name, and a
comment may follow a value after a blank. In a value, single quotes keep everything as it is,
double quotes keep blanks, a backslash takes the next character's meaning away (or makes a line
break of `n`), and a dollar sign puts in the value of another variable. A quoted text may go over
several lines.

Reading stops at the first line that is not so; the variables before it count. A variable that is
set already keeps its value.
-/

namespace Licensing.Settings.EnvFile

/-! ### Lines -/

/-- Where the reading of a line stands: outside of quotes, after a blank, in a comment, inside
double or single quotes, or after a backslash in one of these. -/
inductive Position
  | outside
  | afterBlank
  | comment
  | inDouble
  | inSingle
  | escapedOutside
  | escapedDouble
  | escapedSingle
  deriving DecidableEq

/-- Where the reading stands after one more character. -/
def Position.after : Position → Char → Position
  | outside, c =>
    if Text.isBlank c && c ≠ '\n' && c ≠ '\r' then afterBlank
    else if c = '\\' then escapedOutside
    else if c = '"' then inDouble
    else if c = '\'' then inSingle
    else outside
  | afterBlank, c =>
    if c = '#' then comment
    else if c = '\\' then escapedOutside
    else if c = '"' then inDouble
    else if c = '\'' then inSingle
    else outside
  | comment, _ => comment
  | inDouble, c => if c = '\\' then escapedDouble else if c = '"' then outside else inDouble
  | inSingle, c => if c = '\\' then escapedSingle else if c = '\'' then outside else inSingle
  | escapedOutside, _ => outside
  | escapedDouble, _ => inDouble
  | escapedSingle, _ => inSingle

/-- The characters of a line up to a comment, and where its reading ends. -/
def scan : Position → List Char → List Char × Position
  | position, [] => ([], position)
  | position, c :: rest =>
    match position.after c with
    | .comment => ([], .comment)
    | next =>
      let (kept, last) := scan next rest
      (c :: kept, last)

/-- The lines of a text, each with its line break. -/
def physicalLines : List Char → List (List Char)
  | [] => []
  | c :: rest =>
    if c = '\n' then [c] :: physicalLines rest
    else match physicalLines rest with
      | [] => [[c]]
      | line :: lines => (c :: line) :: lines

private def withoutBreak (line : List Char) : List Char :=
  match line.reverse with
  | '\n' :: '\r' :: rest => rest.reverse
  | '\n' :: rest => rest.reverse
  | _ => line

/-- Puts lines together that a quoted text goes over; a line is none if its text does not end. A
comment after the last of them cuts the whole off at as many characters as stand before the comment
in its own line. -/
def logicalLines : List Char → Position → List (List Char) → List (Option (List Char))
  | before, _, [] => if before = [] then [] else [none]
  | before, position, line :: lines =>
    let whole := before ++ line
    if (Text.trimStart whole).head? = some '#' then some [] :: logicalLines [] .outside lines
    else
      match scan position line with
      | (kept, .comment) => some (whole.take kept.length) :: logicalLines [] .outside lines
      | (_, .outside) => some (withoutBreak whole) :: logicalLines [] .outside lines
      | (_, next) => logicalLines whole next lines

/-! ### Values -/

/-- The variables known so far: those that were set before, and those read from the file. -/
structure Known where
  set : Environment
  read : Environment

/-- The value put in for a name: what is set counts before what was read last. -/
def Known.value (known : Known) (name : String) : List Char :=
  (((known.set.lookup name).or (known.read.lookup name)).getD "").toList

/-- How a name is being gathered after a dollar sign. -/
inductive Gathering
  | none
  | bare
  | braced
  deriving DecidableEq

/-- Where the reading of a value stands. -/
structure Reading where
  single : Bool := false
  double : Bool := false
  escaped : Bool := false
  ending : Bool := false
  gathering : Gathering := .none
  name : List Char := []
  value : List Char := []

/-- Puts in the value of the name gathered. -/
def Reading.substitute (r : Reading) (known : Known) : Reading :=
  { r with
    gathering := .none
    name := []
    value := r.value ++ known.value (String.ofList r.name) }

/-- Takes one more character in; none if it may not stand there. -/
def Reading.step (known : Known) (r : Reading) (c : Char) : Option Reading :=
  if r.ending then if c = ' ' || c = '\t' then some r else none
  else if r.escaped then
    if "\\'\"$ ".toList.contains c then some { r with escaped := false, value := r.value ++ [c] }
    else if c = 'n' then some { r with escaped := false, value := r.value ++ ['\n'] }
    else none
  else if r.single then
    some (if c = '\'' then { r with single := false } else { r with value := r.value ++ [c] })
  else
    match r.gathering with
    | .bare =>
      if c.isAlphanum then some { r with name := r.name ++ [c] }
      else if c = '{' && r.name = [] then some { r with gathering := .braced }
      else
        let r := r.substitute known
        some (if c = '$' then { r with gathering := .bare } else { r with value := r.value ++ [c] })
    | .braced =>
      if c.isAlphanum then some { r with name := r.name ++ [c] }
      else if c = '}' then some (r.substitute known)
      else some { r with name := r.name ++ [c] }
    | .none =>
      if c = '$' then some { r with gathering := .bare }
      else if r.double then
        if c = '"' then some { r with double := false }
        else if c = '\\' then some { r with escaped := true }
        else some { r with value := r.value ++ [c] }
      else if c = '\'' then some { r with single := true }
      else if c = '"' then some { r with double := true }
      else if c = '\\' then some { r with escaped := true }
      else if c = ' ' || c = '\t' then some { r with ending := true }
      else some { r with value := r.value ++ [c] }

/-- Reads a value to its end, or to a comment after it. -/
def readValue (known : Known) (r : Reading) : List Char → Option String
  | [] =>
    if r.gathering = .braced || r.single || r.double then none
    else some (String.ofList (r.substitute known).value)
  | c :: rest =>
    if r.ending && c = '#' then readValue known r []
    else (r.step known c).bind fun r ↦ readValue known r rest

/-- A name at the front of a text, and what follows it. -/
def takeName? (s : List Char) : Option (String × List Char) :=
  if s.head?.any fun c ↦ c.isAlpha || c = '_' then
    let name := s.takeWhile fun c ↦ c.isAlphanum || c = '_' || c = '.'
    some (String.ofList name, Text.trimStart (s.drop name.length))
  else none

/-- Reads a line: a variable, nothing, or none at all if it is not as it should be. -/
def readLine (known : Known) (line : List Char) : Option (Option (String × String)) :=
  let s := Text.trim line
  if s = [] || s.head? = some '#' then some none
  else do
    let (name, rest) ← takeName? s
    let (name, rest) ←
      if name = "export" && rest.head? ≠ some '=' then takeName? rest else some (name, rest)
    match rest with
    | '=' :: rest =>
      let rest := Text.trimStart rest
      if rest = [] || rest.head? = some '#' then return some (name, "")
      else return some (name, ← readValue known {} rest)
    | _ => none

/-- The variables after those of a list of lines. -/
def loadLines : Known → List (Option (List Char)) → Environment
  | known, [] => known.set
  | known, none :: _ => known.set
  | known, some line :: lines =>
    match readLine known line with
    | none => known.set
    | some none => loadLines known lines
    | some (some (name, value)) =>
      let set := if (known.set.lookup name).isSome then known.set else known.set ++ [(name, value)]
      loadLines ⟨set, (name, value) :: known.read⟩ lines

/-- The variables together with those of a file. -/
def load (environment : Environment) (text : String) : Environment :=
  let text := match text.toList with
    | '\uFEFF' :: rest => rest
    | s => s
  loadLines ⟨environment, []⟩ (logicalLines [] .outside (physicalLines text))

end Licensing.Settings.EnvFile
