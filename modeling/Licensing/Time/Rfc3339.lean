import Licensing.Powers
import Licensing.Text.Blank
import Licensing.Text.Decimal
import Licensing.Time.Civil
import Licensing.Time.Instant

/-!
# RFC 3339

Points of time as text. Writing is exact: UTC, `Z`, and 0, 3, 6 or 9 digits after the point, the
fewest that hold the value (`toText`), or always nine (`toTextNanos`). Reading is generous in the
ways that `ofText?` lists and refuses everything else.
-/

namespace Licensing.Time.Rfc3339

open Text (trimStart)

/-! ### Writing -/

/-- The year: four digits up to 9999, a sign and at least four digits elsewhere. -/
def yearText (year : Int) : List Char :=
  if 0 ≤ year ∧ year ≤ 9999 then Text.Decimal.fixed 4 year.natAbs
  else (if year < 0 then '-' else '+') :: Text.Decimal.padded 4 year.natAbs

/-- The text with the fraction that `fraction` writes for the nanoseconds of the second. A leap
second is written as second 60. -/
def write (fraction : Nat → List Char) (t : Instant) : List Char :=
  let date := Civil.ofDays (t.second / 86400)
  let ofDay := (t.second % 86400).toNat
  let leap := Instant.nanosPerSecond ≤ t.frac
  let second := ofDay % 60 + if leap then 1 else 0
  let nanos := (t.frac % Instant.nanosPerSecond).toNat
  let two := Text.Decimal.fixed 2
  yearText date.year ++ '-' :: two date.month ++ '-' :: two date.day ++ 'T' :: two (ofDay / 3600) ++
    ':' :: two (ofDay / 60 % 60) ++ ':' :: two second ++ fraction nanos ++ ['Z']

/-- The fewest of 0, 3, 6 or 9 digits that hold the value. -/
def shortFraction (nanos : Nat) : List Char :=
  if nanos = 0 then []
  else if nanos % 1000000 = 0 then '.' :: Text.Decimal.fixed 3 (nanos / 1000000)
  else if nanos % 1000 = 0 then '.' :: Text.Decimal.fixed 6 (nanos / 1000)
  else '.' :: Text.Decimal.fixed 9 nanos

/-- The usual written form. -/
def toText (t : Instant) : String := String.ofList (write shortFraction t)

/-- The written form with nine digits after the point. -/
def toTextNanos (t : Instant) : String :=
  String.ofList (write (fun nanos ↦ '.' :: Text.Decimal.fixed 9 nanos) t)

/-! ### Reading -/

/-- Takes something off the front of a text, or refuses it. -/
abbrev Take (α : Type) := StateT (List Char) Option α

/-- Drops blanks. -/
def blanks : Take Unit := modify trimStart

/-- Drops one given character. -/
def literal (c : Char) : Take Unit := fun s ↦
  match s with
  | d :: rest => if d = c then some ((), rest) else none
  | [] => none

/-- One to `most` digits. -/
def number (most : Nat) : Take Nat := fun s ↦
  let ds := (s.takeWhile Char.isDigit).take most
  if ds = [] then none else some (Text.Decimal.ofDigits ds, s.drop ds.length)

/-- A number of one or two digits within bounds, after blanks. -/
def field (low high : Nat) : Take Nat := do
  blanks
  let n ← number 2
  guard (low ≤ n ∧ n ≤ high)
  return n

/-- A year of up to four digits, or of any length after a sign. -/
def year : Take Int := do
  blanks
  match ← get with
  | '-' :: rest => set rest; return -(← number rest.length)
  | '+' :: rest => set rest; return ← number rest.length
  | _ => return ← number 4

/-- The nanoseconds after a point; digits past the ninth are dropped. -/
def fraction : Take Nat := do
  match ← get with
  | '.' :: rest =>
    let ds := rest.takeWhile Char.isDigit
    guard (ds ≠ [])
    set (rest.drop ds.length)
    let kept := ds.take 9
    return Text.Decimal.ofDigits kept * tenTo (9 - kept.length)
  | _ => return 0

private def digitPair (highest : Char) : Take Nat := fun s ↦
  match s with
  | a :: b :: rest =>
    if '0' ≤ a && a ≤ highest && b.isDigit then some (Text.Decimal.ofDigits [a, b], rest) else none
  | _ => none

/-- The offset from UTC in seconds. -/
def offset : Take Int := do
  match ← get with
  | 'Z' :: rest => set rest; return 0
  | 'z' :: rest => set rest; return 0
  | s =>
    if (s.take 3).map Char.toUpper = ['U', 'T', 'C'] then
      set (s.drop 3)
      return 0
    let (sign, rest) ← match s with
      | '+' :: rest => pure ((1 : Int), rest)
      | '-' :: rest => pure (-1, rest)
      | '\u2212' :: rest => pure (-1, rest)
      | _ => failure
    set rest
    let hours ← digitPair '9'
    modify fun s ↦ s.dropWhile fun c ↦ c = ':' || Text.isBlank c
    let minutes ← digitPair '5'
    let seconds : Int := hours * 3600 + minutes * 60
    guard (seconds < 86400)
    return sign * seconds

/-- The first and the last day that have a written form. -/
def dayBounds : Int × Int :=
  (Civil.toDays ⟨-262143, 1, 1⟩, Civil.toDays ⟨262142, 12, 31⟩)

private def withinBounds (second : Int) : Bool :=
  dayBounds.1 ≤ second / 86400 && second / 86400 ≤ dayBounds.2

/-- A whole text: date, `T`, `t` or a blank, time, offset. Month, day, hour, minute and second may
have one digit; second 60 is a leap second; blanks may stand before each number and separator,
before the offset and around the whole; the offset may be `Z`, `UTC` in any case, or hours and
minutes after a plus, a minus or the minus sign U+2212. -/
def instant : Take Instant := do
  let year ← year
  blanks; literal '-'
  let month ← field 1 12
  blanks; literal '-'
  let day ← field 1 31
  let date : Civil := ⟨year, month, day⟩
  match ← get with
  | c :: rest => guard (c = 'T' ∨ c = 't' ∨ c = ' '); set rest
  | [] => failure
  let hour ← field 0 23
  blanks; literal ':'
  let minute ← field 0 59
  blanks; literal ':'
  let second ← field 0 60
  let nanos ← fraction
  blanks
  let offset ← offset
  blanks
  guard ((← get) = [])
  guard date.Exists
  let leap := second = 60
  let ofDay : Nat := hour * 3600 + minute * 60 + if leap then 59 else second
  let here := date.toDays * 86400 + ofDay
  guard (withinBounds here ∧ withinBounds (here - offset))
  return .ofSecond (here - offset) (nanos + if leap then Instant.nanosPerSecond else 0)

/-- The point of time that a text spells. -/
def ofText? (text : String) : Option Instant := (instant.run text.toList).map (·.1)

end Licensing.Time.Rfc3339

namespace Licensing

instance : ToString Instant := ⟨Time.Rfc3339.toText⟩

end Licensing
