/-!
# Splitting at a character

The segments between the occurrences of a separator: always one more than there are separators, so a
text without any is its own only segment.
-/

namespace Licensing.Text

/-- The segments between the occurrences of `sep`. -/
def segments (sep : Char) : List Char → List (List Char)
  | [] => [[]]
  | c :: rest =>
    if c = sep then [] :: segments sep rest
    else match segments sep rest with
      | [] => [[c]]
      | first :: others => (c :: first) :: others

/-- What stands before and after the first occurrence of `sep`. -/
def cutFirst (sep : Char) (s : List Char) : Option (List Char × List Char) :=
  match s.dropWhile (· ≠ sep) with
  | [] => none
  | _ :: after => some (s.takeWhile (· ≠ sep), after)

/-- What stands before and after the last occurrence of `sep`. -/
def cutLast (sep : Char) (s : List Char) : Option (List Char × List Char) :=
  (cutFirst sep s.reverse).map fun (after, before) ↦ (before.reverse, after.reverse)

/-- What follows `start` in a text that starts so. -/
def after? (start s : List Char) : Option (List Char) :=
  if start.isPrefixOf s then some (s.drop start.length) else none

/-- The text with `sep` written between its parts. -/
def joined (sep : List Char) (parts : List (List Char)) : List Char := sep.intercalate parts

theorem segments_ne_nil (sep : Char) (s : List Char) : segments sep s ≠ [] := by
  cases s with
  | nil => simp [segments]
  | cons c rest =>
    rw [segments]
    split
    · simp
    · split <;> simp

theorem length_segments (sep : Char) (s : List Char) :
    (segments sep s).length = s.count sep + 1 := by
  induction s with
  | nil => rfl
  | cons c rest ih =>
    rw [segments]
    split
    · next h => simp [h, ih]
    · next h =>
      split
      · next hn => exact absurd hn (segments_ne_nil sep rest)
      · next hs =>
        rw [hs] at ih
        simp only [List.length_cons] at ih ⊢
        rw [List.count_cons_of_ne h, ih]

end Licensing.Text
