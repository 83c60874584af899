/-!
# Blank characters

The Unicode property `White_Space`, and trimming by it. Names of products, descriptions,
credentials and tokens are all judged after trimming in this sense, so a text made of no-break
spaces alone counts as empty. `trim_eq_nil_iff` says that a text trims to nothing exactly when all
of it is blank.
-/

namespace Licensing.Text

/-- The characters of the Unicode property `White_Space`. -/
def isBlank (c : Char) : Bool :=
  let n := c.toNat
  (9 ≤ n && n ≤ 13) || n == 0x20 || n == 0x85 || n == 0xA0 || n == 0x1680 ||
    (0x2000 ≤ n && n ≤ 0x200A) || n == 0x2028 || n == 0x2029 || n == 0x202F || n == 0x205F ||
    n == 0x3000

/-- The text without its leading blanks. -/
def trimStart (s : List Char) : List Char := s.dropWhile isBlank

/-- The text without its trailing blanks. -/
def trimEnd (s : List Char) : List Char := (s.reverse.dropWhile isBlank).reverse

/-- The text without blanks at either end. -/
def trim (s : List Char) : List Char := trimEnd (trimStart s)

/-- Whether nothing but blanks is there. -/
def allBlank (s : List Char) : Bool := s.all isBlank

/-- `trim` on strings. -/
def trimmed (s : String) : String := String.ofList (trim s.toList)

theorem trimStart_eq_nil_iff (s : List Char) : trimStart s = [] ↔ allBlank s = true := by
  induction s with
  | nil => simp [trimStart, allBlank]
  | cons c r ih =>
    cases hc : isBlank c with
    | true => simp_all [trimStart, allBlank]
    | false => simp [trimStart, allBlank, hc]

/-- What is left after trimming the front starts with a character that is not blank. -/
theorem isBlank_head_trimStart {s r : List Char} {c : Char} (h : trimStart s = c :: r) :
    isBlank c = false := by
  have := List.head?_dropWhile_not isBlank s
  rw [show s.dropWhile isBlank = c :: r from h] at this
  simpa using this

theorem trim_eq_nil_iff (s : List Char) : trim s = [] ↔ allBlank s = true := by
  have hrev (t : List Char) : trimEnd t = [] ↔ allBlank t = true :=
    List.reverse_eq_nil_iff.trans
      ((trimStart_eq_nil_iff t.reverse).trans (by simp [allBlank]))
  rw [trim, hrev]
  cases hs : trimStart s with
  | nil => simpa [allBlank] using (trimStart_eq_nil_iff s).1 hs
  | cons c r =>
    have hne : ¬ allBlank s = true := fun h ↦ by
      simp [(trimStart_eq_nil_iff s).2 h] at hs
    simp [allBlank, isBlank_head_trimStart hs] at hne ⊢
    exact hne

end Licensing.Text
