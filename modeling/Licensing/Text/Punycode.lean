import Licensing.Text.Decimal

/-!
# Punycode

RFC 3492: a text written with ASCII letters, digits and hyphens alone. The ASCII characters come
first, as they are; after a hyphen stand the other characters, in ascending order of their code
points, each as the distance to the one before it in digits of base 36 whose weights adapt to the
distances seen so far.
-/

namespace Licensing.Text.Punycode

/-- The digit for a value below 36: a letter, then a decimal digit. -/
def digit (n : Nat) : Char :=
  if n < 26 then Char.ofNat ('a'.toNat + n) else Char.ofNat ('0'.toNat + (n - 26))

/-- The threshold of the digit at weight position `k`. -/
def threshold (k bias : Nat) : Nat := min 26 (max 1 (k - bias))

theorem threshold_bounds (k bias : Nat) : 1 ≤ threshold k bias ∧ threshold k bias ≤ 26 := by
  unfold threshold
  omega

/-- Divides by 35 until at most 455 is left; the steps count 36 each. -/
def shrink (delta k : Nat) : Nat × Nat :=
  if 455 < delta then shrink (delta / 35) (k + 36) else (delta, k)
termination_by delta
decreasing_by omega

/-- The bias after a distance, when `points` characters have been written. -/
def adapt (delta points : Nat) (first : Bool) : Nat :=
  let delta := if first then delta / 700 else delta / 2
  let (delta, k) := shrink (delta + delta / points) 0
  k + 36 * delta / (delta + 38)

/-- The digits of a distance. -/
def distance (bias k q : Nat) : List Char :=
  let t := threshold k bias
  if q < t then [digit q]
  else digit (t + (q - t) % (36 - t)) :: distance bias (k + 36) ((q - t) / (36 - t))
termination_by q
decreasing_by
  have h := threshold_bounds k bias
  have := Nat.div_le_self (q - threshold k bias) (36 - threshold k bias)
  omega

/-- Where writing stands: the digits so far, the distance since the last character written, the
bias, and how many characters have been written. -/
structure Progress where
  written : List Char
  delta : Nat
  bias : Nat
  points : Nat

/-- Passes one character of the text while those of code point `m` are written. -/
def pass (basic m : Nat) (p : Progress) (c : Char) : Progress :=
  if c.toNat < m then { p with delta := p.delta + 1 }
  else if c.toNat = m then
    ⟨p.written ++ distance p.bias 36 p.delta, 0, adapt p.delta (p.points + 1) (p.points = basic),
      p.points + 1⟩
  else p

/-- Writes the characters of the code points given in ascending order; `n` is the first code point
that is still to come. -/
def writeAll (s : List Char) (basic : Nat) : List Nat → Nat → Progress → Progress
  | [], _, p => p
  | m :: rest, n, p =>
    let p := { p with delta := p.delta + (m - n) * (p.points + 1) }
    let p := s.foldl (pass basic m) p
    writeAll s basic rest (m + 1) { p with delta := p.delta + 1 }

/-- The written form. -/
def encode (s : List Char) : List Char :=
  let basic := s.filter (·.toNat < 0x80)
  let others := (s.filter (0x80 ≤ ·.toNat)).map Char.toNat
  let ordered := (others.mergeSort (· ≤ ·)).eraseReps
  let last := writeAll s basic.length ordered 0x80 ⟨[], 0, 72, basic.length⟩
  basic ++ (if basic = [] then [] else ['-']) ++ last.written

end Licensing.Text.Punycode
