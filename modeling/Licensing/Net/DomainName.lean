import Licensing.Text.Punycode
import Licensing.Text.Split

/-!
# Names of domains

A name is labels with points between them. A label of letters, digits and inner hyphens can be
used as it is (`isHostName`). A name in other characters is first brought to such labels:
characters are mapped to their usual forms, and a label that is still not ASCII is written in
Punycode (`toAscii?`).
-/

namespace Licensing.Net.DomainName

/-- The greatest length of a label. -/
def maxLabel : Nat := 63

/-- One to 63 ASCII letters, digits and hyphens, with no hyphen at either end. -/
def isLabel (s : List Char) : Bool :=
  s ≠ [] && s.length ≤ maxLabel && s.all (fun c ↦ c.isAlphanum || c = '-') &&
    s.head? ≠ some '-' && s.getLast? ≠ some '-'

/-- Whether all labels of a name can be used as they are. -/
def isHostName (s : List Char) : Bool := (Text.segments '.' s).all isLabel

private def within (c : Char) (low high : Nat) : Bool := low ≤ c.toNat && c.toNat ≤ high

/-- Characters that may not stand in a name: controls, separators of lines and directions, private
and unassigned planes, and the replacement character. -/
def isDisallowed (c : Char) : Bool :=
  within c 0x80 0x9F || within c 0x200E 0x200F || within c 0x2028 0x202E ||
    within c 0x2061 0x2063 || within c 0x2066 0x206F || within c 0xE000 0xF8FF ||
    within c 0xFDD0 0xFDEF || within c 0xFFF9 0xFFFF || within c 0x40000 0x10FFFF

/-- Characters that leave no trace: the soft hyphen, invisible joints and selectors of variants. -/
def isIgnored (c : Char) : Bool :=
  c.toNat = 0xAD || c.toNat = 0x34F || c.toNat = 0x200B || c.toNat = 0x2060 || c.toNat = 0x2064 ||
    c.toNat = 0xFEFF || within c 0xFE00 0xFE0F || within c 0xE0100 0xE01EF

/-- Blanks other than the ASCII space count as one. -/
def isSpacing (c : Char) : Bool :=
  c.toNat = 0xA0 || within c 0x2000 0x200A || c.toNat = 0x202F || c.toNat = 0x205F ||
    c.toNat = 0x3000

/-- The usual form of a character that is allowed: lower case in the Latin, Greek and Cyrillic
blocks, an ASCII character for its full-width form, a point for the other full stops. -/
def usual (c : Char) : Char :=
  let n := c.toNat
  let shifted (distance : Nat) : Char := Char.ofNat (n + distance)
  if within c 0x41 0x5A then shifted 0x20
  else if c.toNat = 0x3002 || c.toNat = 0xFF0E || c.toNat = 0xFF61 then '.'
  else if within c 0xFF21 0xFF3A then Char.ofNat (n - 0xFF21 + 0x61)
  else if within c 0xFF01 0xFF5E then Char.ofNat (n - 0xFF01 + 0x21)
  else if isSpacing c then ' '
  else if (within c 0xC0 0xDE && n != 0xD7) || within c 0x391 0x3A9 || within c 0x410 0x42F then
    shifted 0x20
  else if within c 0x400 0x40F then shifted 0x50
  else if within c 0x100 0x12F && n % 2 = 0 then shifted 1
  else c

/-- Marks that combine with the character before them, and so cannot begin a label. -/
def isMark (c : Char) : Bool :=
  within c 0x300 0x36F || within c 0x483 0x489 || within c 0x591 0x5BD || within c 0x610 0x61A ||
    within c 0x64B 0x65F || within c 0x1AB0 0x1AFF || within c 0x1DC0 0x1DFF ||
    within c 0x20D0 0x20FF || within c 0x3099 0x309A || within c 0xFE20 0xFE2F

/-- A label in ASCII. -/
def label? (s : List Char) : Option (List Char) :=
  if s.all (·.toNat < 0x80) then some s
  else if s.head?.any isMark then none
  else some ("xn--".toList ++ Text.Punycode.encode s)

/-- The name in ASCII labels. -/
def toAscii? (s : List Char) : Option (List Char) :=
  if s.any isDisallowed then none
  else
    let mapped := (s.filter (!isIgnored ·)).map usual
    ((Text.segments '.' mapped).mapM label?).map (Text.joined ['.'])

end Licensing.Net.DomainName
