/-!
# UTF-8

Texts as bytes and back. Reading goes character by character: `next` takes one character, or the
longest piece that no continuation could have completed. A strict reading (`decode?`) refuses such a
piece, a lenient one (`decodeLossy`) puts the replacement character in its place, and one that goes
as far as it can (`front`) ends in front of it.
-/

namespace Licensing.Text.Utf8

/-- The bytes of a text. -/
def encode (s : List Char) : List UInt8 := s.flatMap String.utf8EncodeChar

/-- The bytes of a string. -/
def encodeString (s : String) : List UInt8 := encode s.toList

/-- A continuation byte: `10xxxxxx`. -/
def isTail (b : UInt8) : Bool := 0x80 ≤ b && b ≤ 0xBF

/-- The range that the second byte must lie in and the number of bytes after the first, by the first
byte of a character of more than one byte. The ranges rule out overlong forms, surrogates and code
points past U+10FFFF. -/
def lead (b : UInt8) : Option (UInt8 × UInt8 × Nat) :=
  if 0xC2 ≤ b && b ≤ 0xDF then some (0x80, 0xBF, 1)
  else if b == 0xE0 then some (0xA0, 0xBF, 2)
  else if b == 0xED then some (0x80, 0x9F, 2)
  else if 0xE1 ≤ b && b ≤ 0xEF then some (0x80, 0xBF, 2)
  else if b == 0xF0 then some (0x90, 0xBF, 3)
  else if 0xF1 ≤ b && b ≤ 0xF3 then some (0x80, 0xBF, 3)
  else if b == 0xF4 then some (0x80, 0x8F, 3)
  else none

/-- The bits that a continuation byte carries. -/
def payload (b : UInt8) : Nat := b.toNat % 64

/-- One character from the front, or `none` for a piece that cannot be read; beside it, how many
bytes after the first one were used up. -/
def next (b : UInt8) (rest : List UInt8) : Option Char × Nat :=
  if b < 0x80 then (some (Char.ofNat b.toNat), 0)
  else match lead b with
    | none => (none, 0)
    | some (low, high, tails) =>
      match rest with
      | [] => (none, 0)
      | c :: rest =>
        if !(low ≤ c && c ≤ high) then (none, 0)
        else if tails == 1 then (some (Char.ofNat ((b.toNat % 32) * 64 + payload c)), 1)
        else match rest with
          | [] => (none, 1)
          | d :: rest =>
            if !isTail d then (none, 1)
            else if tails == 2 then
              (some (Char.ofNat ((b.toNat % 16) * 4096 + payload c * 64 + payload d)), 2)
            else match rest with
              | [] => (none, 2)
              | e :: _ =>
                if !isTail e then (none, 2)
                else
                  (some (Char.ofNat ((b.toNat % 8) * 262144 + payload c * 4096 + payload d * 64 +
                    payload e)), 3)

/-- All pieces in order, `none` for each one that cannot be read. -/
def pieces : List UInt8 → List (Option Char)
  | [] => []
  | b :: rest =>
    let (piece, used) := next b rest
    piece :: pieces (rest.drop used)
termination_by bytes => bytes.length
decreasing_by simp only [List.length_drop, List.length_cons]; omega

/-- The text, if the bytes are UTF-8 throughout. -/
def decode? (bytes : List UInt8) : Option (List Char) := (pieces bytes).mapM id

/-- The text with U+FFFD in place of each unreadable piece. -/
def decodeLossy (bytes : List UInt8) : List Char := (pieces bytes).map (·.getD '\uFFFD')

/-- The text up to the first piece that cannot be read, after what has been read so far, the last
character first; beside it, whether that is everything. -/
def frontAfter (read : List Char) : List UInt8 → List Char × Bool
  | [] => (read.reverse, true)
  | b :: rest =>
    match next b rest with
    | (none, _) => (read.reverse, false)
    | (some c, used) => frontAfter (c :: read) (rest.drop used)
termination_by bytes => bytes.length
decreasing_by simp only [List.length_drop, List.length_cons]; omega

/-- The text up to the first piece that cannot be read, and whether that is everything. -/
def front (bytes : List UInt8) : List Char × Bool := frontAfter [] bytes

end Licensing.Text.Utf8
