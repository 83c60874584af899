import Licensing.Text.Decimal
import Licensing.Text.Hex
import Licensing.Text.Split

/-!
# Internet addresses

The written forms of IPv4 and IPv6 addresses. An IPv4 address is four numbers below 256 without
zeros in front. An IPv6 address is eight groups of one to four hexadecimal digits; two colons once
stand for one or more groups of zeros, and the last two groups may be written as an IPv4 address.
-/

namespace Licensing.Net

/-- An internet address: its bytes, four or sixteen. -/
inductive Address
  | v4 (bytes : List Nat)
  | v6 (groups : List Nat)
  deriving DecidableEq

namespace Address

/-- A number below 256, without zeros in front. -/
def octet? (s : List Char) : Option Nat :=
  if s.length ≤ 3 && (s.length = 1 || s.head? ≠ some '0') then
    (Text.Decimal.nat? s).filter (· < 256)
  else none

/-- The four numbers of an IPv4 address. -/
def v4? (s : List Char) : Option (List Nat) :=
  let parts := Text.segments '.' s
  if parts.length = 4 then parts.mapM octet? else none

/-- A group of an IPv6 address. -/
def group? (s : List Char) : Option Nat :=
  if s ≠ [] && s.length ≤ 4 then Text.Hex.value? s else none

/-- Groups with colons between them; the last may be an IPv4 address, which counts for two. -/
def groups? : List (List Char) → Option (List Nat)
  | [] => some []
  | [last] =>
    match v4? last with
    | some [a, b, c, d] => some [a * 256 + b, c * 256 + d]
    | _ => (group? last).map ([·])
  | part :: rest => do
    let group ← group? part
    return group :: (← groups? rest)

/-- What stands before and after the first two colons in a row. -/
def cutColons : List Char → Option (List Char × List Char)
  | ':' :: ':' :: rest => some ([], rest)
  | c :: rest => (cutColons rest).map fun (before, after) ↦ (c :: before, after)
  | [] => none

/-- The eight groups of an IPv6 address. -/
def v6? (s : List Char) : Option (List Nat) :=
  match cutColons s with
  | none => (groups? (Text.segments ':' s)).filter (·.length = 8)
  | some (before, after) => do
    let head ← parts before
    let tail ← parts after
    if before.contains '.' || 7 < head.length + tail.length then none
    else return head ++ List.replicate (8 - head.length - tail.length) 0 ++ tail
where
  /-- The groups of a text that may be empty. -/
  parts (s : List Char) : Option (List Nat) :=
    if s = [] then some [] else groups? (Text.segments ':' s)

/-- The address that a text spells. -/
def ofText? (s : List Char) : Option Address :=
  ((v4? s).map v4).or ((v6? s).map v6)

end Address

end Licensing.Net
