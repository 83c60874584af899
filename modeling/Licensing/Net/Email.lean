import Licensing.Net.Address
import Licensing.Net.DomainName

/-!
# Addresses of electronic mail

An address is a local part and a domain, parted at the last `@`. The local part is in a fixed set
of ASCII characters; the domain is a name, which may have to be brought to ASCII first, or an
internet address in brackets.
-/

namespace Licensing.Net.Email

/-- The greatest length of a local part. -/
def maxLocal : Nat := 64

/-- The greatest length of a domain. -/
def maxDomain : Nat := 255

/-- The characters of a local part other than letters and digits. -/
def localMarks : List Char := ".!#$%&'*+/=?^_\x60\x7b|\x7d~-".toList

/-- Whether a text can be a local part. -/
def isLocal (s : List Char) : Bool :=
  s ≠ [] && s.length ≤ maxLocal && s.all fun c ↦ c.isAlphanum || localMarks.contains c

/-- Whether a text ends in an internet address in brackets. -/
def isLiteral (s : List Char) : Bool :=
  match s.reverse with
  | ']' :: rest => ((Text.cutFirst '[' rest).bind fun (inner, _) ↦
      Address.ofText? inner.reverse).isSome
  | _ => false

/-- Whether a text is a domain as it stands. -/
def isDomain (s : List Char) : Bool := DomainName.isHostName s || isLiteral s

/-- Whether a text is an address. -/
def isValid (text : String) : Bool :=
  match Text.cutLast '@' text.toList with
  | none => false
  | some (before, domain) =>
    isLocal before && domain.length ≤ maxDomain &&
      (isDomain domain || (DomainName.toAscii? domain).any isDomain)

end Licensing.Net.Email
