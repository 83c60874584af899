import Licensing.Crypto.Sha256
import Licensing.Text.Blank
import Licensing.Text.Split

/-!
# Credentials

An API key is written as a scheme, a public lookup part and a secret, with `_` between them. A
format fixes the scheme and the lengths; a key presented by an agent is trimmed and must fit the
format. Only the hash of a key is ever stored.
-/

namespace Licensing

/-- How keys are written. -/
structure CredentialFormat where
  scheme : String := "lm"
  lookupLength : Nat := 8
  secretLength : Nat := 32
  deriving DecidableEq, Inhabited

/-- Why a presented key was turned away. -/
inductive AuthFailure
  | missing
  | malformed
  | notFoundOrDisabled
  deriving DecidableEq

namespace AuthFailure

/-- The name of a cause. -/
def name : AuthFailure → String
  | missing => "missing"
  | malformed => "malformed"
  | notFoundOrDisabled => "not_found_or_disabled"

/-- What the agent is told. -/
def message : AuthFailure → String
  | missing => "API key is required"
  | malformed => "API key is malformed"
  | notFoundOrDisabled => "API key is invalid or disabled"

/-- Whether the agent is told that it is not allowed, rather than that it did not say who it is. -/
def isForbidden : AuthFailure → Bool
  | notFoundOrDisabled => true
  | _ => false

end AuthFailure

/-- A presented key that fits the format: the whole text and its lookup part. -/
structure Credential where
  raw : String
  lookup : String
  deriving DecidableEq

namespace CredentialFormat

/-- The character between the parts. -/
def delimiter : Char := '_'

/-- The key of a lookup part and a secret. -/
def assemble (format : CredentialFormat) (lookup secret : String) : String :=
  String.ofList
    (format.scheme.toList ++ delimiter :: (lookup.toList ++ delimiter :: secret.toList))

/-- A part of a key: one or more ASCII letters and digits. -/
def isPart (s : List Char) : Bool := s ≠ [] && s.all Char.isAlphanum

/-- Reads a presented key. The length of the lookup part is counted in bytes, which are its
characters since it is ASCII. -/
def parse (format : CredentialFormat) (text : String) : Except AuthFailure Credential :=
  let raw := Text.trim text.toList
  if raw = [] then .error .missing
  else match Text.segments delimiter raw with
    | [scheme, lookup, secret] =>
      if scheme = format.scheme.toList ∧ lookup.length = format.lookupLength ∧
          isPart lookup = true ∧ isPart secret = true then
        .ok ⟨String.ofList raw, String.ofList lookup⟩
      else .error .malformed
    | _ => .error .malformed

end CredentialFormat

/-- What is stored of a key. -/
def hashKey (key : String) : String := Crypto.sha256Hex key

/-- Compares two byte sequences, looking at every byte of both whatever the result: the
differences are gathered bit by bit. -/
def sameBytes (a b : List UInt8) : Bool :=
  a.length == b.length && ((a.zip b).foldl (fun seen (x, y) ↦ seen ||| (x ^^^ y)) 0) == 0

/-- Whether a key has the stored hash. -/
def verifyKey (key storedHash : String) : Bool :=
  sameBytes (Text.Utf8.encodeString (hashKey key)) (Text.Utf8.encodeString storedHash)

end Licensing
