import Licensing.ApiKey.Credential
import Licensing.Text.Base64Url

/-!
# Generating keys

The parts of a new key are drawn from a source of random bytes: blocks of as many bytes as the
part is long are written in base64url, and of the result only letters and digits are kept, block
after block, until there are enough. A source that runs dry before that gives no key.
-/

namespace Licensing

/-- A new key with its lookup part and its hash. -/
structure GeneratedKey where
  key : String
  lookup : String
  hash : String
  deriving DecidableEq, Inhabited

namespace GeneratedKey

/-- The key of given parts. -/
def ofParts (format : CredentialFormat) (lookup secret : String) : GeneratedKey :=
  let key := format.assemble lookup secret
  ⟨key, lookup, hashKey key⟩

/-- The letters and digits that a block of bytes yields. -/
def harvest (block : List UInt8) : List Char :=
  (Text.Base64Url.encode block).filter Char.isAlphanum

/-- Draws blocks of `size + 1` bytes until `length` characters are there; the first `length` of
them and what is left of the source. -/
def draw? (size length : Nat) (taken : List Char) (source : List UInt8) :
    Option (List Char × List UInt8) :=
  if length ≤ taken.length then some (taken.take length, source)
  else if source.length < size + 1 then none
  else draw? size length (taken ++ harvest (source.take (size + 1))) (source.drop (size + 1))
termination_by source.length
decreasing_by simp only [List.length_drop]; omega

/-- A part of a key and what is left of the source. -/
def part? (length : Nat) (source : List UInt8) : Option (String × List UInt8) :=
  (draw? (length - 1) length [] source).map fun (s, rest) ↦ (String.ofList s, rest)

/-- A new key and what is left of the source. -/
def generate? (format : CredentialFormat) (source : List UInt8) :
    Option (GeneratedKey × List UInt8) := do
  let (lookup, source) ← part? format.lookupLength source
  let (secret, source) ← part? format.secretLength source
  return (ofParts format lookup secret, source)

end GeneratedKey

end Licensing
