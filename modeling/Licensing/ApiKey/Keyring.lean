import Licensing.Program

/-!
# API keys

Creating, listing and revoking API keys, and authenticating an agent by the key it presents. A key
is shown in full only by the operation that creates it. An agent whose key is unknown, disabled or
wrong is told the same.
-/

namespace Licensing

namespace ApiKey

/-- A key just created, with its full text. -/
structure Created where
  apiKey : ApiKey
  fullKey : String
  deriving DecidableEq

/-- Creates a key; the description must not be blank. -/
def create (format : CredentialFormat) (description : String) (productId : Option Uuid) :
    Operation Created := do
  if Text.allBlank description.toList then throw (.blankField "description")
  match ← ExceptT.lift (Program.perform (.drawKey format)) with
  | none => throw .noRandomness
  | some generated =>
    let id ← Operation.freshId
    let now ← Operation.clock
    let apiKey ← Operation.call (.createKey
      { id, hash := generated.hash, lookup := generated.lookup, description, productId,
        isEnabled := true, createdAt := now, lastUsedAt := none })
    return ⟨apiKey, generated.key⟩

/-- All keys, the newest first. -/
def browse : Operation (List ApiKey) := Operation.call .listKeys

/-- Disables a key for good. -/
def revoke (id : Uuid) : Operation Unit := Operation.call (.disableKey id)

end ApiKey

/-- How an authentication ends. -/
inductive AuthResult
  | accepted (holder : AuthenticatedKey)
  | rejected (cause : AuthFailure)
  | failed (failure : Failure)
  deriving DecidableEq

/-- What an authentication is counted as. -/
def AuthResult.outcome : AuthResult → AuthOutcome
  | accepted _ => .success
  | rejected cause => .rejected cause
  | failed _ => .error

namespace ApiKey

/-- Judges what an agent presents. The use of an accepted key is noted in the background. -/
def check (format : CredentialFormat) (presented : Option String) : Program AuthResult := do
  match presented with
  | none => return .rejected .missing
  | some text =>
    match format.parse text with
    | .error cause => return .rejected cause
    | .ok credential =>
      match ← Program.perform (.store (.findEnabledKey credential.lookup)) with
      | .error failure => return .failed failure
      | .ok none => return .rejected .notFoundOrDisabled
      | .ok (some key) =>
        if verifyKey credential.raw key.hash then
          Program.perform (.submit (.noteUse key.id))
          return .accepted key.holder
        else return .rejected .notFoundOrDisabled

/-- Judges what an agent presents and counts the outcome. -/
def authenticate (format : CredentialFormat) (presented : Option String) :
    Program AuthResult := do
  let result ← check format presented
  Program.perform (.count (.authentications result.outcome) 1)
  return result

end ApiKey

end Licensing
