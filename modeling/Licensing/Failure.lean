import Licensing.Uuid

/-!
# Failures

What an operation can fail with: a kind and a detail. The kinds divide into those that a caller
can act on and those that tell of the machinery underneath (`isInfrastructure`); the detail of the
latter is for the log alone. The wording of every failure the library itself produces is in this
module.
-/

namespace Licensing

/-- The kinds of failure. -/
inductive FailureKind
  | notFound
  | validation
  | conflict
  | updateFailed
  | configuration
  | internal
  | storage
  deriving DecidableEq

namespace FailureKind

/-- The name of a kind. -/
def name : FailureKind → String
  | notFound => "NotFound"
  | validation => "Validation"
  | conflict => "Conflict"
  | updateFailed => "UpdateFailed"
  | configuration => "Configuration"
  | internal => "Internal"
  | storage => "Storage"

/-- The heading that a message of this kind starts with. -/
def heading : FailureKind → String
  | notFound => "Not found"
  | validation => "Validation error"
  | conflict => "Conflict"
  | updateFailed => "Update failed"
  | configuration => "Configuration error"
  | internal => "Internal error"
  | storage => "Storage error"

/-- Whether failures of this kind tell of the machinery rather than of the request. -/
def isInfrastructure : FailureKind → Bool
  | configuration => true
  | internal => true
  | storage => true
  | _ => false

end FailureKind

/-- A failure. -/
structure Failure where
  kind : FailureKind
  detail : String
  deriving DecidableEq

namespace Failure

/-- The whole message. -/
def message (failure : Failure) : String := failure.kind.heading ++ ": " ++ failure.detail

/-- Whether the failure tells of the machinery rather than of the request. -/
def isInfrastructure (failure : Failure) : Bool := failure.kind.isInfrastructure

/-! ### Requests that break a rule -/

/-- A field that must not be blank. -/
def blankField (name : String) : Failure := ⟨.validation, s!"{name} is required"⟩

/-- Metadata other than an object. -/
def metadataNotObject : Failure := ⟨.validation, "metadata must be a JSON object"⟩

/-- An expiry that is not later than now. -/
def expiryNotInFuture : Failure := ⟨.validation, "expires_at must be in the future"⟩

/-- A text that is no status. -/
def invalidStatus (text : String) : Failure := ⟨.validation, s!"Invalid license status '{text}'"⟩

/-- A text that is no identifier of a license. -/
def invalidLicenseId (text : String) : Failure := ⟨.validation, s!"Invalid license id '{text}'"⟩

/-- A text that is no identifier of an API key. -/
def invalidApiKeyId (text : String) : Failure := ⟨.validation, s!"Invalid API key id '{text}'"⟩

/-- An offset past the greatest one. -/
def offsetTooLarge (most : Nat) : Failure := ⟨.validation, s!"offset must not exceed {most}"⟩

/-- A token that was not accepted. -/
def invalidToken (reason : String) : Failure := ⟨.validation, s!"Invalid JWT: {reason}"⟩

/-! ### Records -/

/-- No license has the identifier. -/
def licenseNotFound (id : Uuid) : Failure := ⟨.notFound, s!"License '{id}' not found"⟩

/-- The license to change was there and then was not. -/
def licenseNotUpdated (id : Uuid) : Failure :=
  ⟨.updateFailed, s!"License '{id}' could not be updated"⟩

/-- Another license has the key. -/
def licenseKeyTaken : Failure := ⟨.conflict, "License key already exists"⟩

/-- Another license has the identifier. -/
def licenseIdTaken (id : Uuid) : Failure := ⟨.conflict, s!"License with id '{id}' already exists"⟩

/-- No API key has the identifier. -/
def apiKeyNotFound (id : Uuid) : Failure := ⟨.notFound, s!"API key '{id}' not found"⟩

/-- Another API key has the lookup part. -/
def apiKeyPrefixTaken (text : String) : Failure :=
  ⟨.conflict, s!"API key with prefix '{text}' already exists"⟩

/-- Another API key has the identifier. -/
def apiKeyIdTaken (id : Uuid) : Failure := ⟨.conflict, s!"API key with ID '{id}' already exists"⟩

/-! ### Machinery -/

/-- The random source ran dry. -/
def noRandomness : Failure := ⟨.internal, "random source exhausted"⟩

/-- The database pool is closed; `context` says what was attempted. -/
def closedPool (context : String) : Failure :=
  ⟨.storage, s!"{context}: attempted to acquire a connection on a closed pool"⟩

/-- No connection to the database; why, if that is known. -/
def noConnection (reason : Option String) : Failure :=
  ⟨.storage, "Failed to connect to PostgreSQL" ++ (reason.map (": " ++ ·)).getD ""⟩

/-! ### Jobs -/

/-- A job that would run without pause. -/
def zeroInterval (job : String) : Failure :=
  ⟨.configuration, s!"Job '{job}' must have a non-zero interval"⟩

/-- A second job of a name. -/
def jobRegistered (job : String) : Failure :=
  ⟨.configuration, s!"Job '{job}' is already registered"⟩

/-- A job that is not there. -/
def jobNotRegistered (job : String) : Failure := ⟨.notFound, s!"Job '{job}' is not registered"⟩

end Failure

end Licensing
