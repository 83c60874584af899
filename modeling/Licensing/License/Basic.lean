import Licensing.Json.Basic
import Licensing.Time.Instant
import Licensing.Uuid

/-!
# Licenses

The record of a license, its statuses, and the changes it can undergo. Every change notes the time
(`touched`); no change touches the identifier, the key, the time of issue or the time of creation.
-/

namespace Licensing

/-- The statuses of a license. -/
inductive Status
  | pending
  | active
  | inactive
  | expired
  | revoked
  deriving DecidableEq, Inhabited

namespace Status

/-- All statuses. -/
def all : List Status := [pending, active, inactive, expired, revoked]

/-- The name of a status. -/
def name : Status → String
  | pending => "pending"
  | active => "active"
  | inactive => "inactive"
  | expired => "expired"
  | revoked => "revoked"

/-- The status of that name. -/
def ofName? (text : String) : Option Status := all.find? (·.name == text)

theorem mem_all (status : Status) : status ∈ all := by cases status <;> decide

theorem ofName?_name (status : Status) : ofName? status.name = some status := by
  cases status <;> decide

end Status

/-- A license. -/
structure License where
  id : Uuid
  key : String
  status : Status
  kind : String
  product : String
  customerName : Option String
  customerEmail : Option String
  metadata : Option Json
  issuedAt : Option Instant
  expiresAt : Option Instant
  createdAt : Instant
  updatedAt : Instant
  deriving Inhabited, DecidableEq

namespace License

/-- A new license. It counts as issued at once if it starts out active. -/
def fresh (now : Instant) (id : Uuid) (key kind product : String) (status : Status) : License where
  id := id
  key := key
  status := status
  kind := kind
  product := product
  customerName := none
  customerEmail := none
  metadata := none
  issuedAt := if status = .active then some now else none
  expiresAt := none
  createdAt := now
  updatedAt := now

/-- Whether the license has an expiry and it has passed: at the very moment of expiry it has not. -/
def isExpiredAt (license : License) (now : Instant) : Bool :=
  match license.expiresAt with
  | some expiry => expiry < now
  | none => false

/-- The fields of the metadata, if it is an object. -/
def metadataFields? (license : License) : Option Json.Fields := license.metadata.bind Json.fields?

/-- Notes the time of a change. -/
def touched (license : License) (now : Instant) : License := { license with updatedAt := now }

/-- Changes the status. -/
def withStatus (license : License) (status : Status) (now : Instant) : License :=
  { license with status, updatedAt := now }

/-- Changes the type. -/
def withKind (license : License) (kind : String) (now : Instant) : License :=
  { license with kind, updatedAt := now }

/-- Changes the product. -/
def withProduct (license : License) (product : String) (now : Instant) : License :=
  { license with product, updatedAt := now }

/-- Changes or clears the customer's name. -/
def withCustomerName (license : License) (name : Option String) (now : Instant) : License :=
  { license with customerName := name, updatedAt := now }

/-- Changes or clears the customer's address. -/
def withCustomerEmail (license : License) (email : Option String) (now : Instant) : License :=
  { license with customerEmail := email, updatedAt := now }

/-- Changes or clears the expiry. -/
def withExpiry (license : License) (expiry : Option Instant) (now : Instant) : License :=
  { license with expiresAt := expiry, updatedAt := now }

/-- Changes or clears the metadata. -/
def withMetadata (license : License) (metadata : Option Json) (now : Instant) : License :=
  { license with metadata, updatedAt := now }

theorem isExpiredAt_eq_true_iff (license : License) (now : Instant) :
    license.isExpiredAt now = true ↔ ∃ expiry, license.expiresAt = some expiry ∧ expiry < now := by
  unfold isExpiredAt
  cases license.expiresAt <;> simp

end License

end Licensing
