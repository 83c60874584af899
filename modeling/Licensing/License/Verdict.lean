import Licensing.License.Metadata

/-!
# Verdicts

The answer to an agent that asks whether it may run: `verdict` judges a request against the
license found under its key. The checks come in a fixed order and the first that fails gives the
reason: the license exists, it is for the product, its status is active, it has not expired, the
device fits, the user fits.
-/

namespace Licensing

/-- Why a license is valid or not. -/
inductive Reason
  | valid
  | notFound
  | productMismatch
  | pending
  | inactive
  | expired
  | revoked
  | deviceRequired
  | deviceMismatch
  | userRequired
  | userMismatch
  deriving DecidableEq, Inhabited

namespace Reason

/-- All reasons. -/
def all : List Reason :=
  [valid, notFound, productMismatch, pending, inactive, expired, revoked, deviceRequired,
    deviceMismatch, userRequired, userMismatch]

/-- The name of a reason. -/
def name : Reason → String
  | valid => "valid"
  | notFound => "not_found"
  | productMismatch => "product_mismatch"
  | pending => "pending"
  | inactive => "inactive"
  | expired => "expired"
  | revoked => "revoked"
  | deviceRequired => "device_id_required"
  | deviceMismatch => "device_id_mismatch"
  | userRequired => "user_id_required"
  | userMismatch => "user_id_mismatch"

/-- The reason of that name. -/
def ofName? (text : String) : Option Reason := all.find? (·.name == text)

/-- Why a license in a status is not valid; an active one may be. -/
def ofStatus? : Status → Option Reason
  | .active => none
  | .pending => some pending
  | .inactive => some inactive
  | .expired => some expired
  | .revoked => some revoked

end Reason

/-- An agent's question. -/
structure ValidationRequest where
  key : String
  product : String
  metadata : Option Json

/-- The answer: a license is valid exactly when the reason is `valid`. The license is the one
found, as it was read; `disclosed` is what the agent is told of its metadata. -/
structure Verdict where
  reason : Reason
  license : Option License
  disclosed : Option Json
  deriving DecidableEq

namespace Verdict

/-- Whether the license is valid. -/
def isValid (v : Verdict) : Bool := v.reason = .valid

/-- A verdict against the license found, if any. -/
def rejected (reason : Reason) (license : Option License) : Verdict := ⟨reason, license, none⟩

end Verdict

/-- Checks a binding: if the license's fields hold a non-empty string under the name, the agent
has to present the same. -/
def bindingFault? (fields : Option Json.Fields) (name : String) (presented : Option String)
    (required mismatch : Reason) : Option Reason :=
  match fields.bind (Json.Fields.nonEmptyString? · name) with
  | none => none
  | some bound =>
    match presented with
    | none => some required
    | some value => if value = bound then none else some mismatch

/-- The first check that a license found fails, by the agent's question and the time. -/
def License.fault? (license : License) (request : ValidationRequest) (now : Instant) :
    Option Reason :=
  let claims := Metadata.Claims.ofJson request.metadata
  let fields := license.metadataFields?
  if license.product ≠ request.product then some .productMismatch
  else
    (Reason.ofStatus? license.status).or <|
    (if license.isExpiredAt now then some .expired else none).or <|
    (bindingFault? fields Metadata.deviceId claims.deviceId .deviceRequired .deviceMismatch).or <|
    bindingFault? fields Metadata.userId claims.userId .userRequired .userMismatch

/-- The answer to a request, given the license found under its key. -/
def verdict (found : Option License) (request : ValidationRequest) (now : Instant) : Verdict :=
  match found with
  | none => .rejected .notFound none
  | some license =>
    match license.fault? request now with
    | some reason => .rejected reason (some license)
    | none => ⟨.valid, some license, Metadata.disclosure? license.metadataFields?⟩

end Licensing
