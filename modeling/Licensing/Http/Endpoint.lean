import Licensing.Http.Handler
import Licensing.Http.Query
import Licensing.Http.View
import Licensing.License.Amending
import Licensing.License.Validation

/-!
# Endpoints

What each route does by each method it has. Everything but the checks of health and the validation
of licenses is for operators; validation is for agents. Who asks is checked before what is asked.
-/

namespace Licensing.Http

/-- The version of the service. -/
def version : String := "0.1.0"

namespace Endpoint

open Handler (operator agent segment spelled perform)

/-! ### Health -/

/-- The service runs. -/
def health : Response :=
  .json 200 (.ofPairs [("status", .string "healthy"), ("version", .string version)])

/-- What a check of the license store found, as a response. -/
def readiness (healthy : Bool) : Response :=
  let status := Json.string (if healthy then "healthy" else "unhealthy")
  let check := Json.ofPresent [
    ("name", some (.string "license_store")),
    ("status", some status),
    ("message", if healthy then none else some (.string "License store unavailable")),
    ("latency_ms", some (.int 0))]
  .json (if healthy then 200 else 503) (.ofPairs [
    ("status", status), ("version", .string version), ("checks", .array [check]),
    ("latency_ms", .int 0)])

/-- The license store answers. -/
def ready : Program Response := do
  match ← (License.browse { limit := 1 }).run with
  | .ok _ => return readiness true
  | .error failure =>
    Program.perform (.log ⟨.warn, "Readiness probe failed", [("error", failure.message)]⟩)
    return readiness false

/-! ### Agents -/

/-- Answers an agent that asks whether a license is valid. -/
def validate (service : Service) (request : Request) : Handler Response := do
  let _ ← agent service request
  let question ← Handler.form request .validate
  let verdict ← perform (License.validate question)
  return .json 200 (View.verdict verdict)

/-! ### Licenses -/

/-- Lists licenses. -/
def listLicenses (service : Service) (request : Request) : Handler Response := do
  let _ ← operator service request
  match ListingQuery.ofText? request.query with
  | none => throw ⟨400, .text "Failed to deserialize query string"⟩
  | some query =>
    let listing ← perform (MonadExcept.ofExcept query.listing)
    let page ← perform (License.browse listing)
    return .json 200 (View.page listing page)

/-- Issues a license. -/
def issueLicense (service : Service) (request : Request) : Handler Response := do
  let _ ← operator service request
  let wanted ← Handler.form request .issue
  let license ← perform (License.issue wanted)
  return .json 201 (View.license license)

/-- Shows a license. -/
def showLicense (service : Service) (request : Request) (id : String) : Handler Response := do
  let _ ← operator service request
  let id ← segment id
  let id ← spelled Uuid.ofText? .invalidLicenseId id
  let license ← perform (License.fetch id)
  return .json 200 (View.license license)

/-- Amends a license. -/
def amendLicense (service : Service) (request : Request) (id : String) : Handler Response := do
  let _ ← operator service request
  let id ← segment id
  let amendment ← Handler.form request .amend
  let id ← spelled Uuid.ofText? .invalidLicenseId id
  let license ← perform (License.amend id amendment)
  return .json 200 (View.license license)

/-- Sets the status of a license. -/
def assignStatus (service : Service) (request : Request) (id : String) : Handler Response := do
  let _ ← operator service request
  let id ← segment id
  let status ← Handler.form request .status
  let id ← spelled Uuid.ofText? .invalidLicenseId id
  let status ← spelled Status.ofName? .invalidStatus status
  perform (License.assignStatus id status)
  return ⟨204, .none⟩

/-- Sums all licenses up. -/
def summary (service : Service) (request : Request) : Handler Response := do
  let _ ← operator service request
  let dashboard ← perform License.summary
  return .json 200 (View.dashboard dashboard)

/-! ### Keys -/

/-- Lists the API keys. -/
def listKeys (service : Service) (request : Request) : Handler Response := do
  let _ ← operator service request
  let keys ← perform ApiKey.browse
  return .json 200 (View.apiKeys keys)

/-- Creates an API key. -/
def createKey (service : Service) (request : Request) : Handler Response := do
  let _ ← operator service request
  let (description, productId) ← Handler.form request .createKey
  let created ← perform (ApiKey.create service.format description productId)
  return .json 201 (View.createdKey created)

/-- Revokes an API key. -/
def revokeKey (service : Service) (request : Request) (id : String) : Handler Response := do
  let _ ← operator service request
  let id ← segment id
  let id ← spelled Uuid.ofText? .invalidApiKeyId id
  perform (ApiKey.revoke id)
  return ⟨204, .none⟩

end Endpoint

/-- Whether a route is for operators. -/
def Route.forOperators : Route → Bool
  | licenses | license _ | licenseStatus _ | dashboard | apiKeys | apiKey _ => true
  | _ => false

/-- The endpoint of a route by a method, if the route has the method. -/
def Route.endpoint? (service : Service) (request : Request) :
    Route → Method → Option (Handler Response)
  | health, .get => some (return Endpoint.health)
  | ready, .get => some (ExceptT.lift Endpoint.ready)
  | live, .get => some (return ⟨200, .none⟩)
  | validation, .post => some (Endpoint.validate service request)
  | licenses, .get => some (Endpoint.listLicenses service request)
  | licenses, .post => some (Endpoint.issueLicense service request)
  | license id, .get => some (Endpoint.showLicense service request id)
  | license id, .patch => some (Endpoint.amendLicense service request id)
  | licenseStatus id, .patch => some (Endpoint.assignStatus service request id)
  | dashboard, .get => some (Endpoint.summary service request)
  | apiKeys, .get => some (Endpoint.listKeys service request)
  | apiKeys, .post => some (Endpoint.createKey service request)
  | apiKey id, .delete => some (Endpoint.revokeKey service request id)
  | _, _ => none

end Licensing.Http
