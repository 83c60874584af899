import Licensing.ApiKey.Store
import Licensing.License.Dashboard
import Licensing.License.Listing
import Licensing.License.Verdict
import Licensing.Time.Rfc3339

/-!
# Records as values

Licenses, verdicts, summaries and API keys as JSON objects with all their fields, `null` where
there is nothing. In reading, a field that is `null` and one that is left out are the same
wherever nothing may stand, and unknown fields are passed over. A license may also be given as the
list of its fields.
-/

namespace Licensing

/-! ### Parts -/

/-- A point of time as a value. -/
def Instant.toJson (t : Instant) : Json := .string (toString t)

/-- The point of time that a value spells. -/
def Instant.ofJson? (value : Json) : Option Instant := value.string?.bind Time.Rfc3339.ofText?

/-- An identifier as a value. -/
def Uuid.toJson (id : Uuid) : Json := .string id.toText

/-- The identifier that a value spells. -/
def Uuid.ofJson? (value : Json) : Option Uuid := value.string?.bind Uuid.ofText?

/-- The status that a value names. -/
def Status.ofJson? (value : Json) : Option Status := value.string?.bind Status.ofName?

namespace Json

variable {α : Type}

/-- What may not be there, as a value. -/
def ofOption (write : α → Json) : Option α → Json
  | some a => write a
  | none => null

/-- The truth value that a value is. -/
def bool? : Json → Option Bool
  | bool b => some b
  | _ => none

/-- The number below `2 ^ bits` that a value is. -/
def natural? (bits : Nat) : Json → Option Nat
  | int n => if 0 ≤ n && n < twoTo bits then some n.toNat else none
  | _ => none

/-- The items of a value that is a list, each read in the same way. -/
def items? (read : Json → Option α) : Json → Option (List α)
  | array items => items.mapM read
  | _ => none

/-- A field that has to be there. -/
def field? (value : Json) (name : String) (read : Json → Option α) : Option α :=
  (value.get? name).bind read

/-- A field in which nothing may stand. -/
def optionalField? (value : Json) (name : String) (read : Json → Option α) : Option (Option α) :=
  match value.get? name with
  | none => some none
  | some null => some none
  | some part => (read part).map some

end Json

/-! ### Licenses -/

namespace License

/-- The names of the fields, in the order of the list form. -/
def fieldNames : List String :=
  ["id", "license_key", "status", "type", "product_name", "customer_name", "customer_email",
    "metadata", "issued_at", "expires_at", "created_at", "updated_at"]

/-- The object of a license that may be given as the list of its fields. -/
def unlisted : Json → Json
  | .array items =>
    if items.length = fieldNames.length then .ofPairs (fieldNames.zip items) else .null
  | value => value

/-- A license as an object. -/
def toRecord (l : License) : Json := .ofPairs [
  ("id", l.id.toJson),
  ("license_key", .string l.key),
  ("status", .string l.status.name),
  ("type", .string l.kind),
  ("product_name", .string l.product),
  ("customer_name", .ofOption .string l.customerName),
  ("customer_email", .ofOption .string l.customerEmail),
  ("metadata", l.metadata.getD .null),
  ("issued_at", .ofOption Instant.toJson l.issuedAt),
  ("expires_at", .ofOption Instant.toJson l.expiresAt),
  ("created_at", l.createdAt.toJson),
  ("updated_at", l.updatedAt.toJson)]

/-- The license that a value holds. -/
def ofRecord? (value : Json) : Option License := do
  let value := unlisted value
  return {
    id := ← value.field? "id" Uuid.ofJson?
    key := ← value.field? "license_key" Json.string?
    status := ← value.field? "status" Status.ofJson?
    kind := ← value.field? "type" Json.string?
    product := ← value.field? "product_name" Json.string?
    customerName := ← value.optionalField? "customer_name" Json.string?
    customerEmail := ← value.optionalField? "customer_email" Json.string?
    metadata := ← value.optionalField? "metadata" some
    issuedAt := ← value.optionalField? "issued_at" Instant.ofJson?
    expiresAt := ← value.optionalField? "expires_at" Instant.ofJson?
    createdAt := ← value.field? "created_at" Instant.ofJson?
    updatedAt := ← value.field? "updated_at" Instant.ofJson? }

end License

namespace Page

/-- A page as an object. -/
def toRecord (page : Page) : Json :=
  .ofPairs [("items", .array (page.items.map License.toRecord)), ("total", .int page.total)]

/-- The page that a value holds. -/
def ofRecord? (value : Json) : Option Page := do
  let items ← value.field? "items" (Json.items? License.ofRecord?)
  let total ← value.field? "total" (Json.natural? 64)
  return ⟨items, total⟩

end Page

/-- Claims as an object. -/
def Metadata.Claims.toRecord (claims : Metadata.Claims) : Json := .ofPairs [
  (Metadata.deviceId, .ofOption .string claims.deviceId),
  (Metadata.userId, .ofOption .string claims.userId),
  (Metadata.ipAddress, .ofOption .string claims.ipAddress)]

/-- A verdict as an object, with all of the license it is on. -/
def Verdict.toRecord (v : Verdict) : Json := .ofPairs [
  ("is_valid", .bool v.isValid),
  ("reason", .string v.reason.name),
  ("license", .ofOption License.toRecord v.license),
  ("response_data", v.disclosed.getD .null)]

/-- Counts under the names of what is counted. -/
def Tally.toJson {κ : Type} [DecidableEq κ] (name : κ → String) (t : Tally κ) : Json :=
  .ofPairs (t.entries.map fun (key, n) ↦ (name key, .int n))

/-- The license that expires first, as an object. -/
def NextToExpire.toJson (next : NextToExpire) : Json := .ofPairs [
  ("licenseKey", .string next.key),
  ("expiresAt", next.expiresAt.toJson),
  ("productName", .string next.product)]

/-- A summary as an object; of the statuses those that occur. -/
def Dashboard.toRecord (d : Dashboard) : Json := .ofPairs [
  ("total", .int d.total),
  ("status_counts", d.statusCounts.toJson Status.name),
  ("type_counts", d.kindCounts.toJson id),
  ("product_counts", d.productCounts.toJson id),
  ("expiring_soon", .int d.expiringSoon),
  ("next_to_expire", .ofOption NextToExpire.toJson d.nextToExpire)]

/-! ### API keys -/

namespace ApiKey

/-- A key as an object. -/
def toRecord (key : ApiKey) : Json := .ofPairs [
  ("id", key.id.toJson),
  ("key_hash", .string key.hash),
  ("prefix", .string key.lookup),
  ("description", .string key.description),
  ("product_id", .ofOption Uuid.toJson key.productId),
  ("is_enabled", .bool key.isEnabled),
  ("created_at", key.createdAt.toJson),
  ("last_used_at", .ofOption Instant.toJson key.lastUsedAt)]

/-- The key that a value holds. In place of the hash there may be the full text. -/
def ofRecord? (value : Json) : Option ApiKey := do
  let hash := ((value.field? "full_key" Json.string?).map hashKey).or
    (value.field? "key_hash" Json.string?)
  return {
    id := ← value.field? "id" Uuid.ofJson?
    hash := ← hash
    lookup := ← value.field? "prefix" Json.string?
    description := ← value.field? "description" Json.string?
    productId := ← value.optionalField? "product_id" Uuid.ofJson?
    isEnabled := ← value.field? "is_enabled" Json.bool?
    createdAt := ← value.field? "created_at" Instant.ofJson?
    lastUsedAt := ← value.optionalField? "last_used_at" Instant.ofJson? }

end ApiKey

end Licensing
