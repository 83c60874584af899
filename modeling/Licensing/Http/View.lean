import Licensing.ApiKey.Keyring
import Licensing.License.Issuing
import Licensing.License.Verdict
import Licensing.Record

/-!
# Views

What responses tell of licenses, keys, verdicts and summaries, as JSON. What is not there is left
out. The hash of a key is in no view, and the full text of a key only in the view of its creation.
-/

namespace Licensing

namespace Http.View

/-- A license. -/
def license (l : License) : Json :=
  .ofPresent [
    ("id", some l.id.toJson),
    ("license_key", some (.string l.key)),
    ("status", some (.string l.status.name)),
    ("type", some (.string l.kind)),
    ("customer_name", l.customerName.map .string),
    ("customer_email", l.customerEmail.map .string),
    ("product_name", some (.string l.product)),
    ("metadata", l.metadata),
    ("issued_at", l.issuedAt.map (·.toJson)),
    ("expires_at", l.expiresAt.map (·.toJson)),
    ("created_at", some l.createdAt.toJson),
    ("updated_at", some l.updatedAt.toJson)]

/-- A page of licenses, with the query it answers. -/
def page (query : ListQuery) (p : Page) : Json :=
  .ofPairs [
    ("data", .array (p.items.map license)),
    ("pagination", .ofPairs [("total", .int p.total), ("limit", .int query.limit),
      ("offset", .int query.offset)])]

/-- A verdict. -/
def verdict (v : Verdict) : Json :=
  .ofPresent [
    ("is_valid", some (.bool v.isValid)),
    ("reason", some (.string v.reason.name)),
    ("status", v.license.map (.string ·.status.name)),
    ("expires_at", (v.license.bind (·.expiresAt)).map (·.toJson)),
    ("allowed_data", v.disclosed)]

/-- A summary. Every status is listed, also one that no license has. -/
def dashboard (d : Dashboard) : Json :=
  .ofPairs [
    ("totalLicenses", .int d.total),
    ("statusCounts", .ofPairs (Status.all.map fun status ↦
      (status.name, .int (d.statusCounts.count status)))),
    ("typeCounts", d.kindCounts.toJson id),
    ("productCounts", d.productCounts.toJson id),
    ("expiringSoon", .ofPresent [
      ("count", some (.int d.expiringSoon)),
      ("periodDays", some (.int License.expiringSoonDays)),
      ("nextToExpire", d.nextToExpire.map (·.toJson))])]

/-- A key just created. -/
def createdKey (created : ApiKey.Created) : Json :=
  let key := created.apiKey
  .ofPresent [
    ("id", some key.id.toJson),
    ("full_key", some (.string created.fullKey)),
    ("prefix", some (.string key.lookup)),
    ("description", some (.string key.description)),
    ("product_id", key.productId.map (·.toJson)),
    ("created_at", some key.createdAt.toJson)]

/-- A key. -/
def apiKey (key : ApiKey) : Json :=
  .ofPresent [
    ("id", some key.id.toJson),
    ("prefix", some (.string key.lookup)),
    ("description", some (.string key.description)),
    ("product_id", key.productId.map (·.toJson)),
    ("is_enabled", some (.bool key.isEnabled)),
    ("created_at", some key.createdAt.toJson),
    ("last_used_at", key.lastUsedAt.map (·.toJson))]

/-- All keys. -/
def apiKeys (keys : List ApiKey) : Json :=
  .ofPairs [("api_keys", .array (keys.map apiKey)), ("total", .int keys.length)]

end Http.View

end Licensing
