import Licensing.License.Sweep
import Licensing.Record
import Licensing.Stores

/-!
# Journals

What a service did, as values: the calls to its stores and what they left in them, the entries of
its log, the reports of its sweeps, and its counters, each counter under its name with its labels
in braces.
-/

namespace Licensing

/-- A query as an object. -/
def ListQuery.toJson (query : ListQuery) : Json := .ofPairs [
  ("status", .ofOption (fun status ↦ .string status.name) query.status),
  ("customer_email", .ofOption .string query.customerEmail),
  ("product_name", .ofOption .string query.product),
  ("type", .ofOption .string query.kind),
  ("limit", .int query.limit),
  ("offset", .int query.offset),
  ("sort_by", .string query.sortBy.name),
  ("sort_order", .string query.sortOrder.name)]

namespace StoreCall

/-- What a call is told: of a record only its identifier. -/
def arguments : StoreCall → List Json
  | create license => [license.id.toJson]
  | findById id => [id.toJson]
  | findByKey key => [.string key]
  | list query => [query.toJson]
  | updateStatus id status => [id.toJson, .string status.name]
  | updateMetadata id metadata => [id.toJson, metadata]
  | update edit => [edit.id.toJson]
  | dashboard now window => [now.toJson, .int window]
  | findEnabledKey lookup => [.string lookup]
  | createKey key => [key.id.toJson]
  | updateLastUsed id time => [id.toJson, time.toJson]
  | listKeys => []
  | disableKey id => [id.toJson]

/-- A call as its name and what it is told. -/
def toJson (call : StoreCall) : Json := .array [.string call.name, .array call.arguments]

end StoreCall

/-- All records in two stores, in the order of their identifiers. -/
def Stores.toJson (stores : Stores) : Json :=
  let licenses := stores.licenses.licenses.mergeSort fun a b ↦ (Uuid.compare a.id b.id).isLE
  let keys := stores.keys.keys.mergeSort fun a b ↦ (Uuid.compare a.id b.id).isLE
  .ofPairs [
    ("licenses", .array (licenses.map License.toRecord)),
    ("api_keys", .array (keys.map ApiKey.toRecord))]

/-- An entry of the log as its level, its message and its fields. -/
def LogEntry.toJson (entry : LogEntry) : Json := .array [
  .string entry.level.name,
  .string entry.message,
  .ofPairs (entry.fields.map fun (name, value) ↦ (name, .string value))]

/-- A counter in words. -/
def Counter.text (counter : Counter) : String :=
  let (name, labels) := counter.labelled
  let pairs := labels.map fun (label, value) ↦ label ++ "=" ++ value
  name ++ "\x7b" ++ ",".intercalate pairs ++ "\x7d"

/-- Counts as an object. -/
def Metrics.toJson (metrics : Metrics) : Json :=
  Tally.toJson Counter.text metrics

/-- What a sweep did, as an object. -/
def Sweep.Report.toJson (report : Sweep.Report) : Json := .ofPairs [
  ("trigger", .string report.trigger.name),
  ("pages", .int report.pages),
  ("scanned", .int report.scanned),
  ("expired", .int report.expired),
  ("failed", .int report.failed)]

end Licensing
