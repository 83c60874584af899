import Licensing.Program
import Licensing.Text.Blank

/-!
# Issuing licenses

A request for a license is checked field by field, in a fixed order, before anything is drawn or
stored (`IssueRequest.fault?`). A license that passes is stored under a new key and a new
identifier.
-/

namespace Licensing

/-- A request for a license. -/
structure IssueRequest where
  kind : String
  product : String
  customerName : Option String
  customerEmail : Option String
  metadata : Option Json
  expiresAt : Option Instant
  status : Option Status

namespace IssueRequest

/-- The first rule that the request breaks at a time: type and product must not be blank, metadata
must be an object, and the expiry must be later than now. -/
def fault? (request : IssueRequest) (now : Instant) : Option Failure :=
  if Text.allBlank request.kind.toList then some (.blankField "type")
  else if Text.allBlank request.product.toList then some (.blankField "product_name")
  else if request.metadata.any (!·.isObject) then some .metadataNotObject
  else if request.expiresAt.any (· ≤ now) then some .expiryNotInFuture
  else none

/-- The license asked for, active unless another status is asked for. -/
def toLicense (request : IssueRequest) (now : Instant) (key : String) (id : Uuid) : License :=
  { License.fresh now id key request.kind request.product (request.status.getD .active) with
    customerName := request.customerName
    customerEmail := request.customerEmail
    metadata := request.metadata
    expiresAt := request.expiresAt }

end IssueRequest

namespace License

/-- Issues a license. The key is an identifier's text, drawn before the identifier. -/
def issue (request : IssueRequest) : Operation License := do
  let now ← Operation.clock
  match request.fault? now with
  | some fault => throw fault
  | none =>
    let key ← Operation.freshId
    let id ← Operation.freshId
    Operation.call (.create (request.toLicense now key.toText id))

/-- The license of an identifier. -/
def fetch (id : Uuid) : Operation License := do
  match ← Operation.call (.findById id) with
  | some license => return license
  | none => throw (.licenseNotFound id)

/-- A page of licenses, of a size within bounds. -/
def browse (query : ListQuery) : Operation Page :=
  Operation.call (.list { query with limit := ListQuery.clampLimit (some query.limit) })

/-- Sets a status. -/
def assignStatus (id : Uuid) (status : Status) : Operation Unit :=
  Operation.call (.updateStatus id status)

/-- How many days ahead the dashboard looks. -/
def expiringSoonDays : Int := 30

/-- The dashboard of now. -/
def summary : Operation Dashboard := do
  let now ← Operation.clock
  Operation.call (.dashboard now (expiringSoonDays * 86400))

end License

end Licensing
