import Licensing.License.Basic
import Licensing.Powers

/-!
# Listing licenses

A listing picks the licenses that pass all given filters, puts them in a strict order and cuts a
page out. The order is by one field in either direction, with a missing value greater than any
present one, and by identifier, always ascending, among licenses that agree on the field. So the
order does not depend on how the licenses are stored, and the pages of one query fit together
without gap or overlap.
-/

namespace Licensing

/-- The fields that licenses can be ordered by. -/
inductive SortField
  | id
  | createdAt
  | updatedAt
  | expiresAt
  | issuedAt
  | customerName
  | customerEmail
  | product
  | kind
  | status
  deriving DecidableEq, Inhabited

namespace SortField

/-- All fields. -/
def all : List SortField :=
  [id, createdAt, updatedAt, expiresAt, issuedAt, customerName, customerEmail, product, kind,
    status]

/-- The name of a field. -/
def name : SortField → String
  | id => "id"
  | createdAt => "created_at"
  | updatedAt => "updated_at"
  | expiresAt => "expires_at"
  | issuedAt => "issued_at"
  | customerName => "customer_name"
  | customerEmail => "customer_email"
  | product => "product_name"
  | kind => "type"
  | status => "status"

/-- The field of that name. -/
def ofName? (text : String) : Option SortField := all.find? (·.name == text)

/-- The field asked for; the time of creation if none is, or one that is not known. -/
def ofRequest (text : Option String) : SortField := (text.bind ofName?).getD createdAt

end SortField

/-- The directions of an order. -/
inductive SortOrder
  | ascending
  | descending
  deriving DecidableEq, Inhabited

namespace SortOrder

/-- The keyword of a direction. -/
def name : SortOrder → String
  | ascending => "ASC"
  | descending => "DESC"

/-- The direction of that keyword, in letters of either case. -/
def ofName? (text : String) : Option SortOrder :=
  [ascending, descending].find? fun order ↦ order.name.toList == text.toList.map Char.toUpper

/-- The direction asked for; descending if none is, or one that is not known. -/
def ofRequest (text : Option String) : SortOrder := (text.bind ofName?).getD descending

/-- A comparison turned in the direction. -/
def apply : SortOrder → Ordering → Ordering
  | ascending, o => o
  | descending, o => o.swap

end SortOrder

/-- What to list: filters, the page, the order. -/
structure ListQuery where
  status : Option Status := none
  customerEmail : Option String := none
  product : Option String := none
  kind : Option String := none
  limit : Nat := 20
  offset : Nat := 0
  sortBy : SortField := .createdAt
  sortOrder : SortOrder := .descending
  deriving DecidableEq, Inhabited

/-- A page of licenses and the number of all that passed the filters. -/
structure Page where
  items : List License
  total : Nat
  deriving DecidableEq

namespace ListQuery

/-- The size of a page for which none is asked. -/
def defaultLimit : Nat := 20

/-- The largest size of a page. -/
def maxLimit : Nat := 100

/-- The largest offset a store can be asked for: the largest signed number of 64 bits. -/
def maxOffset : Nat := twoTo 63 - 1

/-- The size asked for, brought into bounds. -/
def clampLimit (requested : Option Nat) : Nat := min (max (requested.getD defaultLimit) 1) maxLimit

/-- The active licenses, the next to expire first. -/
def activeByExpiry (limit offset : Nat) : ListQuery :=
  { status := some .active, limit, offset, sortBy := .expiresAt, sortOrder := .ascending }

/-- Whether a license passes the filters. -/
def admits (query : ListQuery) (license : License) : Bool :=
  query.status.all (license.status = ·) &&
    query.customerEmail.all (license.customerEmail = some ·) &&
    query.product.all (license.product = ·) &&
    query.kind.all (license.kind = ·)

/-- Compares optional values, a missing one greater than any other. -/
def compareOptional {α : Type} (cmp : α → α → Ordering) : Option α → Option α → Ordering
  | some a, some b => cmp a b
  | some _, none => .lt
  | none, some _ => .gt
  | none, none => .eq

/-- Compares two licenses by a field. -/
def compareBy (field : SortField) (a b : License) : Ordering :=
  match field with
  | .id => Uuid.compare a.id b.id
  | .createdAt => Instant.compare a.createdAt b.createdAt
  | .updatedAt => Instant.compare a.updatedAt b.updatedAt
  | .expiresAt => compareOptional Instant.compare a.expiresAt b.expiresAt
  | .issuedAt => compareOptional Instant.compare a.issuedAt b.issuedAt
  | .customerName => compareOptional compare a.customerName b.customerName
  | .customerEmail => compareOptional compare a.customerEmail b.customerEmail
  | .product => compare a.product b.product
  | .kind => compare a.kind b.kind
  | .status => compare a.status.name b.status.name

/-- Compares two licenses in the order of the query. -/
def order (query : ListQuery) (a b : License) : Ordering :=
  (query.sortOrder.apply (compareBy query.sortBy a b)).then (Uuid.compare a.id b.id)

/-- All licenses that pass the filters, in order. -/
def select (query : ListQuery) (licenses : List License) : List License :=
  (licenses.filter query.admits).mergeSort fun a b ↦ (query.order a b).isLE

/-- The page asked for. -/
def page (query : ListQuery) (licenses : List License) : Page :=
  let selected := query.select licenses
  ⟨(selected.drop query.offset).take query.limit, selected.length⟩

end ListQuery

end Licensing
