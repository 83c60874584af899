import Licensing.Failure
import Licensing.License.Listing
import Licensing.Text.Decimal
import Licensing.Text.Percent
import Licensing.Text.Split

/-!
# Query strings

A query is pieces with `&` between them, each a name and a value with `=` between them. In both,
`+` is a space and percent-encoding is undone; bytes that are no UTF-8 are replaced.
`ListingQuery.ofText?` reads the query of a listing, `ListingQuery.listing` brings it to a
`ListQuery`.
-/

namespace Licensing.Http

/-- Undoes the encoding of a name or value. -/
def decodeQueryPart (s : List Char) : String :=
  String.ofList <| Text.Utf8.decodeLossy <| Text.Percent.decode <|
    s.map fun c ↦ if c = '+' then ' ' else c

/-- The names and values of a query. Empty pieces are passed over, and a piece without `=` has an
empty value. -/
def queryPairs (query : String) : List (String × String) :=
  ((Text.segments '&' query.toList).filter (· ≠ [])).map fun piece ↦
    let (name, value) := (Text.cutFirst '=' piece).getD (piece, [])
    (decodeQueryPart name, decodeQueryPart value)

/-- A number below a bound, in digits with at most a plus sign before them. -/
def boundedNat? (bound : Nat) (text : String) : Option Nat :=
  let digits := (Text.after? ['+'] text.toList).getD text.toList
  (Text.Decimal.nat? digits).filter (· < bound)

/-- The query of a listing as it was sent. -/
structure ListingQuery where
  status : Option String := none
  customerEmail : Option String := none
  product : Option String := none
  kind : Option String := none
  limit : Option Nat := none
  offset : Option Nat := none
  sortBy : Option String := none
  sortOrder : Option String := none

namespace ListingQuery

/-- Takes one value in; none if it was there before or is no number where one is wanted. Names
that are not known are passed over. -/
def add? (query : ListingQuery) : String × String → Option ListingQuery
  | ("status", v) => fresh query.status { query with status := some v }
  | ("customer_email", v) => fresh query.customerEmail { query with customerEmail := some v }
  | ("product_name", v) => fresh query.product { query with product := some v }
  | ("type", v) => fresh query.kind { query with kind := some v }
  | ("limit", v) =>
    (boundedNat? (twoTo 32) v).bind fun n ↦ fresh query.limit { query with limit := some n }
  | ("offset", v) =>
    (boundedNat? (twoTo 64) v).bind fun n ↦ fresh query.offset { query with offset := some n }
  | ("sort_by", v) => fresh query.sortBy { query with sortBy := some v }
  | ("sort_order", v) => fresh query.sortOrder { query with sortOrder := some v }
  | _ => some query
where
  /-- The query after, unless there was a value before. -/
  fresh {α : Type} (before : Option α) (after : ListingQuery) : Option ListingQuery :=
    if before.isSome then none else some after

/-- Reads the query of a listing. -/
def ofText? (query : String) : Option ListingQuery := (queryPairs query).foldlM add? {}

/-- What to list, or why not. Empty values count as left out, and values that name no order ask
for the usual one. -/
def listing (query : ListingQuery) : Except Failure ListQuery := do
  let status ← match given query.status with
    | none => pure none
    | some text =>
      match Status.ofName? text with
      | some status => pure (some status)
      | none => throw (.invalidStatus text)
  let offset := query.offset.getD 0
  if ListQuery.maxOffset < offset then throw (.offsetTooLarge ListQuery.maxOffset)
  return {
    status
    customerEmail := given query.customerEmail
    product := given query.product
    kind := given query.kind
    limit := ListQuery.clampLimit query.limit
    offset
    sortBy := SortField.ofRequest query.sortBy
    sortOrder := SortOrder.ofRequest query.sortOrder }
where
  /-- The text, if there is one that is not empty. -/
  given (text : Option String) : Option String := text.filter (· ≠ "")

end ListingQuery

end Licensing.Http
