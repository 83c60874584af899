import Licensing.Http.Message
import Licensing.Text.Percent
import Licensing.Text.Split

/-!
# Routes

The places that a path can lead to. A path leads to a place only if it matches segment by segment,
as written: there is no tolerance for a slash at the end or for encoded letters. A segment that
stands for an identifier is any text, and a fixed segment goes before it. At the end of a path the
router takes no empty segment for an identifier, but between two slashes it does.

`template` is the path of a route with placeholders for identifiers, under which requests are
logged and counted.
-/

namespace Licensing.Http

/-- The places. -/
inductive Route
  | health
  | ready
  | live
  | validation
  | licenses
  | license (id : String)
  | licenseStatus (id : String)
  | dashboard
  | apiKeys
  | apiKey (id : String)
  deriving DecidableEq

namespace Route

/-- Where a list of segments leads. -/
def ofSegments? : List String → Option Route
  | ["health"] => some health
  | ["ready"] => some ready
  | ["live"] => some live
  | ["api", "v1", "licenses", "validate"] => some validation
  | ["api", "v1", "licenses"] => some licenses
  | ["api", "v1", "licenses", id] => if id = "" then none else some (license id)
  | ["api", "v1", "licenses", id, "status"] => some (licenseStatus id)
  | ["api", "v1", "dashboard", "summary"] => some dashboard
  | ["api", "v1", "api-keys"] => some apiKeys
  | ["api", "v1", "api-keys", id] => if id = "" then none else some (apiKey id)
  | _ => none

/-- Where a path leads. -/
def ofPath? (path : String) : Option Route :=
  match (Text.segments '/' path.toList).map String.ofList with
  | "" :: segments => ofSegments? segments
  | _ => none

example : ofPath? "/api/v1/licenses/" = none ∧
    ofPath? "/api/v1/licenses//status" = some (licenseStatus "") := by
  decide +kernel

/-- The path of a route, with placeholders for identifiers. -/
def template : Route → String
  | health => "/health"
  | ready => "/ready"
  | live => "/live"
  | validation => "/api/v1/licenses/validate"
  | licenses => "/api/v1/licenses"
  | license _ => "/api/v1/licenses/\x7bid\x7d"
  | licenseStatus _ => "/api/v1/licenses/\x7bid\x7d/status"
  | dashboard => "/api/v1/dashboard/summary"
  | apiKeys => "/api/v1/api-keys"
  | apiKey _ => "/api/v1/api-keys/\x7bid\x7d"

end Route

/-- The text that a segment of a path stands for, if it is one. -/
def decodeSegment? (segment : String) : Option String :=
  (Text.Utf8.decode? (Text.Percent.decode segment.toList)).map String.ofList

end Licensing.Http
