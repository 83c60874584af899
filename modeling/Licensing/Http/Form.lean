import Licensing.ApiKey.Keyring
import Licensing.Http.Problem
import Licensing.Json.Record
import Licensing.License.Amending
import Licensing.License.Issuing
import Licensing.Net.Email
import Licensing.Time.Rfc3339

/-!
# Forms

What the bodies of requests hold, how they are read, and the rules their fields have to keep
before anything else is looked at: texts that must not be empty, and addresses that must be ones.
All rules are checked and all that are broken are reported (`Violation.problem?`).
-/

namespace Licensing.Http

/-! ### Rules -/

/-- A rule that a field breaks. -/
structure Violation where
  field : String
  code : String
  message : String
  params : List (String × Json)

namespace Violation

/-- A text that must not be empty. -/
def ofEmpty (field message : String) (text : String) : List Violation :=
  if text = "" then [⟨field, "length", message, [("min", .int 1), ("value", .string text)]⟩] else []

/-- An address of electronic mail, if one is given. -/
def ofEmail (field : String) (text : Option String) : List Violation :=
  match text with
  | some text =>
    if Net.Email.isValid text then []
    else [⟨field, "email", s!"{field} must be a valid email", [("value", .string text)]⟩]
  | none => []

/-- What is told of a violation. -/
def toJson (violation : Violation) : Json :=
  .ofPairs [("code", .string violation.code), ("message", .string violation.message),
    ("params", .ofPairs violation.params)]

/-- The problem of violations, under the names of their fields, if there are any. -/
def problem? (violations : List Violation) : Option Problem :=
  if violations.isEmpty then none
  else
    let details := Json.ofPairs (violations.map fun violation ↦
      (violation.field, .array ((violations.filter (·.field = violation.field)).map toJson)))
    some { Problem.of .validationError "Request validation failed" with details }

end Violation

/-! ### Fields -/

namespace Field

/-- A text that may be left out. -/
def text : Json.Reader (Option String) := .optional Json.Reader.string

/-- A time that may be left out. -/
def time : Json.Reader (Option Instant) := .optional (.spelled Time.Rfc3339.ofText?)

/-- An identifier that may be left out. -/
def id : Json.Reader (Option Uuid) := .optional (.spelled Uuid.ofText?)

/-- A status that may be left out. -/
def status : Json.Reader (Option Status) := .optional (.word Status.ofName?)

/-- Any value, with `null` for none. -/
def any : Json.Reader (Option Json) := .optional (.value (Json.Reader.maxDepth - 1))

end Field

/-! ### Forms -/

/-- A form: the fields it is read from, what it is before any is read, and the rules it breaks. -/
structure Form (α : Type) where
  slots : List (Json.Slot α)
  blank : α
  violations : α → List Violation

namespace Form

/-- Reads a form. -/
def reader {α : Type} (form : Form α) : Json.Reader α := .record form.slots form.blank

/-- The form to issue a license. -/
def issue : Form IssueRequest where
  slots := [
    .needed "type" Json.Reader.string fun v r ↦ { r with kind := v },
    .needed "product_name" Json.Reader.string fun v r ↦ { r with product := v },
    .defaulted "customer_name" Field.text fun v r ↦ { r with customerName := v },
    .defaulted "customer_email" Field.text fun v r ↦ { r with customerEmail := v },
    .defaulted "metadata" Field.any fun v r ↦ { r with metadata := v },
    .defaulted "expires_at" Field.time fun v r ↦ { r with expiresAt := v },
    .defaulted "initial_status" Field.status fun v r ↦ { r with status := v }]
  blank := ⟨"", "", none, none, none, none, none⟩
  violations r :=
    Violation.ofEmpty "license_type" "type is required" r.kind ++
      Violation.ofEmpty "product_name" "product_name is required" r.product ++
      Violation.ofEmail "customer_email" r.customerEmail

/-- The form to amend a license. -/
def amend : Form Amendment where
  slots := [
    .defaulted "type" Field.text fun v r ↦ { r with kind := v },
    .defaulted "product_name" Field.text fun v r ↦ { r with product := v },
    .defaulted "customer_name" Field.text fun v r ↦ { r with customerName := v },
    .defaulted "customer_email" Field.text fun v r ↦ { r with customerEmail := v },
    .defaulted "expires_at" Field.time fun v r ↦ { r with expiresAt := v },
    .defaulted "metadata" Field.any fun v r ↦ { r with metadata := v }]
  blank := {}
  violations r :=
    (r.kind.toList.flatMap (Violation.ofEmpty "license_type" "type must not be empty")) ++
      (r.product.toList.flatMap (Violation.ofEmpty "product_name" "product_name must not be empty")) ++
      Violation.ofEmail "customer_email" r.customerEmail

/-- The form to set a status. -/
def status : Form String where
  slots := [.needed "status" Json.Reader.string fun v _ ↦ v]
  blank := ""
  violations := Violation.ofEmpty "status" "status is required"

/-- The form to ask whether a license is valid. -/
def validate : Form ValidationRequest where
  slots := [
    .needed "license_key" Json.Reader.string fun v r ↦ { r with key := v },
    .needed "product_name" Json.Reader.string fun v r ↦ { r with product := v },
    .defaulted "metadata" Field.any fun v r ↦ { r with metadata := v }]
  blank := ⟨"", "", none⟩
  violations r :=
    Violation.ofEmpty "license_key" "license_key is required" r.key ++
      Violation.ofEmpty "product_name" "product_name is required" r.product

/-- The form to create an API key: its description and the product it is for. -/
def createKey : Form (String × Option Uuid) where
  slots := [
    .needed "description" Json.Reader.string fun v r ↦ (v, r.2),
    .defaulted "product_id" Field.id fun v r ↦ (r.1, v)]
  blank := ("", none)
  violations r := Violation.ofEmpty "description" "description is required" r.1

end Form

end Licensing.Http
