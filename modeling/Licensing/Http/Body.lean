import Licensing.Http.Problem
import Licensing.Json.Record
import Licensing.Text.Split
import Licensing.Text.Utf8

/-!
# Bodies of requests

A body must be announced as JSON, must not be too long, must be JSON, and must have the wanted
form; the first of these that fails gives the problem. `isJsonMedia` is the rule for the
announcement: a media type `application/json` or one that ends in `+json`, in letters of either
case, with parameters allowed.
-/

namespace Licensing.Http

/-! ### Media types -/

/-- The characters of the names in a media type. -/
def isToken (c : Char) : Bool := c.isAlphanum || "!#$%&'*+-.^_\x60|~".toList.contains c

/-- Takes a name and an equals sign off, after at most one space. -/
def dropParameterName (s : List Char) : Option (List Char) :=
  let s := (Text.after? [' '] s).getD s
  let name := s.takeWhile isToken
  match s.drop name.length with
  | '=' :: rest => if name = [] then none else some rest
  | _ => none

/-- Takes a value off: a name, up to a semicolon or the end, or a text in quotes, at the end. -/
def dropParameterValue : List Char → Option (List Char)
  | '"' :: s =>
    match Text.cutFirst '"' s with
    | some (_ :: _, []) => some []
    | _ => none
  | s =>
    let value := s.takeWhile isToken
    match s.drop value.length with
    | [] => some []
    | ';' :: rest => if value = [] then none else some rest
    | _ => none

/-- Whether a text is parameters with semicolons between them; `fuel` bounds their number. -/
def areParameters : Nat → List Char → Bool
  | 0, _ => false
  | fuel + 1, s =>
    match (dropParameterName s).bind dropParameterValue with
    | none => false
    | some [] => true
    | some rest => areParameters fuel rest

/-- Whether a media type is one of JSON. -/
def isJsonMedia (text : String) : Bool :=
  let s := text.toList.map Char.toLower
  let kind := s.takeWhile isToken
  match s.drop kind.length with
  | '/' :: rest =>
    let subkind := rest.takeWhile isToken
    let suffix := (Text.cutLast '+' subkind).filter (·.1 ≠ [])
    let proper := match rest.drop subkind.length with
      | [] => true
      | ';' :: parameters => subkind ≠ [] && areParameters (parameters.length + 1) parameters
      | _ => false
    proper && kind = "application".toList &&
      ((suffix.map (·.1)).getD subkind = "json".toList ||
        suffix.any (·.2 = "json".toList))
  | _ => false

example : isJsonMedia "application/json; charset=utf-8" = true ∧
    isJsonMedia "application/json5" = false := by
  decide +kernel

/-! ### Reading -/

/-- The greatest length of a body, in bytes. -/
def maxBody : Nat := 2 * 1024 * 1024

/-- Why a body was not taken. -/
inductive BodyFault
  | notJsonMedia
  | tooLong
  | malformed
  | mismatched
  deriving DecidableEq

namespace BodyFault

/-- The status of the response. -/
def status : BodyFault → Nat
  | notJsonMedia => 415
  | tooLong => 413
  | malformed => 400
  | mismatched => 422

/-- What the sender is told. -/
def message : BodyFault → String
  | notJsonMedia => "Missing Content-Type header. Expected 'application/json'."
  | tooLong => "Failed to read request body"
  | malformed => "Invalid JSON syntax"
  | mismatched => "Invalid JSON data"

/-- The problem. -/
def problem (fault : BodyFault) : Problem := ⟨fault.status, .validationError, fault.message, none⟩

end BodyFault

/-- Reads the body of a request. Bytes that are not UTF-8 are malformed, but what is wrong in front
of them is found first. -/
def Request.read {α : Type} (request : Request) (reader : Json.Reader α) : Except BodyFault α :=
  if !((request.header? "content-type").bind readable?).any isJsonMedia then .error .notJsonMedia
  else if maxBody < request.body.length then .error .tooLong
  else match Json.Reader.run reader (Text.Utf8.front request.body).1 with
    | .ok value =>
      if (Text.Utf8.front request.body).2 then .ok value else .error .malformed
    | .error .malformed => .error .malformed
    | .error .mismatched => .error .mismatched

end Licensing.Http
