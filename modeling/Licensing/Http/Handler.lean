import Licensing.Http.Body
import Licensing.Http.Form
import Licensing.Http.Route
import Licensing.Token.Verification

/-!
# Handlers

A handler is a program that answers a request, or is cut short by a response that refuses it. Here
are the steps that handlers are made of: knowing the operator or the agent who asks, reading the
path and the body, and performing an operation.
-/

namespace Licensing.Http

/-- What there is to know of the service in order to answer: how keys are written, what tokens are
checked against, and where its metrics are shown, if anywhere. -/
structure Service where
  format : CredentialFormat := {}
  policy : Token.Policy := ⟨none, none, none⟩
  metricsPage : Option String := none

/-- Answers with a value, or with a response that refuses the request. -/
abbrev Handler (α : Type) := ExceptT Response Program α

namespace Handler

/-- Refuses the request. -/
def refuse {α : Type} (problem : Problem) : Handler α := throw problem.response

/-- The log entry for a failure of the machinery. -/
def machineryFailed (failure : Failure) : LogEntry :=
  ⟨.error, "Request failed with infrastructure error", [("error", failure.message)]⟩

/-- Refuses the request for a failure. Failures of the machinery are logged. -/
def fail {α : Type} (failure : Failure) : Handler α := do
  if failure.isInfrastructure then
    ExceptT.lift (Program.perform (.log (machineryFailed failure)))
  refuse (.ofFailure failure)

/-- Performs an operation. -/
def perform {α : Type} (operation : Operation α) : Handler α := do
  match ← ExceptT.lift operation.run with
  | .ok value => return value
  | .error failure => fail failure

/-! ### Who asks -/

/-- The token that a request bears. -/
def bearerToken? (request : Request) : Option (List Char) := do
  let value ← request.header? "authorization"
  let text ← readable? value
  let token ← Text.after? "Bearer ".toList text.toList
  let token := Text.trim token
  if token = [] then none else return token

/-- The operator who asks. -/
def operator (service : Service) (request : Request) : Handler Token.Claims := do
  match bearerToken? request with
  | none => refuse (.of .unauthenticated "Operator token required")
  | some token =>
    let now ← ExceptT.lift (Program.perform .clock)
    match Token.verify service.policy now.second token with
    | .ok claims => return claims
    | .error _ => refuse (.of .unauthenticated "Invalid or expired operator token")

/-- Whether the check of the token that a request bears breaks off at a reading of the clock. -/
def breaksOff (service : Service) (request : Request) (now : Instant) : Bool :=
  match bearerToken? request with
  | none => false
  | some token =>
    match Token.verify service.policy now.second token with
    | .error .clockTooEarly => true
    | _ => false

/-- The agent who asks. A key that cannot be read is malformed, and is not counted. -/
def agent (service : Service) (request : Request) : Handler AuthenticatedKey := do
  let presented ← match request.header? "x-api-key" with
    | none => pure none
    | some value =>
      match readable? value with
      | some text => pure (some text)
      | none => refuse (.ofAuthFailure .malformed)
  match ← ExceptT.lift (ApiKey.authenticate service.format presented) with
  | .accepted holder => return holder
  | .rejected cause => refuse (.ofAuthFailure cause)
  | .failed failure => fail failure

/-! ### What is asked -/

/-- The text of a segment of the path. -/
def segment (encoded : String) : Handler String :=
  match decodeSegment? encoded with
  | some text => return text
  | none => throw ⟨400, .text "Invalid URL"⟩

/-- The form in the body, with all its rules kept. -/
def form {α : Type} (request : Request) (form : Form α) : Handler α :=
  match request.read form.reader with
  | .error fault => refuse fault.problem
  | .ok value =>
    match Violation.problem? (form.violations value) with
    | some problem => refuse problem
    | none => return value

/-- The value that a text spells, or a failure. -/
def spelled {α : Type} (parse : String → Option α) (failure : String → Failure) (text : String) :
    Handler α :=
  match parse text with
  | some value => return value
  | none => fail (failure text)

end Handler

end Licensing.Http
