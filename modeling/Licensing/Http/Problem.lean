import Licensing.ApiKey.Credential
import Licensing.Failure
import Licensing.Http.Message

/-!
# Problems

The error bodies of responses: a code that a program can act on, a message, and perhaps details.
Failures of the machinery are told to the outside under one message only (`ofFailure`); their own
words are for the log.
-/

namespace Licensing.Http

/-- The codes of problems. -/
inductive ProblemCode
  | validationError
  | unauthenticated
  | forbidden
  | notFound
  | conflict
  | updateFailed
  | internalError
  | serviceUnavailable
  deriving DecidableEq

namespace ProblemCode

/-- The name of a code. -/
def name : ProblemCode → String
  | validationError => "VALIDATION_ERROR"
  | unauthenticated => "UNAUTHENTICATED"
  | forbidden => "FORBIDDEN"
  | notFound => "NOT_FOUND"
  | conflict => "CONFLICT"
  | updateFailed => "UPDATE_FAILED"
  | internalError => "INTERNAL_ERROR"
  | serviceUnavailable => "SERVICE_UNAVAILABLE"

/-- The status that goes with a code. -/
def status : ProblemCode → Nat
  | validationError => 400
  | unauthenticated => 401
  | forbidden => 403
  | notFound => 404
  | conflict => 409
  | updateFailed => 500
  | internalError => 500
  | serviceUnavailable => 503

end ProblemCode

/-- A problem. -/
structure Problem where
  status : Nat
  code : ProblemCode
  message : String
  details : Option Json := none
  deriving DecidableEq

namespace Problem

/-- The problem of a code, with the status that goes with it. -/
def of (code : ProblemCode) (message : String) : Problem := ⟨code.status, code, message, none⟩

/-- What the outside is told of a failure of the machinery. -/
def internalMessage : String := "An internal error occurred"

/-- The code for a kind of failure. -/
def codeOf : FailureKind → ProblemCode
  | .notFound => .notFound
  | .validation => .validationError
  | .conflict => .conflict
  | .updateFailed => .updateFailed
  | _ => .internalError

/-- The problem that a failure becomes. -/
def ofFailure (failure : Failure) : Problem :=
  of (codeOf failure.kind) (if failure.isInfrastructure then internalMessage else failure.detail)

/-- The problem of an agent that was turned away. -/
def ofAuthFailure (cause : AuthFailure) : Problem :=
  of (if cause.isForbidden then .forbidden else .unauthenticated) cause.message

/-- The code and the message. -/
def text (problem : Problem) : String := problem.code.name ++ ": " ++ problem.message

/-- What a response carries. -/
def body (problem : Problem) : Json :=
  .ofPairs [("error", .ofPresent [
    ("code", some (.string problem.code.name)),
    ("message", some (.string problem.message)),
    ("details", problem.details)])]

/-- The response. -/
def response (problem : Problem) : Response := .json problem.status problem.body

end Problem

end Licensing.Http
