import Licensing.Program

/-!
# Validating licenses

An agent's request is judged against the license found under its key (`Licensing.verdict`). The
request itself writes nothing. What there is to write is left to a task in the background: a
license that was active and turns out overdue is to be expired, and an acceptance is to be noted
in the metadata.
-/

namespace Licensing

/-- The task that a request leaves behind, if any. -/
def followUp? (found : Option License) (request : ValidationRequest) (now : Instant) :
    Option Task :=
  match found with
  | none => none
  | some license =>
    if license.product ≠ request.product ∨ license.status ≠ .active then none
    else if license.isExpiredAt now then some (.expire license.id)
    else if (license.fault? request now).isSome then none
    else
      let ip := (Metadata.Claims.ofJson request.metadata).ipAddress
      let enriched := Metadata.enriched license.metadata now ip
      if license.metadata = some enriched then none else some (.enrich license.id enriched)

/-- Answers a request. -/
def License.validate (request : ValidationRequest) : Operation Verdict := do
  let found ← Operation.call (.findByKey request.key)
  let now ← Operation.clock
  match followUp? found request now with
  | some task => Operation.submit task
  | none => pure ()
  let answer := verdict found request now
  Operation.count (.validations answer.reason) 1
  return answer

end Licensing
