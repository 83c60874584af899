import Licensing.ApiKey.Credential
import Licensing.License.Dashboard
import Licensing.License.Verdict
import Licensing.Metrics.PathLabel

/-!
# Counters

What the service counts: requests by method, path label and status, validations by reason,
expirations by what brought them about, authentications by outcome, and background tasks that
found no room.
-/

namespace Licensing

/-- What brought an expiration about: a validation that met an overdue license, the sweep at
start, or a sweep by schedule. -/
inductive ExpirationSource
  | lazy
  | startup
  | scheduled
  deriving DecidableEq

/-- The name of a source. -/
def ExpirationSource.name : ExpirationSource → String
  | lazy => "lazy"
  | startup => "startup"
  | scheduled => "scheduled"

/-- How an authentication ended. -/
inductive AuthOutcome
  | success
  | rejected (cause : AuthFailure)
  | error
  deriving DecidableEq

/-- The name of an outcome. -/
def AuthOutcome.name : AuthOutcome → String
  | success => "success"
  | rejected cause => cause.name
  | error => "error"

/-- The labels of a request. -/
structure RequestLabels where
  method : String
  path : String
  status : Nat
  deriving DecidableEq

/-- The labels of a request by its raw path. -/
def RequestLabels.ofRequest (method path : String) (status : Nat) : RequestLabels :=
  ⟨method, PathLabel.ofPath path, status⟩

/-- A counter. -/
inductive Counter
  | requests (labels : RequestLabels)
  | requestDurations (labels : RequestLabels)
  | serverErrors (labels : RequestLabels)
  | validations (reason : Reason)
  | expirations (source : ExpirationSource)
  | authentications (outcome : AuthOutcome)
  | droppedTasks (task : String)
  deriving DecidableEq

namespace Counter

/-- The name of a counter and its labels. -/
def labelled : Counter → String × List (String × String)
  | requests l => ("http_requests_total", requestPairs l)
  | requestDurations l => ("http_request_duration_seconds", requestPairs l)
  | serverErrors l => ("http_server_errors_total", requestPairs l)
  | validations reason => ("license_validations_total", [("reason", reason.name)])
  | expirations source => ("license_expirations_total", [("source", source.name)])
  | authentications outcome => ("api_key_authentications_total", [("outcome", outcome.name)])
  | droppedTasks task => ("background_tasks_dropped_total", [("task", task)])
where
  /-- The labels of a request. -/
  requestPairs (l : RequestLabels) : List (String × String) :=
    [("method", l.method), ("path", l.path), ("status", toString l.status)]

/-- The counters that one request adds to: one for the request, one sample of its duration, and
one for an error of the server. -/
def ofRequest (labels : RequestLabels) : List Counter :=
  [requests labels, requestDurations labels] ++
    if 500 ≤ labels.status then [serverErrors labels] else []

end Counter

/-- Counts by counter. -/
abbrev Metrics := Tally Counter

/-- Adds to a counter; nothing is noted for a count of zero. -/
def Metrics.record (metrics : Metrics) (counter : Counter) (amount : Nat) : Metrics :=
  if amount = 0 then metrics
  else metrics.insert counter (metrics.count counter + amount)

theorem Metrics.count_record (metrics : Metrics) (counter wanted : Counter) (amount : Nat) :
    (metrics.record counter amount).count wanted =
      metrics.count wanted + if wanted = counter then amount else 0 := by
  unfold record
  split
  · next h => simp [h]
  · unfold Tally.count
    rw [Table.get?_insert]
    by_cases h : wanted = counter <;> simp [h]

end Licensing
