import Licensing.Program

/-!
# Sweeps

A sweep goes through the active licenses in order of expiry, a page at a time, and expires those
that are overdue at the time their page was read. A license that was expired leaves the list, so
the next page starts after those that stayed. A write that fails is counted and does not stop the
sweep; a listing that fails does.

One page is one program (`Sweep.page`); a pass repeats it (`Sweep.pass`).
-/

namespace Licensing.Sweep

/-- What starts a sweep: the start of the service, or the schedule. -/
inductive Trigger
  | startup
  | scheduled
  deriving DecidableEq

/-- The name of a trigger. -/
def Trigger.name : Trigger → String
  | startup => "startup"
  | scheduled => "scheduled"

/-- What the expirations of a sweep are counted under. -/
def Trigger.source : Trigger → ExpirationSource
  | startup => .startup
  | scheduled => .scheduled

/-- What a sweep did. -/
structure Report where
  trigger : Trigger
  pages : Nat
  scanned : Nat
  expired : Nat
  failed : Nat
  deriving DecidableEq

/-- Where a sweep stands: what it did so far, and where the next page starts. -/
structure Progress where
  report : Report
  offset : Nat
  deriving DecidableEq

/-- The beginning of a sweep. -/
def Progress.start (trigger : Trigger) : Progress := ⟨⟨trigger, 0, 0, 0, 0⟩, 0⟩

/-- The log entry for a license that could not be expired. -/
def expiryFailed (id : Uuid) (trigger : Trigger) (failure : Failure) : LogEntry :=
  ⟨.warn, "Failed to expire license",
    [("license_id", id.toText), ("trigger", trigger.name), ("error", failure.message)]⟩

/-- Expires licenses one after another; how many writes succeeded and how many failed. -/
def expireAll (trigger : Trigger) : List License → Program (Nat × Nat)
  | [] => return (0, 0)
  | license :: rest => do
    match ← Program.perform (.store (.updateStatus license.id .expired)) with
    | .ok () =>
      let (expired, failed) ← expireAll trigger rest
      return (expired + 1, failed)
    | .error failure =>
      Program.perform (.log (expiryFailed license.id trigger failure))
      let (expired, failed) ← expireAll trigger rest
      return (expired, failed + 1)

/-- One page, and whether it was the last: a page that is not full, or, by schedule, one after
which the next would start past all that were counted. -/
def page (limit : Nat) (progress : Progress) : Operation (Progress × Bool) := do
  let report := progress.report
  let listed ← Operation.call (.list (.activeByExpiry limit progress.offset))
  let now ← Operation.clock
  let overdue := listed.items.filter (·.isExpiredAt now)
  let (expired, failed) ← ExceptT.lift (expireAll report.trigger overdue)
  let fetched := listed.items.length
  let report := { report with
    pages := report.pages + 1
    scanned := report.scanned + fetched
    expired := report.expired + expired
    failed := report.failed + failed }
  let offset := progress.offset + (fetched - expired)
  let beyond := report.trigger = .scheduled && 0 < listed.total && listed.total < offset
  return (⟨report, offset⟩, fetched < limit || beyond)

/-- At most that many pages, up to the last; `none` if there are more. -/
def pages (limit : Nat) : Nat → Progress → Operation (Option Report)
  | 0, _ => return none
  | most + 1, progress => do
    let (progress, last) ← page limit progress
    if last then return some progress.report else pages limit most progress

/-- A whole pass of at most that many pages. The expirations are counted when it ends. -/
def pass (most limit : Nat) (trigger : Trigger) : Operation (Option Report) := do
  let report ← pages limit most (.start trigger)
  match report with
  | some report => Operation.count (.expirations trigger.source) report.expired
  | none => pure ()
  return report

/-- The page sizes of sweeps, at least one. -/
structure PageSizes where
  startup : Nat
  scheduled : Nat

/-- The page sizes asked for, brought into bounds. -/
def PageSizes.of (startup scheduled : Nat) : PageSizes := ⟨max startup 1, max scheduled 1⟩

/-- The page size of a trigger. -/
def PageSizes.ofTrigger (sizes : PageSizes) : Trigger → Nat
  | .startup => sizes.startup
  | .scheduled => sizes.scheduled

end Licensing.Sweep
