import Licensing.Net.Address
import Licensing.Postgres.Database
import Licensing.Scheduler
import Licensing.Settings.Basic

/-!
# Starting

What has to be in order before the service can run: its settings, its store, its scheduler and its
address, checked in this order.
-/

namespace Licensing

/-- Why the service could not start. -/
inductive StartFailure
  | badSettings
  | noDatabase
  | badAddress
  | failed (failure : Failure)
  deriving DecidableEq

/-- What is told of it. -/
def StartFailure.message : StartFailure → String
  | badSettings => "settings cannot be read"
  | noDatabase => "database.url (or DATABASE_URL) is required for postgres storage"
  | badAddress => "invalid IP address syntax"
  | failed failure => failure.message

namespace Settings

/-- How the pool of connections is set up. -/
def poolOptions (settings : Settings) (url : String) : Postgres.PoolOptions :=
  { url
    maxConnections := settings.database.maxConnections
    acquireSeconds := settings.database.acquireSeconds }

/-- Opens the store. A database needs an address, and is reached through a way to open a pool,
which may fail. -/
def openStore (settings : Settings) (connect : Postgres.PoolOptions → Option Failure) :
    Except StartFailure StoreKind :=
  match settings.storeKind with
  | .memory => .ok .memory
  | .postgres =>
    match settings.database.url with
    | none => .error .noDatabase
    | some url =>
      match connect (settings.poolOptions url) with
      | some failure => .error (.failed failure)
      | none => .ok .postgres

/-- The name of the job that sweeps. -/
def sweepJob : String := "expiration_sweep"

/-- The scheduler of the service: one job that sweeps. -/
def scheduler (settings : Settings) (run : Nat → JobRun) : Except Failure Scheduler :=
  ({} : Scheduler).register ⟨sweepJob, settings.sweeping.intervalSeconds * 1000, run⟩

/-- The address to listen at. -/
def address? (settings : Settings) : Option Net.Address :=
  Net.Address.ofText? settings.server.host.toList

/-- Whether the service can start to listen. -/
def startFault? (settings : Settings) (connect : Postgres.PoolOptions → Option Failure) :
    Option StartFailure :=
  match settings.openStore connect with
  | .error fault => some fault
  | .ok _ =>
    match settings.scheduler fun _ ↦ ⟨0, .ok ()⟩ with
    | .error failure => some (.failed failure)
    | .ok _ => if settings.address?.isSome then none else some .badAddress

end Settings

end Licensing
