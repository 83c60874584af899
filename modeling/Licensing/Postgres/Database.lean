import Licensing.Failure

/-!
# The database

How a pool of connections is set up, and the migrations that bring the schema of a database up to
date.
-/

namespace Licensing.Postgres

/-- How a pool of connections is set up. Times are in seconds. -/
structure PoolOptions where
  url : String := "postgres://localhost/license_service"
  maxConnections : Nat := 10
  minConnections : Nat := 1
  acquireSeconds : Nat := 5
  idleSeconds : Nat := 600
  deriving DecidableEq

/-- Whether an address begins with the name of a scheme and a colon. -/
def hasScheme (url : String) : Bool :=
  match url.toList with
  | [] => false
  | c :: rest =>
    c.isAlpha && (rest.dropWhile fun d ↦ d.isAlphanum || "+-.".toList.contains d).head? = some ':'

/-- Opening a pool where no database can be reached. An address without a scheme is refused before
that. -/
def unreachable (options : PoolOptions) : Failure :=
  if hasScheme options.url then .noConnection none
  else .noConnection (some "error with configuration: relative URL without a base")

/-- A step in the history of the schema. -/
structure Migration where
  version : Nat
  description : String
  deriving DecidableEq

/-- All steps, in the order in which they are applied. -/
def migrations : List Migration :=
  [⟨1, "Create licenses table"⟩, ⟨2, "Create api_keys table"⟩]

/-- What applying a step, or asking for the last one applied, fails with if the pool is closed:
the table of steps cannot be made. -/
def closedForMigrations : Failure := .closedPool "Failed to create migrations table"

/-- Applies steps in order through a way to apply one; the first failure ends it. -/
def applyAll (apply : Migration → Except Failure Unit) : List Migration → Except Failure Unit
  | [] => .ok ()
  | migration :: rest => do
    apply migration
    applyAll apply rest

end Licensing.Postgres
