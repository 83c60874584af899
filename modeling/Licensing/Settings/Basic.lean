import Licensing.ApiKey.Credential
import Licensing.Http.Handler
import Licensing.License.Sweep
import Licensing.World

/-!
# Settings

All that can be set, with what holds where nothing is set. Times are in seconds.
-/

namespace Licensing

namespace Settings

/-- Where the service listens, and how long it waits for background work when it stops. -/
structure Server where
  host : String := "0.0.0.0"
  port : Nat := 8080
  graceSeconds : Nat := 15

/-- How log entries are written. -/
inductive LogFormat
  | pretty
  | json
  deriving DecidableEq

namespace LogFormat

/-- The name of a format. -/
def name : LogFormat → String
  | pretty => "Pretty"
  | json => "Json"

/-- The format of that name in lower case. -/
def ofName? (text : String) : Option LogFormat := [pretty, json].find? (·.name.toLower == text)

end LogFormat

/-- What is logged and how. -/
structure Logging where
  level : String := "info"
  format : LogFormat := .pretty

/-- The kinds of stores. -/
inductive StoreKind
  | postgres
  | memory
  deriving DecidableEq

namespace StoreKind

/-- The name of a kind. -/
def name : StoreKind → String
  | postgres => "Postgres"
  | memory => "Memory"

/-- The kind of that name in lower case. -/
def ofName? (text : String) : Option StoreKind := [postgres, memory].find? (·.name.toLower == text)

end StoreKind

/-- The kind of store to use, if it is set. -/
structure Storage where
  kind : Option StoreKind := none

/-- How the database is reached. -/
structure Database where
  url : Option String := none
  maxConnections : Nat := 10
  acquireSeconds : Nat := 5
  runMigrations : Bool := true

/-- What operator tokens are checked against. -/
structure Auth where
  secret : Option String := none
  issuer : Option String := none
  audience : Option String := none

/-- How long the tasks that validations leave behind may take. -/
structure Validation where
  enrichSeconds : Nat := 15
  expireSeconds : Nat := 15

/-- How many background tasks there may be, and how long noting the use of a key may take. -/
structure Background where
  maxInFlight : Nat := 256
  noteUseSeconds : Nat := 5

/-- When sweeps are made, and the sizes of their pages. -/
structure Sweeping where
  atStart : Bool := true
  startupPageSize : Nat := 500
  scheduledPageSize : Nat := 1000
  intervalSeconds : Nat := 3600

/-- Whether metrics are shown, and where. -/
structure MetricsPage where
  enabled : Bool := true
  path : String := "/metrics"

end Settings

/-- All settings. -/
structure Settings where
  server : Settings.Server := {}
  logging : Settings.Logging := {}
  storage : Settings.Storage := {}
  database : Settings.Database := {}
  auth : Settings.Auth := {}
  apiKey : CredentialFormat := {}
  validation : Settings.Validation := {}
  background : Settings.Background := {}
  sweeping : Settings.Sweeping := {}
  metrics : Settings.MetricsPage := {}

namespace Settings

/-- The kind of store to use: the one that is set, else a database if its address is set. -/
def storeKind (settings : Settings) : StoreKind :=
  settings.storage.kind.getD (if settings.database.url.isSome then .postgres else .memory)

/-- What operator tokens are checked against. -/
def Auth.policy (auth : Auth) : Token.Policy := ⟨auth.secret, auth.issuer, auth.audience⟩

/-- The service with these settings. -/
def service (settings : Settings) : Http.Service where
  format := settings.apiKey
  policy := settings.auth.policy
  metricsPage := if settings.metrics.enabled then some settings.metrics.path else none

/-- The page sizes of sweeps. -/
def pageSizes (settings : Settings) : Sweep.PageSizes :=
  .of settings.sweeping.startupPageSize settings.sweeping.scheduledPageSize

/-- How long tasks may take, in milliseconds. -/
def timeouts (settings : Settings) : TaskTimeouts :=
  ⟨settings.validation.expireSeconds * 1000, settings.validation.enrichSeconds * 1000,
    settings.background.noteUseSeconds * 1000⟩

end Settings

end Licensing
