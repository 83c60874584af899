import Licensing.ApiKey.Keyring
import Licensing.CommandLine.Help
import Licensing.Settings.EnvFile
import Licensing.Settings.Reading
import Licensing.Startup

/-!
# Running commands

A command reads its settings from the variables, the file of variables and the files of settings,
opens the store, does its work and prints what came of it. An outcome is what the caller of the
program sees.
-/

namespace Licensing

/-- What a run of the program leaves: the code it ends with, and the lines it prints. For a fault
in the arguments the lines on the error output are not told. -/
structure Outcome where
  code : Nat
  output : List String := []
  errors : Option (List String) := some []
  deriving DecidableEq

namespace Outcome

/-- A run that ends well. -/
def success (output : List String) : Outcome := { code := 0, output }

/-- A run that ends with an error. -/
def failure (message : String) : Outcome := { code := 1, errors := some ["Error: " ++ message] }

end Outcome

/-- What surrounds a run of the program: its variables, the text of the file of variables, the
texts of the files of settings from the lowest to the highest, a way to open a pool of
connections, the time, and a source of random bytes. -/
structure Surroundings where
  environment : Settings.Environment
  envFile : Option String
  files : List String
  connect : Postgres.PoolOptions → Option Failure
  now : Instant
  random : List UInt8

namespace Surroundings

/-- The settings. -/
def settings? (around : Surroundings) : Option Settings :=
  let environment := match around.envFile with
    | some text => Settings.EnvFile.load around.environment text
    | none => around.environment
  Settings.load? around.files environment

/-- The settings and an open store, or why there is none. -/
def open? (around : Surroundings) : Except StartFailure Settings := do
  match around.settings? with
  | none => throw .badSettings
  | some settings =>
    let _ ← settings.openStore around.connect
    return settings

/-- The world of a single command: empty stores. -/
def world (around : Surroundings) : World := { now := around.now, random := around.random }

end Surroundings

namespace Command

/-- The lines that show a key just created. -/
def createdLines (created : ApiKey.Created) : List String :=
  let key := created.apiKey
  ["API key created",
    "  id:          " ++ key.id.toText,
    "  prefix:      " ++ key.lookup,
    "  description: " ++ key.description] ++
    (key.productId.map fun id ↦ "  product_id:  " ++ id.toText).toList ++
    ["", created.fullKey, "", "Store this key now; it cannot be shown again."]

/-- The line that tells what a sweep did. -/
def reportLine (report : Sweep.Report) : String :=
  s!"Reconciliation finished: {report.pages} pages, {report.scanned} scanned, " ++
    s!"{report.expired} expired, {report.failed} failed"

/-- The outcome of an operation. -/
def outcome {α : Type} (result : Except Failure α) (lines : α → List String) : Outcome :=
  match result with
  | .ok value => .success (lines value)
  | .error failure => .failure failure.message

/-- Runs a command. Serving comes to its end at once; what it answers while it runs is not
printed. -/
def run (around : Surroundings) (command : Command) : Outcome :=
  match around.open? with
  | .error fault => .failure fault.message
  | .ok settings =>
    match command with
    | serve =>
      match settings.startFault? around.connect with
      | some fault => .failure fault.message
      | none => .success []
    | createKey description productId =>
      outcome (around.world.run (ApiKey.create settings.apiKey description productId).run).1
        createdLines
    | reconcile =>
      outcome (around.world.sweep settings.pageSizes .startup).1 fun report ↦
        (report.map reportLine).toList

end Command

/-- Runs the program with arguments. -/
def runProgram (around : Surroundings) (arguments : List String) : Outcome :=
  match Command.parse arguments with
  | .ok command => command.run around
  | .error (.help topic) => .success topic.lines
  | .error .version => .success [HelpTopic.versionLine]
  | .error _ => { code := 2, errors := none }

end Licensing
